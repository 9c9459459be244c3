import Mathlib.Data.Char
import Mathlib.Data.Finset.Sort
import Mathlib.Data.List.Lex
import Mathlib.Algebra.Order.Ring.Int
import Civfix.KeyedTables

/-! # Chat presence in memory and in Redis

A room has one entry for each live connection, `<userId>::<connId>` with the time it was last
seen. `InMemoryChatPresence` keeps a map of maps; `RedisChatPresence` keeps a sorted set for
each room and changes it in one MULTI. Both drop the entries that were last seen more than
`PRESENCE_TTL_MS` ago before they answer.

`Presence` says what they are for: which connections of which users are in a room. Each
operation comes with the reading of the clock it is made at. -/
namespace Civfix.ChatPresence

open KeyedTables

abbrev Text := List Char
abbrev RoomId := Text
abbrev ConnId := Text
abbrev Millis := ℤ

/-- The id of an account; it has no separator in it. -/
structure Uuid where
  text : Text
  noColon : ':' ∉ text

@[ext] theorem Uuid.ext {u v : Uuid} (h : u.text = v.text) : u = v := by
  cases u
  cases v
  cases h
  rfl

instance : DecidableEq Uuid := fun u v => decidable_of_iff (u.text = v.text) ⟨Uuid.ext, congrArg Uuid.text⟩

def PRESENCE_TTL_MS : Millis := 90000

def PRESENCE_KEY_PREFIX : Text := "presence:".toList

def SEP : Text := [':', ':']

def member (userId connId : Text) : Text := userId ++ SEP ++ connId

/-- The text before the first separator, or all of it. -/
def userOf : Text → Text
  | [] => []
  | [c] => [c]
  | c :: d :: t => if c = ':' ∧ d = ':' then [] else c :: userOf (d :: t)

theorem userOf_member {userId : Text} (h : ':' ∉ userId) (connId : Text) : userOf (member userId connId) = userId := by
  unfold member SEP
  induction userId with
  | nil => simp [userOf]
  | cons c t ih =>
    simp only [List.mem_cons, not_or] at h
    have htail := ih h.2
    -- The text goes on after `c`, with the rest of the id or with the separator.
    cases t with
    | nil =>
      simp only [List.nil_append, List.cons_append, userOf] at htail ⊢
      rw [if_neg (fun hc => h.1 hc.1.symm), htail]
    | cons d t =>
      simp only [List.cons_append, userOf] at htail ⊢
      rw [if_neg (fun hc => h.1 hc.1.symm), htail]

theorem member_inj {u u' : Text} {c c' : ConnId} (h : ':' ∉ u) (h' : ':' ∉ u') (heq : member u c = member u' c') :
    u = u' ∧ c = c' := by
  have hu : u = u' := by rw [← userOf_member h c, heq, userOf_member h' c']
  subst hu
  exact ⟨rfl, List.append_cancel_left heq⟩

def distinctUsers (members : List Text) : List Text := (members.map userOf).toFinset.sort

inductive Op where
  | join (cleanupId : RoomId) (connId : ConnId) (userId : Uuid)
  | leave (cleanupId : RoomId) (connId : ConnId) (userId : Uuid)
  | refresh (cleanupId : RoomId) (connId : ConnId) (userId : Uuid)
  | online (cleanupId : RoomId)

inductive Reply where
  | joined (online : List Text) (userJoined : Bool)
  | left (online : List Text) (userGone : Bool)
  | refreshed
  | online (users : List Text)
  deriving DecidableEq

/-! ## In memory -/

structure Seen where
  member : Text
  seen : Millis

structure Room where
  cleanupId : RoomId
  entries : Table Seen.member

structure Memory where
  rooms : Table Room.cleanupId

namespace Memory

variable (s : Memory) (cleanupId : RoomId) (now : Millis)

def empty : Memory := ⟨.empty _⟩

def prune (room : Table Seen.member) : Table Seen.member := room.filter (fun x => ¬ x.seen < now - PRESENCE_TTL_MS)

/-- The room, which is created if there is none. -/
def roomFor : Table Seen.member := (s.rooms.find? cleanupId).elim (.empty _) (·.entries)

def keys (room : Table Seen.member) : List Text := room.rows.map (·.member)

def setRoom (room : Table Seen.member) : Memory := ⟨s.rooms.put ⟨cleanupId, room⟩⟩

def join (connId : ConnId) (userId : Uuid) : Memory × Reply :=
  let room := (prune now (s.roomFor cleanupId)).put ⟨member userId.text connId, now⟩
  let userConns := ((keys room).filter (fun m => userOf m = userId.text)).length
  (s.setRoom cleanupId room, .joined (distinctUsers (keys room)) (userConns ≤ 1))

def leave (connId : ConnId) (userId : Uuid) : Memory × Reply :=
  let before := s.roomFor cleanupId
  let removed := (before.find? (member userId.text connId)).isSome
  let room := prune now (before.remove (member userId.text connId))
  let userGone := removed ∧ ¬ (keys room).any (fun m => userOf m = userId.text)
  (if (keys room).length = 0 then ⟨s.rooms.remove cleanupId⟩ else s.setRoom cleanupId room,
    .left (distinctUsers (keys room)) userGone)

def refresh (connId : ConnId) (userId : Uuid) : Memory × Reply :=
  (s.setRoom cleanupId ((s.roomFor cleanupId).put ⟨member userId.text connId, now⟩), .refreshed)

def online : Memory × Reply :=
  match s.rooms.find? cleanupId with
  | none => (s, .online [])
  | some room => (s.setRoom cleanupId (prune now room.entries), .online (distinctUsers (keys (prune now room.entries))))

def step : Op → Memory × Reply
  | .join c connId userId => s.join c now connId userId
  | .leave c connId userId => s.leave c now connId userId
  | .refresh c connId userId => s.refresh c now connId userId
  | .online c => s.online c now

end Memory

/-! ## In Redis -/

structure Scored where
  key : Text
  member : Text
  score : Millis

/-- The sorted sets of the server; one without members is not there. -/
structure Redis where
  entries : Table (fun x : Scored => (x.key, x.member))

namespace Redis

variable (s : Redis)

def empty : Redis := ⟨.empty _⟩

def zadd (key : Text) (score : Millis) (m : Text) : Redis := ⟨s.entries.put ⟨key, m, score⟩⟩

def zrem (key m : Text) : Redis × ℕ :=
  (⟨s.entries.remove (key, m)⟩, if (s.entries.find? (key, m)).isSome then 1 else 0)

/-- `ZREMRANGEBYSCORE key -inf (bound`: the bound itself is not in the range. -/
def zremrangebyscore (key : Text) (bound : Millis) : Redis :=
  ⟨s.entries.filter (fun x => ¬ (x.key = key ∧ x.score < bound))⟩

/-- `ZRANGE key 0 -1`: by score, and by member where scores are equal. -/
def zrange (key : Text) : List Text :=
  ((s.entries.rows.filter (fun x => x.key = key)).mergeSort
    (fun a b => a.score < b.score ∨ a.score = b.score ∧ a.member ≤ b.member)).map (·.member)

def key (cleanupId : RoomId) : Text := PRESENCE_KEY_PREFIX ++ cleanupId

def join (cleanupId : RoomId) (now : Millis) (connId : ConnId) (userId : Uuid) : Redis × Reply :=
  let s' := (s.zremrangebyscore (key cleanupId) (now - PRESENCE_TTL_MS)).zadd (key cleanupId) now
    (member userId.text connId)
  let members := s'.zrange (key cleanupId)
  let userConns := (members.filter (fun m => userOf m = userId.text)).length
  (s', .joined (distinctUsers members) (userConns = 1))

def leave (cleanupId : RoomId) (now : Millis) (connId : ConnId) (userId : Uuid) : Redis × Reply :=
  let removed := s.zrem (key cleanupId) (member userId.text connId)
  let s' := removed.1.zremrangebyscore (key cleanupId) (now - PRESENCE_TTL_MS)
  let members := s'.zrange (key cleanupId)
  let userGone := removed.2 > 0 ∧ ¬ members.any (fun m => userOf m = userId.text)
  (s', .left (distinctUsers members) userGone)

def refresh (cleanupId : RoomId) (now : Millis) (connId : ConnId) (userId : Uuid) : Redis × Reply :=
  (s.zadd (key cleanupId) now (member userId.text connId), .refreshed)

def online (cleanupId : RoomId) (now : Millis) : Redis × Reply :=
  let s' := s.zremrangebyscore (key cleanupId) (now - PRESENCE_TTL_MS)
  (s', .online (distinctUsers (s'.zrange (key cleanupId))))

def step (now : Millis) : Op → Redis × Reply
  | .join c connId userId => s.join c now connId userId
  | .leave c connId userId => s.leave c now connId userId
  | .refresh c connId userId => s.refresh c now connId userId
  | .online c => s.online c now

end Redis

/-- The replies to a sequence of operations. -/
def replies {σ : Type} (step : σ → Millis → Op → σ × Reply) : σ → List (Millis × Op) → List Reply
  | _, [] => []
  | s, (now, op) :: ops => (step s now op).2 :: replies step (step s now op).1 ops

/-! ## Who is in a room -/

structure Connection where
  user : Uuid
  conn : ConnId
  deriving DecidableEq

/-- When each connection of a room was last seen. -/
abbrev Presence := RoomId → Connection → Option Millis

namespace Presence

def empty : Presence := fun _ _ => none

def prune (p : Presence) (now : Millis) (room : RoomId) : Presence := fun r k =>
  if r = room then (p r k).filter (fun t => now - PRESENCE_TTL_MS ≤ t) else p r k

def set (p : Presence) (room : RoomId) (k : Connection) (t : Option Millis) : Presence := fun r k' =>
  if r = room ∧ k' = k then t else p r k'

def step (p : Presence) (now : Millis) : Op → Presence
  | .join c conn user => (p.prune now c).set c ⟨user, conn⟩ (some now)
  | .leave c conn user => (p.set c ⟨user, conn⟩ none).prune now c
  | .refresh c conn user => p.set c ⟨user, conn⟩ (some now)
  | .online c => p.prune now c

/-- The list has the users of the room, in order and each once. -/
structure Lists (p : Presence) (room : RoomId) (users : List Text) : Prop where
  sorted : users.SortedLT
  mem : ∀ x, x ∈ users ↔ ∃ k, p room k ≠ none ∧ x = k.user.text

/-- What an operation should reply: the users of the room after it; that the user has joined, if
no other connection of the user is there; that the user has gone, if the connection was there
and none is left. -/
def Meets (p : Presence) (now : Millis) : Op → Reply → Prop
  | .join c conn user, .joined online userJoined =>
    (p.step now (.join c conn user)).Lists c online ∧
      (userJoined = true ↔ ∀ k, k.user = user → p.step now (.join c conn user) c k ≠ none → k.conn = conn)
  | .leave c conn user, .left online userGone =>
    (p.step now (.leave c conn user)).Lists c online ∧
      (userGone = true ↔ p c ⟨user, conn⟩ ≠ none ∧ ∀ k, k.user = user → p.step now (.leave c conn user) c k = none)
  | .refresh .., .refreshed => True
  | .online c, .online users => (p.step now (.online c)).Lists c users
  | _, _ => False

def AllMeet : Presence → List (Millis × Op) → List Reply → Prop
  | _, [], [] => True
  | p, (now, op) :: ops, r :: rs => p.Meets now op r ∧ AllMeet (p.step now op) ops rs
  | _, _, _ => False

/-- Who is in which room after a sequence of operations. -/
def after : Presence → List (Millis × Op) → Presence
  | p, [] => p
  | p, (now, op) :: ops => after (p.step now op) ops

end Presence

/-! ## The two stores hold the same entries -/

/-- The entries of each room, by their text. -/
abbrev View := RoomId → Text → Option Millis

namespace View

def prune (v : View) (now : Millis) (room : RoomId) : View := fun r x =>
  if r = room then (v r x).filter (fun t => now - PRESENCE_TTL_MS ≤ t) else v r x

def set (v : View) (room : RoomId) (y : Text) (t : Option Millis) : View := fun r x =>
  if r = room ∧ x = y then t else v r x

def step (v : View) (now : Millis) : Op → View
  | .join c conn user => (v.prune now c).set c (member user.text conn) (some now)
  | .leave c conn user => (v.set c (member user.text conn) none).prune now c
  | .refresh c conn user => v.set c (member user.text conn) (some now)
  | .online c => v.prune now c

/-- The list has the entries of the room, each once. -/
structure Enumerates (v : View) (room : RoomId) (l : List Text) : Prop where
  nodup : l.Nodup
  mem : ∀ x, x ∈ l ↔ v room x ≠ none

theorem Enumerates.perm {v : View} {room : RoomId} {l l' : List Text} (h : v.Enumerates room l)
    (h' : v.Enumerates room l') :
    l.Perm l' :=
  (List.perm_ext_iff_of_nodup h.nodup h'.nodup).mpr (fun x => (h.mem x).trans (h'.mem x).symm)

end View

theorem distinctUsers_perm {l l' : List Text} (h : l.Perm l') : distinctUsers l = distinctUsers l' := by
  unfold distinctUsers
  rw [List.toFinset_eq_of_perm _ _ (h.map userOf)]

/-- What an operation replies, in terms of the entries before it and after it. -/
def View.Answers (v : View) (now : Millis) : Op → Reply → Prop
  | .join c conn user, r => ∃ l, (v.step now (.join c conn user)).Enumerates c l ∧
    r = .joined (distinctUsers l) ((l.filter (fun m => userOf m = user.text)).length = 1)
  | .leave c conn user, r => ∃ l, (v.step now (.leave c conn user)).Enumerates c l ∧
    r = .left (distinctUsers l) ((v c (member user.text conn)).isSome ∧ ¬ l.any (fun m => userOf m = user.text))
  | .refresh .., r => r = .refreshed
  | .online c, r => ∃ l, (v.step now (.online c)).Enumerates c l ∧ r = .online (distinctUsers l)

/-- The entries decide the reply. -/
theorem View.Answers.unique {v : View} {now : Millis} {op : Op} {r r' : Reply} (h : v.Answers now op r)
    (h' : v.Answers now op r') : r = r' := by
  cases op with
  | join c conn user =>
    obtain ⟨l, hl, rfl⟩ := h
    obtain ⟨l', hl', rfl⟩ := h'
    have hperm := hl.perm hl'
    rw [distinctUsers_perm hperm, (hperm.filter _).length_eq]
  | leave c conn user =>
    obtain ⟨l, hl, rfl⟩ := h
    obtain ⟨l', hl', rfl⟩ := h'
    have hperm := hl.perm hl'
    rw [distinctUsers_perm hperm, hperm.any_eq]
  | refresh c conn user => exact h.trans h'.symm
  | online c =>
    obtain ⟨l, hl, rfl⟩ := h
    obtain ⟨l', hl', rfl⟩ := h'
    rw [distinctUsers_perm (hl.perm hl')]

namespace Memory

variable {s : Memory} {c : RoomId} {now : Millis}

def view (s : Memory) : View := fun room x => ((s.roomFor room).find? x).map (·.seen)

theorem roomFor_setRoom (room : Table Seen.member) (r : RoomId) :
    (s.setRoom c room).roomFor r = if r = c then room else s.roomFor r := by
  unfold roomFor setRoom
  rw [Table.find?_put]
  by_cases hr : r = c
  · simp [hr]
  · simp [hr]

theorem view_setRoom (room : Table Seen.member) :
    (s.setRoom c room).view = fun r x => if r = c then (room.find? x).map (·.seen) else s.view r x := by
  funext r x
  simp only [view, roomFor_setRoom]
  split <;> rfl

theorem find?_prune (room : Table Seen.member) (x : Text) :
    ((prune now room).find? x).map (·.seen) = ((room.find? x).map (·.seen)).filter
      (fun t => now - PRESENCE_TTL_MS ≤ t) := by
  unfold prune
  rw [Table.find?_filter]
  cases room.find? x with
  | none => rfl
  | some y => simp [Option.filter]

theorem find?_set (room : Table Seen.member) (y x : Text) :
    ((room.put ⟨y, now⟩).find? x).map (·.seen) = if x = y then some now else (room.find? x).map (·.seen) := by
  rw [Table.find?_put]
  split <;> rfl

theorem find?_delete (room : Table Seen.member) (y x : Text) :
    ((room.remove y).find? x).map (·.seen) = if x = y then none else (room.find? x).map (·.seen) := by
  rw [Table.find?_remove]
  split <;> rfl

theorem enumerates_keys {v : View} {room : Table Seen.member} (h : ∀ x, (room.find? x).map (·.seen) = v c x) :
    v.Enumerates c (keys room) := by
  refine ⟨room.nodup, fun x => ?_⟩
  rw [← h x, ne_eq, Option.map_eq_none_iff, Table.find?_eq_none, not_not]
  rfl

theorem enumerates_setRoom {v : View} {room : Table Seen.member} (h : (s.setRoom c room).view = v) :
    v.Enumerates c (keys room) := by
  subst h
  refine enumerates_keys (fun x => ?_)
  simp only [view_setRoom, if_true]

theorem view_join (conn : ConnId) (user : Uuid) :
    (s.join c now conn user).1.view = View.step s.view now (.join c conn user) := by
  simp only [join, view_setRoom]
  funext r x
  simp only [View.step, View.set, View.prune]
  by_cases hr : r = c
  · subst hr
    simp only [if_true, true_and, find?_set, find?_prune]
    rfl
  · simp [hr]

theorem find?_leave (conn : ConnId) (user : Uuid) (x : Text) :
    ((prune now ((s.roomFor c).remove (member user.text conn))).find? x).map (·.seen) =
      View.step s.view now (.leave c conn user) c x := by
  simp only [View.step, View.set, View.prune, if_true, true_and, find?_prune, find?_delete]
  rfl

theorem view_leave (conn : ConnId) (user : Uuid) :
    (s.leave c now conn user).1.view = View.step s.view now (.leave c conn user) := by
  simp only [leave]
  funext r x
  split
  · next hempty =>
    by_cases hr : r = c
    · subst hr
      -- The room is gone, and there was nothing left in it.
      have hnone : keys (prune now ((s.roomFor r).remove (member user.text conn))) = [] :=
        List.eq_nil_of_length_eq_zero hempty
      have hfind : (prune now ((s.roomFor r).remove (member user.text conn))).find? x = none := by
        rw [Table.find?_eq_none]
        change x ∉ keys _
        rw [hnone]
        exact List.not_mem_nil
      rw [← find?_leave, hfind]
      simp [view, roomFor, Table.find?_remove]
    · simp [view, roomFor, Table.find?_remove, hr, View.step, View.set, View.prune]
  · rw [view_setRoom]
    by_cases hr : r = c
    · subst hr
      simp only [if_true, find?_leave]
    · simp [hr, View.step, View.set, View.prune]

theorem view_refresh (conn : ConnId) (user : Uuid) :
    (s.refresh c now conn user).1.view = View.step s.view now (.refresh c conn user) := by
  simp only [refresh, view_setRoom]
  funext r x
  simp only [View.step, View.set]
  by_cases hr : r = c
  · subst hr
    simp only [if_true, true_and, find?_set]
    rfl
  · simp [hr]

theorem view_online : (s.online c now).1.view = View.step s.view now (.online c) := by
  unfold online
  funext r x
  split
  · next hnone =>
    simp only [View.step, View.prune]
    split
    · next hr => simp [hr, view, roomFor, hnone]
    · rfl
  · next room hroom =>
    rw [view_setRoom]
    simp only [View.step, View.prune]
    by_cases hr : r = c
    · subst hr
      simp only [if_true, find?_prune]
      simp [view, roomFor, hroom]
    · simp [hr]

theorem view_step (op : Op) : (s.step now op).1.view = View.step s.view now op := by
  cases op with
  | join c conn user => exact view_join conn user
  | leave c conn user => exact view_leave conn user
  | refresh c conn user => exact view_refresh conn user
  | online c => exact view_online

theorem answers_step (op : Op) : s.view.Answers now op (s.step now op).2 := by
  cases op with
  | join c conn user =>
    have hview : (s.join c now conn user).1.view = View.step s.view now (.join c conn user) := view_join conn user
    have hl := enumerates_setRoom hview
    refine ⟨_, hl, ?_⟩
    -- The connection itself is there, so at most one entry of the user is exactly one.
    have hmem : member user.text conn ∈ keys ((prune now (s.roomFor c)).put ⟨member user.text conn, now⟩) := by
      rw [hl.mem]
      simp [View.step, View.set]
    have hpos : 0 < ((keys ((prune now (s.roomFor c)).put ⟨member user.text conn, now⟩)).filter
        (fun m => userOf m = user.text)).length :=
      List.length_pos_of_mem (List.mem_filter.mpr ⟨hmem, decide_eq_true (userOf_member user.noColon conn)⟩)
    have hone : ∀ n : ℕ, 0 < n → (n ≤ 1 ↔ n = 1) := by omega
    simp only [step, join, hone _ hpos]
  | leave c conn user =>
    refine ⟨_, enumerates_keys (find?_leave conn user), ?_⟩
    simp only [step, leave, view, Option.isSome_map]
  | refresh c conn user => rfl
  | online c =>
    have hview : (s.online c now).1.view = View.step s.view now (.online c) := view_online
    simp only [step]
    unfold online at hview ⊢
    split at hview
    · next hnone =>
      refine ⟨[], ⟨List.nodup_nil, fun x => ?_⟩, by simp [distinctUsers]⟩
      simp only at hview
      rw [← hview]
      simp [view, roomFor, hnone]
    · exact ⟨_, enumerates_setRoom hview, rfl⟩

end Memory

namespace Redis

variable {s : Redis} {c : RoomId} {now : Millis}

def view (s : Redis) : View := fun room x => (s.entries.find? (key room, x)).map (·.score)

theorem key_inj {r c : RoomId} : key r = key c ↔ r = c := by
  unfold key
  exact ⟨List.append_cancel_left, congrArg _⟩

theorem view_zadd (m : Text) : (s.zadd (key c) now m).view = View.set s.view c m (some now) := by
  funext r x
  simp only [view, zadd, View.set, Table.find?_put, Prod.mk.injEq, key_inj]
  split <;> rfl

theorem view_zrem (m : Text) : (s.zrem (key c) m).1.view = View.set s.view c m none := by
  funext r x
  simp only [view, zrem, View.set, Table.find?_remove, Prod.mk.injEq, key_inj]
  split <;> rfl

theorem view_zremrangebyscore :
    (s.zremrangebyscore (key c) (now - PRESENCE_TTL_MS)).view = View.prune s.view now c := by
  funext r x
  simp only [view, zremrangebyscore, View.prune, Table.find?_filter]
  cases hx : s.entries.find? (key r, x) with
  | none => simp
  | some y =>
    have hk : y.key = key r := congrArg Prod.fst (Table.key_of_find? hx)
    by_cases hr : r = c
    · simp [Option.filter, hk, hr]
    · simp [Option.filter, hk, key_inj, hr]

theorem enumerates_zrange (room : RoomId) : s.view.Enumerates room (s.zrange (key room)) := by
  have hperm : (s.zrange (key room)).Perm ((s.entries.rows.filter (fun x => x.key = key room)).map (·.member)) :=
    (List.mergeSort_perm _ _).map _
  refine ⟨hperm.nodup_iff.mpr ?_, fun x => ?_⟩
  · have hnodup : ((s.entries.rows.filter (fun x => x.key = key room)).map (fun x => (x.key, x.member))).Nodup :=
      (List.filter_sublist.map _).nodup s.entries.nodup
    refine List.Nodup.of_map (fun m => (key room, m)) ?_
    rw [List.map_map]
    refine (List.map_congr_left (fun x hx => ?_)) ▸ hnodup
    have hk : x.key = key room := by simpa using (List.mem_filter.mp hx).2
    simp [hk]
  · rw [hperm.mem_iff, view, ne_eq, Option.map_eq_none_iff, Table.find?_eq_none, not_not]
    simp only [List.mem_map, List.mem_filter, decide_eq_true_eq, Prod.mk.injEq]
    constructor
    · rintro ⟨y, ⟨hy, hk⟩, rfl⟩
      exact ⟨y, hy, hk, rfl⟩
    · rintro ⟨y, hy, hk, rfl⟩
      exact ⟨y, ⟨hy, hk⟩, rfl⟩

theorem view_step (op : Op) : (s.step now op).1.view = View.step s.view now op := by
  cases op with
  | join c conn user => simp only [step, join, view_zadd, view_zremrangebyscore, View.step]
  | leave c conn user => simp only [step, leave, view_zrem, view_zremrangebyscore, View.step]
  | refresh c conn user => simp only [step, refresh, view_zadd, View.step]
  | online c => simp only [step, online, view_zremrangebyscore, View.step]

theorem answers_step (op : Op) : s.view.Answers now op (s.step now op).2 := by
  have hview : (s.step now op).1.view = View.step s.view now op := view_step op
  cases op with
  | join c conn user =>
    refine ⟨_, ?_, rfl⟩
    rw [← hview]
    exact enumerates_zrange c
  | leave c conn user =>
    refine ⟨((s.zrem (key c) (member user.text conn)).1.zremrangebyscore (key c) (now - PRESENCE_TTL_MS)).zrange
      (key c), ?_, ?_⟩
    · rw [← hview]
      exact enumerates_zrange c
    · have hremoved : ((s.zrem (key c) (member user.text conn)).2 > 0) ↔ (s.view c (member user.text conn)).isSome := by
        simp only [zrem, view, Option.isSome_map]
        split <;> simp_all
      simp only [step, leave, hremoved]
  | refresh c conn user => rfl
  | online c =>
    refine ⟨_, ?_, rfl⟩
    rw [← hview]
    exact enumerates_zrange c

end Redis

/-! ## The entries are the connections -/

def Connection.entry (k : Connection) : Text := member k.user.text k.conn

theorem Connection.userOf_entry (k : Connection) : userOf k.entry = k.user.text := userOf_member k.user.noColon k.conn

theorem Connection.entry_inj {k k' : Connection} (h : k.entry = k'.entry) : k = k' := by
  obtain ⟨hu, hc⟩ := member_inj k.user.noColon k'.user.noColon h
  obtain ⟨u, c⟩ := k
  obtain ⟨u', c'⟩ := k'
  obtain rfl : u = u' := Uuid.ext hu
  obtain rfl : c = c' := hc
  rfl

structure Tracks (v : View) (p : Presence) : Prop where
  entries : ∀ room k, v room k.entry = p room k
  only : ∀ room x, v room x ≠ none → ∃ k : Connection, x = k.entry

namespace Tracks

variable {v : View} {p : Presence} {now : Millis} {c : RoomId} {l : List Text}

theorem prune (h : Tracks v p) : Tracks (v.prune now c) (p.prune now c) := by
  refine ⟨fun room k => ?_, fun room x hx => ?_⟩
  · simp only [View.prune, Presence.prune, h.entries]
  · refine h.only room x (fun hnone => hx ?_)
    simp only [View.prune, hnone]
    split <;> rfl

theorem set (h : Tracks v p) (k : Connection) (t : Option Millis) : Tracks (v.set c k.entry t) (p.set c k t) := by
  refine ⟨fun room k' => ?_, fun room x hx => ?_⟩
  · have hinj : k'.entry = k.entry ↔ k' = k := ⟨Connection.entry_inj, congrArg _⟩
    simp only [View.set, Presence.set, h.entries, hinj]
  · simp only [View.set] at hx
    split at hx
    · next heq => exact ⟨k, heq.2⟩
    · exact h.only room x hx

theorem step (h : Tracks v p) (op : Op) : Tracks (v.step now op) (p.step now op) := by
  cases op with
  | join c conn user => exact h.prune.set ⟨user, conn⟩ (some now)
  | leave c conn user => exact (h.set ⟨user, conn⟩ none).prune
  | refresh c conn user => exact h.set ⟨user, conn⟩ (some now)
  | online c => exact h.prune

theorem mem_iff (h : Tracks v p) (hl : v.Enumerates c l) (x : Text) : x ∈ l ↔ ∃ k, p c k ≠ none ∧ x = k.entry := by
  rw [hl.mem]
  constructor
  · intro hx
    obtain ⟨k, rfl⟩ := h.only c x hx
    exact ⟨k, h.entries c k ▸ hx, rfl⟩
  · rintro ⟨k, hk, rfl⟩
    rwa [h.entries]

theorem lists (h : Tracks v p) (hl : v.Enumerates c l) : p.Lists c (distinctUsers l) := by
  refine ⟨Finset.sortedLT_sort _, fun x => ?_⟩
  simp only [distinctUsers, Finset.mem_sort, List.mem_toFinset, List.mem_map, h.mem_iff hl]
  constructor
  · rintro ⟨_, ⟨k, hk, rfl⟩, rfl⟩
    exact ⟨k, hk, k.userOf_entry⟩
  · rintro ⟨k, hk, rfl⟩
    exact ⟨_, ⟨k, hk, rfl⟩, k.userOf_entry⟩

theorem mem_filter_iff (h : Tracks v p) (hl : v.Enumerates c l) (user : Uuid) (x : Text) :
    x ∈ l.filter (fun m => userOf m = user.text) ↔ ∃ k, p c k ≠ none ∧ k.user = user ∧ x = k.entry := by
  simp only [List.mem_filter, h.mem_iff hl, decide_eq_true_eq]
  constructor
  · rintro ⟨⟨k, hk, rfl⟩, hu⟩
    exact ⟨k, hk, Uuid.ext (k.userOf_entry.symm.trans hu), rfl⟩
  · rintro ⟨k, hk, rfl, rfl⟩
    exact ⟨⟨k, hk, rfl⟩, k.userOf_entry⟩

theorem one_iff (h : Tracks v p) (hl : v.Enumerates c l) {k : Connection} (hk : p c k ≠ none) :
    (l.filter (fun m => userOf m = k.user.text)).length = 1 ↔ ∀ k', k'.user = k.user → p c k' ≠ none →
      k'.conn = k.conn := by
  have hmem := h.mem_filter_iff hl k.user
  constructor
  · intro hone k' hu hk'
    obtain ⟨x, hx⟩ := List.length_eq_one_iff.mp hone
    have h₁ : k.entry ∈ [x] := hx ▸ (hmem _).mpr ⟨k, hk, rfl, rfl⟩
    have h₂ : k'.entry ∈ [x] := hx ▸ (hmem _).mpr ⟨k', hk', hu, rfl⟩
    rw [List.mem_singleton] at h₁ h₂
    rw [Connection.entry_inj (h₂.trans h₁.symm)]
  · intro honly
    have hperm : (l.filter (fun m => userOf m = k.user.text)).Perm [k.entry] := by
      refine (List.perm_ext_iff_of_nodup (hl.nodup.filter _) (List.nodup_singleton _)).mpr (fun x => ?_)
      rw [hmem, List.mem_singleton]
      constructor
      · rintro ⟨k', hk', hu, rfl⟩
        have hconn := honly k' hu hk'
        obtain ⟨u', c'⟩ := k'
        obtain ⟨u, c₀⟩ := k
        cases hu
        cases hconn
        rfl
      · rintro rfl
        exact ⟨k, hk, rfl, rfl⟩
    exact hperm.length_eq

theorem none_iff (h : Tracks v p) (hl : v.Enumerates c l) (user : Uuid) :
    l.any (fun m => userOf m = user.text) = false ↔ ∀ k, k.user = user → p c k = none := by
  have hmem := h.mem_filter_iff hl user
  constructor
  · intro hnone k hu
    by_contra hk
    obtain ⟨hin, huser⟩ := List.mem_filter.mp ((hmem _).mpr ⟨k, hk, hu, rfl⟩)
    exact List.any_eq_false.mp hnone _ hin huser
  · intro hnone
    refine List.any_eq_false.mpr (fun x hx huser => ?_)
    obtain ⟨k, hk, hu, -⟩ := (hmem x).mp (List.mem_filter.mpr ⟨hx, huser⟩)
    exact hk (hnone k hu)

theorem meets (h : Tracks v p) {op : Op} {r : Reply} (hr : v.Answers now op r) : p.Meets now op r := by
  have hstep : Tracks (v.step now op) (p.step now op) := h.step op
  cases op with
  | join c conn user =>
    obtain ⟨l, hl, rfl⟩ := hr
    have hthere : p.step now (.join c conn user) c ⟨user, conn⟩ ≠ none := by simp [Presence.step, Presence.set]
    refine ⟨hstep.lists hl, ?_⟩
    rw [decide_eq_true_iff]
    exact hstep.one_iff hl (k := ⟨user, conn⟩) hthere
  | leave c conn user =>
    obtain ⟨l, hl, rfl⟩ := hr
    refine ⟨hstep.lists hl, ?_⟩
    rw [decide_eq_true_iff, Bool.not_eq_true, hstep.none_iff hl, ← h.entries c ⟨user, conn⟩,
      ← Option.isSome_iff_ne_none]
    rfl
  | refresh c conn user =>
    obtain rfl := hr
    trivial
  | online c =>
    obtain ⟨l, hl, rfl⟩ := hr
    exact hstep.lists hl

end Tracks

/-! ## Sequences of operations -/

theorem allMeet_replies {m : Memory} {p : Presence} (h : Tracks m.view p) (ops : List (Millis × Op)) :
    p.AllMeet ops (replies Memory.step m ops) := by
  induction ops generalizing m p with
  | nil => trivial
  | cons x ops ih =>
    obtain ⟨now, op⟩ := x
    refine ⟨h.meets (Memory.answers_step op), ih ?_⟩
    rw [Memory.view_step]
    exact h.step op

theorem replies_eq {m : Memory} {r : Redis} (h : m.view = r.view) (ops : List (Millis × Op)) :
    replies Memory.step m ops = replies Redis.step r ops := by
  induction ops generalizing m r with
  | nil => rfl
  | cons x ops ih =>
    obtain ⟨now, op⟩ := x
    have hreply : (m.step now op).2 = (r.step now op).2 :=
      (Memory.answers_step op).unique (h ▸ Redis.answers_step op)
    have hview : (m.step now op).1.view = (r.step now op).1.view := by
      rw [Memory.view_step, Redis.view_step, h]
    simp only [replies, hreply, ih hview]

/-- For every sequence of operations at any times, the two stores reply the same, and what they
reply is right: the users of the room are listed; a user has joined if no other connection of
the user is in the room; a user has gone if the connection was there and none is left. -/
theorem presence_agree (ops : List (Millis × Op)) :
    replies Memory.step .empty ops = replies Redis.step .empty ops ∧
      Presence.empty.AllMeet ops (replies Memory.step .empty ops) := by
  have hempty : Tracks Memory.empty.view Presence.empty := ⟨fun _ _ => rfl, fun _ _ h => absurd rfl h⟩
  exact ⟨replies_eq rfl ops, allMeet_replies hempty ops⟩

def alice : Uuid := ⟨"1".toList, by decide⟩

/-- The only connection of a user joins again, and the user has joined again. -/
theorem not_joined_only_first :
    ¬ ∀ (ops : List (Millis × Op)) (now : Millis) (c : RoomId) (conn : ConnId) (user : Uuid) (online : List Text),
      (replies Memory.step .empty (ops ++ [(now, .join c conn user)])).getLast? = some (.joined online true) →
      ∀ k, k.user = user → Presence.empty.after ops c k = none := by
  intro hclaim
  have hreply : (replies Memory.step .empty ([(0, .join ['r'] ['c'] alice)] ++ [(0,
    .join ['r'] ['c'] alice)])).getLast? =
      some (.joined ["1".toList] true) := by
    decide +kernel
  have hnone := hclaim _ _ _ _ _ _ hreply ⟨alice, ['c']⟩ rfl
  exact absurd hnone (by decide)

end Civfix.ChatPresence

import Civfix.InterleavedCalls

/-! # Bans of an event and the role of a user

The seat of one user on one event. A join and an acceptance of a team invite hold the event row for sharing, a ban
holds it alone, and a change of the role takes no lock on the event at all. `removeMember` deletes the seat
whatever its role, and then bans; a removal from the roster bans through `applyBanIn` alone, which deletes the seat
of a plain member. -/
namespace Civfix.EventBans

open InterleavedCalls

abbrev TxId := ℕ

inductive Role where
  | member
  | staff
  | coordinator
  | cohost
  | organizer
  deriving DecidableEq

def Role.rank : Role → ℕ
  | .organizer => 5
  | .cohost => 4
  | .coordinator => 3
  | .staff => 2
  | .member => 1

/-- An acceptance lowers no role. -/
def Role.raised (held offered : Role) : Role := if offered.rank ≤ held.rank then held else offered

/-- `member` is the committed row of the user, `written` what an open transaction has made of it. The event row is
held for sharing by `sharers` and alone by `banner`. -/
structure Shared where
  member : Option Role
  banned : Bool
  sharers : List TxId
  banner : Option TxId
  written : Option (TxId × Option Role)
  next : TxId

/-- How a user comes to a seat. -/
inductive Entry where
  | joinCleanup
  | acceptInvite (role : Role)
  deriving DecidableEq

inductive Request where
  | enter (e : Entry)
  | removeMember
  | removeRegistration
  | setMemberRole (role : Role)
  | unban

inductive Await where
  | lockShare (e : Entry)
  | readBan (e : Entry) (tx : TxId)
  | enrol (e : Entry) (tx : TxId)
  | commitEntry (tx : TxId)
  | roleOf
  | findRegistration
  | lockAlone (ofMember : Bool)
  | deleteMember (tx : TxId)
  | deleteMemberSeen (tx : TxId)
  | insertBan (tx : TxId)
  | deletePlain (tx : TxId) (inserted : Bool)
  | deletePlainSeen (tx : TxId) (inserted : Bool)
  | commitBan (tx : TxId) (inserted : Bool)
  | readRole (role : Role)
  | updateRole (role : Role)
  | updateRoleSeen (role : Role)
  | isBanned
  | unbanMember

inductive Result where
  | refused
  | entered
  | removed
  | notMember
  | roleSet
  | unbanned
  | failed

/-- A transaction is ended from outside. -/
inductive Event where
  | abort (tx : TxId)

abbrev Next := InterleavedCalls.Next Await Result
abbrev Move := InterleavedCalls.Move Request Event
abbrev World := InterleavedCalls.World Shared Request Await

namespace Shared

variable (s : Shared)

def share : Shared := { s with sharers := s.next :: s.sharers, next := s.next + 1 }

def hold : Shared := { s with banner := some s.next, next := s.next + 1 }

def write (tx : TxId) (row : Option Role) : Shared := { s with written := some (tx, row) }

/-- The row of the user as the transaction sees it. -/
def seenBy (tx : TxId) : Option Role :=
  match s.written with
  | some (t, row) => if t = tx then row else s.member
  | none => s.member

/-- The transaction gives up its locks and what it has written. -/
def release (tx : TxId) : Shared :=
  { s with
    sharers := s.sharers.filter (· ≠ tx)
    banner := if s.banner = some tx then none else s.banner
    written := if s.written.map Prod.fst = some tx then none else s.written }

/-- What the transaction has written is committed. -/
def settle (tx : TxId) : Shared := { s.release tx with member := s.seenBy tx }

def settleBan (tx : TxId) (inserted : Bool) : Shared := { s.settle tx with banned := s.banned || inserted }

/-- A row that an UPDATE or a DELETE which spares the organizer may touch. -/
def Movable (row : Option Role) : Prop := row ≠ none ∧ row ≠ some .organizer

instance (row : Option Role) : Decidable (Movable row) := inferInstanceAs (Decidable (_ ∧ _))

/-- Another transaction has written the row. -/
def Waits (tx : TxId) : Prop := ∃ x ∈ s.written, x.1 ≠ tx

instance (tx : TxId) : Decidable (s.Waits tx) := inferInstanceAs (Decidable (∃ x ∈ s.written, _))

/-- The statements of a transaction that holds the event for sharing. -/
def whileShared (tx : TxId) (outcomes : List (Shared × Next)) : List (Shared × Next) :=
  if tx ∈ s.sharers then outcomes ++ [(s.release tx, .done .failed)] else [(s, .done .failed)]

/-- The statements of a transaction that holds the event alone. -/
def whileAlone (tx : TxId) (outcomes : List (Shared × Next)) : List (Shared × Next) :=
  if s.banner = some tx then outcomes ++ [(s.release tx, .done .failed)] else [(s, .done .failed)]

end Shared

/-- What an entry writes to a row that it finds. -/
def Entry.row : Entry → Option Role → Role
  | .joinCleanup, none => .member
  | .joinCleanup, some held => held
  | .acceptInvite role, none => role
  | .acceptInvite role, some held => held.raised role

def enter (s : Shared) : Request → Option (Shared × Await)
  | .enter e => some (s, .lockShare e)
  | .removeMember => some (s, .roleOf)
  | .removeRegistration => some (s, .findRegistration)
  | .setMemberRole role => some (s, .readRole role)
  | .unban => some (s, .unbanMember)

def access (s : Shared) : Await → List (Shared × Next)
  -- `lockJoinableEvent`, and `eventOpenInTx` with the checks of the invite.
  | .lockShare e => if s.banner = none then [(s.share, .await (.readBan e s.next)), (s, .done .refused)] else []
  | .readBan e tx => s.whileShared tx
    (if s.banned then [(s.release tx, .done .refused)] else [(s, .await (.enrol e tx)), (s.release tx, .done .refused)])
  -- `enrolMember` does nothing on a conflict, `seatTeamMemberInTx` raises the role.
  | .enrol e tx =>
    if s.Waits tx ∧ ¬ (e = .joinCleanup ∧ s.member.isSome) then []
    else if e = .joinCleanup ∧ s.member.isSome then s.whileShared tx [(s, .await (.commitEntry tx))]
    else s.whileShared tx [(s.write tx (some (e.row s.member)), .await (.commitEntry tx))]
  | .commitEntry tx => s.whileShared tx [(s.settle tx, .done .entered), (s.settle tx, .done .failed)]
  | .roleOf =>
    if s.member = none then [(s, .done .notMember)] else [(s, .await (.lockAlone true)), (s, .done .refused)]
  | .findRegistration => [(s, .await (.lockAlone false)), (s, .done .refused)]
  | .lockAlone ofMember =>
    if s.banner = none ∧ s.sharers = [] then
      [(s.hold, .await (if ofMember then .deleteMember s.next else .insertBan s.next)), (s, .done .refused)]
    else []
  | .deleteMember tx => s.whileAlone tx
    (if Shared.Movable (s.seenBy tx) then [(s, .await (.deleteMemberSeen tx))] else [(s.settle tx, .done .notMember)])
  | .deleteMemberSeen tx =>
    if s.Waits tx then []
    else s.whileAlone tx
      (if Shared.Movable (s.seenBy tx) then [(s.write tx none, .await (.insertBan tx))]
      else [(s.settle tx, .done .notMember)])
  | .insertBan tx => s.whileAlone tx [(s, .await (.deletePlain tx (!s.banned)))]
  | .deletePlain tx inserted => s.whileAlone tx
    (if s.seenBy tx = some .member then [(s, .await (.deletePlainSeen tx inserted))]
    else [(s, .await (.commitBan tx inserted))])
  | .deletePlainSeen tx inserted =>
    if s.Waits tx then []
    else s.whileAlone tx
      (if s.seenBy tx = some .member then [(s.write tx none, .await (.commitBan tx inserted))]
      else [(s, .await (.commitBan tx inserted))])
  | .commitBan tx inserted => s.whileAlone tx
    [(s.settleBan tx inserted, .done .removed), (s.settleBan tx inserted, .done .failed)]
  | .readRole role =>
    if s.member = none ∧ role = .member then [(s, .await .isBanned), (s, .done .refused)]
    else if s.member = none then [(s, .done .notMember)]
    else if s.member = some role then [(s, .done .roleSet)]
    else [(s, .await (.updateRole role)), (s, .done .refused)]
  | .updateRole role =>
    if Shared.Movable s.member then [(s, .await (.updateRoleSeen role)), (s, .done .failed)]
    else [(s, .done .notMember)]
  | .updateRoleSeen role =>
    if s.written ≠ none then []
    else if Shared.Movable s.member then [({ s with member := some role }, .done .roleSet), (s, .done .failed)]
    else [(s, .done .notMember)]
  | .isBanned => if s.banned then [(s, .await .unbanMember), (s, .done .failed)] else [(s, .done .notMember)]
  | .unbanMember => [({ s with banned := false }, .done .unbanned), (s, .done .failed)]

def environment (s : Shared) : Event → Option Shared
  | .abort tx => some (s.release tx)

def machine : Machine Shared Request Await Result Event := ⟨enter, access, environment⟩

/-- The user is not banned. -/
def seated (role : Option Role) : Shared := ⟨role, false, [], none, none, 0⟩

/-- The DELETE of `applyBanIn` finds no row of another role. -/
def AsFound (s : Shared) : Await → Prop
  | .deletePlain tx _ | .deletePlainSeen tx _ =>
    s.banner = some tx → s.seenBy tx = none ∨ s.seenBy tx = some .member
  | _ => True

instance (s : Shared) (p : Await) : Decidable (AsFound s p) :=
  match p with
  | .deletePlain _ _ | .deletePlainSeen _ _ => inferInstanceAs (Decidable (_ → _))
  | .lockShare _ | .readBan _ _ | .enrol _ _ | .commitEntry _ | .roleOf | .findRegistration | .lockAlone _
  | .deleteMember _ | .deleteMemberSeen _ | .insertBan _ | .commitBan _ _ | .readRole _ | .updateRole _
  | .updateRoleSeen _ | .isBanned | .unbanMember => isTrue trivial

def Undisturbed (w : World) (m : Move) : Prop :=
  match m with
  | .access i k => k = 0 → ∀ c ∈ w.call i, AsFound w.shared c.await
  | _ => True

instance (w : World) (m : Move) : Decidable (Undisturbed w m) :=
  match m with
  | .access i k => inferInstanceAs (Decidable (k = 0 → ∀ c ∈ w.call i, AsFound w.shared c.await))
  | .start _ | .crash _ | .environment _ => isTrue trivial

/-- A ban is asked for when the user is a plain member. -/
def AskedOfMember (w : World) (m : Move) : Prop :=
  match m with
  | .start .removeMember | .start .removeRegistration => w.shared.member = some .member
  | _ => True

instance (w : World) (m : Move) : Decidable (AskedOfMember w m) :=
  match m with
  | .start .removeMember | .start .removeRegistration =>
    inferInstanceAs (Decidable (w.shared.member = some .member))
  | .start (.enter _) | .start (.setMemberRole _) | .start .unban | .access _ _ | .crash _ | .environment _ =>
    isTrue trivial

variable {s s' : Shared} {w w' : World} {p q : Await} {n : Next} {k : ℕ} {t : TxId}

/-! ## What an access does -/

/-- The transaction that the call is in. -/
def Await.tx : Await → Option TxId
  | .readBan _ tx | .enrol _ tx | .commitEntry tx | .deleteMember tx | .deleteMemberSeen tx | .insertBan tx
  | .deletePlain tx _ | .deletePlainSeen tx _ | .commitBan tx _ => some tx
  | .lockShare _ | .roleOf | .findRegistration | .lockAlone _ | .readRole _ | .updateRole _ | .updateRoleSeen _
  | .isBanned | .unbanMember => none

/-- An await that nothing is known at. -/
def Await.Plain : Await → Prop
  | .enrol _ _ | .commitBan _ _ => False
  | _ => True

inductive Outcome (s : Shared) : Await → ℕ → Shared → Next → Prop where
  | ended (p : Await) (k : ℕ) (r : Result) : Outcome s p k s (.done r)
  | passed (p q : Await) (htx : q.tx = p.tx) (hplain : q.Plain) : Outcome s p 0 s (.await q)
  | released (p : Await) (k : ℕ) (r : Result) (tx : TxId) : Outcome s p k (s.release tx) (.done r)
  | shared (e : Entry) (hfree : s.banner = none) : Outcome s (.lockShare e) 0 s.share (.await (.readBan e s.next))
  | admitted (e : Entry) (tx : TxId) (hban : s.banned = false) : Outcome s (.readBan e tx) 0 s (.await (.enrol e tx))
  | enrolled (e : Entry) (tx : TxId) (role : Role) (htx : tx ∈ s.sharers) (hfree : ¬ s.Waits tx) :
    Outcome s (.enrol e tx) 0 (s.write tx (some role)) (.await (.commitEntry tx))
  | settled (p : Await) (k : ℕ) (r : Result) (tx : TxId) (htx : tx ∈ s.sharers ∨ s.banner = some tx) :
    Outcome s p k (s.settle tx) (.done r)
  | held (ofMember : Bool) (hfree : s.banner = none ∧ s.sharers = []) :
    Outcome s (.lockAlone ofMember) 0 s.hold (.await (if ofMember then .deleteMember s.next else .insertBan s.next))
  | memberDeleted (tx : TxId) (htx : s.banner = some tx) :
    Outcome s (.deleteMemberSeen tx) 0 (s.write tx none) (.await (.insertBan tx))
  | plainDeleted (tx : TxId) (inserted : Bool) (htx : s.banner = some tx) :
    Outcome s (.deletePlainSeen tx inserted) 0 (s.write tx none) (.await (.commitBan tx inserted))
  | spared (p : Await) (tx : TxId) (inserted : Bool)
    (hp : p = .deletePlain tx inserted ∨ p = .deletePlainSeen tx inserted)
    (htx : s.banner = some tx) (hrow : s.seenBy tx ≠ some .member) : Outcome s p 0 s (.await (.commitBan tx inserted))
  | banned (k : ℕ) (r : Result) (tx : TxId) (inserted : Bool) (htx : s.banner = some tx) :
    Outcome s (.commitBan tx inserted) k (s.settleBan tx inserted) (.done r)
  | roleSet (role : Role) (hfree : s.written = none) (hrow : Shared.Movable s.member) :
    Outcome s (.updateRoleSeen role) 0 { s with member := some role } (.done .roleSet)
  | unbanned : Outcome s .unbanMember 0 { s with banned := false } (.done .unbanned)

theorem outcome_of_pair {x y : Shared × Next} (hx : Outcome s p 0 x.1 x.2) (hy : Outcome s p k y.1 y.2)
    (hk : [x, y][k]? = some (s', n)) : Outcome s p k s' n := by
  rcases getElem?_cons_cases hk with ⟨rfl, rfl⟩ | hmem
  · exact hx
  · obtain rfl := List.mem_singleton.mp hmem
    exact hy

theorem outcome_of_done {r : Result} (hk : [((s, .done r) : Shared × Next)][k]? = some (s', n)) :
    Outcome s p k s' n := by
  cases List.mem_singleton.mp (List.mem_of_getElem? hk)
  exact .ended p k r

theorem outcome_whileShared {l : List (Shared × Next)}
    (h : ∀ i x, t ∈ s.sharers → l[i]? = some x → Outcome s p i x.1 x.2)
    (hk : (s.whileShared t l)[k]? = some (s', n)) : Outcome s p k s' n := by
  unfold Shared.whileShared at hk
  split at hk
  · next htx =>
    rcases getElem?_concat_cases hk with hin | hout
    · exact h k _ htx hin
    · cases hout
      exact .released p k _ t
  · exact outcome_of_done hk

theorem outcome_whileAlone {l : List (Shared × Next)}
    (h : ∀ i x, s.banner = some t → l[i]? = some x → Outcome s p i x.1 x.2)
    (hk : (s.whileAlone t l)[k]? = some (s', n)) : Outcome s p k s' n := by
  unfold Shared.whileAlone at hk
  split at hk
  · next htx =>
    rcases getElem?_concat_cases hk with hin | hout
    · exact h k _ htx hin
    · cases hout
      exact .released p k _ t
  · exact outcome_of_done hk

theorem outcome_of_access (hk : (access s p)[k]? = some (s', n)) : Outcome s p k s' n := by
  cases p with
  | lockShare e =>
    simp only [access] at hk
    split at hk
    · next hfree => exact outcome_of_pair (.shared e hfree) (.ended _ k _) hk
    · cases hk
  | readBan e tx =>
    refine outcome_whileShared (fun i x _ hx => ?_) hk
    split at hx
    · cases List.mem_singleton.mp (List.mem_of_getElem? hx)
      exact .released _ i _ tx
    · next hban => exact outcome_of_pair (.admitted e tx (by simpa using hban)) (.released _ i _ tx) hx
  | enrol e tx =>
    simp only [access] at hk
    split at hk
    · cases hk
    next hwait =>
    split at hk
    · refine outcome_whileShared (fun i x _ hx => ?_) hk
      rcases getElem?_cons_cases hx with ⟨rfl, rfl⟩ | hmem
      · exact .passed _ _ rfl trivial
      · cases hmem
    · next hnew =>
      refine outcome_whileShared (fun i x htx hx => ?_) hk
      rcases getElem?_cons_cases hx with ⟨rfl, rfl⟩ | hmem
      · exact .enrolled e tx _ htx (fun hw => hwait ⟨hw, hnew⟩)
      · cases hmem
  | commitEntry tx =>
    exact outcome_whileShared (fun i x htx hx => outcome_of_pair (.settled _ 0 _ tx (.inl htx))
      (.settled _ i _ tx (.inl htx)) hx) hk
  | roleOf =>
    simp only [access] at hk
    split at hk
    · exact outcome_of_done hk
    · exact outcome_of_pair (.passed .roleOf (.lockAlone true) rfl trivial) (.ended _ k _) hk
  | findRegistration =>
    exact outcome_of_pair (.passed .findRegistration (.lockAlone false) rfl trivial) (.ended _ k _) hk
  | lockAlone ofMember =>
    simp only [access] at hk
    split at hk
    · next hfree => exact outcome_of_pair (.held ofMember hfree) (.ended _ k _) hk
    · cases hk
  | deleteMember tx =>
    refine outcome_whileAlone (fun i x htx hx => ?_) hk
    split at hx
    · rcases getElem?_cons_cases hx with ⟨rfl, rfl⟩ | hmem
      · exact .passed _ _ rfl trivial
      · cases hmem
    · cases List.mem_singleton.mp (List.mem_of_getElem? hx)
      exact .settled _ i _ tx (.inr htx)
  | deleteMemberSeen tx =>
    simp only [access] at hk
    split at hk
    · cases hk
    refine outcome_whileAlone (fun i x htx hx => ?_) hk
    split at hx
    · rcases getElem?_cons_cases hx with ⟨rfl, rfl⟩ | hmem
      · exact .memberDeleted tx htx
      · cases hmem
    · cases List.mem_singleton.mp (List.mem_of_getElem? hx)
      exact .settled _ i _ tx (.inr htx)
  | insertBan tx =>
    refine outcome_whileAlone (fun i x _ hx => ?_) hk
    rcases getElem?_cons_cases hx with ⟨rfl, rfl⟩ | hmem
    · exact .passed _ _ rfl trivial
    · cases hmem
  | deletePlain tx inserted =>
    refine outcome_whileAlone (fun i x htx hx => ?_) hk
    split at hx
    · rcases getElem?_cons_cases hx with ⟨rfl, rfl⟩ | hmem
      · exact .passed _ _ rfl trivial
      · cases hmem
    · next hrow =>
      rcases getElem?_cons_cases hx with ⟨rfl, rfl⟩ | hmem
      · exact .spared _ tx inserted (.inl rfl) htx hrow
      · cases hmem
  | deletePlainSeen tx inserted =>
    simp only [access] at hk
    split at hk
    · cases hk
    refine outcome_whileAlone (fun i x htx hx => ?_) hk
    split at hx
    · rcases getElem?_cons_cases hx with ⟨rfl, rfl⟩ | hmem
      · exact .plainDeleted tx inserted htx
      · cases hmem
    · next hrow =>
      rcases getElem?_cons_cases hx with ⟨rfl, rfl⟩ | hmem
      · exact .spared _ tx inserted (.inr rfl) htx hrow
      · cases hmem
  | commitBan tx inserted =>
    exact outcome_whileAlone (fun i x htx hx => outcome_of_pair (.banned 0 _ tx inserted htx)
      (.banned i _ tx inserted htx) hx) hk
  | readRole role =>
    simp only [access] at hk
    split at hk
    · exact outcome_of_pair (.passed (.readRole role) .isBanned rfl trivial) (.ended _ k _) hk
    split at hk
    · exact outcome_of_done hk
    split at hk
    · exact outcome_of_done hk
    · exact outcome_of_pair (.passed (.readRole role) (.updateRole role) rfl trivial) (.ended _ k _) hk
  | updateRole role =>
    simp only [access] at hk
    split at hk
    · exact outcome_of_pair (.passed (.updateRole role) (.updateRoleSeen role) rfl trivial) (.ended _ k _) hk
    · exact outcome_of_done hk
  | updateRoleSeen role =>
    simp only [access] at hk
    split at hk
    · cases hk
    next hfree =>
    split at hk
    · next hrow => exact outcome_of_pair (.roleSet role (Decidable.not_not.mp hfree) hrow) (.ended _ k _) hk
    · exact outcome_of_done hk
  | isBanned =>
    simp only [access] at hk
    split at hk
    · exact outcome_of_pair (.passed .isBanned .unbanMember rfl trivial) (.ended _ k _) hk
    · exact outcome_of_done hk
  | unbanMember => exact outcome_of_pair .unbanned (.ended _ k _) hk

/-! ## Seats and bans -/

namespace Shared

theorem seenBy_write (row : Option Role) : (s.write t row).seenBy t = row := by
  simp only [seenBy, write, if_pos]

theorem seenBy_cases (s : Shared) (t : TxId) : s.seenBy t = s.member ∨ s.written = some (t, s.seenBy t) := by
  unfold seenBy
  cases hw : s.written with
  | none => exact .inl rfl
  | some x =>
    obtain ⟨u, row⟩ := x
    by_cases hu : u = t
    · simp [hu]
    · simp [hu]

theorem written_release {x : TxId × Option Role} : (s.release t).written = some x ↔ s.written = some x ∧ x.1 ≠ t := by
  unfold release
  cases hw : s.written with
  | none => simp
  | some y =>
    by_cases hy : y.1 = t
    · simp only [Option.map_some, hy, if_pos, reduceCtorEq, Option.some.injEq, false_iff, not_and, not_not]
      rintro rfl
      exact hy
    · simp only [Option.map_some, Option.some.injEq, if_neg hy]
      exact ⟨fun he => ⟨he, he ▸ hy⟩, fun he => he.1⟩

theorem banner_release {u : TxId} : (s.release t).banner = some u ↔ s.banner = some u ∧ u ≠ t := by
  unfold release
  by_cases hb : s.banner = some t
  · simp only [hb, if_pos, reduceCtorEq, Option.some.injEq, false_iff, not_and, not_not]
    exact fun h => h.symm
  · simp only [if_neg hb]
    exact ⟨fun he => ⟨he, fun hu => hb (hu ▸ he)⟩, fun he => he.1⟩

theorem mem_sharers_release {u : TxId} : u ∈ (s.release t).sharers ↔ u ∈ s.sharers ∧ u ≠ t := by
  simp only [release, List.mem_filter, decide_eq_true_eq]

theorem seenBy_release {u : TxId} (hu : u ≠ t) : (s.release t).seenBy u = s.seenBy u := by
  unfold seenBy release
  cases hw : s.written with
  | none => simp
  | some x =>
    obtain ⟨v, row⟩ := x
    by_cases hv : v = t
    · simp [hv, Ne.symm hu]
    · simp [hv]

end Shared

/-- A transaction that holds the event alone shares it with none. An open transaction that has written the row holds
the event, and has made a seat only of a user who is not banned. A banned user has no seat. -/
structure Consistent (s : Shared) : Prop where
  alone : ∀ t, s.banner = some t → s.sharers = []
  writer : ∀ t row, s.written = some (t, row) → t ∈ s.sharers ∨ s.banner = some t
  seat : ∀ t role, s.written = some (t, some role) → s.banned = false
  out : s.banned = true → s.member = none

/-- What holds of the statement that an await is about to run. -/
def Pending (s : Shared) (p : Await) : Prop :=
  (∀ t, p.tx = some t → t < s.next) ∧
    match p with
    | .enrol _ t => t ∈ s.sharers → s.banned = false
    | .commitBan t _ => s.banner = some t → s.seenBy t = none
    | _ => True

theorem pending_of_plain (hp : p.Plain) (h : ∀ t, p.tx = some t → t < s.next) : Pending s p := by
  refine ⟨h, ?_⟩
  cases p with
  | enrol _ _ | commitBan _ _ => exact hp.elim
  | lockShare _ | readBan _ _ | commitEntry _ | roleOf | findRegistration | lockAlone _ | deleteMember _
  | deleteMemberSeen _ | insertBan _ | deletePlain _ _ | deletePlainSeen _ _ | readRole _ | updateRole _
  | updateRoleSeen _ | isBanned | unbanMember => trivial

structure Follows (s s' : Shared) : Prop where
  next : s.next ≤ s'.next
  sharer : ∀ t < s.next, t ∈ s'.sharers → t ∈ s.sharers ∧ (s.banned = false → s'.banned = false)
  banner : ∀ t < s.next, s'.banner = some t → s.banner = some t ∧ (s.seenBy t = none → s'.seenBy t = none)

theorem follows_refl (s : Shared) : Follows s s := ⟨Nat.le_refl _, fun _ _ h => ⟨h, id⟩, fun _ _ h => ⟨h, id⟩⟩

theorem follows_release (s : Shared) (t : TxId) : Follows s (s.release t) := by
  refine ⟨Nat.le_refl _, fun u _ hu => ⟨(Shared.mem_sharers_release.mp hu).1, id⟩, fun u _ hu => ?_⟩
  obtain ⟨hb, hne⟩ := Shared.banner_release.mp hu
  exact ⟨hb, fun hrow => (Shared.seenBy_release hne).trans hrow⟩

theorem Pending.follows (h : Pending s p) (hf : Follows s s') : Pending s' p := by
  obtain ⟨hlt, hp⟩ := h
  refine ⟨fun t ht => Nat.lt_of_lt_of_le (hlt t ht) hf.next, ?_⟩
  cases p with
  | enrol e t =>
    intro ht
    obtain ⟨ht, hban⟩ := hf.sharer t (hlt t rfl) ht
    exact hban (hp ht)
  | commitBan t inserted =>
    intro ht
    obtain ⟨ht, hrow⟩ := hf.banner t (hlt t rfl) ht
    exact hrow (hp ht)
  | lockShare _ | readBan _ _ | commitEntry _ | roleOf | findRegistration | lockAlone _ | deleteMember _
  | deleteMemberSeen _ | insertBan _ | deletePlain _ _ | deletePlainSeen _ _ | readRole _ | updateRole _
  | updateRoleSeen _ | isBanned | unbanMember => trivial

theorem Outcome.follows (h : Outcome s p k s' n) (hc : Consistent s) : Follows s s' := by
  cases h with
  | ended | passed | admitted | spared => exact follows_refl s
  | released p k r t => exact follows_release s t
  | shared e hfree =>
    refine ⟨Nat.le_succ _, fun t ht hmem => ⟨?_, id⟩, fun t _ hb => ?_⟩
    · rcases List.mem_cons.mp hmem with rfl | hmem
      · exact absurd ht (Nat.lt_irrefl _)
      · exact hmem
    · rw [show s.banner = some t from hb] at hfree
      cases hfree
  | enrolled e t role ht =>
    refine ⟨Nat.le_refl _, fun _ _ h => ⟨h, id⟩, fun u _ hb => ?_⟩
    rw [hc.alone u hb] at ht
    cases ht
  | settled p k r t ht =>
    have hf := follows_release s t
    refine ⟨hf.next, hf.sharer, fun u hu hb => ?_⟩
    obtain ⟨hb, hne⟩ := Shared.banner_release.mp hb
    rcases ht with ht | ht
    · rw [hc.alone u hb] at ht
      cases ht
    · exact absurd (Option.some.inj (hb.symm.trans ht)) hne
  | held ofMember hfree =>
    refine ⟨Nat.le_succ _, fun t ht hmem => ⟨hmem, id⟩, fun t ht hb => ?_⟩
    exact absurd (Option.some.inj hb) (Nat.ne_of_gt ht)
  | memberDeleted t ht | plainDeleted t inserted ht =>
    refine ⟨Nat.le_refl _, fun _ _ h => ⟨h, id⟩, fun u _ hb => ⟨hb, fun _ => ?_⟩⟩
    obtain rfl := Option.some.inj (ht.symm.trans hb)
    exact Shared.seenBy_write none
  | banned k r t inserted ht =>
    have hf := follows_release s t
    refine ⟨hf.next, fun u _ hu => ?_, fun u _ hb => ?_⟩
    · have hu := (Shared.mem_sharers_release.mp hu).1
      rw [hc.alone t ht] at hu
      cases hu
    · obtain ⟨hb, hne⟩ := Shared.banner_release.mp hb
      exact absurd (Option.some.inj (hb.symm.trans ht)) hne
  | roleSet role hfree hrow =>
    refine ⟨Nat.le_refl _, fun _ _ h => ⟨h, id⟩, fun t _ hb => ⟨hb, fun hnone => ?_⟩⟩
    have hseen : s.seenBy t = s.member := by simp only [Shared.seenBy, hfree]
    exact absurd (hseen.symm.trans hnone) hrow.1
  | unbanned => exact ⟨Nat.le_refl _, fun _ _ h => ⟨h, fun _ => rfl⟩, fun _ _ h => ⟨h, id⟩⟩

theorem Consistent.release (h : Consistent s) (t : TxId) : Consistent (s.release t) := by
  refine ⟨fun u hb => ?_, fun u row hw => ?_, fun u role hw => ?_, h.out⟩
  · have hnone := h.alone u (Shared.banner_release.mp hb).1
    simp only [Shared.release, hnone, List.filter_nil]
  · obtain ⟨hw, hne⟩ := Shared.written_release.mp hw
    rcases h.writer u row hw with hu | hu
    · exact .inl (Shared.mem_sharers_release.mpr ⟨hu, hne⟩)
    · exact .inr (Shared.banner_release.mpr ⟨hu, hne⟩)
  · exact h.seat u role (Shared.written_release.mp hw).1

theorem Consistent.seenBy (h : Consistent s) (hban : s.banned = true) (t : TxId) : s.seenBy t = none := by
  rcases s.seenBy_cases t with heq | hw
  · exact heq.trans (h.out hban)
  · cases hrow : s.seenBy t with
    | none => rfl
    | some role =>
      rw [hrow] at hw
      rw [h.seat t role hw] at hban
      cases hban

theorem Consistent.settle (h : Consistent s) (t : TxId) : Consistent (s.settle t) := by
  have hr := h.release t
  exact ⟨hr.alone, hr.writer, hr.seat, fun hban => h.seenBy hban t⟩

theorem consistent_of_outcome (ho : Outcome s p k s' n) (h : Consistent s) (hp : Pending s p) : Consistent s' := by
  cases ho with
  | ended | passed | admitted | spared => exact h
  | released p k r t => exact h.release t
  | settled p k r t => exact h.settle t
  | shared e hfree =>
    refine ⟨fun t hb => ?_, fun t row hw => ?_, h.seat, h.out⟩
    · rw [show s.banner = some t from hb] at hfree
      cases hfree
    · exact (h.writer t row hw).imp_left (List.mem_cons_of_mem _)
  | enrolled e t role ht =>
    refine ⟨h.alone, fun u row hw => ?_, fun u r hw => hp.2 ht, h.out⟩
    cases hw
    exact .inl ht
  | held ofMember hfree =>
    refine ⟨fun t _ => hfree.2, fun t row hw => ?_, h.seat, h.out⟩
    rcases h.writer t row hw with ht | ht
    · exact .inl ht
    · rw [hfree.1] at ht
      cases ht
  | memberDeleted t ht | plainDeleted t inserted ht =>
    refine ⟨h.alone, fun u row hw => ?_, fun u role hw => ?_, h.out⟩
    · cases hw
      exact .inr ht
    · cases hw
  | banned k r t inserted ht =>
    have hr := h.release t
    refine ⟨hr.alone, hr.writer, fun u role hw => ?_, fun _ => hp.2 ht⟩
    obtain ⟨hw, hne⟩ := Shared.written_release.mp hw
    rcases h.writer u _ hw with hu | hu
    · rw [h.alone t ht] at hu
      cases hu
    · exact absurd (Option.some.inj (hu.symm.trans ht)) hne
  | roleSet role hfree hrow =>
    exact ⟨h.alone, h.writer, h.seat, fun hban => absurd (h.out hban) hrow.1⟩
  | unbanned => exact ⟨h.alone, h.writer, fun _ _ _ => rfl, (by rintro ⟨⟩)⟩

/-- The next assertion of a call. A ban that finds no row of another role leaves none. -/
theorem pending_of_outcome (ho : Outcome s p k s' (.await q)) (hp : Pending s p) (hok : k = 0 → AsFound s p) :
    Pending s' q := by
  generalize hn : (InterleavedCalls.Next.await q : Next) = n at ho
  cases ho with
  | ended | released | settled | banned | roleSet | unbanned => cases hn
  | passed p q htx hplain =>
    cases hn
    exact pending_of_plain hplain (htx ▸ hp.1)
  | shared e =>
    cases hn
    refine pending_of_plain trivial fun t ht => ?_
    cases ht
    exact Nat.lt_succ_self _
  | admitted e t hban =>
    cases hn
    exact ⟨hp.1, fun _ => hban⟩
  | enrolled e t role =>
    cases hn
    exact pending_of_plain trivial hp.1
  | held ofMember =>
    cases hn
    cases ofMember <;>
    · refine pending_of_plain trivial fun t ht => ?_
      cases ht
      exact Nat.lt_succ_self _
  | memberDeleted t ht =>
    cases hn
    exact pending_of_plain trivial hp.1
  | plainDeleted t inserted ht =>
    cases hn
    exact ⟨hp.1, fun _ => Shared.seenBy_write none⟩
  | spared p t inserted hplain ht hrow =>
    cases hn
    have hfound : s.seenBy t = none := by
      rcases hplain with rfl | rfl <;> exact ((hok rfl) ht).resolve_right hrow
    refine ⟨?_, fun _ => hfound⟩
    rcases hplain with rfl | rfl <;> exact hp.1

def Sound (w : World) : Prop := Machine.Holds Consistent (fun s _ c => Pending s c.await) w

theorem Sound.step {m : Move} {r : Option Result} (h : Sound w) (hok : Undisturbed w m)
    (hs : machine.step w m = some (w', r)) : Sound w' := by
  refine Machine.Holds.step_outcome h hs ?_ ?_ ?_
  · intro o u p _ he
    have hstart : u = w.shared ∧ p.Plain ∧ p.tx = none := by cases o <;> cases he <;> exact ⟨rfl, trivial, rfl⟩
    obtain ⟨rfl, hplain, htx⟩ := hstart
    exact ⟨h.shared, pending_of_plain hplain (by simp [htx]), fun i c hc => h.calls i c hc⟩
  · intro i k c u n hm hc hk
    subst hm
    have hout := outcome_of_access hk
    have hp := h.calls i c hc
    exact ⟨consistent_of_outcome hout h.shared hp,
      fun q hq => pending_of_outcome (hq ▸ hout) hp (fun hi => hok hi c hc),
      fun j d _ hd => Pending.follows (h.calls j d hd) (hout.follows h.shared)⟩
  · intro e u _ he
    cases e with
    | abort t =>
      cases he
      exact ⟨h.shared.release t, fun i c hc => Pending.follows (h.calls i c hc) (follows_release _ t)⟩

/-- While the DELETE of `applyBanIn` finds no row of another role than a plain member's, a banned user has no seat. -/
theorem banned_user_has_no_role (role : Option Role) (w : World)
    (h : Machine.Run machine Undisturbed (World.initial (seated role)) w) :
    w.shared.banned = true → w.shared.member = none := by
  have hstart : Sound (World.initial (seated role)) :=
    ⟨⟨(by rintro t ⟨⟩), (by rintro t row ⟨⟩), (by rintro t r ⟨⟩), (by rintro ⟨⟩)⟩, fun i c hc => by simp at hc⟩
  exact (h.invariant hstart (fun hw hok hs => hw.step hok hs)).shared.out

/-! ## A promotion that overtakes a ban -/

/-- A member is promoted after a removal from the roster with a ban was asked for. -/
def promotedMeanwhile : List Move :=
  [.start .removeRegistration, .access 0 0, .start (.setMemberRole .staff), .access 1 0, .access 1 0, .access 1 0,
    .access 0 0, .access 0 0, .access 0 0, .access 0 0]

theorem promoted_member_stays :
    ¬ ∀ role w, Machine.Run machine AskedOfMember (World.initial (seated role)) w →
      w.shared.banned = true → w.shared.member = none := by
  intro hall
  have hruns : (machine.perform (World.initial (seated (some .member))) promotedMeanwhile).any
      (fun w => decide (w.shared.banned = true ∧ w.shared.member = some .staff)) = true := by decide +kernel
  obtain ⟨w, hw, hP⟩ := (Option.any_eq_true _ _).mp hruns
  obtain ⟨hban, hstaff⟩ := of_decide_eq_true hP
  have hnone := hall (some .member) w (Machine.run_of_perform (by decide +kernel) hw) hban
  rw [hstaff] at hnone
  cases hnone

/-- A member is promoted, removed as a member of the team, and kept from coming back. -/
def promotedAndRemoved : List Move :=
  [.start .removeMember, .access 0 0, .start (.setMemberRole .staff), .access 1 0, .access 1 0, .access 1 0,
    .access 0 0, .access 0 0, .access 0 0, .access 0 0, .start (.enter (.acceptInvite .cohost)), .access 0 0,
    .access 0 0, .access 2 0, .access 2 0, .start (.enter .joinCleanup), .access 3 0]

theorem removed_member_stays_out : ∃ w : World, w.shared.banned = true ∧ w.calls.length = 4 ∧
    w.shared.member = none := by
  have hruns : (machine.perform (World.initial (seated (some .member))) promotedAndRemoved).any
      (fun w => decide (w.shared.banned = true ∧ w.calls.length = 4)) = true := by decide +kernel
  obtain ⟨w, hw, hP⟩ := (Option.any_eq_true _ _).mp hruns
  obtain ⟨hban, hcalls⟩ := of_decide_eq_true hP
  exact ⟨w, hban, hcalls, banned_user_has_no_role _ w (Machine.run_of_perform (by decide +kernel) hw) hban⟩

end Civfix.EventBans

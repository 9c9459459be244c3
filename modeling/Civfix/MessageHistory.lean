import Civfix.CodeUnits
import Civfix.KeysetPages

/-! # The history of a room

Messages are read by keyset pages, newest first, or as a window around one of them. A deleted message keeps its place, so
a page can start at it. -/
namespace Civfix.MessageHistory

open CodeUnits KeysetPages

/-! ## Ids -/

/-- The text that the database gives back for an id. -/
def Canonical (t : Text) : Prop := isUuid t = true ∧ t.map lower = t

instance (t : Text) : Decidable (Canonical t) := inferInstanceAs (Decidable (isUuid t = true ∧ t.map lower = t))

/-! ## Rows -/

/-- A row of the messages of a room. -/
structure Message where
  id : Text
  createdAt : ℕ

/-- The rows of a room, with their primary key as the database prints it. -/
structure Room where
  rows : List Message
  ids : (rows.map Message.id).Nodup
  canonical : ∀ m ∈ rows, Canonical m.id

/-- `(a.created_at, a.id) < (b.created_at, b.id)` -/
def Older (a b : Message) : Prop := a.createdAt < b.createdAt ∨ (a.createdAt = b.createdAt ∧ a.id < b.id)

/-- `ORDER BY created_at DESC, id DESC` -/
def NewerFirst (a b : Message) : Prop := b.createdAt < a.createdAt ∨ (b.createdAt = a.createdAt ∧ b.id ≤ a.id)

/-- `ORDER BY created_at ASC, id ASC` -/
def OlderFirst (a b : Message) : Prop := NewerFirst b a

instance : DecidableRel Older := fun a b =>
  inferInstanceAs (Decidable (a.createdAt < b.createdAt ∨ (a.createdAt = b.createdAt ∧ a.id < b.id)))

instance : DecidableRel NewerFirst := fun a b =>
  inferInstanceAs (Decidable (b.createdAt < a.createdAt ∨ (b.createdAt = a.createdAt ∧ b.id ≤ a.id)))

instance : DecidableRel OlderFirst := fun a b => inferInstanceAs (Decidable (NewerFirst b a))

/-! ## The repository -/

structure ChatHistoryPage where
  items : List Message
  nextCursor : Option Text
  prevCursor : Option Text

inductive AppError where
  | notFound (message : String)

section

variable (room : Room) (deleted : Text → Bool)

/-- The row with the id, where ids are compared as the database compares them. -/
def anchor (id : Text) : Option Message :=
  if isUuid id then room.rows.find? fun m => decide (m.id.map lower = id.map lower) else none

/-- The rows of one page, with one more if there are more. -/
def rowsBefore (before : Option Text) (limit : ℕ) : List Message :=
  let cursorFilter : Message → Bool := match before.bind (anchor room) with
    | none => fun _ => true
    | some a => fun m => decide (Older m a)
  ((room.rows.filter fun m => !deleted m.id && cursorFilter m).insertionSort NewerFirst).take (limit + 1)

def history (before : Option Text) (limit : ℕ) : ChatHistoryPage :=
  let rows := rowsBefore room deleted before limit
  let page := if limit < rows.length then rows.take limit else rows
  ⟨page, if limit < rows.length then page.getLast?.map Message.id else none, none⟩

structure AroundLimits where
  olderLimit : ℕ
  newerLimit : ℕ

def aroundLimits (limit : ℕ) : AroundLimits := ⟨(limit + 1) / 2, limit / 2⟩

structure AroundWindow where
  rows : List Message
  hasOlder : Bool
  hasNewer : Bool

def mergeAroundWindow (olderDesc newerAsc : List Message) (limits : AroundLimits) : AroundWindow :=
  let older := if limits.olderLimit < olderDesc.length then olderDesc.take limits.olderLimit else olderDesc
  let newer := if limits.newerLimit < newerAsc.length then newerAsc.take limits.newerLimit else newerAsc
  ⟨newer.reverse ++ older, decide (limits.olderLimit < olderDesc.length), decide (limits.newerLimit < newerAsc.length)⟩

def historyAround (around : Text) (limit : ℕ) : Except AppError ChatHistoryPage :=
  match anchor room around with
  | none => .error (.notFound "Message not found")
  | some a =>
    let limits := aroundLimits limit
    let olderDesc := ((room.rows.filter fun m =>
      (!deleted m.id || decide (m.id = a.id)) && decide (¬ Older a m)).insertionSort
      NewerFirst).take (limits.olderLimit + 1)
    let newerAsc := ((room.rows.filter fun m => !deleted m.id && decide (Older a m)).insertionSort
      OlderFirst).take (limits.newerLimit + 1)
    let w := mergeAroundWindow olderDesc newerAsc limits
    .ok ⟨w.rows, if w.hasOlder then w.rows.getLast?.map Message.id else none,
      if w.hasNewer then w.rows.head?.map Message.id else none⟩

end

/-! ## The repository in memory -/

section

variable (log : List Message) (deleted : Text → Bool)

/-- `array.slice(start, end)` for indexes that are not negative. -/
def slice (l : List Message) (first last : ℕ) : List Message := (l.take last).drop first

def afterAnchor (allDesc : List Message) (before : Option Text) : List Message :=
  match before.bind fun id => allDesc.findIdx? fun m => decide (m.id = id) with
  | none => allDesc
  | some idx => allDesc.drop (idx + 1)

def memoryHistory (before : Option Text) (limit : ℕ) : ChatHistoryPage :=
  let ordered := (afterAnchor log.reverse before).filter fun m => !deleted m.id
  let page := ordered.take limit
  ⟨page, if limit < ordered.length then page.getLast?.map Message.id else none, none⟩

def memoryHistoryAround (around : Text) (limit : ℕ) : Except AppError ChatHistoryPage :=
  if !(log.any fun m => decide (m.id = around)) then .error (.notFound "Message not found")
  else
    let ordered := (log.filter fun m => !deleted m.id || decide (m.id = around)).reverse
    let idx := ordered.findIdx fun m => decide (m.id = around)
    let limits := aroundLimits limit
    let newerStart := idx - limits.newerLimit
    let items := slice ordered newerStart (idx + limits.olderLimit)
    .ok ⟨items, if idx + limits.olderLimit < ordered.length then items.getLast?.map Message.id else none,
      if 0 < newerStart then items.head?.map Message.id else none⟩

end

/-! ## The order of the rows -/

instance : IsTrans Message NewerFirst := ⟨fun a b c hab hbc => by
  rcases hab with hlt | ⟨heq, hle⟩
  · rcases hbc with hlt' | ⟨heq', -⟩
    · exact Or.inl (hlt'.trans hlt)
    · exact Or.inl (heq' ▸ hlt)
  · rcases hbc with hlt' | ⟨heq', hle'⟩
    · exact Or.inl (heq ▸ hlt')
    · exact Or.inr ⟨heq'.trans heq, le_trans hle' hle⟩⟩

instance : Std.Total NewerFirst := ⟨fun a b => by
  rcases Nat.lt_trichotomy a.createdAt b.createdAt with hlt | heq | hlt
  · exact Or.inr (Or.inl hlt)
  · rcases le_total b.id a.id with hle | hle
    · exact Or.inl (Or.inr ⟨heq.symm, hle⟩)
    · exact Or.inr (Or.inr ⟨heq, hle⟩)
  · exact Or.inl (Or.inl hlt)⟩

instance : IsTrans Message OlderFirst := ⟨fun _ _ _ hab hbc => IsTrans.trans (r := NewerFirst) _ _ _ hbc hab⟩

instance : Std.Total OlderFirst := ⟨fun a b => Std.Total.total (r := NewerFirst) b a⟩

theorem NewerFirst.antisymm (a b : Message) (hab : NewerFirst a b) (hba : NewerFirst b a) : a = b := by
  obtain ⟨hat, hid⟩ : a.createdAt = b.createdAt ∧ a.id = b.id := by
    rcases hab with hlt | ⟨heq, hle⟩ <;> rcases hba with hlt' | ⟨heq', hle'⟩
    · omega
    · omega
    · omega
    · exact ⟨heq', le_antisymm hle' hle⟩
  cases a
  cases b
  cases hat
  cases hid
  rfl

theorem older_iff {a b : Message} : Older a b ↔ ¬ NewerFirst a b := by
  rw [Older, NewerFirst]
  constructor
  · rintro (hlt | ⟨heq, hlt⟩) (hlt' | ⟨heq', hle⟩)
    · omega
    · omega
    · omega
    · exact absurd hlt (not_lt.mpr hle)
  · intro h
    rcases Nat.lt_trichotomy a.createdAt b.createdAt with hlt | heq | hlt
    · exact Or.inl hlt
    · exact Or.inr ⟨heq, not_le.mp fun hle => h (Or.inr ⟨heq.symm, hle⟩)⟩
    · exact absurd (Or.inl hlt) h

/-- The rows, newest first. -/
def Room.newestFirst (room : Room) : List Message := room.rows.insertionSort NewerFirst

variable {room : Room} {deleted : Text → Bool} {before : Option Text} {limit : ℕ} {pre post : List Message}
  {a : Message}

theorem perm_newestFirst (room : Room) : room.newestFirst.Perm room.rows := List.perm_insertionSort NewerFirst _

theorem mem_newestFirst {m : Message} : m ∈ room.newestFirst ↔ m ∈ room.rows := (perm_newestFirst room).mem_iff

theorem nodup_newestFirst (room : Room) : (room.newestFirst.map Message.id).Nodup :=
  ((perm_newestFirst room).map Message.id).nodup_iff.mpr room.ids

theorem sorted_newestFirst (room : Room) : room.newestFirst.Pairwise NewerFirst :=
  List.pairwise_insertionSort NewerFirst _

/-- In the list, what stands before a row is newer and what stands after it is older. -/
theorem newer_of_split (h : room.newestFirst = pre ++ a :: post) : (∀ m ∈ pre, Older a m) ∧ ∀ m ∈ post, Older m a := by
  have hsorted := sorted_newestFirst room
  have hids := nodup_newestFirst room
  rw [h] at hsorted hids
  have hne : ∀ m, m ∈ pre ∨ m ∈ post → m ≠ a := by
    rw [List.map_append, List.map_cons, List.nodup_append, List.nodup_cons] at hids
    rintro m (hm | hm) rfl
    · exact hids.2.2 m.id (List.mem_map_of_mem hm) m.id List.mem_cons_self rfl
    · exact hids.2.1.1 (List.mem_map_of_mem hm)
  rw [List.pairwise_append, List.pairwise_cons] at hsorted
  refine ⟨fun m hm => older_iff.mpr fun hle => ?_, fun m hm => older_iff.mpr fun hle => ?_⟩
  · exact hne m (Or.inl hm) (NewerFirst.antisymm m a (hsorted.2.2 m hm a List.mem_cons_self) hle)
  · exact hne m (Or.inr hm) (NewerFirst.antisymm m a hle (hsorted.2.1.1 m hm))

theorem Older.irrefl (a : Message) : ¬ Older a a := by
  rintro (hlt | ⟨-, hlt⟩)
  · exact absurd hlt (Nat.lt_irrefl _)
  · exact absurd hlt (lt_irrefl _)

theorem Older.asymm {a b : Message} (hab : Older a b) : ¬ Older b a := by
  rw [older_iff, not_not]
  exact (Std.Total.total (r := NewerFirst) b a).resolve_right (older_iff.mp hab)

/-! ## One page -/

theorem id_injective (room : Room) {a b : Message} (ha : a ∈ room.rows) (hb : b ∈ room.rows) (h : a.id = b.id) :
    a = b :=
  List.inj_on_of_nodup_map room.ids ha hb h

/-- A canonical id that names a row is found. -/
theorem anchor_eq_some {id : Text} (hid : isUuid id = true → id.map lower = id) :
    anchor room id = some a ↔ a ∈ room.rows ∧ a.id = id := by
  rw [anchor]
  constructor
  · intro h
    split at h
    · next huuid =>
      have hmem := List.mem_of_find?_eq_some h
      have hsame : a.id.map lower = id.map lower := by simpa using List.find?_some h
      rw [(room.canonical a hmem).2, hid huuid] at hsame
      exact ⟨hmem, hsame⟩
    · cases h
  · rintro ⟨ha, rfl⟩
    rw [if_pos (room.canonical a ha).1]
    obtain ⟨b, hb⟩ := Option.isSome_iff_exists.mp (List.find?_isSome.mpr ⟨a, ha, decide_eq_true rfl⟩ :
      (room.rows.find? fun m => decide (m.id.map lower = a.id.map lower)).isSome)
    have hmem := List.mem_of_find?_eq_some hb
    have hsame : b.id.map lower = a.id.map lower := by simpa using List.find?_some hb
    rw [(room.canonical b hmem).2, (room.canonical a ha).2] at hsame
    rw [hb, id_injective room hmem ha hsame]

theorem anchor_id (ha : a ∈ room.rows) : anchor room a.id = some a :=
  (anchor_eq_some fun _ => (room.canonical a ha).2).mpr ⟨ha, rfl⟩

/-- The rows that a page is cut from: those after the cursor, or all. -/
def From (room : Room) (before : Option Text) (post : List Message) : Prop :=
  match before.bind (anchor room) with
  | none => room.newestFirst = post
  | some a => ∃ pre, room.newestFirst = pre ++ a :: post

theorem rowsBefore_eq (h : From room before post) (deleted : Text → Bool) (limit : ℕ) :
    rowsBefore room deleted before limit = (post.filter fun m => !deleted m.id).take (limit + 1) := by
  rw [From] at h
  rw [rowsBefore, insertionSort_filter NewerFirst.antisymm]
  split at h
  · next hnone =>
    rw [← h]
    simp only [hnone, Bool.and_true]
    rfl
  · next a hsome =>
    obtain ⟨pre, hpre⟩ := h
    obtain ⟨hnewer, holder⟩ := newer_of_split hpre
    have hcut : (pre ++ a :: post).filter (fun m => !deleted m.id && decide (Older m a)) =
        post.filter fun m => !deleted m.id := by
      refine filter_split (fun m hm => ?_) ?_ fun m hm => ?_
      · rw [decide_eq_false (hnewer m hm).asymm, Bool.and_false]
      · rw [decide_eq_false (Older.irrefl a), Bool.and_false]
      · rw [decide_eq_true (holder m hm), Bool.and_true]
    have hlist : room.rows.insertionSort NewerFirst = pre ++ a :: post := hpre
    simp only [hsome, hlist, hcut]

theorem history_eq (h : From room before post) (deleted : Text → Bool) (limit : ℕ) :
    history room deleted before limit = ⟨(post.filter fun m => !deleted m.id).take limit,
      if limit < (post.filter fun m => !deleted m.id).length then
        ((post.filter fun m => !deleted m.id).take limit).getLast?.map Message.id else none, none⟩ := by
  simp only [history, rowsBefore_eq h, page_take, lt_length_take]

/-! ## Following the cursor -/

/-- Follows `nextCursor`. Between two requests any of the messages that were read may be deleted. -/
def follow (room : Room) (limit : ℕ) (deletes : ℕ → Text → Bool) :
    ℕ → ℕ → (Text → Bool) → Option Text → List Text → Option (List Message)
  | 0, _, _, _, _ => none
  | fuel + 1, k, deleted, before, seen =>
    let page := history room deleted before limit
    match page.nextCursor with
    | none => some page.items
    | some cursor =>
      let seen := seen ++ page.items.map Message.id
      (follow room limit deletes fuel (k + 1) (fun id => deleted id || (deletes k id && decide (id ∈ seen)))
        (some cursor) seen).map (page.items ++ ·)

theorem follow_from (hpos : 0 < limit) (deletes : ℕ → Text → Bool) {fuel : ℕ} (k : ℕ) {deleted : Text → Bool}
    {before : Option Text} {seen : List Text} (h : From room before post) (hfuel : post.length < fuel)
    (hsplit : room.newestFirst = pre ++ post) (hseen : ∀ id ∈ seen, id ∈ pre.map Message.id) :
    follow room limit deletes fuel k deleted before seen = some (post.filter fun m => !deleted m.id) := by
  induction fuel generalizing k deleted before seen pre post with
  | zero => exact absurd hfuel (Nat.not_lt_zero _)
  | succ fuel ih =>
    rw [follow, history_eq h]
    by_cases hmore : limit < (post.filter fun m => !deleted m.id).length
    · obtain ⟨mid, c, rest, hpost, hc, htake, hdrop⟩ := exists_split_of_lt hpos hmore
      have hlast : ((post.filter fun m => !deleted m.id).take limit).getLast? = some c := by
        have hone : [c].filter (fun m => !deleted m.id) = [c] := List.filter_cons_of_pos hc
        rw [← htake, List.filter_append, hone, List.getLast?_concat]
      have hsplit' : room.newestFirst = (pre ++ mid ++ [c]) ++ rest := by
        rw [hsplit, hpost]
        simp only [List.append_assoc, List.cons_append, List.nil_append]
      have hcmem : c ∈ room.rows := by
        rw [← mem_newestFirst, hsplit']
        exact List.mem_append_left _ (List.mem_append_right _ List.mem_cons_self)
      have hfrom : From room (some c.id) rest := by
        rw [From, Option.bind_some, anchor_id hcmem]
        exact ⟨pre ++ mid, by rw [hsplit']; simp only [List.append_assoc, List.cons_append, List.nil_append]⟩
      have hseen' : ∀ id ∈ seen ++ ((post.filter fun m => !deleted m.id).take limit).map Message.id,
          id ∈ (pre ++ mid ++ [c]).map Message.id := by
        intro id hid
        rw [List.append_assoc, List.map_append]
        rcases List.mem_append.mp hid with hold | hnew
        · exact List.mem_append_left _ (hseen id hold)
        · rw [← htake] at hnew
          exact List.mem_append_right _ ((List.filter_sublist.map Message.id).subset hnew)
      have hlen : rest.length < fuel := by
        rw [hpost, List.length_append, List.length_cons] at hfuel
        omega
      -- What has been read is not read again, so its deletion changes nothing of the rest.
      have hrest : (rest.filter fun m => !(deleted m.id || (deletes k m.id && decide (m.id ∈
          seen ++ ((post.filter fun m => !deleted m.id).take limit).map Message.id)))) =
            rest.filter fun m => !deleted m.id := by
        refine List.filter_congr fun m hm => ?_
        have hids := nodup_newestFirst room
        rw [hsplit', List.map_append, List.nodup_append] at hids
        have hout : m.id ∉ seen ++ ((post.filter fun m => !deleted m.id).take limit).map Message.id := fun hin =>
          hids.2.2 m.id (hseen' m.id hin) m.id (List.mem_map_of_mem hm) rfl
        rw [decide_eq_false hout, Bool.and_false, Bool.or_false]
      simp only [if_pos hmore, hlast, Option.map_some]
      rw [ih (k + 1) hfrom hlen hsplit' hseen', hrest, hdrop, Option.map_some, List.take_append_drop]
    · simp only [if_neg hmore]
      rw [List.take_of_length_le (by omega)]

end Civfix.MessageHistory

import Civfix.CursorPages

/-! # Pages of threads

The threads of a user are of four families, each with its own query. The queries order by an activity cut to the
millisecond, and so does the merge; the cursor carries that millisecond and the id of the last thread of the page. Of
the lists that a time cursor pages, those in ascending order are not modelled. -/
namespace Civfix.ThreadPages

open CodeUnits KeysetCursors CursorPages KeysetPages

/-- A row of the query of a family before the cursor. Instants are microseconds since the start of 1970. The cleanup and
the direct family also test that the last message has a sender, which always holds there: only the chat of a report has
messages without one. -/
structure ThreadRow where
  roomId : Uuid
  lastCreatedAt : Option ℕ
  /-- When the user joined, or the start of a direct thread. -/
  since : ℕ
  hiddenAt : Option ℕ
  deriving DecidableEq

namespace ThreadRow

def rawActivity (r : ThreadRow) : ℕ := r.lastCreatedAt.getD r.since

/-- `date_trunc('milliseconds', …)`, and what `getTime` gives for the `Date` of the row. -/
def activity (r : ThreadRow) : ℤ := (r.rawActivity / 1000 : ℕ)

/-- `h.hidden_at IS NULL OR … > h.hidden_at`. -/
def shown (r : ThreadRow) : Bool := r.hiddenAt.all fun hiddenAt => hiddenAt < r.rawActivity

def key (r : ThreadRow) : ℤ ×ₗ Text := toLex (r.activity, r.roomId.text)

end ThreadRow

/-- `ORDER BY activity DESC, id DESC`. -/
def NewerFirst (a b : ThreadRow) : Prop := b.key ≤ a.key

instance : DecidableRel NewerFirst := fun a b => inferInstanceAs (Decidable (b.key ≤ a.key))

instance : Std.Total NewerFirst := ⟨fun a b => le_total b.key a.key⟩

instance : IsTrans ThreadRow NewerFirst := ⟨fun _ _ _ hab hbc => le_trans hbc hab⟩

def THREADS_DEFAULT_LIMIT : ℕ := 30

/-- The rows that the queries of the four families find for the user. -/
structure Sources where
  cleanup : List ThreadRow
  dm : List ThreadRow
  report : List ThreadRow
  group : List ThreadRow

def Sources.families (s : Sources) : List (List ThreadRow) := [s.cleanup, s.dm, s.report, s.group]

def Sources.rows (s : Sources) : List ThreadRow := s.families.flatten

def listThreadFamily (rows : List ThreadRow) (limit : ℕ) (cursor : Option TimeCursor) : List ThreadRow :=
  ((rows.filter fun r => r.shown && msKeysetFilter r.activity r.roomId.text cursor).insertionSort NewerFirst).take limit

def list (env : Platform) (s : Sources) (limit : Option ℕ) (cursor : Option Text) : List ThreadRow × Option Text :=
  let limit := max 1 (limit.getD THREADS_DEFAULT_LIMIT)
  let cursor := parseTimeCursor env cursor {}
  let fetchLimit := limit + 1
  let entries := (s.families.map fun rows => listThreadFamily rows fetchLimit cursor).flatten
  let merged := (entries.filter fun e => isBeforeTimeCursor e.activity e.roomId.text cursor).insertionSort NewerFirst
  pageWith merged limit fun last => some (encodeTimeCursor ⟨last.activity, last.roomId.text⟩)

/-! ## One page -/

section

variable {env : Platform} {s : Sources} {rows : List ThreadRow} {a b x : ThreadRow}

theorem activity_nonneg (r : ThreadRow) : 0 ≤ r.activity := Int.natCast_nonneg _

theorem id_eq_of_newerFirst (hab : NewerFirst a b) (hba : NewerFirst b a) : a.roomId = b.roomId :=
  Uuid.ext (congrArg (fun k => (ofLex k).2) (le_antisymm hba hab))

theorem eq_of_newerFirst (h : (rows.map ThreadRow.roomId).Nodup) (ha : a ∈ rows) (hb : b ∈ rows) (hab : NewerFirst a b)
    (hba : NewerFirst b a) : a = b := List.inj_on_of_nodup_map h ha hb (id_eq_of_newerFirst hab hba)

/-- The threads of the user in the order of the list. -/
def threads (s : Sources) : List ThreadRow := (s.rows.filter ThreadRow.shown).insertionSort NewerFirst

/-- What the queries leave out of the list behind a cursor. -/
def before (cursor : Option TimeCursor) (r : ThreadRow) : Bool := isBeforeTimeCursor r.activity r.roomId.text cursor

theorem shown_filter (cursor : Option TimeCursor) (rows : List ThreadRow) :
    rows.filter (fun r => r.shown && before cursor r) = (rows.filter ThreadRow.shown).filter (before cursor) := by
  rw [List.filter_filter]
  exact List.filter_congr fun r _ => Bool.and_comm _ _

/-- A page is the first part of what the cursor leaves of the list. -/
theorem list_eq (hids : (s.rows.map ThreadRow.roomId).Nodup) (limit : Option ℕ) {raw : Option Text}
    {cursor : Option TimeCursor} (hcursor : parseTimeCursor env raw {} = cursor)
    (hcanonical : ∀ c ∈ cursor, uuidOf c.id = c.id) :
    list env s limit raw = firstPage (max 1 (limit.getD THREADS_DEFAULT_LIMIT)) ((threads s).filter (before cursor))
      fun last => encodeTimeCursor ⟨last.activity, last.roomId.text⟩ := by
  generalize hlimit : max 1 (limit.getD THREADS_DEFAULT_LIMIT) = n
  have hfilter : ∀ r : ThreadRow, msKeysetFilter r.activity r.roomId.text cursor = before cursor r := by
    intro r
    cases cursor with
    | none => rfl
    | some c => exact msKeysetFilter_eq (hcanonical c rfl)
  have hfamily : (fun rows => listThreadFamily rows (n + 1) cursor) = fun rows : List ThreadRow =>
      ((rows.filter fun r => r.shown && before cursor r).insertionSort NewerFirst).take (n + 1) := by
    funext rows
    rw [listThreadFamily]
    simp only [hfilter]
  let parts := s.families.map fun rows => rows.filter fun r => r.shown && before cursor r
  have hparts : parts.flatten = (s.rows.filter ThreadRow.shown).filter (before cursor) := by
    rw [← shown_filter, Sources.rows, List.filter_flatten]
  have hentries : (s.families.map fun rows => listThreadFamily rows (n + 1) cursor).flatten =
      (parts.map fun l => (l.insertionSort NewerFirst).take (n + 1)).flatten := by
    rw [hfamily, List.map_map]
    rfl
  -- The merge tests the entries again, and every one of them passes.
  have hpass : ((parts.map fun l => (l.insertionSort NewerFirst).take (n + 1)).flatten.filter fun e =>
      isBeforeTimeCursor e.activity e.roomId.text cursor) =
        (parts.map fun l => (l.insertionSort NewerFirst).take (n + 1)).flatten := by
    refine List.filter_eq_self.mpr fun e he => ?_
    obtain ⟨m, hm, hem⟩ := List.mem_flatten.mp he
    obtain ⟨l, hl, rfl⟩ := List.mem_map.mp hm
    have hel : e ∈ parts.flatten :=
      List.mem_flatten.mpr ⟨l, hl, (List.mem_insertionSort NewerFirst).mp (List.mem_of_mem_take hem)⟩
    rw [hparts] at hel
    exact (List.mem_filter.mp hel).2
  have hsub : ∀ e ∈ parts.flatten, e ∈ s.rows := fun e he => by
    rw [hparts] at he
    exact List.mem_of_mem_filter (List.mem_of_mem_filter he)
  have hnodup : parts.flatten.Nodup := by
    rw [hparts]
    exact ((List.Nodup.of_map _ hids).filter _).filter _
  have hanti : ∀ a ∈ parts.flatten, ∀ b ∈ parts.flatten, NewerFirst a b → NewerFirst b a → a = b :=
    fun a ha b hb => eq_of_newerFirst hids (hsub a ha) (hsub b hb)
  have hsorted : parts.flatten.insertionSort NewerFirst = (threads s).filter (before cursor) := by
    rw [hparts, threads]
    exact insertionSort_filter_of_mem (fun a ha b hb => eq_of_newerFirst hids (List.mem_of_mem_filter ha)
      (List.mem_of_mem_filter hb)) _
  have hpage : list env s limit raw =
      pageWith ((((s.families.map fun rows => listThreadFamily rows (n + 1) cursor).flatten).filter fun e =>
        isBeforeTimeCursor e.activity e.roomId.text cursor).insertionSort NewerFirst) n
        fun last => some (encodeTimeCursor ⟨last.activity, last.roomId.text⟩) := by
    rw [← hlimit, ← hcursor]
    rfl
  rw [hpage, hentries, hpass, pageWith_eq, ← firstPage_take, take_insertionSort_flatten hnodup hanti, hsorted,
    firstPage_take]

end

/-! ## All pages -/

section

variable {α : Type} {env : Platform} {l : List α} {keyOf : α → TimeCursor} {limit : ℕ}
  {page : Option Text → List α × Option Text}

/-- What a cursor stands for. -/
def cursorKey (c : TimeCursor) : ℤ ×ₗ Text := toLex (c.at', c.id)

/-- The cursor is one that is read back. -/
def Carried (c : TimeCursor) : Prop := (0 ≤ c.at' ∧ c.at' ≤ CURSOR_MAX_MS) ∧ isUuid c.id = true

instance (c : TimeCursor) : Decidable (Carried c) := inferInstanceAs (Decidable ((_ ∧ _) ∧ _))

variable (env) in
/-- Pages of a list whose keys descend, cut behind a cursor, make up the list. -/
theorem follows_of_descending (hpos : 0 < limit)
    (hsorted : l.Pairwise fun a b => cursorKey (keyOf b) < cursorKey (keyOf a))
    (hcarried : ∀ a ∈ l, Carried (keyOf a))
    (hpage : ∀ raw, (∀ c ∈ parseTimeCursor env raw {}, ∃ x ∈ l, keyOf x = c) →
      page raw = firstPage limit (l.filter fun a =>
        isBeforeTimeCursor (keyOf a).at' (keyOf a).id (parseTimeCursor env raw {})) fun a => encodeTimeCursor
          (keyOf a)) :
    Follows page none l := by
  have hparse : ∀ x ∈ l, parseTimeCursor env (some (encodeTimeCursor (keyOf x))) {} = some (keyOf x) := fun x hx =>
    parseTimeCursor_encode (hcarried x hx).1.1 (hcarried x hx).1.2 (hcarried x hx).2 {}
  have hnodup : l.Nodup := hsorted.imp fun hlt heq => absurd (heq ▸ hlt) (lt_irrefl _)
  let after : Option Text → α → Bool := fun raw a =>
    isBeforeTimeCursor (keyOf a).at' (keyOf a).id (parseTimeCursor env raw {})
  have hnone : page none = firstPage limit (l.filter (after none)) fun a => encodeTimeCursor (keyOf a) :=
    hpage none fun c hc => (by cases hc)
  have hplace : ∀ x ∈ l, page (some (encodeTimeCursor (keyOf x))) =
      firstPage limit (l.filter (after (some (encodeTimeCursor (keyOf x))))) fun a => encodeTimeCursor (keyOf a) := by
    intro x hx
    refine hpage (some (encodeTimeCursor (keyOf x))) fun c hc => ?_
    rw [hparse x hx] at hc
    exact ⟨x, hx, Option.some.inj hc⟩
  rw [follows_iff hpos hnodup hplace hnone (List.nil_append l).symm]
  refine ⟨resumes_of_forall (fun y hy => (by cases hy)) (fun y _ => rfl) limit, fun mid x post hsplit _ _ => ?_⟩
  have hx : x ∈ l := by
    rw [hsplit]
    exact List.mem_append_right mid List.mem_cons_self
  rw [hsplit, List.pairwise_append, List.pairwise_cons] at hsorted
  simp only [after, hparse x hx, List.nil_append]
  refine resumes_of_forall (fun y hy => ?_) (fun y hy => ?_) limit
  · refine Bool.eq_false_of_not_eq_true fun hbefore => ?_
    rw [isBeforeTimeCursor_iff] at hbefore
    rcases List.mem_append.mp hy with hy | hy
    · exact lt_asymm hbefore (hsorted.2.2 y hy x List.mem_cons_self)
    · rw [List.mem_singleton.mp hy] at hbefore
      exact lt_irrefl _ hbefore
  · exact isBeforeTimeCursor_iff.mpr (hsorted.2.1.1 y hy)

end

/-- The place of a thread in the list. -/
def keyOf (r : ThreadRow) : TimeCursor := ⟨r.activity, r.roomId.text⟩

theorem descending_threads {s : Sources} (hids : (s.rows.map ThreadRow.roomId).Nodup) :
    (threads s).Pairwise fun a b => cursorKey (keyOf b) < cursorKey (keyOf a) := by
  have hnodup : (threads s).Nodup :=
    (List.perm_insertionSort _ _).nodup_iff.mpr ((List.Nodup.of_map _ hids).filter _)
  have hmem : ∀ a ∈ threads s, a ∈ s.rows := fun a ha =>
    List.mem_of_mem_filter ((List.mem_insertionSort NewerFirst).mp ha)
  refine ((List.pairwise_insertionSort NewerFirst _).and hnodup).imp_of_mem fun ha hb ⟨hle, hne⟩ => ?_
  refine lt_of_le_of_ne hle fun heq => hne ?_
  exact eq_of_newerFirst hids (hmem _ ha) (hmem _ hb) hle (le_of_eq heq.symm)

/-- Paging by time cursors visits every row once and in order, whichever rows share a millisecond. -/
theorem timeCursor_pages_complete (env : Platform) :
    (∀ (s : Sources) (limit : Option ℕ), (s.rows.map ThreadRow.roomId).Nodup →
      (∀ r ∈ s.rows, r.activity ≤ CURSOR_MAX_MS) →
      ∃ l, Follows (list env s limit) none l ∧ l.Perm (s.rows.filter ThreadRow.shown) ∧ l.Pairwise NewerFirst) ∧
    ∀ (α : Type) (rows : List α) (keyOf : α → TimeCursor) (limit : ℕ), 0 < limit →
      rows.Pairwise (fun a b => cursorKey (keyOf b) < cursorKey (keyOf a)) → (∀ a ∈ rows, Carried (keyOf a)) →
      Follows (fun cursor => pageBeforeTimeCursor rows (parseTimeCursor env cursor {}) limit keyOf) none rows := by
  refine ⟨fun s limit hids hrange => ?_, fun α rows keyOf limit hpos hsorted hcarried => ?_⟩
  · refine ⟨threads s, ?_, List.perm_insertionSort _ _, List.pairwise_insertionSort _ _⟩
    have hpos : 0 < max 1 (limit.getD THREADS_DEFAULT_LIMIT) := Nat.lt_of_lt_of_le Nat.one_pos (Nat.le_max_left _ _)
    refine follows_of_descending env hpos (descending_threads hids) (fun a ha => ?_) ?_
    · have hrows := List.mem_of_mem_filter ((List.mem_insertionSort NewerFirst).mp ha)
      exact ⟨⟨activity_nonneg a, hrange a hrows⟩, a.roomId.isUuid⟩
    · intro raw hraw
      refine list_eq hids limit rfl fun c hc => ?_
      obtain ⟨x, -, rfl⟩ := hraw c hc
      exact x.roomId.uuidOf_text
  · exact follows_of_descending env hpos hsorted hcarried fun raw _ => pageWith_eq _ _ _

/-! ## Two threads of one millisecond, and two of the next century -/

def earlyId : Uuid := ⟨MIN_UUID, isUuid_minUuid, lower_minUuid⟩

def lateId : Uuid := ⟨MAX_UUID, isUuid_maxUuid, lower_maxUuid⟩

/-- A chat of a cleanup and a direct thread, a microsecond apart. -/
def sameMillisecond : Sources := ⟨[⟨earlyId, some 1700000000123456, 0, none⟩],
    [⟨lateId, none, 1700000000123455, none⟩], [], []⟩

theorem timeCursor_pages_complete_sameMillisecond :
    ((sameMillisecond.rows.map ThreadRow.roomId).Nodup ∧ ∀ r ∈ sameMillisecond.rows, r.activity ≤ CURSOR_MAX_MS) ∧
    (∃ l, Follows (list isoDates sameMillisecond (some 1)) none l ∧
      l.Perm (sameMillisecond.rows.filter ThreadRow.shown) ∧ l.Pairwise NewerFirst) ∧
    Follows (fun cursor => pageBeforeTimeCursor [lateId, earlyId] (parseTimeCursor isoDates cursor {}) 1
      fun id => ⟨1700000000123, id.text⟩) none [lateId, earlyId] := by
  have hids : (sameMillisecond.rows.map ThreadRow.roomId).Nodup := by decide
  have hrange : ∀ r ∈ sameMillisecond.rows, r.activity ≤ CURSOR_MAX_MS := by decide
  refine ⟨⟨hids, hrange⟩, (timeCursor_pages_complete isoDates).1 sameMillisecond (some 1) hids hrange, ?_⟩
  exact (timeCursor_pages_complete isoDates).2 Uuid [lateId, earlyId] (fun id => ⟨1700000000123, id.text⟩) 1 (by decide)
    (by decide) (by decide)

def nextCentury : Sources := ⟨[⟨earlyId, some 4102531200000000, 0, none⟩,
    ⟨lateId, some 4102531201000000, 0, none⟩], [], [], []⟩

/-- The cursor of an instant after 2100 is refused, and its page is the first one again. -/
theorem next_century_repeats : ¬∃ l, Follows (list isoDates nextCentury (some 1)) none l := by
  have hfirst : list isoDates nextCentury (some 1) none =
      ([⟨lateId, some 4102531201000000, 0, none⟩], some (encodeTimeCursor ⟨4102531201000, MAX_UUID⟩)) := by
    decide +kernel
  have hagain : list isoDates nextCentury (some 1) (some (encodeTimeCursor ⟨4102531201000, MAX_UUID⟩)) =
      ([⟨lateId, some 4102531201000000, 0, none⟩], some (encodeTimeCursor ⟨4102531201000, MAX_UUID⟩)) := by
    decide +kernel
  rintro ⟨l, h⟩
  exact not_follows_of_loop hfirst hagain h

end Civfix.ThreadPages

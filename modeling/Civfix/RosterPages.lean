import Civfix.CursorPages
import Civfix.KeyedTables

/-! # The pages of a roster

Each sort of the roster has its own order, its own cursor and its own test for what comes after a cursor. By the instant
of registration and by check-in the cursor carries every key of the order. By name it carries the name and the id, while
the order has the instant of registration between them. -/
namespace Civfix.RosterPages

open CodeUnits KeysetCursors CursorPages KeysetPages KeyedTables

/-- What JavaScript and Postgres make of names. -/
structure Platform where
  dates : KeysetCursors.Platform
  /-- `lower` of Postgres. -/
  lower : Text → Text
  toLowerCase : Text → Text
  /-- The sort key of the collation. -/
  collationKey : Text → List ℕ
  /-- `text ILIKE likeContains(q)`. -/
  contains : Text → Text → Bool

inductive RegistrationStatus where
  | registered
  | cancelled
  | transferred
  deriving DecidableEq

/-- The filters that `rosterStatusFilter` knows, and the default case. -/
inductive RegistrationRosterFilter where
  | registered
  | cancelled
  | guests
  | members
  | checked_in
  | not_checked_in
  | no_show
  | other

inductive RegistrationRosterSort where
  | registered_at_desc
  | registered_at_asc
  | name_asc
  | checked_in_at_desc

structure Seat where
  checkedInAt : Option ℕ
  noShowAt : Option ℕ
  attendeeName : Option Text
  deriving DecidableEq

/-- A registration with what `registrationJoins` puts beside it. Instants are microseconds since the start of 1970. -/
structure RosterRow where
  id : Uuid
  cleanupId : Uuid
  status : RegistrationStatus
  ticketTypeId : Option Uuid
  slotId : Option Uuid
  userId : Option Uuid
  guestId : Option Uuid
  displayName : Option Text
  handle : Option Text
  guestName : Option Text
  registeredAt : ℕ
  seats : List Seat
  deriving DecidableEq

namespace RosterRow

/-- `COALESCE(u.display_name, g.name, '')`. -/
def name (r : RosterRow) : Text := (r.displayName.or r.guestName).getD []

/-- `min(s.checked_in_at)` over the seats. -/
def firstAt (r : RosterRow) : Option ℕ := (r.seats.filterMap Seat.checkedInAt).min?

/-- `COALESCE(ci.first_at, 'epoch')`. -/
def rosterCheckedInKey (r : RosterRow) : ℕ := r.firstAt.getD 0

/-- The keys that every order but the one by name compares after its own. -/
def timeKey (r : RosterRow) : ℕ ×ₗ Text := toLex (r.registeredAt, r.id.text)

end RosterRow

/-- `cleanup_registrations` with its primary key. -/
abbrev Registrations := Table RosterRow.id

structure RosterQuery where
  cleanupId : Uuid
  filter : RegistrationRosterFilter
  ticketTypeId : Option Uuid
  slotId : Option Uuid
  sort : RegistrationRosterSort
  q : Option Text
  cursor : Option Text
  limit : ℕ

/-! ## The query -/

def rosterStatusFilter (filter : RegistrationRosterFilter) (r : RosterRow) : Bool :=
  match filter with
  | .registered => r.status = .registered
  | .cancelled => r.status = .cancelled
  | .guests => r.status = .registered && r.guestId.isSome
  | .members => r.status = .registered && r.userId.isSome
  | .checked_in => r.status = .registered && r.firstAt.isSome
  | .not_checked_in => r.status = .registered && r.firstAt.isNone
  | .no_show => r.status = .registered && r.seats.any (·.noShowAt.isSome)
  | .other => true

variable (env : Platform)

def rosterSearchFilter (q : Option Text) (r : RosterRow) : Bool :=
  match q with
  | none => true
  | some q =>
    if q = [] then true
    else r.displayName.any (env.contains q) || r.handle.any (env.contains q) || r.guestName.any (env.contains q) ||
      r.seats.any fun s => s.attendeeName.any (env.contains q)

/-- The registration is one that the query asks for, on whatever page. -/
def selects (query : RosterQuery) (r : RosterRow) : Bool :=
  r.cleanupId = query.cleanupId && rosterStatusFilter query.filter r &&
    query.ticketTypeId.all (fun id => r.ticketTypeId = some id) && query.slotId.all (fun id => r.slotId = some id) &&
    rosterSearchFilter env query.q r

/-- `a` may stand before `b` in `ROSTER_SORTS`. -/
def Precedes (sort : RegistrationRosterSort) (a b : RosterRow) : Prop :=
  match sort with
  | .registered_at_desc => b.timeKey ≤ a.timeKey
  | .registered_at_asc => a.timeKey ≤ b.timeKey
  | .name_asc =>
    toLex (env.collationKey (env.lower a.name), OrderDual.toDual a.timeKey) ≤
      toLex (env.collationKey (env.lower b.name), OrderDual.toDual b.timeKey)
  | .checked_in_at_desc => toLex (b.rosterCheckedInKey, b.timeKey) ≤ toLex (a.rosterCheckedInKey, a.timeKey)

instance (sort : RegistrationRosterSort) : DecidableRel (Precedes env sort) := fun a b =>
  match sort with
  | .registered_at_desc => inferInstanceAs (Decidable (b.timeKey ≤ a.timeKey))
  | .registered_at_asc => inferInstanceAs (Decidable (a.timeKey ≤ b.timeKey))
  | .name_asc => inferInstanceAs (Decidable (toLex (env.collationKey (env.lower a.name), OrderDual.toDual a.timeKey) ≤
      toLex (env.collationKey (env.lower b.name), OrderDual.toDual b.timeKey)))
  | .checked_in_at_desc =>
    inferInstanceAs (Decidable (toLex (b.rosterCheckedInKey, b.timeKey) ≤ toLex (a.rosterCheckedInKey, a.timeKey)))

/-! ## Cursors -/

/-- `registeredAtText` is missing from a cursor of before the sort carried it. -/
structure CheckedInRosterCursor where
  checkedInAtText : Text
  registeredAtText : Option Text
  id : Text

def encodeCheckedInRosterCursor (r : RosterRow) : Text :=
  keysetInstant r.rosterCheckedInKey ++ bar :: encodeKeysetCursor (keysetInstant r.registeredAt) r.id.text

def parseCheckedInRosterCursor (cursor : Text) : Option CheckedInRosterCursor :=
  match cursor.splitOn bar with
  | [checkedInText, registeredText, id] =>
    match parseKeysetCursor env.dates (some (checkedInText ++ bar :: id)) {},
      parseKeysetCursor env.dates (some (registeredText ++ bar :: id)) {} with
    | some checkedIn, some registered => some ⟨checkedIn.atText, some registered.atText, registered.id⟩
    | _, _ => none
  | _ :: _ :: _ :: _ => none
  | _ =>
    (parseKeysetCursor env.dates (some cursor) {}).map fun legacy => ⟨legacy.atText, none, legacy.id⟩

/-- A text that Postgres refuses is never bound. -/
def checkedInCursorFilter (raw : Text) (r : RosterRow) : Bool :=
  match parseCheckedInRosterCursor env raw with
  | none => true
  | some cursor =>
    match cursor.registeredAtText with
    | none => (timestamptz cursor.checkedInAtText).any fun at' => decide ((r.rosterCheckedInKey : ℤ) ≤ at')
    | some registeredAtText =>
      match timestamptz cursor.checkedInAtText, timestamptz registeredAtText with
      | some checkedIn, some registered =>
        decide (toLex ((r.rosterCheckedInKey : ℤ), toLex ((r.registeredAt : ℤ), r.id.text)) <
          toLex (checkedIn, toLex (registered, uuidOf cursor.id)))
      | _, _ => false

def rosterCursorFilter (sort : RegistrationRosterSort) (raw : Option Text) (r : RosterRow) : Bool :=
  match raw with
  | none => true
  | some raw =>
    match sort with
    | .name_asc =>
      match parseNameCursor (some raw) with
      | none => true
      | some cursor =>
        decide (toLex (env.collationKey cursor.name, uuidOf cursor.id) <
          toLex (env.collationKey (env.lower r.name), r.id.text))
    | .checked_in_at_desc => checkedInCursorFilter env raw r
    | .registered_at_desc =>
      match parseKeysetCursor env.dates (some raw) {} with
      | none => true
      | some cursor => keysetPredicate r.registeredAt r.id.text cursor.atText cursor.id false
    | .registered_at_asc =>
      match parseKeysetCursor env.dates (some raw) { ascending := true } with
      | none => true
      | some cursor => keysetPredicate r.registeredAt r.id.text cursor.atText cursor.id true

def encodeRosterCursor (sort : RegistrationRosterSort) (last : RosterRow) : Text :=
  match sort with
  | .name_asc => encodeNameCursor ⟨env.toLowerCase last.name, last.id.text⟩
  | .checked_in_at_desc => encodeCheckedInRosterCursor last
  | .registered_at_desc | .registered_at_asc => encodeKeysetCursor (keysetInstant last.registeredAt) last.id.text

def listRosterIn (t : Registrations) (query : RosterQuery) : List RosterRow × Option Text :=
  let rows := ((t.rows.filter fun r => selects env query r && rosterCursorFilter env query.sort query.cursor r).insertionSort
    (Precedes env query.sort)).take (query.limit + 1)
  pageWith rows query.limit fun last => some (encodeRosterCursor env query.sort last)

/-! ## The orders -/

section

variable {env : Platform} {sort : RegistrationRosterSort} {a b x y : RosterRow}

instance : Std.Total (Precedes env sort) where
  total a b := by
    cases sort with
    | registered_at_desc => exact le_total b.timeKey a.timeKey
    | registered_at_asc => exact le_total a.timeKey b.timeKey
    | name_asc => exact @le_total (Text ×ₗ (ℕ ×ₗ Text)ᵒᵈ) _ _ _
    | checked_in_at_desc => exact @le_total (ℕ ×ₗ (ℕ ×ₗ Text)) _ _ _

instance : IsTrans RosterRow (Precedes env sort) where
  trans a b c hab hbc := by
    cases sort with
    | registered_at_desc => exact @le_trans (ℕ ×ₗ Text) _ _ _ _ hbc hab
    | registered_at_asc => exact @le_trans (ℕ ×ₗ Text) _ _ _ _ hab hbc
    | name_asc => exact @le_trans (Text ×ₗ (ℕ ×ₗ Text)ᵒᵈ) _ _ _ _ hab hbc
    | checked_in_at_desc => exact @le_trans (ℕ ×ₗ (ℕ ×ₗ Text)) _ _ _ _ hbc hab

/-- Every order ends with the id. -/
theorem id_eq_of_precedes (hab : Precedes env sort a b) (hba : Precedes env sort b a) : a.id = b.id := by
  have htime : a.timeKey = b.timeKey := by
    cases sort with
    | registered_at_desc => exact le_antisymm hba hab
    | registered_at_asc => exact le_antisymm hab hba
    | name_asc =>
      have heq := @le_antisymm (Text ×ₗ (ℕ ×ₗ Text)ᵒᵈ) _ _ _ hab hba
      exact OrderDual.toDual.injective (congrArg (fun k => (ofLex k).2) heq)
    | checked_in_at_desc =>
      have heq := @le_antisymm (ℕ ×ₗ (ℕ ×ₗ Text)) _ _ _ hba hab
      exact congrArg (fun k => (ofLex k).2) heq
  exact Uuid.ext (congrArg (fun k => (ofLex k).2) htime)

end

/-! ## What the pages are of -/

/-- The registrations that the query asks for, in the order of its sort. -/
def roster (t : Registrations) (query : RosterQuery) : List RosterRow :=
  (t.rows.filter (selects env query)).insertionSort (Precedes env query.sort)

/-- Following the cursors from the first page on gives every registration that the query asks for once, in order. -/
def Complete (t : Registrations) (query : RosterQuery) : Prop :=
  ∃ l, Follows (fun cursor => listRosterIn env t { query with cursor }) none l ∧
    l.Perm (t.rows.filter (selects env query)) ∧ l.Pairwise (Precedes env query.sort)

/-- The instant is one that a cursor may carry. -/
def InRange (u : ℕ) : Prop := ((u / 1000 : ℕ) : ℤ) ≤ CURSOR_MAX_MS

instance (u : ℕ) : Decidable (InRange u) := inferInstanceAs (Decidable (_ ≤ _))

/-- What is compared of a row with the cursor of another: the name in lower case and the id. -/
def nameKey (lower : Text → Text) (r : RosterRow) : Text ×ₗ Text := toLex (env.collationKey (lower r.name), r.id.text)

/-- A page may end at `x` when `read` are the rows up to it and `rest` those after it. -/
def Resumable (sort : RegistrationRosterSort) (limit : ℕ) (read : List RosterRow) (x : RosterRow)
    (rest : List RosterRow) : Prop :=
  match sort with
  | .registered_at_desc | .registered_at_asc => InRange x.registeredAt
  | .checked_in_at_desc => InRange x.rosterCheckedInKey ∧ InRange x.registeredAt
  | .name_asc => Resumes limit (fun y => decide (nameKey env env.toLowerCase x < nameKey env env.lower y)) read rest

section

variable {env : Platform} {t : Registrations} {query : RosterQuery} {sort : RegistrationRosterSort}
  {a b x y : RosterRow} {read rest : List RosterRow} {limit : ℕ}

theorem eq_of_id {l : List RosterRow} (h : (l.map RosterRow.id).Nodup) (ha : a ∈ l) (hb : b ∈ l) (hid : a.id = b.id) :
    a = b := List.inj_on_of_nodup_map h ha hb hid

theorem mem_roster : x ∈ roster env t query ↔ x ∈ t.rows ∧ selects env query x = true := by
  rw [roster, List.mem_insertionSort, List.mem_filter]

theorem perm_roster (env : Platform) (t : Registrations) (query : RosterQuery) :
    (roster env t query).Perm (t.rows.filter (selects env query)) := List.perm_insertionSort _ _

theorem pairwise_roster (env : Platform) (t : Registrations) (query : RosterQuery) :
    (roster env t query).Pairwise (Precedes env query.sort) := List.pairwise_insertionSort _ _

theorem nodup_roster (env : Platform) (t : Registrations) (query : RosterQuery) : (roster env t query).Nodup :=
  (perm_roster env t query).nodup_iff.mpr ((List.Nodup.of_map _ t.nodup).filter _)

theorem complete_iff_follows : Complete env t query ↔
    Follows (fun cursor => listRosterIn env t { query with cursor }) none (roster env t query) := by
  refine ⟨fun ⟨l, hfollows, hperm, hsorted⟩ => ?_, fun h => ⟨_, h, perm_roster env t query,
    pairwise_roster env t query⟩⟩
  have heq : l = roster env t query := by
    refine (hperm.trans (perm_roster env t query).symm).eq_of_pairwise (fun a b ha hb hab hba => ?_) hsorted
      (pairwise_roster env t query)
    exact eq_of_id t.nodup (List.mem_of_mem_filter (hperm.mem_iff.mp ha))
      (mem_roster.mp hb).1 (id_eq_of_precedes hab hba)
  rwa [← heq]

/-- A page is the first part of what the cursor leaves of the roster. -/
theorem listRosterIn_eq (cursor : Option Text) : listRosterIn env t { query with cursor } =
    firstPage query.limit ((roster env t query).filter (rosterCursorFilter env query.sort cursor))
      (encodeRosterCursor env query.sort) := by
  have hfilter : t.rows.filter (fun r => selects env query r && rosterCursorFilter env query.sort cursor r) =
      (t.rows.filter (selects env query)).filter (rosterCursorFilter env query.sort cursor) := by
    rw [List.filter_filter]
    exact List.filter_congr fun r _ => Bool.and_comm _ _
  have hsort := insertionSort_filter_of_mem (r := Precedes env query.sort) (l := t.rows.filter (selects env query))
    (fun a ha b hb hab hba => eq_of_id t.nodup (List.mem_of_mem_filter ha) (List.mem_of_mem_filter hb)
      (id_eq_of_precedes hab hba)) (rosterCursorFilter env query.sort cursor)
  have hquery : listRosterIn env t { query with cursor } = pageWith (((t.rows.filter fun r =>
      selects env query r && rosterCursorFilter env query.sort cursor r).insertionSort
        (Precedes env query.sort)).take (query.limit + 1)) query.limit
      fun last => some (encodeRosterCursor env query.sort last) := rfl
  rw [hquery, hfilter, hsort, pageWith_take, roster]

/-- Around an item of the roster the order is strict. -/
theorem precedes_of_split (h : roster env t query = read ++ x :: rest) :
    (∀ y ∈ read ++ [x], Precedes env query.sort y x) ∧ ∀ y ∈ rest, ¬Precedes env query.sort y x := by
  have hsorted := pairwise_roster env t query
  have hnodup := nodup_roster env t query
  have hmem : ∀ y ∈ x :: rest, y ∈ t.rows := fun y hy =>
    (mem_roster.mp (by rw [h]; exact List.mem_append_right read hy)).1
  rw [h, List.pairwise_append, List.pairwise_cons] at hsorted
  rw [h, List.nodup_append', List.nodup_cons] at hnodup
  refine ⟨fun y hy => ?_, fun y hy hyx => ?_⟩
  · rcases List.mem_append.mp hy with hy | hy
    · exact hsorted.2.2 y hy x List.mem_cons_self
    · rw [List.mem_singleton.mp hy]
      exact (total_of (Precedes env query.sort) x x).elim id id
  · have hyx := eq_of_id t.nodup (hmem y (List.mem_cons_of_mem x hy)) (hmem x List.mem_cons_self)
      (id_eq_of_precedes hyx (hsorted.2.1.1 y hy))
    exact hnodup.2.1.1 (hyx ▸ hy)

/-! ## What comes after a cursor -/

theorem cast_timeKey_lt {m n : ℕ} {s u : Text} :
    toLex ((m : ℤ), s) < toLex ((n : ℤ), u) ↔ toLex (m, s) < toLex (n, u) := by
  simp only [Prod.Lex.toLex_lt_toLex, Nat.cast_lt, Nat.cast_inj]

theorem cast_checkedInKey_lt {m n k l : ℕ} {s u : Text} :
    toLex ((m : ℤ), toLex ((k : ℤ), s)) < toLex ((n : ℤ), toLex ((l : ℤ), u)) ↔
      toLex (m, toLex (k, s)) < toLex (n, toLex (l, u)) := by
  simp only [Prod.Lex.toLex_lt_toLex, Nat.cast_lt, Nat.cast_inj]

theorem not_resumes_of_true {p : RosterRow → Bool} (h : ∀ y, p y = true) : ¬Resumes limit p (read ++ [x]) rest := by
  intro hresumes
  have hx := hresumes.read x (List.mem_append_right read List.mem_cons_self)
  rw [h x] at hx
  cases hx

theorem keysetPredicate_encode {u v : ℕ} {id anchorId : Uuid} (h : InRange v) (ascending : Bool) :
    keysetPredicate u id.text (keysetInstant v) anchorId.text ascending = true ↔
      if ascending then toLex (v, anchorId.text) < toLex (u, id.text) else toLex (u, id.text) < toLex (v,
        anchorId.text) := by
  rw [keysetPredicate, timestamptz_keysetInstant h, Option.any_some, Uuid.uuidOf_text]
  cases ascending <;> simp only [Bool.false_eq_true, if_true, if_false, decide_eq_true_eq, cast_timeKey_lt]

theorem filter_desc_of_parse {raw : Text} {cursor : Option KeysetCursor}
    (h : parseKeysetCursor env.dates (some raw) {} = cursor) :
    rosterCursorFilter env .registered_at_desc (some raw) y =
      cursor.all fun c => keysetPredicate y.registeredAt y.id.text c.atText c.id false := by
  simp only [rosterCursorFilter, h]
  cases cursor <;> rfl

theorem filter_asc_of_parse {raw : Text} {cursor : Option KeysetCursor}
    (h : parseKeysetCursor env.dates (some raw) { ascending := true } = cursor) :
    rosterCursorFilter env .registered_at_asc (some raw) y =
      cursor.all fun c => keysetPredicate y.registeredAt y.id.text c.atText c.id true := by
  simp only [rosterCursorFilter, h]
  cases cursor <;> rfl

theorem after_registered_desc (h : InRange x.registeredAt) :
    rosterCursorFilter env .registered_at_desc (some (encodeRosterCursor env .registered_at_desc x)) y = true ↔
      ¬Precedes env .registered_at_desc y x := by
  have hparse : parseKeysetCursor env.dates _ {} = _ := parseKeysetCursor_encode h x.id.isUuid {}
  rw [encodeRosterCursor, filter_desc_of_parse hparse, Option.all_some]
  exact (keysetPredicate_encode h false).trans not_le.symm

theorem after_registered_asc (h : InRange x.registeredAt) :
    rosterCursorFilter env .registered_at_asc (some (encodeRosterCursor env .registered_at_asc x)) y = true ↔
      ¬Precedes env .registered_at_asc y x := by
  have hparse : parseKeysetCursor env.dates _ _ = _ := parseKeysetCursor_encode h x.id.isUuid { ascending := true }
  rw [encodeRosterCursor, filter_asc_of_parse hparse, Option.all_some]
  exact (keysetPredicate_encode h true).trans not_le.symm

theorem splitOn_checkedIn (x : RosterRow) : (encodeCheckedInRosterCursor x).splitOn bar =
    [keysetInstant x.rosterCheckedInKey, keysetInstant x.registeredAt, x.id.text] := by
  have hbar : ∀ u, bar ∉ keysetInstant u := fun u => bar_not_mem_isoParts _ fun f hf => by
    cases hf
    exact List.all_eq_true.mpr fun _ hd => isDigit_of_padStart hd
  rw [encodeCheckedInRosterCursor, encodeKeysetCursor, List.splitOn_append_cons_self_of_not_mem (hbar _),
    List.splitOn_append_cons_self_of_not_mem (hbar _), List.splitOn_eq_singleton (bar_not_mem_uuid x.id.isUuid)]

theorem parseCheckedIn_of_split {raw checkedInText registeredText id : Text}
    (h : raw.splitOn bar = [checkedInText, registeredText, id]) :
    parseCheckedInRosterCursor env raw =
      (parseKeysetCursor env.dates (some (encodeKeysetCursor checkedInText id)) {}).bind fun checkedIn =>
        (parseKeysetCursor env.dates (some (encodeKeysetCursor registeredText id)) {}).map fun registered =>
          ⟨checkedIn.atText, some registered.atText, registered.id⟩ := by
  rw [parseCheckedInRosterCursor, h]
  simp only [encodeKeysetCursor]
  cases parseKeysetCursor env.dates (some (checkedInText ++ bar :: id)) {} with
  | none => rfl
  | some checkedIn => cases parseKeysetCursor env.dates (some (registeredText ++ bar :: id)) {} <;> rfl

theorem filter_checkedIn_of_parse {raw checkedInText registeredText id : Text} {checkedIn registered : ℤ}
    (h : parseCheckedInRosterCursor env raw = some ⟨checkedInText, some registeredText, id⟩)
    (hchecked : timestamptz checkedInText = some checkedIn)
    (hregistered : timestamptz registeredText = some registered) :
    rosterCursorFilter env .checked_in_at_desc (some raw) y =
      decide (toLex ((y.rosterCheckedInKey : ℤ), toLex ((y.registeredAt : ℤ), y.id.text)) <
        toLex (checkedIn, toLex (registered, uuidOf id))) := by
  simp only [rosterCursorFilter, checkedInCursorFilter, h, hchecked, hregistered]

theorem filter_checkedIn_of_none {raw : Text} (h : parseCheckedInRosterCursor env raw = none) :
    rosterCursorFilter env .checked_in_at_desc (some raw) y = true := by
  simp only [rosterCursorFilter, checkedInCursorFilter, h]

theorem after_checkedIn (h : InRange x.rosterCheckedInKey) (h' : InRange x.registeredAt) :
    rosterCursorFilter env .checked_in_at_desc (some (encodeRosterCursor env .checked_in_at_desc x)) y = true ↔
      ¬Precedes env .checked_in_at_desc y x := by
  have hparse : parseCheckedInRosterCursor env (encodeCheckedInRosterCursor x) =
      some ⟨keysetInstant x.rosterCheckedInKey, some (keysetInstant x.registeredAt), x.id.text⟩ := by
    rw [parseCheckedIn_of_split (splitOn_checkedIn x), parseKeysetCursor_encode h x.id.isUuid,
      parseKeysetCursor_encode h' x.id.isUuid]
    rfl
  rw [encodeRosterCursor,
    filter_checkedIn_of_parse hparse (timestamptz_keysetInstant h) (timestamptz_keysetInstant h'), Uuid.uuidOf_text,
    decide_eq_true_eq, cast_checkedInKey_lt]
  exact not_le.symm

theorem true_of_late_registered (h : ¬InRange x.registeredAt)
    (hsort : sort = .registered_at_desc ∨ sort = .registered_at_asc) :
    rosterCursorFilter env sort (some (encodeRosterCursor env sort x)) y = true := by
  have hnone : ∀ opts, parseKeysetCursor env.dates (some
    (encodeKeysetCursor (keysetInstant x.registeredAt) x.id.text)) opts =
      none := parseKeysetCursor_late (not_le.mp h)
  rcases hsort with rfl | rfl
  · rw [encodeRosterCursor, filter_desc_of_parse (hnone _), Option.all_none]
  · rw [encodeRosterCursor, filter_asc_of_parse (hnone _), Option.all_none]

theorem true_of_late_checkedIn (h : ¬(InRange x.rosterCheckedInKey ∧ InRange x.registeredAt)) :
    rosterCursorFilter env .checked_in_at_desc (some (encodeRosterCursor env .checked_in_at_desc x)) y = true := by
  have hparse : parseCheckedInRosterCursor env (encodeCheckedInRosterCursor x) = none := by
    rw [parseCheckedIn_of_split (splitOn_checkedIn x)]
    by_cases hchecked : InRange x.rosterCheckedInKey
    · rw [parseKeysetCursor_late (not_le.mp fun hin => h ⟨hchecked, hin⟩)]
      exact Option.bind_eq_none_iff.mpr fun _ _ => rfl
    · rw [parseKeysetCursor_late (not_le.mp hchecked), Option.bind_none]
  rw [encodeRosterCursor]
  exact filter_checkedIn_of_none hparse

theorem filter_name_of_parse {raw : Text} {cursor : NameCursor} (h : parseNameCursor (some raw) = some cursor) :
    rosterCursorFilter env .name_asc (some raw) y =
      decide (toLex (env.collationKey cursor.name, uuidOf cursor.id) < nameKey env env.lower y) := by
  simp only [rosterCursorFilter, h]
  rfl

theorem after_name : rosterCursorFilter env .name_asc (some (encodeRosterCursor env .name_asc x)) y =
    decide (nameKey env env.toLowerCase x < nameKey env env.lower y) := by
  rw [encodeRosterCursor, filter_name_of_parse (parseNameCursor_encode x.id.isUuid _), Uuid.uuidOf_text]
  rfl

theorem resumes_of_after (hsplit : roster env t query = read ++ x :: rest) (hsort : query.sort = sort)
    {p : RosterRow → Bool} (h : ∀ y, p y = true ↔ ¬Precedes env sort y x) : Resumes limit p (read ++ [x]) rest := by
  subst hsort
  obtain ⟨hread, hrest⟩ := precedes_of_split hsplit
  refine resumes_of_forall (fun y hy => ?_) (fun y hy => (h y).mpr (hrest y hy)) limit
  exact Bool.eq_false_of_not_eq_true fun hpass => (h y).mp hpass (hread y hy)

theorem resumes_iff (hsplit : roster env t query = read ++ x :: rest) :
    Resumes limit (rosterCursorFilter env query.sort (some (encodeRosterCursor env query.sort x))) (read ++ [x]) rest ↔
      Resumable env query.sort limit (read ++ [x]) x rest := by
  cases hsort : query.sort with
  | registered_at_desc =>
    by_cases h : InRange x.registeredAt
    · exact iff_of_true (resumes_of_after hsplit hsort fun y => after_registered_desc h) h
    · exact iff_of_false (not_resumes_of_true fun y => true_of_late_registered h (.inl rfl)) h
  | registered_at_asc =>
    by_cases h : InRange x.registeredAt
    · exact iff_of_true (resumes_of_after hsplit hsort fun y => after_registered_asc h) h
    · exact iff_of_false (not_resumes_of_true fun y => true_of_late_registered h (.inr rfl)) h
  | checked_in_at_desc =>
    by_cases h : InRange x.rosterCheckedInKey ∧ InRange x.registeredAt
    · exact iff_of_true (resumes_of_after hsplit hsort fun y => after_checkedIn h.1 h.2) h
    · exact iff_of_false (not_resumes_of_true fun y => true_of_late_checkedIn h) h
  | name_asc =>
    have hname : rosterCursorFilter env .name_asc (some (encodeRosterCursor env .name_asc x)) =
        fun y => decide (nameKey env env.toLowerCase x < nameKey env env.lower y) := funext fun y => after_name
    rw [hname, Resumable]

/-- When the pages of the roster are complete. -/
theorem roster_complete_iff (env : Platform) (t : Registrations) (query : RosterQuery) :
    Complete env t query ↔ (query.limit = 0 → ∀ r ∈ t.rows, selects env query r = false) ∧
      ∀ read x rest, roster env t query = read ++ x :: rest → query.limit ∣ read.length + 1 → rest ≠ [] →
        Resumable env query.sort query.limit (read ++ [x]) x rest := by
  rw [complete_iff_follows]
  obtain hzero | hpos := Nat.eq_zero_or_pos query.limit
  · have hpage : listRosterIn env t { query with cursor := none } = ([], none) := by
      rw [listRosterIn_eq, hzero, firstPage, List.take_zero, List.getLast?_nil, Option.map_none, ite_self]
    have hnothing : (∀ r ∈ t.rows, selects env query r = false) ↔ roster env t query = [] := by
      rw [List.eq_nil_iff_forall_not_mem]
      simp only [mem_roster, not_and, Bool.not_eq_true]
    have hvacuous : ∀ read x rest, roster env t query = read ++ x :: rest → query.limit ∣ read.length + 1 → rest ≠ [] →
        Resumable env query.sort query.limit (read ++ [x]) x rest := by
      intro read x rest _ hdvd
      rw [hzero, Nat.zero_dvd] at hdvd
      cases hdvd
    rw [and_iff_left hvacuous, hnothing]
    refine ⟨fun h _ => h.unique (.last hpage), fun h => ?_⟩
    rw [h hzero]
    exact .last hpage
  · rw [follows_iff hpos (nodup_roster env t query) (fun x _ => listRosterIn_eq _) (listRosterIn_eq none)
      (List.nil_append _).symm]
    have hfirst : Resumes query.limit (rosterCursorFilter env query.sort none) [] (roster env t query) :=
      resumes_of_forall (fun y hy => (by cases hy)) (fun y _ => rfl) query.limit
    rw [and_iff_right hfirst, and_iff_right fun hzero => absurd hzero (Nat.ne_of_gt hpos)]
    refine forall_congr' fun read => forall_congr' fun x => forall_congr' fun rest => forall_congr' fun hsplit => ?_
    rw [List.nil_append, resumes_iff hsplit]

end

/-! ## Two people of one name -/

/-- Case is that of ASCII, and texts are compared by their code units. -/
def plainPlatform : Platform := ⟨isoDates, (·.map CodeUnits.lower), (·.map CodeUnits.lower), id, fun _ _ => true⟩

def firstUuid : Uuid := ⟨MIN_UUID, isUuid_minUuid, lower_minUuid⟩

def lastUuid : Uuid := ⟨MAX_UUID, isUuid_maxUuid, lower_maxUuid⟩

/-- A guest of the name. -/
def namesake (id : Uuid) (registeredAt : ℕ) : RosterRow :=
  ⟨id, firstUuid, .registered, none, none, none, some id, none, none, some (text "Ana"), registeredAt, []⟩

/-- The one with the greater id registered a second later. -/
def namesakes : Registrations :=
  ⟨[namesake firstUuid 1700000000000000, namesake lastUuid 1700000001000000], by decide⟩

def byName : RosterQuery := ⟨firstUuid, .other, none, none, .name_asc, none, none, 1⟩

theorem second_namesake_missing : ¬Complete plainPlatform namesakes byName := by
  rintro ⟨l, hfollows, hperm, -⟩
  have hfirst : listRosterIn plainPlatform namesakes { byName with cursor := none } =
      ([namesake lastUuid 1700000001000000], some (text "ana" ++ bar :: MAX_UUID)) := by decide +kernel
  have hsecond : listRosterIn plainPlatform namesakes { byName with cursor := some (text "ana" ++ bar :: MAX_UUID) } =
      ([], none) := by decide +kernel
  have hl := hfollows.unique (.next hfirst (.last hsecond))
  have hlength := hperm.length_eq
  have hboth : (namesakes.rows.filter (selects plainPlatform byName)).length = 2 := by decide +kernel
  rw [hl, hboth] at hlength
  cases hlength

end Civfix.RosterPages

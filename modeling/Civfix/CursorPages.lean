import Civfix.KeysetCursors
import Civfix.KeysetPages
import Mathlib.Data.List.Lex
import Mathlib.Data.Prod.Lex

/-! # Pages behind a cursor

A list is read page by page: a query takes one row more than the page holds, and the last row of the page becomes the
cursor of the next query. The cursor carries an instant, to the microsecond or to the millisecond, or a name. -/
namespace Civfix.CursorPages

open CodeUnits CalendarDates KeysetCursors KeysetPages

/-! ## What Postgres makes of the parts of a cursor -/

/-- A `uuid` as Postgres writes it. Its text is compared as its sixteen bytes are. -/
@[ext] structure Uuid where
  text : Text
  isUuid : isUuid text = true
  lower : text.map lower = text
  deriving DecidableEq

theorem isUuid_minUuid : isUuid MIN_UUID = true := by decide

theorem lower_minUuid : MIN_UUID.map lower = MIN_UUID := by decide

theorem isUuid_maxUuid : isUuid MAX_UUID = true := by decide

theorem lower_maxUuid : MAX_UUID.map lower = MAX_UUID := by decide

/-- `id::uuid`. -/
def uuidOf (id : Text) : Text := id.map lower

/-- The digits of a fraction as microseconds. -/
def fractionMicros (fraction : Option Text) : ℕ := fraction.elim 0 fun f => value ((f ++ List.replicate 5 48).take 6)

/-- `text::timestamptz`, in microseconds since the start of 1970. -/
def timestamptz (t : Text) : Option ℤ :=
  (exec t).bind fun p => (dateTimeOf p).map fun c =>
    ((c.toSeconds : ℤ) - EPOCH_SECONDS) * 1000000 + fractionMicros p.fraction - p.offsetMinutes * 60000000

/-- `(ts, id) < (atText, anchorId)`, or `>` for an ascending list. A text that Postgres refuses is never bound. -/
def keysetPredicate (ts : ℕ) (id : Text) (atText anchorId : Text) (ascending : Bool) : Bool :=
  (timestamptz atText).any fun at' =>
    if ascending then decide (toLex (at', uuidOf anchorId) < toLex ((ts : ℤ), id))
    else decide (toLex ((ts : ℤ), id) < toLex (at', uuidOf anchorId))

/-- Both clauses together are `(activity, id) < cursor`, where `activity` is cut to the millisecond. -/
def msKeysetFilter (activity : ℤ) (id : Text) (cursor : Option TimeCursor) : Bool :=
  match cursor with
  | none => true
  | some cursor =>
    decide (activity < cursor.at' + 1) && (decide (activity < cursor.at') || decide (id < uuidOf cursor.id))

/-! ## Cursors with a name -/

structure NameCursor where
  name : Text
  id : Text

/-- The parts before and after the last bar. -/
def splitAtLastBar (cursor : Text) : Option (Text × Text) :=
  (splitAtBar cursor.reverse).map fun parts => (parts.2.reverse, parts.1.reverse)

def parseNameCursor (cursor : Option Text) : Option NameCursor :=
  match cursor with
  | none => none
  | some cursor =>
    if cursor = [] then none
    else
      match splitAtLastBar cursor with
      | none => none
      | some (name, id) => if isUuid id then some ⟨name, id⟩ else none

def encodeNameCursor (c : NameCursor) : Text := c.name ++ bar :: c.id

/-! ## Cursors to the millisecond -/

/-- `Date.prototype.toISOString`: a year of more than four digits has six and a sign. -/
def toISOString (at' : ℤ) : Text :=
  let parts := isoParts (utc at') (some (pad 3 (at' % 1000).toNat))
  if (utc at').date.year < 10000 then parts.text else { parts with year := 43 :: pad 6 (utc at').date.year }.text

def encodeTimeCursor (c : TimeCursor) : Text := toISOString c.at' ++ bar :: c.id

def isBeforeTimeCursor (atMs : ℤ) (id : Text) (anchor : Option TimeCursor) : Bool :=
  match anchor with
  | none => true
  | some anchor => decide (atMs < anchor.at') || (decide (atMs = anchor.at') && decide (id < anchor.id))

/-! ## Pages -/

section

variable {α : Type}

def pageWith (rows : List α) (limit : ℕ) (encode : α → Option Text) : List α × Option Text :=
  if rows.length ≤ limit then (rows, none)
  else
    let items := rows.take limit
    match items.getLast? with
    | none => (items, none)
    | some last => (items, encode last)

/-- Pages of rows that are sorted by instant and id, both descending. -/
def pageBeforeTimeCursor (rows : List α) (anchor : Option TimeCursor) (limit : ℕ) (keyOf : α → TimeCursor) :
    List α × Option Text :=
  pageWith (rows.filter fun row => isBeforeTimeCursor (keyOf row).at' (keyOf row).id anchor) limit
    fun last => some (encodeTimeCursor (keyOf last))

theorem pageWith_eq (rows : List α) (limit : ℕ) (encode : α → Text) :
    pageWith rows limit (fun last => some (encode last)) = firstPage limit rows encode := by
  unfold pageWith firstPage
  split
  · next hle => rw [if_neg (Nat.not_lt_of_le hle), List.take_of_length_le hle]
  · next hlt =>
    rw [if_pos (Nat.lt_of_not_le hlt)]
    dsimp only
    split
    · next hlast => rw [hlast, Option.map_none]
    · next last hlast => rw [hlast, Option.map_some]

theorem pageWith_take (rows : List α) (limit : ℕ) (encode : α → Text) :
    pageWith (rows.take (limit + 1)) limit (fun last => some (encode last)) = firstPage limit rows encode := by
  rw [pageWith_eq, firstPage_take]

end

/-! ## Reading the parts back -/

section

variable {env : Platform} {u : ℕ} {id a : Text}

theorem bar_not_mem_uuid (h : isUuid id = true) : bar ∉ id := by
  intro hmem
  obtain ⟨i, hi, hbar⟩ := List.getElem_of_mem hmem
  rw [isUuid, Bool.and_eq_true, List.all_eq_true] at h
  have hunit := h.2 (bar, i) (List.mem_zipIdx_iff_getElem?.mpr (by rw [List.getElem?_eq_getElem hi, hbar]))
  have hplain : decide (bar = hyphen) = false ∧ isHexDigit bar = false := by decide
  simp only [hplain, ite_self, Bool.false_eq_true] at hunit

theorem Uuid.uuidOf_text (id : Uuid) : uuidOf id.text = id.text := id.lower

theorem splitAtLastBar_append (h : bar ∉ id) (name : Text) : splitAtLastBar (name ++ bar :: id) = some (name, id) := by
  have hreverse : (name ++ bar :: id).reverse = id.reverse ++ bar :: name.reverse := by
    rw [List.reverse_append, List.reverse_cons, List.append_assoc, List.singleton_append]
  rw [splitAtLastBar, hreverse, splitAtBar_append (fun hmem => h (List.mem_reverse.mp hmem)), Option.map_some,
    List.reverse_reverse, List.reverse_reverse]

theorem parseNameCursor_encode (h : isUuid id = true) (name : Text) :
    parseNameCursor (some (encodeNameCursor ⟨name, id⟩)) = some ⟨name, id⟩ := by
  have hne : name ++ bar :: id ≠ [] := List.append_ne_nil_of_right_ne_nil _ (List.cons_ne_nil _ _)
  simp only [parseNameCursor, encodeNameCursor, hne, if_false, splitAtLastBar_append (bar_not_mem_uuid h), h, if_true]

theorem fractionMicros_pad {n : ℕ} (h : n < 1000000) : fractionMicros (some (pad 6 n)) = n := by
  obtain ⟨hlength, -⟩ : Digits 6 (pad 6 n) := digits_pad (by decide) h
  rw [fractionMicros, Option.elim_some, List.take_left' hlength, value_pad]

theorem micros_split (u e : ℕ) :
    (((u / 1000000 + e : ℕ) : ℤ) - e) * 1000000 + (u % 1000000 : ℕ) - 0 * 60000000 = (u : ℤ) := by
  have hu := Nat.div_add_mod u 1000000
  omega

/-- What `to_char` wrote is read back to the microsecond. -/
theorem timestamptz_keysetInstant (h : ((u / 1000 : ℕ) : ℤ) ≤ CURSOR_MAX_MS) :
    timestamptz (keysetInstant u) = some (u : ℤ) := by
  have hexec := exec_text (wellFormed_keysetInstant h)
  have hdate := dateTimeOf_of_names (names_isoParts (utcOfMicros u) (some (pad 6 (u % 1000000))))
  have hmicros := fractionMicros_pad (Nat.mod_lt u (by decide : 0 < 1000000))
  have hseconds : (utcOfMicros u).toSeconds = u / 1000000 + EPOCH_SECONDS := DateTime.toSeconds_ofSeconds _
  rw [timestamptz, keysetInstant, hexec, Option.bind_some, hdate, Option.map_some]
  refine congrArg some ?_
  have hfraction : (isoParts (utcOfMicros u) (some (pad 6 (u % 1000000)))).fraction = some (pad 6 (u % 1000000)) := rfl
  have hoffset : (isoParts (utcOfMicros u) (some (pad 6 (u % 1000000)))).offsetMinutes = 0 := rfl
  rw [hfraction, hmicros, hoffset, hseconds]
  exact micros_split u EPOCH_SECONDS

/-- Past the range of a cursor the text is refused. -/
theorem parseKeysetCursor_late (h : CURSOR_MAX_MS < ((u / 1000 : ℕ) : ℤ)) (opts : CursorOptions) :
    parseKeysetCursor env (some (encodeKeysetCursor (keysetInstant u) id)) opts = none := by
  have hformed : ∀ f ∈ some (pad 6 (u % 1000000)), (1 ≤ f.length ∧ f.length ≤ 6) ∧ f.all isDigit := by
    intro f hf
    cases hf
    obtain ⟨hlength, hall⟩ : Digits 6 (pad 6 (u % 1000000)) := digits_pad (by decide) (Nat.mod_lt u (by decide))
    rw [hlength]
    exact ⟨by decide, hall⟩
  have hparse : parseCursorInstant env (keysetInstant u) = none :=
    parseCursorInstant_late hformed (by rw [timeValue_instant]; exact h)
  have hbar : bar ∉ keysetInstant u := bar_not_mem_isoParts _ fun f hf => (hformed f hf).2
  exact parseKeysetCursor_none (parseTimeCursor_none opts (splitAtBar_append hbar id) hparse)

/-! ## Milliseconds -/

theorem fractionMillis_millis {n : ℕ} (h : n < 1000) : fractionMillis (some (pad 3 n)) = n := by
  obtain ⟨hlength, -⟩ : Digits 3 (pad 3 n) := digits_pad (by decide) h
  rw [fractionMillis, Option.elim_some, List.take_left' hlength, value_pad]

theorem millis_split (m e : ℤ) : (m / 1000 + e - e) * 1000 + ((m % 1000).toNat : ℤ) - 0 * MS_PER_MINUTE = m := by
  have hmod : ((m % 1000).toNat : ℤ) = m % 1000 := Int.toNat_of_nonneg (Int.emod_nonneg m (by decide))
  rw [hmod, Int.add_sub_cancel, Int.zero_mul, Int.sub_zero, Int.mul_comm]
  exact Int.mul_ediv_add_emod m 1000

theorem timeValue_utc {m : ℤ} (hm : 0 ≤ m) : timeValue (utc m) (some (pad 3 (m % 1000).toNat)) 0 = m := by
  have hlt : (m % 1000).toNat < 1000 := by omega
  rw [timeValue, toSeconds_utc hm, fractionMillis_millis hlt]
  exact millis_split m EPOCH_SECONDS

theorem year_utc_lt {m : ℤ} (hm : 0 ≤ m) (hmax : m ≤ CURSOR_MAX_MS) : (utc m).date.year < 10000 := by
  refine year_lt ?_
  have hbound : 86400 * daysBeforeYear 10000 = 315569520000 := by decide
  have hseconds := toSeconds_utc hm
  rw [hbound]
  rw [CURSOR_MAX_MS] at hmax
  rw [EPOCH_SECONDS] at hseconds
  omega

/-- A cursor to the millisecond is read back. -/
theorem parseTimeCursor_encode {m : ℤ} (hm : 0 ≤ m) (hmax : m ≤ CURSOR_MAX_MS) (hid : isUuid id = true)
    (opts : CursorOptions) : parseTimeCursor env (some (encodeTimeCursor ⟨m, id⟩)) opts = some ⟨m, id⟩ := by
  have hyear := year_utc_lt hm hmax
  have hfraction : ∀ f ∈ some (pad 3 (m % 1000).toNat), (1 ≤ f.length ∧ f.length ≤ 6) ∧ f.all isDigit := by
    intro f hf
    cases hf
    obtain ⟨hlength, hall⟩ : Digits 3 (pad 3 (m % 1000).toNat) := digits_pad (by decide) (by omega)
    rw [hlength]
    exact ⟨by decide, hall⟩
  have hformed := wellFormed_isoParts hyear hfraction
  have hat := timeValue_utc hm
  have hparse : parseCursorInstant env _ = _ :=
    parseCursorInstant_text hformed (names_isoParts _ _) rfl (hm.trans_eq hat.symm) (hat.trans_le hmax)
  have htext : toISOString m = (isoParts (utc m) (some (pad 3 (m % 1000).toNat))).text := by
    rw [toISOString]
    exact if_pos hyear
  rw [encodeTimeCursor, htext]
  refine parseTimeCursor_split opts (splitAtBar_append (bar_not_mem_text hformed) id) ?_ (hparse.trans (congrArg some hat)) hid
  exact List.append_ne_nil_of_right_ne_nil _ (List.cons_ne_nil _ _)

theorem isBeforeTimeCursor_iff {atMs : ℤ} {anchor : TimeCursor} :
    isBeforeTimeCursor atMs id (some anchor) = true ↔ toLex (atMs, id) < toLex (anchor.at', anchor.id) := by
  simp only [isBeforeTimeCursor, Bool.or_eq_true, Bool.and_eq_true, decide_eq_true_eq, Prod.Lex.toLex_lt_toLex]

theorem msKeysetFilter_eq {activity : ℤ} {anchor : TimeCursor} (h : uuidOf anchor.id = anchor.id) :
    msKeysetFilter activity id (some anchor) = isBeforeTimeCursor activity id (some anchor) := by
  rw [Bool.eq_iff_iff, isBeforeTimeCursor_iff, Prod.Lex.toLex_lt_toLex]
  simp only [msKeysetFilter, h, Bool.and_eq_true, Bool.or_eq_true, decide_eq_true_eq, Int.lt_add_one_iff]
  constructor
  · rintro ⟨hle, hlt | hid⟩
    · exact .inl hlt
    · exact (lt_or_eq_of_le hle).imp_right fun heq => ⟨heq, hid⟩
  · exact fun hor => ⟨hor.elim le_of_lt fun h => le_of_eq h.1, hor.imp_right And.right⟩

end

end Civfix.CursorPages

import Civfix.CalendarDates
import Civfix.CodeUnits

/-! # Cursors of keyset pages

A cursor is an instant and an id with a bar between them. The instant stands in it as Postgres renders it, to the
microsecond, while a `Date` made of it is cut to the millisecond; so the text is read twice, and what is bound in a
query is written anew from the date and the digits of the fraction. -/
namespace Civfix.KeysetCursors

open CodeUnits CalendarDates

/-! ## The text of an instant -/

structure Offset where
  sign : CodeUnit
  hours : Text
  minutes : Text

/-- The groups of `CURSOR_INSTANT_PARTS_RE`; there is no offset where the text ends with `Z`. -/
structure InstantParts where
  year : Text
  month : Text
  day : Text
  hour : Text
  minute : Text
  second : Text
  fraction : Option Text
  offset : Option Offset

namespace Offset

def text (z : Offset) : Text := z.sign :: (z.hours ++ 58 :: z.minutes)

def WellFormed (z : Offset) : Prop :=
  (z.sign = 43 ∨ z.sign = 45) ∧ (z.hours.length = 2 ∧ z.hours.all isDigit) ∧ z.minutes.length = 2 ∧
    z.minutes.all isDigit

/-- The minutes that the clock is ahead of UTC. -/
def total (z : Offset) : ℤ :=
  if z.sign = 45 then -((value z.hours * 60 + value z.minutes : ℕ) : ℤ) else (value z.hours * 60 + value z.minutes : ℕ)

end Offset

def Digits (n : ℕ) (t : Text) : Prop := t.length = n ∧ t.all isDigit

namespace InstantParts

def fractionText (p : InstantParts) : Text := p.fraction.elim [] (46 :: ·)

def offsetText (p : InstantParts) : Text := p.offset.elim [90] Offset.text

def text (p : InstantParts) : Text :=
  p.year ++ 45 :: (p.month ++ 45 :: (p.day ++ 84 :: (p.hour ++ 58 :: (p.minute ++ 58 :: (p.second ++
    (p.fractionText ++ p.offsetText))))))

def WellFormed (p : InstantParts) : Prop :=
  (Digits 4 p.year ∧ Digits 2 p.month ∧ Digits 2 p.day ∧ Digits 2 p.hour ∧ Digits 2 p.minute ∧ Digits 2 p.second) ∧
    (∀ f ∈ p.fraction, (1 ≤ f.length ∧ f.length ≤ 6) ∧ f.all isDigit) ∧ ∀ z ∈ p.offset, z.WellFormed

/-- The fields are those of a date and a time of day. -/
def Names (p : InstantParts) (c : DateTime) : Prop :=
  (value p.year = c.date.year ∧ value p.month = c.date.month ∧ value p.day = c.date.day) ∧
    value p.hour = c.hour ∧ value p.minute = c.minute ∧ value p.second = c.second

instance (p : InstantParts) (c : DateTime) : Decidable (p.Names c) := inferInstanceAs (Decidable ((_ ∧ _) ∧ _))

def offsetMinutes (p : InstantParts) : ℤ := p.offset.elim 0 Offset.total

end InstantParts

def takeDigits (n : ℕ) (t : Text) : Option (Text × Text) :=
  if n ≤ t.length ∧ (t.take n).all isDigit then some (t.take n, t.drop n) else none

def takeUnit (c : CodeUnit) (t : Text) : Option Text := if t.head? = some c then some t.tail else none

/-- `(?:\.(\d{1,6}))?`; what is after the digits of a fraction is no digit. -/
def takeFraction (t : Text) : Option (Option Text × Text) :=
  match takeUnit 46 t with
  | none => some (none, t)
  | some rest =>
    if 1 ≤ (rest.takeWhile isDigit).length ∧ (rest.takeWhile isDigit).length ≤ 6 then
      some (some (rest.takeWhile isDigit), rest.dropWhile isDigit)
    else none

/-- `([+-])(\d{2}):(\d{2})$`. -/
def takeSigned : Text → Option Offset
  | [] => none
  | sign :: t => do
    guard (sign = 43 ∨ sign = 45)
    let (hours, t) ← takeDigits 2 t
    let t ← takeUnit 58 t
    let (minutes, t) ← takeDigits 2 t
    guard (t = [])
    some ⟨sign, hours, minutes⟩

def takeOffset (t : Text) : Option (Option Offset) := if t = [90] then some none else (takeSigned t).map some

/-- `CURSOR_INSTANT_PARTS_RE.exec`. `CURSOR_ISO_RE` is the same expression without groups. -/
def exec (t : Text) : Option InstantParts := do
  let (year, t) ← takeDigits 4 t
  let t ← takeUnit 45 t
  let (month, t) ← takeDigits 2 t
  let t ← takeUnit 45 t
  let (day, t) ← takeDigits 2 t
  let t ← takeUnit 84 t
  let (hour, t) ← takeDigits 2 t
  let t ← takeUnit 58 t
  let (minute, t) ← takeDigits 2 t
  let t ← takeUnit 58 t
  let (second, t) ← takeDigits 2 t
  let (fraction, t) ← takeFraction t
  let offset ← takeOffset t
  some ⟨year, month, day, hour, minute, second, fraction, offset⟩

def CURSOR_ISO_RE (t : Text) : Bool := (exec t).isSome

/-! ## Dates of the platform -/

/-- The seconds from the start of the year 0 to that of 1970. -/
def EPOCH_SECONDS : ℕ := 719528 * 86400

def MS_PER_MINUTE : ℤ := 60000

/-- The first three digits of a fraction. -/
def fractionMillis (fraction : Option Text) : ℕ := fraction.elim 0 fun f => value ((f ++ [48, 48]).take 3)

/-- The milliseconds since the start of 1970 in UTC, as a `Date` holds them. -/
def timeValue (c : DateTime) (fraction : Option Text) (offsetMinutes : ℤ) : ℤ :=
  ((c.toSeconds : ℤ) - EPOCH_SECONDS) * 1000 + fractionMillis fraction - offsetMinutes * MS_PER_MINUTE

/-- What `getUTCFullYear` and its siblings give, from the year 0 on. -/
def utc (at' : ℤ) : DateTime := DateTime.ofSeconds (at' / 1000 + EPOCH_SECONDS).toNat

/-- `new Date(text)`. It reads a date of the ISO format, and further digits of a fraction are dropped. What it makes of
another text, such as one with a 30th of February, is open. -/
structure Platform where
  dateParse : Text → Option ℤ
  dateParse_iso : ∀ (p : InstantParts) (c : DateTime), p.WellFormed → p.Names c →
    (∀ z ∈ p.offset, value z.hours < 24 ∧ value z.minutes < 60) →
    dateParse p.text = some (timeValue c p.fraction p.offsetMinutes)

/-! ## Cursors -/

def MIN_UUID : Text := text "00000000-0000-0000-0000-000000000000"
def MAX_UUID : Text := text "ffffffff-ffff-ffff-ffff-ffffffffffff"

def CURSOR_MIN_MS : ℤ := 0
def CURSOR_MAX_MS : ℤ := 4102444800000

structure TimeCursor where
  at' : ℤ
  id : Text

structure KeysetCursor extends TimeCursor where
  atText : Text

structure CursorOptions where
  requireUuid : Bool := true
  ascending : Bool := false

def bar : CodeUnit := 124

/-- The parts before and after the first bar. -/
def splitAtBar (cursor : Text) : Option (Text × Text) :=
  if bar ∈ cursor then some (cursor.take (cursor.idxOf bar), cursor.drop (cursor.idxOf bar + 1)) else none

variable (env : Platform)

def parseCursorInstant (iso : Text) : Option ℤ :=
  if CURSOR_ISO_RE iso then
    (env.dateParse iso).filter fun ms => CURSOR_MIN_MS ≤ ms && ms ≤ CURSOR_MAX_MS
  else none

def parseTimeCursor (cursor : Option Text) (opts : CursorOptions) : Option TimeCursor :=
  match cursor with
  | none => none
  | some cursor =>
    if cursor = [] then none
    else
      match splitAtBar cursor with
      | none => (parseCursorInstant env cursor).map fun at' => ⟨at', if opts.ascending then MIN_UUID else MAX_UUID⟩
      | some (iso, id) =>
        if iso = [] then none
        else
          match parseCursorInstant env iso with
          | none => none
          | some at' =>
            if opts.requireUuid && !isUuid id then none else if id = [] then none else some ⟨at', id⟩

/-- Postgres refuses an offset past 15:59. -/
def MAX_CURSOR_OFFSET_MINUTES : ℤ := 15 * 60 + 59

def pad (width n : ℕ) : Text := padStart width 48 (decimal n)

def isoParts (c : DateTime) (fraction : Option Text) : InstantParts :=
  ⟨pad 4 c.date.year, pad 2 c.date.month, pad 2 c.date.day, pad 2 c.hour, pad 2 c.minute, pad 2 c.second, fraction,
    none⟩

/-- The offset in minutes, when it is one that Postgres takes. -/
def cursorOffset (p : InstantParts) : Option ℤ :=
  match p.offset with
  | none => some 0
  | some z =>
    if 59 < value z.minutes then none else if MAX_CURSOR_OFFSET_MINUTES < |z.total| then none else some z.total

def canonicalCursorInstant (text : Text) (at' : ℤ) : Option Text :=
  match exec text with
  | none => none
  | some p =>
    match cursorOffset p with
    | none => none
    | some offset =>
      if p.Names (utc (at' + offset * MS_PER_MINUTE)) then some (isoParts (utc at') p.fraction).text else none

def parseKeysetCursor (cursor : Option Text) (opts : CursorOptions) : Option KeysetCursor :=
  match cursor, parseTimeCursor env cursor opts with
  | some text, some parsed =>
    (canonicalCursorInstant ((splitAtBar text).elim text Prod.fst) parsed.at').map fun atText => { parsed with atText }
  | _, _ => none

def encodeKeysetCursor (atText id : Text) : Text := atText ++ bar :: id

/-- The date and time of a `timestamptz` from 1970 on, which counts microseconds. -/
def utcOfMicros (u : ℕ) : DateTime := DateTime.ofSeconds (u / 1000000 + EPOCH_SECONDS)

/-- `to_char` with `TIME_CURSOR_SQL_FORMAT`. -/
def keysetInstant (u : ℕ) : Text := (isoParts (utcOfMicros u) (some (pad 6 (u % 1000000)))).text

/-! ## Reading the text of an instant -/

section

variable {n : ℕ} {c : CodeUnit} {t d rest : Text} {p : InstantParts}

theorem takeDigits_append (h : Digits n d) (rest : Text) : takeDigits n (d ++ rest) = some (d, rest) := by
  obtain ⟨rfl, hall⟩ := h
  rw [takeDigits, List.take_left, List.drop_left, List.length_append, if_pos ⟨Nat.le_add_right _ _, hall⟩]

theorem takeDigits_some (h : takeDigits n t = some (d, rest)) : Digits n d ∧ t = d ++ rest := by
  rw [takeDigits] at h
  split at h
  · next hdigits =>
    cases h
    exact ⟨⟨List.length_take_of_le hdigits.1, hdigits.2⟩, (List.take_append_drop n t).symm⟩
  · cases h

@[simp] theorem takeUnit_cons (c : CodeUnit) (rest : Text) : takeUnit c (c :: rest) = some rest := if_pos rfl

theorem takeUnit_some (h : takeUnit c t = some rest) : t = c :: rest := by
  rw [takeUnit] at h
  split at h
  · next hhead =>
    cases h
    exact List.eq_cons_of_mem_head? hhead
  · cases h

/-- A fraction is read up to what is no digit. -/
theorem takeFraction_append {f : Option Text} (hf : ∀ d ∈ f, (1 ≤ d.length ∧ d.length ≤ 6) ∧ d.all isDigit)
    (hrest : rest.head?.any isDigit = false) (hpoint : rest.head? ≠ some 46) :
    takeFraction (f.elim [] (46 :: ·) ++ rest) = some (f, rest) := by
  cases f with
  | none =>
    have hnone : takeUnit 46 rest = none := if_neg hpoint
    simp only [Option.elim_none, List.nil_append, takeFraction, hnone]
  | some d =>
    obtain ⟨hlength, hall⟩ := hf d rfl
    rw [List.all_eq_true] at hall
    have hstop : rest.takeWhile isDigit = [] ∧ rest.dropWhile isDigit = rest := by
      cases rest with
      | nil => exact ⟨rfl, rfl⟩
      | cons c rest =>
        have hc : ¬isDigit c = true := Bool.eq_false_iff.mp hrest
        exact ⟨List.takeWhile_cons_of_neg hc, List.dropWhile_cons_of_neg hc⟩
    have htake : (d ++ rest).takeWhile isDigit = d := by
      rw [List.takeWhile_append_of_pos hall, hstop.1, List.append_nil]
    have hdrop : (d ++ rest).dropWhile isDigit = rest := by
      rw [List.dropWhile_append_of_pos hall, hstop.2]
    simp only [Option.elim_some, List.cons_append, takeFraction, takeUnit_cons, htake, hdrop]
    rw [if_pos hlength]

theorem takeFraction_some {f : Option Text} (h : takeFraction t = some (f, rest)) :
    (∀ d ∈ f, (1 ≤ d.length ∧ d.length ≤ 6) ∧ d.all isDigit) ∧ t = f.elim [] (46 :: ·) ++ rest := by
  rw [takeFraction] at h
  split at h
  · cases h
    exact ⟨fun d hd => (by cases hd), rfl⟩
  · next tail hpoint =>
    split at h
    · next hlength =>
      cases h
      refine ⟨fun d hd => ?_, ?_⟩
      · cases hd
        exact ⟨hlength, List.all_eq_true.mpr fun c hc => List.mem_takeWhile_imp hc⟩
      · rw [takeUnit_some hpoint, Option.elim_some, List.cons_append, List.takeWhile_append_dropWhile]
    · cases h

theorem takeSigned_text {z : Offset} (hz : z.WellFormed) : takeSigned z.text = some z := by
  obtain ⟨hsign, hhours, hminutes⟩ := hz
  have hlast : takeDigits 2 z.minutes = some (z.minutes, []) := by
    have happend := takeDigits_append hminutes []
    rwa [List.append_nil] at happend
  simp only [Offset.text, takeSigned, guard, hsign, if_true, Option.pure_def, Option.bind_eq_bind, Option.bind_some,
    takeDigits_append hhours, takeUnit_cons, hlast]

theorem takeSigned_some {z : Offset} (h : takeSigned t = some z) : z.WellFormed ∧ t = z.text := by
  cases t with
  | nil => cases h
  | cons sign t =>
    simp only [takeSigned, Option.bind_eq_bind, Option.bind_eq_some_iff, Prod.exists, Option.guard_eq_some',
      Option.some.injEq, exists_const] at h
    obtain ⟨hsign, hours, t₁, hhours, t₂, hcolon, minutes, t₃, hminutes, rfl, rfl⟩ := h
    obtain ⟨dhours, rfl⟩ := takeDigits_some hhours
    obtain rfl := takeUnit_some hcolon
    obtain ⟨dminutes, rfl⟩ := takeDigits_some hminutes
    exact ⟨⟨hsign, dhours, dminutes⟩, by rw [List.append_nil, Offset.text]⟩

theorem takeOffset_text {z : Option Offset} (hz : ∀ o ∈ z, o.WellFormed) :
    takeOffset (z.elim [90] Offset.text) = some z := by
  cases z with
  | none => rfl
  | some o =>
    have hne : o.text ≠ [90] := by
      intro heq
      have hlength := congrArg List.length heq
      simp only [Offset.text, List.length_cons, List.length_append, List.length_nil] at hlength
      omega
    rw [Option.elim_some, takeOffset, if_neg hne, takeSigned_text (hz o rfl), Option.map_some]

theorem takeOffset_some {z : Option Offset} (h : takeOffset t = some z) :
    (∀ o ∈ z, o.WellFormed) ∧ t = z.elim [90] Offset.text := by
  rw [takeOffset] at h
  split at h
  · next hz =>
    cases h
    exact ⟨fun o ho => (by cases ho), hz⟩
  · obtain ⟨o, ho, rfl⟩ := Option.map_eq_some_iff.mp h
    obtain ⟨hformed, rfl⟩ := takeSigned_some ho
    exact ⟨fun o' ho' => (by cases ho'; exact hformed), rfl⟩

theorem exec_text (h : p.WellFormed) : exec p.text = some p := by
  obtain ⟨⟨hyear, hmonth, hday, hhour, hminute, hsecond⟩, hfraction, hoffset⟩ := h
  have hstop : (p.offsetText.head?.any isDigit = false) ∧ p.offsetText.head? ≠ some 46 := by
    rw [InstantParts.offsetText]
    cases hz : p.offset with
    | none => exact ⟨rfl, by decide⟩
    | some z =>
      obtain ⟨hsign | hsign, -⟩ := hoffset z hz
      all_goals
        simp only [Option.elim_some, Offset.text, List.head?_cons, hsign]
        decide
  have hread : takeFraction (p.fractionText ++ p.offsetText) = some (p.fraction, p.offsetText) :=
    takeFraction_append hfraction hstop.1 hstop.2
  have hlast : takeOffset p.offsetText = some p.offset := takeOffset_text hoffset
  have hdigits : ∀ {n d} (hd : Digits n d) (rest : Text) {β : Type} {f : Text × Text → Option β} {b : β},
      f (d, rest) = some b → (takeDigits n (d ++ rest)).bind f = some b := fun hd rest _ _ _ h =>
    Option.bind_eq_some_iff.mpr ⟨_, takeDigits_append hd rest, h⟩
  have hunit : ∀ (c : CodeUnit) (rest : Text) {β : Type} {f : Text → Option β} {b : β},
      f rest = some b → (takeUnit c (c :: rest)).bind f = some b := fun c rest _ _ _ h =>
    Option.bind_eq_some_iff.mpr ⟨_, takeUnit_cons c rest, h⟩
  refine hdigits hyear _ (hunit _ _ (hdigits hmonth _ (hunit _ _ (hdigits hday _ (hunit _ _ ?_)))))
  refine hdigits hhour _ (hunit _ _ (hdigits hminute _ (hunit _ _ (hdigits hsecond _ ?_))))
  exact Option.bind_eq_some_iff.mpr ⟨_, hread, Option.bind_eq_some_iff.mpr ⟨_, hlast, rfl⟩⟩

/-- What the expression matches is the text of its groups. -/
theorem exec_some (h : exec t = some p) : p.WellFormed ∧ p.text = t := by
  obtain ⟨⟨year, t₁⟩, hyear, h⟩ := Option.bind_eq_some_iff.mp h
  obtain ⟨t₂, h₁, h⟩ := Option.bind_eq_some_iff.mp h
  obtain ⟨⟨month, t₃⟩, hmonth, h⟩ := Option.bind_eq_some_iff.mp h
  obtain ⟨t₄, h₂, h⟩ := Option.bind_eq_some_iff.mp h
  obtain ⟨⟨day, t₅⟩, hday, h⟩ := Option.bind_eq_some_iff.mp h
  obtain ⟨t₆, h₃, h⟩ := Option.bind_eq_some_iff.mp h
  obtain ⟨⟨hour, t₇⟩, hhour, h⟩ := Option.bind_eq_some_iff.mp h
  obtain ⟨t₈, h₄, h⟩ := Option.bind_eq_some_iff.mp h
  obtain ⟨⟨minute, t₉⟩, hminute, h⟩ := Option.bind_eq_some_iff.mp h
  obtain ⟨t₁₀, h₅, h⟩ := Option.bind_eq_some_iff.mp h
  obtain ⟨⟨second, t₁₁⟩, hsecond, h⟩ := Option.bind_eq_some_iff.mp h
  obtain ⟨⟨fraction, t₁₂⟩, hfraction, h⟩ := Option.bind_eq_some_iff.mp h
  obtain ⟨offset, hoffset, h⟩ := Option.bind_eq_some_iff.mp h
  cases h
  obtain ⟨dyear, rfl⟩ := takeDigits_some hyear
  obtain rfl := takeUnit_some h₁
  obtain ⟨dmonth, rfl⟩ := takeDigits_some hmonth
  obtain rfl := takeUnit_some h₂
  obtain ⟨dday, rfl⟩ := takeDigits_some hday
  obtain rfl := takeUnit_some h₃
  obtain ⟨dhour, rfl⟩ := takeDigits_some hhour
  obtain rfl := takeUnit_some h₄
  obtain ⟨dminute, rfl⟩ := takeDigits_some hminute
  obtain rfl := takeUnit_some h₅
  obtain ⟨dsecond, rfl⟩ := takeDigits_some hsecond
  obtain ⟨dfraction, rfl⟩ := takeFraction_some hfraction
  obtain ⟨doffset, rfl⟩ := takeOffset_some hoffset
  exact ⟨⟨⟨dyear, dmonth, dday, dhour, dminute, dsecond⟩, dfraction, doffset⟩, rfl⟩

end

/-! ## Writing the text of an instant -/

section

variable {c : DateTime} {fraction : Option Text} {n width : ℕ} {u : ℕ} {t : Text}

theorem digits_pad (hpos : 0 < width) (h : n < 10 ^ width) : Digits width (pad width n) :=
  ⟨length_padStart hpos h, List.all_eq_true.mpr fun _ hc => isDigit_of_padStart hc⟩

theorem value_pad (width n : ℕ) : value (pad width n) = n := value_padStart width n

theorem wellFormed_isoParts (hyear : c.date.year < 10000)
    (hfraction : ∀ f ∈ fraction, (1 ≤ f.length ∧ f.length ≤ 6) ∧ f.all isDigit) :
    (isoParts c fraction).WellFormed := by
  have hmonth := c.date.month_mem
  have hday : c.date.day ≤ 31 := c.date.day_mem.2.trans (monthLength_le _ _)
  have hhour := c.hour_lt
  have hminute := c.minute_lt
  have hsecond := c.second_lt
  refine ⟨⟨digits_pad (by decide) hyear, digits_pad (by decide) (by omega), digits_pad (by decide) (by omega),
    digits_pad (by decide) (by omega), digits_pad (by decide) (by omega), digits_pad (by decide) (by omega)⟩,
    hfraction, fun z hz => (by cases hz)⟩

theorem names_isoParts (c : DateTime) (fraction : Option Text) : (isoParts c fraction).Names c :=
  ⟨⟨value_pad _ _, value_pad _ _, value_pad _ _⟩, value_pad _ _, value_pad _ _, value_pad _ _⟩

theorem fractionMillis_lt (hfraction : ∀ f ∈ fraction, (1 ≤ f.length ∧ f.length ≤ 6) ∧ f.all isDigit) :
    fractionMillis fraction < 1000 := by
  cases fraction with
  | none => decide
  | some f =>
    obtain ⟨hlength, hall⟩ := hfraction f rfl
    rw [List.all_eq_true] at hall
    have hdigits : ∀ d ∈ (f ++ [48, 48]).take 3, isDigit d = true := by
      intro d hd
      rcases List.mem_append.mp (List.mem_of_mem_take hd) with hd | hd
      · exact hall d hd
      · simp only [List.mem_cons, List.not_mem_nil, or_false, or_self] at hd
        rw [hd]
        decide
    have hlong : 3 ≤ (f ++ [48, 48]).length := by
      rw [List.length_append]
      simp only [List.length_cons, List.length_nil]
      omega
    have hlt := value_lt hdigits
    rw [List.length_take_of_le hlong] at hlt
    exact hlt

/-- The first three of six digits. -/
theorem fractionMillis_pad (h : n < 1000000) : fractionMillis (some (pad 6 n)) = n / 1000 := by
  obtain ⟨hlength, hall⟩ : Digits 6 (pad 6 n) := digits_pad (by decide) h
  rw [List.all_eq_true] at hall
  have htake : (pad 6 n ++ [48, 48]).take 3 = (pad 6 n).take 3 := List.take_append_of_le_length (by omega)
  have hvalue := value_append ((pad 6 n).take 3) ((pad 6 n).drop 3)
  rw [List.take_append_drop, value_pad, List.length_drop, hlength] at hvalue
  have hlt := value_lt (t := (pad 6 n).drop 3) fun d hd => hall d (List.mem_of_mem_drop hd)
  rw [List.length_drop, hlength] at hlt
  rw [fractionMillis, Option.elim_some, htake]
  omega

theorem utc_timeValue (c : DateTime) (hfraction : fractionMillis fraction < 1000) :
    utc (timeValue c fraction 0) = c := by
  have hseconds : ((timeValue c fraction 0) / 1000 + EPOCH_SECONDS).toNat = c.toSeconds := by
    rw [timeValue, MS_PER_MINUTE]
    omega
  rw [utc, hseconds, DateTime.ofSeconds_toSeconds]

theorem toSeconds_utc {at' : ℤ} (h : 0 ≤ at') : ((utc at').toSeconds : ℤ) = at' / 1000 + EPOCH_SECONDS := by
  have hdiv : 0 ≤ at' / 1000 := Int.ediv_nonneg h (by decide)
  rw [utc, DateTime.toSeconds_ofSeconds]
  omega

theorem year_lt (h : c.toSeconds < 86400 * daysBeforeYear 10000) : c.date.year < 10000 := by
  have hdays : daysBeforeYear c.date.year ≤ c.date.toDays := Nat.le_add_right _ _
  by_contra hge
  have hmono := monotone_daysBeforeYear (Nat.le_of_not_lt hge)
  rw [DateTime.toSeconds] at h
  omega

theorem bar_not_mem_digits (h : Digits n t) : bar ∉ t := by
  intro hmem
  have hdigit := List.all_eq_true.mp h.2 bar hmem
  exact absurd hdigit (by decide)

theorem bar_not_mem_text {p : InstantParts} (h : p.WellFormed) : bar ∉ p.text := by
  obtain ⟨⟨hyear, hmonth, hday, hhour, hminute, hsecond⟩, hfraction, hoffset⟩ := h
  have hf : bar ∉ p.fractionText := by
    rw [InstantParts.fractionText]
    cases hp : p.fraction with
    | none => exact List.not_mem_nil
    | some f => exact List.not_mem_cons_of_ne_of_not_mem (by decide) (bar_not_mem_digits ⟨rfl, (hfraction f hp).2⟩)
  have ho : bar ∉ p.offsetText := by
    rw [InstantParts.offsetText]
    cases hp : p.offset with
    | none => decide
    | some z =>
      obtain ⟨hsign, hhours, hminutes⟩ := hoffset z hp
      have hne : bar ≠ z.sign := by
        rcases hsign with hsign | hsign <;> rw [hsign] <;> decide
      refine List.not_mem_cons_of_ne_of_not_mem hne (List.not_mem_append (bar_not_mem_digits hhours) ?_)
      exact List.not_mem_cons_of_ne_of_not_mem (by decide) (bar_not_mem_digits hminutes)
  have hmark : ∀ {m : CodeUnit} {rest : Text}, bar ≠ m → ∀ {k d}, Digits k d → bar ∉ rest → bar ∉ d ++ m :: rest :=
    fun hm _ _ hd hrest => List.not_mem_append (bar_not_mem_digits hd) (List.not_mem_cons_of_ne_of_not_mem hm hrest)
  exact hmark (by decide) hyear <| hmark (by decide) hmonth <| hmark (by decide) hday <| hmark (by decide) hhour <|
    hmark (by decide) hminute <| List.not_mem_append (bar_not_mem_digits hsecond) (List.not_mem_append hf ho)

/-- Years of more than four digits are written out, and no field has a bar. -/
theorem bar_not_mem_isoParts (c : DateTime) (hfraction : ∀ f ∈ fraction, f.all isDigit) :
    bar ∉ (isoParts c fraction).text := by
  have hpad : ∀ width n, bar ∉ pad width n := fun width n =>
    bar_not_mem_digits ⟨rfl, List.all_eq_true.mpr fun _ hd => isDigit_of_padStart hd⟩
  have hf : bar ∉ (isoParts c fraction).fractionText := by
    rw [InstantParts.fractionText, isoParts]
    cases fraction with
    | none => exact List.not_mem_nil
    | some f => exact List.not_mem_cons_of_ne_of_not_mem (by decide) (bar_not_mem_digits ⟨rfl, hfraction f rfl⟩)
  have ho : bar ∉ (isoParts c fraction).offsetText := (by decide : bar ∉ ([90] : Text))
  have hmark : ∀ {m : CodeUnit} {rest : Text}, bar ≠ m → ∀ {width n}, bar ∉ rest → bar ∉ pad width n ++ m :: rest :=
    fun hm _ _ hrest => List.not_mem_append (hpad _ _) (List.not_mem_cons_of_ne_of_not_mem hm hrest)
  exact hmark (by decide) <| hmark (by decide) <| hmark (by decide) <| hmark (by decide) <| hmark (by decide) <|
    List.not_mem_append (hpad _ _) (List.not_mem_append hf ho)

theorem splitAtBar_append {a : Text} (h : bar ∉ a) (b : Text) : splitAtBar (a ++ bar :: b) = some (a, b) := by
  have hidx : (a ++ bar :: b).idxOf bar = a.length := by
    rw [List.idxOf_append_of_notMem h, List.idxOf_cons_self, Nat.add_zero]
  rw [splitAtBar, if_pos (List.mem_append_right a List.mem_cons_self), hidx, List.take_left]
  rw [← List.drop_drop, List.drop_left, List.drop_one, List.tail_cons]

/-! ## Cursors of instants that Postgres rendered -/

theorem wellFormed_keysetInstant (h : ((u / 1000 : ℕ) : ℤ) ≤ CURSOR_MAX_MS) :
    (isoParts (utcOfMicros u) (some (pad 6 (u % 1000000)))).WellFormed := by
  refine wellFormed_isoParts (year_lt ?_) fun f hf => ?_
  · have hbound : 86400 * daysBeforeYear 10000 = 315569520000 := by decide
    rw [hbound, utcOfMicros, DateTime.toSeconds_ofSeconds, EPOCH_SECONDS]
    rw [CURSOR_MAX_MS] at h
    omega
  · cases hf
    have hlt : u % 1000000 < 10 ^ 6 := Nat.mod_lt u (by decide)
    obtain ⟨hlength, hall⟩ := digits_pad (by decide) hlt
    rw [hlength]
    exact ⟨by decide, hall⟩

theorem timeValue_instant (u : ℕ) :
    timeValue (utcOfMicros u) (some (pad 6 (u % 1000000))) 0 = (u / 1000 : ℕ) := by
  rw [timeValue, fractionMillis_pad (Nat.mod_lt u (by decide)), utcOfMicros, DateTime.toSeconds_ofSeconds,
    MS_PER_MINUTE]
  omega

end

section

variable {env : Platform} {u : ℕ} {id : Text}

theorem parseCursorInstant_text {p : InstantParts} {c : DateTime} (hp : p.WellFormed) (hnames : p.Names c)
    (hoffset : p.offset = none) (hmin : CURSOR_MIN_MS ≤ timeValue c p.fraction 0)
    (hmax : timeValue c p.fraction 0 ≤ CURSOR_MAX_MS) :
    parseCursorInstant env p.text = some (timeValue c p.fraction 0) := by
  have hparse := env.dateParse_iso p c hp hnames fun z hz => (by rw [hoffset] at hz; cases hz)
  rw [InstantParts.offsetMinutes, hoffset, Option.elim_none] at hparse
  rw [parseCursorInstant, CURSOR_ISO_RE, exec_text hp, Option.isSome_some, if_pos rfl, hparse, Option.filter_some,
    if_pos (by simp only [hmin, hmax, decide_true, Bool.and_self])]

theorem canonicalCursorInstant_text {p : InstantParts} {at' : ℤ} (hp : p.WellFormed) (hoffset : p.offset = none)
    (hnames : p.Names (utc at')) :
    canonicalCursorInstant p.text at' = some (isoParts (utc at') p.fraction).text := by
  have hzero : cursorOffset p = some 0 := by rw [cursorOffset, hoffset]
  simp only [canonicalCursorInstant, exec_text hp, hzero, Int.zero_mul, Int.add_zero, if_pos hnames]

theorem parseTimeCursor_split {cursor iso : Text} {at' : ℤ} (opts : CursorOptions)
    (hsplit : splitAtBar cursor = some (iso, id)) (hne : iso ≠ []) (hparse : parseCursorInstant env iso = some at')
    (hid : isUuid id = true) : parseTimeCursor env (some cursor) opts = some ⟨at', id⟩ := by
  have hcursor : cursor ≠ [] := by
    rintro rfl
    cases hsplit
  have hidne : id ≠ [] := by
    rintro rfl
    cases hid
  simp only [parseTimeCursor, hcursor, if_false, hsplit, hne, hparse, hid, Bool.not_true, Bool.and_false,
    Bool.false_eq_true, hidne]

theorem parseKeysetCursor_split {cursor iso atText : Text} {at' : ℤ} (opts : CursorOptions)
    (hsplit : splitAtBar cursor = some (iso, id)) (hne : iso ≠ []) (hparse : parseCursorInstant env iso = some at')
    (hid : isUuid id = true) (hcanonical : canonicalCursorInstant iso at' = some atText) :
    parseKeysetCursor env (some cursor) opts = some ⟨⟨at', id⟩, atText⟩ := by
  simp only [parseKeysetCursor, parseTimeCursor_split opts hsplit hne hparse hid, hsplit, Option.elim_some, hcanonical,
    Option.map_some]

theorem parseTimeCursor_none {cursor iso : Text} (opts : CursorOptions) (hsplit : splitAtBar cursor = some (iso, id))
    (hparse : parseCursorInstant env iso = none) : parseTimeCursor env (some cursor) opts = none := by
  simp only [parseTimeCursor, hsplit, hparse, ite_self]

theorem parseKeysetCursor_none {cursor : Text} {opts : CursorOptions}
    (h : parseTimeCursor env (some cursor) opts = none) :
    parseKeysetCursor env (some cursor) opts = none := by
  simp only [parseKeysetCursor, h]

/-- The instant comes back with all its digits. -/
theorem parseKeysetCursor_encode (h : ((u / 1000 : ℕ) : ℤ) ≤ CURSOR_MAX_MS) (hid : isUuid id = true)
    (opts : CursorOptions) :
    parseKeysetCursor env (some (encodeKeysetCursor (keysetInstant u) id)) opts =
      some ⟨⟨(u / 1000 : ℕ), id⟩, keysetInstant u⟩ := by
  have hformed := wellFormed_keysetInstant h
  have hat := timeValue_instant u
  have hutc : utc ((u / 1000 : ℕ) : ℤ) = utcOfMicros u := by
    rw [← hat]
    exact utc_timeValue _ (by rw [fractionMillis_pad (Nat.mod_lt u (by decide))]; omega)
  refine parseKeysetCursor_split opts (splitAtBar_append (bar_not_mem_text hformed) id) ?_ ?_ hid ?_
  · exact List.append_ne_nil_of_right_ne_nil _ (List.cons_ne_nil _ _)
  · refine (parseCursorInstant_text hformed (names_isoParts _ _) rfl ?_ ?_).trans (congrArg some hat)
    · exact (Int.natCast_nonneg _).trans_eq hat.symm
    · exact hat.trans_le h
  · have hnames := names_isoParts (utc ((u / 1000 : ℕ) : ℤ)) (some (pad 6 (u % 1000000)))
    rw [← hutc] at hformed
    have htext := canonicalCursorInstant_text hformed rfl hnames
    rw [keysetInstant, ← hutc]
    exact htext

/-- An instant after the last one that a cursor may carry is refused, with a year of four digits and with a longer
one. -/
theorem parseCursorInstant_late {c : DateTime} {fraction : Option Text}
    (hfraction : ∀ f ∈ fraction, (1 ≤ f.length ∧ f.length ≤ 6) ∧ f.all isDigit)
    (hlate : CURSOR_MAX_MS < timeValue c fraction 0) : parseCursorInstant env (isoParts c fraction).text = none := by
  by_cases hyear : c.date.year < 10000
  · have hformed := wellFormed_isoParts hyear hfraction
    have hparse := env.dateParse_iso _ c hformed (names_isoParts c fraction) fun z hz => (by cases hz)
    rw [parseCursorInstant, hparse, if_pos (by rw [CURSOR_ISO_RE, exec_text hformed]; rfl), Option.filter_some, if_neg]
    rw [Bool.and_eq_true, not_and]
    intro _ hle
    exact absurd (of_decide_eq_true hle) (not_le.mpr hlate)
  · have hlong : 4 < (pad 4 c.date.year).length := by
      by_contra hshort
      have hlt := value_lt (t := pad 4 c.date.year) fun _ hd => isDigit_of_padStart hd
      have hpow := Nat.pow_le_pow_right (n := 10) (by decide) (Nat.le_of_not_lt hshort)
      rw [value_pad] at hlt
      omega
    -- The fifth digit of the year stands where the expression has a hyphen.
    have hexec : exec (isoParts c fraction).text = none := by
      obtain ⟨d, hd⟩ : ∃ d, (pad 4 c.date.year)[4]? = some d := ⟨_, List.getElem?_eq_getElem hlong⟩
      have hdigit := isDigit_of_padStart (List.mem_of_getElem? hd)
      have hunit : takeUnit 45 ((isoParts c fraction).text.drop 4) = none := by
        rw [takeUnit, if_neg]
        rw [List.head?_drop, InstantParts.text, isoParts, List.getElem?_append_left hlong, hd]
        intro heq
        cases heq
        exact absurd hdigit (by decide)
      have hbind : ∀ {β γ : Type} (o : Option β) (f : β → Option γ), (∀ b ∈ o, f b = none) → o.bind f = none :=
        fun o f h => Option.bind_eq_none_iff.mpr h
      refine hbind _ _ fun b hb => ?_
      rw [takeDigits] at hb
      split at hb
      · cases hb
        simp only [hunit, Option.bind_eq_bind, Option.bind_none]
      · cases hb
    rw [parseCursorInstant, if_neg (by rw [CURSOR_ISO_RE, hexec]; exact Bool.false_ne_true)]

/-! ## Cursors of any text -/

theorem parseCursorInstant_some {iso : Text} {at' : ℤ} (h : parseCursorInstant env iso = some at') :
    env.dateParse iso = some at' ∧ CURSOR_MIN_MS ≤ at' ∧ at' ≤ CURSOR_MAX_MS := by
  rw [parseCursorInstant] at h
  split at h
  · obtain ⟨hparse, hrange⟩ := Option.filter_eq_some_iff.mp h
    rw [Bool.and_eq_true, decide_eq_true_eq, decide_eq_true_eq] at hrange
    exact ⟨hparse, hrange⟩
  · cases h

theorem parseTimeCursor_some {text : Text} {opts : CursorOptions} {parsed : TimeCursor}
    (h : parseTimeCursor env (some text) opts = some parsed) :
    parseCursorInstant env ((splitAtBar text).elim text Prod.fst) = some parsed.at' := by
  simp only [parseTimeCursor] at h
  split at h
  · cases h
  · split at h
    · next hsplit =>
      obtain ⟨at', hat, rfl⟩ := Option.map_eq_some_iff.mp h
      rw [hsplit]
      exact hat
    · next iso id hsplit =>
      rw [hsplit]
      split at h
      · cases h
      · split at h
        · cases h
        · next at' hat =>
          split at h
          · cases h
          · split at h
            · cases h
            · cases h
              exact hat

/-- The offset that Postgres takes. -/
theorem cursorOffset_some {p : InstantParts} {offset : ℤ} (h : cursorOffset p = some offset) :
    offset = p.offsetMinutes ∧ ∀ z ∈ p.offset, value z.hours < 24 ∧ value z.minutes < 60 := by
  rw [cursorOffset] at h
  rw [InstantParts.offsetMinutes]
  split at h
  · next hnone =>
    cases h
    rw [hnone]
    exact ⟨rfl, fun z hz => (by cases hz)⟩
  · next z hz =>
    rw [hz]
    split at h
    · cases h
    · next hminutes =>
      split at h
      · cases h
      · next hbound =>
        cases h
        refine ⟨rfl, fun z' hz' => ?_⟩
        cases hz'
        refine ⟨?_, Nat.lt_succ_of_le (Nat.le_of_not_lt hminutes)⟩
        have habs : |z.total| = ((value z.hours * 60 + value z.minutes : ℕ) : ℤ) := by
          rw [Offset.total]
          split
          · rw [abs_neg, Nat.abs_cast]
          · rw [Nat.abs_cast]
        rw [habs, MAX_CURSOR_OFFSET_MINUTES] at hbound
        omega

/-- What is bound is the text of a date and a time of day in UTC, and its instant is that of the `Date`. -/
theorem canonicalCursorInstant_some {iso atText : Text} {at' : ℤ} (hparse : env.dateParse iso = some at')
    (hmin : CURSOR_MIN_MS ≤ at') (hmax : at' ≤ CURSOR_MAX_MS) (h : canonicalCursorInstant iso at' = some atText) :
    ∃ p c, exec atText = some p ∧ p.offset = none ∧ p.Names c ∧ timeValue c p.fraction 0 = at' := by
  rw [canonicalCursorInstant] at h
  split at h
  · cases h
  · next p hexec =>
    obtain ⟨hp, rfl⟩ := exec_some hexec
    split at h
    · cases h
    · next offset hoffset =>
      obtain ⟨rfl, hsmall⟩ := cursorOffset_some hoffset
      split at h
      · next hnames =>
        cases h
        rw [env.dateParse_iso p _ hp hnames hsmall] at hparse
        have hat := Option.some.inj hparse
        have hmillis := fractionMillis_lt hp.2.1
        have hseconds := toSeconds_utc hmin
        have hformed : (isoParts (utc at') p.fraction).WellFormed := by
          refine wellFormed_isoParts (year_lt ?_) hp.2.1
          have hbound : 86400 * daysBeforeYear 10000 = 315569520000 := by decide
          rw [hbound]
          rw [CURSOR_MAX_MS] at hmax
          rw [EPOCH_SECONDS] at hseconds
          omega
        refine ⟨_, utc at', exec_text hformed, rfl, names_isoParts _ _, ?_⟩
        rw [isoParts, timeValue, hseconds]
        rw [timeValue] at hat
        simp only [MS_PER_MINUTE] at hat ⊢
        omega
      · cases h

/-- The codec of keyset cursors. -/
theorem keysetCursor_codec (env : Platform) :
    (∀ (u : ℕ) (id : Text) (opts : CursorOptions), ((u / 1000 : ℕ) : ℤ) ≤ CURSOR_MAX_MS → isUuid id = true →
      parseKeysetCursor env (some (encodeKeysetCursor (keysetInstant u) id)) opts =
        some ⟨⟨(u / 1000 : ℕ), id⟩, keysetInstant u⟩) ∧
    ∀ (cursor : Option Text) (opts : CursorOptions) (k : KeysetCursor), parseKeysetCursor env cursor opts = some k →
      ∃ p c, exec k.atText = some p ∧ p.offset = none ∧ p.Names c ∧ timeValue c p.fraction 0 = k.at' := by
  refine ⟨fun u id opts h hid => parseKeysetCursor_encode h hid opts, fun cursor opts k h => ?_⟩
  cases cursor with
  | none => cases h
  | some text =>
    cases hparsed : parseTimeCursor env (some text) opts with
    | none =>
      simp only [parseKeysetCursor, hparsed] at h
      cases h
    | some parsed =>
      simp only [parseKeysetCursor, hparsed] at h
      obtain ⟨atText, hcanonical, rfl⟩ := Option.map_eq_some_iff.mp h
      obtain ⟨hparse, hmin, hmax⟩ := parseCursorInstant_some (parseTimeCursor_some hparsed)
      exact canonicalCursorInstant_some hparse hmin hmax hcanonical

end

/-! ## A platform that reads nothing but ISO texts -/

/-- The date and time of day that the fields name. -/
def dateTimeOf (p : InstantParts) : Option DateTime :=
  if h : ((1 ≤ value p.month ∧ value p.month ≤ 12) ∧
      1 ≤ value p.day ∧ value p.day ≤ monthLength (value p.year) (value p.month)) ∧
      value p.hour < 24 ∧ value p.minute < 60 ∧ value p.second < 60 then
    some ⟨⟨value p.year, value p.month, value p.day, h.1.1, h.1.2⟩, value p.hour, value p.minute, value p.second, h.2.1,
      h.2.2.1, h.2.2.2⟩
  else none

theorem dateTimeOf_of_names {p : InstantParts} {c : DateTime} (h : p.Names c) : dateTimeOf p = some c := by
  obtain ⟨⟨year, month, day, hmonth, hday⟩, hour, minute, second, hhour, hminute, hsecond⟩ := c
  obtain ⟨⟨hyear', hmonth', hday'⟩, hhour', hminute', hsecond'⟩ := h
  simp only at hyear' hmonth' hday' hhour' hminute' hsecond'
  subst hyear' hmonth' hday' hhour' hminute' hsecond'
  exact dif_pos ⟨⟨hmonth, hday⟩, hhour, hminute, hsecond⟩

def isoDates : Platform where
  dateParse t := (exec t).bind fun p => (dateTimeOf p).map fun c => timeValue c p.fraction p.offsetMinutes
  dateParse_iso p c hp hnames _ := by
    rw [exec_text hp, Option.bind_some, dateTimeOf_of_names hnames, Option.map_some]

/-- A cursor of a November day, to the microsecond. -/
theorem keysetCursor_codec_november :
    keysetInstant 1700000000123456 = text "2023-11-14T22:13:20.123456Z" ∧
      parseKeysetCursor isoDates (some (encodeKeysetCursor (keysetInstant 1700000000123456) MAX_UUID)) {} =
        some ⟨⟨1700000000123, MAX_UUID⟩, keysetInstant 1700000000123456⟩ ∧
      ∃ p c, exec (keysetInstant 1700000000123456) = some p ∧ p.offset = none ∧ p.Names c ∧
        timeValue c p.fraction 0 = 1700000000123 := by
  have hread : parseKeysetCursor isoDates (some (encodeKeysetCursor (keysetInstant 1700000000123456) MAX_UUID)) {} =
      some ⟨⟨1700000000123, MAX_UUID⟩, keysetInstant 1700000000123456⟩ :=
    (keysetCursor_codec isoDates).1 1700000000123456 MAX_UUID {} (by decide) (by decide)
  exact ⟨by decide +kernel, hread, (keysetCursor_codec isoDates).2 _ _ _ hread⟩

end Civfix.KeysetCursors

import Civfix.JsonTexts

/-! # Texts as UTF-8

A text of 16-bit units is written as bytes, where a surrogate without its pair becomes the replacement character, and
bytes are read back with a replacement character for each part that is no character. -/
namespace Utf8Texts

open CodeUnits JsonTexts

variable {c d : ℕ} {t : Text} {l : List ℕ}

def REPLACEMENT : CodeUnit := 65533

/-! ## Writing -/

/-- The bytes of a unit that is no part of a pair. -/
def unitBytes (c : ℕ) : List ℕ :=
  if c < 128 then [c]
  else if c < 2048 then [192 + c / 64, 128 + c % 64]
  else if isHigh c ∨ isLow c then [239, 191, 189]
  else [224 + c / 4096, 128 + c / 64 % 64, 128 + c % 64]

/-- The code point of a pair. -/
def pairPoint (c d : ℕ) : ℕ := 65536 + (c - 55296) * 1024 + (d - 56320)

def pairBytes (p : ℕ) : List ℕ := [240 + p / 262144, 128 + p / 4096 % 64, 128 + p / 64 % 64, 128 + p % 64]

def utf8 : Text → List ℕ
  | [] => []
  | [c] => unitBytes c
  | c :: d :: t => if isHigh c ∧ isLow d then pairBytes (pairPoint c d) ++ utf8 t else unitBytes c ++ utf8 (d :: t)

/-- `Buffer.byteLength`. -/
def byteLength (t : Text) : ℕ := (utf8 t).length

/-! ## Reading -/

/-- The bytes that a character still needs: how many, between which bounds the next one is, and what was read so far. -/
structure Pending where
  needed : ℕ
  lower : ℕ
  upper : ℕ
  point : ℕ

def pointUnits (p : ℕ) : Text :=
  if p < 65536 then [p] else [55296 + (p - 65536) / 1024, 56320 + (p - 65536) % 1024]

/-- The first byte of a character. -/
def start (b : ℕ) : Text × Option Pending :=
  if b < 128 then ([b], none)
  else if 194 ≤ b ∧ b ≤ 223 then ([], some ⟨1, 128, 191, b - 192⟩)
  else if 224 ≤ b ∧ b ≤ 239 then
    ([], some ⟨2, if b = 224 then 160 else 128, if b = 237 then 159 else 191, b - 224⟩)
  else if 240 ≤ b ∧ b ≤ 244 then
    ([], some ⟨3, if b = 240 then 144 else 128, if b = 244 then 143 else 191, b - 240⟩)
  else ([REPLACEMENT], none)

/-- A byte that does not go on with the character starts the next one. -/
def next (p : Pending) (b : ℕ) : Text × Option Pending :=
  if p.lower ≤ b ∧ b ≤ p.upper then
    let point := p.point * 64 + (b - 128)
    if p.needed ≤ 1 then (pointUnits point, none) else ([], some ⟨p.needed - 1, 128, 191, point⟩)
  else (REPLACEMENT :: (start b).1, (start b).2)

def readFrom : Option Pending → List ℕ → Text
  | none, [] => []
  | some _, [] => [REPLACEMENT]
  | none, b :: l => (start b).1 ++ readFrom (start b).2 l
  | some p, b :: l => (next p b).1 ++ readFrom (next p b).2 l

def fromUtf8 (l : List ℕ) : Text := readFrom none l

/-! ## Reading what was written -/

/-- No surrogate is without its pair. -/
def WellFormed : Text → Prop
  | [] => True
  | [c] => c < 65536 ∧ isHigh c = false ∧ isLow c = false
  | c :: d :: t =>
    if isHigh c ∧ isLow d then WellFormed t
    else (c < 65536 ∧ isHigh c = false ∧ isLow c = false) ∧ WellFormed (d :: t)

theorem next_of_mem {p : Pending} {b : ℕ} (h : p.lower ≤ b ∧ b ≤ p.upper) (hlast : p.needed ≤ 1) :
    next p b = (pointUnits (p.point * 64 + (b - 128)), none) := by
  rw [next, if_pos h]
  exact if_pos hlast

theorem next_of_more {p : Pending} {b : ℕ} (h : p.lower ≤ b ∧ b ≤ p.upper) (hmore : ¬p.needed ≤ 1) :
    next p b = ([], some ⟨p.needed - 1, 128, 191, p.point * 64 + (b - 128)⟩) := by
  rw [next, if_pos h]
  exact if_neg hmore

theorem readFrom_two {a b : ℕ} (ha : 194 ≤ a ∧ a ≤ 223) (hb : 128 ≤ b ∧ b ≤ 191) :
    readFrom none (a :: b :: l) = pointUnits ((a - 192) * 64 + (b - 128)) ++ readFrom none l := by
  have hstart : start a = ([], some ⟨1, 128, 191, a - 192⟩) := by
    rw [start, if_neg (by omega), if_pos ha]
  rw [readFrom, hstart, List.nil_append, readFrom, next_of_mem hb (Nat.le_refl 1)]

theorem readFrom_three {a b e : ℕ} (ha : 224 ≤ a ∧ a ≤ 239)
    (hb : (if a = 224 then 160 else 128) ≤ b ∧ b ≤ if a = 237 then 159 else 191) (he : 128 ≤ e ∧ e ≤ 191) :
    readFrom none (a :: b :: e :: l) =
      pointUnits (((a - 224) * 64 + (b - 128)) * 64 + (e - 128)) ++ readFrom none l := by
  have hstart : start a =
      ([], some ⟨2, if a = 224 then 160 else 128, if a = 237 then 159 else 191, a - 224⟩) := by
    rw [start, if_neg (by omega), if_neg (by omega), if_pos ha]
  have hmore : ¬(2 : ℕ) ≤ 1 := by decide
  rw [readFrom, hstart, List.nil_append, readFrom, next_of_more hb hmore, List.nil_append, readFrom,
    next_of_mem he (Nat.le_refl 1)]

theorem readFrom_four {a b e f : ℕ} (ha : 240 ≤ a ∧ a ≤ 244)
    (hb : (if a = 240 then 144 else 128) ≤ b ∧ b ≤ if a = 244 then 143 else 191) (he : 128 ≤ e ∧ e ≤ 191)
    (hf : 128 ≤ f ∧ f ≤ 191) : readFrom none (a :: b :: e :: f :: l) =
      pointUnits ((((a - 240) * 64 + (b - 128)) * 64 + (e - 128)) * 64 + (f - 128)) ++ readFrom none l := by
  have hstart : start a =
      ([], some ⟨3, if a = 240 then 144 else 128, if a = 244 then 143 else 191, a - 240⟩) := by
    rw [start, if_neg (by omega), if_neg (by omega), if_neg (by omega), if_pos ha]
  have hthree : ¬(3 : ℕ) ≤ 1 := by decide
  have htwo : ¬(2 : ℕ) ≤ 1 := by decide
  rw [readFrom, hstart, List.nil_append, readFrom, next_of_more hb hthree, List.nil_append, readFrom,
    next_of_more he htwo, List.nil_append, readFrom, next_of_mem hf (Nat.le_refl 1)]

theorem readFrom_unitBytes (hc : c < 65536) (hhigh : isHigh c = false) (hlow : isLow c = false) :
    readFrom none (unitBytes c ++ l) = c :: readFrom none l := by
  have hsurrogate : ¬(isHigh c = true ∨ isLow c = true) := by rw [hhigh, hlow]; decide
  have hpoint : pointUnits c = [c] := if_pos hc
  rw [isHigh, decide_eq_false_iff_not] at hhigh
  rw [isLow, decide_eq_false_iff_not] at hlow
  unfold unitBytes
  split
  · next hascii => rw [List.singleton_append, readFrom, start, if_pos hascii, List.singleton_append]
  · split
    · have heq : (192 + c / 64 - 192) * 64 + (128 + c % 64 - 128) = c := by omega
      have hfirst : 194 ≤ 192 + c / 64 ∧ 192 + c / 64 ≤ 223 := by omega
      have hlast : 128 ≤ 128 + c % 64 ∧ 128 + c % 64 ≤ 191 := by omega
      rw [List.cons_append, List.singleton_append, readFrom_two hfirst hlast, heq, hpoint, List.singleton_append]
    · have heq : ((224 + c / 4096 - 224) * 64 + (128 + c / 64 % 64 - 128)) * 64 + (128 + c % 64 - 128) = c := by omega
      have hsecond : (if 224 + c / 4096 = 224 then 160 else 128) ≤ 128 + c / 64 % 64 ∧
          128 + c / 64 % 64 ≤ if 224 + c / 4096 = 237 then 159 else 191 := by
        constructor <;> split <;> omega
      have hfirst : 224 ≤ 224 + c / 4096 ∧ 224 + c / 4096 ≤ 239 := by omega
      have hlast : 128 ≤ 128 + c % 64 ∧ 128 + c % 64 ≤ 191 := by omega
      rw [List.cons_append, List.cons_append, List.singleton_append, readFrom_three hfirst hsecond hlast, heq, hpoint,
        List.singleton_append]

theorem readFrom_pairBytes (hhigh : isHigh c = true) (hlow : isLow d = true) :
    readFrom none (pairBytes (pairPoint c d) ++ l) = c :: d :: readFrom none l := by
  have hc := of_decide_eq_true hhigh
  have hd := of_decide_eq_true hlow
  obtain ⟨p, hp⟩ : ∃ p, p = pairPoint c d := ⟨_, rfl⟩
  have hpoint : p = 65536 + (c - 55296) * 1024 + (d - 56320) := hp
  have hhead : 55296 + (p - 65536) / 1024 = c := by omega
  have htail : 56320 + (p - 65536) % 1024 = d := by omega
  have hunits : pointUnits p = [c, d] := by rw [pointUnits, if_neg (by omega), hhead, htail]
  have heq : (((240 + p / 262144 - 240) * 64 + (128 + p / 4096 % 64 - 128)) * 64 + (128 + p / 64 % 64 - 128)) * 64 +
      (128 + p % 64 - 128) = p := by omega
  have hsecond : (if 240 + p / 262144 = 240 then 144 else 128) ≤ 128 + p / 4096 % 64 ∧
      128 + p / 4096 % 64 ≤ if 240 + p / 262144 = 244 then 143 else 191 := by
    constructor <;> split <;> omega
  have hfirst : 240 ≤ 240 + p / 262144 ∧ 240 + p / 262144 ≤ 244 := by omega
  have hthird : 128 ≤ 128 + p / 64 % 64 ∧ 128 + p / 64 % 64 ≤ 191 := by omega
  have hlast : 128 ≤ 128 + p % 64 ∧ 128 + p % 64 ≤ 191 := by omega
  rw [← hp, pairBytes, List.cons_append, List.cons_append, List.cons_append, List.singleton_append,
    readFrom_four hfirst hsecond hthird hlast, heq, hunits, List.cons_append, List.singleton_append]

/-- By induction along the pairs. -/
theorem fromUtf8_utf8 (h : WellFormed t) : fromUtf8 (utf8 t) = t := by
  unfold fromUtf8
  induction t using utf8.induct with
  | case1 => rfl
  | case2 c =>
    obtain ⟨hc, hhigh, hlow⟩ := h
    have hread := readFrom_unitBytes (l := []) hc hhigh hlow
    rwa [List.append_nil] at hread
  | case3 c d t hpair ih =>
    rw [WellFormed, if_pos hpair] at h
    rw [utf8, if_pos hpair, readFrom_pairBytes hpair.1 hpair.2, ih h]
  | case4 c d t hpair ih =>
    rw [WellFormed, if_neg hpair] at h
    obtain ⟨⟨hc, hhigh, hlow⟩, hrest⟩ := h
    rw [utf8, if_neg hpair, readFrom_unitBytes hc hhigh hlow, ih hrest]

theorem lt_of_mem_unitBytes {b : ℕ} (hc : c < 65536) (hb : b ∈ unitBytes c) : b < 256 := by
  unfold unitBytes at hb
  split at hb
  · obtain rfl := List.mem_singleton.mp hb
    omega
  · split at hb
    · simp only [List.mem_cons, List.not_mem_nil, or_false] at hb
      omega
    · split at hb
      · simp only [List.mem_cons, List.not_mem_nil, or_false] at hb
        omega
      · simp only [List.mem_cons, List.not_mem_nil, or_false] at hb
        omega

theorem lt_of_mem_utf8 {b : ℕ} (h : ∀ c ∈ t, c < 65536) (hb : b ∈ utf8 t) : b < 256 := by
  induction t using utf8.induct with
  | case1 => cases hb
  | case2 c => exact lt_of_mem_unitBytes (h c List.mem_cons_self) hb
  | case3 c d t hpair ih =>
    rw [utf8, if_pos hpair] at hb
    rcases List.mem_append.mp hb with hb | hb
    · have hc := of_decide_eq_true hpair.1
      have hd := of_decide_eq_true hpair.2
      obtain ⟨p, hp⟩ : ∃ p, p = pairPoint c d := ⟨_, rfl⟩
      have hpoint : p = 65536 + (c - 55296) * 1024 + (d - 56320) := hp
      have hrange : p ≤ 1114111 := by omega
      rw [← hp] at hb
      simp only [pairBytes, List.mem_cons, List.not_mem_nil, or_false] at hb
      omega
    · exact ih (fun e he => h e (List.mem_cons_of_mem _ (List.mem_cons_of_mem _ he))) hb
  | case4 c d t hpair ih =>
    rw [utf8, if_neg hpair] at hb
    rcases List.mem_append.mp hb with hb | hb
    · exact lt_of_mem_unitBytes (h c List.mem_cons_self) hb
    · exact ih (fun e he => h e (List.mem_cons_of_mem _ he)) hb

/-! ## Surrogates without a pair -/

/-- `String.prototype.toWellFormed`. -/
def toWellFormed : Text → Text
  | [] => []
  | [c] => [if isHigh c ∨ isLow c then REPLACEMENT else c]
  | c :: d :: t =>
    if isHigh c ∧ isLow d then c :: d :: toWellFormed t
    else (if isHigh c ∨ isLow c then REPLACEMENT else c) :: toWellFormed (d :: t)

theorem isHigh_replacement : isHigh REPLACEMENT = false := rfl

theorem isLow_replacement : isLow REPLACEMENT = false := rfl

theorem unitBytes_replaced (c : ℕ) : unitBytes (if isHigh c ∨ isLow c then REPLACEMENT else c) = unitBytes c := by
  split
  · next h =>
    have hrange : 55296 ≤ c := by
      simp only [isHigh, isLow, decide_eq_true_eq] at h
      omega
    have hreplacement : unitBytes REPLACEMENT = [239, 191, 189] := rfl
    rw [hreplacement, unitBytes, if_neg (by omega), if_neg (by omega), if_pos h]
  · rfl

theorem not_high_replaced (c : ℕ) : isHigh (if isHigh c ∨ isLow c then REPLACEMENT else c) = false := by
  split
  · exact isHigh_replacement
  · next h => exact Bool.eq_false_iff.2 fun hhigh => h (Or.inl hhigh)

theorem not_low_replaced (c : ℕ) : isLow (if isHigh c ∨ isLow c then REPLACEMENT else c) = false := by
  split
  · exact isLow_replacement
  · next h => exact Bool.eq_false_iff.2 fun hlow => h (Or.inr hlow)

theorem replaced_lt (hc : c < 65536) : (if isHigh c ∨ isLow c then REPLACEMENT else c) < 65536 := by
  split
  · decide
  · exact hc

theorem utf8_cons_of_not_high (hc : isHigh c = false) (t : Text) : utf8 (c :: t) = unitBytes c ++ utf8 t := by
  cases t with
  | nil => rw [utf8, utf8, List.append_nil]
  | cons d t => rw [utf8, if_neg fun h => absurd h.1 (by rw [hc]; decide)]

/-- The bytes do not tell a surrogate without its pair from the replacement character. -/
theorem utf8_toWellFormed (t : Text) : utf8 (toWellFormed t) = utf8 t := by
  induction t using toWellFormed.induct with
  | case1 => rfl
  | case2 c => rw [toWellFormed, utf8, utf8, unitBytes_replaced]
  | case3 c d t hpair ih => rw [toWellFormed, if_pos hpair, utf8, if_pos hpair, ih, utf8, if_pos hpair]
  | case4 c d t hpair ih =>
    rw [toWellFormed, if_neg hpair, utf8_cons_of_not_high (not_high_replaced c), unitBytes_replaced, ih, utf8,
      if_neg hpair]

theorem wellFormed_cons (hc : c < 65536) (hhigh : isHigh c = false) (hlow : isLow c = false) (ht : WellFormed t) :
    WellFormed (c :: t) := by
  cases t with
  | nil => exact ⟨hc, hhigh, hlow⟩
  | cons d t =>
    rw [WellFormed, if_neg fun h => absurd h.1 (by rw [hhigh]; decide)]
    exact ⟨⟨hc, hhigh, hlow⟩, ht⟩

theorem wellFormed_toWellFormed (h : ∀ c ∈ t, c < 65536) : WellFormed (toWellFormed t) := by
  induction t using toWellFormed.induct with
  | case1 => exact trivial
  | case2 c => exact ⟨replaced_lt (h c List.mem_cons_self), not_high_replaced c, not_low_replaced c⟩
  | case3 c d t hpair ih =>
    rw [toWellFormed, if_pos hpair, WellFormed, if_pos hpair]
    exact ih fun e he => h e (List.mem_cons_of_mem _ (List.mem_cons_of_mem _ he))
  | case4 c d t hpair ih =>
    rw [toWellFormed, if_neg hpair]
    exact wellFormed_cons (replaced_lt (h c List.mem_cons_self)) (not_high_replaced c) (not_low_replaced c)
      (ih fun e he => h e (List.mem_cons_of_mem _ he))

theorem utf8_eq_iff {u : Text} (ht : ∀ c ∈ t, c < 65536) (hu : ∀ c ∈ u, c < 65536) :
    utf8 t = utf8 u ↔ toWellFormed t = toWellFormed u := by
  constructor
  · intro h
    rw [← fromUtf8_utf8 (wellFormed_toWellFormed ht), ← fromUtf8_utf8 (wellFormed_toWellFormed hu), utf8_toWellFormed,
      utf8_toWellFormed, h]
  · intro h
    rw [← utf8_toWellFormed t, ← utf8_toWellFormed u, h]

theorem toWellFormed_cons_of_unit (hhigh : isHigh c = false) (hlow : isLow c = false) (t : Text) :
    toWellFormed (c :: t) = c :: toWellFormed t := by
  have hunit : ¬(isHigh c = true ∨ isLow c = true) := by rw [hhigh, hlow]; decide
  cases t with
  | nil => rw [toWellFormed, toWellFormed, if_neg hunit]
  | cons d t => rw [toWellFormed, if_neg fun h => hunit (Or.inl h.1), if_neg hunit]

/-- A unit that is no part of a pair keeps apart what stands before and after it. -/
theorem toWellFormed_append_cons (hhigh : isHigh c = false) (hlow : isLow c = false) (t u : Text) :
    toWellFormed (t ++ c :: u) = toWellFormed t ++ c :: toWellFormed u := by
  induction t using toWellFormed.induct with
  | case1 => exact toWellFormed_cons_of_unit hhigh hlow u
  | case2 e =>
    have hpair : ¬(isHigh e = true ∧ isLow c = true) := fun h => absurd h.2 (by rw [hlow]; decide)
    rw [List.singleton_append, toWellFormed, toWellFormed, if_neg hpair, toWellFormed_cons_of_unit hhigh hlow,
      List.singleton_append]
  | case3 e d t hpair ih =>
    rw [List.cons_append, List.cons_append, toWellFormed, if_pos hpair, ih, toWellFormed, if_pos hpair,
      List.cons_append,
      List.cons_append]
  | case4 e d t hpair ih =>
    rw [List.cons_append] at ih
    rw [List.cons_append, List.cons_append, toWellFormed, if_neg hpair, ih, toWellFormed, if_neg hpair,
      List.cons_append]

/-! ## Texts that are put together -/

/-- A text that stays well formed before every well-formed text. -/
def Complete (t : Text) : Prop := ∀ rest, WellFormed rest → WellFormed (t ++ rest)

theorem Complete.wellFormed (h : Complete t) : WellFormed t := by
  have hnil := h [] trivial
  rwa [List.append_nil] at hnil

theorem complete_nil : Complete [] := fun _ h => h

theorem Complete.append {u : Text} (ht : Complete t) (hu : Complete u) : Complete (t ++ u) := by
  intro rest hrest
  rw [List.append_assoc]
  exact ht _ (hu rest hrest)

theorem Complete.cons (h : Complete t) (hc : c < 65536) (hhigh : isHigh c = false) (hlow : isLow c = false) :
    Complete (c :: t) := fun rest hrest => wellFormed_cons hc hhigh hlow (h rest hrest)

theorem complete_of_ascii (h : ∀ c ∈ t, c < 128) : Complete t := by
  induction t with
  | nil => exact complete_nil
  | cons c t ih =>
    have hascii : ∀ c : ℕ, c < 128 → c < 65536 ∧ isHigh c = false ∧ isLow c = false := by
      intro c hc
      exact ⟨by omega, decide_eq_false (by omega), decide_eq_false (by omega)⟩
    obtain ⟨hc, hhigh, hlow⟩ := hascii c (h c List.mem_cons_self)
    exact (ih fun c hc => h c (List.mem_cons_of_mem _ hc)).cons hc hhigh hlow

theorem complete_pair (hhigh : isHigh c = true) (hlow : isLow d = true) (ht : Complete t) : Complete (c :: d :: t) := by
  intro rest hrest
  rw [List.cons_append, List.cons_append, WellFormed, if_pos ⟨hhigh, hlow⟩]
  exact ht rest hrest

theorem hexDigit_lt {n : ℕ} (h : n < 16) : hexDigit n < 128 := by
  change @LT.lt ℕ _ (hexDigit n) 128
  unfold hexDigit
  split <;> omega

theorem unicodeEscape_ascii (c : ℕ) : ∀ d ∈ unicodeEscape c, d < 128 := by
  intro d hd
  simp only [unicodeEscape, List.mem_cons, List.not_mem_nil, or_false] at hd
  rcases hd with rfl | rfl | rfl | rfl | rfl | rfl
  · decide
  · decide
  · exact hexDigit_lt (Nat.mod_lt _ (by omega))
  · exact hexDigit_lt (Nat.mod_lt _ (by omega))
  · exact hexDigit_lt (Nat.mod_lt _ (by omega))
  · exact hexDigit_lt (Nat.mod_lt _ (by omega))

theorem complete_escapeUnit (hc : c < 65536) : Complete (escapeUnit c) := by
  unfold escapeUnit
  split
  · next e he =>
    have hshort : ∀ e ∈ shortEscapes, e.2 < 128 := by decide
    refine complete_of_ascii fun d hd => ?_
    simp only [List.mem_cons, List.not_mem_nil, or_false] at hd
    rcases hd with rfl | rfl
    · decide
    · exact hshort e (List.mem_of_find?_eq_some he)
  · split
    · exact complete_of_ascii (unicodeEscape_ascii c)
    · next hplain =>
      refine complete_nil.cons hc ?_ ?_
      · exact Bool.eq_false_iff.2 fun hhigh => hplain (Or.inr (Or.inl hhigh))
      · exact Bool.eq_false_iff.2 fun hlow => hplain (Or.inr (Or.inr hlow))

/-- The JSON of a string has no surrogate without its pair: `JSON.stringify` escapes those. -/
theorem complete_quoted (h : ∀ c ∈ t, c < 65536) : Complete (quoted t) := by
  have hescaped : Complete (escapeText t) := by
    induction t using escapeText.induct with
    | case1 => exact complete_nil
    | case2 c => exact complete_escapeUnit (h c List.mem_cons_self)
    | case3 c d t hpair ih =>
      rw [escapeText, if_pos hpair]
      exact complete_pair hpair.1 hpair.2
        (ih fun e he => h e (List.mem_cons_of_mem _ (List.mem_cons_of_mem _ he)))
    | case4 c d t hpair ih =>
      rw [escapeText, if_neg hpair]
      exact (complete_escapeUnit (h c List.mem_cons_self)).append (ih fun e he => h e (List.mem_cons_of_mem _ he))
  exact (hescaped.append (complete_of_ascii (by decide))).cons (by decide) rfl rfl

theorem WellFormed.units (h : WellFormed t) : ∀ c ∈ t, c < 65536 := by
  induction t using utf8.induct with
  | case1 => exact fun c hc => absurd hc List.not_mem_nil
  | case2 c =>
    intro e he
    rw [List.mem_singleton.1 he]
    exact h.1
  | case3 c d t hpair ih =>
    rw [WellFormed, if_pos hpair] at h
    have hsurrogate : ∀ c d : ℕ, isHigh c = true → isLow d = true → c < 65536 ∧ d < 65536 := by
      intro c d hc hd
      have hc' := of_decide_eq_true hc
      have hd' := of_decide_eq_true hd
      exact ⟨by omega, by omega⟩
    obtain ⟨hc, hd⟩ := hsurrogate c d hpair.1 hpair.2
    intro e he
    rcases List.mem_cons.1 he with rfl | he
    · exact hc
    · rcases List.mem_cons.1 he with rfl | he
      · exact hd
      · exact ih h e he
  | case4 c d t hpair ih =>
    rw [WellFormed, if_neg hpair] at h
    intro e he
    rcases List.mem_cons.1 he with rfl | he
    · exact h.1.1
    · exact ih h.2 e he

/-! ## ASCII -/

theorem utf8_of_ascii (h : ∀ c ∈ t, c < 128) : utf8 t = t := by
  induction t with
  | nil => rfl
  | cons c t ih =>
    have hascii : ∀ c : ℕ, c < 128 → isHigh c = false ∧ unitBytes c = [c] := by
      intro c hc
      exact ⟨decide_eq_false (by omega), by rw [unitBytes, if_pos hc]⟩
    obtain ⟨hhigh, hbytes⟩ := hascii c (h c List.mem_cons_self)
    rw [utf8_cons_of_not_high hhigh, hbytes, ih fun c hc => h c (List.mem_cons_of_mem _ hc), List.singleton_append]

/-- Every unit that is not ASCII brings a byte that is not. -/
theorem ascii_of_utf8 (h : ∀ b ∈ utf8 t, b < 128) : ∀ c ∈ t, c < 128 := by
  have hunit : ∀ c : ℕ, (∀ b ∈ unitBytes c, b < 128) → c < 128 := by
    intro c hc
    by_contra hlarge
    unfold unitBytes at hc
    rw [if_neg hlarge] at hc
    split at hc
    · have hfirst := hc _ List.mem_cons_self
      omega
    · split at hc
      · have hfirst := hc _ List.mem_cons_self
        omega
      · have hfirst := hc _ List.mem_cons_self
        omega
  induction t using utf8.induct with
  | case1 => exact fun c hc => absurd hc List.not_mem_nil
  | case2 c =>
    intro e he
    rw [List.mem_singleton.1 he]
    exact hunit c h
  | case3 c d t hpair ih =>
    rw [utf8, if_pos hpair] at h
    have hfirst : ∀ p : ℕ, ¬240 + p / 262144 < 128 := fun p hp => by omega
    exact absurd (h _ (List.mem_append_left _ List.mem_cons_self)) (hfirst _)
  | case4 c d t hpair ih =>
    rw [utf8, if_neg hpair] at h
    intro e he
    rcases List.mem_cons.1 he with rfl | he
    · exact hunit e fun b hb => h b (List.mem_append_left _ hb)
    · exact ih (fun b hb => h b (List.mem_append_right _ hb)) e he

/-- The bytes of an ASCII text are those of no other text. -/
theorem eq_of_utf8_eq_ascii {u : Text} (hu : ∀ c ∈ u, c < 128) (h : utf8 t = utf8 u) : t = u := by
  rw [utf8_of_ascii hu] at h
  have ht : ∀ c ∈ t, c < 128 := ascii_of_utf8 (by rw [h]; exact hu)
  rwa [utf8_of_ascii ht] at h

end Utf8Texts

import Mathlib.Data.Rat.Defs
import Mathlib.Algebra.Order.Field.Rat
import Mathlib.Data.List.Basic
import Civfix.JsonTexts

/-! # Reading JSON

`JSON.parse` by recursive descent. A number is read as the rational that is written, where `JSON.parse` gives the double
next to it and `Infinity` past the largest. The fuel of a text is twice its length, since between two values that are
read at least one bracket, colon or comma is. -/
namespace JsonValues

open CodeUnits JsonTexts

inductive JsonValue where
  | null
  | bool (b : Bool)
  | number (q : ℚ)
  | string (t : Text)
  | array (values : List JsonValue)
  | object (members : List (Text × JsonValue))

/-- The value of a member; of several with one name the last one counts. -/
def lookup (members : List (Text × JsonValue)) (name : Text) : Option JsonValue :=
  ((members.filter fun m => decide (m.1 = name)).getLast?).map Prod.snd

/-! ## Texts -/

def isJsonSpace (c : ℕ) : Bool := decide (c = 9 ∨ c = 10 ∨ c = 13 ∨ c = 32)

def skipSpace (t : Text) : Text := t.dropWhile isJsonSpace

/-! ## Numbers -/

/-- The digits after a point, if there is one. -/
def readFraction : Text → Option (Text × Text)
  | [] => some ([], [])
  | c :: t =>
    if c = 46 then
      let digits := t.takeWhile isDigit
      if digits = [] then none else some (digits, t.dropWhile isDigit)
    else some ([], c :: t)

def readSigned (sign : ℤ) (t : Text) : Option (ℤ × Text) :=
  let digits := t.takeWhile isDigit
  if digits = [] then none else some (sign * value digits, t.dropWhile isDigit)

def readExponent : Text → Option (ℤ × Text)
  | [] => some (0, [])
  | c :: t =>
    if c = 101 ∨ c = 69 then
      if t.head? = some 45 then readSigned (-1) t.tail
      else if t.head? = some 43 then readSigned 1 t.tail
      else readSigned 1 t
    else some (0, c :: t)

def readUnsigned (t : Text) : Option (ℚ × Text) :=
  let whole := t.takeWhile isDigit
  if whole = [] ∨ (whole.head? = some 48 ∧ 1 < whole.length) then none
  else
    (readFraction (t.dropWhile isDigit)).bind fun f => (readExponent f.2).map fun e =>
      ((value (whole ++ f.1) : ℚ) * (10 : ℚ) ^ (e.1 - f.1.length : ℤ), e.2)

def readNumber (t : Text) : Option (ℚ × Text) :=
  if t.head? = some 45 then (readUnsigned t.tail).map fun r => (-r.1, r.2) else readUnsigned t

/-! ## Values -/

def readWord (t : Text) : Option (JsonValue × Text) :=
  if t.take 4 = text "null" then some (.null, t.drop 4)
  else if t.take 4 = text "true" then some (.bool true, t.drop 4)
  else if t.take 5 = text "false" then some (.bool false, t.drop 5)
  else (readNumber t).map fun r => (.number r.1, r.2)

mutual

def readValue : ℕ → Text → Option (JsonValue × Text)
  | 0, _ => none
  | fuel + 1, t =>
    match skipSpace t with
    | [] => none
    | c :: t =>
      if c = doubleQuote then (readText t).map fun r => (.string r.1, r.2)
      else if c = 91 then
        if (skipSpace t).head? = some 93 then some (.array [], (skipSpace t).tail)
        else (readElements fuel t).map fun r => (.array r.1, r.2)
      else if c = 123 then
        if (skipSpace t).head? = some 125 then some (.object [], (skipSpace t).tail)
        else (readMembers fuel t).map fun r => (.object r.1, r.2)
      else readWord (c :: t)

def readElements : ℕ → Text → Option (List JsonValue × Text)
  | 0, _ => none
  | fuel + 1, t =>
    (readValue fuel t).bind fun r =>
      match skipSpace r.2 with
      | [] => none
      | c :: t =>
        if c = 44 then (readElements fuel t).map fun rest => (r.1 :: rest.1, rest.2)
        else if c = 93 then some ([r.1], t)
        else none

def readMembers : ℕ → Text → Option (List (Text × JsonValue) × Text)
  | 0, _ => none
  | fuel + 1, t =>
    if (skipSpace t).head? = some doubleQuote then
      (readText (skipSpace t).tail).bind fun name =>
        if (skipSpace name.2).head? = some 58 then
          (readValue fuel (skipSpace name.2).tail).bind fun r =>
            match skipSpace r.2 with
            | [] => none
            | c :: t =>
              if c = 44 then (readMembers fuel t).map fun rest => ((name.1, r.1) :: rest.1, rest.2)
              else if c = 125 then some ([(name.1, r.1)], t)
              else none
        else none
    else none

end

def parse (t : Text) : Option JsonValue :=
  (readValue (2 * t.length + 2) t).bind fun r => if skipSpace r.2 = [] then some r.1 else none

/-! ## Reading what was written -/

section

variable {c d fuel : ℕ} {t u rest name : Text} {v : JsonValue} {members : List (Text × JsonValue)}

theorem skipSpace_cons (h : isJsonSpace c = false) (t : Text) : skipSpace (c :: t) = c :: t := by
  rw [skipSpace, List.dropWhile_cons_of_neg (by rw [h]; decide)]

/-! ## Whole numbers -/

/-- A unit that may stand after a value in an object. -/
def Ends (c : ℕ) : Prop := c = 44 ∨ c = 125

theorem decimal_no_leading_zero (n : ℕ) : ¬((decimal n).head? = some 48 ∧ 1 < (decimal n).length) := by
  rintro ⟨hhead, hlong⟩
  unfold decimal at hhead hlong
  split at hhead
  · next hn =>
    rw [if_pos hn] at hlong
    exact absurd hlong (by decide)
  · next hn =>
    have hne : Nat.digits 10 n ≠ [] := Nat.digits_ne_nil_iff_ne_zero.2 hn
    rw [List.head?_map, List.head?_reverse, List.getLast?_eq_some_getLast hne, Option.map_some,
      Option.some.injEq] at hhead
    have hlast : (Nat.digits 10 n).getLast hne ≠ 0 := Nat.getLast_digit_ne_zero 10 hn
    have hzero : ∀ d : ℕ, 48 + d = 48 → d = 0 := fun d hd => by omega
    exact hlast (hzero _ hhead)

theorem not_digit_of_ends (h : Ends c) : isDigit c = false := by
  rcases h with rfl | rfl <;> rfl

theorem readUnsigned_decimal (n : ℕ) (h : Ends c) (rest : Text) :
    readUnsigned (decimal n ++ c :: rest) = some ((n : ℚ), c :: rest) := by
  have hdigit := not_digit_of_ends h
  have htake : (decimal n ++ c :: rest).takeWhile isDigit = decimal n := by
    rw [List.takeWhile_append_of_pos fun c hc => isDigit_of_decimal hc, List.takeWhile_cons_of_neg (by simp [hdigit]),
      List.append_nil]
  have hdrop : (decimal n ++ c :: rest).dropWhile isDigit = c :: rest := by
    rw [List.dropWhile_append_of_pos fun c hc => isDigit_of_decimal hc, List.dropWhile_cons_of_neg (by simp [hdigit])]
  have hfraction : readFraction (c :: rest) = some ([], c :: rest) := by
    rw [readFraction, if_neg (by rcases h with rfl | rfl <;> decide)]
  have hexponent : readExponent (c :: rest) = some (0, c :: rest) := by
    rw [readExponent, if_neg (by rcases h with rfl | rfl <;> decide)]
  have hwhole : ¬(decimal n = [] ∨ ((decimal n).head? = some 48 ∧ 1 < (decimal n).length)) := by
    rintro (hnil | hzero)
    · exact decimal_ne_nil n hnil
    · exact decimal_no_leading_zero n hzero
  rw [readUnsigned, htake, hdrop, hfraction, if_neg hwhole, Option.bind_some, hexponent, Option.map_some,
    List.append_nil, value_decimal]
  simp

theorem readNumber_integerText (n : ℤ) (h : Ends c) (rest : Text) :
    readNumber (integerText n ++ c :: rest) = some ((n : ℚ), c :: rest) := by
  unfold integerText
  split
  · next hn =>
    rw [List.cons_append, readNumber, List.head?_cons, if_pos rfl, List.tail_cons, readUnsigned_decimal _ h,
      Option.map_some]
    have habs : ((n.natAbs : ℕ) : ℤ) = -n := Int.ofNat_natAbs_of_nonpos hn.le
    have hcast : ((n.natAbs : ℕ) : ℚ) = -(n : ℚ) := by rw [← Int.cast_natCast, habs, Int.cast_neg]
    rw [hcast, neg_neg]
  · next hn =>
    have hhead : (decimal n.natAbs ++ c :: rest).head? ≠ some 45 := by
      obtain ⟨d, t, hd⟩ := List.exists_cons_of_ne_nil (decimal_ne_nil n.natAbs)
      have hdigit : isDigit d = true := isDigit_of_decimal (n := n.natAbs) (by rw [hd]; exact List.mem_cons_self)
      rw [hd, List.cons_append, List.head?_cons]
      rintro ⟨rfl⟩
      exact absurd hdigit (by decide)
    have habs : ((n.natAbs : ℕ) : ℤ) = n := Int.natAbs_of_nonneg (not_lt.1 hn)
    have hcast : ((n.natAbs : ℕ) : ℚ) = (n : ℚ) := by rw [← Int.cast_natCast, habs]
    rw [readNumber, if_neg hhead, readUnsigned_decimal _ h, hcast]

theorem readWord_of_head (h : c = 45 ∨ isDigit c = true) (t : Text) :
    readWord (c :: t) = (readNumber (c :: t)).map fun r => (.number r.1, r.2) := by
  have hletter : ∀ (k : ℕ) (w : Text) (d : ℕ), isDigit d = false → d ≠ 45 → (c :: t).take (k + 1) ≠ d :: w := by
    intro k w d hd hminus heq
    rw [List.take_succ_cons, List.cons.injEq] at heq
    rcases h with rfl | h
    · exact hminus heq.1.symm
    · rw [heq.1, hd] at h
      cases h
  have hnull : (c :: t).take 4 ≠ text "null" := hletter 3 (text "ull") 110 rfl (by decide)
  have htrue : (c :: t).take 4 ≠ text "true" := hletter 3 (text "rue") 116 rfl (by decide)
  have hfalse : (c :: t).take 5 ≠ text "false" := hletter 4 (text "alse") 102 rfl (by decide)
  rw [readWord, if_neg hnull, if_neg htrue, if_neg hfalse]

/-! ## Objects -/

/-- A text that is read as a value wherever the value ends. -/
def Writes (w : Text) (v : JsonValue) : Prop :=
  ∀ (fuel c : ℕ) (rest : Text), Ends c → readValue (fuel + 1) (w ++ c :: rest) = some (v, c :: rest)

theorem writes_quoted (t : Text) : Writes (quoted t) (.string t) := by
  intro fuel c rest _
  have hskip : skipSpace (quoted t ++ c :: rest) = doubleQuote :: (escapeText t ++ doubleQuote :: c :: rest) := by
    rw [quoted, List.cons_append, List.append_assoc, List.singleton_append]
    exact skipSpace_cons rfl _
  rw [readValue, hskip]
  dsimp only
  rw [if_pos rfl, readText_escapeText]
  rfl

theorem writes_integerText (n : ℤ) : Writes (integerText n) (.number n) := by
  intro fuel c rest hc
  obtain ⟨d, t, hd, hhead⟩ : ∃ d t, integerText n = d :: t ∧ (d = 45 ∨ isDigit d = true) := by
    unfold integerText
    split
    · exact ⟨45, _, rfl, Or.inl rfl⟩
    · obtain ⟨d, t, hd⟩ := List.exists_cons_of_ne_nil (decimal_ne_nil n.natAbs)
      exact ⟨d, t, hd, Or.inr (isDigit_of_decimal (n := n.natAbs) (by rw [hd]; exact List.mem_cons_self))⟩
  have hplain : isJsonSpace d = false ∧ d ≠ doubleQuote ∧ d ≠ 91 ∧ d ≠ 123 := by
    have hgeneral : ∀ d : ℕ, d = 45 ∨ isDigit d = true → isJsonSpace d = false ∧ d ≠ 34 ∧ d ≠ 91 ∧ d ≠ 123 := by
      intro d hd
      simp only [isDigit, decide_eq_true_eq] at hd
      refine ⟨decide_eq_false ?_, by omega, by omega, by omega⟩
      omega
    exact hgeneral d hhead
  have hnumber := readNumber_integerText n hc rest
  rw [hd, List.cons_append] at hnumber ⊢
  rw [readValue, skipSpace_cons hplain.1]
  dsimp only
  rw [if_neg hplain.2.1, if_neg hplain.2.2.1, if_neg hplain.2.2.2, readWord_of_head hhead, hnumber]
  rfl

/-- Names with their written values, one after the other. -/
def membersText : List (Text × Text) → Text
  | [] => []
  | [m] => quoted m.1 ++ 58 :: m.2
  | m :: m' :: ms => quoted m.1 ++ 58 :: (m.2 ++ 44 :: membersText (m' :: ms))

def objectText (ms : List (Text × Text)) : Text := 123 :: (membersText ms ++ [125])

theorem skipSpace_quoted (t rest : Text) : skipSpace (quoted t ++ rest) = quoted t ++ rest := by
  rw [quoted, List.cons_append]
  exact skipSpace_cons rfl _

theorem readMembers_name (fuel : ℕ) (name t : Text) :
    readMembers (fuel + 1) (quoted name ++ 58 :: t) = (readValue fuel t).bind fun r =>
      match skipSpace r.2 with
      | [] => none
      | c :: t =>
        if c = 44 then (readMembers fuel t).map fun rest => ((name, r.1) :: rest.1, rest.2)
        else if c = 125 then some ([(name, r.1)], t)
        else none := by
  have hquoted : quoted name ++ 58 :: t = doubleQuote :: (escapeText name ++ doubleQuote :: 58 :: t) := by
    rw [quoted, List.cons_append, List.append_assoc, List.singleton_append]
  have hcolon : skipSpace (58 :: t) = 58 :: t := skipSpace_cons rfl t
  rw [readMembers, skipSpace_quoted, hquoted, List.head?_cons, if_pos rfl, List.tail_cons, readText_escapeText,
    Option.bind_some]
  dsimp only
  rw [hcolon, List.head?_cons, if_pos rfl, List.tail_cons]

/-- Each member takes one unit of the fuel. -/
theorem readMembers_membersText {ms : List (Text × Text)} {vs : List (Text × JsonValue)}
    (h : List.Forall₂ (fun m v => m.1 = v.1 ∧ Writes m.2 v.2) ms vs) (hne : ms ≠ []) (hfuel : ms.length < fuel)
    (rest : Text) : readMembers fuel (membersText ms ++ 125 :: rest) = some (vs, rest) := by
  induction h generalizing fuel with
  | nil => exact absurd rfl hne
  | @cons m v ms vs hm hms ih =>
    obtain ⟨name, w⟩ := m
    obtain ⟨name', v⟩ := v
    obtain ⟨rfl, hw⟩ := hm
    obtain ⟨fuel, rfl⟩ : ∃ k, fuel = k + 2 := ⟨fuel - 2, by rw [List.length_cons] at hfuel; omega⟩
    cases hms with
    | nil =>
      have hlast : membersText [(name, w)] ++ 125 :: rest = quoted name ++ 58 :: (w ++ 125 :: rest) := by
        rw [membersText, List.append_assoc, List.cons_append]
      rw [hlast, readMembers_name, hw fuel 125 rest (Or.inr rfl), Option.bind_some]
      dsimp only
      rw [skipSpace_cons rfl]
      rfl
    | @cons m' v' ms vs hm' hms =>
      have hmore : membersText ((name, w) :: m' :: ms) ++ 125 :: rest =
          quoted name ++ 58 :: (w ++ 44 :: (membersText (m' :: ms) ++ 125 :: rest)) := by
        rw [membersText, List.append_assoc, List.cons_append, List.append_assoc, List.cons_append]
      have hrest : readMembers (fuel + 1) (membersText (m' :: ms) ++ 125 :: rest) = some (v' :: vs, rest) :=
        ih (List.cons_ne_nil _ _) (by rw [List.length_cons] at hfuel; omega)
      rw [hmore, readMembers_name, hw fuel 44 _ (Or.inl rfl), Option.bind_some]
      dsimp only
      rw [skipSpace_cons rfl]
      dsimp only
      rw [if_pos rfl, hrest]
      rfl

theorem length_membersText (ms : List (Text × Text)) : ms.length ≤ (membersText ms).length := by
  induction ms using membersText.induct with
  | case1 => exact Nat.le_refl _
  | case2 m =>
    simp only [membersText, List.length_append, List.length_cons, List.length_nil]
    omega
  | case3 m m' ms ih =>
    simp only [membersText, List.length_append, List.length_cons] at ih ⊢
    omega

/-- An object that was written is read again. -/
theorem parse_objectText {ms : List (Text × Text)} {vs : List (Text × JsonValue)}
    (h : List.Forall₂ (fun m v => m.1 = v.1 ∧ Writes m.2 v.2) ms vs) (hne : ms ≠ []) :
    parse (objectText ms) = some (.object vs) := by
  have hstart : ∃ t, membersText ms ++ [125] = doubleQuote :: t := by
    cases ms with
    | nil => exact absurd rfl hne
    | cons m ms =>
      cases ms with
      | nil => exact ⟨_, by rw [membersText, quoted, List.cons_append, List.cons_append]⟩
      | cons m' ms => exact ⟨_, by rw [membersText, quoted, List.cons_append, List.cons_append]⟩
  obtain ⟨t, ht⟩ := hstart
  have hskip : skipSpace (membersText ms ++ [125]) = membersText ms ++ [125] := by
    rw [ht]
    exact skipSpace_cons rfl t
  have hhead : (membersText ms ++ [125]).head? ≠ some 125 := by
    rw [ht, List.head?_cons]
    decide
  have hlength := length_membersText ms
  have hfuel : ms.length < 2 * (objectText ms).length + 1 := by
    rw [objectText, List.length_cons, List.length_append]
    omega
  have hread := readMembers_membersText h hne hfuel []
  rw [parse, readValue, objectText, skipSpace_cons rfl]
  dsimp only
  rw [if_neg (by decide), if_neg (by decide), if_pos rfl, hskip, if_neg hhead]
  rw [objectText] at hread
  rw [hread]
  rfl

end

end JsonValues

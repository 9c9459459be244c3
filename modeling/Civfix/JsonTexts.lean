import Civfix.CodeUnits

/-! # JSON texts

Strings, numbers and arrays as `JSON.stringify` writes them. Each ends where it says, so that what stands one after the
other in a text can be told apart. -/
namespace JsonTexts

open CodeUnits

/-- A text that starts with the code of a value starts with no other one. -/
def SelfDelimiting {α : Type} (encode : α → Text) : Prop :=
  ∀ a b u v, encode a ++ u = encode b ++ v → a = b ∧ u = v

/-! ## Strings -/

def backslash : CodeUnit := 92

/-- `\uXXXX` -/
def unicodeEscape (c : ℕ) : Text :=
  [backslash, 117, hexDigit (c / 4096 % 16), hexDigit (c / 256 % 16), hexDigit (c / 16 % 16), hexDigit (c % 16)]

/-- The short escapes, by the code unit and the letter that stands for it. -/
def shortEscapes : List (CodeUnit × CodeUnit) :=
  [(34, 34), (92, 92), (8, 98), (9, 116), (10, 110), (12, 102), (13, 114)]

def isHigh (c : ℕ) : Bool := decide (55296 ≤ c ∧ c ≤ 56319)

def isLow (c : ℕ) : Bool := decide (56320 ≤ c ∧ c ≤ 57343)

/-- A code unit that is no part of a surrogate pair. -/
def escapeUnit (c : ℕ) : Text :=
  match shortEscapes.find? fun e => decide (e.1 = c) with
  | some e => [backslash, e.2]
  | none => if c < 32 ∨ isHigh c ∨ isLow c then unicodeEscape c else [c]

def escapeText : Text → Text
  | [] => []
  | [c] => escapeUnit c
  | c :: d :: t =>
    if isHigh c ∧ isLow d then c :: d :: escapeText t else escapeUnit c ++ escapeText (d :: t)

def quoted (t : Text) : Text := doubleQuote :: (escapeText t ++ [doubleQuote])

/-- The four digits of a long escape. -/
def hexUnits (h₁ h₂ h₃ h₄ : ℕ) : Option CodeUnit :=
  if [h₁, h₂, h₃, h₄].all isHexDigit then some (hexValue [h₁, h₂, h₃, h₄]) else none

def shortEscape (e : ℕ) : Option CodeUnit :=
  if e = 47 then some 47 else (shortEscapes.find? fun p => decide (p.2 = e)).map Prod.fst

/-- Reads a string after its first double quote; what follows the string is returned with it. -/
def readText : Text → Option (Text × Text)
  | [] => none
  | c :: t =>
    if c = doubleQuote then some ([], t)
    else if c < 32 then none
    else if c = backslash then match t with
      | 117 :: h₁ :: h₂ :: h₃ :: h₄ :: t =>
        (hexUnits h₁ h₂ h₃ h₄).bind fun u => (readText t).map fun x => (u :: x.1, x.2)
      | e :: t => (shortEscape e).bind fun u => (readText t).map fun x => (u :: x.1, x.2)
      | [] => none
    else (readText t).map fun x => (c :: x.1, x.2)

variable {c d : ℕ} {t u rest : Text}

theorem readText_plain (hquote : c ≠ doubleQuote) (hcontrol : ¬c < 32) (hslash : c ≠ backslash) (t : Text) :
    readText (c :: t) = (readText t).map fun x => (c :: x.1, x.2) := by
  rw [readText.eq_def]
  simp only [if_neg hquote, if_neg hcontrol, if_neg hslash]

theorem readText_quote (t : Text) : readText (doubleQuote :: t) = some ([], t) := by
  rw [readText.eq_def]
  simp only [if_true]

theorem readText_unicodeEscape (h : c < 65536) (t : Text) :
    readText (unicodeEscape c ++ t) = (readText t).map fun x => (c :: x.1, x.2) := by
  have hvalue : hexUnits (hexDigit (c / 4096 % 16)) (hexDigit (c / 256 % 16)) (hexDigit (c / 16 % 16))
      (hexDigit (c % 16)) = some c := by
    have hdigit : ∀ n, isHexDigit (hexDigit (n % 16)) = true ∧ hexDigitValue (hexDigit (n % 16)) = n % 16 := by
      intro n
      have hn : n % 16 < 16 := Nat.mod_lt _ (by decide)
      exact ⟨isHexDigit_of_lowerHex (isLowerHex_hexDigit hn), hexDigitValue_hexDigit hn⟩
    have hsum : c % 16 + 16 * (c / 16 % 16 + 16 * (c / 256 % 16 + 16 * (c / 4096 % 16))) = c := by omega
    simp only [hexUnits, List.all_cons, hdigit, List.all_nil, Bool.and_self, if_true, hexValue, List.reverse_cons,
      List.reverse_nil, List.nil_append, List.cons_append, List.map_cons, List.map_nil, Nat.ofDigits_cons,
      Nat.ofDigits_nil, Nat.mul_zero, Nat.add_zero, hsum]
  simp only [unicodeEscape, List.cons_append, List.nil_append]
  rw [readText.eq_def]
  simp only [if_neg (show backslash ≠ doubleQuote by decide), if_neg (show ¬backslash < 32 by decide), if_true, hvalue,
    Option.bind_some]

theorem readText_escapeUnit (c : ℕ) (t : Text) :
    readText (escapeUnit c ++ t) = (readText t).map fun x => (c :: x.1, x.2) := by
  unfold escapeUnit
  split
  · next e he =>
    -- Each letter stands for its own code unit, and none of them is the `u` of the long escape.
    have hshort : ∀ e ∈ shortEscapes, e.2 ≠ 117 ∧ shortEscape e.2 = some e.1 := by decide
    obtain ⟨hne, hfind⟩ := hshort e (List.mem_of_find?_eq_some he)
    have hc : e.1 = c := by simpa using List.find?_some he
    rw [List.cons_append, List.singleton_append, readText.eq_def]
    simp only [if_neg (show backslash ≠ doubleQuote by decide), if_neg (show ¬backslash < 32 by decide), if_true]
    split
    · next heq => exact absurd (List.cons.inj heq).1 hne
    · next heq =>
      obtain ⟨rfl, rfl⟩ := List.cons.inj heq
      rw [hfind, Option.bind_some, hc]
    · next heq => cases heq
  · next hnone =>
    split
    · next hlong =>
      refine readText_unicodeEscape ?_ t
      simp only [isHigh, isLow, decide_eq_true_eq] at hlong
      omega
    · next hplain =>
      have hshort := List.find?_eq_none.mp hnone
      have hquote : c ≠ doubleQuote := fun heq =>
        hshort (34, 34) (by decide) (decide_eq_true heq.symm)
      have hslash : c ≠ backslash := fun heq =>
        hshort (92, 92) (by decide) (decide_eq_true heq.symm)
      exact readText_plain hquote (fun hlt => hplain (Or.inl hlt)) hslash t

/-- A string that was written is read again, whatever follows it. -/
theorem readText_escapeText (t rest : Text) : readText (escapeText t ++ doubleQuote :: rest) = some (t, rest) := by
  induction t using escapeText.induct with
  | case1 => exact readText_quote rest
  | case2 c =>
    rw [escapeText, readText_escapeUnit, readText_quote]
    rfl
  | case3 c d t hpair ih =>
    have hplain : ∀ {c : ℕ}, 55296 ≤ c → c ≠ doubleQuote ∧ ¬c < 32 ∧ c ≠ backslash := by
      intro c hc
      refine ⟨fun heq => ?_, by omega, fun heq => ?_⟩
      · rw [heq] at hc
        exact absurd hc (by decide)
      · rw [heq] at hc
        exact absurd hc (by decide)
    obtain ⟨hquote, hcontrol, hslash⟩ := hplain (of_decide_eq_true hpair.1).1
    obtain ⟨hquote', hcontrol', hslash'⟩ := hplain (Nat.le_trans (by decide) (of_decide_eq_true hpair.2).1)
    rw [escapeText, if_pos hpair, List.cons_append, List.cons_append, readText_plain hquote hcontrol hslash,
      readText_plain hquote' hcontrol' hslash', ih]
    rfl
  | case4 c d t hpair ih =>
    rw [escapeText, if_neg hpair, List.append_assoc, readText_escapeUnit, ih]
    rfl

theorem selfDelimiting_quoted : SelfDelimiting quoted := by
  intro a b u v h
  simp only [quoted, List.cons_append, List.append_assoc, List.cons.injEq, true_and] at h
  have hread := congrArg readText h
  simp only [List.nil_append, readText_escapeText, Option.some.injEq, Prod.mk.injEq] at hread
  exact hread

/-- `null` for what is absent. -/
def nullable : Option Text → Text
  | none => text "null"
  | some t => quoted t

theorem selfDelimiting_nullable : SelfDelimiting nullable := by
  intro a b u v h
  cases a with
  | none =>
    cases b with
    | none => exact ⟨rfl, List.append_cancel_left h⟩
    | some t => exact absurd (List.cons.inj h).1 (by decide)
  | some t =>
    cases b with
    | none => exact absurd (List.cons.inj h).1 (by decide)
    | some t' =>
      obtain ⟨rfl, hrest⟩ := selfDelimiting_quoted t t' u v h
      exact ⟨rfl, hrest⟩

/-! ## Numbers -/

/-- Natural numbers are told apart by what follows them, if that is no digit. -/
theorem decimal_append {n m : ℕ} {x y : CodeUnit} {u v : Text} (hx : isDigit x = false) (hy : isDigit y = false)
    (h : decimal n ++ x :: u = decimal m ++ y :: v) : n = m ∧ x :: u = y :: v := by
  have htake : ∀ {n : ℕ} {x : CodeUnit} {u : Text}, isDigit x = false →
      (decimal n ++ x :: u).takeWhile isDigit = decimal n := by
    intro n x u hx
    rw [List.takeWhile_append_of_pos fun c hc => isDigit_of_decimal hc, List.takeWhile_cons_of_neg (by simp [hx]),
      List.append_nil]
  have hdigits : decimal n = decimal m := by
    rw [← htake (u := u) hx, h, htake hy]
  have hsame : n = m := by
    rw [← value_decimal n, hdigits, value_decimal]
  subst hsame
  exact ⟨rfl, List.append_cancel_left h⟩

/-- The text of a whole number. -/
def integerText (n : ℤ) : Text := if n < 0 then 45 :: decimal n.natAbs else decimal n.natAbs

theorem minus_ne_decimal (t : Text) (n : ℕ) (u : Text) : 45 :: t ≠ decimal n ++ u := by
  intro heq
  obtain ⟨c, v, hc⟩ := List.exists_cons_of_ne_nil (decimal_ne_nil n)
  have hdigit : isDigit c = true := isDigit_of_decimal (n := n) (by rw [hc]; exact List.mem_cons_self)
  rw [hc, List.cons_append, List.cons.injEq] at heq
  rw [← heq.1] at hdigit
  exact absurd hdigit (by decide)

theorem integerText_append {n m : ℤ} {x y : CodeUnit} {u v : Text} (hx : isDigit x = false) (hy : isDigit y = false)
    (h : integerText n ++ x :: u = integerText m ++ y :: v) : n = m ∧ x :: u = y :: v := by
  unfold integerText at h
  split at h
  · next hn =>
    split at h
    · next hm =>
      rw [List.cons_append, List.cons_append, List.cons.injEq] at h
      obtain ⟨habs, hrest⟩ := decimal_append hx hy h.2
      exact ⟨by omega, hrest⟩
    · exact absurd h (minus_ne_decimal _ _ _)
  · next hn =>
    split at h
    · exact absurd h.symm (minus_ne_decimal _ _ _)
    · next hm =>
      obtain ⟨habs, hrest⟩ := decimal_append hx hy h
      exact ⟨by omega, hrest⟩

theorem integerText_injective : Function.Injective integerText := by
  intro n m h
  have happend : integerText n ++ 58 :: [] = integerText m ++ 58 :: [] := by rw [h]
  exact (integerText_append rfl rfl happend).1

/-! ## Arrays -/

def closing : CodeUnit := 93

/-- The elements of an array, with the bracket that closes it. -/
def elements {α : Type} (encode : α → Text) : List α → Text
  | [] => [closing]
  | [a] => encode a ++ [closing]
  | a :: b :: l => encode a ++ text "," ++ elements encode (b :: l)

def array {α : Type} (encode : α → Text) (l : List α) : Text := text "[" ++ elements encode l

theorem elements_append {α : Type} {encode : α → Text} (h : SelfDelimiting encode)
    (hopen : ∀ a u, (encode a ++ u).head? ≠ some closing) {l l' : List α} {u v : Text}
    (heq : elements encode l ++ u = elements encode l' ++ v) : l = l' ∧ u = v := by
  have hclosing : ∀ {a : α} {u v : Text}, encode a ++ u ≠ closing :: v := by
    intro a u v heq
    exact hopen a u (by rw [heq]; rfl)
  induction l using elements.induct generalizing l' with
  | case1 =>
    cases l' with
    | nil => exact ⟨rfl, (List.cons.inj heq).2⟩
    | cons b l' =>
      cases l' with
      | nil =>
        simp only [elements, List.append_assoc] at heq
        exact absurd heq.symm hclosing
      | cons b' l' =>
        simp only [elements, List.append_assoc] at heq
        exact absurd heq.symm hclosing
  | case2 a =>
    cases l' with
    | nil =>
      simp only [elements, List.append_assoc] at heq
      exact absurd heq hclosing
    | cons b l' =>
      cases l' with
      | nil =>
        simp only [elements, List.append_assoc] at heq
        obtain ⟨rfl, hrest⟩ := h _ _ _ _ heq
        exact ⟨rfl, (List.cons.inj hrest).2⟩
      | cons b' l' =>
        simp only [elements, List.append_assoc] at heq
        exact absurd (List.cons.inj (h _ _ _ _ heq).2).1 (by decide)
  | case3 a a' l ih =>
    cases l' with
    | nil =>
      simp only [elements, List.append_assoc] at heq
      exact absurd heq hclosing
    | cons b l' =>
      cases l' with
      | nil =>
        simp only [elements, List.append_assoc] at heq
        exact absurd (List.cons.inj (h _ _ _ _ heq).2).1 (by decide)
      | cons b' l' =>
        simp only [elements, List.append_assoc] at heq
        obtain ⟨rfl, hrest⟩ := h _ _ _ _ heq
        obtain ⟨hl, hu⟩ := ih (List.append_cancel_left hrest)
        exact ⟨congrArg (a :: ·) hl, hu⟩

theorem selfDelimiting_array {α : Type} {encode : α → Text} (h : SelfDelimiting encode)
    (hopen : ∀ a u, (encode a ++ u).head? ≠ some closing) : SelfDelimiting (array encode) := by
  intro l l' u v heq
  simp only [array, List.append_assoc] at heq
  exact elements_append h hopen (List.append_cancel_left heq)

theorem head_quoted (t u : Text) : (quoted t ++ u).head? ≠ some closing := by
  simp only [quoted, List.cons_append, List.head?_cons, ne_eq, Option.some.injEq]
  decide

theorem head_array {α : Type} (encode : α → Text) (l : List α) (u : Text) :
    (array encode l ++ u).head? ≠ some closing := by
  simp only [array, List.append_assoc]
  change some 91 ≠ some closing
  decide

end JsonTexts

import Mathlib.Data.List.DropRight
import Mathlib.Data.List.Lex
import Mathlib.Data.Nat.Digits.Lemmas

/-! # Texts

A text is the list of its UTF-16 code units, so a text of a program that handles such strings is any list of numbers
here. -/
namespace CodeUnits

abbrev CodeUnit := ℕ
abbrev Text := List CodeUnit

instance : LawfulBEq Text := List.instLawfulBEq

/-- The text of a literal with characters below U+10000. -/
def text (s : String) : Text := s.toList.map Char.toNat

/-! ## Classes of code units -/

def isDigit (c : ℕ) : Bool := decide (48 ≤ c ∧ c ≤ 57)

def isUpper (c : ℕ) : Bool := decide (65 ≤ c ∧ c ≤ 90)

def isLower (c : ℕ) : Bool := decide (97 ≤ c ∧ c ≤ 122)

def isAlnum (c : ℕ) : Bool := isDigit c || isUpper c || isLower c

/-- White space and line terminators. -/
def isSpace (c : ℕ) : Bool :=
  [9, 10, 11, 12, 13, 32, 160, 5760, 8232, 8233, 8239, 8287, 12288, 65279].contains c || decide (8192 ≤ c ∧ c ≤ 8202)

def newline : CodeUnit := 10

def doubleQuote : CodeUnit := 34

def hyphen : CodeUnit := 45

def dot : CodeUnit := 46

/-- An ASCII letter in upper case. -/
def upper (c : ℕ) : ℕ := if isLower c then c - 32 else c

/-- An ASCII letter in lower case. -/
def lower (c : ℕ) : ℕ := if isUpper c then c + 32 else c

def trim (t : Text) : Text := (t.dropWhile isSpace).rdropWhile isSpace

def decimal (n : ℕ) : Text := if n = 0 then [48] else (Nat.digits 10 n).reverse.map (48 + ·)

def padStart (width : ℕ) (fill : CodeUnit) (t : Text) : Text := List.replicate (width - t.length) fill ++ t

section

variable {c d : ℕ}

theorem isAlnum_iff : isAlnum c = true ↔ (48 ≤ c ∧ c ≤ 57) ∨ (65 ≤ c ∧ c ≤ 90) ∨ (97 ≤ c ∧ c ≤ 122) := by
  simp only [isAlnum, isUpper, isLower, isDigit, Bool.or_eq_true, decide_eq_true_eq, or_assoc]

/-- No letter or digit is white space. -/
theorem isSpace_of_alnum (h : isAlnum c = true) : isSpace c = false := by
  rw [isAlnum_iff] at h
  rw [Bool.eq_false_iff]
  intro hspace
  simp only [isSpace, List.contains_cons, List.contains_nil, Bool.or_eq_true, beq_iff_eq, decide_eq_true_eq,
    Bool.false_eq_true, or_false] at hspace
  omega

end

/-! ## Numbers -/

/-- The number that digits stand for. -/
def value (t : Text) : ℕ := Nat.ofDigits 10 (t.reverse.map (· - 48))

theorem value_decimal (n : ℕ) : value (decimal n) = n := by
  rw [decimal]
  split
  · next hzero => rw [hzero]; rfl
  · have hsame : ((Nat.digits 10 n).map (48 + ·)).map (· - 48) = Nat.digits 10 n := by
      rw [List.map_map]
      exact List.map_id'' (fun d => Nat.add_sub_cancel_left 48 d) _
    rw [value]
    simp only [List.map_reverse, List.reverse_reverse, hsame]
    exact Nat.ofDigits_digits 10 n

theorem value_padStart (width n : ℕ) : value (padStart width 48 (decimal n)) = n := by
  have hzeros : ∀ k t, value (List.replicate k 48 ++ t) = value t := by
    intro k t
    simp [value, Nat.ofDigits_append]
  rw [padStart, hzeros, value_decimal]

theorem isDigit_of_decimal {n c : ℕ} (h : c ∈ decimal n) : isDigit c = true := by
  rw [decimal] at h
  split at h
  · cases List.mem_singleton.mp h
    decide
  · obtain ⟨d, hd, rfl⟩ := List.mem_map.mp h
    have hlt : (d : ℕ) < 10 := Nat.digits_lt_base (by omega) (List.mem_reverse.mp hd)
    exact decide_eq_true ⟨Nat.le_add_right 48 d, Nat.add_le_add_left (Nat.le_of_lt_succ hlt) 48⟩

theorem isDigit_of_padStart {width n c : ℕ} (h : c ∈ padStart width 48 (decimal n)) : isDigit c = true := by
  rcases List.mem_append.mp h with h | h
  · rw [List.eq_of_mem_replicate h]
    decide
  · exact isDigit_of_decimal h

theorem decimal_ne_nil (n : ℕ) : decimal n ≠ [] := by
  rw [decimal]
  split
  · exact List.cons_ne_nil _ _
  · next hne => simpa [Nat.digits_ne_nil_iff_ne_zero] using hne

theorem length_padStart {width n : ℕ} (hpos : 0 < width) (h : n < 10 ^ width) :
    (padStart width 48 (decimal n)).length = width := by
  have hle : (decimal n).length ≤ width := by
    rw [decimal]
    split
    · exact hpos
    · rw [List.length_map, List.length_reverse]
      exact (Nat.digits_length_le_iff (by omega) n).mpr h
  rw [padStart, List.length_append, List.length_replicate]
  omega

theorem value_append (t u : Text) : value (t ++ u) = value t * 10 ^ u.length + value u := by
  simp only [value, List.reverse_append, List.map_append, Nat.ofDigits_append, List.length_map, List.length_reverse]
  rw [Nat.add_comm, Nat.mul_comm]

theorem value_lt {t : Text} (h : ∀ c ∈ t, isDigit c = true) : value t < 10 ^ t.length := by
  have hlt := Nat.ofDigits_lt_base_pow_length (b := 10) (l := t.reverse.map (· - 48)) (by omega) (by
    intro d hd
    obtain ⟨c, hc, rfl⟩ := List.mem_map.mp hd
    have hdigit := of_decide_eq_true (h c (List.mem_reverse.mp hc))
    omega)
  rwa [List.length_map, List.length_reverse] at hlt

/-! ## Hexadecimal numbers -/

/-- A hexadecimal digit in lower case. -/
def isLowerHex (c : ℕ) : Bool := isDigit c || decide (97 ≤ c ∧ c ≤ 102)

/-- A hexadecimal digit of either case. -/
def isHexDigit (c : ℕ) : Bool := isLowerHex (lower c)

/-- `/^[0-9a-f]{8}-[0-9a-f]{4}-[0-9a-f]{4}-[0-9a-f]{4}-[0-9a-f]{12}$/i`. -/
def isUuid (t : Text) : Bool :=
  decide (t.length = 36) && t.zipIdx.all fun c => if [8, 13, 18, 23].contains c.2 then c.1 = hyphen else isHexDigit c.1

def hexDigitValue (c : ℕ) : ℕ := if isDigit c then c - 48 else lower c - 87

/-- The number that hexadecimal digits stand for. -/
def hexValue (t : Text) : ℕ := Nat.ofDigits 16 (t.reverse.map hexDigitValue)

def hexDigit (d : ℕ) : CodeUnit := if d < 10 then 48 + d else 87 + d

/-- A number in hexadecimal digits, without leading zeros. -/
def hexText (n : ℕ) : Text := if n = 0 then [48] else (Nat.digits 16 n).reverse.map hexDigit

section

variable {c d n : ℕ} {t : Text}

theorem lower_lower (c : ℕ) : lower (lower c) = lower c := by
  simp only [lower, isUpper, decide_eq_true_eq]
  split_ifs <;> omega

theorem lower_of_lowerHex (h : isLowerHex c = true) : lower c = c := by
  simp only [isLowerHex, isDigit, Bool.or_eq_true, decide_eq_true_eq] at h
  simp only [lower, isUpper, decide_eq_true_eq]
  split <;> omega

theorem lower_of_digit (h : isDigit c = true) : lower c = c :=
  lower_of_lowerHex (by rw [isLowerHex, h, Bool.true_or])

theorem isHexDigit_of_lowerHex (h : isLowerHex c = true) : isHexDigit c = true := by
  rw [isHexDigit, lower_of_lowerHex h, h]

theorem isDigit_lower (c : ℕ) : isDigit (lower c) = isDigit c := by
  simp only [lower, isUpper, isDigit, decide_eq_true_eq, decide_eq_decide]
  split <;> omega

theorem hexDigitValue_lower (c : ℕ) : hexDigitValue (lower c) = hexDigitValue c := by
  simp only [hexDigitValue, isDigit_lower, lower_lower]
  split
  · next hdigit => rw [lower_of_digit hdigit]
  · rfl

/-- Only a letter is changed, and into a letter. -/
theorem eq_of_lower_eq (hd : isAlnum d = false) (h : lower c = d) : c = d := by
  rw [lower] at h
  split at h
  · next hupper =>
    have hletter : isAlnum d = true := by
      rw [isUpper, decide_eq_true_eq] at hupper
      rw [isAlnum_iff]
      omega
    rw [hletter] at hd
    exact absurd hd (by decide)
  · exact h

theorem hexValue_lower (t : Text) : hexValue (t.map lower) = hexValue t := by
  have hsame : hexDigitValue ∘ lower = hexDigitValue := funext hexDigitValue_lower
  rw [hexValue, ← List.map_reverse, List.map_map, hsame, hexValue]

theorem hexDigitValue_lt (h : isHexDigit c = true) : hexDigitValue c < 16 := by
  simp only [isHexDigit, isLowerHex, isDigit_lower, Bool.or_eq_true, decide_eq_true_eq] at h
  rw [hexDigitValue]
  split
  · next hdigit =>
    have hrange := of_decide_eq_true hdigit
    omega
  · next hletter =>
    have hrange := h.resolve_left hletter
    omega

theorem hexValue_lt (h : ∀ c ∈ t, isHexDigit c = true) : hexValue t < 16 ^ t.length := by
  have hlt := Nat.ofDigits_lt_base_pow_length (b := 16) (l := t.reverse.map hexDigitValue) (by omega) (by
    intro d hd
    obtain ⟨c, hc, rfl⟩ := List.mem_map.mp hd
    exact hexDigitValue_lt (h c (List.mem_reverse.mp hc)))
  rwa [List.length_map, List.length_reverse] at hlt

theorem isLowerHex_hexDigit (h : d < 16) : isLowerHex (hexDigit d) = true := by
  have hall : ∀ d < 16, isLowerHex (hexDigit d) = true := by decide
  exact hall d h

theorem hexDigitValue_hexDigit (h : d < 16) : hexDigitValue (hexDigit d) = d := by
  have hall : ∀ d < 16, hexDigitValue (hexDigit d) = d := by decide
  exact hall d h

theorem isLowerHex_of_hexText (h : c ∈ hexText n) : isLowerHex c = true := by
  rw [hexText] at h
  split at h
  · cases List.mem_singleton.mp h
    decide
  · obtain ⟨d, hd, rfl⟩ := List.mem_map.mp h
    exact isLowerHex_hexDigit (Nat.digits_lt_base (by omega) (List.mem_reverse.mp hd))

theorem hexValue_hexText (n : ℕ) : hexValue (hexText n) = n := by
  rw [hexText]
  split
  · next hzero => rw [hzero]; rfl
  · have hsame : ((Nat.digits 16 n).map hexDigit).map hexDigitValue = Nat.digits 16 n := by
      rw [List.map_map]
      refine (List.map_congr_left fun d hd => ?_).trans (List.map_id _)
      exact hexDigitValue_hexDigit (Nat.digits_lt_base (by omega) hd)
    rw [hexValue]
    simp only [List.map_reverse, List.reverse_reverse, hsame]
    exact Nat.ofDigits_digits 16 n

theorem hexText_ne_nil (n : ℕ) : hexText n ≠ [] := by
  rw [hexText]
  split
  · exact List.cons_ne_nil _ _
  · next hne => simpa [Nat.digits_ne_nil_iff_ne_zero] using hne

/-- Sixteen bits take at most four digits. -/
theorem length_hexText_le (h : n < 65536) : (hexText n).length ≤ 4 := by
  rw [hexText]
  split
  · decide
  · rw [List.length_map, List.length_reverse]
    exact (Nat.digits_length_le_iff (by omega) n).mpr h

end

/-! ## Parts between separators -/

section

variable {sep : CodeUnit} {t part : Text}

/-- A text without separators goes before the first part. -/
theorem splitOn_prepend (h : sep ∉ t) (u : Text) : (t ++ u).splitOn sep = (u.splitOn sep).modifyHead (t ++ ·) := by
  induction t with
  | nil =>
    obtain ⟨l, ls, hu⟩ := List.exists_cons_of_ne_nil (List.splitOn_ne_nil sep u)
    simp only [List.nil_append, hu, List.modifyHead_cons]
  | cons c t ih =>
    have hc : (c == sep) = false := by
      rw [beq_eq_false_iff_ne]
      exact fun heq => h (heq ▸ List.mem_cons_self)
    have hcons : (c :: (t ++ u)).splitOn sep = ((t ++ u).splitOn sep).modifyHead (c :: ·) := by
      rw [List.splitOn_cons_eq_if_modifyHead, hc]
      rfl
    rw [List.cons_append, hcons, ih fun hmem => h (List.mem_cons_of_mem _ hmem), List.modifyHead_modifyHead]
    rfl

theorem not_mem_of_mem_splitOn (h : part ∈ t.splitOn sep) : sep ∉ part := by
  induction t generalizing part with
  | nil =>
    cases List.mem_singleton.mp h
    exact List.not_mem_nil
  | cons c t ih =>
    rw [List.splitOn_cons_eq_if_modifyHead] at h
    split at h
    · rcases List.mem_cons.mp h with rfl | h
      · exact List.not_mem_nil
      · exact ih h
    · next hc =>
      obtain ⟨first, rest, hparts⟩ := List.exists_cons_of_ne_nil (List.splitOn_ne_nil sep t)
      rw [hparts, List.modifyHead_cons] at h
      rcases List.mem_cons.mp h with rfl | h
      · intro hmem
        rcases List.mem_cons.mp hmem with rfl | hmem
        · exact hc (beq_self_eq_true sep)
        · exact ih (hparts ▸ List.mem_cons_self) hmem
      · exact ih (hparts ▸ List.mem_cons_of_mem first h)

end

/-! ## Lines -/

def lines (t : Text) : List Text := t.splitOn newline

def unlines (ls : List Text) : Text := [newline].intercalate ls

variable {t u : Text} {l : Text} {ls : List Text}

@[simp] theorem unlines_lines (t : Text) : unlines (lines t) = t := List.intercalate_splitOn newline

theorem lines_ne_nil (t : Text) : lines t ≠ [] := List.splitOn_ne_nil newline t

theorem unlines_cons (h : ls ≠ []) : unlines (l :: ls) = l ++ newline :: unlines ls := by
  simp only [unlines, List.intercalate_cons_of_ne_nil h, List.append_assoc, List.singleton_append]

theorem unlines_eq (l : Text) (ls : List Text) : unlines (l :: ls) = l ++ ls.flatMap (newline :: ·) := by
  induction ls generalizing l with
  | nil => simp only [unlines, List.intercalate_singleton, List.flatMap_nil, List.append_nil]
  | cons l' ls ih => rw [unlines_cons (List.cons_ne_nil l' ls), ih, List.flatMap_cons, List.cons_append]

/-- The lines before and after a line break. -/
theorem lines_append (t u : Text) : lines (t ++ newline :: u) = lines t ++ lines u :=
  List.splitOn_append_cons_self t u

/-- A text without line breaks goes before the first line. -/
theorem lines_prepend (h : newline ∉ t) (u : Text) : lines (t ++ u) = (lines u).modifyHead (t ++ ·) := splitOn_prepend h u

theorem newline_not_mem_of_mem_lines (h : l ∈ lines t) : newline ∉ l := not_mem_of_mem_splitOn h

theorem infix_unlines_of_mem (h : l ∈ ls) : l <:+: unlines ls := by
  induction ls with
  | nil => cases h
  | cons l' ls ih =>
    rw [unlines_eq]
    rcases List.mem_cons.mp h with rfl | h
    · exact List.infix_append_left
    · cases ls with
      | nil => cases h
      | cons l'' ls =>
        rw [← unlines_eq, unlines_cons (List.cons_ne_nil l'' ls)]
        exact List.infix_append_of_infix_right (List.infix_cons (ih h))

/-- A text without line breaks stands in one line. -/
theorem exists_line_of_infix {w : Text} (hw : newline ∉ w) (hne : ls ≠ []) (h : w <:+: unlines ls) :
    ∃ l ∈ ls, w <:+: l := by
  induction ls with
  | nil => exact absurd rfl hne
  | cons l ls ih =>
    cases ls with
    | nil =>
      rw [unlines, List.intercalate_singleton] at h
      exact ⟨l, List.mem_cons_self, h⟩
    | cons l' ls =>
      rw [unlines_cons (List.cons_ne_nil l' ls), List.infix_append_iff] at h
      have hlater : w <:+: unlines (l' :: ls) → ∃ m ∈ l :: l' :: ls, w <:+: m := fun h =>
        (ih (List.cons_ne_nil l' ls) h).imp fun _ hm => ⟨List.mem_cons_of_mem l hm.1, hm.2⟩
      rcases h with h | h | ⟨x, y, rfl, hx, hy⟩
      · exact ⟨l, List.mem_cons_self, h⟩
      · rcases List.infix_cons_iff.mp h with hstart | h
        · rcases List.prefix_cons_iff.mp hstart with rfl | ⟨v, rfl, -⟩
          · exact ⟨l, List.mem_cons_self, List.nil_infix⟩
          · exact absurd List.mem_cons_self hw
        · exact hlater h
      · rcases List.prefix_cons_iff.mp hy with rfl | ⟨v, rfl, -⟩
        · rw [List.append_nil]
          exact ⟨l, List.mem_cons_self, hx.isInfix⟩
        · exact absurd (List.mem_append_right x List.mem_cons_self) hw

/-- The first lines are at the start of the text. -/
theorem unlines_take_prefix (ls : List Text) (n : ℕ) : unlines (ls.take n) <+: unlines ls := by
  cases ls with
  | nil => rw [List.take_nil]
  | cons l ls =>
    cases n with
    | zero => exact List.nil_prefix
    | succ n =>
      rw [List.take_succ_cons, unlines_eq, unlines_eq, List.prefix_append_right_inj]
      refine ⟨(ls.drop n).flatMap (newline :: ·), ?_⟩
      rw [← List.flatMap_append, List.take_append_drop]

/-- A line after a blank one that is not the first. -/
theorem exists_line_iff {f : Text} (hf : newline ∉ f) (ht : lines t = l :: ls) :
    (∃ i, ls[i]? = some [] ∧ (ls[i + 1]?).any f.isPrefixOf) ↔ (newline :: newline :: f) <:+: t := by
  constructor
  · rintro ⟨i, hblank, hnext⟩
    obtain ⟨l', hl', hstarts⟩ := (Option.any_eq_true _ _).mp hnext
    obtain ⟨rest, hrest⟩ := List.isPrefixOf_iff_prefix.mp hstarts
    have hdrop : ls.drop i = [] :: l' :: ls.drop (i + 2) := by
      rw [List.drop_eq_getElem?_toList_append, hblank, List.drop_eq_getElem?_toList_append, hl']
      rfl
    have hls : ls = ls.take i ++ [] :: l' :: ls.drop (i + 2) := by rw [← hdrop, List.take_append_drop]
    refine ⟨l ++ (ls.take i).flatMap (newline :: ·), rest ++ (ls.drop (i + 2)).flatMap (newline :: ·), ?_⟩
    rw [← hrest] at hls
    have hpieces : ls.flatMap (newline :: ·) = (ls.take i).flatMap (newline :: ·) ++
        newline :: newline :: (f ++ rest) ++ (ls.drop (i + 2)).flatMap (newline :: ·) := by
      conv_lhs => rw [hls]
      simp only [List.flatMap_append, List.flatMap_cons, List.append_assoc, List.cons_append, List.nil_append]
    rw [← unlines_lines t, ht, unlines_eq, hpieces]
    simp only [List.append_assoc, List.cons_append]
  · rintro ⟨p, q, rfl⟩
    obtain ⟨p₀, ps, hp⟩ := List.exists_cons_of_ne_nil (lines_ne_nil p)
    obtain ⟨q₀, qs, hq⟩ := List.exists_cons_of_ne_nil (lines_ne_nil q)
    have hlines : lines (p ++ newline :: newline :: f ++ q) = p₀ :: (ps ++ [] :: (f ++ q₀) :: qs) := by
      have hsplit : p ++ newline :: newline :: f ++ q = p ++ newline :: ([] ++ newline :: (f ++ q)) := by simp
      rw [hsplit, lines_append, lines_append, lines_prepend hf, hp, hq]
      rfl
    obtain ⟨rfl, rfl⟩ := List.cons.inj (ht.symm.trans hlines)
    refine ⟨ps.length, by simp, ?_⟩
    rw [List.getElem?_append_right (Nat.le_succ _)]
    simp

theorem length_unlines_lt (h : ls ≠ []) : (unlines ls).length < (unlines (l :: ls)).length := by
  rw [unlines_cons h, List.length_append, List.length_cons]
  omega

/-- Fewer lines make a shorter text. -/
theorem length_unlines_drop_lt {i j : ℕ} (hij : i < j) (hj : j < ls.length) :
    (unlines (ls.drop j)).length < (unlines (ls.drop i)).length := by
  have hstep : ∀ i, i + 1 < ls.length → (unlines (ls.drop (i + 1))).length < (unlines (ls.drop i)).length := by
    intro i hi
    rw [List.drop_eq_getElem_cons (Nat.lt_of_succ_lt hi)]
    refine length_unlines_lt fun hnil => ?_
    have := List.drop_eq_nil_iff.mp hnil
    omega
  induction j with
  | zero => omega
  | succ j ih =>
    rcases Nat.lt_succ_iff_lt_or_eq.mp hij with hlt | rfl
    · exact Nat.lt_trans (hstep j hj) (ih hlt (Nat.lt_of_succ_lt hj))
    · exact hstep i hj

end CodeUnits

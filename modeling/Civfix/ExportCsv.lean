import Civfix.CodeUnits
import Civfix.DelimitedRecords

/-! # Cells of an export

A cell is escaped, quoted and joined into a row. What a spreadsheet makes of the row depends on the separator that it
reads, so a field may start after any separator, also inside a cell. -/
namespace Civfix.ExportCsv

open CodeUnits
open DelimitedRecords (doubled)

def FORMULA_ESCAPE : Text := text "'"

def triggers : Text := text "=+-@\t\r"

def separators : Text := text ";,\t\r\n"

def blanks : Text := text " \""

def comma : CodeUnit := 44

/-- The lookbehind of `SEPARATED_TRIGGER_RE`, on the text before a position in reverse. -/
def separated (before : Text) : Bool :=
  (before.dropWhile (fun c => decide (c ∈ blanks))).head?.any (fun c => decide (c ∈ separators))

/-- `value.replace(SEPARATED_TRIGGER_RE, FORMULA_ESCAPE)`, after `before`. -/
def escapeSeparated : Text → Text → Text
  | _, [] => []
  | before, c :: cs =>
    (if c ∈ triggers ∧ separated before then FORMULA_ESCAPE else []) ++ c :: escapeSeparated (c :: before) cs

def neutralizeFormulas (value : Text) : Text :=
  let separated := escapeSeparated [] value
  if separated.head?.any (fun c => decide (c ∈ triggers)) then FORMULA_ESCAPE ++ separated else separated

/-- A number comes with its text. -/
inductive Cell where
  | string (value : Text)
  | number (value : Text)
  | null

def csvCell : Cell → Text
  | .null => []
  | .number value => doubleQuote :: (doubled value ++ [doubleQuote])
  | .string value => doubleQuote :: (doubled (neutralizeFormulas value) ++ [doubleQuote])

def csvRow (cells : List Cell) : Text := [comma].intercalate (cells.map csvCell) ++ [newline]

/-! ## Where a field may start -/

/-- The text is the start of a row or ends in a separator, but for spaces and double quotes. -/
def StartsField (pre : Text) : Prop :=
  ∃ start gap, pre = start ++ gap ∧ (∀ c ∈ gap, c ∈ blanks) ∧ (start = [] ∨ ∃ s sep, start = s ++ [sep] ∧ sep ∈ separators)

/-- Whether a field may start after one more code unit. -/
def openNext (atStart : Bool) (c : CodeUnit) : Bool :=
  if c ∈ separators then true else if c ∈ blanks then atStart else false

def openAfter (atStart : Bool) (t : Text) : Bool := t.foldl openNext atStart

variable {b : Bool} {c : CodeUnit} {t x y pre before : Text}

theorem not_separator_of_blank (h : c ∈ blanks) : c ∉ separators := by
  have hdisjoint : ∀ c ∈ blanks, c ∉ separators := by decide
  exact hdisjoint c h

theorem openAfter_append (b : Bool) (x y : Text) : openAfter b (x ++ y) = openAfter (openAfter b x) y :=
  List.foldl_append

theorem openNext_of_separator (h : c ∈ separators) : openNext b c = true := if_pos h

theorem openNext_of_blank (h : c ∈ blanks) : openNext b c = b := by
  rw [openNext, if_neg (not_separator_of_blank h), if_pos h]

theorem openAfter_of_blanks (h : ∀ c ∈ t, c ∈ blanks) : openAfter b t = b := by
  induction t with
  | nil => rfl
  | cons c t ih =>
    change openAfter (openNext b c) t = b
    rw [openNext_of_blank (h c List.mem_cons_self)]
    exact ih fun c hc => h c (List.mem_cons_of_mem _ hc)

theorem openAfter_concat (b : Bool) (t : Text) (h : c ∈ separators) : openAfter b (t ++ [c]) = true := by
  rw [openAfter_append]
  exact openNext_of_separator h

theorem openAfter_of_startsField (h : StartsField pre) : openAfter true pre = true := by
  obtain ⟨start, gap, rfl, hgap, hstart⟩ := h
  rw [openAfter_append, openAfter_of_blanks hgap]
  rcases hstart with rfl | ⟨s, sep, rfl, hsep⟩
  · rfl
  · exact openAfter_concat true s hsep

theorem separated_cons (c : CodeUnit) (before : Text) : separated (c :: before) = openNext (separated before) c := by
  simp only [separated, openNext, List.dropWhile_cons, decide_eq_true_eq]
  by_cases hblank : c ∈ blanks
  · rw [if_pos hblank, if_neg (not_separator_of_blank hblank), if_pos hblank]
  · rw [if_neg hblank, if_neg hblank]
    by_cases hsep : c ∈ separators <;> simp [hsep]

/-! ## Exposed triggers -/

/-- The trigger after `pre` stands where a field may start. -/
def Exposed (b : Bool) (t pre : Text) (c : CodeUnit) : Prop :=
  (∃ post, t = pre ++ c :: post) ∧ c ∈ triggers ∧ openAfter b pre = true

theorem exposed_append (h : Exposed b (x ++ y) pre c) :
    Exposed b x pre c ∨ ∃ pre', pre = x ++ pre' ∧ Exposed (openAfter b x) y pre' c := by
  obtain ⟨⟨post, heq⟩, htrigger, hopen⟩ := h
  rcases List.append_eq_append_iff.mp heq with ⟨pre', rfl, hy⟩ | ⟨z, hx, hz⟩
  · rw [openAfter_append] at hopen
    exact .inr ⟨pre', rfl, ⟨post, hy⟩, htrigger, hopen⟩
  · cases z with
    | nil =>
      rw [List.append_nil] at hx
      subst hx
      exact .inr ⟨[], (List.append_nil _).symm, ⟨post, hz.symm⟩, htrigger, hopen⟩
    | cons c' z =>
      cases hz
      exact .inl ⟨⟨z, hx⟩, htrigger, hopen⟩

theorem exposed_cons (h : Exposed b (c' :: t) pre c) :
    pre = [] ∧ c' = c ∧ c ∈ triggers ∧ b = true ∨ ∃ pre', pre = c' :: pre' ∧ Exposed (openNext b c') t pre' c := by
  obtain ⟨⟨post, heq⟩, htrigger, hopen⟩ := h
  cases pre with
  | nil =>
    cases heq
    exact .inl ⟨rfl, rfl, htrigger, hopen⟩
  | cons c'' pre =>
    cases heq
    exact .inr ⟨pre, rfl, ⟨post, rfl⟩, htrigger, hopen⟩

theorem not_exposed_of_not_mem (h : ∀ c ∈ t, c ∉ triggers) : ¬ Exposed b t pre c := by
  rintro ⟨⟨post, rfl⟩, htrigger, -⟩
  exact h c (List.mem_append_right _ List.mem_cons_self) htrigger

theorem exposed_escape (h : Exposed b (FORMULA_ESCAPE ++ t) pre c) :
    ∃ pre', pre = FORMULA_ESCAPE ++ pre' ∧ Exposed false t pre' c := by
  have hclosed : openAfter b FORMULA_ESCAPE = false := by cases b <;> decide
  have hnone : ∀ c ∈ FORMULA_ESCAPE, c ∉ triggers := by decide
  rcases exposed_append h with hescape | ⟨pre', hpre, hexposed⟩
  · exact absurd hescape (not_exposed_of_not_mem hnone)
  · exact ⟨pre', hpre, hclosed ▸ hexposed⟩

theorem openNext_mono {b' : Bool} (h : b = true → b' = true) (hopen : openNext b c = true) :
    openNext b' c = true := by
  simp only [openNext] at hopen ⊢
  split
  · rfl
  · next hsep =>
    rw [if_neg hsep] at hopen
    split
    · next hblank =>
      rw [if_pos hblank] at hopen
      exact h hopen
    · next hblank =>
      rw [if_neg hblank] at hopen
      cases hopen

/-- Where a field starts only after a separator of the value, the triggers are escaped. -/
theorem not_exposed_escaped (h : b = true → separated before = true) : ¬ Exposed b (escapeSeparated before t) pre c := by
  induction t generalizing b before pre with
  | nil => exact not_exposed_of_not_mem fun c hc => (by cases hc)
  | cons c' t ih =>
    intro hexposed
    rw [escapeSeparated] at hexposed
    split at hexposed
    · next hescape =>
      obtain ⟨pre', -, hexposed⟩ := exposed_escape hexposed
      rcases exposed_cons hexposed with ⟨-, -, -, hopen⟩ | ⟨pre'', -, hexposed⟩
      · cases hopen
      · refine ih (fun hopen => ?_) hexposed
        rw [separated_cons]
        exact openNext_mono (fun hfalse => (by cases hfalse)) hopen
    · next hescape =>
      rcases exposed_cons hexposed with ⟨-, rfl, htrigger, hopen⟩ | ⟨pre', -, hexposed⟩
      · exact hescape ⟨htrigger, h hopen⟩
      · refine ih (fun hopen => ?_) hexposed
        rw [separated_cons]
        exact openNext_mono h hopen

/-- At the start of a value only a trigger after spaces and double quotes is not escaped. -/
theorem exposed_of_escaped (hbefore : separated before = false)
    (h : Exposed true (escapeSeparated before t) pre c) : (∃ post, t = pre ++ c :: post) ∧ ∀ c ∈ pre, c ∈ blanks := by
  induction t generalizing before pre with
  | nil => exact absurd h (not_exposed_of_not_mem fun c hc => (by cases hc))
  | cons c' t ih =>
    rw [escapeSeparated, if_neg (fun hescape => (by rw [hbefore] at hescape; cases hescape.2))] at h
    rcases exposed_cons h with ⟨rfl, rfl, -, -⟩ | ⟨pre', rfl, hexposed⟩
    · exact ⟨⟨t, rfl⟩, fun c hc => (by cases hc)⟩
    · by_cases hblank : c' ∈ blanks
      · rw [openNext_of_blank hblank] at hexposed
        have hcons : separated (c' :: before) = false := by rw [separated_cons, openNext_of_blank hblank, hbefore]
        obtain ⟨⟨post, rfl⟩, hpre⟩ := ih hcons hexposed
        refine ⟨⟨post, rfl⟩, fun c hc => ?_⟩
        rcases List.mem_cons.mp hc with rfl | hc
        · exact hblank
        · exact hpre c hc
      · refine absurd hexposed (not_exposed_escaped fun hopen => ?_)
        rw [separated_cons]
        simp only [openNext, if_neg hblank] at hopen ⊢
        exact hopen

theorem exposed_of_neutralized (h : Exposed true (neutralizeFormulas t) pre c) :
    (∃ post, t = pre ++ c :: post) ∧ pre ≠ [] ∧ ∀ c ∈ pre, c ∈ blanks := by
  simp only [neutralizeFormulas] at h
  split at h
  · next hhead =>
    obtain ⟨pre', -, hexposed⟩ := exposed_escape h
    exact absurd hexposed (not_exposed_escaped fun hfalse => (by cases hfalse))
  · next hhead =>
    obtain ⟨hvalue, hpre⟩ := exposed_of_escaped rfl h
    refine ⟨hvalue, ?_, hpre⟩
    rintro rfl
    obtain ⟨⟨post, heq⟩, htrigger, -⟩ := h
    rw [heq] at hhead
    exact hhead (decide_eq_true htrigger)

/-! ## Cells and rows -/

theorem doubled_cons (c : CodeUnit) (t : Text) :
    doubled (c :: t) = (if c = doubleQuote then [doubleQuote, doubleQuote] else [c]) ++ doubled t := List.flatMap_cons

theorem openNext_quote (b : Bool) : openNext b doubleQuote = b := openNext_of_blank (by decide)

theorem exposed_of_doubled (h : Exposed b (doubled t) pre c) : ∃ pre', pre = doubled pre' ∧ Exposed b t pre' c := by
  induction t generalizing b pre with
  | nil => exact absurd h (not_exposed_of_not_mem fun c hc => (by cases hc))
  | cons c' t ih =>
    rw [doubled_cons] at h
    by_cases hquote : c' = doubleQuote
    · subst hquote
      have hnone : ∀ c ∈ [doubleQuote, doubleQuote], c ∉ triggers := by decide
      rw [if_pos rfl] at h
      rcases exposed_append h with hquotes | ⟨pre', rfl, hexposed⟩
      · exact absurd hquotes (not_exposed_of_not_mem hnone)
      · have hsame : openAfter b [doubleQuote, doubleQuote] = b := openAfter_of_blanks (by decide)
        obtain ⟨pre'', rfl, ⟨⟨post, rfl⟩, htrigger, hopen⟩⟩ := ih (hsame ▸ hexposed)
        refine ⟨doubleQuote :: pre'', (doubled_cons doubleQuote pre'').symm, ⟨post, rfl⟩, htrigger, ?_⟩
        change openAfter (openNext b doubleQuote) pre'' = true
        rw [openNext_quote]
        exact hopen
    · rw [if_neg hquote] at h
      rcases exposed_cons h with ⟨rfl, rfl, htrigger, hopen⟩ | ⟨pre', rfl, hexposed⟩
      · exact ⟨[], rfl, ⟨t, rfl⟩, htrigger, hopen⟩
      · obtain ⟨pre'', rfl, ⟨⟨post, rfl⟩, htrigger, hopen⟩⟩ := ih hexposed
        refine ⟨c' :: pre'', ?_, ⟨post, rfl⟩, htrigger, hopen⟩
        rw [doubled_cons, if_neg hquote]
        rfl

/-- A trigger that is exposed in a cell is one after the spaces and double quotes that the value starts with. -/
theorem exposed_of_cell (h : Exposed true (csvCell (.string t)) pre c) : ∃ gap post, t = gap ++ c :: post ∧ gap ≠ [] ∧
    (∀ c ∈ gap, c ∈ blanks) ∧ pre = doubleQuote :: doubled gap := by
  rcases exposed_cons h with ⟨-, rfl, htrigger, -⟩ | ⟨pre', rfl, hexposed⟩
  · exact absurd htrigger (by decide)
  · rw [openNext_quote] at hexposed
    rcases exposed_append hexposed with hvalue | ⟨pre'', -, hclosing⟩
    · obtain ⟨gap, rfl, hneutralized⟩ := exposed_of_doubled hvalue
      obtain ⟨⟨post, rfl⟩, hne, hgap⟩ := exposed_of_neutralized hneutralized
      exact ⟨gap, post, rfl, hne, hgap, rfl⟩
    · have hnone : ∀ c ∈ [doubleQuote], c ∉ triggers := by decide
      exact absurd hclosing (not_exposed_of_not_mem hnone)

/-- The row before a cell. -/
def rowBefore (cells : List Text) : Text := cells.flatMap (fun t => csvCell (.string t) ++ [comma])

theorem csvRow_cons (cell next : Text) (cells : List Text) :
    [comma].intercalate ((cell :: next :: cells).map (csvCell ∘ .string)) =
      (csvCell (.string cell) ++ [comma]) ++ [comma].intercalate ((next :: cells).map (csvCell ∘ .string)) := by
  simp [List.intercalate]

theorem exposed_of_cells {cells : List Text}
    (h : Exposed true ([comma].intercalate (cells.map (csvCell ∘ .string))) pre c) :
    ∃ before gap rest after, cells = before ++ (gap ++ c :: rest) :: after ∧ gap ≠ [] ∧ (∀ c ∈ gap, c ∈ blanks) ∧
      pre = rowBefore before ++ doubleQuote :: doubled gap := by
  induction cells generalizing pre with
  | nil => exact absurd h (not_exposed_of_not_mem fun c hc => (by cases hc))
  | cons cell cells ih =>
    cases cells with
    | nil =>
      have hcell : Exposed true (csvCell (.string cell)) pre c := by simpa [List.intercalate] using h
      obtain ⟨gap, rest, rfl, hne, hgap, rfl⟩ := exposed_of_cell hcell
      exact ⟨[], gap, rest, [], rfl, hne, hgap, rfl⟩
    | cons next cells =>
      rw [csvRow_cons] at h
      rcases exposed_append h with hfirst | ⟨pre', rfl, hrest⟩
      · rcases exposed_append hfirst with hcell | ⟨pre', -, hcomma⟩
        · obtain ⟨gap, rest, rfl, hne, hgap, rfl⟩ := exposed_of_cell hcell
          exact ⟨[], gap, rest, next :: cells, rfl, hne, hgap, rfl⟩
        · have hnone : ∀ c ∈ [comma], c ∉ triggers := by decide
          exact absurd hcomma (not_exposed_of_not_mem hnone)
      · -- A field starts after each comma.
        have hopen : openAfter true (csvCell (.string cell) ++ [comma]) = true := openAfter_concat true _ (by decide)
        obtain ⟨before, gap, rest, after, hcells, hne, hgap, rfl⟩ := ih (hopen ▸ hrest)
        refine ⟨cell :: before, gap, rest, after, congrArg (cell :: ·) hcells, hne, hgap, ?_⟩
        simp only [rowBefore, List.flatMap_cons, List.append_assoc]

/-- A formula trigger of a row stands where a field may start only if its own cell has it after the spaces and double
quotes that the cell starts with. -/
theorem exposed_trigger_after_blanks (cells : List Text) (pre post : Text) (c : CodeUnit)
    (hrow : csvRow (cells.map .string) = pre ++ c :: post) (htrigger : c ∈ triggers) (hstart : StartsField pre) :
    ∃ before gap rest after, cells = before ++ (gap ++ c :: rest) :: after ∧ gap ≠ [] ∧ (∀ c ∈ gap, c ∈ blanks) ∧
      pre = rowBefore before ++ doubleQuote :: doubled gap := by
  have hexposed : Exposed true (csvRow (cells.map .string)) pre c :=
    ⟨⟨post, hrow⟩, htrigger, openAfter_of_startsField hstart⟩
  clear hrow hstart
  simp only [csvRow, List.map_map] at hexposed
  rcases exposed_append hexposed with hcells | ⟨pre', -, hnewline⟩
  · exact exposed_of_cells hcells
  · have hnone : ∀ c ∈ [newline], c ∉ triggers := by decide
    exact absurd hnewline (not_exposed_of_not_mem hnone)

theorem leading_space_exposed : ∃ before gap rest after, [text " =1"] = before ++ (gap ++ 61 :: rest) :: after ∧
    gap ≠ [] ∧ (∀ c ∈ gap, c ∈ blanks) ∧ text "\" " = rowBefore before ++ doubleQuote :: doubled gap := by
  have hstart : StartsField (text "\" ") := ⟨[], text "\" ", rfl, by decide, .inl rfl⟩
  exact exposed_trigger_after_blanks [text " =1"] (text "\" ") (text "1\"\n") 61 (by decide) (by decide) hstart

/-- A cell that starts with a space is quoted as it is. -/
theorem trigger_after_leading_space : ¬ ∀ (cells : List Text) (pre post : Text) (c : CodeUnit),
    csvRow (cells.map .string) = pre ++ c :: post → c ∈ triggers → ¬ StartsField pre := by
  intro hall
  have hstart : StartsField (text "\" ") := ⟨[], text "\" ", rfl, by decide, .inl rfl⟩
  exact hall [text " =1"] (text "\" ") (text "1\"\n") 61 (by decide) (by decide) hstart

end Civfix.ExportCsv

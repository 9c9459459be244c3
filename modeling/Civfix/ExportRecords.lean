import Mathlib.Data.List.Forall2
import Civfix.DelimitedRecords
import Civfix.ExportCsv

/-! # Rows of an export are records

What stands in a cell, quotes and line breaks included, neither leaves its field nor adds one. A field is the content of
its cell with the escapes of formulas in it, which are marked here where `neutralizeFormulas` inserts them. -/
namespace Civfix.ExportCsv

open CodeUnits DelimitedRecords

/-- A code unit of a field, marked if the cell does not have it. -/
abbrev Marked := CodeUnit × Bool

def insertedEscape : List Marked := FORMULA_ESCAPE.map fun c => (c, true)

/-- `escapeSeparated`, with what it inserts marked. -/
def markSeparated : Text → Text → List Marked
  | _, [] => []
  | before, c :: cs =>
    (if c ∈ triggers ∧ separated before then insertedEscape else []) ++ (c, false) :: markSeparated (c :: before) cs

/-- `neutralizeFormulas`, with what it inserts marked. -/
def markFormulas (value : Text) : List Marked :=
  let separated := markSeparated [] value
  if separated.head?.any (fun m => decide (m.1 ∈ triggers)) then insertedEscape ++ separated else separated

def Cell.marked : Cell → List Marked
  | .string value => markFormulas value
  | .number value => value.map fun c => (c, false)
  | .null => []

def Cell.content : Cell → Text
  | .string value | .number value => value
  | .null => []

/-- The field with its marks forgotten. -/
def shown (m : List Marked) : Text := m.map Prod.fst

/-- The field without what was inserted. -/
def unescaped (m : List Marked) : Text := (m.filter fun c => !c.2).map Prod.fst

variable {before value : Text} {cell : Cell} {m m' : List Marked}

theorem shown_append (m m' : List Marked) : shown (m ++ m') = shown m ++ shown m' := List.map_append

theorem unescaped_append (m m' : List Marked) : unescaped (m ++ m') = unescaped m ++ unescaped m' := by
  simp only [unescaped, List.filter_append, List.map_append]

theorem shown_insertedEscape : shown insertedEscape = FORMULA_ESCAPE := by decide

theorem unescaped_insertedEscape : unescaped insertedEscape = [] := by decide

theorem shown_markSeparated (before value : Text) : shown (markSeparated before value) = escapeSeparated before value := by
  induction value generalizing before with
  | nil => rfl
  | cons c cs ih =>
    rw [markSeparated, escapeSeparated, shown_append]
    change _ ++ c :: shown (markSeparated (c :: before) cs) = _
    rw [ih]
    split
    · rw [shown_insertedEscape]
    · rfl

theorem unescaped_markSeparated (before value : Text) : unescaped (markSeparated before value) = value := by
  induction value generalizing before with
  | nil => rfl
  | cons c cs ih =>
    rw [markSeparated, unescaped_append]
    change _ ++ c :: unescaped (markSeparated (c :: before) cs) = _
    rw [ih]
    split
    · rw [unescaped_insertedEscape, List.nil_append]
    · rfl

theorem head_shown (m : List Marked) : (shown m).head?.any (fun c => decide (c ∈ triggers)) =
    m.head?.any fun c => decide (c.1 ∈ triggers) := by
  cases m <;> rfl

theorem shown_markFormulas (value : Text) : shown (markFormulas value) = neutralizeFormulas value := by
  simp only [markFormulas, neutralizeFormulas]
  rw [← shown_markSeparated, head_shown]
  split
  · rw [shown_append, shown_insertedEscape]
  · rfl

theorem unescaped_markFormulas (value : Text) : unescaped (markFormulas value) = value := by
  simp only [markFormulas]
  split
  · rw [unescaped_append, unescaped_insertedEscape, unescaped_markSeparated, List.nil_append]
  · exact unescaped_markSeparated [] value

theorem mark_of_markSeparated {c : Marked} (hc : c ∈ markSeparated before value) (hm : c.2 = true) :
    [c.1] = FORMULA_ESCAPE := by
  induction value generalizing before with
  | nil => cases hc
  | cons c' cs ih =>
    rcases List.mem_append.mp hc with hc | hc
    · split at hc
      · obtain ⟨q, hq, rfl⟩ := List.mem_map.mp hc
        exact congrArg (fun q => [q]) (List.mem_singleton.mp hq)
      · cases hc
    · rcases List.mem_cons.mp hc with rfl | hc
      · cases hm
      · exact ih hc

theorem mark_of_cell {c : Marked} (hc : c ∈ cell.marked) (hm : c.2 = true) : [c.1] = FORMULA_ESCAPE := by
  cases cell with
  | string value =>
    simp only [Cell.marked, markFormulas] at hc
    split at hc
    · rcases List.mem_append.mp hc with hc | hc
      · obtain ⟨q, hq, rfl⟩ := List.mem_map.mp hc
        exact congrArg (fun q => [q]) (List.mem_singleton.mp hq)
      · exact mark_of_markSeparated hc hm
    · exact mark_of_markSeparated hc hm
  | number value =>
    obtain ⟨q, -, rfl⟩ := List.mem_map.mp hc
    cases hm
  | null => cases hc

theorem unescaped_cell (cell : Cell) : unescaped cell.marked = cell.content := by
  cases cell with
  | string value => exact unescaped_markFormulas value
  | number value => simp [Cell.marked, Cell.content, unescaped, List.filter_map, Function.comp_def]
  | null => rfl

/-- A cell is its field, quoted if there is one. -/
theorem written_cell (cell : Cell) : Written (shown cell.marked) (csvCell cell) := by
  cases cell with
  | string value =>
    rw [Cell.marked, shown_markFormulas]
    exact .quoted (neutralizeFormulas value)
  | number value =>
    have hshown : shown (Cell.marked (.number value)) = value := by
      simp [Cell.marked, shown, Function.comp_def]
    rw [hshown]
    exact .quoted value
  | null => exact .empty

/-- A row of at least one cell is one record, with a field for each cell: its content, once the inserted escapes are
removed. -/
theorem csvRow_record (cells : List Cell) (h : cells ≠ []) :
    parse comma (csvRow cells) = some [cells.map fun cell => shown cell.marked] ∧
      ∀ cell ∈ cells, unescaped cell.marked = cell.content ∧ ∀ c ∈ cell.marked, c.2 = true → [c.1] = FORMULA_ESCAPE := by
  have hwritten : List.Forall₂ Written (cells.map fun cell => shown cell.marked) (cells.map csvCell) := by
    rw [List.forall₂_map_left_iff, List.forall₂_map_right_iff]
    exact List.forall₂_same.mpr fun cell _ => written_cell cell
  refine ⟨parse_record hwritten (List.map_eq_nil_iff.not.mpr h) (by decide) (by decide), fun cell _ => ?_⟩
  exact ⟨unescaped_cell cell, fun c => mark_of_cell⟩

theorem csvRow_record_quoted : parse comma (csvRow [.string (text "=\"1\",\n2"), .null, .number (text "-3")]) =
    some [[text "'=\"1\",\n2", [], text "-3"]] :=
  (csvRow_record [.string (text "=\"1\",\n2"), .null, .number (text "-3")] (by decide)).1.trans (by decide)

/-- A row without cells and one with a single empty cell are the same text. -/
theorem csvRow_empty : ¬ ∀ cells : List Cell, ∃ fields, parse comma (csvRow cells) = some [fields] ∧
    fields.length = cells.length := by
  intro hall
  obtain ⟨fields, hfields, hlength⟩ := hall []
  have hparse : parse comma (csvRow []) = some [[[]]] := by decide
  cases hparse.symm.trans hfields
  cases hlength

end Civfix.ExportCsv

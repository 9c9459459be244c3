import Civfix.CodeUnits

/-! # Ticket texts

The text a city receives, and the closing that an email filing takes back out of it. -/
namespace Civfix.TicketTexts

open CodeUnits

/-- `isPublic` is whether the report is visible to the public, `includeLink` that of the matched route. -/
structure TicketTextInput where
  reportId : Text
  title : Text
  description : Option Text
  referenceCode : Option Text
  isPublic : Bool
  includeLink : Bool
  note : Option Text
  webBaseUrl : Text

def FRAMING_LINE : Text := text "Reported by a resident via CivFix"

namespace TicketTextInput

variable (x : TicketTextInput)

def trimmedDescription : Text := trim (x.description.getD [])

def trimmedNote : Text := trim (x.note.getD [])

def framingLine : Text :=
  match x.referenceCode with
  | none => FRAMING_LINE
  | some code => if code = [] then FRAMING_LINE else FRAMING_LINE ++ text " · ref " ++ code

def linkLines : List Text :=
  if x.includeLink && x.isPublic then [x.webBaseUrl ++ text "/pin/" ++ x.reportId] else []

def noteLines : List Text := if x.trimmedNote = [] then [] else [text "Note from CivFix: " ++ x.trimmedNote]

def descriptionLines : List Text := if x.trimmedDescription = [] then [] else [x.trimmedDescription]

end TicketTextInput

def renderTicketText (x : TicketTextInput) : Text :=
  unlines (x.title :: x.descriptionLines ++ [] :: x.framingLine :: (x.linkLines ++ x.noteLines))

/-- The loop over the lines, from the last one down. -/
def closingFrom (lines : List Text) : ℕ → Option Text
  | 0 => none
  | i + 1 =>
    if lines[i]? = some [] ∧ (lines[i + 1]?).any FRAMING_LINE.isPrefixOf then some (unlines (lines.drop (i + 1)))
    else closingFrom lines i

/-- `none` when there is no framing line, where the source throws. -/
def ticketTextClosing (ticketText : Text) : Option Text :=
  closingFrom (lines ticketText) ((lines ticketText).length - 1)

/-! ## The closing of a ticket -/

namespace TicketTextInput

variable (x : TicketTextInput)

/-- The text before the blank line that the framing line follows. -/
def head : Text := unlines (x.title :: x.descriptionLines)

/-- The text from the framing line to the end. -/
def closing : Text := unlines (x.framingLine :: (x.linkLines ++ x.noteLines))

def reference : Text :=
  match x.referenceCode with
  | none => []
  | some code => if code = [] then [] else text " · ref " ++ code

/-- The text after the framing words. -/
def tail : Text := x.reference ++ (x.linkLines ++ x.noteLines).flatMap (newline :: ·)

theorem framingLine_eq : x.framingLine = FRAMING_LINE ++ x.reference := by
  simp only [framingLine, reference]
  split
  · exact (List.append_nil _).symm
  · split
    · exact (List.append_nil _).symm
    · exact List.append_assoc _ _ _

theorem closing_eq : x.closing = FRAMING_LINE ++ x.tail := by
  rw [closing, unlines_eq, framingLine_eq, List.append_assoc]
  rfl

theorem render_eq : renderTicketText x = x.head ++ newline :: newline :: x.closing := by
  simp only [renderTicketText, head, closing, List.cons_append, unlines_eq, List.flatMap_append, List.flatMap_cons,
    List.append_assoc, List.nil_append]

end TicketTextInput

variable {x : TicketTextInput} {ls : List Text} {n k : ℕ}

theorem newline_not_mem_framing : newline ∉ FRAMING_LINE := by decide

/-- Line `i` is blank, and the next one starts with the framing words. -/
def Framed (ls : List Text) (i : ℕ) : Prop :=
  ls[i]? = some [] ∧ (ls[i + 1]?).any FRAMING_LINE.isPrefixOf

instance (ls : List Text) (i : ℕ) : Decidable (Framed ls i) :=
  inferInstanceAs (Decidable (_ ∧ _))

/-- The loop stops at the last framing line. -/
theorem closingFrom_last (hk : Framed ls k) (hkn : k < n) : ∃ i, k ≤ i ∧ i < n ∧ Framed ls i ∧
    (∀ j, i < j → j < n → ¬ Framed ls j) ∧ closingFrom ls n = some (unlines (ls.drop (i + 1))) := by
  induction n with
  | zero => omega
  | succ n ih =>
    by_cases hn : Framed ls n
    · exact ⟨n, Nat.le_of_lt_succ hkn, Nat.lt_succ_self n, hn, fun j hj hj' => absurd hj' (by omega), if_pos hn⟩
    · have hlt : k < n := Nat.lt_of_le_of_ne (Nat.le_of_lt_succ hkn) fun heq => hn (heq ▸ hk)
      obtain ⟨i, hki, hi, hframed, hlast, hclosing⟩ := ih hlt
      refine ⟨i, hki, Nat.lt_succ_of_lt hi, hframed, fun j hj hj' => ?_, (if_neg hn).trans hclosing⟩
      rcases Nat.lt_succ_iff_lt_or_eq.mp hj' with hj' | rfl
      · exact hlast j hj hj'
      · exact hn

theorem lines_render (x : TicketTextInput) : lines (renderTicketText x) = lines x.head ++ [] :: lines x.closing := by
  have hblank : newline :: x.closing = [] ++ newline :: x.closing := rfl
  rw [x.render_eq, lines_append, hblank, lines_append]
  rfl

theorem lines_closing {l : Text} (hl : lines x.tail = l :: ls) : lines x.closing = (FRAMING_LINE ++ l) :: ls := by
  rw [x.closing_eq, lines_prepend newline_not_mem_framing, hl]
  rfl

theorem getElem?_after (hs ts : List Text) (m : ℕ) : (hs ++ [] :: ts)[hs.length + 1 + m]? = ts[m]? := by
  rw [List.getElem?_append_right (by omega)]
  have hindex : hs.length + 1 + m - hs.length = m + 1 := by omega
  rw [hindex, List.getElem?_cons_succ]

/-- The framing lines after the one that was written. -/
theorem framed_after_iff {l : Text} (hl : lines x.tail = l :: ls) :
    (∃ i, (lines x.head).length < i ∧ Framed (lines (renderTicketText x)) i) ↔
      (newline :: newline :: FRAMING_LINE) <:+: x.tail := by
  rw [← exists_line_iff newline_not_mem_framing hl, lines_render, lines_closing hl]
  constructor
  · rintro ⟨i, hi, hblank, hnext⟩
    obtain ⟨m, rfl⟩ := Nat.exists_eq_add_of_lt hi
    have hindex : (lines x.head).length + m + 1 = (lines x.head).length + 1 + m := by omega
    rw [hindex, getElem?_after] at hblank
    have hindex' : (lines x.head).length + m + 1 + 1 = (lines x.head).length + 1 + (m + 1) := by omega
    rw [hindex', getElem?_after] at hnext
    cases m with
    | zero => cases hblank
    | succ m => exact ⟨m, hblank, hnext⟩
  · rintro ⟨m, hblank, hnext⟩
    refine ⟨(lines x.head).length + 1 + (m + 1), by omega, ?_, ?_⟩
    · rw [getElem?_after]
      exact hblank
    · rw [Nat.add_assoc _ (m + 1), getElem?_after]
      exact hnext

theorem framed_written (x : TicketTextInput) : Framed (lines (renderTicketText x)) (lines x.head).length := by
  obtain ⟨l, ls, hl⟩ := List.exists_cons_of_ne_nil (lines_ne_nil x.tail)
  rw [lines_render, lines_closing hl]
  refine ⟨by simp, ?_⟩
  have hnext := getElem?_after (lines x.head) ((FRAMING_LINE ++ l) :: ls) 0
  rw [Nat.add_zero] at hnext
  rw [hnext]
  simp

/-- The closing of a ticket is found if and only if what follows its framing words has no blank line before these
words. -/
theorem closing_found_iff (x : TicketTextInput) :
    ticketTextClosing (renderTicketText x) = some x.closing ↔ ¬ (newline :: newline :: FRAMING_LINE) <:+: x.tail := by
  obtain ⟨l, ls, hl⟩ := List.exists_cons_of_ne_nil (lines_ne_nil x.tail)
  rw [← framed_after_iff hl]
  have hlength : (lines (renderTicketText x)).length = (lines x.head).length + (ls.length + 2) := by
    rw [lines_render, lines_closing hl]
    simp
  have hwritten : unlines ((lines (renderTicketText x)).drop ((lines x.head).length + 1)) = x.closing := by
    have hdrop : (lines x.head ++ [] :: lines x.closing).drop ((lines x.head).length + 1) = lines x.closing :=
      List.drop_length_add_append 1
    rw [lines_render, hdrop]
    exact unlines_lines x.closing
  obtain ⟨i, hki, hi, hframed, hlast, hclosing⟩ :=
    closingFrom_last (n := (lines (renderTicketText x)).length - 1) (framed_written x) (by omega)
  rw [ticketTextClosing, hclosing, Option.some_inj, ← hwritten]
  constructor
  · rintro heq ⟨j, hj, hjframed⟩
    -- A text that starts at a later framing line is shorter.
    have hsame : i = (lines x.head).length := by
      by_contra hne
      have hlt : (unlines ((lines (renderTicketText x)).drop (i + 1))).length <
          (unlines ((lines (renderTicketText x)).drop ((lines x.head).length + 1))).length :=
        length_unlines_drop_lt (by omega) (by omega)
      rw [heq] at hlt
      omega
    have hjn : j + 1 < (lines (renderTicketText x)).length := by
      obtain ⟨next, hnext, -⟩ := (Option.any_eq_true _ _).mp hjframed.2
      exact (List.getElem?_eq_some_iff.mp hnext).1
    exact hlast j (by omega) (by omega) hjframed
  · intro hnone
    have hsame : i = (lines x.head).length := by
      by_contra hne
      exact hnone ⟨i, by omega, hframed⟩
    rw [hsame]

/-- The note holds a blank line and the framing words. -/
def noted : TicketTextInput :=
  ⟨text "1", text "Pothole", none, some (text "PH-42-000001"), true, true,
    some (text "as before:\n\nReported by a resident via CivFix"), text "https://civfix.org"⟩

theorem closing_of_noted_ticket : ¬ ∀ x : TicketTextInput, ticketTextClosing (renderTicketText x) = some x.closing := by
  intro hall
  have hother : ticketTextClosing (renderTicketText noted) ≠ some noted.closing := by decide +kernel
  exact hother (hall noted)

end Civfix.TicketTexts

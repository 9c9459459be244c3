import Civfix.CodeUnits

/-! # Records of fields

The format of RFC 4180, for any separator: a field is plain or quoted, and in a quoted one a double quote is written twice
and every other code unit stands for itself. A record ends with a line feed, with a carriage return before it or without;
after the last record it may be missing. -/
namespace DelimitedRecords

open CodeUnits

def carriageReturn : CodeUnit := 13

/-- Where the next code unit stands. -/
inductive Place where
  | start
  | plain
  | quoted
  | closed
  | returned

/-- The field that is being read, the fields before it in its record, and the records before that. -/
structure Reading where
  place : Place
  field : Text
  record : List Text
  records : List (List Text)

namespace Reading

def empty : Reading := ⟨.start, [], [], []⟩

variable (sep : CodeUnit) (r : Reading) (c : CodeUnit)

def endField : Reading := { r with place := .start, field := [], record := r.record ++ [r.field] }

def endRecord : Reading := ⟨.start, [], [], r.records ++ [r.record ++ [r.field]]⟩

/-- The separator or a line break after a field; otherwise `next`. -/
def closing (next : Option Reading) : Option Reading :=
  if c = sep then some r.endField
  else if c = newline then some r.endRecord
  else if c = carriageReturn then some { r with place := .returned }
  else next

def step : Option Reading :=
  match r.place with
  | .start =>
    if c = doubleQuote then some { r with place := .quoted }
    else r.closing sep c (some { r with place := .plain, field := r.field ++ [c] })
  | .plain => if c = doubleQuote then none else r.closing sep c (some { r with field := r.field ++ [c] })
  | .quoted =>
    if c = doubleQuote then some { r with place := .closed } else some { r with field := r.field ++ [c] }
  | .closed =>
    if c = doubleQuote then some { r with place := .quoted, field := r.field ++ [c] } else r.closing sep c none
  | .returned => if c = newline then some r.endRecord else none

/-- What has been read when the text ends. -/
def finish : Option (List (List Text)) :=
  match r.place with
  | .quoted | .returned => none
  | .start => if r.record = [] then some r.records else some r.endRecord.records
  | .plain | .closed => some r.endRecord.records

def read : Reading → Text → Option (List (List Text))
  | r, [] => r.finish
  | r, c :: t => (r.step sep c).bind fun r' => read r' t

end Reading

/-- The records of a text, if it has the format. -/
def parse (sep : CodeUnit) (t : Text) : Option (List (List Text)) := Reading.empty.read sep t

/-! ## Writing -/

/-- Every double quote is written twice. -/
def doubled (t : Text) : Text := t.flatMap fun c => if c = doubleQuote then [doubleQuote, doubleQuote] else [c]

/-- The text may stand for the field. -/
inductive Written : Text → Text → Prop where
  | empty : Written [] []
  | quoted (field : Text) : Written field (doubleQuote :: (doubled field ++ [doubleQuote]))

variable {sep : CodeUnit} {f x t rest : Text} {record : List Text} {records : List (List Text)}

theorem read_doubled (f t rest : Text) :
    Reading.read sep ⟨.quoted, f, record, records⟩ (doubled t ++ doubleQuote :: rest) =
      Reading.read sep ⟨.closed, f ++ t, record, records⟩ rest := by
  induction t generalizing f with
  | nil => simp [doubled, Reading.read, Reading.step]
  | cons c t ih =>
    by_cases hquote : c = doubleQuote
    · subst hquote
      have hsplit : doubled (doubleQuote :: t) = doubleQuote :: doubleQuote :: doubled t := by
        simp [doubled]
      rw [hsplit]
      simp only [List.cons_append, Reading.read, Reading.step, if_true, Option.bind_some]
      rw [ih, List.append_assoc, List.singleton_append]
    · have hsplit : doubled (c :: t) = c :: doubled t := by simp [doubled, hquote]
      rw [hsplit]
      simp only [List.cons_append, Reading.read, Reading.step, if_neg hquote, Option.bind_some]
      rw [ih, List.append_assoc, List.singleton_append]

/-- A written field ends where the separator stands. -/
theorem read_field (h : Written f x) (hsep : sep ≠ doubleQuote) :
    Reading.read sep ⟨.start, [], record, records⟩ (x ++ sep :: rest) =
      Reading.read sep ⟨.start, [], record ++ [f], records⟩ rest := by
  cases h with
  | empty => simp [Reading.read, Reading.step, Reading.closing, Reading.endField, hsep]
  | quoted =>
    rw [List.cons_append, List.append_assoc, List.singleton_append]
    simp only [Reading.read, Reading.step, if_true, Option.bind_some]
    rw [read_doubled]
    simp [Reading.read, Reading.step, Reading.closing, Reading.endField, hsep]

/-- A record ends where the line feed stands. -/
theorem read_last (h : Written f x) (hsep : sep ≠ newline) :
    Reading.read sep ⟨.start, [], record, records⟩ (x ++ newline :: rest) =
      Reading.read sep ⟨.start, [], [], records ++ [record ++ [f]]⟩ rest := by
  have hquote : newline ≠ doubleQuote := by decide
  cases h with
  | empty => simp [Reading.read, Reading.step, Reading.closing, Reading.endRecord, hsep.symm, hquote]
  | quoted =>
    rw [List.cons_append, List.append_assoc, List.singleton_append]
    simp only [Reading.read, Reading.step, if_true, Option.bind_some]
    rw [read_doubled]
    simp [Reading.read, Reading.step, Reading.closing, Reading.endRecord, hsep.symm, hquote]

theorem read_record {fields texts : List Text} (h : List.Forall₂ Written fields texts) (hne : fields ≠ [])
    (hquote : sep ≠ doubleQuote) (hline : sep ≠ newline) :
    Reading.read sep ⟨.start, [], record, records⟩ ([sep].intercalate texts ++ newline :: rest) =
      Reading.read sep ⟨.start, [], [], records ++ [record ++ fields]⟩ rest := by
  induction h generalizing record with
  | nil => exact absurd rfl hne
  | @cons f x fields texts hfield hrest ih =>
    cases hrest with
    | nil =>
      rw [List.intercalate_singleton]
      exact read_last hfield hline
    | @cons f' x' fields texts hfield' hrest =>
      have hsplit : [sep].intercalate (x :: x' :: texts) = x ++ sep :: [sep].intercalate (x' :: texts) := by
        simp [List.intercalate]
      rw [hsplit, List.append_assoc, List.cons_append, read_field hfield hquote, ih (List.cons_ne_nil _ _),
        List.append_assoc, List.singleton_append]

/-- Fields that are written one after the other, with separators between them and a line feed at the end, are one
record. -/
theorem parse_record {fields texts : List Text} (h : List.Forall₂ Written fields texts) (hne : fields ≠ [])
    (hquote : sep ≠ doubleQuote) (hline : sep ≠ newline) :
    parse sep ([sep].intercalate texts ++ [newline]) = some [fields] :=
  (read_record h hne hquote hline).trans rfl

end DelimitedRecords

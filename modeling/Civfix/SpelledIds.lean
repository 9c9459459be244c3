import Mathlib.Data.Nat.Notation

/-! # Ids as values and as texts

A database compares uuids by value and prints them in lower case. A program that builds a key
from the text it was given keeps the spelling in the key: two texts of one id name one row
and two keys. -/
namespace SpelledIds

/-- The text of a uuid: its value, and which of its letters are capitals. -/
structure IdText where
  value : ℕ
  capitals : ℕ
  deriving DecidableEq

/-- The text that the database prints. -/
def printed (id : ℕ) : IdText := ⟨id, 0⟩

@[simp] theorem value_printed (id : ℕ) : (printed id).value = id := rfl

instance (n : ℕ) : OfNat IdText n := ⟨printed n⟩

namespace IdText

def IsPrinted (t : IdText) : Prop := t = printed t.value

instance (t : IdText) : Decidable t.IsPrinted := inferInstanceAs (Decidable (_ = _))

/-- The text in a message. -/
def display (t : IdText) : String :=
  if t.IsPrinted then toString t.value else toString t.value ++ " in capitals " ++ toString t.capitals

theorem isPrinted_printed (id : ℕ) : (printed id).IsPrinted := rfl

/-- Of two printed texts the values say it all. -/
theorem IsPrinted.eq_of_value {t u : IdText} (ht : t.IsPrinted) (hu : u.IsPrinted) (h : t.value = u.value) : t = u := by
  rw [ht, hu, h]

end IdText

end SpelledIds

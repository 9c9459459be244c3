import Civfix.BitGroups
import Civfix.CodeUnits

/-! # Base64 for URLs

A letter stands for six bits. What is written has no padding; a reader stops at padding, passes over what is no
letter, takes the letters of plain base64 as well and drops the bits that make up no byte. -/
namespace Base64Url

open CodeUnits hiding value value_append
open BitGroups

def ALPHABET : Text := text "ABCDEFGHIJKLMNOPQRSTUVWXYZabcdefghijklmnopqrstuvwxyz0123456789-_"

def letter (n : ℕ) : CodeUnit := ALPHABET.getD n 0

/-- The bits of the bytes, the highest of each byte first. -/
def byteBits (bytes : List ℕ) : List Bool := bytes.flatMap (bits 8)

def encode (bytes : List ℕ) : Text := (groups 6 (byteBits bytes)).map letter

def letterValue (c : ℕ) : Option ℕ :=
  if isUpper c then some (c - 65)
  else if isLower c then some (c - 71)
  else if isDigit c then some (c + 4)
  else if c = 45 ∨ c = 43 then some 62
  else if c = 95 ∨ c = 47 then some 63
  else none

def decode (t : Text) : List ℕ :=
  let l := ((t.takeWhile fun c => decide (c ≠ 61)).filterMap letterValue).flatMap (bits 6)
  groups 8 (l.take (l.length / 8 * 8))

variable {bytes other : List ℕ} {n : ℕ} {c : CodeUnit}

/-- A letter is no dot, no padding and an ASCII character, and it stands for its place in the alphabet. -/
theorem letter_spec : ∀ n < 64, letterValue (letter n) = some n ∧ letter n ≠ 46 ∧ letter n ≠ 61 ∧ letter n < 128 := by
  decide +kernel

theorem exists_of_mem_encode (h : c ∈ encode bytes) : ∃ n < 64, c = letter n := by
  obtain ⟨n, hn, rfl⟩ := List.mem_map.1 h
  exact ⟨n, lt_of_mem_groups hn, rfl⟩

theorem length_byteBits (bytes : List ℕ) : (byteBits bytes).length = 8 * bytes.length := by
  induction bytes with
  | nil => rfl
  | cons b bytes ih =>
    rw [byteBits, List.flatMap_cons, List.length_append, length_bits, ← byteBits, ih, List.length_cons]
    omega

theorem groups_byteBits (h : ∀ b ∈ bytes, b < 256) : groups 8 (byteBits bytes) = bytes := by
  induction bytes with
  | nil => exact groups_nil (by omega)
  | cons b bytes ih =>
    have hb : b % 2 ^ 8 = b := Nat.mod_eq_of_lt (h b List.mem_cons_self)
    rw [byteBits, List.flatMap_cons, groups_append (by omega) (length_bits 8 b), value_bits, hb, ← byteBits,
      ih fun b hb => h b (List.mem_cons_of_mem _ hb)]

theorem decode_encode (h : ∀ b ∈ bytes, b < 256) : decode (encode bytes) = bytes := by
  have hunpadded : (encode bytes).takeWhile (fun c => decide (c ≠ 61)) = encode bytes := by
    refine List.takeWhile_eq_self_iff.2 fun c hc => ?_
    obtain ⟨n, hn, rfl⟩ := exists_of_mem_encode hc
    exact decide_eq_true (letter_spec n hn).2.2.1
  have hvalues : (encode bytes).filterMap letterValue = groups 6 (byteBits bytes) := by
    have hsome : ∀ n ∈ groups 6 (byteBits bytes), (letterValue ∘ letter) n = some n :=
      fun n hn => (letter_spec n (lt_of_mem_groups hn)).1
    rw [encode, List.filterMap_map, List.filterMap_congr hsome, List.filterMap_some]
  have hbits := flatMap_groups (k := 6) (by omega) (byteBits bytes)
  have hcount : ((byteBits bytes ++ List.replicate ((groups 6 (byteBits bytes)).length * 6 - (byteBits bytes).length)
      false).length / 8 * 8) = (byteBits bytes).length := by
    rw [List.length_append, List.length_replicate, length_groups, length_byteBits]
    omega
  rw [decode, hunpadded, hvalues, hbits, hcount, List.take_left' rfl, groups_byteBits h]

theorem encode_injective (hbytes : ∀ b ∈ bytes, b < 256) (hother : ∀ b ∈ other, b < 256)
    (h : encode bytes = encode other) : bytes = other := by
  rw [← decode_encode hbytes, h, decode_encode hother]

theorem encode_ne_nil (h : bytes ≠ []) : encode bytes ≠ [] := by
  intro hnil
  have hlength := congrArg List.length hnil
  have hpos := List.length_pos_iff.2 h
  rw [encode, List.length_map, length_groups, length_byteBits, List.length_nil] at hlength
  omega

end Base64Url

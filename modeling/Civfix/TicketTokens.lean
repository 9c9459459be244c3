import Civfix.BitGroups
import Civfix.CodeUnits

/-! # Ticket tokens

A ticket token is the base32 of some bytes. The loop shifts each byte into a number of 32 bits that is never masked, so that
old bits run over its top, and takes the symbols out of its lowest bits. -/
namespace Civfix.TicketTokens

open CodeUnits hiding value value_append
open BitGroups

def BASE32_ALPHABET : Text := text "ABCDEFGHIJKLMNOPQRSTUVWXYZ234567"
def BITS_PER_BYTE : ℕ := 8
def BASE32_BITS : ℕ := 5
def BASE32_MASK : BitVec 32 := 31

/-- `BASE32_ALPHABET.charAt(n & BASE32_MASK)`. -/
def charAt (n : BitVec 32) : Text := (BASE32_ALPHABET.drop (n &&& BASE32_MASK).toNat).take 1

/-- The inner loop: the symbols, and the bits that are left. `>>` copies the sign. -/
def symbolsOf (buffer : BitVec 32) : ℕ → Text × ℕ
  | bits + 5 =>
    let rest := symbolsOf buffer bits
    (charAt (buffer.sshiftRight bits) ++ rest.1, rest.2)
  | bits => ([], bits)

def base32Loop : List (BitVec 8) → BitVec 32 → ℕ → Text
  | [], buffer, bits => if 0 < bits then charAt (buffer <<< (BASE32_BITS - bits)) else []
  | byte :: bytes, buffer, bits =>
    let buffer := buffer <<< BITS_PER_BYTE ||| byte.setWidth 32
    let emitted := symbolsOf buffer (bits + BITS_PER_BYTE)
    emitted.1 ++ base32Loop bytes buffer emitted.2

def base32 (bytes : List (BitVec 8)) : Text := base32Loop bytes 0 0

/-! ## The encoding by its definition -/

/-- The bits of the bytes, the highest of each byte first. -/
def byteBits (bytes : List (BitVec 8)) : List Bool := bytes.flatMap fun byte => bits 8 byte.toNat

def symbol (n : ℕ) : Text := (BASE32_ALPHABET.drop n).take 1

/-- Base32 without padding: one symbol for every five bits. -/
def rfc4648Base32 (bytes : List (BitVec 8)) : Text := (groups 5 (byteBits bytes)).flatMap symbol

variable {buffer : BitVec 32} {byte : BitVec 8} {bytes other : List (BitVec 8)} {pending : List Bool} {n : ℕ}

/-- The lowest bits of the buffer are the bits that wait for their symbol. -/
def Holds (buffer : BitVec 32) (pending : List Bool) : Prop := buffer.toNat % 2 ^ pending.length = value pending

theorem toNat_mask (x : BitVec 32) : (x &&& BASE32_MASK).toNat = x.toNat % 2 ^ 5 := by
  rw [BitVec.toNat_and]
  exact Nat.and_two_pow_sub_one_eq_mod x.toNat 5

theorem mod_shift_add (a m k b : ℕ) (hb : b < 2 ^ k) : (a * 2 ^ k + b) % 2 ^ (m + k) = a % 2 ^ m * 2 ^ k + b := by
  have hsplit := Nat.div_add_mod a (2 ^ m)
  have hpow : 2 ^ (m + k) = 2 ^ m * 2 ^ k := pow_add 2 m k
  have hrest : a % 2 ^ m * 2 ^ k + b < 2 ^ (m + k) := by
    have hlt : a % 2 ^ m + 1 ≤ 2 ^ m := Nat.mod_lt a (Nat.two_pow_pos m)
    have hmul := Nat.mul_le_mul_right (2 ^ k) hlt
    rw [Nat.succ_mul] at hmul
    omega
  have hwhole : a * 2 ^ k + b = a % 2 ^ m * 2 ^ k + b + 2 ^ (m + k) * (a / 2 ^ m) := by
    conv_lhs => rw [← hsplit]
    rw [hpow]
    ring
  rw [hwhole, Nat.add_mul_mod_self_left, Nat.mod_eq_of_lt hrest]

/-- A byte goes below the bits that wait; what runs over the top is no bit that waits. -/
theorem holds_push (h : Holds buffer pending) (hlen : pending.length ≤ 24) :
    Holds (buffer <<< BITS_PER_BYTE ||| byte.setWidth 32) (pending ++ bits 8 byte.toNat) := by
  have hbyte : byte.toNat < 2 ^ 8 := byte.isLt
  have hwide : (byte.setWidth 32).toNat = byte.toNat := by
    rw [BitVec.toNat_setWidth]
    exact Nat.mod_eq_of_lt (by omega)
  have hor : (buffer <<< BITS_PER_BYTE ||| byte.setWidth 32).toNat % 2 ^ (pending.length + 8) =
      (buffer.toNat * 2 ^ 8 + byte.toNat) % 2 ^ (pending.length + 8) := by
    have hadd : (buffer.toNat * 2 ^ 8) ||| byte.toNat = buffer.toNat * 2 ^ 8 + byte.toNat := by
      rw [← Nat.shiftLeft_eq, Nat.shiftLeft_add_eq_or_of_lt hbyte]
    have hsmall : byte.toNat % 2 ^ 32 = byte.toNat := Nat.mod_eq_of_lt (by omega)
    rw [BitVec.toNat_or, BitVec.toNat_shiftLeft, hwide, BITS_PER_BYTE, Nat.shiftLeft_eq, ← hadd]
    conv_lhs => rw [← hsmall]
    rw [← Nat.or_mod_two_pow, Nat.mod_mod_of_dvd _ (pow_dvd_pow 2 (by omega))]
  rw [Holds, List.length_append, length_bits, hor, mod_shift_add _ _ _ _ hbyte, value_append, length_bits,
    value_bits, h,
    Nat.mod_eq_of_lt hbyte]

/-- The bits above a place, up to five of them, as the shift that copies the sign brings them down. -/
theorem mask_sshiftRight (hn : n + 5 ≤ 32) :
    (buffer.sshiftRight n &&& BASE32_MASK).toNat = buffer.toNat % 2 ^ (n + 5) / 2 ^ n := by
  rw [toNat_mask]
  refine Nat.eq_of_testBit_eq fun i => ?_
  rw [Nat.testBit_mod_two_pow, Nat.testBit_div_two_pow, Nat.testBit_mod_two_pow, BitVec.testBit_toNat,
    BitVec.testBit_toNat, BitVec.getLsbD_sshiftRight]
  by_cases hi : i < 5
  · have hlow : n + i < 32 := by omega
    simp [hi, hlow, Nat.add_comm i n, Nat.not_le.mpr (show i < 32 by omega)]
  · simp [hi]
    omega

/-! ## The loop -/

theorem holds_suffix {front rest : List Bool} (h : Holds buffer (front ++ rest)) : Holds buffer rest := by
  rw [Holds, List.length_append, value_append] at h
  have hlt := value_lt rest
  have hmod : (buffer.toNat % 2 ^ (front.length + rest.length)) % 2 ^ rest.length =
      (value front * 2 ^ rest.length + value rest) % 2 ^ rest.length := congrArg (· % 2 ^ rest.length) h
  rw [Nat.mod_mod_of_dvd _ (pow_dvd_pow 2 (Nat.le_add_left _ _)), Nat.mul_comm, Nat.mul_add_mod,
    Nat.mod_eq_of_lt hlt] at hmod
  exact hmod

theorem charAt_sshiftRight {front rest : List Bool} (h : Holds buffer (front ++ rest)) (hfront : front.length = 5)
    (hlen : rest.length + 5 ≤ 32) : charAt (buffer.sshiftRight rest.length) = symbol (value front) := by
  have hlt := value_lt rest
  rw [charAt, mask_sshiftRight hlen]
  rw [Holds, List.length_append, hfront, Nat.add_comm 5] at h
  rw [h, value_append, Nat.add_comm, Nat.add_mul_div_right _ _ (Nat.two_pow_pos _), Nat.div_eq_of_lt hlt, Nat.zero_add]
  rfl

/-- The inner loop takes the full groups off the bits that wait. -/
theorem symbolsOf_eq (h : Holds buffer pending) (hlen : pending.length ≤ 32) :
    ∃ rest, rest.length < 5 ∧ Holds buffer rest ∧ (symbolsOf buffer pending.length).2 = rest.length ∧
      ∀ more, (symbolsOf buffer pending.length).1 ++ (groups 5 (rest ++ more)).flatMap symbol =
        (groups 5 (pending ++ more)).flatMap symbol := by
  induction hn : pending.length using Nat.strong_induction_on generalizing pending with
  | h n ih =>
    rcases Nat.lt_or_ge n 5 with hshort | hlong
    · refine ⟨pending, hn ▸ hshort, h, ?_, fun more => ?_⟩
      · rw [hn]
        match n, hshort with
        | 0, _ | 1, _ | 2, _ | 3, _ | 4, _ => rfl
      · match n, hshort with
        | 0, _ | 1, _ | 2, _ | 3, _ | 4, _ => rfl
    · have hsplit := List.take_append_drop 5 pending
      have hfront : (pending.take 5).length = 5 := List.length_take_of_le (hn ▸ hlong)
      have hdrop : (pending.drop 5).length = n - 5 := by rw [List.length_drop, hn]
      rw [← hsplit] at h
      obtain ⟨rest, hrest, hholds, hleft, hmore⟩ :=
        ih (n - 5) (by omega) (holds_suffix h) (by omega) hdrop
      have hstep : symbolsOf buffer n =
          (charAt (buffer.sshiftRight (n - 5)) ++ (symbolsOf buffer (n - 5)).1, (symbolsOf buffer (n - 5)).2) := by
        conv_lhs => rw [show n = (n - 5) + 5 by omega]
        rfl
      refine ⟨rest, hrest, hholds, ?_, fun more => ?_⟩
      · rw [hstep]
        exact hleft
      · have hsymbol := charAt_sshiftRight h hfront (by omega)
        rw [hdrop] at hsymbol
        have hgroups : groups 5 (pending ++ more) = value (pending.take 5) :: groups 5 (pending.drop 5 ++ more) := by
          conv_lhs => rw [← hsplit, List.append_assoc]
          exact groups_append (by decide) hfront _
        rw [hstep, hgroups, List.flatMap_cons, hsymbol, List.append_assoc, hmore]

theorem charAt_last (h : Holds buffer pending) (hlen : pending.length < 5) :
    charAt (buffer <<< (BASE32_BITS - pending.length)) = symbol (value pending * 2 ^ (5 - pending.length)) := by
  have hlt := value_lt pending
  have hfive : pending.length + (5 - pending.length) = 5 := by omega
  have hmod := mod_shift_add buffer.toNat pending.length (5 - pending.length) 0 (Nat.two_pow_pos _)
  rw [Nat.add_zero, Nat.add_zero, hfive, h] at hmod
  rw [charAt, toNat_mask, BitVec.toNat_shiftLeft, Nat.shiftLeft_eq, Nat.mod_mod_of_dvd _ (pow_dvd_pow 2 (by decide)),
    BASE32_BITS, hmod]
  rfl

/-- By induction on the bytes that are left. -/
theorem base32Loop_eq (h : Holds buffer pending) (hlen : pending.length < 5) :
    base32Loop bytes buffer pending.length = (groups 5 (pending ++ byteBits bytes)).flatMap symbol := by
  induction bytes generalizing buffer pending with
  | nil =>
    rw [base32Loop, byteBits, List.flatMap_nil, List.append_nil]
    split
    · next hpos => rw [groups_short hpos (by omega), List.flatMap_singleton, charAt_last h hlen]
    · next hnone =>
      have hnil : pending = [] := List.length_eq_zero_iff.mp (by omega)
      rw [hnil, groups_nil (by decide), List.flatMap_nil]
  | cons byte bytes ih =>
    have hpush : Holds (buffer <<< BITS_PER_BYTE ||| byte.setWidth 32) (pending ++ bits 8 byte.toNat) :=
      holds_push h (by omega)
    have hlength : (pending ++ bits 8 byte.toNat).length = pending.length + BITS_PER_BYTE := by
      rw [List.length_append, length_bits, BITS_PER_BYTE]
    obtain ⟨rest, hrest, hholds, hleft, hmore⟩ := symbolsOf_eq hpush (by rw [hlength, BITS_PER_BYTE]; omega)
    rw [hlength] at hleft hmore
    have hbits : byteBits (byte :: bytes) = bits 8 byte.toNat ++ byteBits bytes := List.flatMap_cons
    rw [base32Loop, hleft, ih hholds hrest, hmore, hbits, List.append_assoc]

theorem length_byteBits (bytes : List (BitVec 8)) : (byteBits bytes).length = 8 * bytes.length := by
  induction bytes with
  | nil => rfl
  | cons byte bytes ih =>
    rw [byteBits, List.flatMap_cons, List.length_append, length_bits, ← byteBits, ih, List.length_cons]
    omega

theorem byteBits_injective (hlen : bytes.length = other.length) (h : byteBits bytes = byteBits other) :
    bytes = other := by
  induction bytes generalizing other with
  | nil => exact (List.length_eq_zero_iff.mp hlen.symm).symm
  | cons byte bytes ih =>
    cases other with
    | nil => cases hlen
    | cons byte' other =>
      rw [byteBits, byteBits, List.flatMap_cons, List.flatMap_cons] at h
      obtain ⟨hbyte, hrest⟩ := List.append_inj h (by rw [length_bits, length_bits])
      have hvalue := congrArg value hbyte
      rw [value_bits, value_bits, Nat.mod_eq_of_lt byte.isLt, Nat.mod_eq_of_lt byte'.isLt] at hvalue
      rw [BitVec.eq_of_toNat_eq hvalue, ih (Nat.succ.inj hlen) hrest]

theorem length_symbol {n : ℕ} (h : n < 32) : (symbol n).length = 1 := by
  have hall : ∀ n : Fin 32, (symbol n).length = 1 := by decide
  exact hall ⟨n, h⟩

theorem symbol_injective {n m : ℕ} (hn : n < 32) (hm : m < 32) (h : symbol n = symbol m) : n = m := by
  have hall : ∀ n m : Fin 32, symbol n = symbol m → n = m := by decide
  exact congrArg Fin.val (hall ⟨n, hn⟩ ⟨m, hm⟩ h)

theorem length_flatMap_symbol {ns : List ℕ} (h : ∀ n ∈ ns, n < 32) : (ns.flatMap symbol).length = ns.length := by
  induction ns with
  | nil => rfl
  | cons n ns ih =>
    obtain ⟨hn, hns⟩ := List.forall_mem_cons.mp h
    rw [List.flatMap_cons, List.length_append, length_symbol hn, ih hns, List.length_cons, Nat.add_comm]

/-- The text of the symbols tells them apart. -/
theorem flatMap_symbol_injective {ns ms : List ℕ} (hn : ∀ n ∈ ns, n < 32) (hm : ∀ m ∈ ms, m < 32)
    (h : ns.flatMap symbol = ms.flatMap symbol) : ns = ms := by
  have hlen := congrArg List.length h
  rw [length_flatMap_symbol hn, length_flatMap_symbol hm] at hlen
  induction ns generalizing ms with
  | nil => exact (List.length_eq_zero_iff.mp hlen.symm).symm
  | cons n ns ih =>
    cases ms with
    | nil => cases hlen
    | cons m ms =>
      obtain ⟨hn, hns⟩ := List.forall_mem_cons.mp hn
      obtain ⟨hm, hms⟩ := List.forall_mem_cons.mp hm
      rw [List.flatMap_cons, List.flatMap_cons] at h
      obtain ⟨hsymbol, hrest⟩ := List.append_inj h (by rw [length_symbol hn, length_symbol hm])
      rw [symbol_injective hn hm hsymbol, ih hns hms hrest (Nat.succ.inj hlen)]

theorem base32_eq (bytes : List (BitVec 8)) : base32 bytes = rfc4648Base32 bytes :=
  base32Loop_eq (show Holds 0 [] from rfl) (by decide)

/-- The loop with a number that is never masked writes base32, of one length for bytes of one length. -/
theorem base32_exact (bytes : List (BitVec 8)) :
    base32 bytes = rfc4648Base32 bytes ∧ (base32 bytes).length = (8 * bytes.length + 4) / 5 ∧
      ∀ other : List (BitVec 8), other.length = bytes.length → base32 other = base32 bytes → other = bytes := by
  refine ⟨base32_eq bytes, ?_, fun other hlen h => ?_⟩
  · rw [base32_eq, rfc4648Base32, length_flatMap_symbol fun _ => lt_of_mem_groups, length_groups, length_byteBits]
  · rw [base32_eq, base32_eq] at h
    have hgroups := flatMap_symbol_injective (fun _ => lt_of_mem_groups) (fun _ => lt_of_mem_groups) h
    refine byteBits_injective hlen (groups_injective (by decide) ?_ hgroups)
    rw [length_byteBits, length_byteBits, hlen]

/-- The test vector of the definition. -/
example : base32 [102, 111, 111, 98, 97] = text "MZXW6YTB" := by decide

end Civfix.TicketTokens

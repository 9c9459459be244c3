import Mathlib.Data.Nat.Bitwise
import Mathlib.Data.List.Basic
import Mathlib.Tactic.Ring

/-! # Groups of bits

A stream of bits, the highest of each number first, is cut into groups of one width; zeros fill the last group. This
is how the encodings with a base that is a power of two write bytes. -/
namespace BitGroups

variable {k w n : ℕ} {l m : List Bool}

/-- The number that the bits write, the highest bit first. -/
def value (l : List Bool) : ℕ := l.foldl (fun n b => 2 * n + b.toNat) 0

/-- The lowest `w` bits of the number, the highest of them first. -/
def bits (w n : ℕ) : List Bool := (List.range w).map fun i => n.testBit (w - 1 - i)

/-- The groups of width `k`. -/
def groups (k : ℕ) (l : List Bool) : List ℕ :=
  (List.range ((l.length + (k - 1)) / k)).map fun j => value (((l.drop (j * k)).take k).rightpad k false)

@[simp] theorem length_bits (w n : ℕ) : (bits w n).length = w := by
  rw [bits, List.length_map, List.length_range]

theorem foldl_value (l : List Bool) (a : ℕ) :
    l.foldl (fun n b => 2 * n + b.toNat) a = a * 2 ^ l.length + value l := by
  induction l generalizing a with
  | nil => rw [List.foldl_nil, List.length_nil, pow_zero, mul_one, value, List.foldl_nil, add_zero]
  | cons b l ih =>
    have hcons : value (b :: l) = (2 * 0 + b.toNat) * 2 ^ l.length + value l := ih (2 * 0 + b.toNat)
    rw [List.foldl_cons, ih, hcons, List.length_cons, pow_succ]
    ring

theorem value_append (l m : List Bool) : value (l ++ m) = value l * 2 ^ m.length + value m := by
  rw [value, List.foldl_append, foldl_value m]
  rfl

theorem value_cons (b : Bool) (l : List Bool) : value (b :: l) = b.toNat * 2 ^ l.length + value l := by
  rw [← List.singleton_append, value_append]
  simp [value]

theorem value_lt (l : List Bool) : value l < 2 ^ l.length := by
  induction l with
  | nil => exact Nat.one_pos
  | cons b l ih =>
    have hb : b.toNat ≤ 1 := Bool.toNat_le b
    have hmul : b.toNat * 2 ^ l.length ≤ 1 * 2 ^ l.length := Nat.mul_le_mul_right _ hb
    rw [value_cons, List.length_cons, pow_succ]
    omega

theorem value_replicate (n : ℕ) : value (List.replicate n false) = 0 := by
  induction n with
  | zero => rfl
  | succ n ih => rw [List.replicate_succ, value_cons, ih, Bool.toNat_false, Nat.zero_mul]

theorem bits_succ (w n : ℕ) : bits (w + 1) n = n.testBit w :: bits w n := by
  have hrest : (List.range w).map ((fun i => n.testBit (w + 1 - 1 - i)) ∘ Nat.succ) = bits w n := by
    refine List.map_congr_left fun i _ => ?_
    rw [Function.comp_apply]
    congr 1
    omega
  rw [bits, List.range_succ_eq_map, List.map_cons, List.map_map, hrest]
  rfl

/-- The bits of a number write what is left of it modulo a power of two. -/
theorem value_bits (w n : ℕ) : value (bits w n) = n % 2 ^ w := by
  induction w with
  | zero => rw [pow_zero, Nat.mod_one, bits, List.range_zero, List.map_nil]; rfl
  | succ w ih =>
    rw [bits_succ, value_cons, length_bits, ih, Nat.mod_pow_succ, Nat.toNat_testBit, Nat.add_comm, Nat.mul_comm]

theorem bits_value (l : List Bool) : bits l.length (value l) = l := by
  induction l with
  | nil => rfl
  | cons b l ih =>
    have hlt := value_lt l
    have htop : (value (b :: l)).testBit l.length = b := by
      rw [value_cons, Nat.testBit_eq_decide_div_mod_eq]
      cases b with
      | false => simp [Nat.div_eq_of_lt hlt]
      | true =>
        have hdiv : (1 * 2 ^ l.length + value l) / 2 ^ l.length = 1 := by
          rw [Nat.add_comm, Nat.mul_comm, Nat.add_mul_div_left _ _ (Nat.two_pow_pos _), Nat.div_eq_of_lt hlt]
        rw [Bool.toNat_true, hdiv]
        rfl
    have hlow : bits l.length (value (b :: l)) = bits l.length (value l) := by
      refine List.map_congr_left fun i hi => ?_
      have hi := List.mem_range.mp hi
      rw [value_cons, Nat.mul_comm, Nat.testBit_two_pow_mul_add _ hlt, if_pos (by omega)]
    rw [List.length_cons, bits_succ, htop, hlow, ih]

/-! ## Groups -/

theorem length_groups (k : ℕ) (l : List Bool) : (groups k l).length = (l.length + (k - 1)) / k := by
  rw [groups, List.length_map, List.length_range]

@[simp] theorem groups_nil (hk : 0 < k) : groups k [] = [] := by
  rw [groups, List.length_nil, Nat.zero_add, Nat.div_eq_of_lt (by omega)]
  rfl

/-- A full group, and the groups of the rest. -/
theorem groups_append (hk : 0 < k) (hl : l.length = k) (m : List Bool) : groups k (l ++ m) = value l :: groups k m := by
  have hcount : ((l ++ m).length + (k - 1)) / k = (m.length + (k - 1)) / k + 1 := by
    rw [List.length_append, hl, Nat.add_assoc, Nat.add_div_left _ hk]
  have hfirst : value ((((l ++ m).drop (0 * k)).take k).rightpad k false) = value l := by
    rw [Nat.zero_mul, List.drop_zero, List.take_left' hl, List.rightpad, hl, Nat.sub_self, List.replicate_zero,
      List.append_nil]
  have hrest : ∀ j : ℕ, (l ++ m).drop ((j + 1) * k) = m.drop (j * k) := fun j => by
    rw [Nat.succ_mul, Nat.add_comm, ← List.drop_drop, List.drop_left' hl]
  rw [groups, hcount, List.range_succ_eq_map, List.map_cons, hfirst, List.map_map, groups]
  refine congrArg _ (List.map_congr_left fun j _ => ?_)
  rw [Function.comp_apply, hrest]

/-- The last group is filled with zeros. -/
theorem groups_short (hl : 0 < l.length) (hk : l.length ≤ k) : groups k l = [value l * 2 ^ (k - l.length)] := by
  have hcount : (l.length + (k - 1)) / k = 1 := by
    have hsplit : l.length + (k - 1) = (l.length - 1) + k := by omega
    rw [hsplit, Nat.add_div_right _ (by omega), Nat.div_eq_of_lt (by omega)]
  rw [groups, hcount, List.range_one, List.map_singleton, Nat.zero_mul, List.drop_zero, List.take_of_length_le hk,
    List.rightpad, value_append, value_replicate, List.length_replicate, Nat.add_zero]

theorem lt_of_mem_groups (hn : n ∈ groups k l) : n < 2 ^ k := by
  obtain ⟨j, -, rfl⟩ := List.mem_map.mp hn
  have hlength : (((l.drop (j * k)).take k).rightpad k false).length = k := by
    rw [List.rightpad, List.length_append, List.length_replicate, List.length_take]
    omega
  have hlt := value_lt (((l.drop (j * k)).take k).rightpad k false)
  rwa [hlength] at hlt

/-- The groups give back the bits, with the zeros that fill the last one. -/
theorem flatMap_groups (hk : 0 < k) (l : List Bool) :
    (groups k l).flatMap (bits k) = l ++ List.replicate ((groups k l).length * k - l.length) false := by
  induction hn : l.length using Nat.strong_induction_on generalizing l with
  | h n ih =>
    rcases Nat.lt_or_ge n k with hshort | hlong
    · rcases Nat.eq_zero_or_pos n with hzero | hpos
      · have hnil : l = [] := List.length_eq_zero_iff.mp (hn.trans hzero)
        rw [hnil, groups_nil hk]
        simp
      · rw [groups_short (by omega) (by omega)]
        have hvalue : value l * 2 ^ (k - l.length) = value (l ++ List.replicate (k - l.length) false) := by
          rw [value_append, value_replicate, List.length_replicate, Nat.add_zero]
        have hlength : (l ++ List.replicate (k - l.length) false).length = k := by
          rw [List.length_append, List.length_replicate]
          omega
        have hbits := bits_value (l ++ List.replicate (k - l.length) false)
        rw [hlength] at hbits
        rw [List.flatMap_singleton, hvalue, hbits, List.length_singleton, Nat.one_mul, hn]
    · have hsplit := List.take_append_drop k l
      have htake : (l.take k).length = k := List.length_take_of_le (hn ▸ hlong)
      have hdrop : (l.drop k).length = n - k := by rw [List.length_drop, hn]
      have hgroups : groups k l = value (l.take k) :: groups k (l.drop k) := by
        conv_lhs => rw [← hsplit]
        exact groups_append hk htake _
      have hbits := bits_value (l.take k)
      rw [htake] at hbits
      rw [hgroups, List.flatMap_cons, hbits, ih (n - k) (by omega) (l.drop k) hdrop, ← List.append_assoc, hsplit,
        List.length_cons, Nat.succ_mul]
      congr 2
      omega

/-- Streams of one length with the same groups are the same. -/
theorem groups_injective (hk : 0 < k) (hlen : l.length = m.length) (h : groups k l = groups k m) : l = m := by
  have hl := flatMap_groups hk l
  rw [h, flatMap_groups hk m] at hl
  exact (List.append_inj_left' hl (by rw [List.length_replicate, List.length_replicate, hlen])).symm

end BitGroups

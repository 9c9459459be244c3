import Mathlib.Data.List.Basic
import Mathlib.Algebra.Order.Ring.Nat

/-! # Codes that end where they say

A code separates when a text that starts with a code word starts with no other one, so that words written one after the
other can be told apart. Writing may fail, as where a length does not fit in its prefix. -/
namespace PrefixCodes

variable {α γ : Type}

def Separates (encode : α → Option (List γ)) : Prop :=
  ∀ a b x y u v, encode a = some x → encode b = some y → x ++ u = y ++ v → a = b ∧ u = v

/-- The code words of a list, one after the other. -/
def concat (encode : α → Option (List γ)) : List α → Option (List γ)
  | [] => some []
  | a :: l => (encode a).bind fun x => (concat encode l).map (x ++ ·)

theorem exists_concat {encode : α → Option (List γ)} {l : List α} (h : ∀ a ∈ l, (encode a).isSome = true) :
    ∃ x, concat encode l = some x := by
  induction l with
  | nil => exact ⟨[], rfl⟩
  | cons a l ih =>
    obtain ⟨x, hx⟩ := Option.isSome_iff_exists.mp (h a List.mem_cons_self)
    obtain ⟨y, hy⟩ := ih fun b hb => h b (List.mem_cons_of_mem a hb)
    exact ⟨x ++ y, by rw [concat, hx, Option.bind_some, hy, Option.map_some]⟩

/-- Lists are told apart if no code word is empty. -/
theorem concat_injective {encode : α → Option (List γ)} (h : Separates encode)
    (hne : ∀ a x, encode a = some x → x ≠ []) {l l' : List α} {x : List γ} (hl : concat encode l = some x)
    (hl' : concat encode l' = some x) : l = l' := by
  induction l generalizing l' x with
  | nil =>
    cases hl
    cases l' with
    | nil => rfl
    | cons b l' =>
      obtain ⟨y, hy, hrest⟩ := Option.bind_eq_some_iff.mp hl'
      obtain ⟨z, -, hz⟩ := Option.map_eq_some_iff.mp hrest
      exact absurd (List.append_eq_nil_iff.mp hz).1 (hne b y hy)
  | cons a l ih =>
    obtain ⟨y, hy, hrest⟩ := Option.bind_eq_some_iff.mp hl
    obtain ⟨z, hz, rfl⟩ := Option.map_eq_some_iff.mp hrest
    cases l' with
    | nil =>
      have hempty : [] = y ++ z := Option.some.inj hl'
      exact absurd (List.append_eq_nil_iff.mp hempty.symm).1 (hne a y hy)
    | cons b l' =>
      obtain ⟨y', hy', hrest'⟩ := Option.bind_eq_some_iff.mp hl'
      obtain ⟨z', hz', heq⟩ := Option.map_eq_some_iff.mp hrest'
      obtain ⟨rfl, rfl⟩ := h a b y y' z z' hy hy' heq.symm
      rw [ih hz hz']

/-- The number in `width` bytes, the most significant first. -/
def bigEndian (width n : ℕ) : Option (List UInt8) :=
  if n < 256 ^ width then some ((List.range width).reverse.map fun i => UInt8.ofNat (n / 256 ^ i)) else none

/-- The bytes after their length. -/
def framed (width : ℕ) (l : List UInt8) : Option (List UInt8) := (bigEndian width l.length).map (· ++ l)

theorem bigEndian_injective {width n m : ℕ} {x : List UInt8} (hn : bigEndian width n = some x)
    (hm : bigEndian width m = some x) : n = m := by
  simp only [bigEndian, Option.ite_none_right_eq_some, Option.some.injEq] at hn hm
  obtain ⟨hn, rfl⟩ := hn
  obtain ⟨hm, heq⟩ := hm
  have hdigit : ∀ i < width, m / 256 ^ i % 256 = n / 256 ^ i % 256 := by
    intro i hi
    have hbyte := (List.map_inj_left.mp heq) i (List.mem_reverse.mpr (List.mem_range.mpr hi))
    simpa using congrArg UInt8.toNat hbyte
  have hlow : ∀ k ≤ width, m % 256 ^ k = n % 256 ^ k := by
    intro k hk
    induction k with
    | zero => simp [Nat.mod_one]
    | succ k ih => rw [Nat.mod_pow_succ, Nat.mod_pow_succ, ih (Nat.le_of_succ_le hk), hdigit k hk]
  have hwhole := hlow width (Nat.le_refl _)
  rw [Nat.mod_eq_of_lt hm, Nat.mod_eq_of_lt hn] at hwhole
  exact hwhole.symm

theorem length_bigEndian {width n : ℕ} {x : List UInt8} (h : bigEndian width n = some x) : x.length = width := by
  simp only [bigEndian, Option.ite_none_right_eq_some, Option.some.injEq] at h
  rw [← h.2, List.length_map, List.length_reverse, List.length_range]

theorem separates_framed (width : ℕ) : Separates (framed width) := by
  intro a b x y u v hx hy heq
  obtain ⟨p, hp, rfl⟩ := Option.map_eq_some_iff.mp hx
  obtain ⟨q, hq, rfl⟩ := Option.map_eq_some_iff.mp hy
  rw [List.append_assoc, List.append_assoc] at heq
  obtain ⟨rfl, hrest⟩ := List.append_inj heq ((length_bigEndian hp).trans (length_bigEndian hq).symm)
  exact List.append_inj hrest (bigEndian_injective hp hq)

end PrefixCodes

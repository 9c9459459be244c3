import Mathlib.Algebra.Order.Field.Basic
import Mathlib.Tactic.Linarith
import Mathlib.Tactic.Ring

/-! # Token buckets

A bucket fills at a steady rate up to its capacity, and a call is allowed when it can take a whole token. The tokens are
counted when a call comes, from those that were left at the last one. -/
namespace TokenBuckets

section

variable (K : Type) [Field K] [LinearOrder K]

structure Rate where
  capacity : K
  refill : K
  capacity_nonneg : 0 ≤ capacity
  refill_nonneg : 0 ≤ refill

structure Bucket where
  tokens : K
  last : K

end

variable {K : Type} [Field K] [LinearOrder K]
variable {r : Rate K} {b b' : Bucket K} {t u lower upper : K} {times : List K}

namespace Rate

def refilled (r : Rate K) (b : Bucket K) (t : K) : K := min r.capacity (b.tokens + (t - b.last) * r.refill)

def allows (r : Rate K) (b : Bucket K) (t : K) : Bool := decide (1 ≤ r.refilled b t)

def take (r : Rate K) (b : Bucket K) (t : K) : Bucket K :=
  ⟨if r.allows b t then r.refilled b t - 1 else r.refilled b t, t⟩

/-- The times of the calls that are allowed. -/
def admitted (r : Rate K) (b : Bucket K) : List K → List K
  | [] => []
  | t :: times => if r.allows b t then t :: r.admitted (r.take b t) times else r.admitted (r.take b t) times

end Rate

/-- A bucket holds no debt and no more than it can. -/
structure Sound (r : Rate K) (b : Bucket K) : Prop where
  nonneg : 0 ≤ b.tokens
  le_capacity : b.tokens ≤ r.capacity

theorem full_sound (r : Rate K) (t : K) : Sound r ⟨r.capacity, t⟩ := ⟨r.capacity_nonneg, le_rfl⟩

theorem refilled_le_capacity : r.refilled b t ≤ r.capacity := min_le_left _ _

theorem refilled_le (r : Rate K) (b : Bucket K) (t : K) : r.refilled b t ≤ b.tokens + (t - b.last) * r.refill :=
    min_le_right _ _

theorem mem_of_mem_admitted (h : t ∈ r.admitted b times) : t ∈ times := by
  induction times generalizing b with
  | nil => exact h
  | cons u times ih =>
    rw [Rate.admitted] at h
    split at h
    · rcases List.mem_cons.1 h with rfl | h
      · exact List.mem_cons_self
      · exact List.mem_cons_of_mem _ (ih h)
    · exact List.mem_cons_of_mem _ (ih h)

variable (times) in
/-- A call that is allowed is paid for with a token. -/
theorem length_admitted_cons (r : Rate K) (b : Bucket K) (t : K) (p : K → Bool) (hp : p t = true) :
    (((r.admitted b (t :: times)).filter p).length : K) + (r.take b t).tokens =
      (((r.admitted (r.take b t) times).filter p).length : K) + r.refilled b t := by
  by_cases hallowed : r.allows b t = true
  · rw [Rate.admitted, if_pos hallowed, List.filter_cons_of_pos hp, List.length_cons]
    have htokens : (r.take b t).tokens = r.refilled b t - 1 := by rw [Rate.take, if_pos hallowed]
    rw [htokens]
    push_cast
    ring
  · rw [Rate.admitted, if_neg hallowed]
    have htokens : (r.take b t).tokens = r.refilled b t := by rw [Rate.take, if_neg hallowed]
    rw [htokens]

variable [IsStrictOrderedRing K]

theorem refilled_nonneg (h : Sound r b) (hlast : b.last ≤ t) : 0 ≤ r.refilled b t := by
  have hgrown : 0 ≤ (t - b.last) * r.refill := mul_nonneg (sub_nonneg.2 hlast) r.refill_nonneg
  exact le_min r.capacity_nonneg (add_nonneg h.nonneg hgrown)

theorem refilled_mono (r : Rate K) (b : Bucket K) (h : t ≤ u) : r.refilled b t ≤ r.refilled b u := by
  have hgrown : (t - b.last) * r.refill ≤ (u - b.last) * r.refill :=
    mul_le_mul_of_nonneg_right (sub_le_sub_right h _) r.refill_nonneg
  exact min_le_min_left _ (by linarith)

/-- A bucket that is full stays full until a token is taken. -/
theorem refilled_of_full (hfull : r.capacity ≤ r.refilled b t) (h : t ≤ u) : r.refilled b u = r.capacity :=
  le_antisymm refilled_le_capacity (hfull.trans (refilled_mono r b h))

theorem refilled_full_bucket (hlast : t ≤ u) : r.refilled ⟨r.capacity, t⟩ u = r.capacity := by
  refine refilled_of_full (t := t) ?_ hlast
  refine le_min le_rfl ?_
  simp only [sub_self, zero_mul, add_zero, le_refl]

theorem take_sound (h : Sound r b) (hlast : b.last ≤ t) : Sound r (r.take b t) := by
  have hnonneg := refilled_nonneg h hlast
  have hcap : r.refilled b t ≤ r.capacity := refilled_le_capacity
  by_cases hallowed : r.allows b t = true
  · have hone : 1 ≤ r.refilled b t := by simpa [Rate.allows] using hallowed
    constructor
    · rw [Rate.take, if_pos hallowed]
      exact sub_nonneg.2 hone
    · rw [Rate.take, if_pos hallowed]
      change r.refilled b t - 1 ≤ r.capacity
      linarith
  · constructor
    · rw [Rate.take, if_neg hallowed]
      exact hnonneg
    · rw [Rate.take, if_neg hallowed]
      exact hcap

/-! ## How many calls are allowed -/

/-- What is allowed up to `upper` was in the bucket or came in since. -/
theorem admitted_until_le (h : Sound r b) (hsorted : times.Pairwise (· ≤ ·)) (hlast : ∀ t ∈ times, b.last ≤ t)
    (hupper : b.last ≤ upper) :
    (((r.admitted b times).filter fun t => decide (t ≤ upper)).length : K) ≤
      b.tokens + (upper - b.last) * r.refill := by
  induction times generalizing b with
  | nil =>
    have hgrown : 0 ≤ (upper - b.last) * r.refill := mul_nonneg (sub_nonneg.2 hupper) r.refill_nonneg
    have hnonneg := h.nonneg
    simp only [Rate.admitted, List.filter_nil, List.length_nil, Nat.cast_zero]
    linarith
  | cons t times ih =>
    have hafter : ∀ u ∈ times, t ≤ u := (List.pairwise_cons.1 hsorted).1
    by_cases ht : t ≤ upper
    · have hcount := length_admitted_cons times r b t (fun t => decide (t ≤ upper)) (decide_eq_true ht)
      have hrest := ih (take_sound h (hlast t List.mem_cons_self)) (List.pairwise_cons.1 hsorted).2 hafter ht
      have hrefilled := refilled_le r b t
      have hsplit : (t - b.last) * r.refill + (upper - t) * r.refill = (upper - b.last) * r.refill := by ring
      change (_ : K) ≤ (r.take b t).tokens + (upper - t) * r.refill at hrest
      linarith
    · have hnone : (r.admitted b (t :: times)).filter (fun t => decide (t ≤ upper)) = [] := by
        refine List.filter_eq_nil_iff.2 fun u hu => ?_
        have hlate : t ≤ u := by
          rcases List.mem_cons.1 (mem_of_mem_admitted hu) with rfl | hu
          · exact le_rfl
          · exact hafter u hu
        simpa using lt_of_lt_of_le (not_le.1 ht) hlate
      have hgrown : 0 ≤ (upper - b.last) * r.refill := mul_nonneg (sub_nonneg.2 hupper) r.refill_nonneg
      have hnonneg := h.nonneg
      rw [hnone, List.length_nil, Nat.cast_zero]
      linarith

/-- In any interval no more calls are allowed than a full bucket holds and the interval brings. -/
theorem admitted_within_le (h : Sound r b) (hsorted : times.Pairwise (· ≤ ·)) (hlast : ∀ t ∈ times, b.last ≤ t)
    (hinterval : lower ≤ upper) :
    (((r.admitted b times).filter fun t => decide (lower ≤ t ∧ t ≤ upper)).length : K) ≤
      r.capacity + (upper - lower) * r.refill := by
  have hgrown : 0 ≤ (upper - lower) * r.refill := mul_nonneg (sub_nonneg.2 hinterval) r.refill_nonneg
  have hcap := r.capacity_nonneg
  induction times generalizing b with
  | nil =>
    simp only [Rate.admitted, List.filter_nil, List.length_nil, Nat.cast_zero]
    linarith
  | cons t times ih =>
    have hafter : ∀ u ∈ times, t ≤ u := (List.pairwise_cons.1 hsorted).1
    have hsound : Sound r (r.take b t) := take_sound h (hlast t List.mem_cons_self)
    by_cases hwithin : lower ≤ t ∧ t ≤ upper
    · -- the first call of the interval: from here on every call lies in it until `upper`
      have hcount :=
        length_admitted_cons times r b t (fun t => decide (lower ≤ t ∧ t ≤ upper)) (decide_eq_true hwithin)
      have hsame : (r.admitted (r.take b t) times).filter (fun u => decide (lower ≤ u ∧ u ≤ upper)) =
          (r.admitted (r.take b t) times).filter fun u => decide (u ≤ upper) := by
        refine List.filter_congr fun u hu => ?_
        have hlower : lower ≤ u := hwithin.1.trans (hafter u (mem_of_mem_admitted hu))
        simp only [hlower, true_and]
      have hrest := admitted_until_le hsound (List.pairwise_cons.1 hsorted).2 hafter hwithin.2
      have hrefilled : r.refilled b t ≤ r.capacity := refilled_le_capacity
      have hshorter : (upper - t) * r.refill ≤ (upper - lower) * r.refill :=
        mul_le_mul_of_nonneg_right (sub_le_sub_left hwithin.1 _) r.refill_nonneg
      change (_ : K) ≤ (r.take b t).tokens + (upper - t) * r.refill at hrest
      rw [hsame] at hcount
      linarith
    · have hskip : (r.admitted b (t :: times)).filter (fun u => decide (lower ≤ u ∧ u ≤ upper)) =
          (r.admitted (r.take b t) times).filter fun u => decide (lower ≤ u ∧ u ≤ upper) := by
        rw [Rate.admitted]
        split
        · rw [List.filter_cons, if_neg (by simpa using hwithin)]
        · rfl
      rw [hskip]
      exact ih hsound (List.pairwise_cons.1 hsorted).2 hafter

end TokenBuckets

import Mathlib.Algebra.BigOperators.Group.List.Basic
import Mathlib.Algebra.Order.BigOperators.Group.List
import Mathlib.Algebra.Order.Ring.Nat
import Mathlib.Data.List.GetD
import Mathlib.Data.Nat.Find
import Mathlib.Order.Monotone.Basic

/-! # Calendar dates

The Gregorian calendar from the year 0 on. A date is a number of days, and a date with a time of day is a number of
seconds; each number belongs to one date. -/
namespace CalendarDates

/-! ## The last place at or below a number -/

/-- The last `k` up to `b` with `f k` at most `n`. -/
def lastAtMost (f : ℕ → ℕ) (b n : ℕ) : ℕ := Nat.findGreatest (fun k => f k ≤ n) b

section

variable {f : ℕ → ℕ} {b k n : ℕ}

theorem lastAtMost_spec (h0 : f 0 ≤ n) (hb : n < f (b + 1)) :
    lastAtMost f b n ≤ b ∧ f (lastAtMost f b n) ≤ n ∧ n < f (lastAtMost f b n + 1) := by
  have hle : lastAtMost f b n ≤ b := Nat.findGreatest_le b
  refine ⟨hle, Nat.findGreatest_spec (P := fun k => f k ≤ n) (Nat.zero_le b) h0, ?_⟩
  rcases Nat.lt_or_eq_of_le hle with hlt | heq
  · exact Nat.lt_of_not_le (Nat.findGreatest_is_greatest (P := fun k => f k ≤ n) (Nat.lt_succ_self _) hlt)
  · rw [heq]
    exact hb

/-- Steps that do not fall leave one place for a number. -/
theorem lastAtMost_eq (hf : Monotone f) (hk : f k ≤ n) (hn : n < f (k + 1)) (hb : n < f (b + 1)) :
    lastAtMost f b n = k := by
  obtain ⟨-, hle, hlt⟩ := lastAtMost_spec ((hf (Nat.zero_le k)).trans hk) hb
  have hnot : ∀ {i j}, f i ≤ n → n < f (j + 1) → i ≤ j := fun {i j} hi hj => by
    by_contra hgt
    exact absurd (hf (show j + 1 ≤ i by omega)) (by omega)
  exact Nat.le_antisymm (hnot hle hn) (hnot hk hlt)

end

/-! ## Years and months -/

def Leap (y : ℕ) : Prop := y % 4 = 0 ∧ (y % 100 ≠ 0 ∨ y % 400 = 0)

instance (y : ℕ) : Decidable (Leap y) := inferInstanceAs (Decidable (_ ∧ _))

def daysInYear (y : ℕ) : ℕ := if Leap y then 366 else 365

/-- The days before the first of January, from the year 0. -/
def daysBeforeYear (y : ℕ) : ℕ := 365 * y + (y + 3) / 4 + (y + 399) / 400 - (y + 99) / 100

def monthLengths (y : ℕ) : List ℕ := [31, if Leap y then 29 else 28, 31, 30, 31, 30, 31, 31, 30, 31, 30, 31]

/-- Months count from 1. -/
def monthLength (y m : ℕ) : ℕ := (monthLengths y).getD (m - 1) 0

/-- The days of the year before a month. -/
def daysBeforeMonth (y m : ℕ) : ℕ := ((monthLengths y).take (m - 1)).sum

variable {y m n : ℕ}

/-- A leap year is counted from the next year on. -/
theorem daysBeforeYear_succ (y : ℕ) : daysBeforeYear (y + 1) = daysBeforeYear y + daysInYear y := by
  have h4 : (y + 1 + 3) / 4 = (y + 3) / 4 + if y % 4 = 0 then 1 else 0 := by split <;> omega
  have h100 : (y + 1 + 99) / 100 = (y + 99) / 100 + if y % 100 = 0 then 1 else 0 := by split <;> omega
  have h400 : (y + 1 + 399) / 400 = (y + 399) / 400 + if y % 400 = 0 then 1 else 0 := by split <;> omega
  have hcentury : y % 100 = 0 → y % 4 = 0 := by omega
  have hfourth : y % 400 = 0 → y % 100 = 0 := by omega
  have hle : (y + 99) / 100 ≤ 365 * y := by omega
  simp only [daysBeforeYear, daysInYear, Leap, h4, h100, h400]
  generalize (y + 3) / 4 = a, (y + 99) / 100 = b, (y + 399) / 400 = c at hle ⊢
  by_cases hy4 : y % 4 = 0
  · by_cases hy100 : y % 100 = 0
    · by_cases hy400 : y % 400 = 0
      · simp only [hy4, hy100, hy400, if_true, ne_eq, not_true, false_or, and_self]
        omega
      · simp only [hy4, hy100, hy400, if_true, if_false, ne_eq, not_true, false_or, and_false]
        omega
    · have hy400 : ¬y % 400 = 0 := fun h => hy100 (hfourth h)
      simp only [hy4, hy100, hy400, if_true, if_false, ne_eq, not_false_iff, true_or, and_self]
      omega
  · have hy100 : ¬y % 100 = 0 := fun h => hy4 (hcentury h)
    have hy400 : ¬y % 400 = 0 := fun h => hy100 (hfourth h)
    simp only [hy4, hy100, hy400, if_false, false_and]
    omega

theorem monotone_daysBeforeYear : Monotone daysBeforeYear :=
  monotone_nat_of_le_succ fun y => by rw [daysBeforeYear_succ]; exact Nat.le_add_right _ _

theorem le_daysBeforeYear (y : ℕ) : 365 * y ≤ daysBeforeYear y := by
  rw [daysBeforeYear]
  omega

theorem monthLength_le (y m : ℕ) : monthLength y m ≤ 31 := by
  rw [monthLength, List.getD_eq_getElem?_getD]
  cases hget : (monthLengths y)[m - 1]? with
  | none => exact Nat.zero_le _
  | some k =>
    have hall : ∀ k ∈ monthLengths y, k ≤ 31 := by
      rw [monthLengths]
      split <;> decide
    exact hall k (List.mem_of_getElem? hget)

theorem daysBeforeMonth_succ (hm : 1 ≤ m) : daysBeforeMonth y (m + 1) = daysBeforeMonth y m + monthLength y m := by
  obtain ⟨i, rfl⟩ := Nat.exists_eq_add_of_le' hm
  simp only [daysBeforeMonth, monthLength, Nat.add_sub_cancel]
  rcases Nat.lt_or_ge i (monthLengths y).length with hi | hi
  · rw [List.sum_take_succ _ _ hi, List.getD_eq_getElem _ _ hi]
  · rw [List.take_of_length_le hi, List.take_of_length_le (Nat.le_succ_of_le hi), List.getD_eq_default _ _ hi, Nat.add_zero]

theorem monotone_daysBeforeMonth (y : ℕ) : Monotone (daysBeforeMonth y) := by
  refine monotone_nat_of_le_succ fun m => ?_
  rcases Nat.eq_zero_or_pos m with rfl | hm
  · exact Nat.le_refl _
  · rw [daysBeforeMonth_succ hm]
    exact Nat.le_add_right _ _

/-- The months of a year make it up. -/
theorem daysBeforeMonth_end (y : ℕ) : daysBeforeMonth y 13 = daysInYear y := by
  simp only [daysBeforeMonth, monthLengths, daysInYear]
  split <;> rfl

/-! ## Dates -/

@[ext] structure Date where
  year : ℕ
  month : ℕ
  day : ℕ
  month_mem : 1 ≤ month ∧ month ≤ 12
  day_mem : 1 ≤ day ∧ day ≤ monthLength year month

namespace Date

/-- The days since the first day of the year 0. -/
def toDays (d : Date) : ℕ := daysBeforeYear d.year + (daysBeforeMonth d.year d.month + (d.day - 1))

end Date

def yearOf (n : ℕ) : ℕ := lastAtMost daysBeforeYear (n / 365) n

/-- The day of the year, from 0. -/
def dayWithinYear (n : ℕ) : ℕ := n - daysBeforeYear (yearOf n)

def monthOf (n : ℕ) : ℕ := lastAtMost (daysBeforeMonth (yearOf n)) 12 (dayWithinYear n)

def dayOf (n : ℕ) : ℕ := dayWithinYear n - daysBeforeMonth (yearOf n) (monthOf n) + 1

theorem lt_daysBeforeYear_bound (n : ℕ) : n < daysBeforeYear (n / 365 + 1) := by
  have hle := le_daysBeforeYear (n / 365 + 1)
  omega

theorem yearOf_spec (n : ℕ) : daysBeforeYear (yearOf n) ≤ n ∧ n < daysBeforeYear (yearOf n + 1) :=
  (lastAtMost_spec (Nat.zero_le n) (lt_daysBeforeYear_bound n)).2

theorem dayWithinYear_lt (n : ℕ) : dayWithinYear n < daysBeforeMonth (yearOf n) 13 := by
  have hyear := yearOf_spec n
  rw [daysBeforeYear_succ] at hyear
  rw [daysBeforeMonth_end, dayWithinYear]
  omega

theorem monthOf_spec (n : ℕ) : monthOf n ≤ 12 ∧ daysBeforeMonth (yearOf n) (monthOf n) ≤ dayWithinYear n ∧
    dayWithinYear n < daysBeforeMonth (yearOf n) (monthOf n + 1) :=
  lastAtMost_spec (Nat.zero_le _) (dayWithinYear_lt n)

theorem one_le_monthOf (n : ℕ) : 1 ≤ monthOf n := by
  by_contra hzero
  have hspec := (monthOf_spec n).2.2
  rw [show monthOf n = 0 by omega] at hspec
  exact absurd hspec (Nat.not_lt_zero _)

/-- The date of a number of days. -/
def Date.ofDays (n : ℕ) : Date where
  year := yearOf n
  month := monthOf n
  day := dayOf n
  month_mem := ⟨one_le_monthOf n, (monthOf_spec n).1⟩
  day_mem := by
    have hspec := (monthOf_spec n).2
    rw [daysBeforeMonth_succ (one_le_monthOf n)] at hspec
    rw [dayOf]
    omega

@[simp] theorem Date.toDays_ofDays (n : ℕ) : (Date.ofDays n).toDays = n := by
  have hyear := yearOf_spec n
  have hmonth := monthOf_spec n
  simp only [Date.toDays, Date.ofDays, dayOf, dayWithinYear] at hmonth ⊢
  omega

/-- The day of a date is in its month, and its month in its year. -/
theorem Date.within (d : Date) : daysBeforeMonth d.year d.month + (d.day - 1) < daysBeforeMonth d.year (d.month + 1) ∧
    daysBeforeMonth d.year (d.month + 1) ≤ daysInYear d.year := by
  rw [daysBeforeMonth_succ d.month_mem.1]
  refine ⟨by have hday := d.day_mem; omega, ?_⟩
  rw [← daysBeforeMonth_succ d.month_mem.1, ← daysBeforeMonth_end]
  exact monotone_daysBeforeMonth d.year (Nat.succ_le_succ d.month_mem.2)

@[simp] theorem Date.ofDays_toDays (d : Date) : Date.ofDays d.toDays = d := by
  obtain ⟨hmonth, hyear⟩ := d.within
  have hy : yearOf d.toDays = d.year := by
    refine lastAtMost_eq monotone_daysBeforeYear (Nat.le_add_right _ _) ?_ (lt_daysBeforeYear_bound _)
    rw [daysBeforeYear_succ, Date.toDays]
    omega
  have hwithin : dayWithinYear d.toDays = daysBeforeMonth d.year d.month + (d.day - 1) := by
    rw [dayWithinYear, hy, Date.toDays, Nat.add_sub_cancel_left]
  have hm : monthOf d.toDays = d.month := by
    rw [monthOf, hy, hwithin]
    refine lastAtMost_eq (monotone_daysBeforeMonth _) (Nat.le_add_right _ _) hmonth ?_
    rw [daysBeforeMonth_end]
    omega
  have hday : dayOf d.toDays = d.day := by
    have hmem := d.day_mem
    rw [dayOf, hy, hm, hwithin]
    omega
  exact Date.ext hy hm hday

/-! ## Dates with a time of day -/

@[ext] structure DateTime where
  date : Date
  hour : ℕ
  minute : ℕ
  second : ℕ
  hour_lt : hour < 24
  minute_lt : minute < 60
  second_lt : second < 60

namespace DateTime

/-- The seconds since the start of the year 0. -/
def toSeconds (c : DateTime) : ℕ := c.date.toDays * 86400 + c.hour * 3600 + c.minute * 60 + c.second

def ofSeconds (n : ℕ) : DateTime where
  date := Date.ofDays (n / 86400)
  hour := n / 3600 % 24
  minute := n / 60 % 60
  second := n % 60
  hour_lt := Nat.mod_lt _ (by decide)
  minute_lt := Nat.mod_lt _ (by decide)
  second_lt := Nat.mod_lt _ (by decide)

@[simp] theorem toSeconds_ofSeconds (n : ℕ) : (ofSeconds n).toSeconds = n := by
  simp only [toSeconds, ofSeconds, Date.toDays_ofDays]
  omega

@[simp] theorem ofSeconds_toSeconds (c : DateTime) : ofSeconds c.toSeconds = c := by
  have hh := c.hour_lt
  have hm := c.minute_lt
  have hs := c.second_lt
  have hday : c.toSeconds / 86400 = c.date.toDays := by
    rw [toSeconds]
    omega
  refine DateTime.ext ?_ ?_ ?_ ?_
  · simp only [ofSeconds, hday, Date.ofDays_toDays]
  · simp only [ofSeconds, toSeconds]
    omega
  · simp only [ofSeconds, toSeconds]
    omega
  · simp only [ofSeconds, toSeconds]
    omega

end DateTime

/-- The leap day of the year 4. -/
example : (Date.ofDays (daysBeforeYear 4 + 59)).month = 2 ∧ (Date.ofDays (daysBeforeYear 4 + 59)).day = 29 := by decide

end CalendarDates

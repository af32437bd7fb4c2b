import Mathlib.Algebra.BigOperators.Intervals
import Mathlib.Tactic.IntervalCases

/-!
# The proleptic Gregorian calendar

Years are integers, with a year zero. Days are counted from the first of January of a year: whole years, whole months
of the year, and days of the month.
-/

namespace Calendar

open Finset

def IsLeap (year : ℤ) : Prop := 4 ∣ year ∧ ¬100 ∣ year ∨ 400 ∣ year

instance (year : ℤ) : Decidable (IsLeap year) := inferInstanceAs (Decidable (4 ∣ year ∧ ¬100 ∣ year ∨ 400 ∣ year))

def yearLength (year : ℤ) : ℕ := if IsLeap year then 366 else 365

def monthLength (year : ℤ) (month : ℕ) : ℕ :=
  match month with
  | 2 => if IsLeap year then 29 else 28
  | 4 | 6 | 9 | 11 => 30
  | _ => 31

theorem monthLength_le (year : ℤ) (month : ℕ) : monthLength year month ≤ 31 := by
  unfold monthLength
  split
  · split <;> decide
  all_goals decide

structure Date where
  year : ℤ
  month : ℕ
  day : ℕ
  month_pos : 1 ≤ month
  month_le : month ≤ 12
  day_pos : 1 ≤ day
  day_le : day ≤ monthLength year month

/-- Without leap seconds. -/
structure TimeOfDay where
  hour : ℕ
  minute : ℕ
  second : ℕ
  hour_lt : hour < 24
  minute_lt : minute < 60
  second_lt : second < 60

/-- The days of so many years, from one on. -/
def daysOfYears (start : ℤ) (count : ℕ) : ℕ := ∑ k ∈ range count, yearLength (start + k)

/-- The days from the beginning of one year to the beginning of another. -/
def yearsBetween (start year : ℤ) : ℤ :=
  daysOfYears start (year - start).toNat - daysOfYears year (start - year).toNat

/-- The days of the year before a month. -/
def daysBeforeMonth (year : ℤ) (month : ℕ) : ℕ := ∑ k ∈ range (month - 1), monthLength year (k + 1)

theorem daysBeforeMonth_succ (year : ℤ) {month : ℕ} (hpos : 1 ≤ month) :
    daysBeforeMonth year (month + 1) = daysBeforeMonth year month + monthLength year month := by
  obtain ⟨m, rfl⟩ := Nat.exists_eq_add_of_le' hpos
  exact sum_range_succ _ m

namespace Date

/-- The days from the first of January of `start`. -/
def daysSince (start : ℤ) (date : Date) : ℤ :=
  yearsBetween start date.year + daysBeforeMonth date.year date.month + (date.day - 1)

end Date

def secondsSince (start : ℤ) (date : Date) (time : TimeOfDay) : ℤ :=
  date.daysSince start * 86400 + time.hour * 3600 + time.minute * 60 + time.second

/-! ## Whole years -/

/-- The days from the first of January of year one. -/
def daysBeforeYear (year : ℤ) : ℤ := 365 * (year - 1) + (year - 1) / 4 - (year - 1) / 100 + (year - 1) / 400

theorem daysBeforeYear_succ (year : ℤ) : daysBeforeYear (year + 1) - daysBeforeYear year = yearLength year := by
  rw [yearLength]
  by_cases hleap : IsLeap year
  · rw [if_pos hleap]
    unfold IsLeap at hleap
    unfold daysBeforeYear
    omega
  · rw [if_neg hleap]
    unfold IsLeap at hleap
    unfold daysBeforeYear
    omega

theorem daysOfYears_eq (start : ℤ) (count : ℕ) :
    (daysOfYears start count : ℤ) = daysBeforeYear (start + count) - daysBeforeYear start := by
  induction count with
  | zero => simp [daysOfYears]
  | succ count ih =>
    have hlast := daysBeforeYear_succ (start + count)
    have hsum : daysOfYears start (count + 1) = daysOfYears start count + yearLength (start + count) :=
      sum_range_succ _ _
    rw [hsum, Nat.cast_add, Nat.cast_add, Nat.cast_one, ih, ← hlast, ← add_assoc]
    omega

theorem yearsBetween_eq (start year : ℤ) : yearsBetween start year = daysBeforeYear year - daysBeforeYear start := by
  rw [yearsBetween, daysOfYears_eq, daysOfYears_eq]
  rcases le_total start year with h | h
  · rw [Int.toNat_of_nonneg (sub_nonneg.mpr h), Int.toNat_of_nonpos (sub_nonpos.mpr h), add_sub_cancel, Nat.cast_zero,
      add_zero, sub_self, sub_zero]
  · rw [Int.toNat_of_nonpos (sub_nonpos.mpr h), Int.toNat_of_nonneg (sub_nonneg.mpr h), add_sub_cancel, Nat.cast_zero,
      add_zero, sub_self, zero_sub, neg_sub]

end Calendar

import Mathlib.Algebra.Order.Ring.Nat

/-!
# The calendar as an order

The proleptic Gregorian calendar counts days from the first of January of year 1. Dates
compare field by field exactly as their day numbers compare.
-/

namespace Orchestrator.Calendar

set_option autoImplicit false

def leap (year : ℕ) : Bool := year % 4 = 0 && (year % 100 ≠ 0 || year % 400 = 0)

def daysBeforeYear (year : ℕ) : ℕ :=
  (year - 1) * 365 + (year - 1) / 4 - (year - 1) / 100 + (year - 1) / 400

/-- The days of the months before one, in a year that is leap or not. -/
def daysBefore (leap : Bool) (month : ℕ) : ℕ :=
  [0, 31, 59, 90, 120, 151, 181, 212, 243, 273, 304, 334].getD (month - 1) 0 +
    if month > 2 ∧ leap = true then 1 else 0

def daysIn (leap : Bool) (month : ℕ) : ℕ :=
  [31, 28, 31, 30, 31, 30, 31, 31, 30, 31, 30, 31].getD (month - 1) 0 +
    if month = 2 ∧ leap = true then 1 else 0

structure ValidDate (year month day : ℕ) : Prop where
  positive : 1 ≤ year
  inYear : 1 ≤ month ∧ month ≤ 12
  inMonth : 1 ≤ day ∧ day ≤ daysIn (leap year) month

theorem ValidDate.day_lt {year month day : ℕ} (hv : ValidDate year month day) : day < 100 := by
  have hmax : ∀ leap : Bool, ∀ m < 13, daysIn leap m < 100 := by decide
  have hm := hv.inYear
  exact lt_of_le_of_lt hv.inMonth.2 (hmax _ month (by omega))

/-- The number of a day, where the first of January of year 1 is day 0. -/
def dayNumber (year month day : ℕ) : ℕ :=
  daysBeforeYear year + daysBefore (leap year) month + (day - 1)

/-- Field by field, the year first. -/
def Earlier (year month day year' month' day' : ℕ) : Prop :=
  year < year' ∨ year = year' ∧ (month < month' ∨ month = month' ∧ day < day')

theorem months_ordered : ∀ leap : Bool, ∀ m < 13, ∀ m' < 13, 1 ≤ m → m < m' →
    daysBefore leap m + daysIn leap m ≤ daysBefore leap m' := by decide

theorem month_within : ∀ leap : Bool, ∀ m < 13, 1 ≤ m →
    daysBefore leap m + daysIn leap m ≤ if leap then 366 else 365 := by decide

theorem daysBeforeYear_succ {year : ℕ} (h : 1 ≤ year) :
    daysBeforeYear year + (if leap year then 366 else 365) = daysBeforeYear (year + 1) := by
  obtain ⟨n, rfl⟩ := Nat.exists_eq_add_of_le' h
  have hle : n / 100 ≤ n / 4 := Nat.div_le_div_left (by decide) (by decide)
  have h4 := Nat.succ_div (a := n) (b := 4)
  have h100 := Nat.succ_div (a := n) (b := 100)
  have h400 := Nat.succ_div (a := n) (b := 400)
  simp only [Nat.dvd_iff_mod_eq_zero] at h4 h100 h400
  simp only [daysBeforeYear, leap, Nat.add_sub_cancel, Bool.and_eq_true, Bool.or_eq_true,
    decide_eq_true_eq, ne_eq]
  -- the three divisors are nested, so four cases remain
  by_cases hm4 : (n + 1) % 4 = 0
  · by_cases hm100 : (n + 1) % 100 = 0
    · by_cases hm400 : (n + 1) % 400 = 0
      · simp only [hm4, hm100, hm400, if_true] at h4 h100 h400 ⊢
        simp
        omega
      · simp only [hm4, hm100, hm400, if_true, if_false] at h4 h100 h400 ⊢
        simp
        omega
    · have hm400 : (n + 1) % 400 ≠ 0 := by omega
      simp only [hm4, hm100, hm400, if_true, if_false] at h4 h100 h400 ⊢
      simp
      omega
  · have hm100 : (n + 1) % 100 ≠ 0 := by omega
    have hm400 : (n + 1) % 400 ≠ 0 := by omega
    simp only [hm4, hm100, hm400, if_false] at h4 h100 h400 ⊢
    simp
    omega

theorem daysBeforeYear_mono {year year' : ℕ} (h1 : 1 ≤ year) (h : year ≤ year') :
    daysBeforeYear year ≤ daysBeforeYear year' := by
  induction h with
  | refl => exact le_refl _
  | @step y hle ih =>
    have hsucc := daysBeforeYear_succ (le_trans h1 hle)
    simp only [Nat.succ_eq_add_one]
    omega

theorem dayNumber_lt {y m d y' m' d' : ℕ} (hv : ValidDate y m d) (hv' : ValidDate y' m' d')
    (h : Earlier y m d y' m' d') : dayNumber y m d < dayNumber y' m' d' := by
  have hm := hv.inYear
  have hd := hv.inMonth
  have hd' := hv'.inMonth
  have hm' := hv'.inYear
  unfold dayNumber
  rcases h with hy | ⟨rfl, hmonth | ⟨rfl, hday⟩⟩
  · have hnext := daysBeforeYear_succ hv.positive
    have hmono := daysBeforeYear_mono (by omega) (show y + 1 ≤ y' from hy)
    have hin := month_within (leap y) m (by omega) hm.1
    omega
  · have hin := months_ordered (leap y) m (by omega) m' (by omega) hm.1 hmonth
    omega
  · omega

theorem earlier_of_dayNumber_lt {y m d y' m' d' : ℕ} (hv : ValidDate y m d)
    (hv' : ValidDate y' m' d') (h : dayNumber y m d < dayNumber y' m' d') :
    Earlier y m d y' m' d' := by
  by_contra hnot
  have hcases : (y' = y ∧ m' = m ∧ d' = d) ∨ Earlier y' m' d' y m d := by
    unfold Earlier at hnot ⊢
    omega
  rcases hcases with ⟨rfl, rfl, rfl⟩ | hearlier
  · exact absurd h (lt_irrefl _)
  · exact absurd h (not_lt_of_gt (dayNumber_lt hv' hv hearlier))

end Orchestrator.Calendar

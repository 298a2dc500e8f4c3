import Orchestrator.Python

/-!
# UTC instants and the text the tables store for them
-/

namespace Orchestrator

open Library
set_option autoImplicit false

/-- The end of year 9999, in microseconds since 0001-01-01T00:00:00. -/
def endOfTime : Nat := 3652059 * 86400 * 1000000

/-- An aware UTC `datetime`, counted in microseconds from the start of year 1. -/
structure Instant where
  us : Nat
  inRange : us < endOfTime
deriving DecidableEq

namespace Instant

def earliest : Instant := ⟨0, Nat.succ_pos _⟩

/-- `now + timedelta(seconds=seconds)`. -/
def addSeconds (now : Instant) (seconds : Int) : Except PyExc Instant :=
  if (seconds / 86400).natAbs ≤ 999999999 then
    if h : 0 ≤ now.us + seconds * 1000000 ∧ now.us + seconds * 1000000 < endOfTime then
      .ok ⟨(now.us + seconds * 1000000).toNat, by omega⟩
    else .error (.overflowError "date value out of range")
  else .error (.overflowError "days out of range; must have magnitude <= 999999999")

/-- Within the years of a date, the bound on the days of a `timedelta` is no further bound. -/
theorem addSeconds_isOk {now : Instant} {seconds : Int} :
    (∃ at', now.addSeconds seconds = .ok at') ↔
      0 ≤ now.us + seconds * 1000000 ∧ now.us + seconds * 1000000 < endOfTime := by
  have hnow := now.inRange
  unfold addSeconds
  split_ifs with hdays h
  · simp [h]
  · simp [h]
  · simp only [exists_false, false_iff]
    unfold endOfTime at *
    omega

theorem addSeconds_us {now at' : Instant} {seconds : Int} (h : now.addSeconds seconds = .ok at') :
    (at'.us : Int) = now.us + 1000000 * seconds := by
  unfold addSeconds at h
  split at h
  · split at h
    · cases h
      simp only
      omega
    · cases h
  · cases h

def daysBeforeMonth : List Nat := [0, 31, 59, 90, 120, 151, 181, 212, 243, 273, 304, 334]

def daysInMonth : List Nat := [31, 28, 31, 30, 31, 30, 31, 31, 30, 31, 30, 31]

/-- Year, month and day of a day counted from 0001-01-01, as `datetime` computes them. -/
def ordinalToDate (day : Nat) : Nat × Nat × Nat :=
  let n400 := day / 146097
  let n := day % 146097
  let n100 := n / 36524
  let n := n % 36524
  let n4 := n / 1461
  let n := n % 1461
  let n1 := n / 365
  let n := n % 365
  let year := n400 * 400 + n100 * 100 + n4 * 4 + n1 + 1
  if n1 = 4 ∨ n100 = 4 then (year - 1, 12, 31)
  else
    let leap := n1 = 3 ∧ (n4 ≠ 24 ∨ n100 = 3)
    let month := (n + 50) / 32
    let preceding := daysBeforeMonth.getD (month - 1) 0 + if month > 2 ∧ leap then 1 else 0
    if preceding > n then
      let preceding :=
        preceding - (daysInMonth.getD (month - 2) 0 + if month - 1 = 2 ∧ leap then 1 else 0)
      (year, month - 1, n - preceding + 1)
    else (year, month, n - preceding + 1)

def pad (width n : Nat) : String := String.ofList ((Nat.toDigits 10 n).leftpad width '0')

/-- `datetime.isoformat()` of a UTC datetime: the fraction is left out when it is zero. -/
def isoformat (t : Instant) : String :=
  let (year, month, day) := ordinalToDate (t.us / 86400000000)
  let second := t.us / 1000000 % 86400
  let fraction := t.us % 1000000
  pad 4 year ++ "-" ++ pad 2 month ++ "-" ++ pad 2 day ++ "T" ++ pad 2 (second / 3600) ++ ":" ++
    pad 2 (second / 60 % 60) ++ ":" ++ pad 2 (second % 60) ++
    (if fraction = 0 then "" else "." ++ pad 6 fraction) ++ "+00:00"

example : isoformat ⟨63839664000000000, by decide⟩ = "2024-01-01T00:00:00+00:00" := by decide

end Instant

/-- `total_seconds()` of a difference in microseconds. -/
def totalSeconds (us : Int) : ℚ := Float64.nearest (us / 1000000)

/-- Rounded to a float, a difference of less than `2 ^ 34` seconds keeps its whole seconds. -/
theorem int_totalSeconds {us : Int} (h : us < 2 ^ 34 * 1000000) :
    ∃ n, (Float64.fin (totalSeconds us)).toInt = .ok n ∧ max 0 n = max 0 (us.tdiv 1000000) := by
  obtain ⟨n, hn, hmax⟩ := (Float64.toInt_max le_rfl).mpr ⟨totalSeconds us, rfl, rfl⟩
  refine ⟨n, hn, hmax.symm.trans ?_⟩
  rcases le_total 0 us with hpos | hneg
  · have hfloor : ⌊(us : ℚ) / 1000000⌋ = us / 1000000 := by
      exact_mod_cast Rat.floor_intCast_div_natCast us 1000000
    have hrest : (us : ℚ) ≤ 1000000 * (us / 1000000 : Int) + 999999 := by
      exact_mod_cast (by omega : us ≤ 1000000 * (us / 1000000) + 999999)
    have hexact : ⌊totalSeconds us⌋ = us / 1000000 := by
      refine (Float64.floor_nearest ?_ ?_ ?_).trans hfloor
      · positivity
      · rw [div_lt_iff₀ (by norm_num)]
        exact_mod_cast h
      · rw [hfloor]
        linarith
    rw [hexact, Int.tdiv_eq_ediv_of_nonneg hpos]
  · have hpast : totalSeconds us ≤ 0 :=
      Float64.nearest_nonpos (div_nonpos_of_nonpos_of_nonneg (by exact_mod_cast hneg) (by norm_num))
    have hfloor : ⌊totalSeconds us⌋ ≤ 0 := Int.floor_nonpos hpast
    have htdiv : us.tdiv 1000000 ≤ 0 := by
      have hpos := Int.tdiv_nonneg (Int.neg_nonneg.mpr hneg) (by norm_num : (0 : Int) ≤ 1000000)
      rw [Int.neg_tdiv] at hpos
      omega
    rw [max_eq_left hfloor, max_eq_left htdiv]

end Orchestrator

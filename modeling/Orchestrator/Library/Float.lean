import Mathlib.Data.Int.Log
import Mathlib.Data.Rat.Floor

/-!
# Floating-point numbers up to rounding

A float is NaN, an infinity or an exact rational: the operations leave rounding aside, not the
special values and the limits of the format. An operation whose exact result is out of range
gives an infinity, and converting an integer that is out of range raises. `nearest` rounds where
it matters.
-/

namespace Orchestrator.Library

set_option autoImplicit false

inductive Float64 where
  | nan
  | inf (negative : Bool)
  | fin (q : ℚ)
deriving DecidableEq

inductive FloatError where
  | overflow
  | nan
deriving DecidableEq

namespace Float64

/-- The least magnitude that rounds to infinity. -/
@[irreducible] def limit : ℕ := 2 ^ 1024 - 2 ^ 970

def ofRat (q : ℚ) : Float64 :=
  if |q| < limit then fin q else inf (q < 0)

def ofInt (n : ℤ) : Except FloatError Float64 :=
  if n.natAbs < limit then .ok (fin n) else .error .overflow

/-- Conversion to an integer, towards zero. -/
def toInt : Float64 → Except FloatError ℤ
  | nan => .error .nan
  | inf _ => .error .overflow
  | fin q => .ok (if 0 ≤ q then ⌊q⌋ else ⌈q⌉)

/-- Every comparison with NaN is false. -/
def lt : Float64 → Float64 → Bool
  | nan, _ | _, nan => false
  | inf true, inf true => false
  | inf true, _ => true
  | inf false, _ => false
  | fin _, inf negative => !negative
  | fin p, fin q => p < q

def le (a b : Float64) : Bool := lt a b || (a = b && a ≠ nan)

def neg : Float64 → Float64
  | nan => nan
  | inf negative => inf !negative
  | fin q => fin (-q)

def add : Float64 → Float64 → Float64
  | nan, _ | _, nan => nan
  | inf a, inf b => if a = b then inf a else nan
  | inf a, fin _ | fin _, inf a => inf a
  | fin p, fin q => ofRat (p + q)

def sub (a b : Float64) : Float64 := add a (neg b)

def isNegative : Float64 → Bool
  | nan => false
  | inf negative => negative
  | fin q => q < 0

def mul : Float64 → Float64 → Float64
  | nan, _ | _, nan => nan
  | fin p, fin q => ofRat (p * q)
  | a, b => if a = fin 0 ∨ b = fin 0 then nan else inf (a.isNegative != b.isNegative)

@[simp] theorem lt_nan (a : Float64) : lt a nan = false := by cases a <;> rfl

@[simp] theorem nan_lt (a : Float64) : lt nan a = false := rfl

@[simp] theorem lt_fin (p q : ℚ) : lt (fin p) (fin q) = decide (p < q) := rfl

@[simp] theorem le_nan (a : Float64) : le a nan = false := by
  unfold le
  cases a <;> simp

@[simp] theorem nan_le (a : Float64) : le nan a = false := by simp [le]

theorem lt_total {a b : Float64} (ha : a ≠ nan) (hb : b ≠ nan) :
    lt a b = true ∨ a = b ∨ lt b a = true := by
  cases a with
  | nan => exact absurd rfl ha
  | inf s =>
    cases b with
    | nan => exact absurd rfl hb
    | inf t => cases s <;> cases t <;> simp [lt]
    | fin q => cases s <;> simp [lt]
  | fin p =>
    cases b with
    | nan => exact absurd rfl hb
    | inf t => cases t <;> simp [lt]
    | fin q =>
      rcases lt_trichotomy p q with hlt | heq | hgt
      · simp [hlt]
      · simp [heq]
      · simp [hgt]

theorem lt_asymm {a b : Float64} (h : lt a b = true) : lt b a = false := by
  cases a with
  | nan => simp at h
  | inf s =>
    cases b with
    | nan => simp at h
    | inf t => cases s <;> cases t <;> simp_all [lt]
    | fin q => cases s <;> simp_all [lt]
  | fin p =>
    cases b with
    | nan => simp at h
    | inf t => cases t <;> simp_all [lt]
    | fin q =>
      simp only [lt_fin, decide_eq_true_eq, decide_eq_false_iff_not] at *
      exact not_lt_of_gt h

theorem lt_irrefl (a : Float64) : lt a a = false := by
  cases a with
  | nan => rfl
  | inf s => cases s <;> rfl
  | fin q => simp

/-- Between numbers, not below is the same as at least; with NaN only the first holds. -/
theorem not_lt_iff {a b : Float64} : lt a b = false ↔ le b a = true ∨ a = nan ∨ b = nan := by
  by_cases ha : a = nan
  · simp [ha]
  · by_cases hb : b = nan
    · simp [hb]
    · constructor
      · intro h
        rcases lt_total ha hb with hlt | heq | hgt
        · rw [h] at hlt
          cases hlt
        · exact .inl (by simp [le, heq, hb])
        · exact .inl (by simp [le, hgt])
      · intro h
        rcases h with hle | hnan | hnan
        · unfold le at hle
          rw [Bool.or_eq_true] at hle
          rcases hle with hlt | heq
          · exact lt_asymm hlt
          · simp only [ne_eq, Bool.and_eq_true, decide_eq_true_eq] at heq
            rw [heq.1]
            exact lt_irrefl a
        · exact absurd hnan ha
        · exact absurd hnan hb

/-! When a result is a number, it is the exact one. -/

theorem ofRat_eq_fin {q r : ℚ} : ofRat q = fin r ↔ |q| < limit ∧ r = q := by
  unfold ofRat
  split
  · next hlt => simp [hlt, eq_comm]
  · next hlt => simp [hlt]

theorem add_eq_fin {a b : Float64} {r : ℚ} : add a b = fin r ↔
    ∃ p q, a = fin p ∧ b = fin q ∧ |p + q| < limit ∧ r = p + q := by
  cases a with
  | nan => simp [add]
  | inf s =>
    cases b with
    | inf t =>
      simp only [add]
      split <;> simp
    | _ => simp [add]
  | fin p => cases b <;> simp [add, ofRat_eq_fin]

theorem mul_eq_fin {a b : Float64} {r : ℚ} : mul a b = fin r ↔
    ∃ p q, a = fin p ∧ b = fin q ∧ |p * q| < limit ∧ r = p * q := by
  cases a with
  | nan => simp [mul]
  | inf s =>
    cases b with
    | nan => simp [mul]
    | inf t => simp [mul]
    | fin q =>
      simp only [mul]
      split <;> simp
  | fin p =>
    cases b with
    | nan => simp [mul]
    | inf t =>
      simp only [mul]
      split <;> simp
    | fin q => simp [mul, ofRat_eq_fin]

theorem ofInt_eq_ok {n : ℤ} {x : Float64} : ofInt n = .ok x ↔ n.natAbs < limit ∧ x = fin n := by
  unfold ofInt
  split
  · next hlt => simp [hlt, eq_comm]
  · next hlt => simp [hlt]

theorem toInt_max {x : Float64} {least n : ℤ} (h0 : 0 ≤ least) :
    (∃ m, toInt x = .ok m ∧ n = max least m) ↔ ∃ q, x = fin q ∧ n = max least ⌊q⌋ := by
  cases x with
  | nan => simp [toInt]
  | inf s => simp [toInt]
  | fin q =>
    by_cases hq : 0 ≤ q
    · simp [toInt, hq]
    · have hceil : ⌈q⌉ ≤ least := le_trans (Int.ceil_le.mpr (by simpa using le_of_not_ge hq)) h0
      have hfloor : ⌊q⌋ ≤ least := le_trans (Int.floor_le_ceil q) hceil
      simp [toInt, hq, max_eq_left hceil, max_eq_left hfloor]

end Float64

/-- The nearest integer; between two of them, the even one. -/
def roundHalfEven (q : ℚ) : ℤ :=
  if (⌊q + 1 / 2⌋ : ℚ) = q + 1 / 2 ∧ ⌊q + 1 / 2⌋ % 2 = 1 then ⌊q + 1 / 2⌋ - 1 else ⌊q + 1 / 2⌋

theorem roundHalfEven_mono {p q : ℚ} (h : p ≤ q) : roundHalfEven p ≤ roundHalfEven q := by
  have hle : ⌊p + 1 / 2⌋ ≤ ⌊q + 1 / 2⌋ := Int.floor_le_floor (by linarith)
  have hp := Int.floor_le (p + 1 / 2)
  unfold roundHalfEven
  split
  · split <;> omega
  · next hnot =>
    split
    · next htie =>
      rcases hle.lt_or_eq with hlt | heq
      · omega
      · rw [heq] at hnot hp
        have hsame : p + 1 / 2 = q + 1 / 2 := by linarith [htie.1]
        rw [hsame] at hnot
        exact absurd htie hnot
    · exact hle

theorem roundHalfEven_intCast (n : ℤ) : roundHalfEven n = n := by
  have hfloor : ⌊(n : ℚ) + 1 / 2⌋ = n := by
    rw [Int.floor_eq_iff]
    constructor <;> linarith
  unfold roundHalfEven
  rw [hfloor, if_neg]
  rintro ⟨hsame, -⟩
  linarith

theorem abs_roundHalfEven_sub_le (q : ℚ) : |(roundHalfEven q : ℚ) - q| ≤ 1 / 2 := by
  have hle := Int.floor_le (q + 1 / 2)
  have hlt := Int.lt_floor_add_one (q + 1 / 2)
  unfold roundHalfEven
  rw [abs_le]
  split
  · next htie =>
    push_cast
    constructor <;> linarith [htie.1]
  · constructor <;> linarith

namespace Float64

/-- What two neighbours among the numbers of 53 binary digits are apart, near this one. -/
def ulp (q : ℚ) : ℚ := 2 ^ (max (Int.log 2 |q|) (-1022) - 52)

/-- The float nearest to a number that is not out of range. -/
def nearest (q : ℚ) : ℚ := roundHalfEven (q / ulp q) * ulp q

theorem ulp_pos (q : ℚ) : 0 < ulp q := zpow_pos (by norm_num) _

theorem abs_nearest_sub_le (q : ℚ) : |nearest q - q| ≤ ulp q / 2 := by
  have hpos := ulp_pos q
  have hscaled : nearest q - q = (roundHalfEven (q / ulp q) - q / ulp q) * ulp q := by
    rw [nearest, sub_mul, div_mul_cancel₀ _ hpos.ne']
  have hhalf := mul_le_mul_of_nonneg_right (abs_roundHalfEven_sub_le (q / ulp q)) hpos.le
  rw [hscaled, abs_mul, abs_of_pos hpos]
  linarith

theorem log_abs_lt {q : ℚ} {e : ℕ} (he : 0 < e) (h : |q| < 2 ^ e) : Int.log 2 |q| < e := by
  rcases (abs_nonneg q).eq_or_lt with hzero | hpos
  · rw [← hzero, Int.log_zero_right]
    exact_mod_cast he
  · exact (Int.lt_zpow_iff_log_lt (by norm_num) hpos).mp (by exact_mod_cast h)

theorem ulp_le {q : ℚ} {e : ℕ} (he : 0 < e) (h : |q| < 2 ^ e) : ulp q ≤ 2 ^ ((e : ℤ) - 53) := by
  have hlog := log_abs_lt he h
  exact zpow_le_zpow_right₀ (by norm_num) (by omega)

theorem le_nearest {q : ℚ} {n : ℤ} (hn : n ≤ q) (h : |q| < 2 ^ 53) : n ≤ nearest q := by
  have hpos := ulp_pos q
  have hlog := log_abs_lt (by norm_num) h
  obtain ⟨k, hk⟩ := Int.eq_ofNat_of_zero_le (a := 52 - max (Int.log 2 |q|) (-1022)) (by omega)
  have hulp : (ulp q)⁻¹ = 2 ^ k := by
    rw [ulp, ← zpow_neg, neg_sub, hk, zpow_natCast]
  have hscaled : ((n * 2 ^ k : ℤ) : ℚ) ≤ q / ulp q := by
    rw [div_eq_mul_inv, hulp]
    push_cast
    exact mul_le_mul_of_nonneg_right hn (by positivity)
  have hround := roundHalfEven_mono hscaled
  rw [roundHalfEven_intCast] at hround
  have hcast : ((n * 2 ^ k : ℤ) : ℚ) * ulp q ≤ nearest q :=
    mul_le_mul_of_nonneg_right (by exact_mod_cast hround) hpos.le
  push_cast at hcast
  rwa [mul_assoc, ← hulp, inv_mul_cancel₀ hpos.ne', mul_one] at hcast

/-- A number of millionths below `2 ^ 34` keeps its integral part when it is rounded. -/
theorem floor_nearest {q : ℚ} (h0 : 0 ≤ q) (hlt : q < 2 ^ 34)
    (hmicros : q ≤ ⌊q⌋ + 999999 / 1000000) : ⌊nearest q⌋ = ⌊q⌋ := by
  have habs : |q| < 2 ^ 34 := by rwa [abs_of_nonneg h0]
  have hulp := ulp_le (by norm_num) habs
  have hnear := (abs_le.mp (abs_nearest_sub_le q)).2
  rw [Int.floor_eq_iff]
  refine ⟨le_nearest (Int.floor_le q) (habs.trans (by norm_num)), ?_⟩
  norm_num at hulp
  linarith

theorem nearest_nonpos {q : ℚ} (h : q ≤ 0) : nearest q ≤ 0 := by
  have hround : roundHalfEven (q / ulp q) ≤ roundHalfEven ((0 : ℤ) : ℚ) :=
    roundHalfEven_mono (by simpa using div_nonpos_of_nonpos_of_nonneg h (ulp_pos q).le)
  rw [roundHalfEven_intCast] at hround
  exact mul_nonpos_of_nonpos_of_nonneg (by exact_mod_cast hround) (ulp_pos q).le

end Float64

end Orchestrator.Library

import Mathlib.Analysis.Complex.Basic
import Mathlib.Analysis.Complex.Trigonometric

/-!
# Sines of whole numbers

`exp i` is close to a Gaussian rational, so the sines of the first whole numbers are close to the
imaginary parts of its powers. That decides a table of rounded sines by arithmetic on whole numbers.
-/

namespace WholeSines

open Complex

/-! ### The exponential series of the imaginary unit -/

/-- `29!`, the denominator of the first thirty terms of the series. -/
def denominator : ℤ := 8841761993739701954543616000000

/-- Their sum, times the denominator. -/
def realPart : ℤ := 4777224393154841294624447631905

def imaginaryPart : ℤ := 7440086172309177470951709137213

noncomputable def unit : ℂ := ⟨realPart, imaginaryPart⟩ / (denominator : ℂ)

noncomputable def slack : ℝ := 1 / 2 ^ 100

theorem sum_eq_unit : ∑ m ∈ Finset.range 30, I ^ m / (m.factorial : ℂ) = unit := by
  have hpow : ∀ m, I ^ (m + 2) = -I ^ m := by
    intro m
    rw [pow_add, I_sq, mul_neg_one]
  apply Complex.ext
  · simp [Finset.sum_range_succ, hpow, unit, realPart, denominator, Nat.factorial]
    norm_num
  · simp [Finset.sum_range_succ, hpow, unit, imaginaryPart, denominator, Nat.factorial]
    norm_num

theorem norm_exp_sub_unit_le : ‖exp I - unit‖ ≤ slack := by
  have hsmall : ‖I‖ / (30 : ℕ).succ ≤ 1 / 2 := by
    rw [norm_I]
    norm_num
  have hbound := exp_bound' hsmall
  rw [sum_eq_unit, norm_I] at hbound
  apply hbound.trans
  rw [slack, Nat.factorial]
  norm_num [Nat.factorial]

theorem norm_exp_I : ‖exp I‖ = 1 := by
  have h := norm_exp_ofReal_mul_I 1
  rwa [ofReal_one, one_mul] at h

/-- The powers stay close: each factor adds at most twice the slack. -/
theorem norm_pow_sub_unit_pow_le {n : ℕ} (hn : n ≤ 2 ^ 64) :
    ‖exp I ^ n - unit ^ n‖ ≤ 2 * n * slack := by
  induction n with
  | zero => simp
  | succ n ih =>
      have hprev := ih (by omega)
      have hsmall : 2 * (n : ℝ) * slack ≤ 1 := by
        have hcast : (n : ℝ) ≤ 2 ^ 64 := by exact_mod_cast (by omega : n ≤ 2 ^ 64)
        rw [slack]
        calc 2 * (n : ℝ) * (1 / 2 ^ 100) ≤ 2 * 2 ^ 64 * (1 / 2 ^ 100) := by gcongr
          _ ≤ 1 := by norm_num
      have hunit : ‖unit ^ n‖ ≤ 2 := by
        calc ‖unit ^ n‖ = ‖exp I ^ n - (exp I ^ n - unit ^ n)‖ := by rw [sub_sub_cancel]
          _ ≤ ‖exp I ^ n‖ + ‖exp I ^ n - unit ^ n‖ := norm_sub_le _ _
          _ ≤ 1 + 1 := by
              apply add_le_add
              · rw [norm_pow, norm_exp_I, one_pow]
              · exact hprev.trans hsmall
          _ = 2 := by norm_num
      have hsplit : exp I ^ (n + 1) - unit ^ (n + 1)
          = (exp I ^ n - unit ^ n) * exp I + unit ^ n * (exp I - unit) := by ring
      calc ‖exp I ^ (n + 1) - unit ^ (n + 1)‖
          ≤ ‖exp I ^ n - unit ^ n‖ * ‖exp I‖ + ‖unit ^ n‖ * ‖exp I - unit‖ := by
            rw [hsplit, ← norm_mul, ← norm_mul]
            exact norm_add_le _ _
        _ ≤ 2 * n * slack * 1 + 2 * slack := by
            rw [norm_exp_I]
            gcongr
            exact norm_exp_sub_unit_le
        _ = 2 * ((n + 1 : ℕ) : ℝ) * slack := by
            push_cast
            ring

/-! ### Powers by whole numbers -/

/-- The powers of the sum, times those of the denominator. -/
def power : ℕ → ℤ × ℤ
  | 0 => (1, 0)
  | n + 1 =>
      let (x, y) := power n
      (x * realPart - y * imaginaryPart, x * imaginaryPart + y * realPart)

theorem unit_pow (n : ℕ) :
    unit ^ n = (⟨(power n).1, (power n).2⟩ : ℂ) / ((denominator ^ n : ℤ) : ℂ) := by
  induction n with
  | zero =>
      apply Complex.ext <;> simp [power]
  | succ n ih =>
      have hmul : (⟨(power n).1, (power n).2⟩ : ℂ) * ⟨realPart, imaginaryPart⟩
          = ⟨(power (n + 1)).1, (power (n + 1)).2⟩ := by
        apply Complex.ext <;> simp [power]
      rw [pow_succ, ih, unit, div_mul_div_comm, hmul, pow_succ, Int.cast_mul]

theorem exp_I_pow (n : ℕ) : exp I ^ n = exp (n * I) := (Complex.exp_nat_mul I n).symm

theorem abs_sin_sub_le {n : ℕ} (hn : n ≤ 2 ^ 64) :
    |Real.sin n - (power n).2 / (denominator : ℝ) ^ n| ≤ 2 * n * slack := by
  have him : (exp I ^ n - unit ^ n).im = Real.sin n - (power n).2 / (denominator : ℝ) ^ n := by
    have hsin : (exp I ^ n).im = Real.sin n := by
      have h := exp_ofReal_mul_I_im (n : ℝ)
      rwa [ofReal_natCast, ← exp_I_pow] at h
    have hunit : (unit ^ n).im = (power n).2 / (denominator : ℝ) ^ n := by
      rw [unit_pow, div_intCast_im]
      push_cast
      rfl
    rw [sub_im, hsin, hunit]
  rw [← him]
  exact (abs_im_le_norm _).trans (norm_pow_sub_unit_pow_le hn)

/-! ### Tables -/

/-- Whether `⌊2 ^ 32 * |sin n|⌋` is `entry`, with room for the error of up to sixty-four factors. -/
def Rounds (n : ℕ) (entry : ℤ) : Prop :=
  entry * (2 ^ 58 * denominator ^ n) + denominator ^ n ≤ 2 ^ 90 * |(power n).2|
    ∧ 2 ^ 90 * |(power n).2| + denominator ^ n < (entry + 1) * (2 ^ 58 * denominator ^ n)

instance (n : ℕ) (entry : ℤ) : Decidable (Rounds n entry) := inferInstanceAs (Decidable (_ ∧ _))

theorem floor_eq {n : ℕ} {entry : ℤ} (hn : n ≤ 64) (h : Rounds n entry) :
    ⌊4294967296 * |Real.sin n|⌋ = entry := by
  obtain ⟨hlow, hhigh⟩ := h
  have hpos : (0 : ℝ) < (denominator : ℝ) ^ n := by
    apply pow_pos
    rw [denominator]
    norm_num
  have hclose : |(|Real.sin n| - |((power n).2 : ℝ)| / (denominator : ℝ) ^ n)| ≤ 1 / 2 ^ 90 := by
    have habs : |((power n).2 : ℝ) / (denominator : ℝ) ^ n|
        = |((power n).2 : ℝ)| / (denominator : ℝ) ^ n := by
      rw [abs_div, abs_of_pos hpos]
    have hcast : (n : ℝ) ≤ 64 := by exact_mod_cast hn
    rw [← habs]
    calc |(|Real.sin n| - |((power n).2 : ℝ) / (denominator : ℝ) ^ n|)|
        ≤ |Real.sin n - (power n).2 / (denominator : ℝ) ^ n| := abs_abs_sub_abs_le_abs_sub _ _
      _ ≤ 2 * n * slack := abs_sin_sub_le (by omega)
      _ ≤ 2 * 64 * slack := by
          rw [slack]
          gcongr
      _ ≤ 1 / 2 ^ 90 := by
          rw [slack]
          norm_num
  obtain ⟨hbelow, habove⟩ := abs_le.mp hclose
  have hlow' : (entry : ℝ) * (2 ^ 58 * (denominator : ℝ) ^ n) + (denominator : ℝ) ^ n
      ≤ 2 ^ 90 * |((power n).2 : ℝ)| := by exact_mod_cast hlow
  have hhigh' : 2 ^ 90 * |((power n).2 : ℝ)| + (denominator : ℝ) ^ n
      < ((entry : ℝ) + 1) * (2 ^ 58 * (denominator : ℝ) ^ n) := by exact_mod_cast hhigh
  set d := (denominator : ℝ) ^ n
  set v := |((power n).2 : ℝ)|
  have hv : v / d * d = v := div_mul_cancel₀ v hpos.ne'
  rw [Int.floor_eq_iff]
  constructor
  · have hentry : (entry : ℝ) + 1 / 2 ^ 58 ≤ 4294967296 * (v / d) := by
      apply le_of_mul_le_mul_right _ hpos
      nlinarith only [hlow', hv]
    linarith only [hentry, hbelow]
  · have hentry : 4294967296 * (v / d) + 1 / 2 ^ 58 < (entry : ℝ) + 1 := by
      apply lt_of_mul_lt_mul_right _ hpos.le
      nlinarith only [hhigh', hv]
    linarith only [hentry, habove]

end WholeSines

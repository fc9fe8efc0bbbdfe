import Mathlib.Algebra.Order.Chebyshev
import Mathlib.Algebra.Order.Field.Rat
import Mathlib.Data.Nat.Sqrt
import Mathlib.Tactic.Linarith
import Mathlib.Tactic.Ring

/-!
# Deviations in whole numbers

The population variance of finitely many counts is the mean of the squares less the square of the
mean. Both means rounded down separately give another number, never a smaller one: `meanLoss` is what
the rounded mean takes off its square.
-/

set_option autoImplicit false

namespace NvmeVirt

open Finset

variable {ι : Type} (s : Finset ι) (x : ι → Nat)

/-! ## The true deviation -/

def total : Nat := ∑ i ∈ s, x i

def squares : Nat := ∑ i ∈ s, x i ^ 2

/-- The numerator of the variance, `n * sum(x^2) - (sum x)^2`. -/
def spread : Nat := s.card * squares s x - total s x ^ 2

/-- The population variance. -/
def variance : ℚ := (s.card * squares s x - (total s x : ℚ) ^ 2) / s.card ^ 2

/-- The integer square root of the population variance. -/
def deviation : Nat := (spread s x / s.card ^ 2).sqrt

theorem total_sq_le : total s x ^ 2 ≤ s.card * squares s x := sq_sum_le_card_mul_sum_sq

theorem total_sq_add_spread : total s x ^ 2 + spread s x = s.card * squares s x :=
  Nat.add_sub_cancel' (total_sq_le s x)

theorem squares_le_total_sq : squares s x ≤ total s x ^ 2 :=
  Finset.sum_sq_le_sq_sum_of_nonneg fun _ _ => Nat.zero_le _

variable {s x}

theorem variance_eq (hs : 0 < s.card) : variance s x * s.card ^ 2 = spread s x := by
  have hcard : (s.card : ℚ) ≠ 0 := by exact_mod_cast hs.ne'
  have hsplit : (total s x : ℚ) ^ 2 + spread s x = s.card * squares s x := by
    exact_mod_cast total_sq_add_spread s x
  unfold variance
  rw [div_mul_cancel₀ _ (pow_ne_zero 2 hcard)]
  linarith

/-- The deviation is the greatest natural number whose square is at most the variance. -/
theorem deviation_spec (hs : 0 < s.card) :
    (deviation s x : ℚ) ^ 2 ≤ variance s x ∧ variance s x < ((deviation s x + 1 : Nat) : ℚ) ^ 2 := by
  have hcard : 0 < s.card ^ 2 := Nat.pow_pos hs
  have hpos : (0 : ℚ) < (s.card : ℚ) ^ 2 := by exact_mod_cast hcard
  have hle : deviation s x ^ 2 * s.card ^ 2 ≤ spread s x :=
    (Nat.le_div_iff_mul_le hcard).mp (Nat.sqrt_le' _)
  have hlt : spread s x < (deviation s x + 1) ^ 2 * s.card ^ 2 :=
    (Nat.div_lt_iff_lt_mul hcard).mp (Nat.lt_succ_sqrt' _)
  constructor
  · rw [← mul_le_mul_iff_of_pos_right hpos, variance_eq hs]
    exact_mod_cast hle
  · rw [← mul_lt_mul_iff_of_pos_right hpos, variance_eq hs]
    exact_mod_cast hlt

/-! ## Two rounded quotients -/

variable (s x)

/-- The mean square less the squared mean, both rounded down. -/
def splitVariance : Nat := squares s x / s.card - (total s x / s.card) ^ 2

/-- What the rounded mean takes off the squared total. -/
def meanLoss : Nat := total s x ^ 2 - (s.card * (total s x / s.card)) ^ 2

variable {s x}

theorem mean_sq_le (hs : 0 < s.card) : (total s x / s.card) ^ 2 ≤ squares s x / s.card := by
  rw [Nat.le_div_iff_mul_le hs]
  apply Nat.le_of_mul_le_mul_left _ hs
  calc s.card * ((total s x / s.card) ^ 2 * s.card) = (total s x / s.card * s.card) ^ 2 := by ring
    _ ≤ total s x ^ 2 := Nat.pow_le_pow_left (Nat.div_mul_le_self ..) 2
    _ ≤ s.card * squares s x := total_sq_le s x

theorem total_sq_add_meanLoss :
    (s.card * (total s x / s.card)) ^ 2 + meanLoss s x = total s x ^ 2 :=
  Nat.add_sub_cancel' (Nat.pow_le_pow_left (Nat.mul_div_le ..) 2)

/-- The split variance exceeds the true one by what the mean lost and falls short of it by what the
mean square lost. -/
theorem splitVariance_eq (hs : 0 < s.card) :
    s.card ^ 2 * splitVariance s x + s.card * (squares s x % s.card) =
      spread s x + meanLoss s x := by
  have hsplit := total_sq_add_spread s x
  have hloss := total_sq_add_meanLoss (s := s) (x := x)
  have hsquares := Nat.div_add_mod (squares s x) s.card
  have hvar : splitVariance s x + (total s x / s.card) ^ 2 = squares s x / s.card :=
    Nat.sub_add_cancel (mean_sq_le hs)
  have hall : s.card ^ 2 * (squares s x / s.card) + s.card * (squares s x % s.card) =
      s.card * squares s x := by
    rw [sq, Nat.mul_assoc, ← Nat.mul_add, hsquares]
  rw [← hvar] at hall
  have hmean : s.card ^ 2 * (splitVariance s x + (total s x / s.card) ^ 2) =
      s.card ^ 2 * splitVariance s x + (s.card * (total s x / s.card)) ^ 2 := by ring
  omega

/-- The rounding never makes the variance smaller. -/
theorem spread_div_le_splitVariance (hs : 0 < s.card) :
    spread s x / s.card ^ 2 ≤ splitVariance s x := by
  have hcard : 0 < s.card ^ 2 := Nat.pow_pos hs
  have heq := splitVariance_eq (x := x) hs
  have hrest : s.card * (squares s x % s.card) < s.card ^ 2 := by
    rw [sq]
    exact Nat.mul_lt_mul_of_pos_left (Nat.mod_lt _ hs) hs
  apply Nat.le_of_lt_succ
  rw [Nat.div_lt_iff_lt_mul hcard, Nat.succ_mul, Nat.mul_comm]
  omega

theorem deviation_le_splitVariance (hs : 0 < s.card) : deviation s x ≤ (splitVariance s x).sqrt :=
  Nat.sqrt_le_sqrt (spread_div_le_splitVariance hs)

/-- The root of the split variance is at most one too large exactly when the mean loses less than
reaches the next square but one. -/
theorem sqrt_splitVariance_le_iff (hs : 0 < s.card) :
    (splitVariance s x).sqrt ≤ deviation s x + 1 ↔
      spread s x + meanLoss s x <
        s.card ^ 2 * (deviation s x + 2) ^ 2 + s.card * (squares s x % s.card) := by
  have hcard : 0 < s.card ^ 2 := Nat.pow_pos hs
  calc (splitVariance s x).sqrt ≤ deviation s x + 1
      ↔ splitVariance s x < (deviation s x + 2) ^ 2 := by
        rw [← Nat.lt_succ_iff, Nat.sqrt_lt']
    _ ↔ s.card ^ 2 * splitVariance s x < s.card ^ 2 * (deviation s x + 2) ^ 2 :=
        (Nat.mul_lt_mul_left hcard).symm
    _ ↔ _ := by
        rw [← splitVariance_eq hs, Nat.add_lt_add_iff_right]

/-- One count deviates from nothing. -/
theorem splitVariance_le (hs : 0 < s.card) : splitVariance s x ≤ squares s x / 2 := by
  obtain hone | htwo : s.card = 1 ∨ 2 ≤ s.card := by omega
  · have hle : squares s x ≤ total s x ^ 2 := squares_le_total_sq s x
    unfold splitVariance
    rw [hone, Nat.div_one, Nat.div_one]
    omega
  · exact (Nat.sub_le _ _).trans (Nat.div_le_div_left htwo (by decide))

end NvmeVirt

import Mathlib.Tactic.Linarith

/-!
# Fixed-point averages with truncating division

A value kept as an integer moves towards a target by `a / b` of the distance, and the division rounds
towards zero, as in C. Rounding towards zero shortens the step on either side, so the value never
passes its target (`step_mem`). A target that is itself a bounded reward plus a discounted value
keeps the value in the interval the discount contracts to (`discounted_mem`).
-/

set_option autoImplicit false

namespace NvmeVirt.FixedPoint

variable {a b d old target lo hi : Int}

/-- One step of the average. -/
def step (a b old target : Int) : Int := old + (a * (target - old)).tdiv b

/-- A fraction of a distance, rounded towards zero, is not longer than the distance. -/
theorem tdiv_le_self (ha : 0 ≤ a) (hab : a ≤ b) (hd : 0 ≤ d) :
    0 ≤ (a * d).tdiv b ∧ (a * d).tdiv b ≤ d := by
  have hb : 0 ≤ b := ha.trans hab
  have hmul : 0 ≤ a * d := Int.mul_nonneg ha hd
  refine ⟨Int.tdiv_nonneg hmul hb, ?_⟩
  obtain hzero | hpos := hb.eq_or_lt
  · rw [← hzero, Int.tdiv_zero]
    exact hd
  · calc (a * d).tdiv b ≤ (b * d).tdiv b :=
          Int.tdiv_le_tdiv hpos (Int.mul_le_mul_of_nonneg_right hab hd)
      _ = d := Int.mul_tdiv_cancel_left d hpos.ne'

/-- The step stays between the value and its target, from either side. -/
theorem step_mem (ha : 0 ≤ a) (hab : a ≤ b) (hold : lo ≤ old ∧ old ≤ hi)
    (htarget : lo ≤ target ∧ target ≤ hi) : lo ≤ step a b old target ∧ step a b old target ≤ hi := by
  unfold step
  obtain hle | hle := Int.le_total old target
  · have := tdiv_le_self ha hab (d := target - old) (by omega)
    omega
  · have := tdiv_le_self ha hab (d := old - target) (by omega)
    have hneg : (a * (target - old)).tdiv b = -(a * (old - target)).tdiv b := by
      rw [← Int.neg_tdiv, ← Int.mul_neg, Int.neg_sub]
    omega

/-- Rewards in `[rlo, rhi]` and a discount `g / b` keep the value in `[lo, hi]` when the interval is
mapped into itself. -/
theorem discounted_mem {g r m rlo rhi : Int} (ha : 0 ≤ a) (hab : a ≤ b) (hb : 0 < b) (hg : 0 ≤ g)
    (hr : rlo ≤ r ∧ r ≤ rhi) (hm : lo ≤ m ∧ m ≤ hi) (hold : lo ≤ old ∧ old ≤ hi)
    (hlo : lo ≤ rlo + (g * lo).tdiv b) (hhi : rhi + (g * hi).tdiv b ≤ hi) :
    lo ≤ step a b old (r + (g * m).tdiv b) ∧ step a b old (r + (g * m).tdiv b) ≤ hi := by
  have h1 := Int.tdiv_le_tdiv hb (Int.mul_le_mul_of_nonneg_left hm.1 hg)
  have h2 := Int.tdiv_le_tdiv hb (Int.mul_le_mul_of_nonneg_left hm.2 hg)
  exact step_mem ha hab hold (by omega)

/-- A quotient is not larger than its dividend. -/
theorem tdiv_bound {x y n : Int} (h : -n ≤ x ∧ x ≤ n) : -n ≤ x.tdiv y ∧ x.tdiv y ≤ n := by
  have := Int.natAbs_tdiv_le_natAbs x y
  omega

end NvmeVirt.FixedPoint

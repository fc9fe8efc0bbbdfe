import Mathlib.Data.Nat.Sqrt
import Mathlib.Tactic.Linarith
import Mathlib.Tactic.Ring

/-!
# Newton steps towards an integer square root

A step from `x` goes to `(x + n / x) / 2`. It never falls below the root, and it decreases as long as
`x` is above the root; so where it does not decrease, `x` is the root.
-/

set_option autoImplicit false

namespace NvmeVirt

/-- One Newton step. -/
def newtonStep (n x : Nat) : Nat := (x + n / x) / 2

section Newton

variable {n x : Nat}

/-- A step from above or below stays at or above the root. -/
theorem sqrt_le_newtonStep (hx : 0 < x) : n.sqrt ≤ newtonStep n x := by
  have hroot : n.sqrt * n.sqrt ≤ n := Nat.sqrt_le n
  have hquot : n < x * (n / x + 1) := Nat.lt_mul_div_succ n hx
  unfold newtonStep
  by_contra hlow
  have hsum : x + (n / x + 1) ≤ 2 * n.sqrt := by omega
  -- the product of two numbers is at most the square of half their sum
  have hprod : 4 * (x * (n / x + 1)) ≤ 2 * n.sqrt * (2 * n.sqrt) := by
    calc 4 * (x * (n / x + 1)) = 4 * x * (n / x + 1) := by ring
      _ ≤ (x + (n / x + 1)) ^ 2 := four_mul_le_sq_add x (n / x + 1)
      _ = (x + (n / x + 1)) * (x + (n / x + 1)) := by ring
      _ ≤ 2 * n.sqrt * (2 * n.sqrt) := Nat.mul_le_mul hsum hsum
  nlinarith

/-- Where a step does not decrease, it started at or below the root. -/
theorem le_sqrt_of_le_newtonStep (hx : 0 < x) (h : x ≤ newtonStep n x) : x ≤ n.sqrt := by
  unfold newtonStep at h
  have hquot : x ≤ n / x := by omega
  exact Nat.le_sqrt.mpr ((Nat.le_div_iff_mul_le hx).mp hquot)

/-- The terms of a step do not exceed `n + 1`. -/
theorem newton_sum_le (hx : 0 < x) (hxn : x ≤ n) : x + n / x ≤ n + 1 := by
  have hquot : 0 < n / x := Nat.div_pos hxn hx
  have hmul : x * (n / x) ≤ n := Nat.mul_div_le n x
  obtain ⟨a, rfl⟩ : ∃ a, x = a + 1 := ⟨x - 1, by omega⟩
  obtain ⟨b, hb⟩ : ∃ b, n / (a + 1) = b + 1 := ⟨n / (a + 1) - 1, by omega⟩
  rw [hb] at hmul ⊢
  nlinarith [Nat.zero_le (a * b)]

end Newton

end NvmeVirt

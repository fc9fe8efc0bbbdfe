import NvmeVirt.Lib.Newton
import NvmeVirt.Conv.Score

/-!
# The integer square root

`IsqrtLoop n k x y` says that the loop of `isqrt_u64 n` tests its condition on `x` and `y` after `k`
passes. In every such state `x` is at or above the root and `y` is one Newton step from it
(`IsqrtLoop.newton`); so the loop descends, and where it stops it is at the root.
-/

set_option autoImplicit false

namespace NvmeVirt

/-- The states in which the loop of `isqrt_u64` tests its condition. -/
inductive IsqrtLoop (n : Nat) : (passes x y : Nat) → Prop where
  | enter : 1 < n → IsqrtLoop n 0 n (u64 (n + 1) / 2)
  | pass {k x y : Nat} : IsqrtLoop n k x y → y < x →
    IsqrtLoop n (k + 1) y (u64 (y + n / y) / 2)

section Isqrt

variable {n k x y : Nat}

/-- A pass computes a Newton step: its sum does not wrap. -/
theorem isqrt_pass_eq (hbound : n + 1 < 2 ^ 64) (hx : 0 < x) (hxn : x ≤ n) :
    u64 (x + n / x) / 2 = newtonStep n x := by
  have hsum := newton_sum_le hx hxn
  unfold u64
  rw [Nat.mod_eq_of_lt (by omega)]
  rfl

theorem isqrt_enter_eq (hbound : n + 1 < 2 ^ 64) (hn : 0 < n) :
    u64 (n + 1) / 2 = newtonStep n n := by
  unfold u64 newtonStep
  rw [Nat.mod_eq_of_lt hbound, Nat.div_self hn]

/-- A step from a positive iterate is positive. -/
theorem newtonStep_pos (hn : 0 < n) (hx : 0 < x) : 0 < newtonStep n x :=
  Nat.lt_of_lt_of_le (Nat.sqrt_pos.mpr hn) (sqrt_le_newtonStep hx)

/-! ## The states of the loop -/

/-- What holds whenever the loop tests its condition. -/
structure IsqrtLoop.Descends (n k x y : Nat) : Prop where
  pos : 0 < x
  root : n.sqrt ≤ x
  passes : k + x ≤ n
  step : y = newtonStep n x

theorem IsqrtLoop.newton (h : IsqrtLoop n k x y) (hbound : n + 1 < 2 ^ 64) :
    IsqrtLoop.Descends n k x y := by
  induction h with
  | enter hn =>
    have hpos : 0 < n := Nat.lt_trans Nat.zero_lt_one hn
    exact ⟨hpos, Nat.sqrt_le_self n, by omega, isqrt_enter_eq hbound hpos⟩
  | @pass k x y _ hlt ih =>
    have hn : 0 < n := by
      have := ih.passes
      have := ih.pos
      omega
    have hpos : 0 < y := by
      rw [ih.step]
      exact newtonStep_pos hn ih.pos
    have hroot : n.sqrt ≤ y := by
      rw [ih.step]
      exact sqrt_le_newtonStep ih.pos
    have hpasses : k + 1 + y ≤ n := by
      have := ih.passes
      omega
    exact ⟨hpos, hroot, hpasses, isqrt_pass_eq hbound hpos (by omega)⟩

/-- Where the loop stops, it is at the root. -/
theorem IsqrtLoop.Descends.eq_sqrt (h : IsqrtLoop.Descends n k x y) (hstop : ¬ y < x) :
    x = n.sqrt := by
  apply Nat.le_antisymm _ h.root
  apply le_sqrt_of_le_newtonStep h.pos
  rw [← h.step]
  exact Nat.le_of_not_lt hstop

/-- From each of its states the loop goes on to one in which it stops. -/
theorem IsqrtLoop.stops (h : IsqrtLoop n k x y) :
    ∃ k' x' y', IsqrtLoop n k' x' y' ∧ ¬ y' < x' ∧ isqrtLoop n x y = x' := by
  induction x using Nat.strongRecOn generalizing k y with
  | ind x ih =>
    unfold isqrtLoop
    by_cases hlt : y < x
    · rw [if_pos hlt]
      exact ih y hlt (h.pass hlt)
    · rw [if_neg hlt]
      exact ⟨k, x, y, h, hlt, rfl⟩

/-- `isqrt_u64` is the integer square root, below `UINT64_MAX`. -/
theorem isqrtU64_eq (hbound : n + 1 < 2 ^ 64) : isqrtU64 n = n.sqrt := by
  unfold isqrtU64
  split
  · rename_i hsmall
    rcases Nat.le_one_iff_eq_zero_or_eq_one.mp hsmall with rfl | rfl
    · rfl
    · rw [Nat.sqrt_one]
      rfl
  · rename_i hlarge
    obtain ⟨k, x, y, hloop, hstop, heq⟩ := (IsqrtLoop.enter (Nat.lt_of_not_le hlarge)).stops
    rw [heq, (hloop.newton hbound).eq_sqrt hstop]
    have hroot : n.sqrt < 2 ^ 32 := Nat.sqrt_lt.mpr (by omega)
    exact Nat.mod_eq_of_lt hroot

end Isqrt

/-! ## The law -/

/-- The first sum of `isqrt_u64` does not wrap; whenever its loop is entered the divisor is positive
and the sum does not wrap, and it is entered fewer than `n` times; and the result is the root. The
largest number is left out: there the first sum wraps. -/
theorem isqrtU64_root {n : Nat} (h : n ≤ 2 ^ 64 - 2) :
    n + 1 < 2 ^ 64 ∧
      (∀ k x y, IsqrtLoop n k x y → k < n ∧ (y < x → 0 < y ∧ y + n / y < 2 ^ 64)) ∧
      (1 < n → ∃ k x y, IsqrtLoop n k x y ∧ ¬ y < x ∧ isqrtU64 n = x) ∧
      isqrtU64 n ^ 2 ≤ n ∧ n < (isqrtU64 n + 1) ^ 2 := by
  have hbound : n + 1 < 2 ^ 64 := by omega
  refine ⟨hbound, ?_, ?_, ?_, ?_⟩
  · intro k x y hloop
    have hdown := hloop.newton hbound
    have hpos := hdown.pos
    have hpasses := hdown.passes
    refine ⟨by omega, fun hlt => ?_⟩
    have hy : 0 < y := by
      rw [hdown.step]
      exact newtonStep_pos (by omega) hpos
    have hsum := newton_sum_le hy (show y ≤ n by omega)
    exact ⟨hy, by omega⟩
  · intro hn
    obtain ⟨k, x, y, hloop, hstop, _⟩ := (IsqrtLoop.enter hn).stops
    refine ⟨k, x, y, hloop, hstop, ?_⟩
    rw [isqrtU64_eq hbound, (hloop.newton hbound).eq_sqrt hstop]
  · rw [isqrtU64_eq hbound]
    exact Nat.sqrt_le' n
  · rw [isqrtU64_eq hbound]
    exact Nat.lt_succ_sqrt' n

theorem isqrtU64_root_top : isqrtU64 (2 ^ 64 - 2) ^ 2 ≤ 2 ^ 64 - 2 ∧
    2 ^ 64 - 2 < (isqrtU64 (2 ^ 64 - 2) + 1) ^ 2 :=
  (isqrtU64_root (Nat.le_refl (2 ^ 64 - 2))).2.2.2

end NvmeVirt

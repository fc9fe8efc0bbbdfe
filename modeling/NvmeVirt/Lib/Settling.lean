import Mathlib.Tactic.Common

/-!
# Repeating a fallible step until it settles

`repeated f n` is `n` calls of `f`, up to the first failure. Where every call on an unsettled state
succeeds and makes a measure smaller, so many calls as the measure says are enough (`settles`).
-/

set_option autoImplicit false

namespace NvmeVirt

variable {σ ε : Type} {f : σ → Except ε σ} {I done : σ → Prop} {μ : σ → Nat}

/-- `n` calls of `f`. -/
def repeated (f : σ → Except ε σ) : Nat → σ → Except ε σ
  | 0, s => pure s
  | n + 1, s => do
    let s ← f s
    repeated f n s

theorem repeated_succ {s s' : σ} (h : f s = .ok s') (n : Nat) :
    repeated f (n + 1) s = repeated f n s' := by
  simp only [repeated, h]
  rfl

theorem repeated_error {s : σ} {e : ε} (h : f s = .error e) (n : Nat) :
    repeated f (n + 1) s = .error e := by
  simp only [repeated, h]
  rfl

/-- A state that a call leaves as it is stays. -/
theorem repeated_fixed {s : σ} (h : f s = .ok s) (n : Nat) : repeated f n s = .ok s := by
  induction n with
  | zero => rfl
  | succ n ih => rw [repeated_succ h, ih]

/-- The measure bounds the calls that are needed. -/
theorem settles (hstep : ∀ s, I s → ¬ done s → ∃ s', f s = .ok s' ∧ I s' ∧ μ s' < μ s) {s : σ}
    (hs : I s) : ∃ n ≤ μ s, ∃ s', repeated f n s = .ok s' ∧ I s' ∧ done s' := by
  induction hm : μ s using Nat.strongRecOn generalizing s with
  | _ m ih =>
    by_cases hdone : done s
    · exact ⟨0, Nat.zero_le m, s, rfl, hs, hdone⟩
    · obtain ⟨s', hf, hs', hlt⟩ := hstep s hs hdone
      obtain ⟨n, hn, s'', hrun, hs'', hdone''⟩ := ih (μ s') (hm ▸ hlt) hs' rfl
      exact ⟨n + 1, by omega, s'', (repeated_succ hf n).trans hrun, hs'', hdone''⟩

end NvmeVirt

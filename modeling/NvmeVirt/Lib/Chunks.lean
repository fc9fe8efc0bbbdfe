import Mathlib.Tactic.Common
import Mathlib.Data.Nat.ModEq

/-!
# Chunks of an interval

`n` items are cut into chunks of `cap`, of which the last may be short. Items come in order;
`completed` counts those of the first `x` that are in chunks that are complete by then.
-/

set_option autoImplicit false

namespace NvmeVirt

def completed (cap n x : Nat) : Nat := if x = n then n else x / cap * cap

/-- The size of the chunk that ends at `x`. -/
def chunkAt (cap n x : Nat) : Nat := if x = n ∧ 0 < n % cap then n % cap else cap

section Chunks

variable {cap n x k : Nat}

theorem completed_le (cap n x : Nat) : completed cap n x ≤ x := by
  unfold completed
  split
  · rename_i hx
    exact Nat.le_of_eq hx.symm
  · exact Nat.div_mul_le_self x cap

@[simp] theorem completed_self (cap n : Nat) : completed cap n n = n := if_pos rfl

/-- `k` more items that stay in the chunk of the item `x` complete it or leave everything as it was. -/
theorem completed_add (hcap : 0 < cap) (hk : 0 < k) (hchunk : x % cap + k ≤ cap) (hn : x + k ≤ n) :
    completed cap n (x + k) = completed cap n x +
      if x % cap + k = cap ∨ x + k = n then chunkAt cap n (x + k) else 0 := by
  have hx : x ≠ n := by omega
  have hdiv := Nat.div_add_mod x cap
  rw [Nat.mul_comm] at hdiv
  unfold completed chunkAt
  rw [if_neg hx]
  by_cases hend : x + k = n
  · rw [if_pos hend, if_pos (.inr hend)]
    by_cases hfull : x % cap + k = cap
    · have hmod : n % cap = 0 := by
        rw [← hend, ← hdiv, Nat.add_assoc, hfull, ← Nat.succ_mul]
        exact Nat.mul_mod_left _ _
      rw [hmod, if_neg fun hboth => Nat.lt_irrefl 0 hboth.2]
      omega
    · have hmod : n % cap = x % cap + k := by
        rw [← hend, ← hdiv, Nat.add_assoc, Nat.add_comm, Nat.add_mul_mod_self_right]
        rw [Nat.add_comm (x / cap * cap), Nat.add_mul_mod_self_right, Nat.mod_mod]
        exact Nat.mod_eq_of_lt (by omega)
      rw [hmod, if_pos ⟨hend, by omega⟩]
      omega
  · rw [if_neg hend]
    by_cases hfull : x % cap + k = cap
    · have hquot : (x + k) / cap = x / cap + 1 := by
        apply Nat.div_eq_of_lt_le
        · rw [Nat.add_mul, Nat.one_mul]
          omega
        · rw [Nat.add_mul, Nat.add_mul, Nat.one_mul]
          omega
      rw [hquot, if_pos (.inl hfull), if_neg fun hboth => hend hboth.1, Nat.succ_mul]
    · have hquot : (x + k) / cap = x / cap := by
        apply (Nat.div_eq_iff hcap).mpr
        omega
      rw [hquot, if_neg (not_or.mpr ⟨hfull, hend⟩), Nat.add_zero]

end Chunks

end NvmeVirt

import Mathlib.Data.List.Basic
import Mathlib.Tactic.Common

/-!
# Rings with a phase

Slots of a ring are used in turn, and a phase tag tells the laps apart: it is set on the laps with even
numbers. `InStep` says that the head and the phase stand where so many uses since the start leave
them, and that every use went to its slot with its tag.
-/

set_option autoImplicit false

namespace NvmeVirt

/-- The next slot. -/
theorem succ_mod_ring {depth : Nat} (hpos : 0 < depth) (n : Nat) :
    (n + 1) % depth = if n % depth + 1 = depth then 0 else n % depth + 1 := by
  have hlt := Nat.mod_lt n hpos
  have hsum : (n + 1) % depth = (n % depth + 1) % depth := (Nat.mod_add_mod n depth 1).symm
  split
  · rename_i hwrap
    rw [hsum, hwrap, Nat.mod_self]
  · rename_i hwrap
    rw [hsum, Nat.mod_eq_of_lt (by omega)]

/-- A lap ends at the last slot. -/
theorem succ_div_ring {depth : Nat} (hpos : 0 < depth) (n : Nat) :
    (n + 1) / depth = if n % depth + 1 = depth then n / depth + 1 else n / depth := by
  have hmod := succ_mod_ring hpos n
  have hold := Nat.div_add_mod n depth
  have hnew := Nat.div_add_mod (n + 1) depth
  rw [hmod] at hnew
  split
  · rename_i hwrap
    rw [if_pos hwrap] at hnew
    apply Nat.eq_of_mul_eq_mul_left hpos
    rw [Nat.mul_add, Nat.mul_one]
    omega
  · rename_i hwrap
    rw [if_neg hwrap] at hnew
    apply Nat.eq_of_mul_eq_mul_left hpos
    omega

/-- How far a slot is behind another. -/
theorem ring_distance {depth start k : Nat} (hstart : start < depth) (hk : k < depth) :
    ((start + k) % depth + depth - start) % depth = k := by
  rcases Nat.lt_or_ge (start + k) depth with hlt | hge
  · have hsum : start + k + depth - start = k + depth := by omega
    rw [Nat.mod_eq_of_lt hlt, hsum, Nat.add_mod_right, Nat.mod_eq_of_lt hk]
  · have hwrap : (start + k) % depth = start + k - depth := by
      rw [Nat.mod_eq_sub_mod hge, Nat.mod_eq_of_lt (by omega)]
    have hsum : start + k - depth + depth - start = k := by omega
    rw [hwrap, hsum, Nat.mod_eq_of_lt hk]

/-- The tag of the `n`-th use. -/
def lapTag (depth n : Nat) : Bool := n / depth % 2 = 0

structure InStep (depth head : Nat) (phase : Bool) (uses : List (Nat × Bool)) : Prop where
  depth_pos : 0 < depth
  head : head = uses.length % depth
  phase : phase = lapTag depth uses.length
  uses : ∀ k slot tag, uses[k]? = some (slot, tag) → slot = k % depth ∧ tag = lapTag depth k

namespace InStep

variable {depth head : Nat} {phase : Bool} {uses : List (Nat × Bool)}

theorem start (hpos : 0 < depth) : InStep depth 0 true [] := by
  refine ⟨hpos, (Nat.zero_mod depth).symm, ?_, nofun⟩
  unfold lapTag
  rw [List.length_nil, Nat.zero_div]
  rfl

/-- A use of the head. -/
theorem use (h : InStep depth head phase uses) :
    InStep depth (if head + 1 = depth then 0 else head + 1)
      (if head + 1 = depth then !phase else phase) (uses ++ [(head, phase)]) := by
  have hmod := succ_mod_ring h.depth_pos uses.length
  have hdiv := succ_div_ring h.depth_pos uses.length
  rw [← h.head] at hmod hdiv
  refine ⟨h.depth_pos, ?_, ?_, ?_⟩
  · rw [List.length_append, List.length_singleton, hmod]
  · rw [List.length_append, List.length_singleton]
    unfold lapTag
    rw [hdiv, h.phase]
    unfold lapTag
    split
    · rcases Nat.mod_two_eq_zero_or_one (uses.length / depth) with heven | hodd
      · have hnext : (uses.length / depth + 1) % 2 = 1 := by omega
        simp [heven, hnext]
      · have hnext : (uses.length / depth + 1) % 2 = 0 := by omega
        simp [hodd, hnext]
    · rfl
  · intro k slot tag hk
    by_cases hlt : k < uses.length
    · rw [List.getElem?_append_left hlt] at hk
      exact h.uses k slot tag hk
    · obtain rfl : k = uses.length := by
        have hbound := (List.getElem?_eq_some_iff.mp hk).1
        rw [List.length_append, List.length_singleton] at hbound
        omega
      rw [List.getElem?_concat_length] at hk
      obtain ⟨rfl, rfl⟩ := Prod.mk.inj (Option.some.inj hk)
      exact ⟨h.head, h.phase⟩

end InStep

end NvmeVirt

import Mathlib.Algebra.Order.Ring.Nat
import Mathlib.Algebra.BigOperators.Group.Finset.Piecewise
import Mathlib.Algebra.BigOperators.Group.List.Basic
import Mathlib.Logic.Function.Basic

/-!
# Batches of weighted items

Items go into the open batch of their slot; a batch with `cap` items is completed and its slot starts
a new one. The total weight of the open and the completed batches is what was put in, and when all
items weigh the same a completed batch weighs `cap` of them.
-/

set_option autoImplicit false

namespace NvmeVirt

structure Batches (ι : Type) where
  fill : ι → Nat
  weight : ι → Nat
  completed : List Nat

namespace Batches

variable {ι : Type}

def empty : Batches ι := { fill := fun _ => 0, weight := fun _ => 0, completed := [] }

/-- The weight of the open batches of the slots `S` and of the completed ones. -/
def total (b : Batches ι) (S : Finset ι) : Nat := ∑ i ∈ S, b.weight i + b.completed.sum

/-- The completed batch at `k` is taken away. -/
def take (b : Batches ι) (k : Nat) : Batches ι := { b with completed := b.completed.eraseIdx k }

/-- Every item weighs `c`, and `cap` of them are a batch. -/
structure Uniform (b : Batches ι) (c cap : Nat) (S : Finset ι) : Prop where
  weight : ∀ i ∈ S, b.weight i = c * b.fill i
  completed : ∀ x ∈ b.completed, x = c * cap

theorem total_empty (S : Finset ι) : (empty : Batches ι).total S = 0 := by
  simp [total, empty]

theorem total_take {b : Batches ι} {k x : Nat} (h : b.completed[k]? = some x) (S : Finset ι) :
    (b.take k).total S + x = b.total S := by
  obtain ⟨hk, hx⟩ := List.getElem?_eq_some_iff.mp h
  have hsum : b.completed.sum = x + (b.completed.eraseIdx k).sum := by
    have hperm := List.getElem_cons_eraseIdx_perm hk
    rw [← hperm.sum_eq, List.sum_cons, hx]
  show ∑ i ∈ S, b.weight i + (b.completed.eraseIdx k).sum + x = ∑ i ∈ S, b.weight i + _
  omega

section Add

variable [DecidableEq ι]

/-- Put an item of weight `w` into the slot `i`. -/
def add (b : Batches ι) (cap : Nat) (i : ι) (w : Nat) : Batches ι :=
  if b.fill i + 1 = cap then
    { fill := Function.update b.fill i 0, weight := Function.update b.weight i 0
      completed := b.completed ++ [b.weight i + w] }
  else
    { b with fill := Function.update b.fill i (b.fill i + 1)
             weight := Function.update b.weight i (b.weight i + w) }

variable {b : Batches ι} {cap w : Nat} {i : ι}

theorem total_add (b : Batches ι) (cap w : Nat) {S : Finset ι} (hi : i ∈ S) :
    (b.add cap i w).total S = b.total S + w := by
  unfold add total
  have hold := Finset.add_sum_erase S b.weight hi
  split
  · rw [Finset.sum_update_of_mem hi, Finset.sdiff_singleton_eq_erase, List.sum_append,
      List.sum_singleton]
    omega
  · rw [Finset.sum_update_of_mem hi, Finset.sdiff_singleton_eq_erase]
    show _ + b.completed.sum = _
    omega

/-- Counting modulo the capacity. -/
theorem succ_mod_eq (p : Nat) {cap : Nat} (hcap : 0 < cap) :
    (p + 1) % cap = if p % cap + 1 = cap then 0 else p % cap + 1 := by
  rw [← Nat.mod_add_mod]
  split
  · rename_i hfull
    rw [hfull, Nat.mod_self]
  · rename_i hopen
    have hlt := Nat.mod_lt p hcap
    exact Nat.mod_eq_of_lt (by omega)

/-- The fill of a slot counts its items modulo the capacity. -/
theorem fill_add_self {p : Nat} (h : b.fill i = p % cap) (hcap : 0 < cap) :
    (b.add cap i w).fill i = (p + 1) % cap := by
  rw [succ_mod_eq p hcap, ← h]
  unfold add
  split
  · exact Function.update_self ..
  · exact Function.update_self ..

theorem fill_add_of_ne {j : ι} (h : j ≠ i) : (b.add cap i w).fill j = b.fill j := by
  unfold add
  split
  · exact Function.update_of_ne h ..
  · exact Function.update_of_ne h ..

/-- A batch is completed when the count gets back to zero. -/
theorem length_completed_add {p : Nat} (h : b.fill i = p % cap) (hcap : 0 < cap) :
    (b.add cap i w).completed.length =
      b.completed.length + if (p + 1) % cap = 0 then 1 else 0 := by
  rw [succ_mod_eq p hcap, ← h]
  unfold add
  split
  · exact List.length_append
  · exact (Nat.add_zero _).symm

theorem Uniform.add {c : Nat} {S : Finset ι} (h : b.Uniform c cap S) (hi : i ∈ S) :
    (b.add cap i c).Uniform c cap S := by
  have hone : b.weight i + c = c * (b.fill i + 1) := by rw [h.weight i hi, Nat.mul_succ]
  unfold Batches.add
  split
  · rename_i hfull
    constructor
    · intro j hj
      by_cases hji : j = i
      · rw [hji]
        simp only [Function.update_self, Nat.mul_zero]
      · simp only [Function.update_of_ne hji]
        exact h.weight j hj
    · intro x hx
      rcases List.mem_append.mp hx with hold | hnew
      · exact h.completed x hold
      · rw [List.mem_singleton.mp hnew, hone, hfull]
  · constructor
    · intro j hj
      by_cases hji : j = i
      · rw [hji]
        simp only [Function.update_self]
        exact hone
      · simp only [Function.update_of_ne hji]
        exact h.weight j hj
    · exact h.completed

end Add

theorem uniform_empty (c cap : Nat) (S : Finset ι) : (empty : Batches ι).Uniform c cap S :=
  ⟨fun _ _ => rfl, nofun⟩

theorem Uniform.take {b : Batches ι} {c cap : Nat} {S : Finset ι} (h : b.Uniform c cap S) (k : Nat) :
    (b.take k).Uniform c cap S :=
  ⟨h.weight, fun x hx => h.completed x (List.mem_of_mem_eraseIdx hx)⟩

end Batches

end NvmeVirt

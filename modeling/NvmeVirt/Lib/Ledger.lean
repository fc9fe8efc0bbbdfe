import Mathlib.Algebra.Order.Ring.Nat
import Mathlib.Algebra.BigOperators.Group.Finset.Piecewise
import Mathlib.Algebra.Order.BigOperators.Group.Finset
import Mathlib.Logic.Function.Basic

/-!
# A pool and the accounts it serves

Units are taken out of a pool on behalf of an account, and given back later, in payments that are
promised first. `Balanced` says that what the pool has left and what its accounts have taken make up
its size and what they gave back; `owed` is what an account has been promised and not been paid.
-/

set_option autoImplicit false

namespace NvmeVirt.Ledger

variable {ι : Type} [DecidableEq ι]

/-! ## Promised payments -/

/-- The payments of `l` for the account `a`. -/
def owed (l : List (ι × Nat)) (a : ι) : Nat := ((l.filter (·.1 = a)).map Prod.snd).sum

section Owed

variable {l : List (ι × Nat)} {a b : ι} {n : Nat}

theorem owed_append (l l' : List (ι × Nat)) (a : ι) : owed (l ++ l') a = owed l a + owed l' a := by
  unfold owed
  rw [List.filter_append, List.map_append, List.sum_append]

theorem owed_cons (p : ι × Nat) (l : List (ι × Nat)) (a : ι) :
    owed (p :: l) a = (if p.1 = a then p.2 else 0) + owed l a := by
  unfold owed
  rw [List.filter_cons]
  by_cases hp : p.1 = a
  · simp [hp]
  · simp [hp]

/-- Payments for one account. -/
theorem owed_for (a : ι) (ns : List Nat) (b : ι) :
    owed (ns.map fun n => (a, n)) b = if a = b then ns.sum else 0 := by
  induction ns with
  | nil => simp [owed]
  | cons n ns ih =>
    rw [List.map_cons, owed_cons, ih]
    by_cases hab : a = b
    · simp [hab]
    · simp [hab]

/-- The payment at `k` is made. -/
theorem owed_eraseIdx {k : Nat} (h : l[k]? = some (a, n)) (b : ι) :
    owed (l.eraseIdx k) b + (if a = b then n else 0) = owed l b := by
  induction l generalizing k with
  | nil => exact nomatch h
  | cons p l ih =>
    cases k with
    | zero =>
      obtain rfl : p = (a, n) := by simpa using h
      rw [List.eraseIdx_zero, List.tail_cons, owed_cons, Nat.add_comm]
    | succ k =>
      rw [List.eraseIdx_cons_succ, owed_cons, owed_cons, Nat.add_assoc]
      congr 1
      apply ih
      simpa using h

theorem owed_eq_zero (h : ∀ p ∈ l, p.1 ≠ a) : owed l a = 0 := by
  unfold owed
  rw [List.filter_eq_nil_iff.mpr]
  · rfl
  · simpa using h

end Owed

/-! ## The balance of a pool -/

/-- The pool of the accounts `S`: what they took is in `out`, what they gave back in `back`. -/
def Balanced (S : Finset ι) (out back : ι → Nat) (remaining size : Nat) : Prop :=
  remaining + ∑ a ∈ S, out a = size + ∑ a ∈ S, back a

section Balanced

variable {S : Finset ι} {out back : ι → Nat} {remaining size n v : Nat} {a : ι}

theorem sum_update_add (f : ι → Nat) (ha : a ∈ S) (n : Nat) :
    ∑ b ∈ S, Function.update f a (f a + n) b = ∑ b ∈ S, f b + n := by
  have hold := Finset.add_sum_erase S f ha
  rw [Finset.sum_update_of_mem ha, Finset.sdiff_singleton_eq_erase]
  omega

theorem sum_update_other (f : ι → Nat) (ha : a ∉ S) (v : Nat) :
    ∑ b ∈ S, Function.update f a v b = ∑ b ∈ S, f b := by
  apply Finset.sum_congr rfl
  intro b hb
  apply Function.update_of_ne
  intro hba
  rw [hba] at hb
  exact ha hb

/-- `a` takes `n` units. -/
theorem Balanced.take (h : Balanced S out back remaining size) (ha : a ∈ S) (hn : n ≤ remaining) :
    Balanced S (Function.update out a (out a + n)) back (remaining - n) size := by
  unfold Balanced at h ⊢
  rw [sum_update_add out ha]
  omega

/-- `a` gives `n` units back. -/
theorem Balanced.give (h : Balanced S out back remaining size) (ha : a ∈ S) (n : Nat) :
    Balanced S out (Function.update back a (back a + n)) (remaining + n) size := by
  unfold Balanced at h ⊢
  rw [sum_update_add back ha]
  omega

/-- An account of another pool takes or gives. -/
theorem Balanced.take_other (h : Balanced S out back remaining size) (ha : a ∉ S) (v : Nat) :
    Balanced S (Function.update out a v) back remaining size := by
  unfold Balanced at h ⊢
  rw [sum_update_other out ha]
  exact h

theorem Balanced.give_other (h : Balanced S out back remaining size) (ha : a ∉ S) (v : Nat) :
    Balanced S out (Function.update back a v) remaining size := by
  unfold Balanced at h ⊢
  rw [sum_update_other back ha]
  exact h

omit [DecidableEq ι] in
/-- Where nothing comes back that was not taken, the pool is never over its size. -/
theorem Balanced.le_size (h : Balanced S out back remaining size) (hle : ∀ a ∈ S, back a ≤ out a) :
    remaining ≤ size := by
  have hsum := Finset.sum_le_sum hle
  unfold Balanced at h
  omega

end Balanced

end NvmeVirt.Ledger

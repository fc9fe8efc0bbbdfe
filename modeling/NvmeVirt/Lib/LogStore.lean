import Mathlib.Logic.Function.Basic
import Mathlib.Data.List.Basic
import Mathlib.Data.List.Induction

/-!
# Stores that never write in place

The values lie in places, and a map says which place holds the value of a key. A new value goes to a
place nothing is mapped to, and the map follows it. A value may be copied to another such place, and the
places nothing is mapped to may be wiped. Whatever order these steps come in, reading through the map
gives the value written last (`Serves`).
-/

set_option autoImplicit false

namespace NvmeVirt

variable {κ π ν : Type}

/-- Reading through the map gives what the store holds, and the keys without a value are unmapped. -/
structure Serves (map : κ → Option π) (held : π → Option ν) (store : κ → Option ν) : Prop where
  reads : ∀ k, (map k).bind held = store k
  mapped : ∀ k, (map k).isSome = (store k).isSome

namespace Serves

variable {map : κ → Option π} {held : π → Option ν} {store : κ → Option ν}

theorem empty : Serves (fun _ : κ => none) held fun _ => none := ⟨fun _ => rfl, fun _ => rfl⟩

/-- A mapped place holds the value of its key. -/
theorem held_eq (h : Serves map held store) {k : κ} {p : π} (hk : map k = some p) :
    held p = store k := by
  rw [← h.reads k, hk]
  rfl

theorem held_isSome (h : Serves map held store) {k : κ} {p : π} (hk : map k = some p) :
    (held p).isSome = true := by
  rw [h.held_eq hk, ← h.mapped k, hk]
  rfl

/-- Only the places something is mapped to matter. -/
theorem congr (h : Serves map held store) {held' : π → Option ν}
    (hsame : ∀ k p, map k = some p → held' p = held p) : Serves map held' store := by
  refine ⟨fun k => ?_, h.mapped⟩
  rw [← h.reads k]
  cases hk : map k with
  | none => rfl
  | some p => exact hsame k p hk

/-- Places nothing is mapped to are wiped. -/
theorem wipe (h : Serves map held store) {gone : π → Prop} [DecidablePred gone]
    (hgone : ∀ k p, map k = some p → ¬ gone p) :
    Serves map (fun p => if gone p then none else held p) store :=
  h.congr fun k p hk => if_neg (hgone k p hk)

section Moves

variable [DecidableEq κ] [DecidableEq π]

/-- The key gets the place `q`, which holds `v`. -/
theorem remap (h : Serves map held store) {k : κ} {q : π} {v : ν}
    (hfresh : ∀ k', k' ≠ k → map k' ≠ some q) :
    Serves (Function.update map k (some q)) (Function.update held q (some v))
      (Function.update store k (some v)) := by
  constructor
  · intro k'
    by_cases hk : k' = k
    · rw [hk, Function.update_self, Function.update_self]
      exact Function.update_self ..
    · rw [Function.update_of_ne hk, Function.update_of_ne hk, ← h.reads k']
      cases hp : map k' with
      | none => rfl
      | some p =>
        have hpq : p ≠ q := fun he => hfresh k' hk (he ▸ hp)
        exact Function.update_of_ne hpq ..
  · intro k'
    by_cases hk : k' = k
    · rw [hk, Function.update_self, Function.update_self]
      rfl
    · rw [Function.update_of_ne hk, Function.update_of_ne hk]
      exact h.mapped k'

/-- The value of a key is copied from its place `p` to `q`. -/
theorem move (h : Serves map held store) {k : κ} {p q : π} (hk : map k = some p)
    (hfresh : ∀ k', k' ≠ k → map k' ≠ some q) :
    Serves (Function.update map k (some q)) (Function.update held q (held p)) store := by
  obtain ⟨v, hv⟩ := Option.isSome_iff_exists.mp (h.held_isSome hk)
  have hstore : store k = some v := (h.held_eq hk).symm.trans hv
  have hkept : Function.update store k (some v) = store := by
    rw [← hstore, Function.update_eq_self]
  have hmoved := h.remap (v := v) hfresh
  rw [hkept] at hmoved
  rw [hv]
  exact hmoved

end Moves

end Serves

/-- The number of the last of the writes to each key. -/
def newest [DecidableEq κ] (keys : List κ) : κ → Option Nat :=
  keys.zipIdx.foldl (fun store e => Function.update store e.1 (some e.2)) fun _ => none

theorem newest_concat [DecidableEq κ] (keys : List κ) (k : κ) :
    newest (keys ++ [k]) = Function.update (newest keys) k (some keys.length) := by
  unfold newest
  rw [List.zipIdx_append, List.foldl_append, Nat.zero_add]
  rfl

theorem newest_eq_some [DecidableEq κ] {keys : List κ} {k : κ} {n : Nat} :
    newest keys k = some n ↔ keys[n]? = some k ∧ ∀ m, n < m → keys[m]? ≠ some k := by
  induction keys using List.reverseRecOn generalizing n with
  | nil => exact iff_of_false (Option.some_ne_none n).symm fun h => (Option.some_ne_none k).symm h.1
  | append_singleton keys key ih =>
    rw [newest_concat]
    by_cases hk : k = key
    · subst hk
      rw [Function.update_self, Option.some_inj]
      constructor
      · rintro rfl
        refine ⟨List.getElem?_concat_length, fun m hm => ?_⟩
        rw [List.getElem?_eq_none (by rw [List.length_append]; exact hm)]
        exact (Option.some_ne_none k).symm
      · rintro ⟨hn, hlast⟩
        have hle : n < (keys ++ [k]).length := (List.getElem?_eq_some_iff.mp hn).1
        rw [List.length_append] at hle
        refine (Nat.lt_or_eq_of_le (Nat.le_of_lt_succ hle)).elim (fun hlt => ?_) Eq.symm
        exact absurd List.getElem?_concat_length (hlast _ hlt)
    · rw [Function.update_of_ne hk, ih]
      have hget : ∀ m : Nat, (keys ++ [key])[m]? = some k ↔ keys[m]? = some k := by
        intro m
        rcases Nat.lt_trichotomy m keys.length with hm | rfl | hm
        · rw [List.getElem?_append_left hm]
        · rw [List.getElem?_concat_length, List.getElem?_eq_none (Nat.le_refl _), Option.some_inj]
          exact iff_of_false (fun he => hk he.symm) (Option.some_ne_none k).symm
        · rw [List.getElem?_eq_none (by rw [List.length_append]; exact hm),
            List.getElem?_eq_none (Nat.le_of_lt hm)]
      refine and_congr (hget n).symm (forall_congr' fun m => imp_congr_right fun _ => ?_)
      exact not_congr (hget m).symm

theorem newest_isSome [DecidableEq κ] {keys : List κ} {k : κ} :
    (newest keys k).isSome = true ↔ k ∈ keys := by
  induction keys using List.reverseRecOn with
  | nil => exact iff_of_false Bool.noConfusion List.not_mem_nil
  | append_singleton keys key ih =>
    rw [newest_concat, List.mem_append, List.mem_singleton]
    by_cases hk : k = key
    · rw [hk, Function.update_self]
      exact iff_of_true rfl (.inr rfl)
    · rw [Function.update_of_ne hk, ih]
      exact (or_iff_left hk).symm

end NvmeVirt

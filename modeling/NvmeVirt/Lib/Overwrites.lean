import Mathlib.Data.List.Basic
import Mathlib.Data.List.Induction

/-!
# Stores written in place

A write gives a value to some places and leaves the others alone; writes are done one after the other.
A place has the value of the last write that covers it, and without one the value it had at first.

`Staged` is a store while several writes are made piece by piece. As long as no two of them go to a
common place, each is as good as made at once, when its last piece is.
-/

set_option autoImplicit false

namespace NvmeVirt

variable {π ν : Type}

/-- The store after one write. -/
def overwrite (store : π → ν) (write : π → Option ν) : π → ν := fun a => (write a).getD (store a)

/-- The store after some writes. -/
def replay (store : π → ν) (writes : List (π → Option ν)) : π → ν := writes.foldl overwrite store

section Replay

variable {store : π → ν} {write : π → Option ν} {writes before after : List (π → Option ν)} {a : π}
  {v : ν}

theorem replay_append : replay store (before ++ after) = replay (replay store before) after :=
  List.foldl_append

theorem replay_concat : replay store (writes ++ [write]) = overwrite (replay store writes) write := by
  rw [replay_append]
  rfl

theorem overwrite_of_some (h : write a = some v) : overwrite store write a = v := by
  simp [overwrite, h]

theorem overwrite_of_none (h : write a = none) : overwrite store write a = store a := by
  simp [overwrite, h]

/-- A place that a write covers has the value of that write or of a later one. -/
theorem replay_covered (h : write a = some v) :
    ∃ w ∈ write :: after, w a = some (replay store (before ++ write :: after) a) := by
  induction after using List.reverseRecOn with
  | nil =>
    refine ⟨write, List.mem_cons_self, ?_⟩
    rw [replay_concat, overwrite_of_some h, h]
  | append_singleton after last ih =>
    have hlist : before ++ write :: (after ++ [last]) = (before ++ write :: after) ++ [last] := by
      simp
    rw [hlist, replay_concat]
    cases hlast : last a with
    | none =>
      obtain ⟨w, hw, hvalue⟩ := ih
      rw [overwrite_of_none hlast]
      refine ⟨w, ?_, hvalue⟩
      rw [← List.cons_append]
      exact List.mem_append_left _ hw
    | some u =>
      refine ⟨last, by simp, ?_⟩
      rw [overwrite_of_some hlast, hlast]

end Replay

/-! ## Writes under way -/

/-- Of each of some writes a part has been made. The store has what these parts give, and elsewhere
what `base` has, which no write under way has changed yet. -/
structure Staged {ι : Type} (base store : π → ν) (made : ι → π → Option ν) : Prop where
  clear : ∀ a, (∀ i, made i a = none) → store a = base a
  covered : ∀ i a v, made i a = some v → store a = v

namespace Staged

variable {ι : Type} {base store : π → ν} {made made' : ι → π → Option ν} {i : ι}

/-- No write is under way. -/
theorem nothing (h : ∀ i a, made i a = none) : Staged base base made where
  clear _ _ := rfl
  covered i a _ hv := nomatch (h i a).symm.trans hv

/-- A write is made a piece further, over places where no other one has been made. -/
theorem extend (h : Staged base store made) {piece : π → Option ν}
    (hself : ∀ a, made' i a = (piece a).or (made i a)) (hothers : ∀ j, j ≠ i → made' j = made j)
    (hapart : ∀ j, j ≠ i → ∀ a v, made j a = some v → piece a = none) :
    Staged base (overwrite store piece) made' where
  clear a hnone := by
    have hi := hnone i
    rw [hself, Option.or_eq_none_iff] at hi
    rw [overwrite_of_none hi.1]
    refine h.clear a fun j => ?_
    by_cases hj : j = i
    · rw [hj]
      exact hi.2
    · rw [← hothers j hj]
      exact hnone j
  covered j a v hv := by
    by_cases hj : j = i
    · subst hj
      rw [hself] at hv
      cases hpiece : piece a with
      | none =>
        rw [hpiece, Option.none_or] at hv
        rw [overwrite_of_none hpiece]
        exact h.covered j a v hv
      | some u =>
        rw [hpiece, Option.some_or] at hv
        rw [overwrite_of_some hpiece]
        exact Option.some.inj hv
    · rw [hothers j hj] at hv
      rw [overwrite_of_none (hapart j hj a v hv)]
      exact h.covered j a v hv

/-- A write is over. -/
theorem finish (h : Staged base store made) (hself : ∀ a, made' i a = none)
    (hothers : ∀ j, j ≠ i → made' j = made j) : Staged (overwrite base (made i)) store made' where
  clear a hnone := by
    cases hi : made i a with
    | some v => rw [overwrite_of_some hi, h.covered i a v hi]
    | none =>
      rw [overwrite_of_none hi]
      refine h.clear a fun j => ?_
      by_cases hj : j = i
      · rw [hj]
        exact hi
      · rw [← hothers j hj]
        exact hnone j
  covered j a v hv := by
    have hj : j ≠ i := by
      rintro rfl
      exact nomatch (hself a).symm.trans hv
    rw [hothers j hj] at hv
    exact h.covered j a v hv

end Staged

end NvmeVirt

import Mathlib.Algebra.BigOperators.Group.Finset.Basic
import Mathlib.Algebra.Order.BigOperators.Group.Finset
import Mathlib.Data.Finset.Card
import Mathlib.Logic.Function.Basic

/-!
# Tallies

`tally S f k` is the number of elements of `S` that `f` marks `k`. Marking one element afresh moves
one unit from its old mark to its new one, and nothing else.
-/

set_option autoImplicit false

namespace NvmeVirt

variable {α κ : Type} [DecidableEq κ]

/-- How many elements of `S` are marked `k`. -/
def tally (S : Finset α) (f : α → κ) (k : κ) : Nat := (S.filter (f · = k)).card

theorem tally_congr {S : Finset α} {f g : α → κ} (h : ∀ a ∈ S, f a = g a) (k : κ) :
    tally S f k = tally S g k := by
  unfold tally
  rw [Finset.filter_congr fun a ha => by rw [h a ha]]

/-- The tally of a set counts one of its elements by itself. -/
theorem tally_erase_add [DecidableEq α] {S : Finset α} {x : α} (hx : x ∈ S) (f : α → κ) (k : κ) :
    tally S f k = tally (S.erase x) f k + (if f x = k then 1 else 0) := by
  have hS : S = insert x (S.erase x) := (Finset.insert_erase hx).symm
  unfold tally
  conv_lhs => rw [hS]
  rw [Finset.filter_insert]
  split
  · rw [Finset.card_insert_of_notMem]
    simp
  · rw [Nat.add_zero]

/-- Marking `x ∈ S` afresh: the tallies of its old and new marks trade one unit. -/
theorem tally_remark [DecidableEq α] {S : Finset α} {f g : α → κ} {x : α} (hx : x ∈ S)
    (h : ∀ a ∈ S, a ≠ x → g a = f a) (k : κ) :
    tally S g k + (if f x = k then 1 else 0) = tally S f k + (if g x = k then 1 else 0) := by
  have hrest : tally (S.erase x) g k = tally (S.erase x) f k :=
    tally_congr (fun a ha => h a (Finset.mem_of_mem_erase ha) (Finset.ne_of_mem_erase ha)) k
  rw [tally_erase_add hx g, tally_erase_add hx f, hrest]
  omega

theorem tally_update_of_mem [DecidableEq α] {S : Finset α} (f : α → κ) {x : α} (hx : x ∈ S)
    (c k : κ) :
    tally S (Function.update f x c) k + (if f x = k then 1 else 0) =
      tally S f k + (if c = k then 1 else 0) := by
  have h := tally_remark hx (fun a _ ha => Function.update_of_ne ha c f) k
  rwa [Function.update_self] at h

theorem tally_update_of_notMem [DecidableEq α] {S : Finset α} (f : α → κ) {x : α} (hx : x ∉ S)
    (c k : κ) : tally S (Function.update f x c) k = tally S f k :=
  tally_congr (fun _ ha => Function.update_of_ne (by rintro rfl; exact hx ha) c f) k

theorem tally_eq_card {S : Finset α} {f : α → κ} {k : κ} (h : ∀ a ∈ S, f a = k) :
    tally S f k = S.card := by
  unfold tally
  rw [Finset.filter_true_of_mem h]

theorem tally_eq_zero {S : Finset α} {f : α → κ} {k : κ} (h : ∀ a ∈ S, f a ≠ k) :
    tally S f k = 0 := by
  unfold tally
  rw [Finset.card_eq_zero, Finset.filter_eq_empty_iff]
  exact h

theorem tally_pos {S : Finset α} {f : α → κ} {k : κ} {x : α} (hx : x ∈ S) (h : f x = k) :
    0 < tally S f k :=
  Finset.card_pos.mpr ⟨x, Finset.mem_filter.mpr ⟨hx, h⟩⟩

theorem tally_le_card (S : Finset α) (f : α → κ) (k : κ) : tally S f k ≤ S.card :=
  Finset.card_filter_le _ _

/-- The tallies of different marks count different elements. -/
theorem sum_tally_le_card (S : Finset α) (f : α → κ) (K : Finset κ) :
    ∑ k ∈ K, tally S f k ≤ S.card := by
  have hfib : (S.filter (f · ∈ K)).card = ∑ k ∈ K, ((S.filter (f · ∈ K)).filter (f · = k)).card :=
    Finset.card_eq_sum_card_fiberwise fun a ha => (Finset.mem_filter.mp ha).2
  have hmarks : ∀ k ∈ K, tally S f k = ((S.filter (f · ∈ K)).filter (f · = k)).card := by
    intro k hk
    unfold tally
    congr 1
    ext a
    simp only [Finset.mem_filter]
    constructor
    · rintro ⟨ha, rfl⟩
      exact ⟨⟨ha, hk⟩, rfl⟩
    · rintro ⟨⟨ha, _⟩, rfl⟩
      exact ⟨ha, rfl⟩
  rw [Finset.sum_congr rfl hmarks, ← hfib]
  exact Finset.card_filter_le _ _

end NvmeVirt

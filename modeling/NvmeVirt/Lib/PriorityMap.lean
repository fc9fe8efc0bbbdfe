import Mathlib.Data.List.Nodup
import Mathlib.Logic.Function.Basic

/-!
# Priority maps

The abstract priority queue: a map from the elements that are in it to their priorities, the least
going first. `Popped` takes an element of least priority out. What a row of pops takes out comes in the
order of the priorities and meets no element twice (`Pops.ordered`); a row that empties the map takes
out all of it.
-/

set_option autoImplicit false

namespace NvmeVirt

/-- The priorities of the elements. -/
abbrev PriorityMap (ι : Type) := ι → Option Nat

namespace PriorityMap

variable {ι : Type} [DecidableEq ι] {f g f' : PriorityMap ι} {l : List ι}

/-- `x` has the least priority, and is taken out. -/
structure Popped (f : PriorityMap ι) (x : ι) (f' : PriorityMap ι) : Prop where
  present : f x ≠ none
  least : ∀ y p q, f x = some p → f y = some q → p ≤ q
  after : f' = Function.update f x none

/-- The elements are taken out one after the other. -/
def Pops : PriorityMap ι → List ι → PriorityMap ι → Prop
  | f, [], f' => f = f'
  | f, x :: l, f' => ∃ g, Popped f x g ∧ Pops g l f'

/-- The elements come in the order of their priorities. -/
def InOrder (f : PriorityMap ι) (l : List ι) : Prop :=
  l.Pairwise fun x y => ∀ p q, f x = some p → f y = some q → p ≤ q

/-- The list is all elements, each once, in the order of their priorities. -/
structure Drained (f : PriorityMap ι) (l : List ι) : Prop where
  nodup : l.Nodup
  mem : ∀ x, x ∈ l ↔ f x ≠ none
  ordered : InOrder f l

theorem Popped.gone {x : ι} (h : Popped f x f') : f' x = none := by
  rw [h.after, Function.update_self]

theorem Popped.other {x y : ι} (h : Popped f x f') (hy : y ≠ x) : f' y = f y := by
  rw [h.after, Function.update_of_ne hy]

/-- What is taken out was in the map, and what was not is in neither. -/
theorem Pops.mem_iff (h : Pops f l f') (x : ι) : f x ≠ none ↔ x ∈ l ∨ f' x ≠ none := by
  induction l generalizing f with
  | nil =>
    obtain rfl : f = f' := h
    simp
  | cons a l ih =>
    obtain ⟨g, hpop, hrest⟩ := h
    by_cases hx : x = a
    · simp [hx, hpop.present]
    · rw [← hpop.other hx, ih hrest, List.mem_cons, or_iff_right hx]

/-- An element that is not in the map is not taken out. -/
theorem Pops.not_mem (h : Pops f l f') {x : ι} (hx : f x = none) : x ∉ l := fun hmem =>
  (h.mem_iff x).mpr (.inl hmem) hx

theorem Pops.ordered (h : Pops f l f') : l.Nodup ∧ InOrder f l := by
  induction l generalizing f with
  | nil => exact ⟨List.nodup_nil, List.Pairwise.nil⟩
  | cons a l ih =>
    obtain ⟨g, hpop, hrest⟩ := h
    obtain ⟨hnodup, hordered⟩ := ih hrest
    have hfresh : a ∉ l := hrest.not_mem hpop.gone
    have hsame : ∀ y ∈ l, g y = f y := fun y hy => hpop.other (ne_of_mem_of_not_mem hy hfresh)
    refine ⟨List.nodup_cons.mpr ⟨hfresh, hnodup⟩, List.pairwise_cons.mpr ⟨fun y _ p q => ?_, ?_⟩⟩
    · exact hpop.least y p q
    · refine hordered.imp_of_mem fun hx hy hle p q hp hq => ?_
      exact hle p q ((hsame _ hx).trans hp) ((hsame _ hy).trans hq)

/-- A row of pops that leaves nothing has taken out everything. -/
theorem Pops.drained (h : Pops f l f') (hempty : ∀ x, f' x = none) : Drained f l := by
  obtain ⟨hnodup, hordered⟩ := h.ordered
  refine ⟨hnodup, fun x => ?_, hordered⟩
  rw [h.mem_iff x]
  simp [hempty x]

/-! ## The operations -/

/-- The operations on a priority queue; a pop names the element it answers with. -/
inductive Op (ι : Type) where
  | insert (x : ι) (pri : Nat)
  | pop (x : Option ι)
  | changePriority (x : ι) (pri : Nat)
  | remove (x : ι)
  | outside

/-- What the operations do to the map. -/
inductive Applies (f : PriorityMap ι) : Op ι → PriorityMap ι → Prop where
  | insert {x : ι} {pri : Nat} : f x = none →
    Applies f (.insert x pri) (Function.update f x (some pri))
  | popEmpty : (∀ x, f x = none) → Applies f (.pop none) f
  | pop {x : ι} {after : PriorityMap ι} : Popped f x after → Applies f (.pop (some x)) after
  | changePriority {x : ι} {pri : Nat} : f x ≠ none →
    Applies f (.changePriority x pri) (Function.update f x (some pri))
  | remove {x : ι} : f x ≠ none → Applies f (.remove x) (Function.update f x none)
  | outside : Applies f .outside f

end PriorityMap

end NvmeVirt

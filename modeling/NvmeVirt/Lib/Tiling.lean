import Mathlib.Algebra.Order.Ring.Nat
import Mathlib.Algebra.BigOperators.Group.List.Basic

/-!
# Ranges that tile an interval

A range is its start and its length. A list of ranges tiles `[a, b)` when the first starts at `a`,
each starts where the one before it ends, the last ends at `b`, and none is empty.
-/

set_option autoImplicit false

namespace NvmeVirt

def Tiles : List (Nat × Nat) → Nat → Nat → Prop
  | [], a, b => a = b
  | (start, len) :: rest, a, b => start = a ∧ 0 < len ∧ Tiles rest (start + len) b

namespace Tiles

variable {l : List (Nat × Nat)} {a b c len : Nat}

theorem append {l' : List (Nat × Nat)} (h : Tiles l a b) (h' : Tiles l' b c) :
    Tiles (l ++ l') a c := by
  induction l generalizing a with
  | nil =>
    have hab : a = b := h
    rw [hab]
    exact h'
  | cons r rest ih => exact ⟨h.1, h.2.1, ih h.2.2⟩

/-- One more range behind the last. -/
theorem snoc (h : Tiles l a b) (hlen : 0 < len) : Tiles (l ++ [(b, len)]) a (b + len) :=
  h.append ⟨rfl, hlen, rfl⟩

/-- The lengths add up to the interval. -/
theorem sum_eq (h : Tiles l a b) : a + (l.map Prod.snd).sum = b := by
  induction l generalizing a with
  | nil => exact h
  | cons r rest ih =>
    obtain ⟨rfl, _, hrest⟩ := h
    rw [List.map_cons, List.sum_cons, ← Nat.add_assoc]
    exact ih hrest

theorem le (h : Tiles l a b) : a ≤ b := by
  have hsum := h.sum_eq
  omega

/-- Every range lies inside the interval. -/
theorem within (h : Tiles l a b) : ∀ r ∈ l, a ≤ r.1 ∧ r.1 + r.2 ≤ b := by
  induction l generalizing a with
  | nil => exact nofun
  | cons r rest ih =>
    obtain ⟨rfl, hpos, hrest⟩ := h
    intro r' hr'
    rcases List.mem_cons.mp hr' with rfl | hmem
    · exact ⟨Nat.le_refl _, hrest.le⟩
    · have hin := ih hrest r' hmem
      exact ⟨by omega, hin.2⟩

theorem pos (h : Tiles l a b) : ∀ r ∈ l, 0 < r.2 := by
  induction l generalizing a with
  | nil => exact fun r hr => absurd hr List.not_mem_nil
  | cons first rest ih =>
    intro r hr
    rcases List.mem_cons.mp hr with rfl | hin
    · exact h.2.1
    · exact ih h.2.2 r hin

/-- Two things whose ranges meet are one. -/
theorem map_unique {α : Type} {f : α → Nat × Nat} {l : List α} (h : Tiles (l.map f) a b) {r r' : α}
    (hr : r ∈ l) (hr' : r' ∈ l) {x : Nat} (hx : (f r).1 ≤ x ∧ x < (f r).1 + (f r).2)
    (hx' : (f r').1 ≤ x ∧ x < (f r').1 + (f r').2) : r = r' := by
  induction l generalizing a with
  | nil => cases hr
  | cons first rest ih =>
    obtain ⟨_, _, hrest⟩ := h
    have hbehind : ∀ q ∈ rest, (f first).1 + (f first).2 ≤ (f q).1 := fun q hq =>
      (hrest.within (f q) (List.mem_map_of_mem hq)).1
    rcases List.mem_cons.mp hr with rfl | hin
    · rcases List.mem_cons.mp hr' with rfl | hin'
      · rfl
      · have hlate := hbehind r' hin'
        omega
    · rcases List.mem_cons.mp hr' with rfl | hin'
      · have hlate := hbehind r hin
        omega
      · exact ih hrest hin hin'

end Tiles

end NvmeVirt

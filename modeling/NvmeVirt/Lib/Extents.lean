import Mathlib.Order.Basic

/-!
# Extents handed out below a mark

Each live holder has `size` units from its `start` on. No two extents meet, and all of them end below
the mark, from where the next one is taken. A holder that leaves, or takes less than it has, disturbs
nothing.
-/

set_option autoImplicit false

namespace NvmeVirt

structure Extents {α : Type} (live : α → Prop) (start size : α → Nat) (mark : Nat) : Prop where
  below : ∀ a, live a → start a + size a ≤ mark
  apart : ∀ a b, live a → live b → a ≠ b →
    start a + size a ≤ start b ∨ start b + size b ≤ start a

namespace Extents

variable {α : Type} {live live' : α → Prop} {start start' size size' : α → Nat} {mark mark' n : Nat}
  {a b : α}

theorem none (h : ∀ a, ¬ live a) : Extents live start size mark :=
  ⟨fun a ha => absurd ha (h a), fun a _ ha => absurd ha (h a)⟩

/-- Smaller extents at the same places. -/
theorem shrink (h : Extents live start size mark)
    (hold : ∀ a, live' a → live a ∧ start' a = start a ∧ size' a ≤ size a) (hmark : mark ≤ mark') :
    Extents live' start' size' mark' := by
  constructor
  · intro a ha
    obtain ⟨hlive, hstart, hsize⟩ := hold a ha
    have hbelow := h.below a hlive
    omega
  · intro a b ha hb hab
    obtain ⟨hlive, hstart, hsize⟩ := hold a ha
    obtain ⟨hlive', hstart', hsize'⟩ := hold b hb
    have hapart := h.apart a b hlive hlive' hab
    omega

/-- The next extent is taken at the mark. -/
theorem take (h : Extents live start size mark) (hstart : start' a = mark) (hsize : size' a = n)
    (hold : ∀ b, b ≠ a → live' b → live b ∧ start' b = start b ∧ size' b = size b) :
    Extents live' start' size' (mark + n) := by
  have hbelow : ∀ b, b ≠ a → live' b → start' b + size' b ≤ mark := by
    intro b hb hlive'
    obtain ⟨hlive, hstart', hsize'⟩ := hold b hb hlive'
    have := h.below b hlive
    omega
  constructor
  · intro b hb
    by_cases hba : b = a
    · apply Nat.le_of_eq
      rw [hba, hstart, hsize]
    · have := hbelow b hba hb
      omega
  · intro b c hb hc hbc
    by_cases hba : b = a
    · have hca : c ≠ a := fun hca => hbc (hba.trans hca.symm)
      right
      rw [hba, hstart]
      exact hbelow c hca hc
    · by_cases hca : c = a
      · left
        rw [hca, hstart]
        exact hbelow b hba hb
      · obtain ⟨hlive, hs, hz⟩ := hold b hba hb
        obtain ⟨hlive', hs', hz'⟩ := hold c hca hc
        rw [hs, hz, hs', hz']
        exact h.apart b c hlive hlive' hbc

end Extents

end NvmeVirt

import Mathlib.Data.Finset.Card
import Mathlib.Logic.Function.Basic

/-!
# Two-way tables

A forward table from keys to places and a backward table from places to keys, which agree on the
live places: the forward table maps onto the live places, and the backward table undoes it. The
backward table may hold anything at a place that is not live.
-/

set_option autoImplicit false

namespace NvmeVirt

variable {L P : Type}

/-- `fwd` and `bwd` are inverse to each other between the mapped keys and the live places. -/
structure Paired (fwd : L → Option P) (bwd : P → L) (live : P → Prop) : Prop where
  to_live : ∀ l p, fwd l = some p → live p
  back : ∀ l p, fwd l = some p → bwd p = l
  to_fwd : ∀ p, live p → fwd (bwd p) = some p

namespace Paired

variable {fwd : L → Option P} {bwd bwd' : P → L} {live live' : P → Prop}

theorem injective (h : Paired fwd bwd live) {l l' : L} {p : P} (hl : fwd l = some p)
    (hl' : fwd l' = some p) : l = l' := by
  rw [← h.back l p hl, h.back l' p hl']

/-- Only the live places and what the backward table says of them matter. -/
theorem congr (h : Paired fwd bwd live) (hlive : ∀ p, live' p ↔ live p)
    (hbwd : ∀ p, live p → bwd' p = bwd p) : Paired fwd bwd' live' := by
  refine ⟨fun l p hl => (hlive p).mpr (h.to_live l p hl), fun l p hl => ?_, fun p hp => ?_⟩
  · rw [hbwd p (h.to_live l p hl)]
    exact h.back l p hl
  · rw [hbwd p ((hlive p).mp hp)]
    exact h.to_fwd p ((hlive p).mp hp)

variable [DecidableEq L]

/-- A key gives up its place. -/
theorem detach (h : Paired fwd bwd live) {l : L} {p : P} (hl : fwd l = some p) :
    Paired (Function.update fwd l none) bwd (fun q => live q ∧ q ≠ p) := by
  have hother : ∀ k q, Function.update fwd l none k = some q → k ≠ l ∧ fwd k = some q := by
    intro k q hk
    by_cases hkl : k = l
    · rw [hkl, Function.update_self] at hk
      cases hk
    · exact ⟨hkl, by rwa [Function.update_of_ne hkl] at hk⟩
  refine ⟨fun k q hk => ?_, fun k q hk => h.back k q (hother k q hk).2, fun q hq => ?_⟩
  · obtain ⟨hkl, hk⟩ := hother k q hk
    refine ⟨h.to_live k q hk, fun hqp => hkl ?_⟩
    rw [hqp] at hk
    exact h.injective hk hl
  · have hback := h.to_fwd q hq.1
    have hne : bwd q ≠ l := by
      intro he
      rw [he, hl] at hback
      exact hq.2 (Option.some.inj hback).symm
    rw [Function.update_of_ne hne]
    exact hback

/-- An unmapped key takes a place that was not live. -/
theorem attach (h : Paired fwd bwd live) {l : L} {q : P} (hl : fwd l = none) (hq : ¬ live q)
    (hbl : bwd' q = l) (hb : ∀ p, live p → bwd' p = bwd p) :
    Paired (Function.update fwd l (some q)) bwd' (fun p => live p ∨ p = q) := by
  have hcases : ∀ k p, Function.update fwd l (some q) k = some p →
      (k = l ∧ p = q) ∨ (k ≠ l ∧ fwd k = some p) := by
    intro k p hk
    by_cases hkl : k = l
    · rw [hkl, Function.update_self] at hk
      exact .inl ⟨hkl, (Option.some.inj hk).symm⟩
    · exact .inr ⟨hkl, by rwa [Function.update_of_ne hkl] at hk⟩
  refine ⟨fun k p hk => ?_, fun k p hk => ?_, fun p hp => ?_⟩
  · obtain ⟨_, hp⟩ | ⟨_, hk⟩ := hcases k p hk
    · exact .inr hp
    · exact .inl (h.to_live k p hk)
  · obtain ⟨rfl, rfl⟩ | ⟨_, hk⟩ := hcases k p hk
    · exact hbl
    · rw [hb p (h.to_live k p hk)]
      exact h.back k p hk
  · obtain hp | rfl := hp
    · have hback := h.to_fwd p hp
      have hne : bwd p ≠ l := by
        intro he
        rw [he, hl] at hback
        cases hback
      rw [hb p hp, Function.update_of_ne hne]
      exact hback
    · rw [hbl, Function.update_self]

omit [DecidableEq L] in
/-- As many keys are mapped to places of a kind as there are live places of that kind. -/
theorem card_eq (h : Paired fwd bwd live) {Ls : Finset L} {Ps : Finset P}
    (hL : ∀ l p, fwd l = some p → l ∈ Ls) (hP : ∀ p, live p → p ∈ Ps) (R : P → Prop)
    [DecidablePred fun l => ∃ p, fwd l = some p ∧ R p] [DecidablePred fun p => live p ∧ R p] :
    (Ls.filter fun l => ∃ p, fwd l = some p ∧ R p).card =
      (Ps.filter fun p => live p ∧ R p).card := by
  refine (Finset.card_nbij bwd ?_ ?_ ?_).symm
  · intro p hp
    obtain ⟨_, hlive, hR⟩ := Finset.mem_filter.mp hp
    exact Finset.mem_filter.mpr ⟨hL _ p (h.to_fwd p hlive), p, h.to_fwd p hlive, hR⟩
  · intro p hp q hq he
    have hp' := h.to_fwd p (Finset.mem_filter.mp hp).2.1
    have hq' := h.to_fwd q (Finset.mem_filter.mp hq).2.1
    rw [he, hq'] at hp'
    exact (Option.some.inj hp').symm
  · intro l hl
    obtain ⟨_, p, hlp, hR⟩ := Finset.mem_filter.mp hl
    have hlive := h.to_live l p hlp
    exact ⟨p, Finset.mem_filter.mpr ⟨hP p hlive, hlive, hR⟩, h.back l p hlp⟩

end Paired

end NvmeVirt

import Mathlib.Data.Finset.Card
import Mathlib.Tactic.Common

/-!
# Chains of links

Cells are live or dead, and a cell may link to another. A walk follows the links through live cells;
it ends where a link is missing or leads to a dead cell. `Leads avoid a b` says that the chain of `a`
gets to `b` through cells outside `avoid`. Where each link between live cells leads to a younger one
(`Ranked`), no walk meets a cell twice, so as many passes as there are cells, and one more, are
enough.
-/

set_option autoImplicit false

namespace NvmeVirt

structure Links (α : Type) where
  live : α → Bool
  next : α → Option α

namespace Links

variable {α : Type} {l l' : Links α}

/-- The first cell on the chain of `a` that `found` accepts; `none` without passes left. -/
def seek (l : Links α) (found : α → Bool) : Nat → α → Option (Option α)
  | 0, _ => none
  | passes + 1, a =>
    if l.live a = false then some none
    else if found a = true then some (some a)
    else
      match l.next a with
      | none => some none
      | some b => l.seek found passes b

/-- The last live cell on the chain of `a`, where `prev` is the one before `a`. -/
def last (l : Links α) : Nat → (prev a : α) → Option α
  | 0, _, _ => none
  | passes + 1, prev, a =>
    if l.live a = false then some prev
    else
      match l.next a with
      | none => some a
      | some b => l.last passes a b

/-- The chain of `a` gets to `b` through live cells, none of them but `b` in `avoid`. -/
inductive Leads (l : Links α) (avoid : α → Prop) : α → α → Prop where
  | here {a : α} : l.live a = true → Leads l avoid a a
  | next {a b c : α} : l.live a = true → ¬ avoid a → l.next a = some b → Leads l avoid b c →
    Leads l avoid a c

section Leads

variable {avoid avoid' : α → Prop} {a b c : α}

theorem Leads.live_start (h : l.Leads avoid a b) : l.live a = true := by
  cases h with
  | here hlive => exact hlive
  | next hlive _ _ _ => exact hlive

theorem Leads.live_end (h : l.Leads avoid a b) : l.live b = true := by
  induction h with
  | here hlive => exact hlive
  | next _ _ _ _ ih => exact ih

/-- One link more. -/
theorem Leads.snoc (h : l.Leads avoid a b) (hb : ¬ avoid b) (hnext : l.next b = some c)
    (hlive : l.live c = true) : l.Leads avoid a c := by
  induction h with
  | here ha => exact .next ha hb hnext (.here hlive)
  | next ha hout hab _ ih => exact .next ha hout hab (ih hb hnext)

/-- A chain whose links are kept. -/
theorem Leads.map (h : l.Leads avoid a b) (hend : l'.live b = true)
    (hkeep : ∀ x y, l.live x = true → ¬ avoid x → l.next x = some y → l.live y = true →
      l'.live x = true ∧ ¬ avoid' x ∧ l'.next x = some y) : l'.Leads avoid' a b := by
  induction h with
  | here _ => exact .here hend
  | next ha hout hab hrest ih =>
    obtain ⟨ha', hout', hab'⟩ := hkeep _ _ ha hout hab hrest.live_start
    exact .next ha' hout' hab' (ih hend)

end Leads

/-! ## What a walk finds -/

section Seek

variable {found : α → Bool} {a b : α} {passes : Nat}

theorem seek_found (h : l.seek found passes a = some (some b)) :
    found b = true ∧ l.Leads (fun x => found x = true) a b := by
  induction passes generalizing a with
  | zero => exact nomatch h
  | succ passes ih =>
    unfold seek at h
    split at h
    · exact nomatch h
    rename_i hlive
    have hlive' := Bool.eq_true_of_not_eq_false hlive
    split at h
    · rename_i hfound
      obtain rfl : a = b := by simpa using h
      exact ⟨hfound, .here hlive'⟩
    rename_i hnot
    cases hnext : l.next a with
    | none =>
      rw [hnext] at h
      exact nomatch h
    | some c =>
      rw [hnext] at h
      obtain ⟨hb, hleads⟩ := ih h
      exact ⟨hb, .next hlive' hnot hnext hleads⟩

/-- A walk that ends without an answer has passed every cell of the chain. -/
theorem seek_none {avoid : α → Prop} (h : l.seek found passes a = some none)
    (hleads : l.Leads avoid a b) : found b = false := by
  induction hleads generalizing passes with
  | here hlive =>
    cases passes with
    | zero => exact nomatch h
    | succ passes =>
      unfold seek at h
      rw [hlive, if_neg (Bool.false_ne_true ∘ Eq.symm)] at h
      split at h
      · exact nomatch h
      · rename_i hnot
        exact Bool.eq_false_iff.mpr hnot
  | next hlive _ hnext _ ih =>
    cases passes with
    | zero => exact nomatch h
    | succ passes =>
      unfold seek at h
      rw [hlive, if_neg (Bool.false_ne_true ∘ Eq.symm)] at h
      split at h
      · exact nomatch h
      · rw [hnext] at h
        exact ih h

/-- What `last` finds. -/
theorem last_spec {prev : α} (h : l.last passes prev a = some b) (ha : l.live a = true) :
    l.Leads (fun _ => False) a b ∧ ∀ c, l.next b = some c → l.live c = false := by
  induction passes generalizing prev a with
  | zero => exact nomatch h
  | succ passes ih =>
    unfold last at h
    rw [ha, if_neg (Bool.false_ne_true ∘ Eq.symm)] at h
    cases hnext : l.next a with
    | none =>
      rw [hnext] at h
      obtain rfl : a = b := by simpa using h
      exact ⟨.here ha, fun c hc => nomatch hnext.symm.trans hc⟩
    | some c =>
      rw [hnext] at h
      by_cases hc : l.live c = true
      · obtain ⟨hleads, hend⟩ := ih h hc
        exact ⟨.next ha not_false hnext hleads, hend⟩
      · have hdead := Bool.eq_false_iff.mpr hc
        cases passes with
        | zero => exact nomatch h
        | succ passes =>
          unfold last at h
          dsimp only at h
          rw [if_pos hdead] at h
          obtain rfl : a = b := by simpa using h
          refine ⟨.here ha, fun d hd => ?_⟩
          rw [hnext] at hd
          obtain rfl : c = d := by simpa using hd
          exact hdead

end Seek

/-! ## Walks come to an end -/

/-- Every live cell is in `S`, and links between live cells lead to younger ones. -/
structure Ranked (l : Links α) (S : Finset α) (born : α → Nat) : Prop where
  mem : ∀ a, l.live a = true → a ∈ S
  younger : ∀ a b, l.live a = true → l.next a = some b → l.live b = true → born a < born b

section Ranked

variable {S : Finset α} {born : α → Nat} {a b : α} {passes : Nat}

/-- How many cells are younger than `a`. -/
def youngerThan (S : Finset α) (born : α → Nat) (a : α) : Nat := (S.filter (born a < born ·)).card

theorem youngerThan_lt_card (ha : a ∈ S) : youngerThan S born a < S.card := by
  apply Finset.card_lt_card
  apply Finset.filter_ssubset.mpr
  exact ⟨a, ha, Nat.lt_irrefl _⟩

theorem Ranked.youngerThan_lt (h : l.Ranked S born) (ha : l.live a = true) (hnext : l.next a = some b)
    (hb : l.live b = true) : youngerThan S born b < youngerThan S born a := by
  have hlt := h.younger a b ha hnext hb
  apply Finset.card_lt_card
  apply Finset.ssubset_iff_subset_ne.mpr
  constructor
  · intro c hc
    obtain ⟨hmem, hbc⟩ := Finset.mem_filter.mp hc
    exact Finset.mem_filter.mpr ⟨hmem, Nat.lt_trans hlt hbc⟩
  · intro heq
    have hmem : b ∈ S.filter (born a < born ·) := Finset.mem_filter.mpr ⟨h.mem b hb, hlt⟩
    rw [← heq] at hmem
    exact Nat.lt_irrefl _ (Finset.mem_filter.mp hmem).2

/-- A walk ends: from a live cell in two passes more than there are younger cells. -/
theorem Ranked.seek_ends (h : l.Ranked S born) (found : α → Bool)
    (hpasses : if l.live a = true then youngerThan S born a + 2 ≤ passes else 1 ≤ passes) :
    ∃ r, l.seek found passes a = some r := by
  induction passes generalizing a with
  | zero =>
    split at hpasses
    · omega
    · omega
  | succ passes ih =>
    unfold seek
    by_cases ha : l.live a = true
    · rw [if_pos ha] at hpasses
      rw [ha, if_neg (Bool.false_ne_true ∘ Eq.symm)]
      split
      · exact ⟨_, rfl⟩
      cases hnext : l.next a with
      | none => exact ⟨_, rfl⟩
      | some b =>
        apply ih
        split
        · rename_i hb
          have hlt := h.youngerThan_lt ha hnext hb
          omega
        · omega
    · rw [if_pos (Bool.eq_false_iff.mpr ha)]
      exact ⟨_, rfl⟩

theorem Ranked.last_ends (h : l.Ranked S born) (prev : α)
    (hpasses : if l.live a = true then youngerThan S born a + 2 ≤ passes else 1 ≤ passes) :
    ∃ b, l.last passes prev a = some b := by
  induction passes generalizing prev a with
  | zero =>
    split at hpasses
    · omega
    · omega
  | succ passes ih =>
    unfold last
    by_cases ha : l.live a = true
    · rw [if_pos ha] at hpasses
      rw [ha, if_neg (Bool.false_ne_true ∘ Eq.symm)]
      cases hnext : l.next a with
      | none => exact ⟨_, rfl⟩
      | some b =>
        apply ih
        split
        · rename_i hb
          have hlt := h.youngerThan_lt ha hnext hb
          omega
        · omega
    · rw [if_pos (Bool.eq_false_iff.mpr ha)]
      exact ⟨_, rfl⟩

/-- One pass more than there are cells is enough. -/
theorem Ranked.enough (h : l.Ranked S born) (a : α) (hpasses : S.card + 1 ≤ passes) :
    if l.live a = true then youngerThan S born a + 2 ≤ passes else 1 ≤ passes := by
  split
  · rename_i ha
    have hlt : youngerThan S born a < S.card := youngerThan_lt_card (h.mem a ha)
    omega
  · omega

end Ranked

end Links

end NvmeVirt

import NvmeVirt.Lib.TwoWay
import NvmeVirt.Laws.Conv.Steps

/-!
# The mapping tables

`maptbl` and `rmap` are the two directions of a two-way table between the logical pages and the
valid physical pages. During a collection the pages of the victim that were copied already are
`stale`: they are still marked valid, but no logical page is mapped to them.
-/

set_option autoImplicit false

namespace NvmeVirt

/-- `maptbl` and `rmap` agree on the valid pages that are not stale, and only logical pages of the
device are mapped. -/
structure Mapped (spp : SsdParams) (blk : BlkId → NandBlock) (maptbl : Nat → Option Ppa)
    (rmap : Nat → Nat) (stale : Ppa → Prop) : Prop where
  lt : ∀ l p, maptbl l = some p → l < spp.ttPgs
  paired : Paired maptbl (fun p => rmap (spp.pgidx p))
    fun p => validPpa spp p = true ∧ pgStatus blk p = .valid ∧ ¬ stale p

namespace Mapped

variable {spp : SsdParams} {blk blk' : BlkId → NandBlock} {maptbl : Nat → Option Ppa}
  {rmap : Nat → Nat} {stale stale' : Ppa → Prop} {l : Nat} {p q : Ppa}

theorem valid (m : Mapped spp blk maptbl rmap stale) (h : maptbl l = some p) :
    validPpa spp p = true := (m.paired.to_live l p h).1

theorem status (m : Mapped spp blk maptbl rmap stale) (h : maptbl l = some p) :
    pgStatus blk p = .valid := (m.paired.to_live l p h).2.1

/-- Only which valid pages are live matters. -/
theorem congr (m : Mapped spp blk maptbl rmap stale)
    (h : ∀ p, validPpa spp p = true →
      (pgStatus blk' p = .valid ∧ ¬ stale' p ↔ pgStatus blk p = .valid ∧ ¬ stale p)) :
    Mapped spp blk' maptbl rmap stale' := by
  refine ⟨m.lt, m.paired.congr (fun p => ?_) fun _ _ => rfl⟩
  constructor
  · exact fun ⟨hv, hl⟩ => ⟨hv, (h p hv).mp hl⟩
  · exact fun ⟨hv, hl⟩ => ⟨hv, (h p hv).mpr hl⟩

/-- A logical page gives up its page, which from now on is stale. -/
theorem detach (m : Mapped spp blk maptbl rmap stale) (h : maptbl l = some p) :
    Mapped spp blk (Function.update maptbl l none) rmap fun q => stale q ∨ q = p := by
  refine ⟨fun k q hk => ?_, (m.paired.detach h).congr (fun q => ?_) fun _ _ => rfl⟩
  · by_cases hkl : k = l
    · rw [hkl, Function.update_self] at hk
      cases hk
    · rw [Function.update_of_ne hkl] at hk
      exact m.lt k q hk
  · rw [not_or]
    exact ⟨fun ⟨h1, h2, h3, h4⟩ => ⟨⟨h1, h2, h3⟩, h4⟩, fun ⟨⟨h1, h2, h3⟩, h4⟩ => ⟨h1, h2, h3, h4⟩⟩

/-- The page of a logical page becomes invalid, and its reverse entry is cleared. -/
theorem invalidate (m : Mapped spp blk maptbl rmap stale) (w : spp.WellFormed)
    (h : maptbl l = some p)
    (hblk : pgStatus blk' = Function.update (pgStatus blk) p .invalid) (n : Nat) :
    Mapped spp blk' (Function.update maptbl l none) (Function.update rmap (spp.pgidx p) n) stale := by
  have hd := m.detach h
  refine ⟨hd.lt, hd.paired.congr (fun q => ?_) fun q hq => ?_⟩
  · rw [hblk]
    by_cases hqp : q = p
    · rw [hqp, Function.update_self]
      exact iff_of_false (fun hh => nomatch hh.2.1) fun hh => hh.2.2 (.inr rfl)
    · rw [Function.update_of_ne hqp]
      exact and_congr_right fun _ => and_congr_right fun _ =>
        ⟨fun hs => fun hh => hh.elim hs hqp, fun hs => fun hh => hs (.inl hh)⟩
  · have hne : spp.pgidx q ≠ spp.pgidx p := by
      intro he
      exact hq.2.2 (.inr (w.pgidx_inj hq.1 (m.valid h) he))
    exact Function.update_of_ne hne ..

/-- An unmapped logical page takes a free page. -/
theorem attach (m : Mapped spp blk maptbl rmap stale) (w : spp.WellFormed) (hl : maptbl l = none)
    (hlt : l < spp.ttPgs) (hq : validPpa spp q = true) (hfree : pgStatus blk q = .free)
    (hstale : ¬ stale q) (hblk : pgStatus blk' = Function.update (pgStatus blk) q .valid) :
    Mapped spp blk' (Function.update maptbl l (some q)) (Function.update rmap (spp.pgidx q) l)
      stale := by
  have hnot : ¬ (validPpa spp q = true ∧ pgStatus blk q = .valid ∧ ¬ stale q) := by
    rw [hfree]
    exact fun hh => nomatch hh.2.1
  have hback : Function.update rmap (spp.pgidx q) l (spp.pgidx q) = l := Function.update_self ..
  have hother : ∀ p, (validPpa spp p = true ∧ pgStatus blk p = .valid ∧ ¬ stale p) →
      Function.update rmap (spp.pgidx q) l (spp.pgidx p) = rmap (spp.pgidx p) := by
    intro p hp
    refine Function.update_of_ne (fun he => ?_) ..
    rw [w.pgidx_inj hp.1 hq he] at hp
    exact hnot hp
  have ha : Paired (Function.update maptbl l (some q))
      (fun p => Function.update rmap (spp.pgidx q) l (spp.pgidx p)) _ :=
    m.paired.attach hl hnot hback hother
  refine ⟨fun k p hk => ?_, ha.congr (fun p => ?_) fun _ _ => rfl⟩
  · by_cases hkl : k = l
    · rw [hkl]
      exact hlt
    · rw [Function.update_of_ne hkl] at hk
      exact m.lt k p hk
  · rw [hblk]
    by_cases hpq : p = q
    · rw [hpq, Function.update_self]
      exact iff_of_true ⟨hq, rfl, hstale⟩ (.inr rfl)
    · rw [Function.update_of_ne hpq]
      simp [hpq]

/-- As many logical pages are mapped to pages of a kind as there are live pages of that kind. -/
theorem card_mapped (m : Mapped spp blk maptbl rmap stale) (R : Ppa → Prop)
    [DecidablePred fun l => ∃ p, maptbl l = some p ∧ R p]
    [DecidablePred fun p => (validPpa spp p = true ∧ pgStatus blk p = .valid ∧ ¬ stale p) ∧ R p] :
    ((Finset.range spp.ttPgs).filter fun l => ∃ p, maptbl l = some p ∧ R p).card =
      (spp.pages.filter fun p =>
        (validPpa spp p = true ∧ pgStatus blk p = .valid ∧ ¬ stale p) ∧ R p).card :=
  m.paired.card_eq (fun l p hl => Finset.mem_range.mpr (m.lt l p hl))
    (fun _ hp => SsdParams.mem_pages.mpr hp.1) R

end Mapped

/-! ## The functions -/

section Ensures

open Outcome

variable {E : Fault → Prop} {ftl : ConvFtl}

theorem setMaptblEnt_ensures {lpn : Nat} (h : lpn < ftl.ssd.sp.ttPgs) (p : Ppa) :
    Ensures E (ftl.setMaptblEnt lpn p) fun r =>
      r = { ftl with maptbl := Function.update ftl.maptbl lpn (some p) } :=
  (nvmevAssert_ensures h).bind fun _ _ => .pure rfl

theorem ppa2pgidx_ensures (w : ftl.ssd.sp.WellFormed) {p : Ppa}
    (h : validPpa ftl.ssd.sp p = true) :
    Ensures E (ftl.ppa2pgidx p) fun idx => idx = ftl.ssd.sp.pgidx p :=
  (nvmevAssert_ensures (w.pgidx_lt h)).bind fun _ _ => .pure rfl

theorem getRmapEnt_ensures (w : ftl.ssd.sp.WellFormed) {p : Ppa}
    (h : validPpa ftl.ssd.sp p = true) :
    Ensures E (ftl.getRmapEnt p) fun lpn => lpn = ftl.rmap (ftl.ssd.sp.pgidx p) :=
  (ppa2pgidx_ensures w h).bind fun _ he => .pure (he ▸ rfl)

theorem setRmapEnt_ensures (ftl : ConvFtl) (w : ftl.ssd.sp.WellFormed) {p : Ppa}
    (h : validPpa ftl.ssd.sp p = true) (lpn : Nat) :
    Ensures E (ftl.setRmapEnt lpn p) fun r =>
      r = { ftl with rmap := Function.update ftl.rmap (ftl.ssd.sp.pgidx p) lpn } :=
  (ppa2pgidx_ensures w h).bind fun _ he => .pure (he ▸ rfl)

end Ensures

end NvmeVirt

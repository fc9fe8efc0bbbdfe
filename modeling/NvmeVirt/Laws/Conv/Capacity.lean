import Mathlib.Data.Finset.Max
import NvmeVirt.Laws.Conv.Run

/-!
# Free space

The potential is `writable - write_credits`: the pages that can be written minus those the host may
write before the next collection. A page write spends one of each, a collection that runs gives one
credit for each page it frees, and one that is skipped leaves more than `gc_thres_lines_high` free
lines. So the potential never drops below `gc_thres_lines_high` lines, which is far more than a
collection needs. A collection that runs finds a victim, because the host can map too few pages to
fill all the closed lines.

`Roomy` is the potential between two page writes and `Spent` that before the refill; `Roomy.spent`
and `Spent.refilled` lead from one to the other, and `convWritePage_steady` is the step of a run.
What a device must have for it is `Ample`: a few numbers, which `ample_970Pro` checks for every size
of a 970PRO.

The host is taken to write logical pages of the namespace only. Beyond the exported size
`Laws/Conv/Range` says what is checked.
-/

set_option autoImplicit false

namespace NvmeVirt

open Outcome

/-! ## A victim exists -/

/-- The pages mapped into different lines are different logical pages. -/
theorem ConvFtl.sum_mappedInto_le (ftl : ConvFtl) {n : Nat} (K : Finset Nat)
    (hn : ∀ lpn, (ftl.maptbl lpn).isSome → lpn < n) : ∑ l ∈ K, ftl.mappedInto l ≤ n := by
  classical
  have hmark : ∀ l, ftl.mappedInto l ≤
      tally (Finset.range n) (fun lpn => (ftl.maptbl lpn).map fun p => p.blk) (some l) := by
    intro l
    refine Finset.card_le_card fun lpn hlpn => ?_
    obtain ⟨p, hp, hblk⟩ := (Finset.mem_filter.mp hlpn).2
    refine Finset.mem_filter.mpr ⟨Finset.mem_range.mpr (hn lpn (by rw [hp]; rfl)), ?_⟩
    show (ftl.maptbl lpn).map _ = some l
    rw [hp, ← hblk]
    rfl
  calc ∑ l ∈ K, ftl.mappedInto l
      ≤ ∑ l ∈ K, tally (Finset.range n) (fun lpn => (ftl.maptbl lpn).map fun p => p.blk) (some l) :=
        Finset.sum_le_sum fun l _ => hmark l
    _ = ∑ k ∈ K.map .some,
          tally (Finset.range n) (fun lpn => (ftl.maptbl lpn).map fun p => p.blk) k :=
        (Finset.sum_map K .some _).symm
    _ ≤ (Finset.range n).card := sum_tally_le_card ..
    _ = n := Finset.card_range n

namespace Settled

variable {ftl : ConvFtl}

/-- With an empty victim queue every line is free, full or open. -/
theorem ttLines_le (h : Settled ftl) (hempty : ftl.lm.victimLinePq.size = 1) :
    ftl.lm.ttLines ≤ ftl.lm.freeLineCnt + ftl.lm.fullLineList.length + 3 := by
  obtain ⟨place, c, hheld⟩ := h.core
  have hfree : ftl.lm.freeLineCnt = ftl.lm.freeLineList.length := c.placed.freeCnt
  have hsub : Finset.range ftl.lm.ttLines ⊆ ftl.lm.freeLineList.toFinset ∪
      ftl.lm.fullLineList.toFinset ∪
        {(ftl.wp .userIo).curline, (ftl.wp .gcIoHot).curline, (ftl.wp .gcIoCold).curline} := by
    intro l hl
    have hlt := Finset.mem_range.mp hl
    simp only [Finset.mem_union, List.mem_toFinset, Finset.mem_insert, Finset.mem_singleton]
    cases hp : place l with
    | free => exact .inl (.inl (c.placed.mem_free.mpr ⟨hlt, hp⟩))
    | full => exact .inl (.inr (c.placed.mem_full.mpr ⟨hlt, hp⟩))
    | victim =>
      have hpos := c.placed.queued.mpr ⟨hlt, hp⟩
      have hd := c.placed.queue.d_pos l id hpos
      have hsize : (ftl.lm.lines l).pos < ftl.lm.victimLinePq.size := hd.1
      have hne : (ftl.lm.lines l).pos ≠ 0 := hpos
      omega
    | opened s =>
      have hcur := Option.some.inj (c.placed.cur_eq.mpr ⟨hlt, hp⟩)
      cases s with
      | userIo => exact .inr (.inl hcur.symm)
      | gcIoHot => exact .inr (.inr (.inl hcur.symm))
      | gcIoCold => exact .inr (.inr (.inr hcur.symm))
    | held => exact absurd hp (hheld l)
  calc ftl.lm.ttLines = (Finset.range ftl.lm.ttLines).card := (Finset.card_range _).symm
    _ ≤ _ := Finset.card_le_card hsub
    _ ≤ (ftl.lm.freeLineList.toFinset ∪ ftl.lm.fullLineList.toFinset).card + 3 :=
        (Finset.card_union_le _ _).trans (Nat.add_le_add_left Finset.card_le_three _)
    _ ≤ ftl.lm.freeLineList.length + ftl.lm.fullLineList.length + 3 :=
        Nat.add_le_add_right ((Finset.card_union_le _ _).trans
          (Nat.add_le_add (List.toFinset_card_le _) (List.toFinset_card_le _))) 3
    _ = _ := by rw [hfree]

/-- The full lines hold mapped pages only. -/
theorem fullLines_le (h : Settled ftl) {n : Nat} (hn : ∀ lpn, (ftl.maptbl lpn).isSome → lpn < n) :
    ftl.lm.fullLineList.length * ftl.ssd.sp.pgsPerLine ≤ n := by
  obtain ⟨place, c, hheld⟩ := h.core
  have hvpc : ∀ l ∈ ftl.lm.fullLineList.toFinset, ftl.mappedInto l = ftl.ssd.sp.pgsPerLine := by
    intro l hl
    obtain ⟨hlt, hp⟩ := c.placed.mem_full.mp (List.mem_toFinset.mp hl)
    have hok := c.lineOk l hlt
    rw [hp] at hok
    exact (h.vpc_eq_mappedInto c hlt (hheld l)).symm.trans hok.1
  have hcard : ftl.lm.fullLineList.toFinset.card = ftl.lm.fullLineList.length :=
    List.toFinset_card_of_nodup c.placed.fullNodup
  rw [← hcard, ← Finset.sum_const_nat hvpc]
  exact ftl.sum_mappedInto_le _ hn

/-- Where the free lines and the mapped pages cannot account for all lines, the queue is not empty. -/
theorem victim_exists (h : Settled ftl) {n free : Nat}
    (hn : ∀ lpn, (ftl.maptbl lpn).isSome → lpn < n) (hfree : ftl.lm.freeLineCnt ≤ free)
    (hlines : n < (ftl.lm.ttLines - free - 3) * ftl.ssd.sp.pgsPerLine) :
    ftl.lm.victimLinePq.size ≠ 1 := by
  intro hempty
  have htt := h.ttLines_le hempty
  have hfull := h.fullLines_le hn
  have hmul : (ftl.lm.ttLines - free - 3) * ftl.ssd.sp.pgsPerLine ≤
      ftl.lm.fullLineList.length * ftl.ssd.sp.pgsPerLine :=
    Nat.mul_le_mul_right _ (by omega)
  omega

end Settled

/-! ## The potential -/

/-- The pages that can be written cover `reserve` lines and the credits, the credits are between one
page and one line, and only pages below `n` are mapped. -/
structure Roomy (reserve n : Nat) (ftl : ConvFtl) : Prop where
  room : reserve * ftl.ssd.sp.pgsPerLine + ftl.wfc.writeCredits ≤ ftl.flash.writable
  credits_pos : 1 ≤ ftl.wfc.writeCredits
  credits_le : ftl.wfc.writeCredits ≤ ftl.ssd.sp.pgsPerLine
  refill_le : ftl.wfc.creditsToRefill ≤ ftl.ssd.sp.pgsPerLine
  mapped : ∀ lpn, (ftl.maptbl lpn).isSome → lpn < n

/-- What the parameters have to offer: a reserve of three lines or more above which collections are
skipped, and more lines than the reserve, the open ones and those the host can fill. -/
structure Ample (reserve n : Nat) (cp : ConvParams) (spp : SsdParams) : Prop where
  reserve_ge : 3 ≤ reserve
  threshold : cp.gcThresLinesHigh = reserve
  lines : n < (spp.ttLines - reserve - 3) * spp.pgsPerLine
  credits : spp.pgsPerLine < 2 ^ 32

/-- The state between a page write and its refill. -/
structure Spent (reserve n : Nat) (ftl : ConvFtl) : Prop where
  room : reserve * ftl.ssd.sp.pgsPerLine + ftl.wfc.writeCredits ≤ ftl.flash.writable
  credits_le : ftl.wfc.writeCredits ≤ ftl.ssd.sp.pgsPerLine
  refill_le : ftl.wfc.creditsToRefill ≤ ftl.ssd.sp.pgsPerLine
  mapped : ∀ lpn, (ftl.maptbl lpn).isSome → lpn < n

section Steps

variable {reserve n lpn : Nat} {ftl ftl' : ConvFtl}

/-- A page write spends one page and one credit. -/
theorem Roomy.spent (h : Roomy reserve n ftl) (hw : PageWritten ftl lpn ftl') (hlt : lpn < n)
    (hcredits : ftl.ssd.sp.pgsPerLine < 2 ^ 32) : Spent reserve n ftl' := by
  have hone := hw.writable
  have hpos := h.credits_pos
  have hle := h.credits_le
  have hroom := h.room
  have hsub : sub32 ftl.wfc.writeCredits 1 + 1 = ftl.wfc.writeCredits := by
    unfold sub32 u32
    omega
  have hwfc : ftl'.wfc.writeCredits + 1 = ftl.wfc.writeCredits := by rw [hw.wfc]; exact hsub
  refine ⟨?_, ?_, ?_, fun l hl => ?_⟩
  · rw [hw.sp]
    omega
  · rw [hw.sp]
    omega
  · rw [hw.sp, hw.wfc]
    exact h.refill_le
  · by_cases hll : l = lpn
    · exact hll ▸ hlt
    · rw [hw.others l hll] at hl
      exact h.mapped l hl

/-- The collection a page write starts finds a victim. -/
theorem Spent.victim_exists (h : Spent reserve n ftl) (hset : Settled ftl)
    (ha : Ample reserve n ftl.cp ftl.ssd.sp) (hgc : ftl.shouldGcHigh = true) :
    ftl.lm.victimLinePq.size ≠ 1 := by
  obtain ⟨place, c, _⟩ := hset.core
  have hfree : ftl.lm.freeLineCnt ≤ reserve := by
    rw [← ha.threshold]
    exact of_decide_eq_true hgc
  refine hset.victim_exists h.mapped hfree ?_
  have htt : ftl.lm.ttLines = ftl.ssd.sp.ttLines := c.ttLines.trans hset.wf.ttLines_eq.symm
  rw [htt]
  exact ha.lines

/-- A collected line gives a credit for each page it freed. -/
theorem Spent.collected (h : Spent reserve n ftl) {v : Nat} (hc : Collected ftl v ftl')
    (hipc : (ftl.lm.lines v).ipc ≤ ftl.ssd.sp.pgsPerLine) (hz : ftl.wfc.writeCredits = 0)
    (hcredits : ftl.ssd.sp.pgsPerLine < 2 ^ 32) :
    Roomy reserve n { ftl' with wfc := ftl'.wfc.refill } := by
  have hpos := hc.ipc_pos
  have hroom := h.room
  have hwrit := hc.writable
  have hrefill : ftl'.wfc.refill =
      { writeCredits := (ftl.lm.lines v).ipc, creditsToRefill := (ftl.lm.lines v).ipc } := by
    rw [hc.refill]
    unfold WriteFlowControl.refill
    dsimp only
    rw [if_pos hpos, hz, Nat.zero_add]
    unfold u32
    rw [Nat.mod_eq_of_lt (by omega)]
  rw [hrefill]
  refine ⟨?_, hpos, ?_, ?_, fun l hl => h.mapped l ((hc.mapped l).mp hl)⟩
  · show reserve * ftl'.ssd.sp.pgsPerLine + (ftl.lm.lines v).ipc ≤ ftl'.flash.writable
    rw [hc.sp]
    omega
  · exact hc.sp ▸ hipc
  · exact hc.sp ▸ hipc

/-- A skipped collection leaves more free lines than the reserve, which cover stale credits. -/
theorem Spent.skipped (h : Spent reserve n ftl) (hset : Settled ftl)
    (hthres : ftl.cp.gcThresLinesHigh = reserve) (hgc : ftl.shouldGcHigh = false)
    (hz : ftl.wfc.writeCredits = 0) (hcredits : ftl.ssd.sp.pgsPerLine < 2 ^ 32) :
    Roomy reserve n { ftl with wfc := ftl.wfc.refill } := by
  obtain ⟨place, c, _⟩ := hset.core
  have hfree : reserve < ftl.lm.freeLineList.length := by
    have hcnt : ftl.lm.freeLineCnt = ftl.lm.freeLineList.length := c.placed.freeCnt
    have hlt := of_decide_eq_false hgc
    omega
  have hlarge : reserve * ftl.ssd.sp.pgsPerLine + ftl.ssd.sp.pgsPerLine ≤ ftl.flash.writable := by
    have hmul := Nat.mul_le_mul_right ftl.ssd.sp.pgsPerLine (Nat.succ_le_of_lt hfree)
    rw [Nat.succ_mul] at hmul
    exact hmul.trans (Nat.le_add_right _ _)
  have hpos := hset.wf.pgsPerLine_pos
  have hle := h.refill_le
  have hnew : 1 ≤ ftl.wfc.refill.writeCredits ∧
      ftl.wfc.refill.writeCredits ≤ ftl.ssd.sp.pgsPerLine := by
    unfold WriteFlowControl.refill u32
    dsimp only
    split
    · rw [hz, Nat.zero_add, Nat.mod_eq_of_lt (by omega)]
      omega
    · omega
  refine ⟨?_, hnew.1, hnew.2, h.refill_le, h.mapped⟩
  show reserve * ftl.ssd.sp.pgsPerLine + ftl.wfc.refill.writeCredits ≤ ftl.flash.writable
  omega

/-- The reserve is more than a page write and its collection need. -/
theorem Roomy.large (h : Roomy reserve n ftl) (hres : 3 ≤ reserve) :
    3 * ftl.ssd.sp.pgsPerLine < ftl.flash.writable := by
  have hmul := Nat.mul_le_mul_right ftl.ssd.sp.pgsPerLine hres
  have hroom := h.room
  have hpos := h.credits_pos
  omega

/-- A page write and its refill keep the potential. -/
theorem Spent.refilled (h : Spent reserve n ftl) (hset : Settled ftl)
    (ha : Ample reserve n ftl.cp ftl.ssd.sp) (hr : Refilled ftl ftl') : Roomy reserve n ftl' := by
  cases hr with
  | kept hnz => exact ⟨h.room, Nat.pos_of_ne_zero hnz, h.credits_le, h.refill_le, h.mapped⟩
  | refilled hz hf =>
    cases hf with
    | skipped hgc => exact h.skipped hset ha.threshold hgc hz ha.credits
    | collected hgc hc _ =>
      refine h.collected hc ?_ hz ha.credits
      obtain ⟨place, c, _⟩ := hset.core
      have hok := c.lineOk _ (c.placed.queued.mp hc.queued).1
      rw [(c.placed.queued.mp hc.queued).2] at hok
      exact (Nat.le_add_left _ _).trans_eq hok.2
    | noVictim hgc hempty _ => exact absurd hempty (h.victim_exists hset ha hgc)

end Steps

/-- Between two page writes an instance is settled and roomy, and its parameters are the given ones. -/
structure Steady (reserve n : Nat) (cp : ConvParams) (spp : SsdParams) (ftl : ConvFtl) : Prop where
  settled : Settled ftl
  roomy : Roomy reserve n ftl
  sp : ftl.ssd.sp = spp
  cp : ftl.cp = cp

section Runs

variable {reserve n : Nat} {cp : ConvParams} {spp : SsdParams} {ftl : ConvFtl}

/-- A fresh instance has all of its pages. -/
theorem convInitFtl_steady (w : spp.WellFormed) (ha : Ample reserve n cp spp) :
    Ensures NoFault (convInitFtl cp (ssdInit spp)) (Steady reserve n cp spp) := by
  have hlines : reserve + 3 < spp.ttLines := by
    by_contra hge
    have hzero : spp.ttLines - reserve - 3 = 0 := by omega
    have hn := ha.lines
    rw [hzero, Nat.zero_mul] at hn
    exact Nat.not_lt_zero _ hn
  refine (convInitFtl_ensures (E := NoFault) w cp (.inr (by omega))).mono fun ftl hf => ?_
  have hppl : u32 spp.pgsPerLine = spp.pgsPerLine := Nat.mod_eq_of_lt ha.credits
  have hmul : (reserve + 1) * spp.pgsPerLine ≤ spp.ttLines * spp.pgsPerLine :=
    Nat.mul_le_mul_right _ (by omega)
  rw [Nat.succ_mul] at hmul
  refine ⟨hf.settled, ?_, hf.sp, hf.cp⟩
  refine ⟨?_, ?_, ?_, ?_, fun lpn hl => ?_⟩
  · rw [hf.sp, hf.wfc, hf.writable]
    show _ + u32 spp.pgsPerLine ≤ _
    rw [hppl]
    exact hmul
  · rw [hf.wfc]
    show 1 ≤ u32 spp.pgsPerLine
    rw [hppl]
    exact w.pgsPerLine_pos
  · rw [hf.wfc, hf.sp]
    exact hppl.le
  · rw [hf.wfc, hf.sp]
    exact hppl.le
  · rw [hf.maptbl] at hl
    cases hl

/-- The body of a page write meets no fault. -/
theorem convWritePageBody_steady (h : Steady reserve n cp spp ftl) (ha : Ample reserve n cp spp)
    {lpn : Nat} (hlt : lpn < n) (hinside : spp.LocalLpn lpn) (stime : Nat) :
    Ensures NoFault (convWritePageBody ftl lpn stime) fun r =>
      Settled r.1 ∧ Spent reserve n r.1 ∧ r.1.ssd.sp = spp ∧ r.1.cp = cp := by
  have hroom := h.roomy.large ha.reserve_ge
  have hcredits := h.sp ▸ ha.credits
  refine (convWritePageBody_ensures h.settled (h.sp ▸ hinside) stime (.inr ?_)).mono ?_
  · have := h.settled.wf.pgsPerLine_pos
    omega
  rintro ⟨ftl₁, t⟩ ⟨h₁, hw, _⟩
  exact ⟨h₁, h.roomy.spent hw hlt hcredits, hw.sp.trans h.sp, hw.cp.trans h.cp⟩

/-- Nor does a page write. -/
theorem convWritePage_steady (h : Steady reserve n cp spp ftl) (ha : Ample reserve n cp spp)
    {lpn : Nat} (hlt : lpn < n) (hinside : spp.LocalLpn lpn) (stime : Nat) :
    Ensures NoFault (convWritePage ftl lpn stime) fun r => Steady reserve n cp spp r.1 := by
  unfold convWritePage
  refine (convWritePageBody_steady h ha hlt hinside stime).bind ?_
  rintro ⟨ftl₁, t⟩ ⟨h₁, hspent, hsp, hcp⟩
  have hlarge : 3 * ftl₁.ssd.sp.pgsPerLine ≤ ftl₁.flash.writable := by
    have hmul := Nat.mul_le_mul_right ftl₁.ssd.sp.pgsPerLine ha.reserve_ge
    have hroom : reserve * ftl₁.ssd.sp.pgsPerLine + _ ≤ ftl₁.flash.writable := hspent.room
    omega
  refine (checkAndRefillWriteCredit_ensures h₁ (.inr hlarge)).bind ?_
  rintro ftl₂ ⟨h₂, hr⟩
  have hparams := hr.params
  refine .pure ⟨h₂, hspent.refilled h₁ (hsp ▸ hcp ▸ ha) hr, hparams.1.trans hsp, hparams.2.1.trans hcp⟩

/-- By induction over the page writes, which leave the instance as roomy as they find it. -/
theorem pageWrites_steady (w : spp.WellFormed) (ha : Ample reserve n cp spp) {inside : Nat → Prop}
    (hlt : ∀ lpn, inside lpn → lpn < n) (hinside : ∀ lpn, inside lpn → spp.LocalLpn lpn) :
    (pageWrites cp spp inside).Invariant (Steady reserve n cp spp) where
  init ftl := by
    rintro ⟨env, env', hrun⟩
    exact (convInitFtl_steady w ha).of_run hrun
  step ftl lpn ftl' := by
    rintro h ⟨hin, stime, t, env, env', hrun⟩
    exact (convWritePage_steady h ha (hlt lpn hin) (hinside lpn hin) stime).of_run hrun

/-- From every state in which a collection is due, `do_gc` finds a victim. -/
theorem doGc_finds (hset : Settled ftl) (hspent : Spent reserve n ftl)
    (ha : Ample reserve n ftl.cp ftl.ssd.sp) (hgc : ftl.shouldGcHigh = true) (mode : Int) :
    Ensures NoFault (doGc ftl (.ofInt mode) true (GcMode.ofInt mode).selectFn) fun r =>
      ∃ v, r.2 = 0 ∧ Collected ftl v r.1 := by
  have hlarge : 3 * ftl.ssd.sp.pgsPerLine ≤ ftl.flash.writable := by
    have hmul := Nat.mul_le_mul_right ftl.ssd.sp.pgsPerLine ha.reserve_ge
    have hroom : reserve * ftl.ssd.sp.pgsPerLine + _ ≤ ftl.flash.writable := hspent.room
    omega
  refine (doGc_ensures (E := NoFault) hset (.ofInt mode) true (GcMode.selectFn_selects _)
    (.inr hlarge)).mono ?_
  rintro r ⟨-, ⟨v, hres, hc, -⟩ | ⟨-, -, hempty⟩⟩
  · exact ⟨v, hres, hc⟩
  · exact absurd (hempty (.inr rfl)) (hspent.victim_exists hset ha hgc)

end Runs

/-! ## The 970PRO namespace -/

/-- The local page `lpn` of partition `part` overlaps an LBA of the exported namespace. -/
def InNamespace (size part lpn : Nat) : Prop :=
  (lpn * samsung970Pro.ssdPartitions + part) * (params970Pro size).secsPerPg <
    convNsSize samsung970Pro (params970Pro size) size / lbaSize

/-- The namespace exports at most 1600 lines of each partition. -/
theorem inNamespace_lt {size part lpn : Nat} (h : InNamespace size part lpn) :
    lpn < 1600 * (params970Pro size).pgsPerLine := by
  have hp := params970Pro_is size
  have hns : convNsSize samsung970Pro (params970Pro size) size ≤ size * 100 / 128 :=
    Nat.div_le_div_right (Nat.mod_le _ _)
  have hblk : (params970Pro size).pgsPerBlk =
      12 * divRoundUp (divRoundUp (size / 4) 4096) 49152 := by
    rw [hp.pgsPerBlk, hp.oneshotpgsPerBlk]
  unfold InNamespace at h
  rw [hp.secsPerPg] at h
  rw [hp.pgsPerLine, hblk]
  simp only [samsung970Pro, lbaSize, lbaBits, divRoundUp] at h hns ⊢
  omega

/-- A 970PRO of any size has enough. -/
theorem ample_970Pro {size : Nat} (hpos : 1 ≤ (params970Pro size).pgsPerBlk)
    (hle : (params970Pro size).pgsPerBlk ≤ 65536) :
    Ample 276 (1600 * (params970Pro size).pgsPerLine) (cp970Pro size) (params970Pro size) := by
  have hp := params970Pro_is size
  refine ⟨by omega, ?_, ?_, ?_⟩
  · show (params970Pro size).tlcTtLines * 15 / 100 = 276
    rw [hp.tlcTtLines]
  · rw [hp.ttLines, hp.pgsPerLine]
    omega
  · rw [hp.pgsPerLine]
    omega

/-- A page of the namespace is one of its instance. -/
theorem inNamespace_local {size part lpn : Nat} (h : InNamespace size part lpn) :
    (params970Pro size).LocalLpn lpn := by
  have hlt := inNamespace_lt h
  have hp := params970Pro_is size
  unfold SsdParams.LocalLpn
  rw [hp.ttPgs]
  rw [hp.pgsPerLine] at hlt
  omega

/-- What a reachable instance guarantees of its free space: every page write inside the namespace
completes, so that no free list it asks is empty; every collection it starts collects a line with
invalid pages; the credits are between one and the pages of a line. -/
structure FreeSpace (size part : Nat) (ftl : ConvFtl) : Prop where
  completes : ∀ lpn stime env, InNamespace size part lpn →
    ∃ r env', (convWritePage ftl lpn stime).run env = .ok (r, env')
  collects : ∀ lpn stime env ftl₁ t env₁, InNamespace size part lpn →
    (convWritePageBody ftl lpn stime).run env = .ok ((ftl₁, t), env₁) →
    ftl₁.wfc.writeCredits = 0 → ftl₁.shouldGcHigh = true →
    ∀ mode env₂, ∃ ftl₂ env₃ v, Collected ftl₁ v ftl₂ ∧
      (doGc ftl₁ (.ofInt mode) true (GcMode.ofInt mode).selectFn).run env₂ = .ok ((ftl₂, 0), env₃)
  credits : 1 ≤ ftl.wfc.writeCredits ∧ ftl.wfc.writeCredits ≤ (params970Pro size).pgsPerLine

/-- Free space never runs out in a partition of the 970PRO device. It boots without a fault; in
every state between page writes the collections that are due have credits and victims, and the next
page write comes to an end. A run is page writes to logical pages the namespace has, with any start
times, and before each of them the clock, the random numbers and `gc_mode` may be anything. -/
theorem free_space_never_runs_out {size : Nat} (hpos : 1 ≤ (params970Pro size).pgsPerBlk)
    (hle : (params970Pro size).pgsPerBlk ≤ 65536) (part : Nat) :
    (∀ env, ∃ ftl env',
      (convInitFtl (cp970Pro size) (ssdInit (params970Pro size))).run env = .ok (ftl, env')) ∧
    ∀ ftl, (pageWrites (cp970Pro size) (params970Pro size) (InNamespace size part)).Reachable ftl →
      FreeSpace size part ftl := by
  have w := params970Pro_wellFormed hpos hle
  have ha := ample_970Pro hpos hle
  have hinside : ∀ lpn, InNamespace size part lpn → (params970Pro size).LocalLpn lpn :=
    fun _ => inNamespace_local
  constructor
  · intro env
    obtain ⟨ftl, env', hrun, _⟩ := answers (convInitFtl_steady w ha) env
    exact ⟨ftl, env', hrun⟩
  intro ftl hreach
  have hs := (pageWrites_steady w ha (fun _ hin => inNamespace_lt hin) hinside).reachable hreach
  refine ⟨fun lpn stime env hin => ?_, ?_, hs.roomy.credits_pos, hs.sp ▸ hs.roomy.credits_le⟩
  · obtain ⟨r, env', hrun, _⟩ := (convWritePage_steady hs ha (inNamespace_lt hin) (hinside lpn hin)
      stime).total env
    exact ⟨r, env', hrun⟩
  · intro lpn stime env ftl₁ t env₁ hin hrun hz hgc mode env₂
    obtain ⟨h₁, hspent, hsp, hcp⟩ := (convWritePageBody_steady hs ha (inNamespace_lt hin)
      (hinside lpn hin) stime).of_run hrun
    obtain ⟨⟨ftl₂, res⟩, env₃, hgcrun, v, rfl, hc⟩ :=
      answers (doGc_finds h₁ hspent (by rw [hsp, hcp]; exact ha) hgc mode) env₂
    exact ⟨ftl₂, env₃, v, hc, hgcrun⟩

/-! ## A run that collects -/

section Collecting

variable {reserve n : Nat} {cp : ConvParams} {spp : SsdParams} {inside : Nat → Prop} {ftl : ConvFtl}
  {lpns : List Nat}

/-- A refill that collected nothing leaves the free pages. -/
theorem Refilled.writable {ftl₀ ftl : ConvFtl} (h : Refilled ftl₀ ftl) (hnone : ftl.gcCount = 0) :
    ftl₀.gcCount = 0 ∧ ftl.flash.writable = ftl₀.flash.writable := by
  cases h with
  | kept => exact ⟨hnone, rfl⟩
  | @refilled ftl₁ _ hf =>
    cases hf with
    | skipped => exact ⟨hnone, rfl⟩
    | collected _ _ hcounted =>
      have hcount : ftl₁.gcCount = ftl₀.gcCount + 1 := hcounted.gcCount
      have hnone : ftl₁.gcCount = 0 := hnone
      omega
    | noVictim _ _ hn =>
      obtain ⟨rl, _, rfl⟩ := hn
      exact ⟨hnone, rfl⟩

/-- Until the first collection every page write takes one of the free pages. -/
theorem writable_uncollected (w : spp.WellFormed) (hinside : ∀ lpn, inside lpn → spp.LocalLpn lpn)
    (h : (pageWrites cp spp inside).Path lpns ftl) (hnone : ftl.gcCount = 0) :
    ftl.flash.writable + lpns.length = spp.ttLines * spp.pgsPerLine := by
  induction h with
  | init hinit =>
    obtain ⟨env, env', hrun⟩ := hinit
    exact ((convInitFtl_ensures (E := fun _ => True) w cp (.inl trivial)).of_run hrun).writable
  | step hpath hstep ih =>
    obtain ⟨hin, stime, t, env, env', hrun⟩ := hstep
    obtain ⟨hset, hsp⟩ := (pageWrites_settled w hinside).reachable hpath.reachable
    obtain ⟨-, ⟨ftl₁, hw, hr⟩, -⟩ := (convWritePage_ensures (E := fun _ => True) hset
      (hsp ▸ hinside _ hin) stime (.inl trivial)).of_run hrun
    obtain ⟨hnone₁, hwritable⟩ := hr.writable hnone
    have hbefore := ih (hw.wear.gcCount.symm.trans hnone₁)
    have hone := hw.writable
    rw [List.length_append, List.length_singleton, hwritable]
    omega

/-- Where a run always has room, it can be of any length. -/
theorem exists_longRun (w : spp.WellFormed) (ha : Ample reserve n cp spp)
    (hlt : ∀ lpn, inside lpn → lpn < n) (hinside : ∀ lpn, inside lpn → spp.LocalLpn lpn) {lpn : Nat}
    (hin : inside lpn) (len : Nat) :
    ∃ ftl, (pageWrites cp spp inside).Path (List.replicate len lpn) ftl := by
  induction len with
  | zero =>
    obtain ⟨ftl, env', hinit, _⟩ := answers (convInitFtl_steady w ha) .zero
    exact ⟨ftl, .init ⟨.zero, env', hinit⟩⟩
  | succ len ih =>
    obtain ⟨ftl, hpath⟩ := ih
    have hs := (pageWrites_steady w ha hlt hinside).reachable hpath.reachable
    obtain ⟨⟨ftl', t⟩, env', hrun, _⟩ :=
      answers (convWritePage_steady hs ha (hlt lpn hin) (hinside lpn hin) 0) .zero
    rw [List.replicate_succ']
    exact ⟨ftl', hpath.step ⟨hin, 0, t, .zero, env', hrun⟩⟩

/-- A run that is long enough collects. -/
theorem exists_collects (w : spp.WellFormed) (ha : Ample reserve n cp spp)
    (hlt : ∀ lpn, inside lpn → lpn < n) (hinside : ∀ lpn, inside lpn → spp.LocalLpn lpn) {lpn : Nat}
    (hin : inside lpn) :
    ∃ ftl, (pageWrites cp spp inside).Reachable ftl ∧ 0 < ftl.gcCount := by
  obtain ⟨ftl, hpath⟩ := exists_longRun w ha hlt hinside hin (spp.ttLines * spp.pgsPerLine + 1)
  refine ⟨ftl, hpath.reachable, Nat.pos_of_ne_zero fun hnone => ?_⟩
  have hwritable := writable_uncollected w hinside hpath hnone
  rw [List.length_replicate] at hwritable
  omega

end Collecting

/-- A device of 1 GiB that has collected. -/
theorem free_space_gib : ∃ ftl,
    (pageWrites (cp970Pro gib) (params970Pro gib) (InNamespace gib 0)).Reachable ftl ∧
      0 < ftl.gcCount ∧ FreeSpace gib 0 ftl := by
  have hpos := gib_wellFormed.pgsPerBlk_pos
  have hle := gib_wellFormed.pgsPerBlk_le
  have hinside : InNamespace gib 0 0 := by
    unfold InNamespace
    rw [(params970Pro_is gib).secsPerPg]
    simp [gib, convNsSize, convInitParams, samsung970Pro, lbaSize, lbaBits, u64]
  obtain ⟨ftl, hreach, hcount⟩ := exists_collects gib_wellFormed (ample_970Pro hpos hle)
    (fun _ hin => inNamespace_lt hin) (fun _ => inNamespace_local) hinside
  exact ⟨ftl, hreach, hcount, (free_space_never_runs_out hpos hle 0).2 ftl hreach⟩

end NvmeVirt

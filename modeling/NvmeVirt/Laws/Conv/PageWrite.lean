import NvmeVirt.Conv.Write
import NvmeVirt.Laws.Conv.DoGc

/-!
# One page write

`conv_write` handles one local page at a time: the old page becomes invalid, the next page of the
user write pointer becomes the page of the logical page, and one write credit is spent. With the
last credit garbage collection may run, and the credits are refilled from what it freed.

The three parts have a lemma each: `invalidateOld_ensures`, `advance_newPage`, and
`checkAndRefillWriteCredit_ensures`, which rests on `Laws/Conv/DoGc`. Between the first two a
logical page is mapped nowhere (`Unmapped`), after the second it has its new page (`NewPage`).
`PageWritten` is what the whole body does, for all that follows.

The body takes a line when its own is full. Whether there is one is a hypothesis here, and a theorem
in `Laws/Conv/Capacity`.
-/

set_option autoImplicit false

namespace NvmeVirt

open Outcome

/-- Nothing was erased and nothing was copied. -/
structure ConvFtl.SameWear (ftl₀ ftl : ConvFtl) : Prop where
  gcCount : ftl.gcCount = ftl₀.gcCount
  gcCopiedPages : ftl.gcCopiedPages = ftl₀.gcCopiedPages
  lineErase : ∀ l, (ftl.lm.lines l).eraseCnt = (ftl₀.lm.lines l).eraseCnt
  blkErase : ∀ b, (ftl.ssd.blk b).eraseCnt = (ftl₀.ssd.blk b).eraseCnt
  wgs : ftl.wgs = ftl₀.wgs

theorem ConvFtl.SameWear.trans {a b c : ConvFtl} (h : a.SameWear b) (h' : b.SameWear c) :
    a.SameWear c where
  gcCount := h'.gcCount.trans h.gcCount
  gcCopiedPages := h'.gcCopiedPages.trans h.gcCopiedPages
  lineErase l := (h'.lineErase l).trans (h.lineErase l)
  blkErase b := (h'.blkErase b).trans (h.blkErase b)
  wgs := h'.wgs.trans h.wgs

/-- What the page write itself does, before the refill. -/
structure PageWritten (ftl₀ : ConvFtl) (lpn : Nat) (ftl : ConvFtl) : Prop where
  sp : ftl.ssd.sp = ftl₀.ssd.sp
  cp : ftl.cp = ftl₀.cp
  mapped : (ftl.maptbl lpn).isSome
  others : ∀ l, l ≠ lpn → ftl.maptbl l = ftl₀.maptbl l
  writable : ftl.flash.writable + 1 = ftl₀.flash.writable
  wfc : ftl.wfc = { ftl₀.wfc with writeCredits := sub32 ftl₀.wfc.writeCredits 1 }
  pageMeta : ∃ now, ftl.pageMeta = Function.update ftl₀.pageMeta lpn
    { updateCnt := u32 ((ftl₀.pageMeta lpn).updateCnt + 1), lastWriteTime := now }
  wordline : (ftl.wp .userIo).pg % ftl₀.ssd.sp.pgsPerOneshotpg =
    ((ftl₀.wp .userIo).pg + 1) % ftl₀.ssd.sp.pgsPerOneshotpg
  hostWrittenPages : ftl.hostWrittenPages = ftl₀.hostWrittenPages + 1
  wear : ftl₀.SameWear ftl

/-- The clocks do not matter. -/
theorem PageWritten.withSsd {ftl₀ ftl : ConvFtl} {lpn : Nat} (h : PageWritten ftl₀ lpn ftl)
    {ssd : Ssd} (hs : ftl.ssd.SameFlash ssd) (trace : List FlashEvent) :
    PageWritten ftl₀ lpn { ftl with ssd, trace } := by
  have hflash : ConvFtl.flash { ftl with ssd, trace } = ftl.flash := by
    unfold ConvFtl.flash
    rw [hs.sp, hs.blk]
  exact { h with
    sp := hs.sp.trans h.sp
    writable := by rw [hflash]; exact h.writable
    wear := { h.wear with blkErase := fun b => by rw [← h.wear.blkErase b, ← hs.blk] } }

/-- The collection of a refill: none above the threshold, and else one that freed a line or one that
found the queue empty. -/
inductive Foreground (ftl₀ : ConvFtl) : ConvFtl → Prop where
  | skipped : ftl₀.shouldGcHigh = false → Foreground ftl₀ ftl₀
  | collected {v : Nat} {ftl : ConvFtl} : ftl₀.shouldGcHigh = true → Collected ftl₀ v ftl →
      CountedGc ftl₀ ftl → Foreground ftl₀ ftl
  | noVictim {ftl : ConvFtl} : ftl₀.shouldGcHigh = true → ftl₀.lm.victimLinePq.size = 1 →
      NoVictim ftl₀ ftl → Foreground ftl₀ ftl

/-- `check_and_refill_write_credit`. -/
inductive Refilled (ftl₀ : ConvFtl) : ConvFtl → Prop where
  | kept : ftl₀.wfc.writeCredits ≠ 0 → Refilled ftl₀ ftl₀
  | refilled {ftl : ConvFtl} : ftl₀.wfc.writeCredits = 0 → Foreground ftl₀ ftl →
      Refilled ftl₀ { ftl with wfc := ftl.wfc.refill }

section Ensures

variable {E : Fault → Prop} {ftl : ConvFtl} {lpn : Nat}

/-! ## The old page -/

/-- After the old page was given up, the logical page is unmapped and nothing was written. -/
structure Unmapped (ftl₀ : ConvFtl) (lpn : Nat) (ftl : ConvFtl) : Prop where
  sp : ftl.ssd.sp = ftl₀.ssd.sp
  rest : ftl.rest = ftl₀.rest
  wear : ftl₀.SameWear ftl
  maptbl : ftl.maptbl = ftl₀.maptbl
  wp : ftl.wp = ftl₀.wp
  core : ∃ place, Core ftl.flash none place ∧ ∀ l, place l ≠ .held
  mapped : Mapped ftl.ssd.sp ftl.ssd.blk (Function.update ftl.maptbl lpn none) ftl.rmap
    fun _ => False
  timed : ftl.ssd.Timed
  writable : ftl.flash.writable = ftl₀.flash.writable

/-- The old page is invalidated, if there is one. -/
theorem invalidateOld_ensures (h : Settled ftl) (lpn : Nat) :
    Ensures E (invalidateOld ftl lpn) (Unmapped ftl lpn) := by
  obtain ⟨place, c, hheld⟩ := h.core
  unfold invalidateOld ConvFtl.getMaptblEnt
  cases hl : ftl.maptbl lpn with
  | none =>
    refine .pure ⟨rfl, rfl, ⟨rfl, rfl, fun _ => rfl, fun _ => rfl, rfl⟩, rfl, rfl, h.core, ?_,
      h.timed, rfl⟩
    rw [← hl, Function.update_eq_self]
    exact h.mapped
  | some p =>
    have hvalid := h.mapped.valid hl
    have hstatus := h.mapped.status hl
    refine (markPageInvalid_ensures hstatus).bind ?_
    rintro _ ⟨now, rfl⟩
    refine (setRmapEnt_ensures (ftl.invalidate p now) h.wf hvalid invalidLpn).mono ?_
    rintro _ rfl
    refine ⟨rfl, rfl, ⟨rfl, rfl, fun l => ?_, fun b => ?_, rfl⟩, rfl, rfl, ?_, ?_,
      ⟨h.timed.channels, h.timed.pcie⟩, ?_⟩
    · exact c.invalidate_lineErase h.wf hvalid (hheld _) now l
    · exact ftl.flash.invalidate_blkErase p now b
    · refine ⟨_, c.invalidate h.wf hvalid (hheld _) hstatus now, fun l => ?_⟩
      by_cases hlp : l = p.blk
      · subst hlp
        rw [Function.update_self]
        split
        · exact nofun
        · exact hheld _
      · rw [Function.update_of_ne hlp]
        exact hheld l
    · exact h.mapped.invalidate h.wf hl (ftl.flash.status_invalidate p now) invalidLpn
    · exact c.writable_invalidate h.wf hvalid (hheld _) hstatus now

/-! ## The new page -/

/-- The learner counts hot writes in its own fields. -/
theorem countHotWrite_ensures (ftl : ConvFtl) (lpn : Nat) :
    Ensures E (countHotWrite ftl lpn) fun r => ∃ rl, r = { ftl with rl } :=
  readGcMode_ensures.bind fun _ _ => .ite
    (fun _ => ktimeGetNs_ensures.bind fun _ _ => .pure ⟨_, rfl⟩) fun _ => .pure ⟨ftl.rl, rfl⟩

/-- A full wordline is programmed, and the pages stay. -/
theorem programWordline_ensures (h : ftl.ssd.Timed) (stime : Nat) (p : Ppa) :
    Ensures E (programWordline ftl stime p) fun r =>
      (∃ ssd trace, ftl.ssd.SameFlash ssd ∧ r.1 = { ftl with ssd, trace }) ∧
        (r.2.isSome ↔ lastPgInWordline ftl.ssd.sp p = true) :=
  .ite (fun hl => (ssdAdvanceNand_ensures h _).bind fun _ hs =>
    .pure ⟨⟨_, _, hs, rfl⟩, iff_of_true rfl hl⟩)
    fun hl => .pure ⟨⟨ftl.ssd, ftl.trace, ⟨rfl, rfl, h⟩, rfl⟩, iff_of_false nofun hl⟩

/-- The new page `q` is marked and entered in both tables; the write pointer still points at it. -/
structure NewPage (ftl₁ : ConvFtl) (lpn : Nat) (q : Ppa) (now : Nat) (ftl : ConvFtl) : Prop where
  flash : ftl.flash = ftl₁.flash.validate q
  maptbl : ftl.maptbl = Function.update ftl₁.maptbl lpn (some q)
  rmap : ftl.rmap = Function.update ftl₁.rmap (ftl₁.ssd.sp.pgidx q) lpn
  cp : ftl.cp = ftl₁.cp
  wfc : ftl.wfc = ftl₁.wfc
  pageMeta : ftl.pageMeta = Function.update ftl₁.pageMeta lpn
    { updateCnt := u32 ((ftl₁.pageMeta lpn).updateCnt + 1), lastWriteTime := now }
  hostWrittenPages : ftl.hostWrittenPages = ftl₁.hostWrittenPages + 1
  gcCount : ftl.gcCount = ftl₁.gcCount
  gcCopiedPages : ftl.gcCopiedPages = ftl₁.gcCopiedPages
  wgs : ftl.wgs = ftl₁.wgs
  timed : ftl.ssd.Timed

/-- A page write erases nothing. -/
theorem NewPage.sameWear {ftl₁ ftl : ConvFtl} {lpn now : Nat} {q : Ppa}
    (n : NewPage ftl₁ lpn q now ftl) : ftl₁.SameWear ftl where
  gcCount := n.gcCount
  gcCopiedPages := n.gcCopiedPages
  lineErase l :=
    (congrArg (fun f : Flash => (f.lm.lines l).eraseCnt) n.flash).trans
      (ftl₁.flash.validate_lineErase q l)
  blkErase b :=
    (congrArg (fun f : Flash => (f.blk b).eraseCnt) n.flash).trans
      (ftl₁.flash.validate_blkErase q b)
  wgs := n.wgs

/-- The write pointer moves past the new page, and the instance is settled again. -/
theorem advance_newPage {ftl₀ ftl₁ ftl₂ : ConvFtl} (now : Nat) (u : Unmapped ftl₀ lpn ftl₁)
    (w : ftl₁.ssd.sp.WellFormed) (hlt : lpn < ftl₁.ssd.sp.ttPgs)
    (n : NewPage ftl₁ lpn (ftl₁.wp .userIo).ppa now ftl₂)
    (hroom : E .nullCurline ∨ 2 * ftl₀.ssd.sp.pgsPerLine + 1 < ftl₀.flash.writable) :
    Ensures E (advanceWritePointer ftl₂ .userIo) fun ftl =>
      Settled ftl ∧ ftl.wfc = ftl₀.wfc ∧
        PageWritten ftl₀ lpn { ftl with
          wfc := { ftl.wfc with writeCredits := sub32 ftl.wfc.writeCredits 1 } } := by
  obtain ⟨place, c, hheld⟩ := u.core
  have hvalid : validPpa ftl₁.ssd.sp (ftl₁.wp .userIo).ppa = true := c.valid_ppa w .userIo
  have hfree : pgStatus ftl₁.ssd.blk (ftl₁.wp .userIo).ppa = .free := c.ppa_free w .userIo
  have hsp : ftl₂.ssd.sp = ftl₁.ssd.sp := congrArg Flash.sp n.flash
  have hblk : pgStatus ftl₂.ssd.blk =
      Function.update (pgStatus ftl₁.ssd.blk) (ftl₁.wp .userIo).ppa .valid :=
    (congrArg (fun f : Flash => pgStatus f.blk) n.flash).trans (ftl₁.flash.status_validate _)
  have hc : Core ftl₂.flash (some .userIo) place := n.flash ▸ c.validate w .userIo
  have hw : ftl₂.flash.writable + 1 = ftl₀.flash.writable := by
    rw [n.flash, ← u.writable]
    exact c.writable_validate w .userIo
  refine (advanceWritePointer_ensures hc (hsp ▸ w) ?_).mono ?_
  · refine hroom.imp_right fun hlarge => ?_
    rw [hsp, u.sp]
    omega
  rintro _ ⟨lm, wp, place', rfl, ha⟩
  have hrest := u.rest
  simp only [ConvFtl.rest, Prod.mk.injEq] at hrest
  obtain ⟨hcp, hwfc, hmeta, _, _, _, _, hhost⟩ := hrest
  have hmap : ftl₂.maptbl = Function.update ftl₀.maptbl lpn (some (ftl₁.wp .userIo).ppa) := by
    rw [n.maptbl, u.maptbl]
  refine ⟨⟨hsp ▸ w, ⟨place', ha.core, fun l => ?_⟩, ?_, n.timed⟩, n.wfc.trans hwfc, ?_⟩
  · exact mt (ha.held l).mp (hheld l)
  · have hat := u.mapped.attach w (Function.update_self ..) hlt hvalid hfree id hblk
    rw [Function.update_idem] at hat
    show Mapped ftl₂.ssd.sp ftl₂.ssd.blk ftl₂.maptbl ftl₂.rmap _
    rw [hsp, n.maptbl, n.rmap]
    exact hat
  have hwp : ftl₂.wp .userIo = ftl₀.wp .userIo :=
    (congrFun (congrArg Flash.wp n.flash) .userIo).trans (congrFun u.wp .userIo)
  have hword : (wp .userIo).pg % ftl₂.ssd.sp.pgsPerOneshotpg =
      ((ftl₂.wp .userIo).pg + 1) % ftl₂.ssd.sp.pgsPerOneshotpg := ha.wordline
  rw [hwp, hsp, u.sp] at hword
  have hkept : ftl₂.SameWear { ftl₂ with lm, wp } :=
    ⟨rfl, rfl, ha.kept.eraseCnt, fun _ => rfl, rfl⟩
  have hwear := (u.wear.trans n.sameWear).trans hkept
  refine ⟨hsp.trans u.sp, n.cp.trans hcp, ?_, fun l hl => ?_, ?_, ?_, ⟨now, ?_⟩, hword, ?_,
    hwear.gcCount, hwear.gcCopiedPages, hwear.lineErase, hwear.blkErase, hwear.wgs⟩
  · show (ftl₂.maptbl lpn).isSome
    rw [hmap, Function.update_self]
    rfl
  · show ftl₂.maptbl l = _
    rw [hmap, Function.update_of_ne hl]
  · rw [← hw]
    exact congrArg (· + 1) ha.writable
  · show ({ ftl₂.wfc with writeCredits := sub32 ftl₂.wfc.writeCredits 1 } : WriteFlowControl) = _
    rw [n.wfc, hwfc]
  · show ftl₂.pageMeta = _
    rw [n.pageMeta, hmeta]
  · show ftl₂.hostWrittenPages = _
    rw [n.hostWrittenPages, hhost]

/-- The page a write pointer is at completes its wordline. -/
def WritePointer.AtWordlineEnd (wp : WritePointer) (spp : SsdParams) : Prop :=
  (wp.pg + 1) % spp.pgsPerOneshotpg = 0

/-- The last page of a wordline ends it. -/
theorem Core.lastPg_iff {f : Flash} {ahead : Option Stream} {place : Nat → Place}
    (c : Core f ahead place) (w : f.sp.WellFormed) (s : Stream) :
    lastPgInWordline f.sp (f.wp s).ppa = true ↔ (f.wp s).AtWordlineEnd f.sp := by
  obtain ⟨b, hb⟩ := Nat.exists_eq_succ_of_ne_zero w.pgsPerOneshotpg_pos.ne'
  rw [c.ppa_eq w s]
  unfold lastPgInWordline WritePointer.AtWordlineEnd
  rw [hb, beq_iff_eq]
  exact Nat.succ_mod_succ_eq_zero_iff.symm

/-- The instance once the page at the user write pointer has taken the data of `lpn`. -/
def hostPlaced (ftl : ConvFtl) (lpn : Nat) (rl : RlConfig) (now : Nat) : ConvFtl :=
  let q := (ftl.wp .userIo).ppa
  let marked := { ftl.record [.page .userIo q] with
    maptbl := Function.update ftl.maptbl lpn (some q)
    rmap := Function.update ftl.rmap (ftl.ssd.sp.pgidx q) lpn }.validate q
  { marked.record [.host lpn q] with
    hostWrittenPages := ftl.hostWrittenPages + 1, rl }.touchMeta lpn now

/-- Up to the write pointer, the body of the loop of `conv_write` gives up the old page and places a
new one. -/
theorem convWritePageBody_placing (h : Settled ftl) (hlt : lpn < ftl.ssd.sp.ttPgs) {stime : Nat}
    {old : ConvFtl → Prop} (hold : Ensures E (invalidateOld ftl lpn) old)
    {P : ConvFtl × Option Nat → Prop}
    (hrest : ∀ ftl₁ rl now, Unmapped ftl lpn ftl₁ → old ftl₁ → Ensures E
      (advanceWritePointer (hostPlaced ftl₁ lpn rl now) .userIo >>= fun ftl₂ =>
        programWordline ftl₂ stime (ftl₁.wp .userIo).ppa >>= fun r =>
          pure (consumeWriteCredit r.1, r.2)) P) :
    Ensures E (convWritePageBody ftl lpn stime) P := by
  unfold convWritePageBody
  refine ((invalidateOld_ensures h lpn).and hold).bind fun ftl₁ ⟨u, hold₁⟩ => ?_
  have w : ftl₁.ssd.sp.WellFormed := u.sp ▸ h.wf
  obtain ⟨place, c, hheld⟩ := u.core
  refine (getNewPage_ensures c w .userIo).bind ?_
  rintro _ rfl
  have hlt₁ : lpn < (ftl₁.record [.page .userIo (ftl₁.wp .userIo).ppa]).ssd.sp.ttPgs := u.sp ▸ hlt
  refine Ensures.bind (setMaptblEnt_ensures hlt₁ _) ?_
  rintro _ rfl
  refine Ensures.bind (setRmapEnt_ensures { ftl₁.record _ with
    maptbl := Function.update ftl₁.maptbl lpn _ } w (c.valid_ppa w .userIo) lpn) ?_
  rintro _ rfl
  refine Ensures.bind (markPageValid_ensures (c.ppa_free w .userIo)) ?_
  rintro _ rfl
  refine Ensures.bind (countHotWrite_ensures _ lpn) ?_
  rintro _ ⟨rl, rfl⟩
  exact ktimeGetNs_ensures.bind fun now _ => hrest ftl₁ rl now u hold₁

/-- The body of the loop of `conv_write` up to the refill. -/
theorem convWritePageBody_ensures (h : Settled ftl) (hlt : lpn < ftl.ssd.sp.ttPgs) (stime : Nat)
    (hroom : E .nullCurline ∨ 2 * ftl.ssd.sp.pgsPerLine + 1 < ftl.flash.writable) :
    Ensures E (convWritePageBody ftl lpn stime) fun r => Settled r.1 ∧ PageWritten ftl lpn r.1 ∧
      (r.2.isSome ↔ (ftl.wp .userIo).AtWordlineEnd ftl.ssd.sp) := by
  refine convWritePageBody_placing h hlt (invalidateOld_ensures h lpn) fun ftl₁ rl now u _ => ?_
  have w : ftl₁.ssd.sp.WellFormed := u.sp ▸ h.wf
  obtain ⟨place, c, hheld⟩ := u.core
  refine Ensures.bind (advance_newPage now u w (u.sp ▸ hlt) ?_ hroom) ?_
  · exact ⟨rfl, rfl, rfl, rfl, rfl, rfl, rfl, rfl, rfl, rfl, u.timed.channels, u.timed.pcie⟩
  rintro ftl₂ ⟨h₂, hwfc, hpw⟩
  refine (programWordline_ensures h₂.timed stime _).bind ?_
  rintro ⟨_, nsecsDone⟩ ⟨⟨ssd, trace, hs, rfl⟩, hsome⟩
  have hsp₂ : ftl₂.ssd.sp = ftl₁.ssd.sp := hpw.sp.trans u.sp.symm
  refine .pure ⟨h₂.withSsd hs _ trace, hpw.withSsd hs trace, ?_⟩
  rw [hsome, hsp₂, c.lastPg_iff w .userIo, ← u.sp, ← u.wp]

/-! ## The refill -/

/-- `foreground_gc`. Its selection function is never NULL where `do_gc` calls it. -/
theorem foregroundGc_ensures (h : Settled ftl)
    (hroom : E .nullCurline ∨ 3 * ftl.ssd.sp.pgsPerLine ≤ ftl.flash.writable) :
    Ensures E (foregroundGc ftl) fun r => Settled r ∧ Foreground ftl r := by
  unfold foregroundGc
  refine .ite (fun hgc => ?_) fun hgc => .pure ⟨h, .skipped (Bool.eq_false_iff.mpr hgc)⟩
  refine readGcMode_ensures.bind fun mode _ => ?_
  refine (doGc_ensures h (.ofInt mode) true (GcMode.selectFn_selects _) hroom).bind ?_
  rintro ⟨ftl₁, res⟩ ⟨hset, hres⟩
  refine .pure ⟨hset, ?_⟩
  rcases hres with ⟨v, -, hc, hcounted⟩ | ⟨-, hn, hempty⟩
  · exact .collected hgc hc hcounted
  · exact .noVictim hgc (hempty (.inr rfl)) hn

/-- The credits are refilled, with a collection or without. -/
theorem checkAndRefillWriteCredit_ensures (h : Settled ftl)
    (hroom : E .nullCurline ∨ 3 * ftl.ssd.sp.pgsPerLine ≤ ftl.flash.writable) :
    Ensures E (checkAndRefillWriteCredit ftl) fun r => Settled r ∧ Refilled ftl r := by
  unfold checkAndRefillWriteCredit
  refine .ite (fun hz => ?_) fun hnz => .pure ⟨h, .kept hnz⟩
  refine (foregroundGc_ensures h hroom).bind fun ftl₁ hf => .pure ?_
  exact ⟨⟨hf.1.wf, hf.1.core, hf.1.mapped, hf.1.timed⟩, .refilled hz hf.2⟩

/-- One page write of `conv_write`, with the collection it may trigger. -/
theorem convWritePage_ensures (h : Settled ftl) (hlt : lpn < ftl.ssd.sp.ttPgs) (stime : Nat)
    (hroom : E .nullCurline ∨ 3 * ftl.ssd.sp.pgsPerLine < ftl.flash.writable) :
    Ensures E (convWritePage ftl lpn stime) fun r => Settled r.1 ∧
      (∃ ftl₁, PageWritten ftl lpn ftl₁ ∧ Refilled ftl₁ r.1) ∧
        (r.2.isSome ↔ (ftl.wp .userIo).AtWordlineEnd ftl.ssd.sp) := by
  unfold convWritePage
  have hpos : 0 < ftl.ssd.sp.pgsPerLine := h.wf.pgsPerLine_pos
  refine (convWritePageBody_ensures h hlt stime (hroom.imp_right fun hl => ?_)).bind ?_
  · omega
  rintro ⟨ftl₁, nsecsDone⟩ ⟨h₁, hw, hsome⟩
  refine (checkAndRefillWriteCredit_ensures h₁ (hroom.imp_right fun hl => ?_)).bind ?_
  · have hone := hw.writable
    rw [hw.sp]
    omega
  rintro ftl₂ ⟨h₂, hr⟩
  exact .pure ⟨h₂, ⟨ftl₁, hw, hr⟩, hsome⟩

end Ensures

end NvmeVirt

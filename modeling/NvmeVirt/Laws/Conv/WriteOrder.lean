import NvmeVirt.Laws.Conv.Run
import NvmeVirt.Laws.Conv.Traces

/-!
# Lines are written in order

Whatever the three streams do between each other, a stream writes its lines one after the other,
each from the first page of `lineOrder` to the last, and takes the next line exactly then. A block
is programmed wordline by wordline, each by one NAND write that follows its last page, and it is
erased only when all its pages were written. The order is that of the trace, which the functions of
the instance write as they go: every page write and every collection extends it in order.

The lemmas follow the functions of `conv_ftl.c` from the inside out, a collection first
(`Traced.gcWritePage_ensures`, `Traced.gcCollect_ensures`, `Traced.doGc_ensures`) and then a page
write (`Traced.programWordline_ensures`, `Traced.pageBody_ensures`, `Traced.convWritePage_ensures`).
Each takes the bookkeeping it needs from `Settled` and the lemmas of `Laws/Conv/DoGc`, and the order
from the three steps of `Laws/Conv/Traces`.

A collection programs its wordlines only where `enable_gc_delay` is set, as in the shipped
configuration; without it the writes of a collection are not sent to the flash.
-/

set_option autoImplicit false

namespace NvmeVirt

open Outcome

section Carried

variable {cp : ConvParams} {spp : SsdParams} {ftl ftl₀ : ConvFtl} {v lpn : Nat} {p : Ppa}
  {done : Ppa → Prop} {erased : BlkId → Prop} {place : Nat → Place}

/-! ## A collection -/

/-- A collection sends a NAND command, if it does send any. -/
theorem Traced.gcAdvanceNand_ensures {ncmd : NandCmd} (h : Traced cp spp ncmd.events ftl)
    (hdelay : cp.enableGcDelay = true) (ht : ftl.ssd.Timed) :
    Ensures (fun _ => True) (gcAdvanceNand ftl ncmd) (Traced cp spp []) := by
  unfold gcAdvanceNand
  refine .ite (fun _ => (h.advanceNand ht).bind fun _ h' => .pure h') fun hno => ?_
  rw [h.cp] at hno
  exact absurd hdelay hno

/-- A copied page calls for its program. -/
theorem events_gcWriteCmd (spp : SsdParams) (p : Ppa) :
    (gcWriteCmd spp p).events = spp.programDue p := by
  unfold gcWriteCmd SsdParams.programDue
  split <;> rfl

/-- A copy fills the page at its write pointer. -/
theorem Collecting.filled_copyPlaced (ftl : ConvFtl) (p : Ppa) (lpn : Nat) (st : Stream) :
    PageFilled st (ftl.wp st).ppa (.copy p (ftl.wp st).ppa) ftl (Collecting.copyPlaced ftl p lpn st) where
  sp := rfl
  cp := rfl
  wp := rfl
  issued := rfl
  trace := List.append_assoc ..
  status := ftl.flash.status_validate _
  fills := rfl

/-- The copy of a page goes to the next page of its stream. -/
theorem Traced.gcWritePage_ensures (h : Traced cp spp [] ftl) (hdelay : cp.enableGcDelay = true)
    (s : Collecting ftl₀ v done erased ftl) (hcol : Collectable ftl₀ v)
    (hp : validPpa ftl.ssd.sp p = true) (hnd : ¬ done p) (hval : pgStatus ftl.ssd.blk p = .valid) :
    Ensures (fun _ => True) (gcWritePage ftl p) (Traced cp spp []) := by
  have w := s.wf hcol
  obtain ⟨place, hcore, _⟩ := s.core
  refine s.gcWritePage_placing hcol hcore hp hnd hval fun lpn st hplacing => ?_
  have hcore' : Core (Collecting.copyPlaced ftl p lpn st).flash (some st) place :=
    hcore.validate w st
  refine Ensures.bind ((advanceWritePointer_ensures hcore' w (.inl trivial)).and
    (h.advance hcore w (Collecting.filled_copyPlaced ftl p lpn st) rfl hcore')) fun ftl₄ h₄ => ?_
  obtain ⟨⟨lm, wp, place', rfl, _⟩, htraced⟩ := h₄
  refine Traced.gcAdvanceNand_ensures ?_ hdelay ⟨s.timed.channels, s.timed.pcie⟩
  show Traced cp spp (gcWriteCmd ftl.ssd.sp (ftl.wp st).ppa).events _
  rw [events_gcWriteCmd, h.sp]
  exact htraced

/-- A collection keeps the trace in order. -/
theorem Traced.keeps (hdelay : cp.enableGcDelay = true) (hcol : Collectable ftl₀ v) :
    Keeps ftl₀ v (Traced cp spp []) where
  read s h xferSize p := by
    have hread : Traced cp spp (gcCmd .read xferSize p).events _ := h
    exact hread.gcAdvanceNand_ensures hdelay s.timed
  page s h hp _ hnd hval := h.gcWritePage_ensures hdelay s hcol hp hnd hval
  erase := by
    intro done erased ftl p s h hp hpv hne
    have hwritten : ∀ pg, pg < ftl.ssd.sp.pgsPerBlk →
        pgStatus ftl.ssd.blk ⟨p.toBlkId, pg⟩ ≠ .free := by
      intro pg hlt
      obtain ⟨hch, hlun, hpl, hblk, _⟩ := validPpa_iff.mp hp
      rw [s.status (p := ⟨p.toBlkId, pg⟩) hpv hne]
      refine hcol.written _ ?_ hpv
      rw [← s.sp]
      exact validPpa_iff.mpr ⟨hch, hlun, hpl, hblk, hlt⟩
    unfold gcEraseBlock
    have herase : Traced cp spp (gcCmd .erase 0 p).events _ := h.erase hwritten
    refine (herase.gcAdvanceNand_ensures hdelay ⟨s.timed.channels, s.timed.pcie⟩).bind
      fun ftl₁ h₁ => .pure ?_
    exact h₁.aside ⟨rfl, rfl, rfl, rfl, rfl, fun _ => Iff.rfl⟩

/-- A line is copied and erased. -/
theorem Traced.gcCollect_ensures (h : Traced cp spp [] ftl) (hdelay : cp.enableGcDelay = true)
    (hset : Settled ftl) (c : Core ftl.flash none place) (hheld : ∀ l, place l ≠ .held)
    {lm : LineMgmt} (hs : LineMgmt.Selected ftl.lm lm (fun s => some (ftl.wp s).curline) place v)
    (rl : RlConfig) (mode : GcMode) :
    Ensures (fun _ => True) (gcCollect { ftl with lm, rl } mode v) (Traced cp spp []) := by
  have hcol := hset.collectable c hheld hs rl mode
  have hid : (lm.lines v).id = v := hs.placed.id v
  have hstart : Traced cp spp [] (gcStart { ftl with lm, rl } mode v) :=
    h.aside ⟨rfl, rfl, rfl, rfl, rfl, fun _ => Iff.rfl⟩
  unfold gcCollect
  dsimp only
  rw [hid]
  refine (Collecting.gcCleanLine_ensures hcol (Traced.keeps hdelay hcol) hstart
    (.inl trivial)).bind fun ftl₁ hdone => ?_
  rw [updateWearGap_eq]
  refine (rlFinish_ensures _ mode).mono ?_
  rintro _ ⟨rl', rfl⟩
  exact hdone.2.aside ⟨rfl, rfl, rfl, rfl, rfl, fun _ => Iff.rfl⟩

/-- A collection, by any policy. -/
theorem Traced.doGc_ensures (h : Traced cp spp [] ftl) (hdelay : cp.enableGcDelay = true)
    (hset : Settled ftl) (mode : GcMode) (force : Bool) {selectFn : Option VictimSelectFn}
    (hsel : mode = .rl ∨ ∃ select, selectFn = some select ∧ Selects select) :
    Ensures (fun _ => True) (doGc ftl mode force selectFn) fun r => Traced cp spp [] r.1 := by
  obtain ⟨place, c, hheld⟩ := hset.core
  unfold doGc
  refine (gcSelect_ensures c mode force hsel).bind ?_
  rintro ⟨ftl₁, victim⟩ ⟨⟨rl, _, heq⟩, hspec⟩
  dsimp only at heq hspec
  rw [heq]
  cases victim with
  | none => exact .pure (h.aside ⟨rfl, rfl, rfl, rfl, rfl, fun _ => Iff.rfl⟩)
  | some v =>
    exact (h.gcCollect_ensures hdelay hset c hheld hspec rl mode).bind fun _ h₁ => .pure h₁

/-! ## A page write -/

/-- Giving up the old page frees no page. -/
theorem invalidateOld_aside (hset : Settled ftl) (lpn : Nat) :
    Ensures (fun _ => True) (invalidateOld ftl lpn) (Aside ftl) := by
  unfold invalidateOld ConvFtl.getMaptblEnt
  cases hl : ftl.maptbl lpn with
  | none => exact .pure ⟨rfl, rfl, rfl, rfl, rfl, fun _ => Iff.rfl⟩
  | some p =>
    have hstatus := hset.mapped.status hl
    refine (markPageInvalid_ensures hstatus).bind ?_
    rintro _ ⟨now, rfl⟩
    refine (setRmapEnt_ensures (ftl.invalidate p now) hset.wf (hset.mapped.valid hl)
      invalidLpn).mono ?_
    rintro _ rfl
    refine ⟨rfl, rfl, rfl, rfl, rfl, fun q => ?_⟩
    have hupdate : pgStatus (ftl.invalidate p now).ssd.blk q =
        Function.update (pgStatus ftl.ssd.blk) p .invalid q :=
      congrFun (ftl.flash.status_invalidate p now) q
    show pgStatus (ftl.invalidate p now).ssd.blk q = .free ↔ _
    rw [hupdate]
    by_cases hq : q = p
    · rw [hq, Function.update_self, hstatus]
      exact iff_of_false PgStatus.noConfusion PgStatus.noConfusion
    · rw [Function.update_of_ne hq]

/-- The wordline a page write has filled is programmed. -/
theorem Traced.programWordline_ensures (h : Traced cp spp (spp.programDue p) ftl)
    (ht : ftl.ssd.Timed) (stime : Nat) :
    Ensures (fun _ => True) (programWordline ftl stime p) fun r => Traced cp spp [] r.1 := by
  unfold programWordline
  rw [h.sp]
  refine .ite (fun hlast => ?_) fun hlast => ?_
  · rw [SsdParams.programDue, if_pos hlast] at h
    have hdue : Traced cp spp (userWriteCmd spp stime p).events ftl := h
    exact (hdue.advanceNand ht).bind fun _ h' => .pure h'
  · rw [SsdParams.programDue, if_neg hlast] at h
    exact .pure h

/-- A page write of the host fills the page at its write pointer. -/
theorem filled_hostPlaced (ftl : ConvFtl) (lpn : Nat) (rl : RlConfig) (now : Nat) :
    PageFilled .userIo (ftl.wp .userIo).ppa (.host lpn (ftl.wp .userIo).ppa) ftl
      (hostPlaced ftl lpn rl now) where
  sp := rfl
  cp := rfl
  wp := rfl
  issued := rfl
  trace := List.append_assoc ..
  status := ftl.flash.status_validate _
  fills := rfl

theorem Aside.withWfc (ftl : ConvFtl) (wfc : WriteFlowControl) : Aside ftl { ftl with wfc } :=
  ⟨rfl, rfl, rfl, rfl, rfl, fun _ => Iff.rfl⟩

/-- A page write, up to the credits. -/
theorem Traced.pageBody_ensures (h : Traced cp spp [] ftl) (hset : Settled ftl)
    (hlt : lpn < ftl.ssd.sp.ttPgs) (stime : Nat) :
    Ensures (fun _ => True) (convWritePageBody ftl lpn stime) fun r => Traced cp spp [] r.1 := by
  refine convWritePageBody_placing hset hlt (invalidateOld_aside hset lpn) fun ftl₁ rl now u ha => ?_
  have h₁ := h.aside ha
  have w : ftl₁.ssd.sp.WellFormed := u.sp ▸ hset.wf
  obtain ⟨place, c, _⟩ := u.core
  have c' : Core (hostPlaced ftl₁ lpn rl now).flash (some .userIo) place := c.validate w .userIo
  refine Ensures.bind (Ensures.and (advanceWritePointer_ensures c' w (.inl trivial))
    (h₁.advance c w (filled_hostPlaced ftl₁ lpn rl now) rfl c')) ?_
  rintro _ ⟨⟨lm, wp, place', rfl, _⟩, htraced⟩
  refine Ensures.bind (htraced.programWordline_ensures ⟨u.timed.channels, u.timed.pcie⟩ stime) ?_
  rintro ⟨ftl₂, nsecsDone⟩ hprogrammed
  exact .pure (hprogrammed.aside (.withWfc ftl₂ _))

/-- The refill of the credits, with the collection it may run. -/
theorem Traced.checkAndRefillWriteCredit_ensures (h : Traced cp spp [] ftl)
    (hdelay : cp.enableGcDelay = true) (hset : Settled ftl) :
    Ensures (fun _ => True) (checkAndRefillWriteCredit ftl) (Traced cp spp []) := by
  unfold checkAndRefillWriteCredit foregroundGc
  refine .ite (fun _ => Ensures.bind (.ite (fun _ => ?_) fun _ => .pure h) fun ftl₁ h₁ => .pure ?_)
    fun _ => .pure h
  · refine readGcMode_ensures.bind fun mode _ => ?_
    exact (h.doGc_ensures hdelay hset _ true (GcMode.selectFn_selects _)).bind fun _ hr => .pure hr
  · exact h₁.aside ⟨rfl, rfl, rfl, rfl, rfl, fun _ => Iff.rfl⟩

/-- A whole page write. -/
theorem Traced.convWritePage_ensures (h : Traced cp spp [] ftl) (hdelay : cp.enableGcDelay = true)
    (hset : Settled ftl) (hlt : lpn < ftl.ssd.sp.ttPgs) (stime : Nat) :
    Ensures (fun _ => True) (convWritePage ftl lpn stime) fun r => Traced cp spp [] r.1 := by
  unfold convWritePage
  refine ((convWritePageBody_ensures hset hlt stime (.inl trivial)).and
    (h.pageBody_ensures hset hlt stime)).bind fun r hr => ?_
  obtain ⟨⟨hset₁, _⟩, h₁⟩ := hr
  exact (h₁.checkAndRefillWriteCredit_ensures hdelay hset₁).bind fun _ h₂ => .pure h₂

end Carried

/-! ## The law -/

/-- Between page writes nothing is due: what was allocated and programmed so far is in order. -/
theorem pageWrites_traced {cp : ConvParams} {spp : SsdParams} (w : spp.WellFormed)
    (hdelay : cp.enableGcDelay = true) : (pageWrites cp spp spp.LocalLpn).Invariant fun ftl =>
      (Settled ftl ∧ ftl.ssd.sp = spp) ∧ Traced cp spp [] ftl := by
  refine (pageWrites_settled w fun _ => id).of_rel ?_ ?_
  · rintro ftl ⟨env, env', hrun⟩
    exact .init ((convInitFtl_ensures (E := fun _ => True) w cp (.inl trivial)).of_run hrun)
  · rintro ftl lpn ftl' ⟨hset, rfl⟩ h ⟨hlt, stime, nsecsDone, env, env', hrun⟩
    exact (h.convWritePage_ensures hdelay hset hlt stime).of_run hrun

/-- The order of a line: every page of it once, the pages of a block in increasing order, and each
wordline with one page that `last_pg_in_wordline` picks out, its last. -/
structure SsdParams.LineOrdered (spp : SsdParams) (l : Nat) : Prop where
  length : (spp.lineOrder l).length = spp.pgsPerLine
  nodup : (spp.lineOrder l).Nodup
  mem : ∀ p, p ∈ spp.lineOrder l ↔ validPpa spp p = true ∧ p.blk = l
  increasing : (spp.lineOrder l).Pairwise fun p q => p.toBlkId = q.toBlkId → p.pg < q.pg
  last : ∀ p ∈ spp.lineOrder l, ∃ q ∈ spp.lineOrder l, spp.SameWordline p q ∧
    ∀ r, spp.SameWordline p r → r.pg ≤ q.pg ∧ (lastPgInWordline spp r = true ↔ r = q)

/-- `lineOrder` goes over each line once, page by page. -/
theorem SsdParams.WellFormed.lineOrdered {spp : SsdParams} (w : spp.WellFormed) {l : Nat}
    (hl : l < spp.blksPerPl) : spp.LineOrdered l where
  length := length_lineOrder spp l
  nodup := w.nodup_lineOrder l
  mem _ := w.mem_lineOrder hl
  increasing := w.lineOrder_increasing l
  last p hp := by
    obtain ⟨hvalid, hblk⟩ := (w.mem_lineOrder hl).mp hp
    obtain ⟨q, hq, hsame, hlast⟩ := w.exists_lastPg hvalid
    refine ⟨q, (w.mem_lineOrder hl).mpr ⟨hq, ?_⟩, hsame, hlast⟩
    rw [← hblk, hsame.1]

/-- In every run the trace of the instance is in order: each stream writes one line after the other, from
the first page of its order to the last, and takes the next line then; each block is programmed
wordline by wordline, by one command each after its last page, and erased when it is full. The programs
of the trace are the write commands that `ssd_advance_nand` was given, in their order. -/
theorem lines_written_in_order (cfg : SsdConfig) {spp : SsdParams} (w : spp.WellFormed)
    {ftl : ConvFtl}
    (h : (pageWrites (convInitParams cfg spp) spp spp.LocalLpn).Reachable ftl) :
    WritesInOrder spp ftl.trace ftl ∧ ProgramsIssued ftl ∧
      (∀ s, (ftl.wp s).curline < spp.blksPerPl ∧ (ftl.wp s).fill spp < spp.pgsPerLine) ∧
      ∀ l, l < spp.blksPerPl → spp.LineOrdered l := by
  obtain ⟨⟨hset, hsp⟩, htraced⟩ := (pageWrites_traced w rfl).reachable h
  obtain ⟨place, c, _⟩ := hset.core
  have horder := htraced.order
  rw [List.append_nil] at horder
  refine ⟨horder, htraced.programs, fun s => ?_, fun l hl => w.lineOrdered hl⟩
  subst hsp
  exact ⟨c.ttLines ▸ (c.curline_place s).1, c.fill_lt w s⟩

/-- On the small device, after collections that copied pages. -/
theorem lines_written_in_order_collected : ∃ ftl, ftl.gcCopiedPages = 3 ∧
    WritesInOrder smallParams ftl.trace ftl ∧ ProgramsIssued ftl := by
  obtain ⟨ftl, hpath, _, hcopied⟩ := exists_collected
  obtain ⟨horder, hprog, _⟩ :=
    lines_written_in_order smallConfig smallParams_wellFormed hpath.reachable
  exact ⟨ftl, hcopied, horder, hprog⟩

end NvmeVirt

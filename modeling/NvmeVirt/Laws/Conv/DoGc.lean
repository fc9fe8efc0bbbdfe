import NvmeVirt.Laws.Conv.Collect

/-!
# A whole collection

`Settled ftl` is the invariant of an instance between two page writes. `do_gc` keeps it: the victim
goes from the queue through the hands of the triple loop to the free list, and its valid pages end
up in other lines (`Collected`).

The selection comes first (`gcSelect_ensures`): it takes a line from the queue or finds none,
whatever the policy. The triple loop is `Laws/Conv/Collect`; once it is over no logical page maps
into the victim and all its pages are free, so that it may go back (`Collecting.collected`,
`gcReclaim_ensures`). Before and after, the sampling of the wear and the learner change their own
fields only (`updateWearGap_eq`, `rlFinish_ensures`).

`doGc_ensures` has two outcomes, `Collected` for some line and `NoVictim`; which of them it is, is
left to `Laws/Conv/Capacity`.
-/

set_option autoImplicit false

namespace NvmeVirt

open Outcome

/-- Between two page writes: every line is in a container, the counts are right and the tables agree
with the valid pages. -/
structure Settled (ftl : ConvFtl) : Prop where
  wf : ftl.ssd.sp.WellFormed
  core : ∃ place, Core ftl.flash none place ∧ ∀ l, place l ≠ .held
  mapped : Mapped ftl.ssd.sp ftl.ssd.blk ftl.maptbl ftl.rmap fun _ => False
  timed : ftl.ssd.Timed

/-- What a collection of the line `v` does to the contents and to the pages. -/
structure Collected (ftl₀ : ConvFtl) (v : Nat) (ftl : ConvFtl) : Prop where
  sp : ftl.ssd.sp = ftl₀.ssd.sp
  cp : ftl.cp = ftl₀.cp
  pageMeta : ftl.pageMeta = ftl₀.pageMeta
  userWp : ftl.wp .userIo = ftl₀.wp .userIo
  lt : v < ftl₀.ssd.sp.blksPerPl
  queued : (ftl₀.lm.lines v).pos ≠ 0
  ipc_pos : 0 < (ftl₀.lm.lines v).ipc
  refill : ftl.wfc = { ftl₀.wfc with creditsToRefill := (ftl₀.lm.lines v).ipc }
  mapped : ∀ l, (ftl.maptbl l).isSome ↔ (ftl₀.maptbl l).isSome
  moved : ∀ l, ftl₀.MapsInto l v → ∃ q, ftl.maptbl l = some q ∧ q.blk ≠ v
  unmoved : ∀ l, ¬ ftl₀.MapsInto l v → ftl.maptbl l = ftl₀.maptbl l
  copied : ftl.gcCopiedPages = ftl₀.gcCopiedPages + (ftl₀.lm.lines v).vpc
  freed : ∀ p, validPpa ftl₀.ssd.sp p = true → p.blk = v → pgStatus ftl.ssd.blk p = .free
  blkErase : ∀ b, ftl₀.ssd.sp.Visited b → b.blk = v →
    (ftl.ssd.blk b).eraseCnt = (ftl₀.ssd.blk b).eraseCnt + 1
  lineErase : (ftl.lm.lines v).eraseCnt = (ftl₀.lm.lines v).eraseCnt + 1
  otherLineErase : ∀ l, l ≠ v → (ftl.lm.lines l).eraseCnt = (ftl₀.lm.lines l).eraseCnt
  otherBlkErase : ∀ b, b.blk ≠ v → (ftl.ssd.blk b).eraseCnt = (ftl₀.ssd.blk b).eraseCnt
  writable : ftl.flash.writable = ftl₀.flash.writable + (ftl₀.lm.lines v).ipc

/-- The statistics of a collection: it counts as one, and the host wrote nothing. -/
structure CountedGc (ftl₀ ftl : ConvFtl) : Prop where
  gcCount : ftl.gcCount = ftl₀.gcCount + 1
  hostWrittenPages : ftl.hostWrittenPages = ftl₀.hostWrittenPages

/-- The learner's choice: its state, its action and the levels the action stands for. -/
def RlConfig.Chose (rl rl' : RlConfig) : Prop :=
  ∃ curState curAction alphaLevel deltaLevel,
    rl' = { rl with curState, curAction, alphaLevel, deltaLevel }

/-- What a collection that finds no victim does. -/
def NoVictim (ftl₀ ftl : ConvFtl) : Prop :=
  ∃ rl, ftl₀.rl.Chose rl ∧
    ftl = { ftl₀ with rl, wfc := { ftl₀.wfc with creditsToRefill := 0 } }

namespace Settled

variable {E : Fault → Prop} {ftl : ConvFtl} {place : Nat → Place}

/-! ## Before the triple loop -/

/-- A selected line is ready to be collected. -/
theorem collectable (h : Settled ftl) (c : Core ftl.flash none place) (hheld : ∀ l, place l ≠ .held)
    {lm : LineMgmt} {v : Nat}
    (hs : LineMgmt.Selected ftl.lm lm (fun s => some (ftl.wp s).curline) place v)
    (rl : RlConfig) (mode : GcMode) : Collectable (gcStart { ftl with lm, rl } mode v) v where
  wf := h.wf
  lt := c.ttLines ▸ hs.lt
  core := by
    refine ⟨Function.update place v .held, c.select hs, fun l => ?_⟩
    by_cases hl : l = v
    · rw [hl, Function.update_self]
      exact iff_of_true rfl rfl
    · rw [Function.update_of_ne hl]
      exact iff_of_false (hheld l) hl
  mapped := h.mapped
  timed := h.timed
  written p hp hpv := by
    have hp' : validPpa ftl.flash.sp p = true := hp
    exact c.not_free h.wf hp' (.inr (hpv ▸ hs.victim))

/-- The valid pages of a line that no function holds are the logical pages mapped into it. -/
theorem vpc_eq_mappedInto (h : Settled ftl) (c : Core ftl.flash none place) {l : Nat}
    (hlt : l < ftl.lm.ttLines) (hheld : place l ≠ .held) :
    (ftl.lm.lines l).vpc = ftl.mappedInto l := by
  classical
  have hcount := (c.lineCount l hheld hlt).vpc
  have hcard := h.mapped.card_mapped fun p => p.blk = l
  refine hcount.trans (Eq.trans (congrArg Finset.card ?_) (hcard.symm.trans ?_))
  · ext p
    simp only [Finset.mem_filter, SsdParams.mem_pages, SsdParams.mem_linePages]
    constructor
    · rintro ⟨⟨hv, hl⟩, hst⟩
      exact ⟨hv, ⟨hv, hst, id⟩, hl⟩
    · rintro ⟨_, ⟨hv, hst, _⟩, hl⟩
      exact ⟨⟨hv, hl⟩, hst⟩
  · unfold ConvFtl.mappedInto ConvFtl.MapsInto
    congr

/-- Neither the clocks of the device nor the credits nor the trace matter. -/
theorem withSsd (h : Settled ftl) {ssd : Ssd} (hs : ftl.ssd.SameFlash ssd) (wfc : WriteFlowControl)
    (trace : List FlashEvent) : Settled { ftl with ssd, wfc, trace } := by
  have hflash : ConvFtl.flash { ftl with ssd, wfc, trace } = ftl.flash := by
    unfold ConvFtl.flash
    rw [hs.sp, hs.blk]
  refine ⟨hs.sp ▸ h.wf, ?_, ?_, hs.timed⟩
  · rw [hflash]
    exact h.core
  · show Mapped ssd.sp ssd.blk _ _ _
    rw [hs.sp, hs.blk]
    exact h.mapped

end Settled

/-! ## After the triple loop -/

namespace Collecting

variable {ftl₀ ftl : ConvFtl} {v : Nat} {done : Ppa → Prop} {erased : BlkId → Prop}

/-- The pages of an erased block are free. -/
theorem free_of_erased (s : Collecting ftl₀ v done erased ftl) {p : Ppa}
    (hp : validPpa ftl₀.ssd.sp p = true) (hpv : p.blk = v) (he : erased p.toBlkId) :
    pgStatus ftl.ssd.blk p = .free := by
  unfold pgStatus
  rw [s.erasedBlk _ hpv he]
  exact if_pos (validPpa_iff.mp hp).2.2.2.2

/-- Once every page was passed, nothing is mapped into the victim. -/
theorem mappedInto_eq_zero (s : Collecting ftl₀ v (fun _ => True) erased ftl) :
    ftl.mappedInto v = 0 := by
  classical
  refine Finset.card_eq_zero.mpr (Finset.filter_eq_empty_iff.mpr ?_)
  rintro l _ ⟨p, hl, hpv⟩
  have hl₀ := s.not_moved hpv hl
  obtain ⟨q, hq, hne⟩ := s.moved l p hl₀ hpv trivial
  rw [hl] at hq
  exact hne (Option.some.inj hq ▸ hpv)

/-- A collection maps no page and unmaps none. -/
theorem isSome_iff (s : Collecting ftl₀ v (fun _ => True) erased ftl) (l : Nat) :
    (ftl.maptbl l).isSome ↔ (ftl₀.maptbl l).isSome := by
  by_cases hl : ftl₀.MapsInto l v
  · obtain ⟨p, hp, hpv⟩ := hl
    obtain ⟨q, hq, _⟩ := s.moved l p hp hpv trivial
    rw [hp, hq]
    exact Iff.rfl
  · rw [s.unmoved l fun p hp hpv _ => hl ⟨p, hp, hpv⟩]

/-- The victim goes back to the free list. -/
theorem settled (s : Collecting ftl₀ v (fun _ => True) ftl₀.ssd.sp.Visited ftl)
    (h : Collectable ftl₀ v) : Settled { ftl with lm := ftl.lm.markLineFree v } where
  wf := s.wf h
  core := by
    obtain ⟨place, c, hheld⟩ := s.core
    have hlt : v < ftl.lm.ttLines := by
      rw [c.ttLines]
      show v < ftl.ssd.sp.blksPerPl
      rw [s.sp]
      exact h.lt
    refine ⟨Function.update place v .free, c.freeLine hlt ((hheld v).mpr rfl) ?_, fun l => ?_⟩
    · intro p hp hpv
      have hp₀ : validPpa ftl₀.ssd.sp p = true := s.sp ▸ hp
      exact s.free_of_erased hp₀ hpv (blkId_visited h.wf hp₀)
    · by_cases hl : l = v
      · rw [hl, Function.update_self]
        exact nofun
      · rw [Function.update_of_ne hl]
        exact fun hh => hl ((hheld l).mp hh)
  mapped := by
    refine s.mapped.congr fun p hp => ?_
    by_cases hpv : p.blk = v
    · have hp₀ : validPpa ftl₀.ssd.sp p = true := s.sp ▸ hp
      have hfree := s.free_of_erased hp₀ hpv (blkId_visited h.wf hp₀)
      rw [hfree]
      exact iff_of_false (fun hh => nomatch hh.1) fun hh => nomatch hh.1
    · exact and_congr_right fun _ => not_congr (iff_of_false id fun hh => hpv hh.1)
  timed := s.timed

end Collecting

/-! ## `do_gc` -/

/-- The first page of block 0 names the line. -/
theorem SsdParams.WellFormed.ofFields_line {spp : SsdParams} (w : spp.WellFormed) {v : Nat}
    (hv : v < spp.blksPerPl) : (Ppa.ofFields 0 0 0 v 0).blk = v :=
  Nat.mod_eq_of_lt (hv.trans_le w.blksPerPl_le)

/-- `max - min` as `update_wear_gap` computes it. -/
def LineMgmt.scannedRange (lm : LineMgmt) : Nat :=
  sub32 (collectEraseStats lm).max (collectEraseStats lm).min

/-- The statistics after a collection that left the range `curRange`. -/
def WearGapStats.record (wgs : WearGapStats) (curRange : Nat) : WearGapStats :=
  if wgs.initialized = false then { wgs with prevRange := curRange, initialized := true }
  else
    { wgs with
      accumDiff := wgs.accumDiff + ((curRange : Int) - (wgs.prevRange : Int))
      samples := wgs.samples + 1
      prevRange := curRange }

/-- The sampling changes its statistics only. -/
theorem updateWearGap_eq (ftl : ConvFtl) :
    updateWearGap ftl = { ftl with wgs := ftl.wgs.record ftl.lm.scannedRange } := by
  unfold updateWearGap WearGapStats.record LineMgmt.scannedRange
  split
  · rfl
  · rfl

/-- `do_gc` from its victim to the learner. -/
def gcReclaim (ftl : ConvFtl) (mode : GcMode) (v : Nat) : FtlM ConvFtl := do
  let blk := (ftl.lm.lines v).id
  let ftl ← gcCleanLine (gcStart ftl mode v) blk
  pure (updateWearGap (markLineFree ftl (Ppa.ofFields 0 0 0 blk 0)))

/-- The learner comes last. -/
theorem gcCollect_eq (ftl : ConvFtl) (mode : GcMode) (v : Nat) :
    gcCollect ftl mode v = gcReclaim ftl mode v >>= fun ftl => rlFinish ftl mode := by
  unfold gcCollect gcReclaim
  simp only [bind_assoc, pure_bind]

section Ensures

variable {E : Fault → Prop} {ftl : ConvFtl} {place : Nat → Place}

/-- The state can be read. -/
theorem rlGetState_ensures (ftl : ConvFtl) : Ensures E (rlGetState ftl) fun _ => True :=
  ktimeGetNs_ensures.bind fun _ _ => .pure trivial

/-- An action can be chosen. -/
theorem rlSelectAction_ensures (rl : RlConfig) (state : Nat) :
    Ensures E (rlSelectAction rl state) fun _ => True :=
  getRandomU32_ensures.bind fun _ _ =>
    .ite (fun _ => getRandomU32_ensures.bind fun _ _ => .pure trivial) fun _ => .pure trivial

/-- The learner changes its own fields only. -/
theorem rlFinish_ensures (ftl : ConvFtl) (mode : GcMode) :
    Ensures E (rlFinish ftl mode) fun r => ∃ rl, r = { ftl with rl } :=
  .ite (fun _ => (rlGetState_ensures ftl).bind fun _ _ => .pure ⟨_, rfl⟩) fun _ => .pure ⟨ftl.rl, rfl⟩

/-- The learner, or a function that selects, answers a line of the queue or nothing. -/
theorem gcSelect_ensures (c : Core ftl.flash none place) (mode : GcMode) (force : Bool)
    {selectFn : Option VictimSelectFn}
    (hsel : mode = .rl ∨ ∃ select, selectFn = some select ∧ Selects select) :
    Ensures E (gcSelect ftl mode force selectFn) fun r =>
      (∃ rl, ftl.rl.Chose rl ∧ r.1 = { ftl with rl, lm := r.1.lm }) ∧
        ftl.lm.SelectSpec (fun s => some (ftl.wp s).curline) place (mode = .rl ∨ force = true)
          (r.1.lm, r.2) := by
  unfold gcSelect
  refine .ite (fun hrl => ?_) fun hrl => ?_
  · refine (rlGetState_ensures ftl).bind fun state _ => (rlSelectAction_ensures ftl.rl state).bind
      fun action _ => ?_
    have hplaced : LineMgmt.Placed ftl.lm (fun s => some (ftl.wp s).curline) place := c.placed
    refine (selectVictimScored_ensures
      { ftl with rl := rlDecodeAction { ftl.rl with curState := state } action } hplaced _ _).mono
        fun r hr => ?_
    exact ⟨⟨_, ⟨state, action, _, _, rfl⟩, hr.1⟩, hr.2.mono fun _ => trivial⟩
  · obtain hmode | ⟨select, rfl, hselects⟩ := hsel
    · exact absurd hmode hrl
    · refine (hselects E ftl force _ place c.placed).mono fun r hr => ?_
      refine ⟨⟨ftl.rl, ⟨_, _, _, _, rfl⟩, hr.1⟩, hr.2.mono fun hf => ?_⟩
      exact hf.resolve_left hrl

section Reclaim

variable {lm : LineMgmt} {v : Nat} {rl : RlConfig} {mode : GcMode} {ftl₁ : ConvFtl}

/-- Taking the victim uses no page. -/
theorem writable_gcStart (hs : LineMgmt.Selected ftl.lm lm (fun s => some (ftl.wp s).curline) place v) :
    (gcStart { ftl with lm, rl } mode v).flash.writable = ftl.flash.writable :=
  Flash.writable_congr hs.freeLineList rfl fun _ => rfl

/-- What a collection did, once the victim is back in the free list. -/
theorem Collecting.collected (h : Settled ftl) (c : Core ftl.flash none place)
    (hheld : ∀ l, place l ≠ .held)
    (hs : LineMgmt.Selected ftl.lm lm (fun s => some (ftl.wp s).curline) place v)
    (s : Collecting (gcStart { ftl with lm, rl } mode v) v (fun _ => True) ftl.ssd.sp.Visited ftl₁)
    (wgs : WearGapStats) :
    Collected ftl v { ftl₁ with lm := ftl₁.lm.markLineFree v, wgs } := by
  -- the victim is written to its end
  have hline := c.lineOk v hs.lt
  rw [hs.victim] at hline
  obtain ⟨hipc, hsum⟩ := hline
  have hvpc : (ftl.lm.lines v).vpc = ftl.mappedInto v :=
    h.vpc_eq_mappedInto c hs.lt (hheld v)
  have hcopied := s.copied
  rw [s.mappedInto_eq_zero] at hcopied
  have hrest := s.rest
  simp only [ConvFtl.rest, gcStart, Prod.mk.injEq] at hrest
  have herase : ∀ l, (ftl₁.lm.lines l).eraseCnt = (ftl.lm.lines l).eraseCnt :=
    fun l => (s.lineErase l).trans (hs.kept.eraseCnt l)
  have hwrite : (ftl₁.flash.freeLine v).writable = ftl₁.flash.writable + ftl₁.ssd.sp.pgsPerLine :=
    Core.writable_freeLine ftl₁.flash v
  refine {
    sp := s.sp
    cp := hrest.1
    pageMeta := hrest.2.2.1
    userWp := s.userWp
    lt := (h.collectable c hheld hs rl mode).lt
    queued := c.placed.queued.mpr ⟨hs.lt, hs.victim⟩
    ipc_pos := hipc
    refill := ?_
    mapped := s.isSome_iff
    moved := fun l ⟨p, hp, hpv⟩ => s.moved l p hp hpv trivial
    unmoved := fun l hl => s.unmoved l fun p hp hpv _ => hl ⟨p, hp, hpv⟩
    copied := ?_
    freed := fun p hp hpv => s.free_of_erased hp hpv (blkId_visited h.wf hp)
    blkErase := fun b hb hbv => ?_
    lineErase := ?_
    otherLineErase := fun l hl => ?_
    otherBlkErase := s.otherErase
    writable := ?_ }
  · show ftl₁.wfc = _
    rw [hrest.2.1, hs.kept.ipc]
  · show ftl₁.gcCopiedPages = _
    rw [hvpc]
    exact hcopied
  · show (ftl₁.ssd.blk b).eraseCnt = _
    rw [s.erasedBlk b hbv hb]
    rfl
  · show ((ftl₁.lm.markLineFree v).lines v).eraseCnt = _
    rw [← herase v]
    exact congrArg Line.eraseCnt (ftl₁.lm.setLine_self v _)
  · show ((ftl₁.lm.markLineFree v).lines l).eraseCnt = _
    rw [← herase l]
    exact congrArg Line.eraseCnt (ftl₁.lm.setLine_of_ne hl _)
  · show (ftl₁.flash.freeLine v).writable = _
    have hc : ftl₁.gcCopiedPages + 0 = ftl.gcCopiedPages + ftl.mappedInto v := hcopied
    have hw : ftl₁.flash.writable + ftl₁.gcCopiedPages = ftl.flash.writable + ftl.gcCopiedPages :=
      writable_gcStart hs ▸ s.writable
    have hsum' : (ftl.lm.lines v).vpc + (ftl.lm.lines v).ipc = ftl.ssd.sp.pgsPerLine := hsum
    have hppl : ftl₁.ssd.sp.pgsPerLine = ftl.ssd.sp.pgsPerLine := congrArg _ s.sp
    omega

/-- The collection of a selected line, up to the learner. -/
theorem gcReclaim_ensures (h : Settled ftl) (c : Core ftl.flash none place)
    (hheld : ∀ l, place l ≠ .held) {lm : LineMgmt} {v : Nat}
    (hs : LineMgmt.Selected ftl.lm lm (fun s => some (ftl.wp s).curline) place v)
    (rl : RlConfig) (mode : GcMode)
    (hroom : E .nullCurline ∨ 3 * ftl.ssd.sp.pgsPerLine ≤ ftl.flash.writable) :
    Ensures E (gcReclaim { ftl with lm, rl } mode v) fun r =>
      Settled r ∧ Collected ftl v r ∧ CountedGc ftl r ∧
        r.rl = (gcStart { ftl with lm, rl } mode v).rl ∧
          r.wgs = ftl.wgs.record r.lm.scannedRange := by
  have hcol := h.collectable c hheld hs rl mode
  have hlt : v < ftl.ssd.sp.blksPerPl := hcol.lt
  have hid : (lm.lines v).id = v := hs.placed.id v
  unfold gcReclaim
  dsimp only
  rw [hid]
  refine (Collecting.gcCleanLine_ensures (E := E) hcol (.nothing _ _) trivial ?_).bind
    fun ftl₁ hdone => ?_
  · refine hroom.imp_right fun hlarge => ?_
    -- fewer pages of the victim are mapped than a line has
    have hline := c.lineOk v hs.lt
    rw [hs.victim] at hline
    have hipc : 0 < (ftl.lm.lines v).ipc := hline.1
    have hsum : (ftl.lm.lines v).vpc + (ftl.lm.lines v).ipc = ftl.ssd.sp.pgsPerLine := hline.2
    have hvpc : (ftl.lm.lines v).vpc = ftl.mappedInto v :=
      h.vpc_eq_mappedInto c hs.lt (hheld v)
    rw [writable_gcStart hs]
    show 2 * ftl.ssd.sp.pgsPerLine + ftl.mappedInto v < _
    omega
  obtain ⟨s, _⟩ := hdone
  have hfree : markLineFree ftl₁ (Ppa.ofFields 0 0 0 v 0) =
      { ftl₁ with lm := ftl₁.lm.markLineFree v } := by
    unfold markLineFree
    rw [h.wf.ofFields_line hlt]
  rw [hfree, updateWearGap_eq]
  have hset := s.settled hcol
  have hrest := s.rest
  simp only [ConvFtl.rest, gcStart, Prod.mk.injEq] at hrest
  have hgc : ftl₁.gcCount = ftl.gcCount + 1 := hrest.2.2.2.2.2.2.1
  have hhost : ftl₁.hostWrittenPages = ftl.hostWrittenPages := hrest.2.2.2.2.2.2.2
  have hrl : ftl₁.rl = (gcStart { ftl with lm, rl } mode v).rl := hrest.2.2.2.2.1
  have hwgs : ftl₁.wgs = ftl.wgs := hrest.2.2.2.2.2.1
  exact .pure ⟨⟨hset.wf, hset.core, hset.mapped, hset.timed⟩, s.collected h c hheld hs _,
    ⟨hgc, hhost⟩, hrl, congrArg (WearGapStats.record · _) hwgs⟩

end Reclaim

/-- The learner learns, and nothing else changes. -/
theorem Collected.withRl {ftl₁ : ConvFtl} {v : Nat} (h : Collected ftl v ftl₁) (rl : RlConfig) :
    Collected ftl v { ftl₁ with rl } := by
  cases h
  constructor <;> assumption

/-- The collection of a selected line. -/
theorem gcCollect_ensures (h : Settled ftl) (c : Core ftl.flash none place)
    (hheld : ∀ l, place l ≠ .held) {lm : LineMgmt} {v : Nat}
    (hs : LineMgmt.Selected ftl.lm lm (fun s => some (ftl.wp s).curline) place v)
    (rl : RlConfig) (mode : GcMode)
    (hroom : E .nullCurline ∨ 3 * ftl.ssd.sp.pgsPerLine ≤ ftl.flash.writable) :
    Ensures E (gcCollect { ftl with lm, rl } mode v) fun r =>
      Settled r ∧ Collected ftl v r ∧ CountedGc ftl r := by
  rw [gcCollect_eq]
  refine (gcReclaim_ensures h c hheld hs rl mode hroom).bind fun ftl₁ ⟨hset, hc, hcounted, _⟩ => ?_
  refine (rlFinish_ensures ftl₁ mode).mono ?_
  rintro _ ⟨rl', rfl⟩
  exact ⟨⟨hset.wf, hset.core, hset.mapped, hset.timed⟩, hc.withRl rl', hcounted.gcCount,
    hcounted.hostWrittenPages⟩

/-- `do_gc` collects a line, or finds none: then the queue is empty, or greedy was not forced. -/
theorem doGc_ensures (h : Settled ftl) (mode : GcMode) (force : Bool)
    {selectFn : Option VictimSelectFn}
    (hsel : mode = .rl ∨ ∃ select, selectFn = some select ∧ Selects select)
    (hroom : E .nullCurline ∨ 3 * ftl.ssd.sp.pgsPerLine ≤ ftl.flash.writable) :
    Ensures E (doGc ftl mode force selectFn) fun r => Settled r.1 ∧
      ((∃ v, r.2 = 0 ∧ Collected ftl v r.1 ∧ CountedGc ftl r.1) ∨
        (r.2 = -1 ∧ NoVictim ftl r.1 ∧
          (mode = .rl ∨ force = true → ftl.lm.victimLinePq.size = 1))) := by
  obtain ⟨place, c, hheld⟩ := h.core
  unfold doGc
  refine (gcSelect_ensures c mode force hsel).bind ?_
  rintro ⟨ftl₁, victim⟩ ⟨⟨rl, hchose, heq⟩, hspec⟩
  dsimp only at heq hspec
  cases victim with
  | none =>
    obtain ⟨hlm, hempty⟩ := hspec
    dsimp only at hlm
    rw [hlm] at heq
    subst heq
    refine .pure ⟨⟨h.wf, h.core, h.mapped, h.timed⟩, .inr ⟨rfl, ⟨rl, hchose, rfl⟩, hempty⟩⟩
  | some v =>
    have hs : LineMgmt.Selected ftl.lm ftl₁.lm (fun s => some (ftl.wp s).curline) place v := hspec
    rw [heq]
    refine (gcCollect_ensures h c hheld hs rl mode hroom).bind fun ftl₂ hr => .pure ?_
    exact ⟨hr.1, .inl ⟨v, rfl, hr.2⟩⟩

end Ensures

end NvmeVirt

import NvmeVirt.Lib.LogStore
import NvmeVirt.Laws.Conv.WriteOrder

/-!
# What the pages hold

The module keeps the data of a device in one area of memory and gives the flash pages none, so its
mapping is only ever asked for times. Here the pages hold data as they would on a drive: `DriveData`
follows the trace that the functions of the instance write. A page write of the host puts its number
into the page it took, `gc_write_page` copies what the old page holds at that moment to the one it
took, and an erase wipes the block. Reading through `maptbl` then gives the newest write of every
logical page, whatever collections ran in between, and only erased pages are programmed.

`Retains` joins the trace with the tables of the same state, so an event and the change of the
tables it stands for are one step (`Takes`); a function that enters nothing and leaves the tables
goes by (`Retains.aside`). The three kinds of step are those of a store that only appends
(`Lib/LogStore`).

The trace is what the functions do in the order in which they do it: a collection that erased before
it copied would leave another trace. Reads of the host and what the worker copies are not part of
it.
-/

set_option autoImplicit false

namespace NvmeVirt

open Outcome

/-- What the pages hold: the numbers of page writes. -/
abbrev Contents := Ppa → Option Nat

/-- The page writes of the host so far, and what the pages hold. -/
structure DriveData where
  writes : List Nat
  held : Contents

namespace DriveData

/-- Nothing was written. -/
def blank : DriveData := ⟨[], fun _ => none⟩

/-- The data after an event. -/
def follow (d : DriveData) : FlashEvent → DriveData
  | .host lpn p =>
    { writes := d.writes ++ [lpn], held := Function.update d.held p (some d.writes.length) }
  | .copy oldPpa newPpa => { d with held := Function.update d.held newPpa (d.held oldPpa) }
  | .erased b => { d with held := fun p => if p.toBlkId = b then none else d.held p }
  | .opened _ _ | .page _ _ | .closed _ _ | .program _ => d

/-- The data after a trace. -/
def ofTrace (tr : List FlashEvent) : DriveData := tr.foldl follow blank

/-- One event more is followed. -/
theorem ofTrace_concat (tr : List FlashEvent) (e : FlashEvent) :
    ofTrace (tr ++ [e]) = (ofTrace tr).follow e := by
  unfold ofTrace
  rw [List.foldl_append]
  rfl

/-- No data moves when a write pointer changes its line, -/
theorem ofTrace_switched (tr : List FlashEvent) (s : Stream) (old new : Nat) :
    ofTrace (tr ++ switched s old new) = ofTrace tr := by
  unfold ofTrace
  rw [List.foldl_append, switched]
  split <;> rfl

/-- nor when a flash command is issued. -/
theorem ofTrace_events (tr : List FlashEvent) (ncmd : NandCmd) :
    ofTrace (tr ++ ncmd.events) = ofTrace tr := by
  unfold ofTrace
  rw [List.foldl_append, NandCmd.events]
  split <;> rfl

end DriveData

/-- The data of an instance. -/
def ConvFtl.data (ftl : ConvFtl) : DriveData := .ofTrace ftl.trace

/-- Nothing that says where data lies has changed, and no data has moved. -/
structure ConvFtl.SameTables (ftl ftl' : ConvFtl) : Prop where
  sp : ftl'.ssd.sp = ftl.ssd.sp
  blk : ftl'.ssd.blk = ftl.ssd.blk
  maptbl : ftl'.maptbl = ftl.maptbl
  data : ftl'.data = ftl.data

/-- After the page writes `lpns` the pages hold what was written last, and the free ones nothing. -/
structure Retains (spp : SsdParams) (lpns : List Nat) (ftl : ConvFtl) : Prop where
  sp : ftl.ssd.sp = spp
  writes : ftl.data.writes = lpns
  serves : Serves ftl.maptbl ftl.data.held (newest lpns)
  erased : ∀ p, validPpa spp p = true → (ftl.data.held p = none ↔ pgStatus ftl.ssd.blk p = .free)

/-- The mapped pages are valid. -/
def ConvFtl.MapsValid (ftl : ConvFtl) : Prop :=
  ∀ lpn p, ftl.maptbl lpn = some p → validPpa ftl.ssd.sp p = true ∧ pgStatus ftl.ssd.blk p = .valid

/-- The tables map to valid pages. -/
theorem Mapped.mapsValid {ftl : ConvFtl} {stale : Ppa → Prop}
    (m : Mapped ftl.ssd.sp ftl.ssd.blk ftl.maptbl ftl.rmap stale) : ftl.MapsValid :=
  fun _ _ hl => ⟨m.valid hl, m.status hl⟩

section Steps

variable {spp : SsdParams} {lpns : List Nat} {ftl ftl' ftl₀ : ConvFtl} {v lpn : Nat} {p q : Ppa}
  {done : Ppa → Prop} {erased : BlkId → Prop} {place : Nat → Place}

theorem ConvFtl.SameTables.refl (ftl : ConvFtl) : ftl.SameTables ftl := ⟨rfl, rfl, rfl, rfl⟩

theorem ConvFtl.SameTables.withWfc (ftl : ConvFtl) (wfc : WriteFlowControl) :
    ftl.SameTables { ftl with wfc } :=
  ⟨rfl, rfl, rfl, rfl⟩

/-- A step that enters nothing. -/
theorem Retains.aside (h : Retains spp lpns ftl) (hs : ftl.SameTables ftl') :
    Retains spp lpns ftl' := by
  refine ⟨hs.sp.trans h.sp, ?_, ?_, ?_⟩
  · rw [hs.data]
    exact h.writes
  · rw [hs.maptbl, hs.data]
    exact h.serves
  · rw [hs.data, hs.blk]
    exact h.erased

/-- The free page `q` takes data by the event `e`, and becomes the page of the logical page `lpn`. -/
structure Takes (ftl : ConvFtl) (lpn : Nat) (q : Ppa) (e : FlashEvent) (ftl' : ConvFtl) : Prop where
  sp : ftl'.ssd.sp = ftl.ssd.sp
  maptbl : ftl'.maptbl = Function.update ftl.maptbl lpn (some q)
  free : ∀ p, pgStatus ftl'.ssd.blk p = .free ↔ pgStatus ftl.ssd.blk p = .free ∧ p ≠ q
  data : ftl'.data = ftl.data.follow e

/-- What comes after the page was taken. -/
theorem Takes.aside {e : FlashEvent} {ftl'' : ConvFtl} (h : Takes ftl lpn q e ftl')
    (hs : ftl'.SameTables ftl'') : Takes ftl lpn q e ftl'' where
  sp := hs.sp.trans h.sp
  maptbl := hs.maptbl.trans h.maptbl
  free p := hs.blk ▸ h.free p
  data := hs.data.trans h.data

/-- A page that takes a value holds it; the others hold what they held. -/
theorem Retains.erased_update (h : Retains spp lpns ftl) {n : Option Nat} (hn : n.isSome = true)
    (hfree : ∀ p, pgStatus ftl'.ssd.blk p = .free ↔ pgStatus ftl.ssd.blk p = .free ∧ p ≠ q) :
    ∀ p, validPpa spp p = true →
      (Function.update ftl.data.held q n p = none ↔ pgStatus ftl'.ssd.blk p = .free) := by
  intro p hp
  rw [hfree p]
  by_cases hpq : p = q
  · rw [hpq, Function.update_self]
    refine iff_of_false (fun hnone => ?_) fun hh => hh.2 rfl
    rw [hnone] at hn
    exact Bool.noConfusion hn
  · rw [Function.update_of_ne hpq, h.erased p hp]
    exact (and_iff_left hpq).symm

/-- The logical page is written again. -/
theorem Retains.host (h : Retains spp lpns ftl) (ht : Takes ftl lpn q (.host lpn q) ftl')
    (hfresh : ∀ l, l ≠ lpn → ftl.maptbl l ≠ some q) : Retains spp (lpns ++ [lpn]) ftl' := by
  have hheld : ftl'.data.held = Function.update ftl.data.held q (some lpns.length) := by
    rw [ht.data, ← h.writes]
    rfl
  refine ⟨ht.sp.trans h.sp, ?_, ?_, ?_⟩
  · rw [ht.data, ← h.writes]
    rfl
  · rw [hheld, ht.maptbl, newest_concat]
    exact h.serves.remap hfresh
  · rw [hheld]
    exact h.erased_update rfl ht.free

/-- The page of the logical page moves from `p` to `q`. -/
theorem Retains.copy (h : Retains spp lpns ftl) (hl : ftl.maptbl lpn = some p)
    (ht : Takes ftl lpn q (.copy p q) ftl') (hfresh : ∀ l, l ≠ lpn → ftl.maptbl l ≠ some q) :
    Retains spp lpns ftl' := by
  have hheld : ftl'.data.held = Function.update ftl.data.held q (ftl.data.held p) := by
    rw [ht.data]
    rfl
  refine ⟨ht.sp.trans h.sp, ?_, ?_, ?_⟩
  · rw [ht.data]
    exact h.writes
  · rw [hheld, ht.maptbl]
    exact h.serves.move hl hfresh
  · rw [hheld]
    exact h.erased_update (h.serves.held_isSome hl) ht.free

/-- A free page is the page of no logical page. -/
theorem Mapped.fresh {stale : Ppa → Prop}
    (m : Mapped ftl.ssd.sp ftl.ssd.blk ftl.maptbl ftl.rmap stale)
    (hfree : pgStatus ftl.ssd.blk q = .free) (l : Nat) : ftl.maptbl l ≠ some q := by
  intro hl
  have hvalid := m.status hl
  rw [hfree] at hvalid
  exact PgStatus.noConfusion hvalid

/-! ## A collection -/

theorem gcAdvanceNand_sameTables (ht : ftl.ssd.Timed) (ncmd : NandCmd) :
    Ensures (fun _ => True) (gcAdvanceNand ftl ncmd) ftl.SameTables :=
  .ite (fun _ => (ssdAdvanceNand_ensures ht ncmd).bind fun _ hs =>
    .pure ⟨hs.sp, hs.blk, rfl, DriveData.ofTrace_events ..⟩) fun _ => .pure (.refl ftl)

/-- `gc_write_page` copies what the page `p` holds to the page its logical page is mapped to then. -/
theorem gcWritePage_takes (s : Collecting ftl₀ v done erased ftl) (hcol : Collectable ftl₀ v)
    (hcore : Core ftl.flash none place) (hp : validPpa ftl.ssd.sp p = true) (hnd : ¬ done p)
    (hval : pgStatus ftl.ssd.blk p = .valid) :
    Ensures (fun _ => True) (gcWritePage ftl p) fun r => ∃ lpn st, ftl.maptbl lpn = some p ∧
      Takes ftl lpn (ftl.wp st).ppa (.copy p (ftl.wp st).ppa) r := by
  have w := s.wf hcol
  refine s.gcWritePage_placing hcol hcore hp hnd hval fun lpn st hplacing => ?_
  have hcore' : Core (Collecting.copyPlaced ftl p lpn st).flash (some st) place :=
    hcore.validate w st
  refine Ensures.bind (advanceWritePointer_ensures hcore' w (.inl trivial)) ?_
  rintro _ ⟨lm, wp, place', rfl, _⟩
  refine Ensures.mono (gcAdvanceNand_sameTables ?_ _) fun r hr => ⟨lpn, st, hplacing.mapped, ?_⟩
  · exact ⟨s.timed.channels, s.timed.pcie⟩
  · refine Takes.aside ?_ hr
    refine ⟨rfl, rfl, ?_, ?_⟩
    · exact free_update PgStatus.noConfusion (ftl.flash.status_validate _)
    · show DriveData.ofTrace (((ftl.trace ++ [_]) ++ [_]) ++ switched st _ _) = _
      rw [DriveData.ofTrace_switched, DriveData.ofTrace_concat, DriveData.ofTrace_concat]
      rfl

/-- One page is copied. -/
theorem Retains.gcWritePage_ensures (h : Retains spp lpns ftl)
    (s : Collecting ftl₀ v done erased ftl) (hcol : Collectable ftl₀ v)
    (hp : validPpa ftl.ssd.sp p = true) (hnd : ¬ done p) (hval : pgStatus ftl.ssd.blk p = .valid) :
    Ensures (fun _ => True) (gcWritePage ftl p) (Retains spp lpns) := by
  obtain ⟨place, hcore, _⟩ := s.core
  refine (gcWritePage_takes s hcol hcore hp hnd hval).mono ?_
  rintro r ⟨lpn, st, hl, ht⟩
  exact h.copy hl ht fun l _ => s.mapped.fresh (hcore.ppa_free (s.wf hcol) st) l

/-- An erase wipes one block, which must not be mapped. -/
theorem Retains.markBlockFree (h : Retains spp lpns ftl) (p : Ppa)
    (hvalid : (NvmeVirt.markBlockFree ftl p).MapsValid) :
    Retains spp lpns (NvmeVirt.markBlockFree ftl p) := by
  have hdata : (NvmeVirt.markBlockFree ftl p).data = ftl.data.follow (.erased p.toBlkId) :=
    DriveData.ofTrace_concat ..
  have hfreed : ∀ q, validPpa spp q = true → q.toBlkId = p.toBlkId →
      pgStatus (NvmeVirt.markBlockFree ftl p).ssd.blk q = .free := by
    intro q hq hqp
    have hpg : q.pg < ftl.ssd.sp.pgsPerBlk := h.sp ▸ (validPpa_iff.mp hq).2.2.2.2
    have hself : (NvmeVirt.markBlockFree ftl p).ssd.blk q.toBlkId =
        (ftl.ssd.blk p.toBlkId).erase ftl.ssd.sp.pgsPerBlk := by
      rw [hqp]
      exact Function.update_self ..
    unfold pgStatus
    rw [hself]
    exact if_pos hpg
  refine ⟨h.sp, ?_, ?_, fun q hq => ?_⟩
  · rw [hdata]
    exact h.writes
  · rw [hdata]
    refine h.serves.wipe fun lpn q hl hqp => ?_
    obtain ⟨hq, hstatus⟩ := hvalid lpn q hl
    have hq : validPpa spp q = true := h.sp ▸ hq
    rw [hfreed q hq hqp] at hstatus
    exact PgStatus.noConfusion hstatus
  · rw [hdata]
    by_cases hqp : q.toBlkId = p.toBlkId
    · exact iff_of_true (if_pos hqp) (hfreed q hq hqp)
    · have hheld : (ftl.data.follow (.erased p.toBlkId)).held q = ftl.data.held q := if_neg hqp
      rw [hheld, h.erased q hq]
      exact Iff.of_eq (congrArg (· = _) (ftl.flash.status_eraseBlk hqp).symm)

/-- One block is erased, none of whose pages is mapped. -/
theorem Retains.gcEraseBlock_ensures (h : Retains spp lpns ftl) (ht : ftl.ssd.Timed) (p : Ppa) :
    Ensures (fun _ => True) (gcEraseBlock ftl p) fun r => r.MapsValid → Retains spp lpns r := by
  unfold gcEraseBlock
  refine Ensures.bind (gcAdvanceNand_sameTables ?_ _) fun r hr => .pure fun hvalid => ?_
  · exact ⟨ht.channels, ht.pcie⟩
  have hvalid' : (NvmeVirt.markBlockFree ftl p).MapsValid := by
    intro lpn q hl
    have hmapped := hvalid lpn q ((congrFun hr.maptbl lpn).trans hl)
    rw [← hr.sp, ← hr.blk]
    exact hmapped
  exact ((h.markBlockFree p hvalid').aside hr).aside ⟨rfl, rfl, rfl, rfl⟩

/-- A collection keeps the data. While a block that is still mapped were wiped nothing would be said, but
no state of a collection is like that. -/
theorem Retains.keeps (hcol : Collectable ftl₀ v) :
    Keeps ftl₀ v fun ftl => ftl.MapsValid → Retains spp lpns ftl where
  read s h xferSize p := by
    have hretained := h s.mapped.mapsValid
    exact (gcAdvanceNand_sameTables s.timed _).mono fun _ hr _ => hretained.aside hr
  page s h hp _ hnd hval :=
    ((h s.mapped.mapsValid).gcWritePage_ensures s hcol hp hnd hval).mono fun _ hr _ => hr
  erase s h _ _ _ := (h s.mapped.mapsValid).gcEraseBlock_ensures s.timed _

/-- A whole collection. -/
theorem Retains.gcCollect_ensures (h : Retains spp lpns ftl) (hset : Settled ftl)
    (c : Core ftl.flash none place) (hheld : ∀ l, place l ≠ .held) {lm : LineMgmt}
    (hs : LineMgmt.Selected ftl.lm lm (fun s => some (ftl.wp s).curline) place v)
    (rl : RlConfig) (mode : GcMode) :
    Ensures (fun _ => True) (gcCollect { ftl with lm, rl } mode v) (Retains spp lpns) := by
  have hcol := hset.collectable c hheld hs rl mode
  have hid : (lm.lines v).id = v := hs.placed.id v
  have hstart : Retains spp lpns (gcStart { ftl with lm, rl } mode v) :=
    h.aside ⟨rfl, rfl, rfl, rfl⟩
  unfold gcCollect
  dsimp only
  rw [hid]
  refine (Collecting.gcCleanLine_ensures hcol (Retains.keeps hcol) (fun _ => hstart)
    (.inl trivial)).bind fun ftl₁ hdone => ?_
  rw [updateWearGap_eq]
  refine (rlFinish_ensures _ mode).mono ?_
  rintro _ ⟨rl', rfl⟩
  exact (hdone.2 hdone.1.mapped.mapsValid).aside ⟨rfl, rfl, rfl, rfl⟩

/-- A collection, or none, in any mode. -/
theorem Retains.doGc_ensures (h : Retains spp lpns ftl) (hset : Settled ftl) (mode : GcMode)
    (force : Bool) {selectFn : Option VictimSelectFn}
    (hsel : mode = .rl ∨ ∃ select, selectFn = some select ∧ Selects select) :
    Ensures (fun _ => True) (doGc ftl mode force selectFn) fun r => Retains spp lpns r.1 := by
  obtain ⟨place, c, hheld⟩ := hset.core
  unfold doGc
  refine (gcSelect_ensures c mode force hsel).bind ?_
  rintro ⟨ftl₁, victim⟩ ⟨⟨rl, _, heq⟩, hspec⟩
  dsimp only at heq hspec
  rw [heq]
  cases victim with
  | none => exact .pure (h.aside ⟨rfl, rfl, rfl, rfl⟩)
  | some v =>
    exact (h.gcCollect_ensures hset c hheld hspec rl mode).bind fun _ h₁ => .pure h₁

/-! ## A page write -/

/-- Programming a wordline is a matter of time only. -/
theorem programWordline_sameTables (ht : ftl.ssd.Timed) (stime : Nat) (p : Ppa) :
    Ensures (fun _ => True) (programWordline ftl stime p) fun r => ftl.SameTables r.1 :=
  .ite (fun _ => (ssdAdvanceNand_ensures ht _).bind fun _ hs =>
    .pure ⟨hs.sp, hs.blk, rfl, DriveData.ofTrace_events ..⟩) fun _ => .pure (.refl ftl)

/-- A page write puts its data in the page at the user write pointer. -/
theorem convWritePageBody_takes (hset : Settled ftl) (hlt : lpn < ftl.ssd.sp.ttPgs) (stime : Nat) :
    Ensures (fun _ => True) (convWritePageBody ftl lpn stime) fun r =>
      Takes ftl lpn (ftl.wp .userIo).ppa (.host lpn (ftl.wp .userIo).ppa) r.1 := by
  refine convWritePageBody_placing hset hlt (invalidateOld_aside hset lpn) fun ftl₁ rl now u ha => ?_
  have w : ftl₁.ssd.sp.WellFormed := u.sp ▸ hset.wf
  obtain ⟨place, c, _⟩ := u.core
  have c' : Core (hostPlaced ftl₁ lpn rl now).flash (some .userIo) place := c.validate w .userIo
  refine Ensures.bind (advanceWritePointer_ensures c' w (.inl trivial)) ?_
  rintro _ ⟨lm, wp, place', rfl, _⟩
  refine Ensures.bind (programWordline_sameTables ?_ stime _) fun r hr => .pure ?_
  · exact ⟨u.timed.channels, u.timed.pcie⟩
  refine Takes.aside (Takes.aside ?_ hr) (.withWfc r.1 _)
  refine ⟨u.sp, ?_, fun p => ?_, ?_⟩
  · show Function.update ftl₁.maptbl lpn (some (ftl₁.wp .userIo).ppa) = _
    rw [u.maptbl, u.wp]
  · rw [← ha.free p, ← u.wp]
    exact free_update PgStatus.noConfusion (ftl₁.flash.status_validate _) p
  · show DriveData.ofTrace (((ftl₁.trace ++ [_]) ++ [_]) ++ switched .userIo _ _) = _
    rw [DriveData.ofTrace_switched, DriveData.ofTrace_concat, DriveData.ofTrace_concat, ha.trace,
      ← u.wp]
    rfl

/-- The host writes the logical page `lpn`. -/
theorem Retains.pageBody_ensures (h : Retains spp lpns ftl) (hset : Settled ftl)
    (hlt : lpn < ftl.ssd.sp.ttPgs) (stime : Nat) :
    Ensures (fun _ => True) (convWritePageBody ftl lpn stime) fun r =>
      Retains spp (lpns ++ [lpn]) r.1 := by
  obtain ⟨place, c, _⟩ := hset.core
  refine (convWritePageBody_takes hset hlt stime).mono fun r ht => ?_
  exact h.host ht fun l _ => hset.mapped.fresh (c.ppa_free hset.wf .userIo) l

/-- The collections a page write calls for. -/
theorem Retains.checkAndRefillWriteCredit_ensures (h : Retains spp lpns ftl) (hset : Settled ftl) :
    Ensures (fun _ => True) (checkAndRefillWriteCredit ftl) (Retains spp lpns) := by
  unfold checkAndRefillWriteCredit foregroundGc
  refine .ite (fun _ => Ensures.bind (.ite (fun _ => ?_) fun _ => .pure h) fun ftl₁ h₁ => .pure ?_)
    fun _ => .pure h
  · refine readGcMode_ensures.bind fun mode _ => ?_
    exact (h.doGc_ensures hset _ true (GcMode.selectFn_selects _)).bind fun _ hr => .pure hr
  · exact h₁.aside (.withWfc ftl₁ _)

/-- One page write, with its collections. -/
theorem Retains.convWritePage_ensures (h : Retains spp lpns ftl) (hset : Settled ftl)
    (hlt : lpn < ftl.ssd.sp.ttPgs) (stime : Nat) :
    Ensures (fun _ => True) (convWritePage ftl lpn stime) fun r =>
      Retains spp (lpns ++ [lpn]) r.1 := by
  unfold convWritePage
  refine ((convWritePageBody_ensures hset hlt stime (.inl trivial)).and
    (h.pageBody_ensures hset hlt stime)).bind fun r ⟨⟨hset₁, _⟩, h₁⟩ => ?_
  exact (h₁.checkAndRefillWriteCredit_ensures hset₁).bind fun _ h₂ => .pure h₂

end Steps

/-! ## The law -/

/-- A fresh instance holds nothing. -/
theorem Fresh.retains {cp : ConvParams} {spp : SsdParams} {ftl : ConvFtl} (hf : Fresh cp spp ftl) :
    Retains spp [] ftl := by
  have hdata : ftl.data = .blank := by
    unfold ConvFtl.data
    rw [hf.trace]
    rfl
  have hnone : ftl.maptbl = fun _ => none := funext hf.maptbl
  refine ⟨hf.sp, by rw [hdata]; rfl, ?_, fun p _ => ?_⟩
  · rw [hnone]
    exact Serves.empty
  · rw [hdata, hf.ssd]
    exact iff_of_true rfl rfl

/-- By induction over the page writes, each of which may collect before the next. -/
theorem pageWrites_retains {cp : ConvParams} {spp : SsdParams} (w : spp.WellFormed) {lpns : List Nat}
    {ftl : ConvFtl} (h : (pageWrites cp spp spp.LocalLpn).Path lpns ftl) :
    Settled ftl ∧ Retains spp lpns ftl := by
  induction h with
  | init hinit =>
    obtain ⟨env, env', hrun⟩ := hinit
    have hf := (convInitFtl_ensures (E := fun _ => True) w cp (.inl trivial)).of_run hrun
    exact ⟨hf.settled, hf.retains⟩
  | step _ hstep ih =>
    obtain ⟨hset, hretains⟩ := ih
    obtain ⟨hlt, stime, nsecsDone, env, env', hrun⟩ := hstep
    have hlt' := hretains.sp ▸ hlt
    have hdone := ((convWritePage_ensures (E := fun _ => True) hset hlt' stime (.inl trivial)).and
      (hretains.convWritePage_ensures hset hlt' stime)).of_run hrun
    exact ⟨hdone.1.1, hdone.2⟩

/-- After any run of page writes, with the collections they call for, a logical page is mapped if
and only if it was written, and the page it is mapped to holds its newest write. Exactly the free
pages hold nothing. What a page holds follows from the events in the order in which the run has
them: a host write puts its number into the page it was given, a copy what its source holds at that
moment, an erase wipes the block. The simulator stores no data by flash pages; this is what its
mapping is for. -/
theorem flash_keeps_newest {cp : ConvParams} {spp : SsdParams} (w : spp.WellFormed) {lpns : List Nat}
    {ftl : ConvFtl} (h : (pageWrites cp spp spp.LocalLpn).Path lpns ftl) :
    ftl.data.writes = lpns ∧ (∀ lpn, (ftl.maptbl lpn).isSome ↔ lpn ∈ lpns) ∧
      (∀ lpn p, ftl.maptbl lpn = some p → ∃ n, ftl.data.held p = some n ∧ lpns[n]? = some lpn ∧
        ∀ m, n < m → lpns[m]? ≠ some lpn) ∧
      ∀ p, validPpa spp p = true → (ftl.data.held p = none ↔ pgStatus ftl.ssd.blk p = .free) := by
  have hretains := (pageWrites_retains w h).2
  refine ⟨hretains.writes, fun lpn => ?_, fun lpn p hl => ?_, hretains.erased⟩
  · rw [hretains.serves.mapped lpn, newest_isSome]
  · have hheld := hretains.serves.held_eq hl
    have hsome := hretains.serves.held_isSome hl
    rw [hheld] at hsome
    obtain ⟨n, hn⟩ := Option.isSome_iff_exists.mp hsome
    exact ⟨n, hheld.trans hn, newest_eq_some.mp hn⟩

/-- On the small device, after collections that copied pages: page 1 was written once, before them. -/
theorem flash_keeps_newest_collected : ∃ (ftl : ConvFtl) (p : Ppa), ftl.gcCopiedPages = 3 ∧
    ftl.maptbl 1 = some p ∧
    ftl.data.held p = some 1 := by
  obtain ⟨ftl, hpath, _, hcopied⟩ := exists_collected
  obtain ⟨_, hmapped, hnewest, _⟩ := flash_keeps_newest smallParams_wellFormed hpath
  obtain ⟨p, hp⟩ := Option.isSome_iff_exists.mp ((hmapped 1).mpr (by decide))
  obtain ⟨n, hn, hlpn, _⟩ := hnewest 1 p hp
  have hone : ∀ n, n < collectedWrites.length → collectedWrites[n]? = some 1 → n = 1 := by decide
  rw [hone n (List.getElem?_eq_some_iff.mp hlpn).1 hlpn] at hn
  exact ⟨ftl, p, hcopied, hp, hn⟩

end NvmeVirt

import NvmeVirt.Laws.Conv.Advance
import NvmeVirt.Laws.Conv.Mapping

/-!
# One collection, page by page

`Collecting ftl₀ v done erased ftl` relates the state `ftl` in the middle of a collection of the
line `v` to the state `ftl₀` at its start: `done` are the pages of `v` the triple loop has passed,
`erased` the blocks of `v` it has erased. Every step of the loop adds one page to `done` or one
block to `erased`. What else each step keeps (`Keeps`) the loop keeps with it.

There are three such steps: a page that is not valid is passed (`Collecting.skip`), a valid one is
copied to a GC stream (`Collecting.copy`, `gcWritePage_placing`), and a block whose pages are all
done is erased (`Collecting.eraseBlk`). `gcVisit_ensures` puts them together for one round of the
loops, and `gcCleanLine_ensures` is the induction over the rounds.

The counting pass of `clean_one_flashpg` changes nothing, but it holds the assertion that no page of
the victim is free (`countValid_ensures`). That every page of the line is visited is a fact about
the three bounds, not about states (`before_all`).
-/

set_option autoImplicit false

namespace NvmeVirt

open Outcome

/-- The blocks of a line the triple loop visits: one in each LUN. -/
def SsdParams.Visited (spp : SsdParams) (b : BlkId) : Prop :=
  b.ch < spp.nchs ∧ b.lun < spp.lunsPerCh ∧ b.pl = 0

/-- The block of a valid page is visited. -/
theorem blkId_visited {spp : SsdParams} (w : spp.WellFormed) {p : Ppa}
    (hp : validPpa spp p = true) : spp.Visited p.toBlkId := by
  obtain ⟨hch, hlun, hpl, _⟩ := validPpa_iff.mp hp
  rw [w.plsPerLun_one] at hpl
  exact ⟨hch, hlun, Nat.lt_one_iff.mp hpl⟩

/-- Everything of an instance a collection does not touch while it copies and erases. -/
def ConvFtl.rest (ftl : ConvFtl) :=
  (ftl.cp, ftl.wfc, ftl.pageMeta, ftl.avgHotDegree, ftl.rl, ftl.wgs, ftl.gcCount,
    ftl.hostWrittenPages)

/-- The logical page is mapped into the line. -/
def ConvFtl.MapsInto (ftl : ConvFtl) (lpn line : Nat) : Prop :=
  ∃ p, ftl.maptbl lpn = some p ∧ p.blk = line

open Classical in
/-- How many logical pages are mapped into the line. -/
noncomputable def ConvFtl.mappedInto (ftl : ConvFtl) (line : Nat) : Nat :=
  ((Finset.range ftl.ssd.sp.ttPgs).filter fun lpn => ftl.MapsInto lpn line).card

structure Collecting (ftl₀ : ConvFtl) (v : Nat) (done : Ppa → Prop) (erased : BlkId → Prop)
    (ftl : ConvFtl) : Prop where
  rest : ftl.rest = ftl₀.rest
  sp : ftl.ssd.sp = ftl₀.ssd.sp
  userWp : ftl.wp .userIo = ftl₀.wp .userIo
  core : ∃ place, Core ftl.flash none place ∧ ∀ l, place l = .held ↔ l = v
  mapped : Mapped ftl.ssd.sp ftl.ssd.blk ftl.maptbl ftl.rmap fun p => p.blk = v ∧ done p
  timed : ftl.ssd.Timed
  victimBlk : ∀ b, b.blk = v → ¬ erased b → ftl.ssd.blk b = ftl₀.ssd.blk b
  erasedBlk : ∀ b, b.blk = v → erased b →
    ftl.ssd.blk b = (ftl₀.ssd.blk b).erase ftl₀.ssd.sp.pgsPerBlk
  otherErase : ∀ b, b.blk ≠ v → (ftl.ssd.blk b).eraseCnt = (ftl₀.ssd.blk b).eraseCnt
  lineErase : ∀ l, (ftl.lm.lines l).eraseCnt = (ftl₀.lm.lines l).eraseCnt
  moved : ∀ l p, ftl₀.maptbl l = some p → p.blk = v → done p →
    ∃ q, ftl.maptbl l = some q ∧ q.blk ≠ v
  unmoved : ∀ l, (∀ p, ftl₀.maptbl l = some p → p.blk = v → ¬ done p) →
    ftl.maptbl l = ftl₀.maptbl l
  writable : ftl.flash.writable + ftl.gcCopiedPages = ftl₀.flash.writable + ftl₀.gcCopiedPages
  copied : ftl.gcCopiedPages + ftl.mappedInto v = ftl₀.gcCopiedPages + ftl₀.mappedInto v

/-- What a collection of `v` needs at its start: `v` is in hand, written to its end, and the tables
are right. -/
structure Collectable (ftl₀ : ConvFtl) (v : Nat) : Prop where
  wf : ftl₀.ssd.sp.WellFormed
  lt : v < ftl₀.ssd.sp.blksPerPl
  core : ∃ place, Core ftl₀.flash none place ∧ ∀ l, place l = .held ↔ l = v
  mapped : Mapped ftl₀.ssd.sp ftl₀.ssd.blk ftl₀.maptbl ftl₀.rmap fun _ => False
  timed : ftl₀.ssd.Timed
  written : ∀ p, validPpa ftl₀.ssd.sp p = true → p.blk = v → pgStatus ftl₀.ssd.blk p ≠ .free

/-- Something the steps of a collection of `v` keep. -/
structure Keeps (ftl₀ : ConvFtl) (v : Nat) (X : ConvFtl → Prop) : Prop where
  read : ∀ {done erased ftl}, Collecting ftl₀ v done erased ftl → X ftl → ∀ xferSize p,
    Ensures (fun _ => True) (gcAdvanceNand ftl (gcCmd .read xferSize p)) X
  page : ∀ {done erased ftl p}, Collecting ftl₀ v done erased ftl → X ftl →
    validPpa ftl.ssd.sp p = true → p.blk = v → ¬ done p → pgStatus ftl.ssd.blk p = .valid →
    Ensures (fun _ => True) (gcWritePage ftl p) X
  erase : ∀ {done erased ftl p}, Collecting ftl₀ v done erased ftl → X ftl →
    validPpa ftl.ssd.sp p = true → p.blk = v → ¬ erased p.toBlkId →
    Ensures (fun _ => True) (gcEraseBlock ftl p) X

namespace Collecting

variable {E : Fault → Prop} {ftl₀ ftl : ConvFtl} {v : Nat} {done done' : Ppa → Prop}
  {erased erased' : BlkId → Prop} {X : ConvFtl → Prop}

/-- At the start nothing is done. -/
theorem start (h : Collectable ftl₀ v) :
    Collecting ftl₀ v (fun _ => False) (fun _ => False) ftl₀ where
  rest := rfl
  sp := rfl
  userWp := rfl
  core := h.core
  mapped := h.mapped.congr fun p _ => by simp
  timed := h.timed
  victimBlk _ _ _ := rfl
  erasedBlk _ _ hf := hf.elim
  otherErase _ _ := rfl
  lineErase _ := rfl
  moved _ _ _ _ hf := hf.elim
  unmoved _ _ := rfl
  writable := rfl
  copied := rfl

theorem wf (s : Collecting ftl₀ v done erased ftl) (h : Collectable ftl₀ v) :
    ftl.ssd.sp.WellFormed := s.sp ▸ h.wf

/-- Only the pages and blocks of the victim count as done or erased. -/
theorem congr (s : Collecting ftl₀ v done erased ftl) (h : Collectable ftl₀ v)
    (hd : ∀ p, validPpa ftl₀.ssd.sp p = true → p.blk = v → (done' p ↔ done p))
    (he : ∀ b, b.blk = v → (erased' b ↔ erased b)) : Collecting ftl₀ v done' erased' ftl := by
  have hvalid : ∀ l p, ftl₀.maptbl l = some p → validPpa ftl₀.ssd.sp p = true :=
    fun l p hl => h.mapped.valid hl
  refine { s with
    mapped := s.mapped.congr fun p hp => ?_
    victimBlk := fun b hb hne => s.victimBlk b hb (mt (he b hb).mpr hne)
    erasedBlk := fun b hb hbe => s.erasedBlk b hb ((he b hb).mp hbe)
    moved := fun l p hl hp hdone => s.moved l p hl hp ((hd p (hvalid l p hl) hp).mp hdone)
    unmoved := fun l hl => s.unmoved l fun p hlp hp => mt (hd p (hvalid l p hlp) hp).mpr (hl p hlp hp) }
  rw [s.sp] at hp
  refine and_congr_right fun _ => not_congr (and_congr_right fun hpv => hd p hp hpv)

/-- A page of the victim that is not erased yet has its old status. -/
theorem status (s : Collecting ftl₀ v done erased ftl) {p : Ppa} (hp : p.blk = v)
    (he : ¬ erased p.toBlkId) : pgStatus ftl.ssd.blk p = pgStatus ftl₀.ssd.blk p := by
  unfold pgStatus
  rw [s.victimBlk _ hp he]

/-- A flash command changes nothing but the clocks. -/
theorem sameFlash (s : Collecting ftl₀ v done erased ftl) {ssd : Ssd} (hs : ftl.ssd.SameFlash ssd)
    (trace : List FlashEvent) : Collecting ftl₀ v done erased { ftl with ssd, trace } := by
  have hflash : ConvFtl.flash { ftl with ssd, trace } = ftl.flash := by
    unfold ConvFtl.flash
    rw [hs.sp, hs.blk]
  refine { s with
    sp := hs.sp.trans s.sp
    timed := hs.timed
    core := ?_, mapped := ?_, victimBlk := ?_, erasedBlk := ?_, otherErase := ?_, writable := ?_
    copied := ?_ }
  · obtain ⟨place, hcore, hheld⟩ := s.core
    exact ⟨place, hflash ▸ hcore, hheld⟩
  · rw [hs.sp, hs.blk]
    exact s.mapped
  · rw [hs.blk]
    exact s.victimBlk
  · rw [hs.blk]
    exact s.erasedBlk
  · rw [hs.blk]
    exact s.otherErase
  · rw [hflash]
    exact s.writable
  · have hinto : ConvFtl.mappedInto { ftl with ssd, trace } v = ftl.mappedInto v := by
      unfold ConvFtl.mappedInto
      rw [hs.sp]
      rfl
    rw [hinto]
    exact s.copied

/-- Flash commands do not matter here. -/
theorem gcAdvanceNand_ensures (s : Collecting ftl₀ v done erased ftl) (ncmd : NandCmd) :
    Ensures E (gcAdvanceNand ftl ncmd) (Collecting ftl₀ v done erased) :=
  .ite (fun _ => (ssdAdvanceNand_ensures s.timed ncmd).bind fun _ hs =>
    .pure (s.sameFlash hs _)) fun _ => .pure s

/-- A page that is not valid needs no copy. -/
theorem skip (s : Collecting ftl₀ v done erased ftl) (h : Collectable ftl₀ v) {p : Ppa}
    (hp : p.blk = v) (he : ¬ erased p.toBlkId) (hval : pgStatus ftl.ssd.blk p ≠ .valid) :
    Collecting ftl₀ v (fun q => done q ∨ q = p) erased ftl := by
  have hnot : ∀ l, ftl₀.maptbl l ≠ some p := by
    intro l hl
    rw [s.status hp he] at hval
    exact hval (h.mapped.status hl)
  refine { s with
    mapped := s.mapped.congr fun q _ => ?_
    moved := ?_
    unmoved := fun l hl => s.unmoved l fun q hq hqv hd => hl q hq hqv (.inl hd) }
  · refine and_congr_right fun hq => ?_
    have hqp : q ≠ p := by rintro rfl; exact hval hq
    simp [hqp]
  · rintro l q hl hqv (hd | rfl)
    · exact s.moved l q hl hqv hd
    · exact absurd hl (hnot l)

/-! ## Copying one page -/

/-- A page of the victim that was not passed yet is where its logical page was at the start. -/
theorem not_moved (s : Collecting ftl₀ v done erased ftl) {l : Nat} {p : Ppa} (hp : p.blk = v)
    (hl : ftl.maptbl l = some p) : ftl₀.maptbl l = some p := by
  rw [← hl]
  refine (s.unmoved l fun p₀ h₀ hv hd => ?_).symm
  obtain ⟨q, hq, hne⟩ := s.moved l p₀ h₀ hv hd
  rw [hl] at hq
  exact hne (Option.some.inj hq ▸ hp)

/-- The instance after the tables and the status of the new page `q` were written, whatever its trace. -/
def placed (ftl : ConvFtl) (lpn : Nat) (q : Ppa) : ConvFtl :=
  { { ftl with
      maptbl := Function.update ftl.maptbl lpn (some q)
      rmap := Function.update ftl.rmap (ftl.ssd.sp.pgidx q) lpn }.validate q with
    gcCopiedPages := ftl.gcCopiedPages + 1 }

/-- One logical page fewer is mapped into the victim. -/
theorem mappedInto_placed (ftl : ConvFtl) {lpn : Nat} {p q : Ppa} (hlt : lpn < ftl.ssd.sp.ttPgs)
    (hl : ftl.maptbl lpn = some p) (hq : q.blk ≠ p.blk) (lm : LineMgmt) (wp : Stream → WritePointer)
    (trace : List FlashEvent) :
    ConvFtl.mappedInto { placed ftl lpn q with lm, wp, trace } p.blk + 1 = ftl.mappedInto p.blk := by
  classical
  have hmem : lpn ∈ (Finset.range ftl.ssd.sp.ttPgs).filter fun l => ftl.MapsInto l p.blk :=
    Finset.mem_filter.mpr ⟨Finset.mem_range.mpr hlt, p, hl, rfl⟩
  have herase : ((Finset.range ftl.ssd.sp.ttPgs).filter fun l =>
      ConvFtl.MapsInto { placed ftl lpn q with lm, wp, trace } l p.blk) =
      ((Finset.range ftl.ssd.sp.ttPgs).filter fun l => ftl.MapsInto l p.blk).erase lpn := by
    ext l
    simp only [Finset.mem_erase, Finset.mem_filter]
    by_cases hll : l = lpn
    · subst hll
      refine iff_of_false ?_ fun hh => hh.1 rfl
      rintro ⟨_, p', hp', hblk⟩
      have hnew : Function.update ftl.maptbl l (some q) l = some p' := hp'
      rw [Function.update_self] at hnew
      exact hq (Option.some.inj hnew ▸ hblk)
    · have hsame : ConvFtl.MapsInto { placed ftl lpn q with lm, wp, trace } l p.blk ↔
          ftl.MapsInto l p.blk := by
        unfold ConvFtl.MapsInto
        show (∃ p', Function.update ftl.maptbl lpn (some q) l = some p' ∧ _) ↔ _
        rw [Function.update_of_ne hll]
      rw [hsame]
      exact ⟨fun hh => ⟨hll, hh⟩, fun hh => hh.2⟩
  unfold ConvFtl.mappedInto
  show (Finset.filter _ (Finset.range ftl.ssd.sp.ttPgs)).card + 1 = _
  rw [herase, Finset.card_erase_of_mem hmem]
  exact Nat.sub_add_cancel (Finset.card_pos.mpr ⟨lpn, hmem⟩)

/-- A copied page is done. -/
theorem copy (s : Collecting ftl₀ v done erased ftl) (h : Collectable ftl₀ v)
    {place : Nat → Place} (hcore : Core ftl.flash none place) (hheld : ∀ l, place l = .held ↔ l = v)
    {p : Ppa} (hpv : p.blk = v) (hnd : ¬ done p) {lpn : Nat}
    (hl : ftl.maptbl lpn = some p) {st : Stream} {lm : LineMgmt} {wp : Stream → WritePointer}
    {place' : Nat → Place}
    (hst : st ≠ .userIo) (ha : Advanced (placed ftl lpn (ftl.wp st).ppa).flash st place
      { (placed ftl lpn (ftl.wp st).ppa).flash with lm, wp } place')
    (trace : List FlashEvent) :
    Collecting ftl₀ v (fun q => done q ∨ q = p) erased
      { placed ftl lpn (ftl.wp st).ppa with lm, wp, trace } := by
  have w := s.wf h
  set q := (ftl.wp st).ppa with hqdef
  have hq : validPpa ftl.ssd.sp q = true := hcore.valid_ppa w st
  have hfree : pgStatus ftl.ssd.blk q = .free := hcore.ppa_free w st
  have hqv : q.blk ≠ v := by
    intro he
    have hopen := (hcore.curline_place st).2
    rw [← hcore.ppa_blk w st] at hopen
    rw [(hheld _).mpr he] at hopen
    cases hopen
  have hlt : lpn < ftl.ssd.sp.ttPgs := s.mapped.lt lpn p hl
  have hl₀ : ftl₀.maptbl lpn = some p := s.not_moved hpv hl
  have hother : ∀ b, b.blk = v → (placed ftl lpn q).ssd.blk b = ftl.ssd.blk b := by
    intro b hb
    refine Function.update_of_ne (fun he => hqv ?_) ..
    rw [← hb, he]
  refine ⟨s.rest, s.sp, (ha.others _ hst.symm).trans s.userWp,
    ⟨place', ha.core, fun l => (ha.held l).trans (hheld l)⟩, ?_,
    ⟨s.timed.channels, s.timed.pcie⟩, ?_, ?_, ?_, ?_, ?_, ?_, ?_, ?_⟩
  · have hd := s.mapped.detach hl
    have hnot : ¬ ((q.blk = v ∧ done q) ∨ q = p) := by
      rintro (hh | rfl)
      · exact hqv hh.1
      · exact hqv hpv
    have hat := hd.attach w (Function.update_self ..) hlt hq hfree hnot
      (Flash.status_validate ftl.flash q)
    rw [Function.update_idem] at hat
    refine hat.congr fun r _ => and_congr_right fun _ => not_congr ?_
    constructor
    · rintro ⟨hrv, hdr | hrp⟩
      · exact .inl ⟨hrv, hdr⟩
      · exact .inr hrp
    · rintro (⟨hrv, hdr⟩ | rfl)
      · exact ⟨hrv, .inl hdr⟩
      · exact ⟨hpv, .inr rfl⟩
  · intro b hb hne
    exact (hother b hb).trans (s.victimBlk b hb hne)
  · intro b hb hbe
    exact (hother b hb).trans (s.erasedBlk b hb hbe)
  · intro b hb
    rw [← s.otherErase b hb]
    exact ftl.flash.validate_blkErase q b
  · intro l
    refine (ha.kept.eraseCnt l).trans (Eq.trans ?_ (s.lineErase l))
    exact ftl.flash.validate_lineErase q l
  · intro l p' hl' hv' hd'
    show ∃ q', Function.update ftl.maptbl lpn (some q) l = some q' ∧ q'.blk ≠ v
    by_cases hll : l = lpn
    · rw [hll, Function.update_self]
      exact ⟨q, rfl, hqv⟩
    · rw [Function.update_of_ne hll]
      obtain hd' | rfl := hd'
      · exact s.moved l p' hl' hv' hd'
      · exact absurd (h.mapped.paired.injective hl' hl₀) hll
  · intro l hno
    show Function.update ftl.maptbl lpn (some q) l = _
    have hll : l ≠ lpn := by
      rintro rfl
      exact hno p hl₀ hpv (.inr rfl)
    rw [Function.update_of_ne hll]
    exact s.unmoved l fun p' hp' hv' hd' => hno p' hp' hv' (.inl hd')
  · have hw := hcore.writable_validate w st
    have ha' : Flash.writable { (placed ftl lpn q).flash with lm, wp } =
        Flash.writable (ftl.flash.validate q) := ha.writable
    have hs := s.writable
    show Flash.writable { (placed ftl lpn q).flash with lm, wp } + (ftl.gcCopiedPages + 1) = _
    rw [ha']
    have hw' : (ftl.flash.validate q).writable + 1 = ftl.flash.writable := hw
    omega
  · have hinto := mappedInto_placed ftl hlt hl (q := q) (by rw [hpv]; exact hqv) lm wp trace
    have hs := s.copied
    rw [hpv] at hinto
    show ftl.gcCopiedPages + 1 + _ = _
    omega

/-- A page of the victim that is mapped leaves room for its copy. -/
theorem room (s : Collecting ftl₀ v done erased ftl) {lpn : Nat} {p : Ppa} (hpv : p.blk = v)
    (hl : ftl.maptbl lpn = some p)
    (hroom : E .nullCurline ∨
      2 * ftl₀.ssd.sp.pgsPerLine + ftl₀.mappedInto v < ftl₀.flash.writable) :
    E .nullCurline ∨ 2 * ftl.ssd.sp.pgsPerLine + 1 < ftl.flash.writable := by
  refine hroom.imp_right fun hlarge => ?_
  have hpos : 0 < ftl.mappedInto v := by
    classical
    refine Finset.card_pos.mpr ⟨lpn, Finset.mem_filter.mpr ⟨?_, p, hl, hpv⟩⟩
    exact Finset.mem_range.mpr (s.mapped.lt lpn p hl)
  have hw := s.writable
  have hc := s.copied
  rw [s.sp]
  omega

/-- `gc_write_page` at its write pointer: the page there is new for the logical page `lpn` of `p`. -/
structure Placing (ftl : ConvFtl) (p : Ppa) (lpn : Nat) (st : Stream) : Prop where
  mapped : ftl.maptbl lpn = some p
  lpn_lt : lpn < ftl.ssd.sp.ttPgs
  stream : st ≠ .userIo

/-- The instance once the page at the write pointer of `st` has taken the data of `p`. -/
def copyPlaced (ftl : ConvFtl) (p : Ppa) (lpn : Nat) (st : Stream) : ConvFtl :=
  ((placed ftl lpn (ftl.wp st).ppa).record [.page st (ftl.wp st).ppa]).record
    [.copy p (ftl.wp st).ppa]

/-- Up to the write pointer, `gc_write_page` places a page. -/
theorem gcWritePage_placing (s : Collecting ftl₀ v done erased ftl) (h : Collectable ftl₀ v)
    {place : Nat → Place} (hcore : Core ftl.flash none place) {p : Ppa}
    (hp : validPpa ftl.ssd.sp p = true) (hnd : ¬ done p) (hval : pgStatus ftl.ssd.blk p = .valid)
    {P : ConvFtl → Prop}
    (hrest : ∀ lpn st, Placing ftl p lpn st → Ensures E
      (advanceWritePointer (copyPlaced ftl p lpn st) st >>= fun ftl' =>
        gcAdvanceNand ftl' (gcWriteCmd ftl'.ssd.sp (ftl.wp st).ppa)) P) :
    Ensures E (gcWritePage ftl p) P := by
  have w := s.wf h
  unfold gcWritePage
  refine (getRmapEnt_ensures w hp).bind fun lpn hlpn => ktimeGetNs_ensures.bind fun now _ => ?_
  have hl : ftl.maptbl lpn = some p := by
    rw [hlpn]
    exact s.mapped.paired.to_fwd p ⟨hp, hval, fun hs => hnd hs.2⟩
  have hlt : lpn < ftl.ssd.sp.ttPgs := s.mapped.lt lpn p hl
  refine (nvmevAssert_ensures (decide_eq_true hlt)).bind fun _ _ => ?_
  have hst : (if ftl.pageIsHot lpn now = true then Stream.gcIoHot else Stream.gcIoCold) ≠ .userIo := by
    split <;> exact nofun
  generalize (if ftl.pageIsHot lpn now = true then Stream.gcIoHot else Stream.gcIoCold) = st at hst ⊢
  refine (getNewPage_ensures hcore w st).bind fun r hr => ?_
  subst hr
  have hlt' : lpn < (ftl.record [.page st (ftl.wp st).ppa]).ssd.sp.ttPgs := hlt
  refine Ensures.bind (setMaptblEnt_ensures hlt' _) fun ftl₁ h₁ => ?_
  subst h₁
  refine Ensures.bind (setRmapEnt_ensures { ftl.record _ with
    maptbl := Function.update ftl.maptbl lpn _ } w (hcore.valid_ppa w st) lpn) fun ftl₂ h₂ => ?_
  subst h₂
  refine Ensures.bind (markPageValid_ensures (hcore.ppa_free w st)) fun ftl₃ h₃ => ?_
  subst h₃
  exact hrest lpn st ⟨hl, hlt, hst⟩

/-- A valid page is copied, and one page more is done. -/
theorem gcWritePage_ensures (s : Collecting ftl₀ v done erased ftl) (h : Collectable ftl₀ v)
    {p : Ppa} (hp : validPpa ftl.ssd.sp p = true) (hpv : p.blk = v) (hnd : ¬ done p)
    (hval : pgStatus ftl.ssd.blk p = .valid)
    (hroom : E .nullCurline ∨
      2 * ftl₀.ssd.sp.pgsPerLine + ftl₀.mappedInto v < ftl₀.flash.writable) :
    Ensures E (gcWritePage ftl p) (Collecting ftl₀ v (fun q => done q ∨ q = p) erased) := by
  have w := s.wf h
  obtain ⟨place, hcore, hheld⟩ := s.core
  refine s.gcWritePage_placing h hcore hp hnd hval fun lpn st hplacing => ?_
  have hcore' : Core (copyPlaced ftl p lpn st).flash (some st) place := hcore.validate w st
  have hw : (copyPlaced ftl p lpn st).flash.writable + 1 = ftl.flash.writable :=
    hcore.writable_validate w st
  have hroom' : E .nullCurline ∨ 2 * ftl.ssd.sp.pgsPerLine <
      (copyPlaced ftl p lpn st).flash.writable :=
    (s.room hpv hplacing.mapped hroom).imp_right fun hlarge => by omega
  refine Ensures.bind (advanceWritePointer_ensures hcore' w hroom') fun ftl₄ h₄ => ?_
  obtain ⟨lm, wp, place', rfl, ha⟩ := h₄
  refine gcAdvanceNand_ensures ?_ _
  exact s.copy h hcore hheld hpv hnd hplacing.mapped hplacing.stream ha _

/-! ## Cleaning one flash page -/

variable {flashpg ch lun i : Nat}

/-- The addresses of the loop: flash page `flashpg` of the victim's block on `ch` and `lun`. -/
structure Visit (spp : SsdParams) (flashpg ch lun : Nat) : Prop where
  flashpg : flashpg < spp.flashpgsPerBlk
  ch : ch < spp.nchs
  lun : lun < spp.lunsPerCh

/-- The page `i` of that flash page. -/
def visitPage (spp : SsdParams) (v flashpg ch lun i : Nat) : Ppa :=
  ⟨⟨ch, lun, 0, v⟩, flashpg * spp.pgsPerFlashpg + i⟩

/-- The pages of a round lie in the block. -/
theorem Visit.pg_lt {spp : SsdParams} (vis : Visit spp flashpg ch lun)
    (w : spp.WellFormed) (hi : i < spp.pgsPerFlashpg) :
    flashpg * spp.pgsPerFlashpg + i < spp.pgsPerBlk := by
  have := vis.flashpg
  rw [w.pgsPerBlk_flash]
  calc flashpg * spp.pgsPerFlashpg + i < (flashpg + 1) * spp.pgsPerFlashpg := by
        rw [Nat.add_mul, Nat.one_mul]; omega
    _ ≤ spp.flashpgsPerBlk * spp.pgsPerFlashpg := Nat.mul_le_mul_right _ vis.flashpg

/-- They are pages of the device. -/
theorem Visit.valid {spp : SsdParams} (vis : Visit spp flashpg ch lun)
    (w : spp.WellFormed) {v : Nat} (hv : v < spp.blksPerPl) (hi : i < spp.pgsPerFlashpg) :
    validPpa spp (visitPage spp v flashpg ch lun i) = true :=
  validPpa_iff.mpr ⟨vis.ch, vis.lun, by rw [w.plsPerLun_one]; exact Nat.zero_lt_one, hv,
    vis.pg_lt w hi⟩

/-- The address `do_gc` writes field by field is the first page of the flash page. -/
theorem Visit.ofFields {spp : SsdParams} (vis : Visit spp flashpg ch lun)
    (w : spp.WellFormed) {v : Nat} (hv : v < spp.blksPerPl) :
    Ppa.ofFields ch lun 0 v (flashpg * spp.pgsPerFlashpg) = visitPage spp v flashpg ch lun 0 :=
  w.ofFields vis.ch vis.lun hv (vis.pg_lt w w.pgsPerFlashpg_pos)

/-- The address is stepped by its page only. -/
theorem Visit.after {spp : SsdParams} (vis : Visit spp flashpg ch lun)
    (w : spp.WellFormed) (v : Nat) (hi : i < spp.pgsPerFlashpg) :
    (visitPage spp v flashpg ch lun 0).after i = visitPage spp v flashpg ch lun i := by
  have hlt := vis.pg_lt w hi
  have hle := w.pgsPerBlk_le
  have hmod : (flashpg * spp.pgsPerFlashpg + i) % 2 ^ 16 = flashpg * spp.pgsPerFlashpg + i :=
    Nat.mod_eq_of_lt (by omega)
  exact congrArg (Ppa.mk ⟨ch, lun, 0, v⟩) hmod

/-- The first pass counts the valid pages. -/
theorem countValid_ensures (s : Collecting ftl₀ v done erased ftl) (h : Collectable ftl₀ v)
    (vis : Visit ftl₀.ssd.sp flashpg ch lun) (he : ¬ erased ⟨ch, lun, 0, v⟩) :
    Ensures E (countValid ftl (visitPage ftl₀.ssd.sp v flashpg ch lun 0)) fun cnt =>
      cnt = 0 → ∀ i, i < ftl₀.ssd.sp.pgsPerFlashpg →
        pgStatus ftl.ssd.blk (visitPage ftl₀.ssd.sp v flashpg ch lun i) ≠ .valid := by
  unfold countValid
  rw [s.sp]
  refine Ensures.forRange (I := fun n cnt => cnt = 0 → ∀ i, i < n →
    pgStatus ftl.ssd.blk (visitPage ftl₀.ssd.sp v flashpg ch lun i) ≠ .valid)
    (fun _ i hi => absurd hi (Nat.not_lt_zero i)) fun i hi cnt hcnt => ?_
  rw [vis.after h.wf v hi]
  have hfree : pgStatus ftl.ssd.blk (visitPage ftl₀.ssd.sp v flashpg ch lun i) ≠ .free := by
    have hst := s.status (p := visitPage ftl₀.ssd.sp v flashpg ch lun i) rfl he
    rw [hst]
    exact h.written _ (vis.valid h.wf h.lt hi) rfl
  refine (nvmevAssert_ensures hfree).bind fun _ _ => .pure ?_
  intro hz j hj
  by_cases hval : ftl.ssd.getPg (visitPage ftl₀.ssd.sp v flashpg ch lun i) = .valid
  · rw [if_pos hval] at hz
    omega
  · rw [if_neg hval] at hz
    obtain hlt | rfl := Nat.lt_succ_iff_lt_or_eq.mp hj
    · exact hcnt hz j hlt
    · exact hval

/-- The pages of a flash page before its page `i`. -/
def Before (spp : SsdParams) (v flashpg ch lun i : Nat) (q : Ppa) : Prop :=
  ∃ j, j < i ∧ q = visitPage spp v flashpg ch lun j

/-- One page more. -/
theorem before_succ (spp : SsdParams) (v flashpg ch lun i : Nat) (q : Ppa) :
    Before spp v flashpg ch lun (i + 1) q ↔
      Before spp v flashpg ch lun i q ∨ q = visitPage spp v flashpg ch lun i := by
  constructor
  · rintro ⟨j, hj, rfl⟩
    obtain hlt | rfl := Nat.lt_succ_iff_lt_or_eq.mp hj
    · exact .inl ⟨j, hlt, rfl⟩
    · exact .inr rfl
  · rintro (⟨j, hj, rfl⟩ | rfl)
    · exact ⟨j, hj.trans (Nat.lt_succ_self i), rfl⟩
    · exact ⟨i, Nat.lt_succ_self i, rfl⟩

/-- Passing one more page of the flash page. -/
theorem pass (s : Collecting ftl₀ v (fun q => (done q ∨ Before ftl₀.ssd.sp v flashpg ch lun i q) ∨
      q = visitPage ftl₀.ssd.sp v flashpg ch lun i) erased ftl) (h : Collectable ftl₀ v) :
    Collecting ftl₀ v (fun q => done q ∨ Before ftl₀.ssd.sp v flashpg ch lun (i + 1) q) erased ftl :=
  s.congr h (fun q _ _ => by rw [before_succ, or_assoc]) fun _ _ => Iff.rfl

/-- A flash page without valid pages is passed as it is. -/
theorem passInvalid (s : Collecting ftl₀ v done erased ftl) (h : Collectable ftl₀ v)
    (he : ¬ erased ⟨ch, lun, 0, v⟩) (n : Nat)
    (hval : ∀ i, i < n →
      pgStatus ftl.ssd.blk (visitPage ftl₀.ssd.sp v flashpg ch lun i) ≠ .valid) :
    Collecting ftl₀ v (fun q => done q ∨ Before ftl₀.ssd.sp v flashpg ch lun n q) erased ftl := by
  induction n with
  | zero =>
    refine s.congr h (fun q _ _ => ?_) fun _ _ => Iff.rfl
    exact ⟨fun hd => hd.elim id fun ⟨_, hj, _⟩ => absurd hj (Nat.not_lt_zero _), .inl⟩
  | succ n ih =>
    have hprev := ih fun i hi => hval i (Nat.lt_succ_of_lt hi)
    exact (hprev.skip h rfl he (hval n (Nat.lt_succ_self n))).pass h

/-- `clean_one_flashpg` passes the pages of one flash page that were not passed before. -/
theorem cleanOneFlashpg_ensures (s : Collecting ftl₀ v done erased ftl) (h : Collectable ftl₀ v)
    (k : Keeps ftl₀ v X) (hX : X ftl) (vis : Visit ftl₀.ssd.sp flashpg ch lun)
    (he : ¬ erased ⟨ch, lun, 0, v⟩)
    (hnd : ∀ i, i < ftl₀.ssd.sp.pgsPerFlashpg → ¬ done (visitPage ftl₀.ssd.sp v flashpg ch lun i))
    (hroom : E .nullCurline ∨
      2 * ftl₀.ssd.sp.pgsPerLine + ftl₀.mappedInto v < ftl₀.flash.writable) :
    Ensures E (cleanOneFlashpg ftl (visitPage ftl₀.ssd.sp v flashpg ch lun 0)) fun r =>
      Collecting ftl₀ v (fun q => done q ∨
        Before ftl₀.ssd.sp v flashpg ch lun ftl₀.ssd.sp.pgsPerFlashpg q) erased r ∧ X r := by
  unfold cleanOneFlashpg
  rw [s.sp]
  refine (s.countValid_ensures h vis he).bind fun cnt hcnt => .ite (fun hz => ?_) fun _ => ?_
  · exact .pure ⟨s.passInvalid h he _ (hcnt hz), hX⟩
  refine ((s.gcAdvanceNand_ensures _).and (k.read s hX _ _)).bind fun ftl₁ h₁ => ?_
  obtain ⟨s₁, hX₁⟩ := h₁
  refine Ensures.forRange (I := fun i r => Collecting ftl₀ v
    (fun q => done q ∨ Before ftl₀.ssd.sp v flashpg ch lun i q) erased r ∧ X r)
    ⟨s₁.passInvalid h he 0 fun _ hj => absurd hj (Nat.not_lt_zero _), hX₁⟩ fun i hi ftl₂ h₂ => ?_
  obtain ⟨s₂, hX₂⟩ := h₂
  rw [vis.after h.wf v hi]
  have hvalid : validPpa ftl₂.ssd.sp (visitPage ftl₀.ssd.sp v flashpg ch lun i) = true := by
    rw [s₂.sp]
    exact vis.valid h.wf h.lt hi
  refine .ite (fun hval => ?_) fun hval => ?_
  · have hnot : ¬ (done (visitPage ftl₀.ssd.sp v flashpg ch lun i) ∨
        Before ftl₀.ssd.sp v flashpg ch lun i (visitPage ftl₀.ssd.sp v flashpg ch lun i)) := by
      rintro (hd | ⟨j, hj, he'⟩)
      · exact hnd i hi hd
      · have hpg := congrArg Ppa.pg he'
        simp only [visitPage] at hpg
        omega
    have hpage := (s₂.gcWritePage_ensures h hvalid rfl hnot hval hroom).and
      (k.page s₂ hX₂ hvalid rfl hnot hval)
    exact hpage.mono fun _ h₃ => ⟨h₃.1.pass h, h₃.2⟩
  · exact .pure ⟨(s₂.skip h rfl he hval).pass h, hX₂⟩

/-! ## Erasing a block -/

/-- A block all of whose pages were passed is erased. -/
theorem eraseBlk (s : Collecting ftl₀ v done erased ftl) {p : Ppa} (hp : p.blk = v)
    (hne : ¬ erased p.toBlkId)
    (hall : ∀ q, validPpa ftl.ssd.sp q = true → q.toBlkId = p.toBlkId → done q) :
    Collecting ftl₀ v done (fun b => erased b ∨ b = p.toBlkId) (markBlockFree ftl p) := by
  obtain ⟨place, hcore, hheld⟩ := s.core
  have hplace : place p.toBlkId.blk = .held := (hheld _).mpr hp
  have hblk : ∀ b, b ≠ p.toBlkId → (markBlockFree ftl p).ssd.blk b = ftl.ssd.blk b :=
    fun b hb => Function.update_of_ne hb ..
  refine { s with
    core := ⟨place, hcore.eraseBlk hplace, hheld⟩
    mapped := s.mapped.congr fun q hq => ?_
    timed := ⟨s.timed.channels, s.timed.pcie⟩
    victimBlk := fun b hb hbe => ?_
    erasedBlk := fun b hb hbe => ?_
    otherErase := fun b hb => ?_
    writable := ?_ }
  · by_cases hqp : q.toBlkId = p.toBlkId
    · have hstale : q.blk = v ∧ done q :=
        ⟨(congrArg BlkId.blk hqp).trans hp, hall q hq hqp⟩
      exact iff_of_false (fun hh => hh.2 hstale) fun hh => hh.2 hstale
    · rw [show pgStatus (markBlockFree ftl p).ssd.blk q = pgStatus ftl.ssd.blk q from
        ftl.flash.status_eraseBlk hqp]
  · rw [not_or] at hbe
    rw [hblk b hbe.2]
    exact s.victimBlk b hb hbe.1
  · by_cases hbp : b = p.toBlkId
    · subst hbp
      show Function.update ftl.ssd.blk p.toBlkId _ p.toBlkId = _
      rw [Function.update_self, ← s.victimBlk _ hb hne, ← s.sp]
      rfl
    · rw [hblk b hbp]
      exact s.erasedBlk b hb (hbe.resolve_right hbp)
  · rw [hblk b (fun he => hb (he ▸ hp))]
    exact s.otherErase b hb
  · rw [← s.writable]
    exact congrArg (· + ftl.gcCopiedPages) (hcore.writable_eraseBlk hplace)

/-- A block that is done is erased. -/
theorem gcEraseBlock_ensures (s : Collecting ftl₀ v done erased ftl) {p : Ppa} (hp : p.blk = v)
    (hne : ¬ erased p.toBlkId)
    (hall : ∀ q, validPpa ftl.ssd.sp q = true → q.toBlkId = p.toBlkId → done q) :
    Ensures E (gcEraseBlock ftl p)
      (Collecting ftl₀ v done fun b => erased b ∨ b = p.toBlkId) :=
  ((s.eraseBlk hp hne hall).gcAdvanceNand_ensures _).bind fun _ s₁ =>
    .pure (s₁.sameFlash (s₁.timed.setLun ..) _)

/-! ## The triple loop -/

/-- The pages of the victim passed before the visit of `flashpg`, `ch`, `lun`. -/
def PassedTo (spp : SsdParams) (flashpg ch lun : Nat) (q : Ppa) : Prop :=
  q.pg / spp.pgsPerFlashpg < flashpg ∨
    q.pg / spp.pgsPerFlashpg = flashpg ∧ (q.ch < ch ∨ q.ch = ch ∧ q.lun < lun)

/-- The blocks of the victim erased before that visit. -/
def ErasedTo (spp : SsdParams) (flashpg ch lun : Nat) (b : BlkId) : Prop :=
  spp.Visited b ∧ (spp.flashpgsPerBlk - 1 < flashpg ∨
    flashpg = spp.flashpgsPerBlk - 1 ∧ (b.ch < ch ∨ b.ch = ch ∧ b.lun < lun))

/-- The flash page of a visit, page by page. -/
theorem before_all {spp : SsdParams} (w : spp.WellFormed) {q : Ppa} (hq : validPpa spp q = true)
    (hqv : q.blk = v) :
    Before spp v flashpg ch lun spp.pgsPerFlashpg q ↔
      q.pg / spp.pgsPerFlashpg = flashpg ∧ q.ch = ch ∧ q.lun = lun := by
  have hpos := w.pgsPerFlashpg_pos
  constructor
  · rintro ⟨j, hj, rfl⟩
    refine ⟨?_, rfl, rfl⟩
    show (flashpg * spp.pgsPerFlashpg + j) / spp.pgsPerFlashpg = flashpg
    rw [Nat.mul_comm, Nat.mul_add_div hpos, Nat.div_eq_of_lt hj, Nat.add_zero]
  · rintro ⟨rfl, rfl, rfl⟩
    refine ⟨q.pg % spp.pgsPerFlashpg, Nat.mod_lt _ hpos, ?_⟩
    have hpl : q.pl = 0 := by
      have := (validPpa_iff.mp hq).2.2.1
      rw [w.plsPerLun_one] at this
      omega
    refine Ppa.ext_blk ?_ ?_
    · show q.toBlkId = ⟨q.ch, q.lun, 0, v⟩
      rw [← hpl, ← hqv]
    · show q.pg = q.pg / spp.pgsPerFlashpg * spp.pgsPerFlashpg + q.pg % spp.pgsPerFlashpg
      rw [Nat.mul_comm, Nat.div_add_mod]

/-- One visit of the loop body. -/
theorem gcVisit_ensures
    (s : Collecting ftl₀ v (PassedTo ftl₀.ssd.sp flashpg ch lun) (ErasedTo ftl₀.ssd.sp flashpg ch lun)
      ftl) (h : Collectable ftl₀ v) (k : Keeps ftl₀ v X) (hX : X ftl)
    (vis : Visit ftl₀.ssd.sp flashpg ch lun)
    (hroom : E .nullCurline ∨
      2 * ftl₀.ssd.sp.pgsPerLine + ftl₀.mappedInto v < ftl₀.flash.writable) :
    Ensures E (gcVisit ftl v flashpg ch lun) fun r =>
      Collecting ftl₀ v (PassedTo ftl₀.ssd.sp flashpg ch (lun + 1))
        (ErasedTo ftl₀.ssd.sp flashpg ch (lun + 1)) r ∧ X r := by
  have hf := vis.flashpg
  have hne : ¬ ErasedTo ftl₀.ssd.sp flashpg ch lun ⟨ch, lun, 0, v⟩ := by
    rintro ⟨_, hlast | ⟨_, hch | ⟨_, hlun⟩⟩⟩
    · omega
    · exact lt_irrefl _ hch
    · exact lt_irrefl _ hlun
  have hnd : ∀ i, i < ftl₀.ssd.sp.pgsPerFlashpg →
      ¬ PassedTo ftl₀.ssd.sp flashpg ch lun (visitPage ftl₀.ssd.sp v flashpg ch lun i) := by
    intro i hi
    have hq := (before_all h.wf (vis.valid h.wf h.lt hi) rfl).mp ⟨i, hi, rfl⟩
    rintro (hlt | ⟨_, hch | ⟨_, hlun⟩⟩)
    · omega
    · exact lt_irrefl _ hch
    · exact lt_irrefl _ hlun
  unfold gcVisit
  rw [s.sp]
  dsimp only
  rw [vis.ofFields h.wf h.lt]
  refine (s.cleanOneFlashpg_ensures h k hX vis hne hnd hroom).bind fun ftl₁ h₁ => ?_
  obtain ⟨s₁, hX₁⟩ := h₁
  have s₂ : Collecting ftl₀ v (PassedTo ftl₀.ssd.sp flashpg ch (lun + 1))
      (ErasedTo ftl₀.ssd.sp flashpg ch lun) ftl₁ := by
    refine s₁.congr h (fun q hq hqv => ?_) fun _ _ => Iff.rfl
    rw [before_all h.wf hq hqv]
    unfold PassedTo
    omega
  refine .ite (fun hlast => ?_) fun hlast => .pure ⟨?_, hX₁⟩
  · have hvalid : validPpa ftl₁.ssd.sp (visitPage ftl₀.ssd.sp v flashpg ch lun 0) = true := by
      rw [s₂.sp]
      exact vis.valid h.wf h.lt h.wf.pgsPerFlashpg_pos
    refine ((s₂.gcEraseBlock_ensures rfl hne fun q hq hqb => ?_).and
      (k.erase s₂ hX₁ hvalid rfl hne)).mono fun ftl₃ h₃ => ⟨?_, h₃.2⟩
    · have hpg := (validPpa_iff.mp (s₂.sp ▸ hq)).2.2.2.2
      rw [h.wf.pgsPerBlk_flash] at hpg
      have hdiv : q.pg / ftl₀.ssd.sp.pgsPerFlashpg < ftl₀.ssd.sp.flashpgsPerBlk :=
        (Nat.div_lt_iff_lt_mul h.wf.pgsPerFlashpg_pos).mpr hpg
      have hch : q.ch = ch := congrArg BlkId.ch hqb
      have hlun : q.lun = lun := congrArg BlkId.lun hqb
      unfold PassedTo
      omega
    · refine h₃.1.congr h (fun _ _ _ => Iff.rfl) fun b hb => ?_
      have hb' : b = ⟨ch, lun, 0, v⟩ ↔ b.ch = ch ∧ b.lun = lun ∧ b.pl = 0 := by
        cases b
        simp only [BlkId.mk.injEq]
        exact ⟨fun hh => ⟨hh.1, hh.2.1, hh.2.2.1⟩, fun hh => ⟨hh.1, hh.2.1, hh.2.2, hb⟩⟩
      have hch := vis.ch
      have hlun := vis.lun
      show _ ↔ _ ∨ b = ⟨ch, lun, 0, v⟩
      rw [hb']
      unfold ErasedTo SsdParams.Visited
      omega
  · refine s₂.congr h (fun _ _ _ => Iff.rfl) fun b _ => ?_
    unfold ErasedTo SsdParams.Visited
    omega

/-- The triple loop passes every page and erases every block of the victim. -/
theorem gcCleanLine_ensures (h : Collectable ftl₀ v) (k : Keeps ftl₀ v X) (hX : X ftl₀)
    (hroom : E .nullCurline ∨
      2 * ftl₀.ssd.sp.pgsPerLine + ftl₀.mappedInto v < ftl₀.flash.writable) :
    Ensures E (gcCleanLine ftl₀ v) fun r =>
      Collecting ftl₀ v (fun _ => True) ftl₀.ssd.sp.Visited r ∧ X r := by
  have hflash : 0 < ftl₀.ssd.sp.flashpgsPerBlk := by
    have hpos := h.wf.pgsPerBlk_pos
    rw [h.wf.pgsPerBlk_flash] at hpos
    exact Nat.pos_of_mul_pos_right hpos
  unfold gcCleanLine
  refine Ensures.mono (Ensures.forRange (I := fun flashpg r => Collecting ftl₀ v
    (PassedTo ftl₀.ssd.sp flashpg 0 0) (ErasedTo ftl₀.ssd.sp flashpg 0 0) r ∧ X r) ⟨?_, hX⟩
    fun flashpg hf ftl₁ h₁ => ?_) fun ftl' h' => ⟨?_, h'.2⟩
  · refine (start h).congr h (fun q _ _ => iff_of_false ?_ id) fun b _ => iff_of_false ?_ id
    · rintro (hlt | ⟨_, hch | ⟨_, hlun⟩⟩)
      · exact absurd hlt (Nat.not_lt_zero _)
      · exact absurd hch (Nat.not_lt_zero _)
      · exact absurd hlun (Nat.not_lt_zero _)
    · rintro ⟨_, hlast | ⟨_, hch | ⟨_, hlun⟩⟩⟩
      · exact absurd hlast (Nat.not_lt_zero _)
      · exact absurd hch (Nat.not_lt_zero _)
      · exact absurd hlun (Nat.not_lt_zero _)
  · rw [h₁.1.sp]
    refine Ensures.mono (Ensures.forRange (I := fun ch r => Collecting ftl₀ v
      (PassedTo ftl₀.ssd.sp flashpg ch 0) (ErasedTo ftl₀.ssd.sp flashpg ch 0) r ∧ X r) h₁
      fun ch hch ftl₂ h₂ => ?_) fun ftl₃ h₃ => ⟨?_, h₃.2⟩
    · rw [h₂.1.sp]
      refine Ensures.mono (Ensures.forRange (I := fun lun r => Collecting ftl₀ v
        (PassedTo ftl₀.ssd.sp flashpg ch lun) (ErasedTo ftl₀.ssd.sp flashpg ch lun) r ∧ X r) h₂
        fun lun hlun ftl₃ h₃ => h₃.1.gcVisit_ensures h k h₃.2 ⟨hf, hch, hlun⟩ hroom)
        fun ftl₃ h₃ => ⟨?_, h₃.2⟩
      refine h₃.1.congr h (fun q hq _ => ?_) fun b _ => ?_
      · have := (validPpa_iff.mp hq).2.1
        unfold PassedTo
        omega
      · unfold ErasedTo SsdParams.Visited
        omega
    · refine h₃.1.congr h (fun q hq _ => ?_) fun b _ => ?_
      · have := (validPpa_iff.mp hq).1
        unfold PassedTo
        omega
      · unfold ErasedTo SsdParams.Visited
        omega
  · refine h'.1.congr h (fun q hq _ => iff_of_true trivial (.inl ?_)) fun b _ => ?_
    · have hpg := (validPpa_iff.mp hq).2.2.2.2
      rw [h.wf.pgsPerBlk_flash] at hpg
      exact (Nat.div_lt_iff_lt_mul h.wf.pgsPerFlashpg_pos).mpr hpg
    · unfold ErasedTo SsdParams.Visited
      omega

end Collecting

/-- Nothing more is asked. -/
theorem Keeps.nothing (ftl₀ : ConvFtl) (v : Nat) : Keeps ftl₀ v fun _ => True where
  read _ _ _ _ := .any
  page _ _ _ _ _ _ := .any
  erase _ _ _ _ _ := .any

end NvmeVirt

import NvmeVirt.Laws.Conv.Geometry
import NvmeVirt.Laws.Conv.Select

/-!
# The flash and its bookkeeping

`Core f ahead place` is the invariant of the part of an instance that says which pages are free,
valid or invalid: every page status agrees with the counts of its block and of its line, and every
line's counts agree with the container it is in. A line in hand is exempt. `ahead` is the stream
whose newest page is already marked valid while its write pointer still points at it.
-/

set_option autoImplicit false

namespace NvmeVirt

/-- The part of an instance the flash bookkeeping lives in. -/
structure Flash where
  sp : SsdParams
  blk : BlkId → NandBlock
  lm : LineMgmt
  wp : Stream → WritePointer

abbrev ConvFtl.flash (ftl : ConvFtl) : Flash := ⟨ftl.ssd.sp, ftl.ssd.blk, ftl.lm, ftl.wp⟩

/-- The status of a page. -/
def pgStatus (blk : BlkId → NandBlock) (p : Ppa) : PgStatus := (blk p.toBlkId).pg p.pg

/-- The position of a write pointer in its line. -/
def WritePointer.fill (wp : WritePointer) (spp : SsdParams) : Nat := spp.writeIdx wp.ch wp.lun wp.pg

/-- A write pointer points into its line. -/
structure WritePointer.InRange (wp : WritePointer) (spp : SsdParams) : Prop where
  ch : wp.ch < spp.nchs
  lun : wp.lun < spp.lunsPerCh
  pg : wp.pg < spp.pgsPerBlk
  pl : wp.pl = 0
  blk : wp.blk = wp.curline

/-- What the container of a line says of its counts. -/
def LineOk (f : Flash) (ahead : Option Stream) : Place → Line → Prop
  | .free, line => line.vpc = 0 ∧ line.ipc = 0
  | .full, line => line.vpc = f.sp.pgsPerLine ∧ line.ipc = 0
  | .victim, line => 0 < line.ipc ∧ line.vpc + line.ipc = f.sp.pgsPerLine
  | .opened s, line => line.vpc + line.ipc = (f.wp s).fill f.sp + (if ahead = some s then 1 else 0)
  | .held, _ => True

/-- `vpc` and `ipc` are the numbers of valid and of invalid pages in `S`. -/
structure Counted (S : Finset Ppa) (status : Ppa → PgStatus) (vpc ipc : Nat) : Prop where
  vpc : vpc = tally S status .valid
  ipc : ipc = tally S status .invalid

structure Core (f : Flash) (ahead : Option Stream) (place : Nat → Place) : Prop where
  ttLines : f.lm.ttLines = f.sp.blksPerPl
  placed : f.lm.Placed (fun s => some (f.wp s).curline) place
  inRange : ∀ s, (f.wp s).InRange f.sp
  lineOk : ∀ l, l < f.lm.ttLines → LineOk f ahead (place l) (f.lm.lines l)
  written : ∀ p, validPpa f.sp p = true → place p.blk ≠ .held →
    (pgStatus f.blk p = .free ↔
      (f.lm.lines p.blk).vpc + (f.lm.lines p.blk).ipc ≤ f.sp.writeIdx p.ch p.lun p.pg)
  lineCount : ∀ l, place l ≠ .held → l < f.lm.ttLines →
    Counted (f.sp.linePages l) (pgStatus f.blk) (f.lm.lines l).vpc (f.lm.lines l).ipc
  blkCount : ∀ b, Counted (f.sp.blkPages b) (pgStatus f.blk) (f.blk b).vpc (f.blk b).ipc

/-- The unwritten pages of the line of a write pointer. -/
def Flash.unwritten (f : Flash) (s : Stream) : Nat :=
  tally (f.sp.linePages (f.wp s).curline) (pgStatus f.blk) .free

/-- The pages that can be written: those of the free lines and the unwritten ones of the three open
lines. -/
def Flash.writable (f : Flash) : Nat :=
  f.lm.freeLineList.length * f.sp.pgsPerLine +
    (f.unwritten .userIo + f.unwritten .gcIoHot + f.unwritten .gcIoCold)

/-! ## Consequences -/

/-- One page of one block. -/
theorem pgStatus_update {blk : BlkId → NandBlock} {p : Ppa} {nb : NandBlock} {st : PgStatus}
    (h : nb.pg = Function.update (blk p.toBlkId).pg p.pg st) :
    pgStatus (Function.update blk p.toBlkId nb) = Function.update (pgStatus blk) p st := by
  funext q
  unfold pgStatus
  by_cases hb : q.toBlkId = p.toBlkId
  · rw [hb, Function.update_self, h]
    by_cases hpg : q.pg = p.pg
    · rw [hpg, Function.update_self, Ppa.ext_blk hb hpg, Function.update_self]
    · have hne : q ≠ p := fun he => hpg (he ▸ rfl)
      rw [Function.update_of_ne hpg, Function.update_of_ne hne, hb]
  · have hne : q ≠ p := fun he => hb (he ▸ rfl)
    rw [Function.update_of_ne hb, Function.update_of_ne hne]

namespace Counted

variable {S : Finset Ppa} {status : Ppa → PgStatus} {vpc ipc : Nat}

/-- Marking a page of `S` afresh: the counts move with its marks. -/
theorem remark (h : Counted S status vpc ipc) {p : Ppa} (hp : p ∈ S) {st : PgStatus}
    {vpc' ipc' : Nat}
    (hv : vpc' + (if status p = .valid then 1 else 0) = vpc + (if st = .valid then 1 else 0))
    (hi : ipc' + (if status p = .invalid then 1 else 0) = ipc + (if st = .invalid then 1 else 0)) :
    Counted S (Function.update status p st) vpc' ipc' := by
  have htv := tally_update_of_mem status hp st .valid
  have hti := tally_update_of_mem status hp st .invalid
  rw [h.vpc] at hv
  rw [h.ipc] at hi
  exact ⟨by omega, by omega⟩

/-- Marking a page outside `S` leaves the counts. -/
theorem remark_other (h : Counted S status vpc ipc) {p : Ppa} (hp : p ∉ S) (st : PgStatus) :
    Counted S (Function.update status p st) vpc ipc :=
  ⟨h.vpc.trans (tally_update_of_notMem status hp st _).symm,
    h.ipc.trans (tally_update_of_notMem status hp st _).symm⟩

theorem congr (h : Counted S status vpc ipc) {status' : Ppa → PgStatus}
    (hs : ∀ p ∈ S, status' p = status p) : Counted S status' vpc ipc :=
  ⟨h.vpc.trans (tally_congr hs _).symm, h.ipc.trans (tally_congr hs _).symm⟩

/-- Free pages do not count. -/
theorem of_free {status : Ppa → PgStatus} (hs : ∀ p ∈ S, status p = .free) :
    Counted S status 0 0 :=
  ⟨(tally_eq_zero fun p hp => by rw [hs p hp]; exact nofun).symm,
    (tally_eq_zero fun p hp => by rw [hs p hp]; exact nofun).symm⟩

end Counted

namespace Core

variable {f : Flash} {ahead : Option Stream} {place : Nat → Place}

/-- The line of a write pointer is open for its stream. -/
theorem curline_place (c : Core f ahead place) (s : Stream) :
    (f.wp s).curline < f.lm.ttLines ∧ place (f.wp s).curline = .opened s :=
  c.placed.cur_eq.mp rfl

/-- A valid page is of a line. -/
theorem lt_ttLines (c : Core f ahead place) {p : Ppa} (h : validPpa f.sp p = true) :
    p.blk < f.lm.ttLines := by
  rw [c.ttLines]
  exact (validPpa_iff.mp h).2.2.2.1

/-- Two streams write two lines. -/
theorem curline_ne (c : Core f ahead place) {s s' : Stream} (h : s ≠ s') :
    (f.wp s).curline ≠ (f.wp s').curline := by
  intro he
  have h1 := (c.curline_place s).2
  rw [he, (c.curline_place s').2] at h1
  exact h (Place.opened.inj h1).symm

/-- The page a write pointer points at is a page of its line. -/
theorem ppa_eq (c : Core f ahead place) (w : f.sp.WellFormed) (s : Stream) :
    (f.wp s).ppa = ⟨⟨(f.wp s).ch, (f.wp s).lun, 0, (f.wp s).curline⟩, (f.wp s).pg⟩ := by
  have r := c.inRange s
  have hlt := (c.curline_place s).1
  rw [c.ttLines] at hlt
  unfold WritePointer.ppa
  rw [r.pl, r.blk]
  exact w.ofFields r.ch r.lun hlt r.pg

/-- A write pointer is at a valid page. -/
theorem valid_ppa (c : Core f ahead place) (w : f.sp.WellFormed) (s : Stream) :
    validPpa f.sp (f.wp s).ppa = true := by
  have r := c.inRange s
  have hlt := (c.curline_place s).1
  rw [c.ttLines] at hlt
  rw [c.ppa_eq w s, validPpa_iff]
  exact ⟨r.ch, r.lun, by rw [w.plsPerLun_one]; exact Nat.zero_lt_one, hlt, r.pg⟩

theorem ppa_blk (c : Core f ahead place) (w : f.sp.WellFormed) (s : Stream) :
    (f.wp s).ppa.blk = (f.wp s).curline := by rw [c.ppa_eq w s]

/-- The line of a write pointer is not full. -/
theorem fill_lt (c : Core f ahead place) (w : f.sp.WellFormed) (s : Stream) :
    (f.wp s).fill f.sp < f.sp.pgsPerLine := by
  have h := w.writeIdx_lt (c.valid_ppa w s)
  rwa [c.ppa_eq w s] at h

/-- Its page is the one after those it has filled. -/
theorem ppa_idx (c : Core f ahead place) (w : f.sp.WellFormed) (s : Stream) :
    f.sp.writeIdx (f.wp s).ppa.ch (f.wp s).ppa.lun (f.wp s).ppa.pg = (f.wp s).fill f.sp := by
  rw [c.ppa_eq w s]
  rfl

/-- The page a write pointer points at is free. -/
theorem ppa_free (c : Core f none place) (w : f.sp.WellFormed) (s : Stream) :
    pgStatus f.blk (f.wp s).ppa = .free := by
  obtain ⟨hlt, hopen⟩ := c.curline_place s
  have hblk := c.ppa_blk w s
  rw [c.written _ (c.valid_ppa w s) (by rw [hblk, hopen]; exact nofun), hblk]
  have hok := c.lineOk _ hlt
  rw [hopen] at hok
  rw [show (f.lm.lines (f.wp s).curline).vpc + (f.lm.lines (f.wp s).curline).ipc =
    (f.wp s).fill f.sp from hok, c.ppa_idx w s]

/-- Only a full line has all its pages valid. -/
theorem vpc_full (c : Core f none place) (w : f.sp.WellFormed) {l : Nat} (hlt : l < f.lm.ttLines)
    (hheld : place l ≠ .held) :
    (f.lm.lines l).vpc = f.sp.pgsPerLine ↔ place l = .full := by
  have hok := c.lineOk l hlt
  have hpos : 0 < f.sp.pgsPerLine := by
    have := c.fill_lt w .userIo
    omega
  cases hp : place l with
  | free =>
    rw [hp] at hok
    exact iff_of_false (by rw [hok.1]; omega) nofun
  | full =>
    rw [hp] at hok
    exact iff_of_true hok.1 rfl
  | victim =>
    rw [hp] at hok
    exact iff_of_false (by have := hok.1; have := hok.2; omega) nofun
  | opened s =>
    rw [hp] at hok
    have hfill := c.fill_lt w s
    have hsum : (f.lm.lines l).vpc + (f.lm.lines l).ipc = (f.wp s).fill f.sp := hok
    exact iff_of_false (by omega) nofun
  | held => exact absurd hp hheld

/-- The pages of a closed line are all written. -/
theorem not_free (c : Core f ahead place) (w : f.sp.WellFormed) {p : Ppa}
    (hp : validPpa f.sp p = true) (h : place p.blk = .full ∨ place p.blk = .victim) :
    pgStatus f.blk p ≠ .free := by
  have hheld : place p.blk ≠ .held := by rcases h with h | h <;> rw [h] <;> exact nofun
  have hok := c.lineOk p.blk (c.lt_ttLines hp)
  have hidx := w.writeIdx_lt hp
  rw [Ne, c.written p hp hheld]
  rcases h with h | h
  · rw [h] at hok
    rw [hok.1, hok.2]
    omega
  · rw [h] at hok
    rw [hok.2]
    omega

/-- The pages of a free line are all free. -/
theorem free_of_free (c : Core f ahead place) {p : Ppa} (hp : validPpa f.sp p = true)
    (h : place p.blk = .free) : pgStatus f.blk p = .free := by
  have hok := c.lineOk p.blk (c.lt_ttLines hp)
  rw [h] at hok
  rw [c.written p hp (by rw [h]; exact nofun), hok.1, hok.2]
  exact Nat.zero_le _

/-- A line with a valid page counts it. -/
theorem vpc_pos (c : Core f ahead place) {p : Ppa} (hp : validPpa f.sp p = true)
    (hheld : place p.blk ≠ .held) (hv : pgStatus f.blk p = .valid) :
    0 < (f.lm.lines p.blk).vpc := by
  rw [(c.lineCount _ hheld (c.lt_ttLines hp)).vpc]
  exact tally_pos (SsdParams.mem_linePages.mpr ⟨hp, rfl⟩) hv

end Core

end NvmeVirt

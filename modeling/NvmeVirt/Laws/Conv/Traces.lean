import NvmeVirt.Laws.Conv.Init
import NvmeVirt.Laws.Conv.LineOrder
import NvmeVirt.Laws.Ssd.Issued

/-!
# Traces of an instance

The functions of an instance enter in `trace` what they do to lines, pages and blocks, in the order
in which they do it: `get_new_page` the page it takes, `advance_write_pointer` the line it closes
and the one it opens, the callers of `ssd_advance_nand` the programs, `mark_block_free` the erases.
`WritesInOrder` reads a trace twice. Each stream writes one line after the other, page by page in
`lineOrder`. Each block is filled page by page, every wordline programmed right after its last page,
and erased when it is full. `Traced` is what every function keeps: the trace is in order once the
program that the last page calls for has followed.

`Traced.advance` is the step of a stream that fills a page, `Traced.advanceNand` that of a program
and `Traced.erase` that of an erase; a step that enters nothing and fills or frees no page is an
`Aside`. They need of the bookkeeping only that the page is the next of its line
(`Core.ppa_pageAt`), so the trace is not used to prove anything about the tables or lines.

No function reads the trace: it is a record beside the state of the source, as `Laws/Conv/Contents`
has another for the data of the pages.
-/

set_option autoImplicit false

namespace NvmeVirt

open Outcome

/-! ## Events -/

/-- What happens to one block. -/
inductive BlockEvent where
  | page (pg : Nat)
  | program (pg : Nat)
  | erased
  deriving DecidableEq, Repr

namespace FlashEvent

def ofStream (s : Stream) : FlashEvent → Bool
  | opened s' _ | page s' _ | closed s' _ => s' == s
  | host _ _ | copy _ _ | program _ | erased _ => false

def atBlock (b : BlkId) : FlashEvent → Option BlockEvent
  | page _ p => if p.toBlkId = b then some (.page p.pg) else none
  | program p => if p.toBlkId = b then some (.program p.pg) else none
  | erased b' => if b' = b then some .erased else none
  | opened _ _ | closed _ _ | host _ _ | copy _ _ => none

def programmed : FlashEvent → Option Ppa
  | program p => some p
  | opened _ _ | page _ _ | closed _ _ | host _ _ | copy _ _ | erased _ => none

/-- The event says whose data goes to a page, which no order of writing is about. -/
def fills : FlashEvent → Bool
  | host _ _ | copy _ _ => true
  | opened _ _ | page _ _ | closed _ _ | program _ | erased _ => false

end FlashEvent

namespace SsdParams

variable (spp : SsdParams)

/-- A line from its opening to its closing. -/
def lineSpell (s : Stream) (l : Nat) : List FlashEvent :=
  .opened s l :: (spp.lineOrder l).map (.page s) ++ [.closed s l]

/-- The program that the page `p` calls for. -/
def programDue (p : Ppa) : List FlashEvent :=
  if lastPgInWordline spp p = true then [.program p] else []

/-- One page of a block, and the program of the wordline it completes. -/
def pagePass (b : BlkId) (pg : Nat) : List BlockEvent :=
  .page pg :: if lastPgInWordline spp ⟨b, pg⟩ = true then [.program pg] else []

/-- The first `pages` pages of a block. -/
def blockPass (b : BlkId) (pages : Nat) : List BlockEvent :=
  (List.range pages).flatMap (spp.pagePass b)

/-- A block from its first page to its erase. -/
def blockCycle (b : BlkId) : List BlockEvent := spp.blockPass b spp.pgsPerBlk ++ [.erased]

end SsdParams

/-! ## Traces -/

/-- Nothing that a trace is about has changed. -/
structure Aside (ftl ftl' : ConvFtl) : Prop where
  sp : ftl'.ssd.sp = ftl.ssd.sp
  cp : ftl'.cp = ftl.cp
  wp : ftl'.wp = ftl.wp
  issued : ftl'.ssd.issued = ftl.ssd.issued
  trace : ftl'.trace = ftl.trace
  free : ∀ p, pgStatus ftl'.ssd.blk p = .free ↔ pgStatus ftl.ssd.blk p = .free

/-- The trace stream by stream and block by block. -/
structure WritesInOrder (spp : SsdParams) (tr : List FlashEvent) (ftl : ConvFtl) : Prop where
  stream : ∀ s, ∃ lines : List Nat, (∀ l ∈ lines, l < spp.blksPerPl) ∧
    tr.filter (FlashEvent.ofStream s) =
      lines.flatMap (spp.lineSpell s) ++ .opened s (ftl.wp s).curline ::
        ((spp.lineOrder (ftl.wp s).curline).take ((ftl.wp s).fill spp)).map (.page s)
  block : ∀ b, ∃ cycles pages, pages ≤ spp.pgsPerBlk ∧
    tr.filterMap (FlashEvent.atBlock b) =
      (List.replicate cycles (spp.blockCycle b)).flatten ++ spp.blockPass b pages ∧
    ∀ pg, pg < spp.pgsPerBlk → (pgStatus ftl.ssd.blk ⟨b, pg⟩ = .free ↔ pages ≤ pg)

/-- The programs of the trace are the write commands the instance has issued. -/
def ProgramsIssued (ftl : ConvFtl) : Prop :=
  ftl.trace.filterMap FlashEvent.programmed =
    ((ftl.ssd.issued.filter fun ncmd => ncmd.cmd == .write).map NandCmd.ppa).reverse

/-- The trace is in order once `due` has followed. -/
structure Traced (cp : ConvParams) (spp : SsdParams) (due : List FlashEvent) (ftl : ConvFtl) :
    Prop where
  order : WritesInOrder spp (ftl.trace ++ due) ftl
  programs : ProgramsIssued ftl
  sp : ftl.ssd.sp = spp
  cp : ftl.cp = cp

/-! ## Single events -/

section Events

variable {spp : SsdParams} {s s' : Stream} {p : Ppa} {b : BlkId} {old new : Nat} {e : FlashEvent}

/-- Whose data goes to a page is no event of a stream. -/
theorem FlashEvent.ofStream_of_fills (h : e.fills = true) (s : Stream) : e.ofStream s = false := by
  cases e with
  | host | copy => rfl
  | opened | page | closed | program | erased => cases h

/-- Nor is it one of a block. -/
theorem FlashEvent.atBlock_of_fills (h : e.fills = true) (b : BlkId) : e.atBlock b = none := by
  cases e with
  | host | copy => rfl
  | opened | page | closed | program | erased => cases h

/-- Nor a program. -/
theorem FlashEvent.programmed_of_fills (h : e.fills = true) : e.programmed = none := by
  cases e with
  | host | copy => rfl
  | opened | page | closed | program | erased => cases h

@[simp] theorem filter_switched_self :
    (switched s old new).filter (FlashEvent.ofStream s) = switched s old new := by
  unfold switched
  split <;> simp [FlashEvent.ofStream]

@[simp] theorem filter_switched_of_ne (h : s ≠ s') :
    (switched s old new).filter (FlashEvent.ofStream s') = [] := by
  unfold switched
  split <;> simp [FlashEvent.ofStream, h]

@[simp] theorem atBlock_switched : (switched s old new).filterMap (FlashEvent.atBlock b) = [] := by
  unfold switched
  split <;> rfl

@[simp] theorem programmed_switched :
    (switched s old new).filterMap FlashEvent.programmed = [] := by
  unfold switched
  split <;> rfl

@[simp] theorem filter_programDue :
    (spp.programDue p).filter (FlashEvent.ofStream s) = [] := by
  unfold SsdParams.programDue
  split <;> rfl

/-- In its block a page with its program is a `pagePass`. -/
theorem atBlock_page_self :
    (FlashEvent.page s p :: spp.programDue p).filterMap (FlashEvent.atBlock p.toBlkId) =
      spp.pagePass p.toBlkId p.pg := by
  unfold SsdParams.programDue SsdParams.pagePass
  split <;> simp [FlashEvent.atBlock]

theorem atBlock_page_of_ne (h : p.toBlkId ≠ b) :
    (FlashEvent.page s p :: spp.programDue p).filterMap (FlashEvent.atBlock b) = [] := by
  unfold SsdParams.programDue
  split <;> simp [FlashEvent.atBlock, h]

/-- A block with one page more. -/
theorem blockPass_succ (spp : SsdParams) (b : BlkId) (pages : Nat) :
    spp.blockPass b (pages + 1) = spp.blockPass b pages ++ spp.pagePass b pages := by
  unfold SsdParams.blockPass
  rw [List.range_succ, List.flatMap_append, List.flatMap_singleton]

end Events

/-! ## Steps -/

section Steps

variable {cp : ConvParams} {spp : SsdParams} {due tr : List FlashEvent} {ftl ftl' : ConvFtl}
  {s : Stream} {p : Ppa} {place : Nat → Place}

/-- What stays aside does not touch the order. -/
theorem WritesInOrder.aside (h : WritesInOrder spp tr ftl) (a : Aside ftl ftl') :
    WritesInOrder spp tr ftl' where
  stream s := by
    rw [a.wp]
    exact h.stream s
  block b := by
    obtain ⟨cycles, pages, hle, htr, hfree⟩ := h.block b
    exact ⟨cycles, pages, hle, htr, fun pg hpg => (a.free ⟨b, pg⟩).trans (hfree pg hpg)⟩

/-- Nor what is due. -/
theorem Traced.aside (h : Traced cp spp due ftl) (a : Aside ftl ftl') : Traced cp spp due ftl' := by
  refine ⟨?_, ?_, a.sp.trans h.sp, a.cp.trans h.cp⟩
  · rw [a.trace]
    exact h.order.aside a
  · unfold ProgramsIssued
    rw [a.trace, a.issued]
    exact h.programs

/-- `conv_init_ftl` opens three lines. -/
theorem Traced.init (hf : Fresh cp spp ftl) : Traced cp spp [] ftl := by
  refine ⟨⟨fun s => ⟨[], fun _ hl => absurd hl List.not_mem_nil, ?_⟩,
    fun b => ⟨0, 0, Nat.zero_le _, ?_, ?_⟩⟩, ?_, hf.sp, hf.cp⟩
  · rw [hf.trace, hf.fill s]
    cases s <;> rfl
  · rw [hf.trace]
    rfl
  · intro pg _
    rw [hf.ssd]
    exact iff_of_true rfl (Nat.zero_le pg)
  · unfold ProgramsIssued
    rw [hf.trace, hf.ssd]
    rfl

/-- A flash command that was due. -/
theorem Traced.advanceNand {ncmd : NandCmd} (h : Traced cp spp ncmd.events ftl)
    (ht : ftl.ssd.Timed) : Ensures (fun _ => True) (ssdAdvanceNand ftl.ssd ncmd) fun r =>
      Traced cp spp [] { ftl.record ncmd.events with ssd := r.1 } := by
  have hrun := (ssdAdvanceNand_ensures (E := fun _ => True) ht ncmd).and
    (ssdAdvanceNand_issued ftl.ssd ncmd)
  refine hrun.mono ?_
  rintro r ⟨hs, hissued⟩
  refine ⟨?_, ?_, hs.sp.trans h.sp, h.cp⟩
  · rw [List.append_nil]
    refine ⟨h.order.stream, fun b => ?_⟩
    show ∃ cycles pages, _ ∧ _ ∧ ∀ pg, pg < spp.pgsPerBlk → (pgStatus r.1.blk _ = _ ↔ _)
    rw [hs.blk]
    exact h.order.block b
  · have hprog := h.programs
    unfold ProgramsIssued at hprog ⊢
    show (ftl.trace ++ ncmd.events).filterMap _ = ((r.1.issued.filter _).map _).reverse
    rw [hissued, List.filterMap_append, hprog]
    unfold NandCmd.events
    cases hcmd : ncmd.cmd <;> simp [FlashEvent.programmed, hcmd]

/-- The next page of a block is the one its write pointer is at. -/
theorem Core.pages_eq (c : Core ftl.flash none place) (w : ftl.ssd.sp.WellFormed) {pages : Nat}
    (hfree : ∀ pg, pg < ftl.ssd.sp.pgsPerBlk →
      (pgStatus ftl.ssd.blk ⟨(ftl.wp s).ppa.toBlkId, pg⟩ = .free ↔ pages ≤ pg)) :
    pages = (ftl.wp s).ppa.pg := by
  have hvalid : validPpa ftl.ssd.sp (ftl.wp s).ppa = true := c.valid_ppa w s
  obtain ⟨hch, hlun, hpl, hblk, hpg⟩ := validPpa_iff.mp hvalid
  refine Nat.le_antisymm ((hfree _ hpg).mp (c.ppa_free w s)) (Nat.le_of_not_lt fun hlt => ?_)
  -- an earlier page of the block is at an earlier position of the line, so it is written
  have hstatus := (hfree pages (hlt.trans hpg)).mpr (Nat.le_refl _)
  obtain ⟨hline, hopen⟩ := c.curline_place s
  have hcur : (ftl.wp s).ppa.blk = (ftl.wp s).curline := c.ppa_blk w s
  have hok := c.lineOk _ hline
  rw [hopen] at hok
  have hsum : (ftl.lm.lines (ftl.wp s).curline).vpc + (ftl.lm.lines (ftl.wp s).curline).ipc =
      (ftl.wp s).fill ftl.ssd.sp := hok
  have hwritten := (c.written ⟨(ftl.wp s).ppa.toBlkId, pages⟩
    (validPpa_iff.mpr ⟨hch, hlun, hpl, hblk, hlt.trans hpg⟩)
    (by show place (ftl.wp s).ppa.blk ≠ _; rw [hcur]; rw [hopen]; exact Place.noConfusion)).mp hstatus
  have hidx := (w.writeIdx_lt_iff (ftl.wp s).ppa.ch (ftl.wp s).ppa.lun).mpr hlt
  have hfill : ftl.ssd.sp.writeIdx (ftl.wp s).ppa.ch (ftl.wp s).ppa.lun (ftl.wp s).ppa.pg =
      (ftl.wp s).fill ftl.ssd.sp := c.ppa_idx w s
  have hwritten' : (ftl.lm.lines (ftl.wp s).ppa.blk).vpc + (ftl.lm.lines (ftl.wp s).ppa.blk).ipc ≤
      ftl.ssd.sp.writeIdx (ftl.wp s).ppa.ch (ftl.wp s).ppa.lun pages := hwritten
  rw [hcur, hsum] at hwritten'
  omega

/-- The page at a write pointer is the next one of its line. -/
theorem Core.ppa_pageAt (c : Core ftl.flash none place) (w : ftl.ssd.sp.WellFormed) (s : Stream) :
    (ftl.wp s).ppa = ftl.ssd.sp.pageAt (ftl.wp s).curline ((ftl.wp s).fill ftl.ssd.sp) := by
  have hpage := w.pageAt_writeIdx (c.valid_ppa w s)
  have hidx : ftl.ssd.sp.writeIdx (ftl.wp s).ppa.ch (ftl.wp s).ppa.lun (ftl.wp s).ppa.pg =
      (ftl.wp s).fill ftl.ssd.sp := c.ppa_idx w s
  have hblk : (ftl.wp s).ppa.blk = (ftl.wp s).curline := c.ppa_blk w s
  rw [← hidx, ← hblk]
  exact hpage.symm

/-- A page is taken and its data, `e`, goes there. -/
theorem WritesInOrder.page {e : FlashEvent} (he : e.fills = true) (h : WritesInOrder spp tr ftl)
    (c : Core ftl.flash none place)
    (w : spp.WellFormed) (hsp : ftl.ssd.sp = spp) (hp : p = (ftl.wp s).ppa)
    {wp : WritePointer} (hmoves : (ftl.wp s).Moves wp spp) (hwp : ftl'.wp s = wp)
    (hothers : ∀ s', s' ≠ s → ftl'.wp s' = ftl.wp s')
    (hstatus : ∀ q, pgStatus ftl'.ssd.blk q = .free ↔ pgStatus ftl.ssd.blk q = .free ∧ q ≠ p) :
    WritesInOrder spp (tr ++ .page s p :: e :: switched s (ftl.wp s).curline wp.curline ++
      spp.programDue p) ftl' := by
  subst hsp hwp
  refine ⟨fun s' => ?_, fun b => ?_⟩
  · obtain ⟨lines, hin, hlines⟩ := h.stream s'
    by_cases hs : s' = s
    · subst hs
      have hfill : (ftl.wp s').fill ftl.ssd.sp < ftl.ssd.sp.pgsPerLine := c.fill_lt w s'
      have hpage : p = ftl.ssd.sp.pageAt (ftl.wp s').curline ((ftl.wp s').fill ftl.ssd.sp) :=
        hp.trans (c.ppa_pageAt w s')
      have htake := @SsdParams.take_succ_lineOrder ftl.ssd.sp (ftl.wp s').curline _ hfill
      rw [← hpage] at htake
      have hself : (FlashEvent.page s' p).ofStream s' = true := beq_self_eq_true s'
      rw [List.filter_append, List.filter_append, List.filter_cons_of_pos hself,
        List.filter_cons_of_neg (by simp [FlashEvent.ofStream_of_fills he s']), filter_switched_self,
        filter_programDue, List.append_nil, hlines]
      rcases hmoves with hsteps | ⟨hlast, hne, hzero⟩
      · refine ⟨lines, hin, ?_⟩
        rw [hsteps.curline, hsteps.fill, htake, switched, if_pos rfl]
        simp
      · refine ⟨lines ++ [(ftl.wp s').curline], ?_, ?_⟩
        · intro l hl
          rcases List.mem_append.mp hl with hold | hnew
          · exact hin l hold
          · rw [List.mem_singleton.mp hnew]
            exact c.ttLines ▸ (c.curline_place s').1
        rw [hzero, switched, if_neg hne, List.flatMap_append, List.flatMap_singleton,
          SsdParams.lineSpell]
        rw [hlast, List.take_of_length_le (SsdParams.length_lineOrder _ _).le] at htake
        generalize (ftl.ssd.sp.lineOrder (ftl.wp s').curline).take _ = start at htake ⊢
        rw [htake]
        simp
    · refine ⟨lines, hin, ?_⟩
      have hother : (FlashEvent.page s p).ofStream s' = false := beq_eq_false_iff_ne.mpr (Ne.symm hs)
      rw [List.filter_append, List.filter_append, List.filter_cons_of_neg (by simp [hother]),
        List.filter_cons_of_neg (by simp [FlashEvent.ofStream_of_fills he s']),
        filter_switched_of_ne (Ne.symm hs), filter_programDue, hlines, hothers s' hs]
      simp
  · obtain ⟨cycles, pages, hle, htr, hfree⟩ := h.block b
    have hevents : (.page s p :: e :: switched s (ftl.wp s).curline (ftl'.wp s).curline ++
        ftl.ssd.sp.programDue p).filterMap (FlashEvent.atBlock b) =
          (.page s p :: ftl.ssd.sp.programDue p).filterMap (FlashEvent.atBlock b) := by
      rw [List.cons_append, List.cons_append, List.filterMap_cons, List.filterMap_cons_none
        (FlashEvent.atBlock_of_fills he b), List.filterMap_append, atBlock_switched, List.nil_append,
        List.filterMap_cons]
    rw [List.append_assoc, List.filterMap_append, hevents, htr]
    by_cases hb : p.toBlkId = b
    · subst hb
      have hpages : pages = p.pg := by
        subst hp
        exact c.pages_eq w hfree
      have hpg : p.pg < ftl.ssd.sp.pgsPerBlk := by
        rw [hp]
        exact (validPpa_iff.mp (c.valid_ppa w s)).2.2.2.2
      refine ⟨cycles, pages + 1, by omega, ?_, fun pg hlt => ?_⟩
      · rw [atBlock_page_self, blockPass_succ, hpages, List.append_assoc]
      · rw [hstatus, hfree pg hlt]
        have hne : (⟨p.toBlkId, pg⟩ : Ppa) ≠ p ↔ pg ≠ p.pg :=
          not_congr ⟨fun he => congrArg Ppa.pg he, fun he => by rw [he]⟩
        rw [hne]
        omega
    · refine ⟨cycles, pages, hle, ?_, fun pg hlt => ?_⟩
      · rw [atBlock_page_of_ne hb, List.append_nil]
      · rw [hstatus, hfree pg hlt]
        refine and_iff_left_of_imp fun _ he => hb ?_
        rw [← he]

/-- A page that takes a status other than free was the only one to lose it. -/
theorem free_update {status status' : Ppa → PgStatus} {x : PgStatus} (hx : x ≠ .free)
    (h : status' = Function.update status p x) (q : Ppa) :
    status' q = .free ↔ status q = .free ∧ q ≠ p := by
  rw [h]
  by_cases hq : q = p
  · rw [hq, Function.update_self]
    exact iff_of_false hx fun hh => hh.2 rfl
  · rw [Function.update_of_ne hq]
    exact (and_iff_left hq).symm

/-- `get_new_page` and `mark_page_valid`: the page `p` was taken for the data `e`, and the write pointer
still points at it. -/
structure PageFilled (s : Stream) (p : Ppa) (e : FlashEvent) (ftl ftl' : ConvFtl) : Prop where
  sp : ftl'.ssd.sp = ftl.ssd.sp
  cp : ftl'.cp = ftl.cp
  wp : ftl'.wp = ftl.wp
  issued : ftl'.ssd.issued = ftl.ssd.issued
  trace : ftl'.trace = ftl.trace ++ [.page s p, e]
  status : pgStatus ftl'.ssd.blk = Function.update (pgStatus ftl.ssd.blk) p .valid
  fills : e.fills = true

/-- The write pointer passes the page; its program is due. -/
theorem Traced.advance {e : FlashEvent} (h : Traced cp spp [] ftl) (c : Core ftl.flash none place)
    (w : ftl.ssd.sp.WellFormed) (hfilled : PageFilled s p e ftl ftl') (hp : p = (ftl.wp s).ppa)
    {place' : Nat → Place} (c' : Core ftl'.flash (some s) place') :
    Ensures (fun _ => True) (advanceWritePointer ftl' s) (Traced cp spp (spp.programDue p)) := by
  have w' : ftl'.ssd.sp.WellFormed := hfilled.sp.symm ▸ w
  have hrun := advanceWritePointer_ensures (E := fun _ => True) c' w' (.inl trivial)
  refine hrun.mono ?_
  rintro _ ⟨lm, wp, place'', rfl, ha⟩
  have horder := h.order
  rw [List.append_nil] at horder
  have hmoves : (ftl'.wp s).Moves (wp s) ftl'.ssd.sp := ha.moves
  rw [hfilled.wp, hfilled.sp, h.sp] at hmoves
  have hothers : ∀ s', s' ≠ s → wp s' = ftl.wp s' := by
    intro s' hs'
    rw [← hfilled.wp]
    exact ha.others s' hs'
  have htrace : ftl'.trace ++ switched s (ftl'.wp s).curline (wp s).curline =
      ftl.trace ++ .page s p :: e :: switched s (ftl.wp s).curline (wp s).curline := by
    rw [hfilled.trace, hfilled.wp, List.append_assoc]
    rfl
  refine ⟨?_, ?_, hfilled.sp.trans h.sp, hfilled.cp.trans h.cp⟩
  · show WritesInOrder spp (_ ++ switched s _ _ ++ _) _
    rw [htrace]
    refine horder.page hfilled.fills c (h.sp ▸ w) h.sp hp hmoves rfl ?_ ?_
    · exact hothers
    · exact free_update PgStatus.noConfusion hfilled.status
  · have hprog := h.programs
    unfold ProgramsIssued at hprog ⊢
    show (_ ++ switched s _ _).filterMap _ = ((ftl'.ssd.issued.filter _).map _).reverse
    have hnone : (FlashEvent.page s p :: e :: switched s (ftl.wp s).curline (wp s).curline).filterMap
        FlashEvent.programmed = [] := by
      rw [List.filterMap_cons_none rfl, List.filterMap_cons_none (FlashEvent.programmed_of_fills
        hfilled.fills), programmed_switched]
    rw [htrace, hfilled.issued, ← hprog, List.filterMap_append, hnone, List.append_nil]

/-- A block is erased once all its pages are written. -/
theorem Traced.erase (h : Traced cp spp [] ftl)
    (hwritten : ∀ pg, pg < ftl.ssd.sp.pgsPerBlk → pgStatus ftl.ssd.blk ⟨p.toBlkId, pg⟩ ≠ .free) :
    Traced cp spp [] (markBlockFree ftl p) := by
  have horder := h.order
  have hprog := h.programs
  rw [List.append_nil] at horder
  refine ⟨?_, ?_, h.sp, h.cp⟩
  · show WritesInOrder spp (ftl.trace ++ [.erased p.toBlkId] ++ []) _
    rw [List.append_nil]
    refine ⟨fun s => ?_, fun b => ?_⟩
    · obtain ⟨lines, hin, hlines⟩ := horder.stream s
      refine ⟨lines, hin, ?_⟩
      rw [List.filter_append, hlines]
      exact List.append_nil _
    · obtain ⟨cycles, pages, hle, htr, hfree⟩ := horder.block b
      rw [h.sp] at hwritten
      by_cases hb : b = p.toBlkId
      · subst hb
        obtain rfl : pages = spp.pgsPerBlk := by
          refine Nat.le_antisymm hle (Nat.le_of_not_lt fun hlt => ?_)
          exact hwritten pages hlt ((hfree pages hlt).mpr (Nat.le_refl _))
        refine ⟨cycles + 1, 0, Nat.zero_le _, ?_, fun pg hlt => iff_of_true ?_ (Nat.zero_le pg)⟩
        · rw [List.filterMap_append, htr, List.replicate_succ']
          simp [SsdParams.blockCycle, SsdParams.blockPass, FlashEvent.atBlock]
        · show (Function.update ftl.ssd.blk p.toBlkId _ p.toBlkId).pg pg = _
          rw [Function.update_self]
          exact if_pos (h.sp.symm ▸ hlt)
      · refine ⟨cycles, pages, hle, ?_, fun pg hlt => ?_⟩
        · rw [List.filterMap_append, htr]
          simp [FlashEvent.atBlock, Ne.symm hb]
        · rw [show pgStatus (markBlockFree ftl p).ssd.blk ⟨b, pg⟩ = pgStatus ftl.ssd.blk ⟨b, pg⟩ from
            ftl.flash.status_eraseBlk hb]
          exact hfree pg hlt
  · unfold ProgramsIssued at hprog ⊢
    show (ftl.trace ++ [FlashEvent.erased p.toBlkId]).filterMap _ = _
    rw [List.filterMap_append, hprog]
    exact List.append_nil _

end Steps

end NvmeVirt

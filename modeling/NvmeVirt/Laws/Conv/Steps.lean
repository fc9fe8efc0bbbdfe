import NvmeVirt.Laws.Conv.Flash

/-!
# The steps of the flash bookkeeping

One lemma for each function that changes page states: what it needs of the state, that it keeps
`Core`, and what it does to the number of writable pages.

A page written uses up one writable page (`writable_validate`); a page invalidated uses none
(`writable_invalidate`). The victim is taken from its queue and is in hand (`select`), its blocks
are erased there (`eraseBlk`), and it goes back as a free line with all its pages (`freeLine`).
While a line is held in between its counters say nothing, which is why `Core` takes the places of
the lines as an argument.

The lemmas of the last part are about the functions of the source, with their assertions: where the
page is in the state they expect, none of these is hit.
-/

set_option autoImplicit false

namespace NvmeVirt

@[simp] theorem LineMgmt.setLine_self (lm : LineMgmt) (l : Nat) (line : Line) :
    (lm.setLine l line).lines l = line := Function.update_self ..

theorem LineMgmt.setLine_of_ne (lm : LineMgmt) {l i : Nat} (h : i ≠ l) (line : Line) :
    (lm.setLine l line).lines i = lm.lines i := Function.update_of_ne h ..

/-- Only the counts of a line matter. -/
theorem LineOk.congr {f : Flash} {ahead : Option Stream} {c : Place} {line line' : Line}
    (h : LineOk f ahead c line) (hv : line'.vpc = line.vpc) (hi : line'.ipc = line.ipc) :
    LineOk f ahead c line' := by
  cases c with
  | held => trivial
  | _ => simpa only [LineOk, hv, hi] using h

namespace Flash

/-- The writable pages after a change of the unwritten pages of stream `s` alone. -/
theorem writable_step {f f' : Flash} (s : Stream)
    (hfree : f'.lm.freeLineList = f.lm.freeLineList) (hsp : f'.sp = f.sp) {n : Nat}
    (h : ∀ s', f'.unwritten s' + (if s' = s then n else 0) = f.unwritten s') :
    f'.writable + n = f.writable := by
  unfold writable
  rw [hfree, hsp]
  have hu := h .userIo
  have hh := h .gcIoHot
  have hc := h .gcIoCold
  cases s <;> simp only [reduceCtorEq, if_true, if_false] at hu hh hc <;> omega

/-- The writable pages when no unwritten page of an open line changes. -/
theorem writable_congr {f f' : Flash} (hfree : f'.lm.freeLineList = f.lm.freeLineList)
    (hsp : f'.sp = f.sp) (h : ∀ s, f'.unwritten s = f.unwritten s) : f'.writable = f.writable := by
  unfold writable
  rw [hfree, hsp, h, h, h]

/-- `mark_page_valid`. -/
def validate (f : Flash) (p : Ppa) : Flash :=
  { f with
    blk := Function.update f.blk p.toBlkId ((f.blk p.toBlkId).validate p.pg)
    lm := f.lm.setLine p.blk { f.lm.lines p.blk with vpc := (f.lm.lines p.blk).vpc + 1 } }

/-- `mark_page_invalid` at time `now`. -/
def invalidate (f : Flash) (p : Ppa) (now : Nat) : Flash :=
  let lm := f.lm.invalidate f.sp p.blk
  { f with
    blk := Function.update f.blk p.toBlkId ((f.blk p.toBlkId).invalidate p.pg)
    lm := lm.setLine p.blk { lm.lines p.blk with lastModifiedTime := now } }

/-- `mark_block_free`. -/
def eraseBlk (f : Flash) (b : BlkId) : Flash :=
  { f with blk := Function.update f.blk b ((f.blk b).erase f.sp.pgsPerBlk) }

/-- `mark_line_free`. -/
def freeLine (f : Flash) (l : Nat) : Flash := { f with lm := f.lm.markLineFree l }

/-- A page becomes valid, and no other changes. -/
theorem status_validate (f : Flash) (p : Ppa) :
    pgStatus (f.validate p).blk = Function.update (pgStatus f.blk) p .valid := pgStatus_update rfl

/-- A page becomes invalid, and no other changes. -/
theorem status_invalidate (f : Flash) (p : Ppa) (now : Nat) :
    pgStatus (f.invalidate p now).blk = Function.update (pgStatus f.blk) p .invalid :=
  pgStatus_update rfl

/-- An erase changes the pages of its block only. -/
theorem status_eraseBlk (f : Flash) {b : BlkId} {p : Ppa} (hp : p.toBlkId ≠ b) :
    pgStatus (f.eraseBlk b).blk p = pgStatus f.blk p :=
  congrArg (fun nb : NandBlock => nb.pg p.pg) (Function.update_of_ne hp ..)

/-! ### Erase counts -/

/-- An update that keeps a number keeps it everywhere. -/
theorem update_keeps {ι α : Type} [DecidableEq ι] (get : α → Nat) (f : ι → α) {i : ι} {a : α}
    (h : get a = get (f i)) (j : ι) : get (Function.update f i a j) = get (f j) := by
  by_cases hj : j = i
  · rw [hj, Function.update_self, h]
  · rw [Function.update_of_ne hj]

/-- No line is erased by a page write. -/
theorem validate_lineErase (f : Flash) (p : Ppa) (l : Nat) :
    ((f.validate p).lm.lines l).eraseCnt = (f.lm.lines l).eraseCnt := by
  apply update_keeps Line.eraseCnt f.lm.lines
  rfl

/-- Nor is a block. -/
theorem validate_blkErase (f : Flash) (p : Ppa) (b : BlkId) :
    ((f.validate p).blk b).eraseCnt = (f.blk b).eraseCnt := by
  apply update_keeps NandBlock.eraseCnt f.blk
  rfl

/-- Nor by an invalidation. -/
theorem invalidate_blkErase (f : Flash) (p : Ppa) (now : Nat) (b : BlkId) :
    ((f.invalidate p now).blk b).eraseCnt = (f.blk b).eraseCnt := by
  apply update_keeps NandBlock.eraseCnt f.blk
  rfl

end Flash

namespace Core

variable {f : Flash} {place : Nat → Place}

/-! ## A page becomes valid -/

/-- The page a write pointer points at is marked valid; the pointer is now one page behind. -/
theorem validate (c : Core f none place) (w : f.sp.WellFormed) (s : Stream) :
    Core (f.validate (f.wp s).ppa) (some s) place := by
  set p := (f.wp s).ppa with hpdef
  have hp : validPpa f.sp p = true := c.valid_ppa w s
  have hfree : pgStatus f.blk p = .free := c.ppa_free w s
  have hblk : p.blk = (f.wp s).curline := c.ppa_blk w s
  obtain ⟨hlt, hopen⟩ := c.curline_place s
  rw [← hblk] at hlt hopen
  have hfill : (f.lm.lines p.blk).vpc + (f.lm.lines p.blk).ipc = f.sp.writeIdx p.ch p.lun p.pg := by
    have hok := c.lineOk _ hlt
    rw [hopen] at hok
    exact hok.trans (c.ppa_idx w s).symm
  have hpos : (f.lm.lines p.blk).pos = 0 := c.placed.pos_eq_zero (by rw [hopen]; exact nofun)
  refine ⟨c.ttLines, c.placed.setLine rfl rfl fun hne => absurd hpos hne, c.inRange, ?_, ?_, ?_, ?_⟩
  · intro l hl
    by_cases hlp : l = p.blk
    · subst hlp
      have hok := c.lineOk _ hlt
      rw [hopen] at hok ⊢
      simp only [LineOk, Flash.validate, LineMgmt.setLine_self, if_true] at hok ⊢
      simp only [reduceCtorEq, if_false] at hok
      omega
    · have hok := c.lineOk l hl
      simp only [Flash.validate, LineMgmt.setLine_of_ne _ hlp]
      cases hpl : place l with
      | opened s' =>
        rw [hpl] at hok
        have hne : s ≠ s' := by
          rintro rfl
          have := c.placed.cur_eq.mpr ⟨hl, hpl⟩
          exact hlp ((Option.some.inj this).symm.trans hblk.symm)
        simp only [LineOk, Option.some.injEq, hne, if_false, reduceCtorEq] at hok ⊢
        exact hok
      | _ =>
        rw [hpl] at hok
        exact hok
  · intro q hq hheld
    rw [f.status_validate]
    by_cases hqp : q.blk = p.blk
    · have hold := c.written q hq hheld
      rw [hqp] at hold
      rw [hqp]
      simp only [Flash.validate, LineMgmt.setLine_self]
      by_cases he : q = p
      · rw [he, Function.update_self]
        exact iff_of_false nofun (by omega)
      · rw [Function.update_of_ne he, hold]
        have hne : f.sp.writeIdx q.ch q.lun q.pg ≠ f.sp.writeIdx p.ch p.lun p.pg :=
          fun hi => he (w.writeIdx_inj hq hp hqp hi)
        omega
    · have he : q ≠ p := fun he => hqp (he ▸ rfl)
      simp only [Flash.validate, LineMgmt.setLine_of_ne _ hqp]
      rw [Function.update_of_ne he]
      exact c.written q hq hheld
  · intro l hheld hl
    rw [f.status_validate]
    by_cases hlp : l = p.blk
    · subst hlp
      refine (c.lineCount _ hheld hlt).remark (SsdParams.mem_linePages.mpr ⟨hp, rfl⟩) ?_ ?_
      all_goals simp [hfree, Flash.validate]
    · simp only [Flash.validate, LineMgmt.setLine_of_ne _ hlp]
      exact (c.lineCount l hheld hl).remark_other
        (fun hm => hlp (SsdParams.mem_linePages.mp hm).2.symm) _
  · intro b
    rw [f.status_validate]
    by_cases hb : b = p.toBlkId
    · subst hb
      refine (c.blkCount _).remark (SsdParams.mem_blkPages.mpr ⟨hp, rfl⟩) ?_ ?_
      all_goals simp [hfree, Flash.validate, NandBlock.validate]
    · simp only [Flash.validate, Function.update_of_ne hb]
      exact (c.blkCount b).remark_other (fun hm => hb (SsdParams.mem_blkPages.mp hm).2.symm) _

/-- It takes one writable page. -/
theorem writable_validate (c : Core f none place) (w : f.sp.WellFormed) (s : Stream) :
    (f.validate (f.wp s).ppa).writable + 1 = f.writable := by
  have hp := c.valid_ppa w s
  have hfree := c.ppa_free w s
  have hblk := c.ppa_blk w s
  refine Flash.writable_step s ?_ ?_ fun s' => ?_
  · rfl
  · rfl
  unfold Flash.unwritten
  rw [f.status_validate]
  by_cases hs : s' = s
  · subst hs
    have ht := tally_update_of_mem (pgStatus f.blk)
      (SsdParams.mem_linePages.mpr ⟨hp, hblk⟩) .valid .free
    simp only [hfree, reduceCtorEq, if_true, if_false, Nat.add_zero] at ht
    rw [if_pos rfl]
    exact ht
  · rw [if_neg hs]
    refine tally_update_of_notMem _ (fun hm => ?_) _ _
    exact c.curline_ne hs ((SsdParams.mem_linePages.mp hm).2.symm.trans hblk)

/-! ## A page becomes invalid -/

/-- Nor is a line. -/
theorem invalidate_lineErase (c : Core f none place) (w : f.sp.WellFormed) {p : Ppa}
    (hp : validPpa f.sp p = true) (hheld : place p.blk ≠ .held) (now l : Nat) :
    ((f.invalidate p now).lm.lines l).eraseCnt = (f.lm.lines l).eraseCnt := by
  have hlt := c.lt_ttLines hp
  have hinv := (c.placed.invalidate f.sp hlt (c.vpc_full w hlt hheld)).2
  rw [← hinv.eraseCnt l]
  apply Flash.update_keeps Line.eraseCnt (f.lm.invalidate f.sp p.blk).lines
  rfl

/-- The counts of the page's line: one valid page fewer, one invalid page more. -/
theorem invalidate_counts (c : Core f none place) (w : f.sp.WellFormed) {p : Ppa}
    (hp : validPpa f.sp p = true) (hheld : place p.blk ≠ .held) (now l : Nat) :
    ((f.invalidate p now).lm.lines l).vpc =
        (if l = p.blk then (f.lm.lines l).vpc - 1 else (f.lm.lines l).vpc) ∧
      ((f.invalidate p now).lm.lines l).ipc =
        if l = p.blk then (f.lm.lines l).ipc + 1 else (f.lm.lines l).ipc := by
  have hlt := c.lt_ttLines hp
  have hinv := (c.placed.invalidate f.sp hlt (c.vpc_full w hlt hheld)).2
  rw [← hinv.vpc l, ← hinv.ipc l]
  by_cases hlp : l = p.blk
  · subst hlp
    simp [Flash.invalidate]
  · simp [Flash.invalidate, LineMgmt.setLine_of_ne _ hlp]

/-- The line keeps the counts its place asks for; a full line is a victim now. -/
theorem invalidate_lineOk (c : Core f none place) (w : f.sp.WellFormed) {p : Ppa}
    (hp : validPpa f.sp p = true) (hheld : place p.blk ≠ .held)
    (hval : pgStatus f.blk p = .valid) (now : Nat) :
    LineOk (f.invalidate p now) none (if place p.blk = .full then .victim else place p.blk)
      ((f.invalidate p now).lm.lines p.blk) := by
  have hvpc := c.vpc_pos hp hheld hval
  have hok := c.lineOk _ (c.lt_ttLines hp)
  obtain ⟨hv, hi⟩ := c.invalidate_counts w hp hheld now p.blk
  rw [if_pos rfl] at hv hi
  cases hpl : place p.blk with
  | free =>
    have hfree := c.free_of_free hp hpl
    rw [hval] at hfree
    cases hfree
  | full =>
    rw [hpl] at hok
    have h1 := hok.1
    have h2 := hok.2
    rw [if_pos rfl]
    exact ⟨by omega, by show _ = f.sp.pgsPerLine; omega⟩
  | victim =>
    rw [hpl] at hok
    have h2 := hok.2
    rw [if_neg nofun]
    exact ⟨by omega, by show _ = f.sp.pgsPerLine; omega⟩
  | opened s =>
    rw [hpl] at hok
    have h1 : (f.lm.lines p.blk).vpc + (f.lm.lines p.blk).ipc = (f.wp s).fill f.sp := hok
    rw [if_neg nofun]
    show _ = (f.wp s).fill f.sp
    omega
  | held => exact absurd hpl hheld

/-- No page has been written or freed. -/
theorem invalidate_written (c : Core f none place) (w : f.sp.WellFormed) {p q : Ppa}
    (hp : validPpa f.sp p = true) (hheld : place p.blk ≠ .held)
    (hval : pgStatus f.blk p = .valid) (now : Nat) (hq : validPpa f.sp q = true)
    (hqheld : place q.blk ≠ .held) :
    pgStatus (f.invalidate p now).blk q = .free ↔
      ((f.invalidate p now).lm.lines q.blk).vpc + ((f.invalidate p now).lm.lines q.blk).ipc ≤
        f.sp.writeIdx q.ch q.lun q.pg := by
  have hvpc := c.vpc_pos hp hheld hval
  have hold := c.written q hq hqheld
  obtain ⟨hv, hi⟩ := c.invalidate_counts w hp hheld now q.blk
  have hsum : ((f.invalidate p now).lm.lines q.blk).vpc +
      ((f.invalidate p now).lm.lines q.blk).ipc =
      (f.lm.lines q.blk).vpc + (f.lm.lines q.blk).ipc := by
    rw [hv, hi]
    by_cases hqp : q.blk = p.blk
    · rw [if_pos hqp, if_pos hqp, hqp]
      omega
    · rw [if_neg hqp, if_neg hqp]
  rw [f.status_invalidate, hsum]
  by_cases he : q = p
  · rw [he, Function.update_self]
    rw [he, hval] at hold
    exact iff_of_false nofun fun hle => nomatch hold.mpr hle
  · rw [Function.update_of_ne he]
    exact hold

/-- A valid page is marked invalid; a full line becomes a victim. -/
theorem invalidate (c : Core f none place) (w : f.sp.WellFormed) {p : Ppa}
    (hp : validPpa f.sp p = true) (hheld : place p.blk ≠ .held)
    (hval : pgStatus f.blk p = .valid) (now : Nat) :
    Core (f.invalidate p now) none
      (Function.update place p.blk (if place p.blk = .full then .victim else place p.blk)) := by
  have hlt := c.lt_ttLines hp
  have hvpc := c.vpc_pos hp hheld hval
  obtain ⟨hplaced, hinv⟩ := c.placed.invalidate f.sp hlt (c.vpc_full w hlt hheld)
  have hheld' : ∀ l, Function.update place p.blk
      (if place p.blk = .full then .victim else place p.blk) l ≠ .held → place l ≠ .held := by
    intro l hl
    by_cases hlp : l = p.blk
    · exact hlp ▸ hheld
    · rwa [Function.update_of_ne hlp] at hl
  have htt : (f.invalidate p now).lm.ttLines = f.lm.ttLines := hinv.ttLines
  refine ⟨htt.trans c.ttLines, hplaced.setLine rfl rfl fun _ => rfl, c.inRange, ?_, ?_, ?_, ?_⟩
  · intro l hl
    rw [htt] at hl
    by_cases hlp : l = p.blk
    · rw [hlp, Function.update_self]
      exact c.invalidate_lineOk w hp hheld hval now
    · obtain ⟨hv, hi⟩ := c.invalidate_counts w hp hheld now l
      rw [if_neg hlp] at hv hi
      rw [Function.update_of_ne hlp]
      exact (c.lineOk l hl).congr hv hi
  · intro q hq hqheld
    exact c.invalidate_written w hp hheld hval now hq (hheld' _ hqheld)
  · intro l hlheld hl
    rw [htt] at hl
    obtain ⟨hv, hi⟩ := c.invalidate_counts w hp hheld now l
    rw [f.status_invalidate, hv, hi]
    by_cases hlp : l = p.blk
    · subst hlp
      rw [if_pos rfl, if_pos rfl]
      refine (c.lineCount _ hheld hlt).remark (SsdParams.mem_linePages.mpr ⟨hp, rfl⟩) ?_ ?_
      · rw [hval]; simp; omega
      · rw [hval]; simp
    · rw [if_neg hlp, if_neg hlp]
      exact (c.lineCount l (hheld' l hlheld) hl).remark_other
        (fun hm => hlp (SsdParams.mem_linePages.mp hm).2.symm) _
  · intro b
    rw [f.status_invalidate]
    by_cases hb : b = p.toBlkId
    · subst hb
      have hmem := SsdParams.mem_blkPages.mpr ⟨hp, rfl⟩
      have hpos : 0 < (f.blk p.toBlkId).vpc := by
        rw [(c.blkCount _).vpc]
        exact tally_pos hmem hval
      refine (c.blkCount _).remark hmem ?_ ?_
      · simp [hval, Flash.invalidate, NandBlock.invalidate]; omega
      · simp [hval, Flash.invalidate, NandBlock.invalidate]
    · simp only [Flash.invalidate, Function.update_of_ne hb]
      exact (c.blkCount b).remark_other (fun hm => hb (SsdParams.mem_blkPages.mp hm).2.symm) _

/-- It neither takes nor gives a writable page. -/
theorem writable_invalidate (c : Core f none place) (w : f.sp.WellFormed) {p : Ppa}
    (hp : validPpa f.sp p = true) (hheld : place p.blk ≠ .held)
    (hval : pgStatus f.blk p = .valid) (now : Nat) :
    (f.invalidate p now).writable = f.writable := by
  have hlt := c.lt_ttLines hp
  obtain ⟨_, hinv⟩ := c.placed.invalidate f.sp hlt (c.vpc_full w hlt hheld)
  refine Flash.writable_congr hinv.freeLineList rfl fun s => ?_
  unfold Flash.unwritten
  rw [f.status_invalidate]
  by_cases hm : p ∈ f.sp.linePages (f.wp s).curline
  · have ht := tally_update_of_mem (pgStatus f.blk) hm .invalid .free
    rw [hval] at ht
    simp only [reduceCtorEq, if_false, Nat.add_zero] at ht
    exact ht
  · exact tally_update_of_notMem _ hm _ _

/-! ## The victim -/

/-- The selected line is in hand. -/
theorem select (c : Core f none place) {lm : LineMgmt} {v : Nat}
    (hs : LineMgmt.Selected f.lm lm (fun s => some (f.wp s).curline) place v) :
    Core { f with lm } none (Function.update place v .held) := by
  have hplace : ∀ l, Function.update place v .held l ≠ .held →
      l ≠ v ∧ Function.update place v .held l = place l := by
    intro l hl
    by_cases hlv : l = v
    · rw [hlv, Function.update_self] at hl
      exact absurd rfl hl
    · exact ⟨hlv, Function.update_of_ne hlv ..⟩
  refine ⟨hs.ttLines.trans c.ttLines, hs.placed, c.inRange, ?_, ?_, ?_, c.blkCount⟩
  · intro l hl
    by_cases hheld : Function.update place v .held l = .held
    · rw [hheld]
      trivial
    · obtain ⟨_, he⟩ := hplace l hheld
      rw [he]
      exact (c.lineOk l (hs.ttLines ▸ hl)).congr (hs.kept.vpc l) (hs.kept.ipc l)
  · intro p hp hheld
    rw [(hplace _ hheld).2] at hheld
    rw [c.written p hp hheld]
    show _ ↔ (lm.lines p.blk).vpc + (lm.lines p.blk).ipc ≤ _
    rw [hs.kept.vpc, hs.kept.ipc]
  · intro l hheld hl
    rw [(hplace _ hheld).2] at hheld
    show Counted _ _ (lm.lines l).vpc (lm.lines l).ipc
    rw [hs.kept.vpc, hs.kept.ipc]
    exact c.lineCount l hheld (hs.ttLines ▸ hl)

/-- A block of a line in hand is erased. -/
theorem eraseBlk (c : Core f none place) {b : BlkId} (hheld : place b.blk = .held) :
    Core (f.eraseBlk b) none place := by
  have hblk : ∀ p : Ppa, place p.blk ≠ .held → p.toBlkId ≠ b := by
    intro p hp he
    exact hp (he ▸ hheld)
  refine ⟨c.ttLines, c.placed, c.inRange, c.lineOk, ?_, ?_, ?_⟩
  · intro p hp hne
    rw [f.status_eraseBlk (hblk p hne)]
    exact c.written p hp hne
  · intro l hne hl
    refine (c.lineCount l hne hl).congr fun p hp => f.status_eraseBlk (hblk p ?_)
    rw [(SsdParams.mem_linePages.mp hp).2]
    exact hne
  · intro b'
    by_cases hb : b' = b
    · subst hb
      simp only [Flash.eraseBlk, Function.update_self, NandBlock.erase]
      refine Counted.of_free fun p hp => ?_
      obtain ⟨hval, hpb⟩ := SsdParams.mem_blkPages.mp hp
      unfold pgStatus
      rw [hpb, Function.update_self]
      exact if_pos (validPpa_iff.mp hval).2.2.2.2
    · simp only [Flash.eraseBlk, Function.update_of_ne hb]
      refine (c.blkCount b').congr fun p hp => f.status_eraseBlk ?_
      rw [(SsdParams.mem_blkPages.mp hp).2]
      exact hb

/-- The pages of a held line do not count before it is freed. -/
theorem writable_eraseBlk (c : Core f none place) {b : BlkId} (hheld : place b.blk = .held) :
    (f.eraseBlk b).writable = f.writable := by
  refine Flash.writable_congr rfl rfl fun s => tally_congr (fun p hp => ?_) _
  have hne : p.toBlkId ≠ b := by
    intro he
    have hpl := (c.curline_place s).2
    have hmem : p.blk = (f.wp s).curline := (SsdParams.mem_linePages.mp hp).2
    rw [← hmem, he, hheld] at hpl
    cases hpl
  exact f.status_eraseBlk hne

/-- A line in hand whose pages are all free goes back to the free list. -/
theorem freeLine (c : Core f none place) {v : Nat} (hlt : v < f.lm.ttLines)
    (hheld : place v = .held)
    (hfree : ∀ p, validPpa f.sp p = true → p.blk = v → pgStatus f.blk p = .free) :
    Core (f.freeLine v) none (Function.update place v .free) := by
  have hline : ∀ l, l ≠ v → (f.freeLine v).lm.lines l = f.lm.lines l :=
    fun l hl => LineMgmt.setLine_of_ne f.lm hl _
  have hv : (f.freeLine v).lm.lines v =
      { f.lm.lines v with ipc := 0, vpc := 0, eraseCnt := (f.lm.lines v).eraseCnt + 1 } :=
    f.lm.setLine_self v _
  refine ⟨c.ttLines, c.placed.markLineFree hlt hheld, c.inRange, ?_, ?_, ?_, c.blkCount⟩
  · intro l hl
    by_cases hlv : l = v
    · subst hlv
      rw [Function.update_self, hv]
      exact ⟨rfl, rfl⟩
    · rw [Function.update_of_ne hlv, hline l hlv]
      exact c.lineOk l hl
  · intro p hp hne
    by_cases hpv : p.blk = v
    · rw [hpv, hv]
      exact iff_of_true (hfree p hp hpv) (Nat.zero_le _)
    · rw [Function.update_of_ne hpv] at hne
      rw [hline _ hpv]
      exact c.written p hp hne
  · intro l hne hl
    by_cases hlv : l = v
    · subst hlv
      rw [hv]
      refine Counted.of_free fun p hp => ?_
      obtain ⟨hval, hpl⟩ := SsdParams.mem_linePages.mp hp
      exact hfree p hval hpl
    · rw [Function.update_of_ne hlv] at hne
      rw [hline l hlv]
      exact c.lineCount l hne hl

/-- It gives back the pages of a line. -/
theorem writable_freeLine (f : Flash) (v : Nat) :
    (f.freeLine v).writable = f.writable + f.sp.pgsPerLine := by
  have hlen : (f.freeLine v).lm.freeLineList.length = f.lm.freeLineList.length + 1 := by
    simp [Flash.freeLine, LineMgmt.markLineFree]
  unfold Flash.writable
  rw [hlen]
  simp only [Flash.unwritten, Flash.freeLine]
  ring

end Core

/-! ## The functions -/

section Ensures

open Outcome

variable {E : Fault → Prop} {ftl : ConvFtl} {place : Nat → Place}

/-- A stream takes the page its write pointer is at. -/
theorem getNewPage_ensures (c : Core ftl.flash none place) (w : ftl.ssd.sp.WellFormed)
    (s : Stream) : Ensures E (getNewPage ftl s) fun r =>
      r = (ftl.record [.page s (ftl.wp s).ppa], (ftl.wp s).ppa) :=
  (nvmevAssert_ensures (by rw [c.ppa_eq w s])).bind fun _ _ => .pure rfl

/-- A free page can be written. -/
theorem markPageValid_ensures {p : Ppa} (h : pgStatus ftl.ssd.blk p = .free) :
    Ensures E (markPageValid ftl p) fun r => r = ftl.validate p :=
  (nvmevAssert_ensures h).bind fun _ _ => .pure rfl

/-- A valid page can be invalidated. -/
theorem markPageInvalid_ensures {p : Ppa} (h : pgStatus ftl.ssd.blk p = .valid) :
    Ensures E (markPageInvalid ftl p) fun r => ∃ now, r = ftl.invalidate p now :=
  (nvmevAssert_ensures h).bind fun _ _ => ktimeGetNs_ensures.bind fun now _ => .pure ⟨now, rfl⟩

end Ensures

end NvmeVirt

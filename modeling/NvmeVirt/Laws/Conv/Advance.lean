import NvmeVirt.Laws.Conv.Steps

/-!
# The write pointer advances

`advance_write_pointer` is the odometer of `writeIdx`: it steps the position of the pointer by one
or, at the end of the line, closes the line and opens the next free one. Only there can it meet an
empty free list.

A step inside the line is `Core.stepWp`. The end of the line goes in two: `closeLine_ensures` puts
the line on the full list or in the victim queue, and `Core.reopen` takes the next one. In between
the stream has no line, so `Core` is stated for the moment after both. `freeLineList_ne_nil` says
when there is a line to take, from the number of writable pages.

`advanceWritePointer_ensures` is what the rest of the development uses; `Advanced` lists all that an
advance does, the events it enters in the trace included.
-/

set_option autoImplicit false

namespace NvmeVirt

open Outcome

/-! ## Positions -/

namespace SsdParams

variable {spp : SsdParams} {ch lun pg : Nat}

/-- Inside a wordline only the page digit moves. -/
theorem succ_digits_page (h : pg % spp.pgsPerOneshotpg + 1 < spp.pgsPerOneshotpg) :
    Radix.succ (spp.writeDigits ch lun pg) spp.writeBases =
      some (spp.writeDigits ch lun (pg + 1)) := by
  have hdm := Radix.succ_div_mod h
  unfold writeDigits writeBases Radix.succ
  rw [if_pos h, hdm.1, hdm.2]

/-- The page digit moves as long as the next page is not the first of a wordline. -/
theorem page_inside (hos : 0 < spp.pgsPerOneshotpg) (h : (pg + 1) % spp.pgsPerOneshotpg ≠ 0) :
    pg % spp.pgsPerOneshotpg + 1 < spp.pgsPerOneshotpg := by
  have hmod := Nat.mod_lt pg hos
  have hdiv := Nat.div_add_mod pg spp.pgsPerOneshotpg
  by_contra hge
  refine h ?_
  have he : pg + 1 = spp.pgsPerOneshotpg * (pg / spp.pgsPerOneshotpg + 1) := by
    rw [Nat.mul_add, Nat.mul_one]
    omega
  rw [he, Nat.mul_mod_right]

/-- The first page of the wordline of `pg`. -/
theorem wordline_start (w : spp.WellFormed) (h : (pg + 1) % spp.pgsPerOneshotpg = 0) :
    pg + 1 - spp.pgsPerOneshotpg = spp.pgsPerOneshotpg * (pg / spp.pgsPerOneshotpg) ∧
      pg % spp.pgsPerOneshotpg + 1 = spp.pgsPerOneshotpg := by
  have hpos := w.pgsPerOneshotpg_pos
  have hmod := Nat.mod_lt pg hpos
  have hlast : pg % spp.pgsPerOneshotpg + 1 = spp.pgsPerOneshotpg := by
    by_contra hne
    have := (Radix.succ_div_mod (by omega : pg % spp.pgsPerOneshotpg + 1 < _)).2
    omega
  have hdiv := Nat.div_add_mod pg spp.pgsPerOneshotpg
  exact ⟨by omega, hlast⟩

/-- The pages of the first wordline position. -/
theorem digits_start (w : spp.WellFormed) (ch lun q : Nat) :
    spp.writeDigits ch lun (spp.pgsPerOneshotpg * q) = [0, ch, lun, q] := by
  unfold writeDigits
  rw [Nat.mul_mod_right, Nat.mul_div_cancel_left _ w.pgsPerOneshotpg_pos]

end SsdParams

/-- A write pointer one position further on in the same line. -/
structure WritePointer.Steps (wp wp' : WritePointer) (spp : SsdParams) : Prop where
  inRange : wp'.InRange spp
  curline : wp'.curline = wp.curline
  fill : wp'.fill spp = wp.fill spp + 1

/-- The odometer step, read on the digits. -/
theorem WritePointer.Steps.of_succ {wp wp' : WritePointer} {spp : SsdParams} (w : spp.WellFormed)
    (h : wp.InRange spp) (hcur : wp'.curline = wp.curline) (hblk : wp'.blk = wp.blk)
    (hpl : wp'.pl = wp.pl)
    (hs : Radix.succ (spp.writeDigits wp.ch wp.lun wp.pg) spp.writeBases =
      some (spp.writeDigits wp'.ch wp'.lun wp'.pg)) : wp.Steps wp' spp := by
  obtain ⟨hv, hd⟩ := Radix.value_succ (w.digits_write h.ch h.lun h.pg) hs
  obtain _ | ⟨_, hd⟩ := hd
  obtain _ | ⟨hch, hd⟩ := hd
  obtain _ | ⟨hlun, hd⟩ := hd
  obtain _ | ⟨hpg, _⟩ := hd
  refine ⟨⟨hch, hlun, ?_, hpl.trans h.pl, hblk.trans (h.blk.trans hcur.symm)⟩, hcur, hv⟩
  rw [w.pgsPerBlk_oneshot]
  exact (Nat.div_lt_iff_lt_mul w.pgsPerOneshotpg_pos).mp hpg |>.trans_eq (Nat.mul_comm ..)

/-! ## A step inside the line -/

namespace Core

variable {f : Flash} {place : Nat → Place} {s : Stream}

/-- The pointer catches up with the page that was marked valid. -/
theorem stepWp (c : Core f (some s) place) {wpp : WritePointer} (h : (f.wp s).Steps wpp f.sp) :
    Core { f with wp := Function.update f.wp s wpp } none place ∧
      Flash.writable { f with wp := Function.update f.wp s wpp } = f.writable := by
  have hcur : ∀ s', (Function.update f.wp s wpp s').curline = (f.wp s').curline := by
    intro s'
    by_cases hs : s' = s
    · rw [hs, Function.update_self, h.curline]
    · rw [Function.update_of_ne hs]
  refine ⟨⟨c.ttLines, ?_, ?_, ?_, c.written, c.lineCount, c.blkCount⟩, ?_⟩
  · have he : (fun s' => some (Function.update f.wp s wpp s').curline) =
        fun s' => some (f.wp s').curline := funext fun s' => congrArg some (hcur s')
    show f.lm.Placed _ place
    rw [he]
    exact c.placed
  · intro s'
    by_cases hs : s' = s
    · subst hs
      show (Function.update f.wp s' wpp s').InRange f.sp
      rw [Function.update_self]
      exact h.inRange
    · show (Function.update f.wp s wpp s').InRange f.sp
      rw [Function.update_of_ne hs]
      exact c.inRange s'
  · intro l hl
    have hok := c.lineOk l hl
    cases hpl : place l with
    | opened s' =>
      rw [hpl] at hok
      have hsum : (f.lm.lines l).vpc + (f.lm.lines l).ipc =
          (f.wp s').fill f.sp + (if some s = some s' then 1 else 0) := hok
      show (f.lm.lines l).vpc + (f.lm.lines l).ipc = (Function.update f.wp s wpp s').fill f.sp + 0
      by_cases hs : s' = s
      · subst hs
        rw [Function.update_self, h.fill, hsum, if_pos rfl]
      · rw [Function.update_of_ne hs, hsum, if_neg (fun he => hs (Option.some.inj he).symm)]
    | _ =>
      rw [hpl] at hok
      exact hok
  · refine Flash.writable_congr rfl rfl fun s' => ?_
    unfold Flash.unwritten
    rw [hcur]

/-! ## The end of the line -/

/-- The line of stream `s` is closed into the container `d`, and the pointer has no line. -/
structure Closed (f : Flash) (s : Stream) (place : Nat → Place) (lm : LineMgmt) (d : Place) : Prop where
  closed : d = .full ∨ d = .victim
  placed : lm.Placed (Function.update (fun s => some (f.wp s).curline) s none)
    (Function.update place (f.wp s).curline d)
  kept : LineMgmt.Kept f.lm.lines lm.lines
  ttLines : lm.ttLines = f.lm.ttLines
  freeLineList : lm.freeLineList = f.lm.freeLineList
  lineOk : LineOk f none d (lm.lines (f.wp s).curline)

/-- A full line is put away. -/
theorem closeLine_ensures {E : Fault → Prop} (c : Core f (some s) place)
    (hlast : (f.wp s).fill f.sp + 1 = f.sp.pgsPerLine) :
    Ensures E (f.lm.closeLine f.sp (f.wp s).curline) fun lm => ∃ d, Closed f s place lm d := by
  obtain ⟨hlt, hopen⟩ := c.curline_place s
  have hok := c.lineOk _ hlt
  rw [hopen] at hok
  have hsum : (f.lm.lines (f.wp s).curline).vpc + (f.lm.lines (f.wp s).curline).ipc =
      f.sp.pgsPerLine := by
    have h : _ = (f.wp s).fill f.sp + (if some s = some s then 1 else 0) := hok
    rw [if_pos rfl] at h
    omega
  have hrel := c.placed.release (s := s) (l := (f.wp s).curline) rfl
  refine .ite (fun hv => ?_) fun hv => ?_
  · refine (nvmevAssert_ensures (by omega)).bind fun _ _ => .pure ⟨.full, ?_⟩
    have hadd := hrel.addFull hlt (Function.update_self ..)
    rw [Function.update_idem] at hadd
    exact ⟨.inl rfl, hadd, ⟨fun _ => rfl, fun _ => rfl, fun _ => rfl, fun _ => rfl, fun _ => rfl⟩,
      rfl, rfl, hv, by show (f.lm.lines (f.wp s).curline).ipc = 0; omega⟩
  · have hipc : 0 < (f.lm.lines (f.wp s).curline).ipc := by omega
    refine (nvmevAssert_ensures hipc).bind fun _ _ => .pure ⟨.victim, ?_⟩
    have hadd := hrel.addVictim hlt (Function.update_self ..)
    rw [Function.update_idem] at hadd
    have hkept := f.lm.addVictim_kept (f.wp s).curline
    refine ⟨.inr rfl, hadd, hkept, rfl, rfl, ?_, ?_⟩
    · rw [hkept.ipc]
      exact hipc
    · rw [hkept.vpc, hkept.ipc]
      exact hsum

/-- The instance after the closed line was replaced by the free line `n`. -/
structure Opened (f : Flash) (s : Stream) (place : Nat → Place) (d : Place) (lm : LineMgmt)
    (wpp : WritePointer) : Prop where
  lt : wpp.curline < lm.ttLines
  free : place wpp.curline = .free
  placed : lm.Placed (fun s' => some (Function.update f.wp s wpp s').curline)
    (Function.update (Function.update place (f.wp s).curline d) wpp.curline (.opened s))
  inRange : wpp.InRange f.sp
  fill : wpp.fill f.sp = 0
  kept : LineMgmt.Kept f.lm.lines lm.lines
  ttLines : lm.ttLines = f.lm.ttLines
  length : lm.freeLineList.length + 1 = f.lm.freeLineList.length

/-- The line that is opened is another one. -/
theorem Opened.ne (c : Core f (some s) place) {lm : LineMgmt} {d : Place} {wpp : WritePointer}
    (ho : Opened f s place d lm wpp) : wpp.curline ≠ (f.wp s).curline := by
  intro he
  have hf := ho.free
  rw [he, (c.curline_place s).2] at hf
  cases hf

/-- The two lines that move were not in hand, and are not. -/
theorem Opened.held_iff (c : Core f (some s) place) {lm₁ lm : LineMgmt} {d : Place}
    {wpp : WritePointer} (hc : Closed f s place lm₁ d) (ho : Opened f s place d lm wpp) (l : Nat) :
    Function.update (Function.update place (f.wp s).curline d) wpp.curline (.opened s) l = .held ↔
      place l = .held := by
  by_cases h2 : l = wpp.curline
  · rw [h2, Function.update_self, ho.free]
    exact iff_of_false Place.noConfusion Place.noConfusion
  · rw [Function.update_of_ne h2]
    by_cases h1 : l = (f.wp s).curline
    · rw [h1, Function.update_self, (c.curline_place s).2]
      rcases hc.closed with rfl | rfl <;> exact iff_of_false Place.noConfusion Place.noConfusion
    · rw [Function.update_of_ne h1]

/-- Once the old line is closed, the first free line can be opened. -/
theorem Closed.opened (c : Core f (some s) place) (w : f.sp.WellFormed) {lm₁ lm : LineMgmt}
    {d : Place} {n : Nat} (hc : Closed f s place lm₁ d)
    (hnext : lm₁.getNextFreeLine = some (n, lm)) {wpp : WritePointer}
    (hwpp : wpp = { f.wp s with ch := 0, lun := 0, pg := 0 }) :
    Opened f s place d lm { wpp with curline := n, blk := (lm.lines n).id } := by
  obtain ⟨hnlt, hnfree, htaken, hplaced⟩ := hc.placed.getNextFreeLine_some hnext
  have hnl : n ≠ (f.wp s).curline := by
    rintro rfl
    rw [Function.update_self] at hnfree
    rcases hc.closed with rfl | rfl <;> cases hnfree
  have hassign := hplaced.assign (s := s) (by rw [htaken.ttLines]; exact hnlt)
    (Function.update_self ..) (Function.update_self ..)
  rw [Function.update_idem, Function.update_idem] at hassign
  refine ⟨?_, ?_, ?_, ⟨?_, ?_, ?_, ?_, hplaced.id n⟩, ?_, ?_, ?_, ?_⟩
  · show n < lm.ttLines
    rw [htaken.ttLines]
    exact hnlt
  · rwa [Function.update_of_ne hnl] at hnfree
  · have he : (fun s' => some (Function.update f.wp s
        { wpp with curline := n, blk := (lm.lines n).id } s').curline) =
        Function.update (fun s' => some (f.wp s').curline) s (some n) := by
      funext s'
      by_cases hs : s' = s
      · rw [hs, Function.update_self, Function.update_self]
      · rw [Function.update_of_ne hs, Function.update_of_ne hs]
    rw [he]
    exact hassign
  · rw [hwpp]; exact w.nchs_pos
  · rw [hwpp]; exact w.lunsPerCh_pos
  · rw [hwpp]; exact w.pgsPerBlk_pos
  · rw [hwpp]; exact (c.inRange s).pl
  · rw [hwpp]
    show f.sp.writeIdx 0 0 0 = 0
    simp [SsdParams.writeIdx, SsdParams.writeDigits, SsdParams.writeBases, Radix.value]
  · rw [htaken.lines]; exact hc.kept
  · exact htaken.ttLines.trans hc.ttLines
  · exact htaken.length.trans (congrArg List.length hc.freeLineList)

/-- Closing one line and opening another keeps the invariant. -/
theorem reopen (c : Core f (some s) place) {lm₁ lm : LineMgmt} {d : Place}
    {wpp : WritePointer} (hc : Closed f s place lm₁ d) (ho : Opened f s place d lm wpp) :
    Core { f with lm, wp := Function.update f.wp s wpp } none
      (Function.update (Function.update place (f.wp s).curline d) wpp.curline (.opened s)) := by
  obtain ⟨hlt, hopen⟩ := c.curline_place s
  have hn := ho.ne c
  set place' := Function.update (Function.update place (f.wp s).curline d) wpp.curline (.opened s)
    with hplace'
  have hother : ∀ l, l ≠ (f.wp s).curline → l ≠ wpp.curline → place' l = place l := by
    intro l h1 h2
    rw [hplace', Function.update_of_ne h2, Function.update_of_ne h1]
  have hold : place' (f.wp s).curline = d := by
    rw [hplace', Function.update_of_ne (Ne.symm hn), Function.update_self]
  have hnew : place' wpp.curline = .opened s := by rw [hplace', Function.update_self]
  have hheld : ∀ l, place' l ≠ .held → place l ≠ .held := fun l =>
    (not_congr (ho.held_iff c hc l)).mp
  have hsum : ∀ l, (lm.lines l).vpc + (lm.lines l).ipc =
      (f.lm.lines l).vpc + (f.lm.lines l).ipc := fun l => by rw [ho.kept.vpc, ho.kept.ipc]
  refine ⟨ho.ttLines.trans c.ttLines, ho.placed, ?_, ?_, ?_, ?_, c.blkCount⟩
  · intro s'
    show (Function.update f.wp s wpp s').InRange f.sp
    by_cases hs : s' = s
    · rw [hs, Function.update_self]
      exact ho.inRange
    · rw [Function.update_of_ne hs]
      exact c.inRange s'
  · intro l hl
    have hl' : l < f.lm.ttLines := ho.ttLines ▸ hl
    by_cases h1 : l = (f.wp s).curline
    · rw [h1, hold]
      have hd : LineOk f none d (lm.lines (f.wp s).curline) :=
        hc.lineOk.congr ((ho.kept.vpc _).trans (hc.kept.vpc _).symm)
          ((ho.kept.ipc _).trans (hc.kept.ipc _).symm)
      rcases hc.closed with rfl | rfl <;> exact hd
    · by_cases h2 : l = wpp.curline
      · rw [h2, hnew]
        have hz := c.lineOk l hl'
        rw [h2, ho.free] at hz
        show (lm.lines wpp.curline).vpc + (lm.lines wpp.curline).ipc =
          (Function.update f.wp s wpp s).fill f.sp + 0
        rw [hsum, hz.1, hz.2, Function.update_self, ho.fill]
      · rw [hother l h1 h2]
        have hok := c.lineOk l hl'
        cases hpl : place l with
        | opened s' =>
          rw [hpl] at hok
          have hs : s' ≠ s := by
            rintro rfl
            exact h1 (Option.some.inj (c.placed.cur_eq.mpr ⟨hl', hpl⟩)).symm
          have hcount : (f.lm.lines l).vpc + (f.lm.lines l).ipc =
              (f.wp s').fill f.sp + (if some s = some s' then 1 else 0) := hok
          rw [if_neg (fun he => hs (Option.some.inj he).symm)] at hcount
          show (lm.lines l).vpc + (lm.lines l).ipc =
            (Function.update f.wp s wpp s').fill f.sp + 0
          rw [hsum, hcount, Function.update_of_ne hs]
        | free =>
          rw [hpl] at hok
          exact hok.congr (ho.kept.vpc l) (ho.kept.ipc l)
        | full =>
          rw [hpl] at hok
          exact hok.congr (ho.kept.vpc l) (ho.kept.ipc l)
        | victim =>
          rw [hpl] at hok
          exact hok.congr (ho.kept.vpc l) (ho.kept.ipc l)
        | held => trivial
  · intro p hp hne
    rw [c.written p hp (hheld _ hne)]
    show _ ↔ (lm.lines p.blk).vpc + (lm.lines p.blk).ipc ≤ _
    rw [hsum]
  · intro l hne hl
    show Counted _ _ (lm.lines l).vpc (lm.lines l).ipc
    rw [ho.kept.vpc, ho.kept.ipc]
    exact c.lineCount l (hheld l hne) (ho.ttLines ▸ hl)
/-- The written line has no unwritten page. -/
theorem unwritten_last (c : Core f (some s) place) (w : f.sp.WellFormed)
    (hlast : (f.wp s).fill f.sp + 1 = f.sp.pgsPerLine) : f.unwritten s = 0 := by
  obtain ⟨hlt, hopen⟩ := c.curline_place s
  refine tally_eq_zero fun p hp => ?_
  obtain ⟨hval, hpl⟩ := SsdParams.mem_linePages.mp hp
  have hok := c.lineOk _ hlt
  rw [hopen] at hok
  have hcount : (f.lm.lines (f.wp s).curline).vpc + (f.lm.lines (f.wp s).curline).ipc =
      (f.wp s).fill f.sp + (if some s = some s then 1 else 0) := hok
  rw [if_pos rfl] at hcount
  have hidx := w.writeIdx_lt hval
  rw [Ne, c.written p hval (by rw [hpl, hopen]; exact nofun), hpl]
  omega

/-- All pages of the new line are unwritten, so the number of writable pages stays. -/
theorem writable_reopen (c : Core f (some s) place) (w : f.sp.WellFormed)
    (hlast : (f.wp s).fill f.sp + 1 = f.sp.pgsPerLine) {lm : LineMgmt} {d : Place}
    {wpp : WritePointer} (ho : Opened f s place d lm wpp) :
    Flash.writable { f with lm, wp := Function.update f.wp s wpp } = f.writable := by
  have hother : ∀ s', s' ≠ s → Flash.unwritten
      { f with lm, wp := Function.update f.wp s wpp } s' = f.unwritten s' := by
    intro s' hs
    show tally (f.sp.linePages (Function.update f.wp s wpp s').curline) _ _ = _
    rw [Function.update_of_ne hs]
    rfl
  have hclosed := c.unwritten_last w hlast
  have hfresh : Flash.unwritten { f with lm, wp := Function.update f.wp s wpp } s =
      f.sp.pgsPerLine := by
    have hblk : wpp.curline < f.sp.blksPerPl := by
      rw [← c.ttLines, ← ho.ttLines]
      exact ho.lt
    show tally (f.sp.linePages (Function.update f.wp s wpp s).curline) (pgStatus f.blk) .free = _
    rw [← w.card_linePages hblk, Function.update_self]
    refine tally_eq_card fun p hp => ?_
    obtain ⟨hval, hpl⟩ := SsdParams.mem_linePages.mp hp
    exact c.free_of_free hval (by rw [hpl, ho.free])
  have hmul : f.lm.freeLineList.length * f.sp.pgsPerLine =
      lm.freeLineList.length * f.sp.pgsPerLine + f.sp.pgsPerLine := by
    rw [← ho.length]
    ring
  unfold Flash.writable
  show lm.freeLineList.length * f.sp.pgsPerLine + _ = _
  rw [hmul]
  cases s with
  | userIo =>
    rw [hfresh, hclosed, hother .gcIoHot nofun, hother .gcIoCold nofun]
    ring
  | gcIoHot =>
    rw [hfresh, hclosed, hother .userIo nofun, hother .gcIoCold nofun]
    ring
  | gcIoCold =>
    rw [hfresh, hclosed, hother .userIo nofun, hother .gcIoHot nofun]
    ring

/-- With more than two lines' worth of writable pages, a written line finds a free one. -/
theorem freeLineList_ne_nil (c : Core f (some s) place) (w : f.sp.WellFormed)
    (hlast : (f.wp s).fill f.sp + 1 = f.sp.pgsPerLine)
    (hroom : 2 * f.sp.pgsPerLine < f.writable) : f.lm.freeLineList ≠ [] := by
  intro hnil
  have hle : ∀ s', f.unwritten s' ≤ f.sp.pgsPerLine := by
    intro s'
    have hlt := (c.curline_place s').1
    rw [c.ttLines] at hlt
    exact (tally_le_card ..).trans_eq (w.card_linePages hlt)
  have hzero := c.unwritten_last w hlast
  have h1 := hle .userIo
  have h2 := hle .gcIoHot
  have h3 := hle .gcIoCold
  unfold Flash.writable at hroom
  rw [hnil, List.length_nil, Nat.zero_mul] at hroom
  cases s <;> omega

end Core

/-! ## The function -/

/-- One position further on in the line, or at the start of another line once this one is written. -/
inductive WritePointer.Moves (wp wp' : WritePointer) (spp : SsdParams) : Prop where
  | steps : wp.Steps wp' spp → Moves wp wp' spp
  | reopens : wp.fill spp + 1 = spp.pgsPerLine → wp'.curline ≠ wp.curline → wp'.fill spp = 0 →
    Moves wp wp' spp

/-- The events of a write pointer that was at the line `old` and is at the line `new`. -/
def switched (s : Stream) (old new : Nat) : List FlashEvent :=
  if new = old then [] else [.closed s old, .opened s new]

/-- What `advance_write_pointer` of stream `s` does to the flash bookkeeping. -/
structure Advanced (f : Flash) (s : Stream) (place : Nat → Place) (f' : Flash)
    (place' : Nat → Place) : Prop where
  others : ∀ s', s' ≠ s → f'.wp s' = f.wp s'
  wordline : (f'.wp s).pg % f.sp.pgsPerOneshotpg = ((f.wp s).pg + 1) % f.sp.pgsPerOneshotpg
  core : Core f' none place'
  writable : f'.writable = f.writable
  held : ∀ l, place' l = .held ↔ place l = .held
  kept : LineMgmt.Kept f.lm.lines f'.lm.lines
  moves : (f.wp s).Moves (f'.wp s) f.sp

section Ensures

variable {E : Fault → Prop} {ftl : ConvFtl} {place : Nat → Place} {s : Stream}

/-- The next line is opened, if there is any. -/
theorem openNextLine_ensures (c : Core ftl.flash (some s) place) (w : ftl.ssd.sp.WellFormed)
    (hlast : (ftl.wp s).fill ftl.ssd.sp + 1 = ftl.ssd.sp.pgsPerLine)
    (hword : ((ftl.wp s).pg + 1) % ftl.ssd.sp.pgsPerOneshotpg = 0)
    (hroom : E .nullCurline ∨ 2 * ftl.ssd.sp.pgsPerLine < ftl.flash.writable) {wpp : WritePointer}
    (hwpp : wpp = { ftl.wp s with ch := 0, lun := 0, pg := 0 }) :
    Ensures E (openNextLine ftl s wpp) fun ftl' => ∃ lm wp place',
      ftl' = { ftl.record (switched s (ftl.wp s).curline (wp s).curline) with lm, wp } ∧
      Advanced ftl.flash s place { ftl.flash with lm, wp } place' := by
  have hlt := (c.curline_place s).1
  have hcur : wpp.curline = (ftl.wp s).curline := by rw [hwpp]
  unfold openNextLine
  rw [hcur]
  refine (c.closeLine_ensures hlast).bind fun lm₁ hclosed => ?_
  obtain ⟨d, hc⟩ := hclosed
  have hblk : wpp.blk < ftl.ssd.sp.blksPerPl := by
    rw [hwpp]
    show (ftl.wp s).blk < _
    rw [(c.inRange s).blk, ← c.ttLines]
    exact hlt
  refine (nvmevAssert_ensures hblk).bind fun _ _ => ?_
  cases hnext : lm₁.getNextFreeLine with
  | none =>
    refine .throw (hroom.resolve_right fun hlarge => ?_)
    refine c.freeLineList_ne_nil w hlast hlarge ?_
    rw [← LineMgmt.Placed.getNextFreeLine_none hnext]
    exact hc.freeLineList.symm
  | some next =>
    obtain ⟨n, lm⟩ := next
    have ho := hc.opened c w hnext hwpp
    have hnblk : (lm.lines n).id < ftl.ssd.sp.blksPerPl := by
      have hid : (lm.lines n).id = n := ho.placed.id n
      rw [hid, ← c.ttLines]
      exact ho.ttLines ▸ ho.lt
    refine (nvmevAssert_ensures hnblk).bind fun _ _ => ?_
    refine (nvmevAssert_ensures (by rw [hwpp]; exact ⟨rfl, rfl, rfl, (c.inRange s).pl⟩)).bind
      fun _ _ => ?_
    have hself : Function.update ftl.wp s { wpp with curline := n, blk := (lm.lines n).id } s =
        { wpp with curline := n, blk := (lm.lines n).id } := Function.update_self ..
    have hne : (Function.update ftl.wp s { wpp with curline := n, blk := (lm.lines n).id } s).curline ≠
        (ftl.wp s).curline := by
      rw [hself]
      exact ho.ne c
    have hswitched : switched s (ftl.wp s).curline
        (Function.update ftl.wp s { wpp with curline := n, blk := (lm.lines n).id } s).curline =
          [.closed s (ftl.wp s).curline, .opened s n] := by
      rw [switched, if_neg hne, hself]
    refine .pure ⟨lm, _, _, by rw [hswitched]; rfl, fun s' hs => Function.update_of_ne hs .., ?_, c.reopen hc ho,
      c.writable_reopen w hlast ho, ho.held_iff c hc, ho.kept, .reopens hlast hne ?_⟩
    · show (Function.update ftl.wp s _ s).pg % _ = ((ftl.wp s).pg + 1) % _
      rw [Function.update_self, hword, hwpp]
      exact Nat.zero_mod _
    · show (Function.update ftl.wp s _ s).fill _ = 0
      rw [hself]
      exact ho.fill

/-- `advance_write_pointer` of a pointer in range steps the odometer or, at the last position, opens
the next line. -/
theorem advanceWritePointer_cases (w : ftl.ssd.sp.WellFormed) (r : (ftl.wp s).InRange ftl.ssd.sp) :
    (∃ wpp, (ftl.wp s).Steps wpp ftl.ssd.sp ∧
      wpp.pg % ftl.ssd.sp.pgsPerOneshotpg = ((ftl.wp s).pg + 1) % ftl.ssd.sp.pgsPerOneshotpg ∧
        advanceWritePointer ftl s = pure (ftl.setWp s wpp)) ∨
    ((ftl.wp s).fill ftl.ssd.sp + 1 = ftl.ssd.sp.pgsPerLine ∧
      ((ftl.wp s).pg + 1) % ftl.ssd.sp.pgsPerOneshotpg = 0 ∧
        advanceWritePointer ftl s =
          openNextLine ftl s { ftl.wp s with ch := 0, lun := 0, pg := 0 }) := by
  have hos := w.pgsPerOneshotpg_pos
  unfold advanceWritePointer checkAddr
  dsimp only
  rw [nvmevAssert_holds r.pg, pure_bind]
  by_cases hpage : ((ftl.wp s).pg + 1) % ftl.ssd.sp.pgsPerOneshotpg ≠ 0
  · rw [if_pos hpage]
    refine .inl ⟨{ ftl.wp s with pg := (ftl.wp s).pg + 1 }, .of_succ w r rfl rfl rfl ?_, rfl, rfl⟩
    exact SsdParams.succ_digits_page (SsdParams.page_inside hos hpage)
  rw [if_neg hpage, nvmevAssert_holds r.ch, pure_bind]
  have hword : ((ftl.wp s).pg + 1) % ftl.ssd.sp.pgsPerOneshotpg = 0 := not_not.mp hpage
  obtain ⟨hstart, hlastpg⟩ := SsdParams.wordline_start w hword
  have hfirst : ((ftl.wp s).pg + 1 - ftl.ssd.sp.pgsPerOneshotpg) % ftl.ssd.sp.pgsPerOneshotpg =
      ((ftl.wp s).pg + 1) % ftl.ssd.sp.pgsPerOneshotpg := by
    rw [hstart, Nat.mul_mod_right, hword]
  -- the digits of the pointer: the last page of wordline `q`
  set q := (ftl.wp s).pg / ftl.ssd.sp.pgsPerOneshotpg with hq
  have hdigits : ∀ ch lun, ftl.ssd.sp.writeDigits ch lun
      ((ftl.wp s).pg + 1 - ftl.ssd.sp.pgsPerOneshotpg) = [0, ch, lun, q] := by
    intro ch lun
    rw [hstart, SsdParams.digits_start w]
  have hsucc : Radix.succ (ftl.ssd.sp.writeDigits (ftl.wp s).ch (ftl.wp s).lun (ftl.wp s).pg)
      ftl.ssd.sp.writeBases = (Radix.succ [(ftl.wp s).ch, (ftl.wp s).lun, q]
        [ftl.ssd.sp.nchs, ftl.ssd.sp.lunsPerCh, ftl.ssd.sp.oneshotpgsPerBlk]).map (0 :: ·) := by
    unfold SsdParams.writeDigits SsdParams.writeBases
    rw [Radix.succ, if_neg (by omega)]
  by_cases hch : (ftl.wp s).ch + 1 ≠ ftl.ssd.sp.nchs
  · rw [if_pos hch]
    refine .inl ⟨{ ftl.wp s with
      ch := (ftl.wp s).ch + 1, pg := (ftl.wp s).pg + 1 - ftl.ssd.sp.pgsPerOneshotpg },
      .of_succ w r rfl rfl rfl ?_, hfirst, rfl⟩
    have hlt : (ftl.wp s).ch + 1 < ftl.ssd.sp.nchs := lt_of_le_of_ne r.ch hch
    rw [hsucc, Radix.succ, if_pos hlt]
    exact congrArg some (hdigits _ _).symm
  rw [if_neg hch, nvmevAssert_holds r.lun, pure_bind]
  have hch : ¬ (ftl.wp s).ch + 1 < ftl.ssd.sp.nchs := fun hlt => hch hlt.ne
  by_cases hlun : (ftl.wp s).lun + 1 ≠ ftl.ssd.sp.lunsPerCh
  · rw [if_pos hlun]
    refine .inl ⟨{ ftl.wp s with
      ch := 0, lun := (ftl.wp s).lun + 1, pg := (ftl.wp s).pg + 1 - ftl.ssd.sp.pgsPerOneshotpg },
      .of_succ w r rfl rfl rfl ?_, hfirst, rfl⟩
    have hlt : (ftl.wp s).lun + 1 < ftl.ssd.sp.lunsPerCh := lt_of_le_of_ne r.lun hlun
    rw [hsucc, Radix.succ, if_neg hch, Radix.succ, if_pos hlt]
    exact congrArg some (hdigits _ _).symm
  rw [if_neg hlun]
  have hlun : ¬ (ftl.wp s).lun + 1 < ftl.ssd.sp.lunsPerCh := fun hlt => hlun hlt.ne
  have hnext : (ftl.wp s).pg + 1 - ftl.ssd.sp.pgsPerOneshotpg + ftl.ssd.sp.pgsPerOneshotpg =
      ftl.ssd.sp.pgsPerOneshotpg * (q + 1) := by
    rw [hstart, Nat.mul_add, Nat.mul_one]
  have hqlt : q < ftl.ssd.sp.oneshotpgsPerBlk := by
    refine Nat.div_lt_of_lt_mul ?_
    rw [← w.pgsPerBlk_oneshot]
    exact r.pg
  by_cases hpg : (ftl.wp s).pg + 1 - ftl.ssd.sp.pgsPerOneshotpg + ftl.ssd.sp.pgsPerOneshotpg ≠
      ftl.ssd.sp.pgsPerBlk
  · rw [if_pos hpg]
    refine .inl ⟨{ ftl.wp s with
      ch := 0, lun := 0,
      pg := (ftl.wp s).pg + 1 - ftl.ssd.sp.pgsPerOneshotpg + ftl.ssd.sp.pgsPerOneshotpg },
      .of_succ w r rfl rfl rfl ?_, ?_, rfl⟩
    · have hlt : q + 1 < ftl.ssd.sp.oneshotpgsPerBlk := by
        refine lt_of_le_of_ne hqlt fun he => hpg ?_
        rw [hnext, he, ← w.pgsPerBlk_oneshot]
      rw [hsucc, Radix.succ, if_neg hch, Radix.succ, if_neg hlun, Radix.succ, if_pos hlt]
      show _ = some (ftl.ssd.sp.writeDigits 0 0 (_ - _ + _))
      rw [hnext, SsdParams.digits_start w]
      rfl
    · show ((ftl.wp s).pg + 1 - _ + _) % _ = _
      rw [hnext, Nat.mul_mod_right, hword]
  · rw [if_neg hpg]
    have hend : ¬ q + 1 < ftl.ssd.sp.oneshotpgsPerBlk := by
      intro hlt
      have hpg' := not_not.mp hpg
      rw [hnext, w.pgsPerBlk_oneshot] at hpg'
      exact hlt.ne (Nat.eq_of_mul_eq_mul_left hos hpg')
    have hnone : Radix.succ (ftl.ssd.sp.writeDigits (ftl.wp s).ch (ftl.wp s).lun (ftl.wp s).pg)
        ftl.ssd.sp.writeBases = none := by
      rw [hsucc, Radix.succ, if_neg hch, Radix.succ, if_neg hlun, Radix.succ, if_neg hend]
      rfl
    have hlast := Radix.value_last (w.digits_write r.ch r.lun r.pg) hnone
    rw [w.prod_writeBases] at hlast
    exact .inr ⟨hlast, hword, rfl⟩

/-- `advance_write_pointer` keeps the invariant; it needs room only at the end of a line. -/
theorem advanceWritePointer_ensures (c : Core ftl.flash (some s) place)
    (w : ftl.ssd.sp.WellFormed)
    (hroom : E .nullCurline ∨ 2 * ftl.ssd.sp.pgsPerLine < ftl.flash.writable) :
    Ensures E (advanceWritePointer ftl s) fun ftl' => ∃ lm wp place',
      ftl' = { ftl.record (switched s (ftl.wp s).curline (wp s).curline) with lm, wp } ∧
      Advanced ftl.flash s place { ftl.flash with lm, wp } place' := by
  obtain ⟨wpp, hsteps, hword, hrun⟩ | ⟨hlast, hword, hrun⟩ :=
    advanceWritePointer_cases w (c.inRange s)
  · rw [hrun]
    obtain ⟨hcore, hw⟩ := c.stepWp hsteps
    have hself : (Function.update ftl.wp s wpp s).pg % ftl.ssd.sp.pgsPerOneshotpg =
        ((ftl.wp s).pg + 1) % ftl.ssd.sp.pgsPerOneshotpg := by
      rw [Function.update_self]
      exact hword
    have hmoved : (ftl.wp s).Steps (Function.update ftl.wp s wpp s) ftl.ssd.sp := by
      rw [Function.update_self]
      exact hsteps
    have hcurline : (Function.update ftl.wp s wpp s).curline = (ftl.wp s).curline := by
      rw [Function.update_self]
      exact hsteps.curline
    have hstay : ftl.setWp s wpp =
        { ftl.record (switched s (ftl.wp s).curline (Function.update ftl.wp s wpp s).curline) with
          wp := Function.update ftl.wp s wpp } := by
      rw [switched, if_pos hcurline, ConvFtl.record, List.append_nil]
      rfl
    exact .pure ⟨ftl.lm, _, place, hstay, fun s' hs' => Function.update_of_ne hs' .., hself, hcore, hw,
      fun _ => Iff.rfl, ⟨fun _ => rfl, fun _ => rfl, fun _ => rfl, fun _ => rfl, fun _ => rfl⟩,
      .steps hmoved⟩
  · rw [hrun]
    exact openNextLine_ensures c w hlast hword hroom rfl

end Ensures

end NvmeVirt

import NvmeVirt.Conv.Init
import NvmeVirt.Laws.Conv.DoGc

/-!
# Initialisation establishes the invariant

`conv_init_ftl` puts every line on the free list and then opens one for each of the three write
pointers. `Prepared` is the invariant of that sequence; with all three pointers prepared it is
`Settled`.

`Fresh` lists what the rest of the development knows of a new instance, its tables and statistics
included.
-/

set_option autoImplicit false

namespace NvmeVirt

open Outcome

/-- A write pointer at the start of the line `l`. -/
def WritePointer.start (l : Nat) : WritePointer :=
  { curline := l, ch := 0, lun := 0, pg := 0, blk := l, pl := 0 }

/-- Some write pointers are prepared, `cur` says at which line; the other lines are free and nothing
was written. -/
structure Prepared (spp : SsdParams) (lm : LineMgmt) (wp : Stream → WritePointer)
    (cur : Stream → Option Nat) (n : Nat) : Prop where
  placed : ∃ place, lm.Placed cur place ∧ ∀ l, place l = .free ∨ ∃ s, place l = .opened s
  ttLines : lm.ttLines = spp.ttLines
  empty : ∀ l, (lm.lines l).vpc = 0 ∧ (lm.lines l).ipc = 0
  unerased : ∀ l, (lm.lines l).eraseCnt = 0
  wp : ∀ s l, cur s = some l → wp s = .start l
  length : lm.freeLineList.length + n = spp.ttLines

/-- No pointer is prepared, and every line is free. -/
theorem initLines_prepared (spp : SsdParams) (wp : Stream → WritePointer) :
    Prepared spp (initLines spp) wp (fun _ => none) 0 where
  placed := by
    refine ⟨fun _ => .free, ⟨⟨fun _ => rfl, List.nodup_range, List.nodup_nil, ?_, ?_, rfl, rfl⟩, ?_⟩,
      fun _ => .inl rfl⟩
    · refine ⟨Nat.zero_lt_one, fun i hi hlt => ?_, fun _ _ _ h => h, fun _ _ h => absurd rfl h,
        fun i hi hlt => ?_⟩
      · exact absurd (hi.trans_le (Nat.le_of_lt_succ hlt)) (Nat.lt_irrefl 0)
      · exact absurd hlt (Nat.not_lt.mpr hi.le)
    · exact List.length_range.symm
    · intro i c
      cases c with
      | free => simp [LineMgmt.Holds, initLines]
      | full => simp [LineMgmt.Holds, initLines]
      | victim => simp [LineMgmt.Holds, initLines]
      | opened s => simp [LineMgmt.Holds]
      | held => simp [LineMgmt.Holds]
  ttLines := rfl
  empty _ := ⟨rfl, rfl⟩
  unerased _ := rfl
  wp _ _ h := nomatch h
  length := List.length_range

namespace Prepared

variable {spp : SsdParams} {lm : LineMgmt} {wp : Stream → WritePointer} {cur : Stream → Option Nat}
  {n : Nat}

/-- One more write pointer takes the first free line. -/
theorem prepare (h : Prepared spp lm wp cur n) {s : Stream} (hs : cur s = none) {lm' : LineMgmt}
    {l : Nat} (hg : lm.getNextFreeLine = some (l, lm')) :
    Prepared spp lm' (Function.update wp s (lm'.openWp l)) (Function.update cur s (some l)) (n + 1) := by
  obtain ⟨place, hp, hplace⟩ := h.placed
  obtain ⟨hlt, hfree, htaken, hheld⟩ := hp.getNextFreeLine_some hg
  have hassign := hheld.assign (l := l) (by rw [htaken.ttLines]; exact hlt)
    (Function.update_self ..) hs
  rw [Function.update_idem] at hassign
  refine ⟨⟨_, hassign, fun i => ?_⟩, htaken.ttLines.trans h.ttLines, ?_, ?_, fun s' i hi => ?_, ?_⟩
  · by_cases hi : i = l
    · rw [hi, Function.update_self]
      exact .inr ⟨s, rfl⟩
    · rw [Function.update_of_ne hi]
      exact hplace i
  · rw [htaken.lines]
    exact h.empty
  · rw [htaken.lines]
    exact h.unerased
  · by_cases hss : s' = s
    · subst hss
      rw [Function.update_self] at hi ⊢
      cases hi
      unfold LineMgmt.openWp WritePointer.start
      rw [hheld.id l]
    · rw [Function.update_of_ne hss] at hi ⊢
      exact h.wp s' i hi
  · have := htaken.length
    have := h.length
    omega

/-- The first page of a line is its position 0. -/
theorem fill_start (w : spp.WellFormed) (l : Nat) : (WritePointer.start l).fill spp = 0 := by
  have hpos := w.pgsPerOneshotpg_pos
  simp [WritePointer.fill, WritePointer.start, SsdParams.writeIdx, SsdParams.writeDigits,
    SsdParams.writeBases, Radix.value]

/-- With all pointers prepared on a blank flash the bookkeeping is right. -/
theorem core (h : Prepared spp lm wp cur n) (w : spp.WellFormed) (hall : ∀ s, (cur s).isSome)
    {blk : BlkId → NandBlock}
    (hblank : ∀ b, blk b = { pg := fun _ => .free, ipc := 0, vpc := 0, eraseCnt := 0 }) :
    ∃ place, Core ⟨spp, blk, lm, wp⟩ none place ∧ ∀ l, place l ≠ .held := by
  obtain ⟨place, hp, hplace⟩ := h.placed
  have hcur : ∀ s, wp s = .start (wp s).curline ∧ cur s = some (wp s).curline := by
    intro s
    obtain ⟨l, hl⟩ := Option.isSome_iff_exists.mp (hall s)
    rw [h.wp s l hl]
    exact ⟨rfl, hl⟩
  have hfree : ∀ p, pgStatus blk p = .free := by
    intro p
    unfold pgStatus
    rw [hblank]
  have hheld : ∀ l, place l ≠ .held := by
    intro l
    rcases hplace l with hl | ⟨s, hl⟩
    · rw [hl]; exact nofun
    · rw [hl]; exact nofun
  refine ⟨place, ⟨?_, ?_, fun s => ?_, fun l hl => ?_, fun p _ _ => ?_, fun l _ _ => ?_, fun b => ?_⟩,
    hheld⟩
  · exact h.ttLines.trans w.ttLines_eq
  · have hc : (fun s => some (wp s).curline) = cur := funext fun s => (hcur s).2.symm
    show lm.Placed (fun s => some (wp s).curline) place
    rw [hc]
    exact hp
  · show (wp s).InRange spp
    rw [(hcur s).1]
    exact ⟨w.nchs_pos, w.lunsPerCh_pos, w.pgsPerBlk_pos, rfl, rfl⟩
  · obtain ⟨hv, hi⟩ := h.empty l
    rcases hplace l with hl | ⟨s, hl⟩
    · rw [hl]
      exact ⟨hv, hi⟩
    · rw [hl]
      show (lm.lines l).vpc + (lm.lines l).ipc = (wp s).fill spp + 0
      rw [hv, hi, (hcur s).1, fill_start w]
  · refine iff_of_true (hfree p) ?_
    show (lm.lines p.blk).vpc + (lm.lines p.blk).ipc ≤ _
    rw [(h.empty p.blk).1, (h.empty p.blk).2]
    exact Nat.zero_le _
  · show Counted _ _ (lm.lines l).vpc (lm.lines l).ipc
    rw [(h.empty l).1, (h.empty l).2]
    exact .of_free fun p _ => hfree p
  · show Counted _ _ (blk b).vpc (blk b).ipc
    rw [hblank]
    exact .of_free fun p _ => hfree p

/-- All pages can be written. -/
theorem writable (h : Prepared spp lm wp cur 3) (w : spp.WellFormed) (hall : ∀ s, (cur s).isSome)
    {blk : BlkId → NandBlock}
    (hblank : ∀ b, blk b = { pg := fun _ => .free, ipc := 0, vpc := 0, eraseCnt := 0 }) :
    Flash.writable ⟨spp, blk, lm, wp⟩ = spp.ttLines * spp.pgsPerLine := by
  obtain ⟨place, c, _⟩ := h.core w hall hblank
  have hone : ∀ s, Flash.unwritten ⟨spp, blk, lm, wp⟩ s = spp.pgsPerLine := by
    intro s
    have hlt := (c.curline_place s).1
    rw [c.ttLines] at hlt
    refine (tally_eq_card fun p _ => ?_).trans (w.card_linePages hlt)
    show pgStatus blk p = .free
    unfold pgStatus
    rw [hblank]
  unfold Flash.writable
  rw [hone, hone, hone, ← h.length]
  ring

end Prepared

/-! ## `conv_init_ftl` -/

/-- A fresh instance. -/
structure Fresh (cp : ConvParams) (spp : SsdParams) (ftl : ConvFtl) : Prop where
  settled : Settled ftl
  sp : ftl.ssd.sp = spp
  cp : ftl.cp = cp
  maptbl : ∀ l, ftl.maptbl l = none
  wfc : ftl.wfc = initWriteFlowControl spp
  writable : ftl.flash.writable = spp.ttLines * spp.pgsPerLine
  wp : ∀ s, (ftl.wp s).pg = 0
  hostWrittenPages : ftl.hostWrittenPages = 0
  gcCopiedPages : ftl.gcCopiedPages = 0
  gcCount : ftl.gcCount = 0
  lineErase : ∀ l, (ftl.lm.lines l).eraseCnt = 0
  blkErase : ∀ b, (ftl.ssd.blk b).eraseCnt = 0
  wgs : ftl.wgs = initWearGap
  ssd : ftl.ssd = ssdInit spp
  fill : ∀ s, (ftl.wp s).fill spp = 0
  trace : ftl.trace = [.userIo, .gcIoHot, .gcIoCold].map fun s => .opened s (ftl.wp s).curline

section Ensures

variable {E : Fault → Prop} {ftl : ConvFtl} {spp : SsdParams} {cur : Stream → Option Nat} {n : Nat}

/-- One pointer more. -/
theorem prepareWritePointer_ensures (h : Prepared spp ftl.lm ftl.wp cur n) {s : Stream}
    (hs : cur s = none) (hlines : E .bugOn ∨ n < spp.ttLines) :
    Ensures E (prepareWritePointer ftl s) fun r => ∃ lm wp l,
      r = { ftl.record [.opened s l] with lm, wp } ∧
      Prepared spp lm wp (Function.update cur s (some l)) (n + 1) := by
  unfold prepareWritePointer
  cases hg : ftl.lm.getNextFreeLine with
  | none =>
    refine .throw (hlines.resolve_right fun hlt => ?_)
    have hnil := LineMgmt.Placed.getNextFreeLine_none hg
    have hlen := h.length
    rw [hnil, List.length_nil] at hlen
    omega
  | some r =>
    obtain ⟨l, lm⟩ := r
    exact .pure ⟨lm, _, l, rfl, h.prepare hs hg⟩

/-- `conv_init_ftl` on a blank device with at least three lines. -/
theorem convInitFtl_ensures {spp : SsdParams} (w : spp.WellFormed) (cp : ConvParams)
    (hlines : E .bugOn ∨ 3 ≤ spp.ttLines) :
    Ensures E (convInitFtl cp (ssdInit spp)) (Fresh cp spp) := by
  unfold convInitFtl
  have h₀ : Prepared spp (convFtlTables cp (ssdInit spp)).lm (convFtlTables cp (ssdInit spp)).wp
    (fun _ => none) 0 := initLines_prepared spp _
  refine (prepareWritePointer_ensures h₀ rfl (hlines.imp_right fun _ => by omega)).bind ?_
  rintro _ ⟨lm₁, wp₁, l₁, rfl, h₁⟩
  refine Ensures.bind (prepareWritePointer_ensures h₁ rfl (hlines.imp_right fun _ => by omega)) ?_
  rintro _ ⟨lm₂, wp₂, l₂, rfl, h₂⟩
  refine Ensures.mono (prepareWritePointer_ensures h₂ rfl (hlines.imp_right fun _ => by omega)) ?_
  rintro _ ⟨lm₃, wp₃, l₃, rfl, h₃⟩
  have hall : ∀ s, (Function.update (Function.update (Function.update (fun _ => none)
      Stream.userIo (some l₁)) Stream.gcIoHot (some l₂)) Stream.gcIoCold (some l₃) s).isSome := by
    intro s
    cases s <;> rfl
  have hmapped : Mapped spp (ssdInit spp).blk (fun _ => none) (fun _ => invalidLpn) fun _ => False :=
    ⟨nofun, nofun, nofun, fun p hp => nomatch hp.2.1⟩
  have hstart : ∀ s, ∃ l, wp₃ s = .start l := by
    intro s
    obtain ⟨l, hl⟩ := Option.isSome_iff_exists.mp (hall s)
    exact ⟨l, h₃.wp s l hl⟩
  refine ⟨⟨w, h₃.core w hall fun _ => rfl, hmapped, ssdInit_timed spp⟩, rfl, rfl, fun _ => rfl, rfl,
    h₃.writable w hall fun _ => rfl, fun s => ?_, rfl, rfl, rfl, h₃.unerased, fun _ => rfl,
    rfl, rfl, fun s => ?_, ?_⟩
  · obtain ⟨l, hl⟩ := hstart s
    exact congrArg WritePointer.pg hl
  · obtain ⟨l, hl⟩ := hstart s
    exact (congrArg (fun wp : WritePointer => wp.fill spp) hl).trans (Prepared.fill_start w l)
  · have hcur : ∀ s l, _ → (wp₃ s).curline = l := fun s l hl => congrArg WritePointer.curline (h₃.wp s l hl)
    show [FlashEvent.opened .userIo l₁, .opened .gcIoHot l₂, .opened .gcIoCold l₃] =
      [.opened .userIo (wp₃ .userIo).curline, .opened .gcIoHot (wp₃ .gcIoHot).curline,
        .opened .gcIoCold (wp₃ .gcIoCold).curline]
    rw [hcur .userIo l₁ rfl, hcur .gcIoHot l₂ rfl, hcur .gcIoCold l₃ rfl]

end Ensures

end NvmeVirt

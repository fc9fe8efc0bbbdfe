import NvmeVirt.Ssd.Params
import NvmeVirt.Ssd.Channel

/-!
# The flash array and its timing (`ssd.h`, `ssd.c`)

An address `Ppa` is the bit field structure of `struct ppa`; its part above the page number is
`h.blk_in_ssd`, the key of a block. `ssdAdvanceNand` moves the clocks of the LUN and the channel a
command uses and never looks at the pages; `issued` keeps the commands it was given, newest first,
which is what an observer of the flash bus would see.

Times are numbers of nanoseconds in 64 bits, and `cmd_stime` of 0 reads the clock. A command for an
unmapped address and an unknown opcode do not occur; the sector states and the busy flags are read
by nothing and are left out.
-/

set_option autoImplicit false

namespace NvmeVirt

open Outcome

/-! ## Addresses -/

/-- `h.blk_in_ssd`: channel, LUN, plane and block. -/
structure BlkId where
  ch : Nat
  lun : Nat
  pl : Nat
  blk : Nat
  deriving DecidableEq, Repr

/-- A mapped `struct ppa`. `UNMAPPED_PPA` is `none` wherever an entry may be unmapped. -/
structure Ppa extends BlkId where
  pg : Nat
  deriving DecidableEq, Repr

/-- Write the fields `g.ch`, …, `g.pg`: each keeps the bits it has. -/
def Ppa.ofFields (ch lun pl blk pg : Nat) : Ppa :=
  { ch := ch % 2 ^ 8, lun := lun % 2 ^ 8, pl := pl % 2 ^ 8, blk := blk % 2 ^ 16, pg := pg % 2 ^ 16 }

/-! ## Pages, blocks, LUNs -/

/-- `PG_FREE`, `PG_INVALID`, `PG_VALID`. -/
inductive PgStatus where
  | free | invalid | valid
  deriving DecidableEq, Repr

structure NandBlock where
  pg : Nat → PgStatus
  ipc : Nat
  vpc : Nat
  eraseCnt : Nat

structure NandLun where
  nextLunAvailTime : Nat
  gcEndtime : Nat

/-- Who issued a flash command. -/
inductive IoType where
  | userIo | gcIo
  deriving DecidableEq, Repr

inductive NandOp where
  | read | write | erase | nop
  deriving DecidableEq, Repr

structure NandCmd where
  type : IoType
  cmd : NandOp
  xferSize : Nat
  stime : Nat
  interleavePciDma : Bool
  ppa : Ppa
  deriving DecidableEq, Repr

structure Ssd where
  sp : SsdParams
  blk : BlkId → NandBlock
  lun : Nat → Nat → NandLun
  perfModel : Nat → ChannelModel
  pcie : ChannelModel
  issued : List NandCmd

namespace Ssd

variable (ssd : Ssd)

def getBlk (ppa : Ppa) : NandBlock := ssd.blk ppa.toBlkId
def getPg (ppa : Ppa) : PgStatus := (ssd.getBlk ppa).pg ppa.pg
def getLun (ppa : Ppa) : NandLun := ssd.lun ppa.ch ppa.lun

/-- `get_cell`. -/
def getCell (ppa : Ppa) : CellType :=
  cellType (ppa.pg / ssd.sp.pgsPerFlashpg % ssd.sp.cellMode)

/-- Write through `get_blk`. -/
def setBlk (b : BlkId) (blk : NandBlock) : Ssd :=
  { ssd with blk := Function.update ssd.blk b blk }

/-- Write through `get_lun`. -/
def setLun (ch lun : Nat) (l : NandLun) : Ssd :=
  { ssd with lun := Function.update ssd.lun ch (Function.update (ssd.lun ch) lun l) }

/-- Write `perf_model` of a channel. -/
def setPerfModel (ch : Nat) (m : ChannelModel) : Ssd :=
  { ssd with perfModel := Function.update ssd.perfModel ch m }

end Ssd

/-- `ssd_init`: every page free, every clock at zero. -/
def ssdInit (spp : SsdParams) : Ssd where
  sp := spp
  blk := fun _ => { pg := fun _ => .free, ipc := 0, vpc := 0, eraseCnt := 0 }
  lun := fun _ _ => { nextLunAvailTime := 0, gcEndtime := 0 }
  perfModel := fun _ =>
    let m := chmodelInit spp.chBandwidth
    { m with xferLat := m.xferLat + spp.fwChXferLat * unitXferSize / kb 4 }
  pcie := chmodelInit spp.pcieBandwidth
  issued := []

/-! ## Timing -/

/-- `ssd_advance_pcie`. -/
def ssdAdvancePcie (ssd : Ssd) (requestTime length : Nat) : FtlM (Ssd × Nat) := do
  let (pcie, t) ← chmodelRequest ssd.pcie requestTime length
  pure ({ ssd with pcie }, t)

/-- `ssd_advance_write_buffer`. -/
def ssdAdvanceWriteBuffer (ssd : Ssd) (requestTime length : Nat) : FtlM (Ssd × Nat) :=
  ssdAdvancePcie ssd
    (u64 (requestTime + ssd.sp.fwWbufLat0 + ssd.sp.fwWbufLat1 * divRoundUp length (kb 4))) length

/-- One piece of a read on its way out: over the channel and, interleaved, over PCIe. -/
def readPiece (ssd : Ssd) (ncmd : NandCmd) (chnlStime xferSize : Nat) :
    FtlM (Ssd × Nat × Nat) := do
  let (m, chnlEtime) ← chmodelRequest (ssd.perfModel ncmd.ppa.ch) chnlStime xferSize
  let ssd := ssd.setPerfModel ncmd.ppa.ch m
  if ncmd.interleavePciDma = true then
    let (ssd, completed) ← ssdAdvancePcie ssd chnlEtime xferSize
    pure (ssd, chnlEtime, completed)
  else
    pure (ssd, chnlEtime, chnlEtime)

/-- The `while (remaining)` loop of a read: the end of the last channel transfer and the completion
time. Each pass takes at least one byte off `remaining`, so `remaining` passes are enough. -/
def readXfer (ncmd : NandCmd) :
    Nat → Ssd → (remaining chnlStime : Nat) → (ends : Nat × Nat) → FtlM (Ssd × Nat × Nat)
  | 0, ssd, _, _, ends => pure (ssd, ends)
  | passes + 1, ssd, remaining, chnlStime, ends =>
    if remaining = 0 then pure (ssd, ends)
    else do
      let xferSize := min remaining ssd.sp.maxChXferSize
      let (ssd, chnlEtime, completed) ← readPiece ssd ncmd chnlStime xferSize
      readXfer ncmd passes ssd (remaining - xferSize) chnlEtime (chnlEtime, completed)

/-- `cmd_stime`: the start time of the command, or now. -/
def nandCmdStime (ncmd : NandCmd) : FtlM Nat :=
  if ncmd.stime = 0 then cpuClock else pure ncmd.stime

/-- `ssd_advance_nand`: the device after the command, and the time it completes. A read of no bytes
leaves the source's end times uninitialised; they are 0 here. -/
def ssdAdvanceNand (ssd : Ssd) (ncmd : NandCmd) : FtlM (Ssd × Nat) := do
  let cmdStime ← nandCmdStime ncmd
  let ssd := { ssd with issued := ncmd :: ssd.issued }
  let ppa := ncmd.ppa
  let lun := ssd.getLun ppa
  let cell := ssd.getCell ppa
  let start := max lun.nextLunAvailTime cmdStime
  match ncmd.cmd with
  | .read =>
    let lat := if ncmd.xferSize = 4096 then ssd.sp.pg4kbRdLat cell else ssd.sp.pgRdLat cell
    let (ssd, chnlEtime, completed) ←
      readXfer ncmd ncmd.xferSize ssd ncmd.xferSize (u64 (start + lat)) (0, 0)
    pure (ssd.setLun ppa.ch ppa.lun { lun with nextLunAvailTime := chnlEtime }, completed)
  | .write =>
    let (m, chnlEtime) ← chmodelRequest (ssd.perfModel ppa.ch) start ncmd.xferSize
    let nandEtime := u64 (chnlEtime + ssd.sp.pgWrLat)
    pure ((ssd.setPerfModel ppa.ch m).setLun ppa.ch ppa.lun
      { lun with nextLunAvailTime := nandEtime }, nandEtime)
  | .erase =>
    let nandEtime := u64 (start + ssd.sp.blkErLat)
    pure (ssd.setLun ppa.ch ppa.lun { lun with nextLunAvailTime := nandEtime }, nandEtime)
  | .nop =>
    pure (ssd.setLun ppa.ch ppa.lun { lun with nextLunAvailTime := start }, start)

/-- `ssd_next_idle_time`. -/
def ssdNextIdleTime (ssd : Ssd) : FtlM Nat := do
  let now ← cpuClock
  pure ((List.range ssd.sp.nchs).foldl (fun latest i =>
    (List.range ssd.sp.lunsPerCh).foldl (fun latest j =>
      max latest (ssd.lun i j).nextLunAvailTime) latest) now)

/-! ## The timing never touches the flash pages -/

/-- The bandwidth models of the device are in their windows. -/
structure Ssd.Timed (ssd : Ssd) : Prop where
  channels : ∀ c, (ssd.perfModel c).InWindow
  pcie : ssd.pcie.InWindow

/-- What a timing function leaves of the device: the parameters and the flash array, with the
bandwidth models still in their windows. -/
structure Ssd.SameFlash (ssd ssd' : Ssd) : Prop where
  sp : ssd'.sp = ssd.sp
  blk : ssd'.blk = ssd.blk
  timed : ssd'.Timed

theorem ssdInit_timed (spp : SsdParams) : (ssdInit spp).Timed :=
  ⟨fun _ => (chmodelInit_inWindow spp.chBandwidth).withXferLat _, chmodelInit_inWindow _⟩

theorem Ssd.SameFlash.trans {a b c : Ssd} (h : a.SameFlash b) (h' : b.SameFlash c) : a.SameFlash c :=
  ⟨h'.sp.trans h.sp, h'.blk.trans h.blk, h'.timed⟩

theorem Ssd.Timed.setLun {ssd : Ssd} (h : ssd.Timed) (ch lun : Nat) (l : NandLun) :
    ssd.SameFlash (ssd.setLun ch lun l) := ⟨rfl, rfl, h.channels, h.pcie⟩

theorem Ssd.Timed.setPerfModel {ssd : Ssd} (h : ssd.Timed) (ch : Nat) {m : ChannelModel}
    (hm : m.InWindow) : ssd.SameFlash (ssd.setPerfModel ch m) := by
  refine ⟨rfl, rfl, fun c => ?_, h.pcie⟩
  by_cases hc : c = ch
  · subst hc
    simpa [Ssd.setPerfModel] using hm
  · simpa [Ssd.setPerfModel, hc] using h.channels c

section Ensures

variable {E : Fault → Prop}

theorem ssdAdvancePcie_ensures {ssd : Ssd} (h : ssd.Timed) (requestTime length : Nat) :
    Ensures E (ssdAdvancePcie ssd requestTime length) (fun r => ssd.SameFlash r.1) :=
  (chmodelRequest_ensures h.pcie _ _).bind fun _ hm => .pure ⟨rfl, rfl, h.channels, hm⟩

theorem ssdAdvanceWriteBuffer_ensures {ssd : Ssd} (h : ssd.Timed) (requestTime length : Nat) :
    Ensures E (ssdAdvanceWriteBuffer ssd requestTime length) (fun r => ssd.SameFlash r.1) :=
  ssdAdvancePcie_ensures h _ _

theorem readPiece_ensures {ssd : Ssd} (h : ssd.Timed) (ncmd : NandCmd) (chnlStime xferSize : Nat) :
    Ensures E (readPiece ssd ncmd chnlStime xferSize) (fun r => ssd.SameFlash r.1) := by
  refine (chmodelRequest_ensures (h.channels _) _ _).bind fun r hr => ?_
  have hset := h.setPerfModel ncmd.ppa.ch hr
  refine .ite (fun _ => ?_) fun _ => .pure hset
  exact (ssdAdvancePcie_ensures hset.timed _ _).bind fun _ hp => .pure (hset.trans hp)

theorem readXfer_ensures (ncmd : NandCmd) :
    ∀ (passes : Nat) {ssd : Ssd}, ssd.Timed → ∀ (remaining chnlStime : Nat) (ends : Nat × Nat),
      Ensures E (readXfer ncmd passes ssd remaining chnlStime ends) (fun r => ssd.SameFlash r.1)
  | 0, _, h, _, _, _ => .pure ⟨rfl, rfl, h⟩
  | passes + 1, ssd, h, remaining, chnlStime, ends => by
    unfold readXfer
    refine .ite (fun _ => .pure ⟨rfl, rfl, h⟩) fun _ => ?_
    refine (readPiece_ensures h ncmd _ _).bind fun r hr => ?_
    exact (readXfer_ensures ncmd passes hr.timed _ _ _).mono fun _ h' => hr.trans h'

theorem nandCmdStime_ensures (ncmd : NandCmd) : Ensures E (nandCmdStime ncmd) (fun _ => True) :=
  .ite (fun _ => cpuClock_ensures) fun _ => .pure trivial

theorem ssdAdvanceNand_ensures {ssd : Ssd} (h : ssd.Timed) (ncmd : NandCmd) :
    Ensures E (ssdAdvanceNand ssd ncmd) (fun r => ssd.SameFlash r.1) := by
  unfold ssdAdvanceNand
  refine (nandCmdStime_ensures ncmd).bind fun cmdStime _ => ?_
  have hi : ({ ssd with issued := ncmd :: ssd.issued } : Ssd).Timed := ⟨h.channels, h.pcie⟩
  cases ncmd.cmd with
  | read =>
    refine (readXfer_ensures ncmd _ hi _ _ _).bind fun r hr => .pure ?_
    have hsame : ssd.SameFlash r.1 := ⟨hr.sp, hr.blk, hr.timed⟩
    exact hsame.trans (hr.timed.setLun ..)
  | write =>
    refine (chmodelRequest_ensures (hi.channels _) _ _).bind fun r hr => .pure ?_
    have hset := hi.setPerfModel ncmd.ppa.ch hr
    exact ⟨rfl, rfl, hset.timed.channels, hset.timed.pcie⟩
  | erase => exact .pure ⟨rfl, rfl, hi.channels, hi.pcie⟩
  | nop => exact .pure ⟨rfl, rfl, hi.channels, hi.pcie⟩

theorem ssdNextIdleTime_ensures (ssd : Ssd) :
    Ensures E (ssdNextIdleTime ssd) (fun _ => True) :=
  cpuClock_ensures.bind fun _ _ => .pure trivial

end Ensures

end NvmeVirt

import NvmeVirt.Pqueue
import NvmeVirt.Ssd.Nand
import NvmeVirt.Ssd.Buffer

/-!
# The state of a conventional FTL instance (`conv_ftl.h`)

A line is one block of every LUN. A pointer to a line is its index in `lines`, so the lists, the
victim queue and the write pointers hold indices. The counters that only grow (`erase_cnt`,
`update_cnt`, the statistics) and the page counts of a line are natural numbers; the arithmetic
whose wrapping the code can meet (scores, hot degrees, write credits, the learner) is written out
at its width.
-/

set_option autoImplicit false

namespace NvmeVirt

/-- `INVALID_LPN`. -/
def invalidLpn : Nat := 2 ^ 64 - 1

/-! ## Lines -/

structure Line where
  id : Nat
  ipc : Nat
  vpc : Nat
  pos : Nat
  lastModifiedTime : Nat
  eraseCnt : Nat
  deriving DecidableEq, Repr

/-- The lines array, as the queue callbacks reach it. -/
abbrev Lines := Nat → Line

/-- The callbacks given to `pqueue_init`: the priority is `vpc`, and the smaller one goes up. -/
def victimLine : Callbacks Lines Nat where
  cmppri next curr := decide (curr < next)
  getpri lines a := (lines a).vpc
  setpri lines a pri := Function.update lines a { lines a with vpc := pri }
  getpos lines a := (lines a).pos
  setpos lines a pos := Function.update lines a { lines a with pos := pos }

structure LineMgmt where
  lines : Lines
  freeLineList : List Nat
  victimLinePq : Pqueue Nat
  fullLineList : List Nat
  ttLines : Nat
  freeLineCnt : Nat
  victimLineCnt : Nat
  fullLineCnt : Nat

namespace LineMgmt

/-- Write the line `i`. -/
def setLine (lm : LineMgmt) (i : Nat) (line : Line) : LineMgmt :=
  { lm with lines := Function.update lm.lines i line }

end LineMgmt

/-- The user stream and the two GC streams: `USER_IO`, `GC_IO_HOT`, `GC_IO_COLD`. -/
inductive Stream where
  | userIo | gcIoHot | gcIoCold
  deriving DecidableEq, Repr

/-- What an instance does to its lines, pages and blocks: a line opened or closed by a stream, a page
taken from a write pointer, the logical page of the host or the old page whose data goes to a page, a
program, an erase. -/
inductive FlashEvent where
  | opened (s : Stream) (l : Nat)
  | page (s : Stream) (p : Ppa)
  | closed (s : Stream) (l : Nat)
  | host (lpn : Nat) (p : Ppa)
  | copy (oldPpa newPpa : Ppa)
  | program (p : Ppa)
  | erased (b : BlkId)
  deriving DecidableEq, Repr

/-- The events of a flash command. -/
def NandCmd.events (ncmd : NandCmd) : List FlashEvent :=
  match ncmd.cmd with
  | .write => [.program ncmd.ppa]
  | .read | .erase | .nop => []

structure WritePointer where
  curline : Nat
  ch : Nat
  lun : Nat
  pg : Nat
  blk : Nat
  pl : Nat
  deriving DecidableEq, Repr

/-! ## Policies and statistics -/

/-- `convparams`; `op_area_pcent` is only read to compute `pba_pcent`. -/
structure ConvParams where
  gcThresLines : Nat
  gcThresLinesHigh : Nat
  enableGcDelay : Bool
  pbaPcent : Nat
  deriving DecidableEq, Repr

/-- `conv_init_params`. -/
def convInitParams (cfg : SsdConfig) (spp : SsdParams) : ConvParams where
  gcThresLines := 3
  gcThresLinesHigh := spp.tlcTtLines * 15 / 100
  enableGcDelay := true
  pbaPcent := 100 + cfg.opAreaPercent

/-- The parameters of one partition of a 970PRO device of `size` bytes. -/
def cp970Pro (size : Nat) : ConvParams := convInitParams samsung970Pro (params970Pro size)

structure WriteFlowControl where
  writeCredits : Nat
  creditsToRefill : Nat
  deriving DecidableEq, Repr

structure PageMeta where
  updateCnt : Nat
  lastWriteTime : Nat
  deriving DecidableEq, Repr

structure RlConfig where
  qTable : Nat → Nat → Int
  curState : Nat
  curAction : Nat
  alphaLevel : Nat
  deltaLevel : Nat
  epsilon : Nat
  prevCopiedPages : Nat
  prevEraseMax : Nat
  prevEraseMin : Nat
  windowHot : Nat
  windowTotal : Nat
  prevHotPct : Nat
  lastVictimEc : Nat
  totalEpisodes : Nat
  totalReward : Int

structure WearGapStats where
  prevRange : Nat
  accumDiff : Int
  samples : Nat
  initialized : Bool
  deriving DecidableEq, Repr

/-! ## The instance -/

/-- `struct conv_ftl`. An unmapped entry of `maptbl` is `none`. `trace` is not in the source: the
functions of the model enter there, oldest first, what they do to lines, pages and blocks, and none of
them reads it. -/
structure ConvFtl where
  ssd : Ssd
  cp : ConvParams
  maptbl : Nat → Option Ppa
  rmap : Nat → Nat
  wp : Stream → WritePointer
  lm : LineMgmt
  wfc : WriteFlowControl
  pageMeta : Nat → PageMeta
  avgHotDegree : Nat
  rl : RlConfig
  wgs : WearGapStats
  gcCount : Nat
  gcCopiedPages : Nat
  hostWrittenPages : Nat
  trace : List FlashEvent

namespace ConvFtl

/-- Enter events in the trace. -/
def record (ftl : ConvFtl) (events : List FlashEvent) : ConvFtl :=
  { ftl with trace := ftl.trace ++ events }

/-- Write through `__get_wp`. -/
def setWp (ftl : ConvFtl) (ioType : Stream) (wp : WritePointer) : ConvFtl :=
  { ftl with wp := Function.update ftl.wp ioType wp }

/-- `get_line`. -/
def getLine (ftl : ConvFtl) (ppa : Ppa) : Line := ftl.lm.lines ppa.blk

/-- `should_gc_high`. -/
def shouldGcHigh (ftl : ConvFtl) : Bool := ftl.lm.freeLineCnt ≤ ftl.cp.gcThresLinesHigh

/-- `get_maptbl_ent`. -/
def getMaptblEnt (ftl : ConvFtl) (lpn : Nat) : Option Ppa := ftl.maptbl lpn

/-- `set_maptbl_ent`. -/
def setMaptblEnt (ftl : ConvFtl) (lpn : Nat) (ppa : Ppa) : FtlM ConvFtl := do
  nvmevAssert (lpn < ftl.ssd.sp.ttPgs)
  pure { ftl with maptbl := Function.update ftl.maptbl lpn (some ppa) }

end ConvFtl

/-- The sum `ppa2pgidx` computes. -/
def SsdParams.pgidx (spp : SsdParams) (ppa : Ppa) : Nat :=
  ppa.ch * spp.pgsPerCh + ppa.lun * spp.pgsPerLun + ppa.pl * spp.pgsPerPl +
    ppa.blk * spp.pgsPerBlk + ppa.pg

namespace ConvFtl

/-- `ppa2pgidx`. -/
def ppa2pgidx (ftl : ConvFtl) (ppa : Ppa) : FtlM Nat := do
  nvmevAssert (ftl.ssd.sp.pgidx ppa < ftl.ssd.sp.ttPgs)
  pure (ftl.ssd.sp.pgidx ppa)

/-- `get_rmap_ent`. -/
def getRmapEnt (ftl : ConvFtl) (ppa : Ppa) : FtlM Nat := do
  let idx ← ftl.ppa2pgidx ppa
  pure (ftl.rmap idx)

/-- `set_rmap_ent`. -/
def setRmapEnt (ftl : ConvFtl) (lpn : Nat) (ppa : Ppa) : FtlM ConvFtl := do
  let idx ← ftl.ppa2pgidx ppa
  pure { ftl with rmap := Function.update ftl.rmap idx lpn }

end ConvFtl

/-- `valid_ppa`. -/
def validPpa (spp : SsdParams) (ppa : Ppa) : Bool :=
  ppa.ch < spp.nchs && ppa.lun < spp.lunsPerCh && ppa.pl < spp.plsPerLun &&
    ppa.blk < spp.blksPerPl && ppa.pg < spp.pgsPerBlk

/-- `valid_lpn`. -/
def validLpn (spp : SsdParams) (lpn : Nat) : Bool := lpn < spp.ttPgs

/-- `last_pg_in_wordline`. -/
def lastPgInWordline (spp : SsdParams) (ppa : Ppa) : Bool :=
  ppa.pg % spp.pgsPerOneshotpg == spp.pgsPerOneshotpg - 1

end NvmeVirt

import NvmeVirt.Conv.Gc

/-!
# Initialisation of an FTL instance

The lines, the two tables, the write pointers and the learner as `conv_init_ftl` sets them up. Each
of the three write pointers takes the first line of the free list and asserts that there is one.

The allocation of the arrays is left out: memory is never short.
-/

set_option autoImplicit false

namespace NvmeVirt

/-- `init_lines`: every line is free, in index order. -/
def initLines (spp : SsdParams) : LineMgmt where
  lines := fun i => { id := i, ipc := 0, vpc := 0, pos := 0, lastModifiedTime := 0, eraseCnt := 0 }
  freeLineList := List.range spp.ttLines
  victimLinePq := Pqueue.init spp.ttLines 0
  fullLineList := []
  ttLines := spp.ttLines
  freeLineCnt := spp.ttLines
  victimLineCnt := 0
  fullLineCnt := 0

/-- `init_rl`: the levels start at those of CAT, exploration at `RL_EPSILON_INIT`. -/
def initRl : RlConfig where
  qTable := fun _ _ => 0
  curState := 0
  curAction := 0
  alphaLevel := 1
  deltaLevel := 2
  epsilon := 300
  prevCopiedPages := 0
  prevEraseMax := 0
  prevEraseMin := 0
  windowHot := 0
  windowTotal := 0
  prevHotPct := 0
  lastVictimEc := 0
  totalEpisodes := 0
  totalReward := 0

/-- `init_wear_gap`. -/
def initWearGap : WearGapStats :=
  { prevRange := 0, accumDiff := 0, samples := 0, initialized := false }

/-- `init_write_flow_control`. -/
def initWriteFlowControl (spp : SsdParams) : WriteFlowControl :=
  { writeCredits := u32 spp.pgsPerLine, creditsToRefill := u32 spp.pgsPerLine }

/-- What an instance holds before its write pointers are prepared. The three pointers are not read
before that. -/
def convFtlTables (cp : ConvParams) (ssd : Ssd) : ConvFtl where
  ssd
  cp
  maptbl := fun _ => none
  rmap := fun _ => invalidLpn
  wp := fun _ => { curline := 0, ch := 0, lun := 0, pg := 0, blk := 0, pl := 0 }
  lm := initLines ssd.sp
  wfc := initWriteFlowControl ssd.sp
  pageMeta := fun _ => { updateCnt := 0, lastWriteTime := 0 }
  avgHotDegree := 16
  rl := initRl
  wgs := initWearGap
  gcCount := 0
  gcCopiedPages := 0
  hostWrittenPages := 0
  trace := []

/-- `ns->size` of `conv_init_namespace`, for a device of `size` bytes. -/
def convNsSize (cfg : SsdConfig) (spp : SsdParams) (size : Nat) : Nat :=
  u64 (size * 100) / (convInitParams cfg spp).pbaPcent

/-- `conv_init_ftl`. -/
def convInitFtl (cp : ConvParams) (ssd : Ssd) : FtlM ConvFtl := do
  let ftl ← prepareWritePointer (convFtlTables cp ssd) .userIo
  let ftl ← prepareWritePointer ftl .gcIoHot
  prepareWritePointer ftl .gcIoCold

end NvmeVirt

import NvmeVirt.Kernel

/-!
# Device parameters (`ssd_config.h`, `ssd_init_params`)

`SsdConfig` is one branch of `ssd_config.h`; `samsung970Pro` is the branch the Makefile selects.
`ssdInitParams` derives the geometry and copies the timing constants, field by field as `ssd.c`
does. The fields are natural numbers: the sizes the driver can be loaded with keep every product
inside its C type.

Where they would not, `Conv/Address` takes the products in their types. The branches without flash
(`INTEL_OPTANE`, `KV_PROTOTYPE`) have no geometry; their FTLs take the sizes as parameters.
-/

set_option autoImplicit false

namespace NvmeVirt

def kb (k : Nat) : Nat := k * 2 ^ 10
def mb (m : Nat) : Nat := m * 2 ^ 20

/-- `LBA_BITS` and `LBA_SIZE`; every branch of `ssd_config.h` has the same. -/
def lbaBits : Nat := 9
def lbaSize : Nat := 2 ^ lbaBits

/-- `LBA_TO_BYTE`. -/
def lbaToByte (lba : Nat) : Nat := lba * lbaSize

/-- The cell types, as indices of the latency tables. -/
inductive CellType where
  | lsb | msb | csb
  deriving DecidableEq, Repr

/-- The cell type numbered `n` in the enumeration of `ssd.h`. -/
def cellType : Nat → CellType
  | 0 => .lsb
  | 1 => .msb
  | _ => .csb

/-- The macros one `BASE_SSD` branch defines. -/
structure SsdConfig where
  cellMode : Nat
  ssdPartitions : Nat
  nandChannels : Nat
  lunsPerNandCh : Nat
  plnsPerLun : Nat
  flashPageSize : Nat
  oneshotPageSize : Nat
  slcOneshotPageSize : Nat
  blksPerPln : Nat
  blkSize : Nat
  slcPortion : Nat
  maxChXferSize : Nat
  writeUnitSize : Nat
  nandChannelBandwidth : Nat
  pcieBandwidth : Nat
  nand4kbReadLatency : CellType → Nat
  nandReadLatency : CellType → Nat
  nandProgLatency : Nat
  nandEraseLatency : Nat
  nand4kbReadLatencySlc : Nat
  nandReadLatencySlc : Nat
  nandProgLatencySlc : Nat
  nandEraseLatencySlc : Nat
  fw4kbReadLatency : Nat
  fwReadLatency : Nat
  fwWbufLatency0 : Nat
  fwWbufLatency1 : Nat
  fwChXferLatency : Nat
  /-- `OP_AREA_PERCENT` in hundredths: 0.28 is 28. -/
  opAreaPercent : Nat
  globalWbSize : Nat
  writeEarlyCompletion : Bool

/-- `BASE_SSD == SAMSUNG_970PRO`. `SLC_ONESHOT_PAGE_SIZE` applies `KB` to a size in bytes. -/
def samsung970Pro : SsdConfig where
  cellMode := 3
  ssdPartitions := 4
  nandChannels := 4
  lunsPerNandCh := 2
  plnsPerLun := 1
  flashPageSize := kb 16
  oneshotPageSize := kb 16 * 3
  slcOneshotPageSize := kb (kb 16)
  blksPerPln := 2048
  blkSize := 0
  slcPortion := 10
  maxChXferSize := kb 16
  writeUnitSize := 512
  nandChannelBandwidth := 800
  pcieBandwidth := 3360
  nand4kbReadLatency
    | .lsb => 35760 - 6000
    | .msb => 35760 + 6000
    | .csb => 35760
  nandReadLatency
    | .lsb => 36013 - 6000
    | .msb => 36013 + 6000
    | .csb => 36013
  nandProgLatency := 185000
  nandEraseLatency := 0
  nand4kbReadLatencySlc := 16254
  nandReadLatencySlc := 16369
  nandProgLatencySlc := 40547
  nandEraseLatencySlc := 0
  fw4kbReadLatency := 21500
  fwReadLatency := 30490
  fwWbufLatency0 := 4000
  fwWbufLatency1 := 460
  fwChXferLatency := 0
  opAreaPercent := 28
  globalWbSize := 4 * 2 * (kb 16 * 3) * 2
  writeEarlyCompletion := true

/-- `struct ssdparams`. -/
structure SsdParams where
  secsz : Nat
  secsPerPg : Nat
  pgsz : Nat
  pgsPerFlashpg : Nat
  flashpgsPerBlk : Nat
  slcFlashpgsPerBlk : Nat
  pgsPerOneshotpg : Nat
  slcPgsPerOneshotpg : Nat
  oneshotpgsPerBlk : Nat
  slcOneshotpgsPerBlk : Nat
  pgsPerBlk : Nat
  slcPgsPerBlk : Nat
  blksPerPl : Nat
  slcBlksPerPl : Nat
  plsPerLun : Nat
  lunsPerCh : Nat
  nchs : Nat
  cellMode : Nat
  writeUnitSize : Nat
  writeEarlyCompletion : Bool
  pg4kbRdLat : CellType → Nat
  pgRdLat : CellType → Nat
  pgWrLat : Nat
  blkErLat : Nat
  maxChXferSize : Nat
  slcPg4kbRdLat : Nat
  slcPgRdLat : Nat
  slcPgWrLat : Nat
  slcBlkErLat : Nat
  fw4kbRdLat : Nat
  fwRdLat : Nat
  fwWbufLat0 : Nat
  fwWbufLat1 : Nat
  fwChXferLat : Nat
  chBandwidth : Nat
  pcieBandwidth : Nat
  secsPerBlk : Nat
  slcSecsPerBlk : Nat
  secsPerPl : Nat
  slcSecsPerPl : Nat
  secsPerLun : Nat
  slcSecsPerLun : Nat
  secsPerCh : Nat
  ttSecs : Nat
  slcTtSecs : Nat
  tlcTtSecs : Nat
  pgsPerPl : Nat
  slcPgsPerPl : Nat
  pgsPerLun : Nat
  slcPgsPerLun : Nat
  pgsPerCh : Nat
  slcPgsPerCh : Nat
  ttPgs : Nat
  slcTtPgs : Nat
  tlcTtPgs : Nat
  blksPerLun : Nat
  blksPerCh : Nat
  ttBlks : Nat
  secsPerLine : Nat
  slcSecsPerLine : Nat
  pgsPerLine : Nat
  slcPgsPerLine : Nat
  blksPerLine : Nat
  ttLines : Nat
  slcTtLines : Nat
  tlcTtLines : Nat
  plsPerCh : Nat
  ttPls : Nat
  ttLuns : Nat
  writeBufferSize : Nat

/-- `ssd_init_params`. `secs_per_ch` is assigned twice in the source and `slc_secs_per_ch` never:
the second assignment is the one that stays. -/
def ssdInitParams (cfg : SsdConfig) (capacity nparts : Nat) : SsdParams :=
  let secsPerPg := 4096 / lbaSize
  let pgsz := lbaSize * secsPerPg
  let nchs := cfg.nandChannels / nparts
  let capacity := capacity / nparts
  let plsPerLun := cfg.plnsPerLun
  let lunsPerCh := cfg.lunsPerNandCh
  let blksPerPl := if 0 < cfg.blksPerPln then cfg.blksPerPln
    else divRoundUp capacity (cfg.blkSize * plsPerLun * lunsPerCh * nchs)
  let slcBlksPerPl := if 0 < cfg.blksPerPln then cfg.blksPerPln * cfg.slcPortion / 100 else 0
  let blkSize := if 0 < cfg.blksPerPln then
      divRoundUp capacity (blksPerPl * plsPerLun * lunsPerCh * nchs)
    else cfg.blkSize
  let pgsPerOneshotpg := cfg.oneshotPageSize / pgsz
  let slcPgsPerOneshotpg := cfg.slcOneshotPageSize / pgsz
  let oneshotpgsPerBlk := divRoundUp blkSize cfg.oneshotPageSize
  let slcOneshotpgsPerBlk := divRoundUp blkSize cfg.slcOneshotPageSize
  let flashpgsPerBlk := cfg.oneshotPageSize / cfg.flashPageSize * oneshotpgsPerBlk
  let slcFlashpgsPerBlk := cfg.slcOneshotPageSize / cfg.flashPageSize * slcOneshotpgsPerBlk
  let pgsPerBlk := pgsPerOneshotpg * oneshotpgsPerBlk
  let slcPgsPerBlk := slcPgsPerOneshotpg * slcOneshotpgsPerBlk
  let secsPerBlk := secsPerPg * pgsPerBlk
  let slcSecsPerBlk := secsPerPg * slcPgsPerBlk
  let secsPerPl := secsPerBlk * blksPerPl
  let slcSecsPerPl := slcSecsPerBlk * blksPerPl
  let secsPerLun := secsPerPl * plsPerLun
  let slcSecsPerLun := slcSecsPerPl * plsPerLun
  let secsPerCh := slcSecsPerLun * lunsPerCh
  let ttSecs := secsPerCh * nchs
  let slcTtSecs := ttSecs * cfg.slcPortion / 100
  let pgsPerPl := pgsPerBlk * blksPerPl
  let slcPgsPerPl := slcPgsPerBlk * blksPerPl
  let pgsPerLun := pgsPerPl * plsPerLun
  let slcPgsPerLun := slcPgsPerPl * plsPerLun
  let pgsPerCh := pgsPerLun * lunsPerCh
  let slcPgsPerCh := slcPgsPerLun * lunsPerCh
  let ttPgs := pgsPerCh * nchs
  let slcTtPgs := ttPgs * cfg.slcPortion / 100
  let blksPerLun := blksPerPl * plsPerLun
  let blksPerCh := blksPerLun * lunsPerCh
  let ttLuns := lunsPerCh * nchs
  let blksPerLine := ttLuns
  let pgsPerLine := blksPerLine * pgsPerBlk
  let slcPgsPerLine := blksPerLine * slcPgsPerBlk
  let ttLines := blksPerLun
  let slcTtLines := ttLines * cfg.slcPortion / 100
  let plsPerCh := plsPerLun * lunsPerCh
  { secsz := lbaSize, secsPerPg, pgsz
    pgsPerFlashpg := cfg.flashPageSize / pgsz, flashpgsPerBlk, slcFlashpgsPerBlk
    pgsPerOneshotpg, slcPgsPerOneshotpg, oneshotpgsPerBlk, slcOneshotpgsPerBlk
    pgsPerBlk, slcPgsPerBlk, blksPerPl, slcBlksPerPl, plsPerLun, lunsPerCh, nchs
    cellMode := cfg.cellMode
    writeUnitSize := cfg.writeUnitSize, writeEarlyCompletion := cfg.writeEarlyCompletion
    pg4kbRdLat := cfg.nand4kbReadLatency, pgRdLat := cfg.nandReadLatency
    pgWrLat := cfg.nandProgLatency, blkErLat := cfg.nandEraseLatency
    maxChXferSize := cfg.maxChXferSize
    slcPg4kbRdLat := cfg.nand4kbReadLatencySlc, slcPgRdLat := cfg.nandReadLatencySlc
    slcPgWrLat := cfg.nandProgLatencySlc, slcBlkErLat := cfg.nandEraseLatencySlc
    fw4kbRdLat := cfg.fw4kbReadLatency, fwRdLat := cfg.fwReadLatency
    fwWbufLat0 := cfg.fwWbufLatency0, fwWbufLat1 := cfg.fwWbufLatency1
    fwChXferLat := cfg.fwChXferLatency
    chBandwidth := cfg.nandChannelBandwidth, pcieBandwidth := cfg.pcieBandwidth
    secsPerBlk, slcSecsPerBlk, secsPerPl, slcSecsPerPl, secsPerLun, slcSecsPerLun, secsPerCh
    ttSecs, slcTtSecs, tlcTtSecs := ttSecs - slcTtSecs
    pgsPerPl, slcPgsPerPl, pgsPerLun, slcPgsPerLun, pgsPerCh, slcPgsPerCh
    ttPgs, slcTtPgs, tlcTtPgs := ttPgs - slcTtPgs
    blksPerLun, blksPerCh, ttBlks := blksPerCh * nchs
    secsPerLine := pgsPerLine * secsPerPg, slcSecsPerLine := slcPgsPerLine * secsPerPg
    pgsPerLine, slcPgsPerLine, blksPerLine
    ttLines, slcTtLines, tlcTtLines := ttLines - slcTtLines
    plsPerCh, ttPls := plsPerCh * nchs, ttLuns
    writeBufferSize := cfg.globalWbSize }

/-- What the FTL needs of the geometry: the derived fields are the products their names say, each
line is one block of each LUN, and every field of an address fits its bits in `struct ppa`. -/
structure SsdParams.WellFormed (spp : SsdParams) : Prop where
  nchs_pos : 0 < spp.nchs
  lunsPerCh_pos : 0 < spp.lunsPerCh
  plsPerLun_one : spp.plsPerLun = 1
  pgsPerOneshotpg_pos : 0 < spp.pgsPerOneshotpg
  pgsPerFlashpg_pos : 0 < spp.pgsPerFlashpg
  pgsPerBlk_pos : 0 < spp.pgsPerBlk
  pgsPerBlk_oneshot : spp.pgsPerBlk = spp.pgsPerOneshotpg * spp.oneshotpgsPerBlk
  pgsPerBlk_flash : spp.pgsPerBlk = spp.flashpgsPerBlk * spp.pgsPerFlashpg
  pgsPerPl_eq : spp.pgsPerPl = spp.pgsPerBlk * spp.blksPerPl
  pgsPerLun_eq : spp.pgsPerLun = spp.pgsPerPl * spp.plsPerLun
  pgsPerCh_eq : spp.pgsPerCh = spp.pgsPerLun * spp.lunsPerCh
  ttPgs_eq : spp.ttPgs = spp.pgsPerCh * spp.nchs
  pgsPerLine_eq : spp.pgsPerLine = spp.lunsPerCh * spp.nchs * spp.pgsPerBlk
  ttLines_eq : spp.ttLines = spp.blksPerPl
  nchs_le : spp.nchs ≤ 2 ^ 8
  lunsPerCh_le : spp.lunsPerCh ≤ 2 ^ 8
  blksPerPl_le : spp.blksPerPl ≤ 2 ^ 16
  pgsPerBlk_le : spp.pgsPerBlk ≤ 2 ^ 16

theorem SsdParams.WellFormed.pgsPerLine_pos {spp : SsdParams} (w : spp.WellFormed) :
    0 < spp.pgsPerLine := by
  rw [w.pgsPerLine_eq]
  exact Nat.mul_pos (Nat.mul_pos w.lunsPerCh_pos w.nchs_pos) w.pgsPerBlk_pos

/-! ## The 970PRO device -/

/-- One partition of a 970PRO device of `size` bytes. -/
def params970Pro (size : Nat) : SsdParams :=
  ssdInitParams samsung970Pro size samsung970Pro.ssdPartitions

/-- The fields of the 970PRO geometry that do not depend on the size. -/
structure SsdParams.Is970Pro (spp : SsdParams) (size : Nat) : Prop where
  secsPerPg : spp.secsPerPg = 8
  pgsz : spp.pgsz = 4096
  nchs : spp.nchs = 1
  lunsPerCh : spp.lunsPerCh = 2
  plsPerLun : spp.plsPerLun = 1
  blksPerPl : spp.blksPerPl = 2048
  pgsPerOneshotpg : spp.pgsPerOneshotpg = 12
  pgsPerFlashpg : spp.pgsPerFlashpg = 4
  oneshotpgsPerBlk : spp.oneshotpgsPerBlk = divRoundUp (divRoundUp (size / 4) 4096) 49152
  flashpgsPerBlk : spp.flashpgsPerBlk = 3 * spp.oneshotpgsPerBlk
  pgsPerBlk : spp.pgsPerBlk = 12 * spp.oneshotpgsPerBlk
  pgsPerLine : spp.pgsPerLine = 2 * spp.pgsPerBlk
  ttPgs : spp.ttPgs = 4096 * spp.pgsPerBlk
  ttLines : spp.ttLines = 2048
  tlcTtLines : spp.tlcTtLines = 1844

theorem params970Pro_is (size : Nat) : (params970Pro size).Is970Pro size := by
  constructor
  all_goals simp [params970Pro, ssdInitParams, samsung970Pro, lbaSize, lbaBits, kb]
  all_goals omega

theorem params970Pro_wellFormed {size : Nat} (hpos : 1 ≤ (params970Pro size).pgsPerBlk)
    (hle : (params970Pro size).pgsPerBlk ≤ 65536) : (params970Pro size).WellFormed := by
  have h := params970Pro_is size
  refine ⟨?_, ?_, h.plsPerLun, ?_, ?_, hpos, ?_, ?_, rfl, rfl, rfl, rfl, rfl, ?_, ?_, ?_, ?_, hle⟩
  · rw [h.nchs]; omega
  · rw [h.lunsPerCh]; omega
  · rw [h.pgsPerOneshotpg]; omega
  · rw [h.pgsPerFlashpg]; omega
  · rw [h.pgsPerBlk, h.pgsPerOneshotpg]
  · rw [h.pgsPerBlk, h.flashpgsPerBlk, h.pgsPerFlashpg]; omega
  · rw [h.ttLines, h.blksPerPl]
  · rw [h.nchs]; omega
  · rw [h.lunsPerCh]; omega
  · rw [h.blksPerPl]; omega

end NvmeVirt

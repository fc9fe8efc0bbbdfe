import NvmeVirt.Kernel
import NvmeVirt.Ssd.Params

/-!
# The I/O units (`simple_ftl.c`, `kv_ftl.c`)

Both FTLs spread a request over units that work in parallel, and keep for each unit until when it is
busy (`io_unit_stat`). They have their own copies of `__schedule_io_units`, which differ in the
opcodes they know the times of.

Times are nanoseconds in 64 bits and lengths bytes in 32, and their sums wrap. The number of units
and their times are parameters, since the configurations differ in them; the command around the
scheduler, a choice by opcode, is left out.
-/

set_option autoImplicit false

namespace NvmeVirt

/-- The part of `struct nvmev_config` about the units. A unit is at least an LBA, and its size is the
value of a shift of an `int`. -/
structure IoUnitConfig where
  nrIoUnits : Nat
  ioUnitShift : Nat
  readDelay : Nat
  readTime : Nat
  readTrailing : Nat
  writeDelay : Nat
  writeTime : Nat
  writeTrailing : Nat
  nrIoUnits_pos : 0 < nrIoUnits
  lbaBits_le : lbaBits ≤ ioUnitShift
  ioUnitShift_lt : ioUnitShift < 32

/-- The opcodes the two copies tell apart. -/
inductive UnitOpcode where
  | write | read | kvStore | kvBatch | kvRetrieve | other
  deriving DecidableEq, Repr

/-- The variables `delay`, `latency` and `trailing`. -/
structure IoTimes where
  delay : Nat
  latency : Nat
  trailing : Nat
  deriving DecidableEq, Repr

namespace IoUnitConfig

variable (cfg : IoUnitConfig)

/-- `io_unit_size`. -/
def ioUnitSize : Nat := 1 <<< cfg.ioUnitShift

def writeTimes : IoTimes := ⟨cfg.writeDelay, cfg.writeTime, cfg.writeTrailing⟩
def readTimes : IoTimes := ⟨cfg.readDelay, cfg.readTime, cfg.readTrailing⟩

/-- The times `simple_ftl.c` takes for an opcode. -/
def simpleIoTimes : UnitOpcode → IoTimes
  | .write => cfg.writeTimes
  | .read => cfg.readTimes
  | _ => ⟨0, 0, 0⟩

/-- The times `kv_ftl.c` takes for an opcode. -/
def kvIoTimes : UnitOpcode → IoTimes
  | .write | .kvStore | .kvBatch => cfg.writeTimes
  | .read | .kvRetrieve => cfg.readTimes
  | .other => ⟨0, 0, 0⟩

theorem ioUnitSize_pos : 0 < cfg.ioUnitSize := by
  unfold ioUnitSize
  rw [Nat.shiftLeft_eq, Nat.one_mul]
  exact Nat.two_pow_pos _

/-- The unit a request starts at. -/
def firstUnit (lba : Nat) : Nat := (lba >>> (cfg.ioUnitShift - lbaBits)) % cfg.nrIoUnits

theorem firstUnit_lt (lba : Nat) : cfg.firstUnit lba < cfg.nrIoUnits := Nat.mod_lt _ cfg.nrIoUnits_pos

/-- The loop of `__schedule_io_units`: `nr_io_units` counts down to the units without a trailing
time. -/
def serveIoUnits (times : IoTimes) (length nrIoUnits ioUnit latest : Nat) (stat : Nat → Nat) :
    Nat × (Nat → Nat) :=
  let latest := u64 (latest + times.latency)
  let stat := Function.update stat ioUnit
    (if 0 < nrIoUnits then u64 (latest + times.trailing) else latest)
  let ioUnit := if cfg.nrIoUnits ≤ ioUnit + 1 then 0 else ioUnit + 1
  if 0 < length - min length cfg.ioUnitSize then
    serveIoUnits times (length - min length cfg.ioUnitSize) (nrIoUnits - 1) ioUnit latest stat
  else (latest, stat)
termination_by length
decreasing_by
  have hpos := cfg.ioUnitSize_pos
  omega

/-- `__schedule_io_units`, for the times of the opcode: the time of completion, and `io_unit_stat`. -/
def scheduleIoUnits (times : IoTimes) (lba length nsecsStart : Nat) (stat : Nat → Nat) :
    Nat × (Nat → Nat) :=
  let length := u32 length
  let ioUnit := cfg.firstUnit lba
  let nrIoUnits := min cfg.nrIoUnits (u32 (length + cfg.ioUnitSize - 1) / cfg.ioUnitSize)
  let latest := u64 (max nsecsStart (stat ioUnit) + times.delay)
  cfg.serveIoUnits times length nrIoUnits ioUnit latest stat

/-- `__schedule_io_units` of `simple_ftl.c`. -/
def simpleScheduleIoUnits (opcode : UnitOpcode) (lba length nsecsStart : Nat) (stat : Nat → Nat) :
    Nat × (Nat → Nat) :=
  cfg.scheduleIoUnits (cfg.simpleIoTimes opcode) lba length nsecsStart stat

/-- `__schedule_io_units` of `kv_ftl.c`. -/
def kvScheduleIoUnits (opcode : UnitOpcode) (lba length nsecsStart : Nat) (stat : Nat → Nat) :
    Nat × (Nat → Nat) :=
  cfg.scheduleIoUnits (cfg.kvIoTimes opcode) lba length nsecsStart stat

/-- `__schedule_flush`, the same in both files. -/
def scheduleFlush (stat : Nat → Nat) : Nat :=
  (List.range cfg.nrIoUnits).foldl (fun latest i => max latest (stat i)) 0

end IoUnitConfig

end NvmeVirt

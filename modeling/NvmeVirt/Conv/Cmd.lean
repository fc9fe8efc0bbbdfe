import NvmeVirt.Nvme
import NvmeVirt.Conv.Write

/-!
# The namespace and its commands (`conv_init_namespace`, `conv_read`, `conv_write`, `conv_flush`)

A namespace has `nr_parts` instances. They share the PCIe model and the write buffer of instance 0,
so both live in the namespace: an instance is taken out with the shared model (`part`) and put back
with it (`setPart`). The internal operations a write schedules are returned in the order the source
schedules them.

The loops are as in the source: a write goes page by page over the instances in turn, a read
instance by instance with the pages of each. An answer keeps the logical pages a read looked up
beside its result, for the laws about reads. The texts of the errors and what `conv_flush` prints
beyond the statistics of `Conv/Stats` are left out.
-/

set_option autoImplicit false

namespace NvmeVirt

open Outcome

/-- `struct nvmev_ns` of a conventional namespace. -/
structure ConvNs where
  nrParts : Nat
  size : Nat
  ftls : Nat → ConvFtl
  pcie : ChannelModel
  writeBuffer : Buffer

namespace ConvNs

/-- `conv_ftls[i]`. -/
def part (ns : ConvNs) (i : Nat) : ConvFtl :=
  { ns.ftls i with ssd := { (ns.ftls i).ssd with pcie := ns.pcie } }

/-- Write `conv_ftls[i]`. -/
def setPart (ns : ConvNs) (i : Nat) (ftl : ConvFtl) : ConvNs :=
  { ns with ftls := Function.update ns.ftls i ftl, pcie := ftl.ssd.pcie }

/-- `spp`: the parameters of instance 0; all instances have the same. -/
def sp (ns : ConvNs) : SsdParams := (ns.ftls 0).ssd.sp

end ConvNs

/-- `conv_init_namespace`. -/
def convInitNamespace (cfg : SsdConfig) (size : Nat) : FtlM ConvNs := do
  let nrParts := cfg.ssdPartitions
  let spp := ssdInitParams cfg size nrParts
  let cp := convInitParams cfg spp
  let blank := convFtlTables cp (ssdInit spp)
  let ftls ← forRange nrParts (fun _ => blank : Nat → ConvFtl) fun i ftls => do
    let ftl ← convInitFtl cp (ssdInit spp)
    pure (Function.update ftls i ftl)
  pure { nrParts, size := convNsSize cfg spp size, ftls
         pcie := chmodelInit spp.pcieBandwidth, writeBuffer := bufferInit spp.writeBufferSize }

/-! ## Addresses -/

namespace NvmeCommand

variable (cmd : NvmeCommand)

/-- `nr_lba`. -/
def nrLba : Nat := cmd.length + 1

/-- `start_lpn`. -/
def startLpn (spp : SsdParams) : Nat := cmd.slba / spp.secsPerPg

/-- `end_lpn`; the sum is a `uint64_t`. -/
def endLpn (spp : SsdParams) : Nat := sub64 (u64 (cmd.slba + cmd.nrLba)) 1 / spp.secsPerPg

/-- The bytes of the command. -/
def bytes : Nat := lbaToByte cmd.nrLba

end NvmeCommand

/-- The range check of `conv_read` and `conv_write`: the command is refused. -/
def ConvNs.outOfRange (ns : ConvNs) (cmd : NvmeCommand) : Bool :=
  ns.sp.ttPgs ≤ cmd.endLpn ns.sp / ns.nrParts

/-- The result of a refused command; its target time is the one the caller set. -/
def refusal (req : NvmevRequest) (status : Nat) : NvmevResult :=
  { status := status ||| nvmeScDnr, nsecsTarget := req.nsecsStart }

/-! ## `conv_read` -/

/-- `is_same_flash_page`. -/
def isSameFlashPage (spp : SsdParams) (p1 p2 : Ppa) : Bool :=
  p1.toBlkId == p2.toBlkId && p1.pg / spp.pgsPerFlashpg == p2.pg / spp.pgsPerFlashpg

/-- The state of the read loops. `looked` are the logical pages looked up so far. -/
structure ReadState where
  ftl : ConvFtl
  xferSize : Nat
  prevPpa : Option Ppa
  nsecsLatest : Nat
  looked : List Nat

/-- Issue the read collected so far, if there is one. -/
def ReadState.issue (st : ReadState) (stime : Nat) : FtlM ReadState :=
  match st.prevPpa with
  | some ppa =>
    if 0 < st.xferSize then do
      let (ssd, nsecsCompleted) ← ssdAdvanceNand st.ftl.ssd
        { type := .userIo, cmd := .read, xferSize := st.xferSize, stime
          interleavePciDma := true, ppa }
      pure { st with ftl := { st.ftl with ssd }, nsecsLatest := max nsecsCompleted st.nsecsLatest }
    else pure st
  | none => pure st

/-- The body of the inner loop of `conv_read` for the page `lpn`. -/
def ReadState.visit (st : ReadState) (stime nrParts lpn : Nat) : FtlM ReadState := do
  let spp := st.ftl.ssd.sp
  let cur := st.ftl.getMaptblEnt (lpn / nrParts)
  let st := { st with looked := st.looked ++ [lpn] }
  match cur with
  | none => pure st
  | some ppa =>
    if validPpa spp ppa = false then pure st
    else if st.prevPpa.any (isSameFlashPage spp ppa) = true then
      pure { st with xferSize := st.xferSize + spp.pgsz }
    else do
      let st ← st.issue stime
      pure { st with xferSize := spp.pgsz, prevPpa := some ppa }

/-- The inner loop of `conv_read` from the page `startLpn`, in steps of `nr_parts`. -/
def readPart (ftl : ConvFtl) (stime nrParts startLpn endLpn nsecsLatest : Nat) (looked : List Nat) :
    FtlM ReadState := do
  let prevPpa := ftl.getMaptblEnt (startLpn / nrParts)
  let st ← forRange ((endLpn - startLpn) / nrParts + 1)
    { ftl, xferSize := 0, prevPpa, nsecsLatest, looked : ReadState } fun k st =>
      st.visit stime nrParts (startLpn + k * nrParts)
  st.issue stime

/-- What `proc_io_cmd` answers: whether the command was accepted, the result, the bytes and end times
of the wordlines programmed, and the logical pages looked up. -/
structure IoAnswer where
  accepted : Bool
  result : NvmevResult
  internal : List (Nat × Nat)
  looked : List Nat
  deriving DecidableEq, Repr

/-- An answer `false`. -/
def IoAnswer.refuse (result : NvmevResult) : IoAnswer :=
  { accepted := false, result, internal := [], looked := [] }

/-- The firmware latency of a read. -/
def readLat (spp : SsdParams) (nrParts bytes : Nat) : Nat :=
  if bytes ≤ kb 4 * nrParts then spp.fw4kbRdLat else spp.fwRdLat

/-- What the outer loop of `conv_read` threads. -/
structure ReadAcc where
  ns : ConvNs
  nsecsLatest : Nat
  looked : List Nat

/-- One pass of the outer loop of `conv_read`, at `start_lpn + i`. -/
def readPass (stime startLpn endLpn i : Nat) (acc : ReadAcc) : FtlM ReadAcc :=
  if startLpn + i ≤ endLpn then do
    let idx := (startLpn + i) % acc.ns.nrParts
    let st ← readPart (acc.ns.part idx) stime acc.ns.nrParts (startLpn + i) endLpn acc.nsecsLatest
      acc.looked
    pure { ns := acc.ns.setPart idx st.ftl, nsecsLatest := st.nsecsLatest, looked := st.looked }
  else pure acc

/-- `conv_read`. -/
def convRead (ns : ConvNs) (req : NvmevRequest) : FtlM (ConvNs × IoAnswer) := do
  let spp := ns.sp
  let startLpn := req.cmd.startLpn spp
  let endLpn := req.cmd.endLpn spp
  if ns.outOfRange req.cmd = true then
    pure (ns, .refuse (refusal req nvmeScLbaRange))
  else do
    let stime := u64 (req.nsecsStart + readLat spp ns.nrParts req.cmd.bytes)
    let acc ← forRange ns.nrParts { ns, nsecsLatest := req.nsecsStart, looked := [] : ReadAcc }
      fun i acc => readPass stime startLpn endLpn i acc
    pure (acc.ns,
      { accepted := true
        result := { status := nvmeScSuccess, nsecsTarget := acc.nsecsLatest }
        internal := [], looked := acc.looked })

/-! ## `conv_write` -/

/-- What the loop of `conv_write` threads. -/
structure WriteAcc where
  ns : ConvNs
  nsecsLatest : Nat
  internal : List (Nat × Nat)

/-- A completed wordline is scheduled for release. -/
def WriteAcc.done (acc : WriteAcc) (ns : ConvNs) : Option Nat → WriteAcc
  | none => { acc with ns }
  | some nsecsDone =>
    { ns, nsecsLatest := max nsecsDone acc.nsecsLatest
      internal := acc.internal ++ [(nsecsDone, ns.sp.pgsPerOneshotpg * ns.sp.pgsz)] }

/-- One pass of the loop of `conv_write`, for the page `lpn`. -/
def writePass (stime lpn : Nat) (acc : WriteAcc) : FtlM WriteAcc := do
  let idx := lpn % acc.ns.nrParts
  let (ftl, nsecsDone) ← convWritePage (acc.ns.part idx) (lpn / acc.ns.nrParts) stime
  pure (acc.done (acc.ns.setPart idx ftl) nsecsDone)

/-- `conv_write` once the buffer is allocated. -/
def convWritePages (ns : ConvNs) (req : NvmevRequest) : FtlM (ConvNs × IoAnswer) := do
  let spp := ns.sp
  let startLpn := req.cmd.startLpn spp
  let endLpn := req.cmd.endLpn spp
  let (ssd, nsecsXfer) ← ssdAdvanceWriteBuffer (ns.part 0).ssd req.nsecsStart req.cmd.bytes
  let ns := { ns with pcie := ssd.pcie }
  let acc ← forRange (endLpn + 1 - startLpn) { ns, nsecsLatest := nsecsXfer, internal := [] : WriteAcc }
    fun k acc => writePass nsecsXfer (startLpn + k) acc
  let late := req.cmd.fua || !spp.writeEarlyCompletion
  pure (acc.ns,
    { accepted := true
      result :=
        { status := nvmeScSuccess, nsecsTarget := if late = true then acc.nsecsLatest else nsecsXfer }
      internal := acc.internal, looked := [] })

/-- `conv_write`. -/
def convWrite (ns : ConvNs) (req : NvmevRequest) : FtlM (ConvNs × IoAnswer) :=
  if ns.outOfRange req.cmd = true then
    pure (ns, .refuse (refusal req nvmeScLbaRange))
  else do
    let (writeBuffer, alloc) ← bufferAllocate ns.writeBuffer req.cmd.bytes
    let ns := { ns with writeBuffer }
    if alloc < req.cmd.bytes then
      pure (ns, .refuse (refusal req nvmeScInternal))
    else
      convWritePages ns req

/-! ## `conv_flush` and the dispatch -/

/-- The times `conv_flush` reads; its statistics are printed and leave no state. -/
def convFlush (ns : ConvNs) : FtlM NvmevResult := do
  let start ← cpuClock
  if ns.nrParts = 0 then
    pure { status := nvmeScSuccess, nsecsTarget := start }
  else do
    let latest ← forRange ns.nrParts start fun i latest => do
      let t ← ssdNextIdleTime (ns.part i).ssd
      pure (max latest t)
    pure { status := nvmeScSuccess, nsecsTarget := latest }

/-- An answer `true` without flash work. -/
def IoAnswer.done (result : NvmevResult) : IoAnswer :=
  { accepted := true, result, internal := [], looked := [] }

/-- `conv_proc_nvme_io_cmd`. An unknown opcode leaves the result the caller set. -/
def convProcNvmeIoCmd (ns : ConvNs) (req : NvmevRequest) : FtlM (ConvNs × IoAnswer) :=
  match req.cmd.opcode with
  | .write => convWrite ns req
  | .read => convRead ns req
  | .flush => do
    let result ← convFlush ns
    pure (ns, .done result)
  | .other => pure (ns, .done { status := nvmeScSuccess, nsecsTarget := req.nsecsStart })

end NvmeVirt

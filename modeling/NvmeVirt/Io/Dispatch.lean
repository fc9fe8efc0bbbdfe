import NvmeVirt.Conv.Cmd
import NvmeVirt.Zns.Cmd
import NvmeVirt.Io.Queues
import NvmeVirt.Io.Worker

/-!
# The dispatcher (`io.c`, `main.c`)

The workers run beside the dispatcher, so the loop of `nvmev_proc_io_sq` is not one function here:
it is cut before each call of `proc_io_cmd` and before each entry that goes to a worker. `SqPoll`
has the variables of the loop, `Dispatcher` the place the dispatcher is at, and the definitions are
the pieces of code between two cuts.

A submission entry is a record of the fields some modelled function reads. The result of
`proc_io_cmd` comes from the namespace, with the internal operations it schedules in the order of
the source; the time stamps of `PERF_DEBUG` are left out. How the pieces follow each other is in
`Laws/Io/Device`.
-/

set_option autoImplicit false

namespace NvmeVirt

/-! ## Submission entries -/

/-- The opcodes the namespaces and the workers tell apart. -/
inductive IoOpcode where
  | flush | write | read | zoneMgmtSend | zoneMgmtRecv | zoneAppend | other
  deriving DecidableEq, Repr

/-- `struct nvme_command`: the fields the namespaces and the workers read. -/
structure SqEntry where
  opcode : IoOpcode
  commandId : Nat
  slba : Nat
  length : Nat
  fua : Bool
  zsa : ZoneSendAction
  selectAll : Bool
  zsaso : Bool
  zra : Nat
  zraSpecificField : Nat
  slba_lt : slba < 2 ^ 64
  length_lt : length < 2 ^ 16
  deriving Repr

namespace SqEntry

variable (entry : SqEntry)

/-- `__cmd_io_offset`. -/
def ioOffset : Nat := u64 (entry.slba <<< lbaBits)

/-- `__cmd_io_size`. -/
def ioSize : Nat := (entry.length + 1) <<< lbaBits

/-- The entry as the conventional FTL reads it. -/
def toNvmeCommand : NvmeCommand where
  opcode :=
    match entry.opcode with
    | .write => .write
    | .read => .read
    | .flush => .flush
    | _ => .other
  commandId := entry.commandId
  slba := entry.slba
  length := entry.length
  fua := entry.fua
  slba_lt := entry.slba_lt
  length_lt := entry.length_lt

/-- The entry as `zns_write` and `zns_read` read it. -/
def toZnsRw : ZnsRwCommand where
  append := entry.opcode = .zoneAppend
  slba := entry.slba
  length := entry.length
  fua := entry.fua
  slba_lt := entry.slba_lt
  length_lt := entry.length_lt

/-- The entry by its case of the switch in `zns_proc_nvme_io_cmd`. -/
def toZnsCommand : ZnsCommand :=
  match entry.opcode with
  | .write | .zoneAppend => .write entry.toZnsRw
  | .read => .read entry.toZnsRw
  | .flush => .flush
  | .zoneMgmtSend =>
    .zoneMgmtSend
      { slba := entry.slba, zsa := entry.zsa, selectAll := entry.selectAll, zsaso := entry.zsaso
        slba_lt := entry.slba_lt }
  | .zoneMgmtRecv =>
    .zoneMgmtRecv
      { slba := entry.slba, zra := entry.zra, zraSpecificField := entry.zraSpecificField }
  | .other => .other

/-- The entry with another `slba`, which has 64 bits. -/
def setSlba (slba : Nat) : SqEntry :=
  { entry with slba := u64 slba, slba_lt := Nat.mod_lt _ (Nat.two_pow_pos 64) }

/-- The worker writes to the storage for this entry. -/
def writes : Bool := entry.opcode = .write ∨ entry.opcode = .zoneAppend

end SqEntry

/-! ## Namespaces -/

/-- A call of `schedule_internal_operation`. -/
structure ScheduledOp where
  nsecsTarget : Nat
  writeBuffer : Nat
  buffsToRelease : Nat
  deriving DecidableEq, Repr

/-- What `proc_io_cmd` answers: whether the entry is consumed, the result, the operations scheduled in
the call, and the entry it leaves in the submission queue. -/
structure ProcAnswer where
  accepted : Bool
  result : NvmevResult
  internal : List ScheduledOp
  entry : SqEntry
  deriving Repr

/-- A namespace and its storage after a call of `proc_io_cmd`, and the answer. -/
structure ProcOutcome (σ : Type) where
  ns : σ
  storage : Nat → Nat
  answer : ProcAnswer

/-- What the dispatcher and the workers call of a `struct nvmev_ns` with the state `σ`. -/
structure NvmevNs (σ : Type) where
  procIoCmd (ns : σ) (storage : Nat → Nat) (entry : SqEntry) (sqid nsecsStart : Nat) :
    FtlM (ProcOutcome σ)
  bufferRelease (ns : σ) (writeBuffer buffsToRelease : Nat) : σ

/-- The number that stands for the address of a buffer of a zoned namespace. -/
def BufferId.address : BufferId → Nat
  | .global => 0
  | .zone zid => 2 * zid + 1
  | .zrwa zid => 2 * zid + 2

/-- The buffer at an address. -/
def bufferAt (address : Nat) : BufferId :=
  if address = 0 then .global
  else if address % 2 = 1 then .zone (address / 2)
  else .zrwa (address / 2 - 1)

/-- A conventional namespace; its write buffer is the only one. -/
def convNamespace : NvmevNs ConvNs where
  procIoCmd ns storage entry sqid nsecsStart := do
    let (ns, ans) ← convProcNvmeIoCmd ns { cmd := entry.toNvmeCommand, sqId := sqid, nsecsStart }
    pure
      { ns, storage
        answer := {
          accepted := ans.accepted
          result := ans.result
          internal := ans.internal.map fun op =>
            { nsecsTarget := op.1, writeBuffer := 0, buffsToRelease := op.2 }
          entry } }
  bufferRelease ns _ buffsToRelease :=
    { ns with writeBuffer := NvmeVirt.bufferRelease ns.writeBuffer buffsToRelease }

/-- A zoned namespace. -/
def znsNamespace : NvmevNs ZnsFtl where
  procIoCmd ftl storage entry _ nsecsStart := do
    let (ftl, ans) ← { ftl with storage }.znsProcNvmeIoCmd entry.toZnsCommand nsecsStart
    pure
      { ns := ftl, storage := ftl.storage
        answer := {
          accepted := ans.accepted
          result := ans.result
          internal := ans.internal.map fun op =>
            { nsecsTarget := op.nsecsTarget, writeBuffer := op.buffer.address
              buffsToRelease := op.bytes }
          entry := if entry.opcode = .zoneAppend then entry.setSlba ans.slba else entry } }
  bufferRelease ftl writeBuffer buffsToRelease :=
    let buffer := bufferAt writeBuffer
    ftl.setBuffer buffer (NvmeVirt.bufferRelease (ftl.buffers buffer) buffsToRelease)

/-! ## `nvmev_proc_io_sq` -/

/-- The variables of `nvmev_proc_io_sq`. -/
structure SqPoll where
  sqid : Nat
  newDb : Nat
  oldDb : Nat
  numProc : Nat
  seq : Nat
  sqEntry : Nat
  deriving DecidableEq, Repr

/-- The place of the dispatcher: between two queues; at the head of the loop of `nvmev_proc_io_sq`; in
`__nvmev_proc_io`, with the answer of `proc_io_cmd` and the jobs it has yet to give to a worker. -/
inductive Dispatcher where
  | idle
  | polling (poll : SqPoll)
  | handing (poll : SqPoll) (ans : ProcAnswer) (todo : List IoJob)
  deriving Repr

/-- `nvmev_proc_io_sq` up to its loop. -/
def nvmevProcIoSq (sq : SubmissionQueue) (sqid newDb oldDb : Nat) : SqPoll where
  sqid := sqid
  newDb := newDb
  oldDb := oldDb
  numProc := if newDb < oldDb then newDb + sq.queueSize - oldDb else newDb - oldDb
  seq := 0
  sqEntry := oldDb

/-- The head moves to the next entry. -/
def SqPoll.next (poll : SqPoll) (sq : SubmissionQueue) : SqPoll :=
  { poll with
    seq := poll.seq + 1
    sqEntry := if poll.sqEntry + 1 = sq.queueSize then 0 else poll.sqEntry + 1 }

/-- `latest_db`. -/
def SqPoll.latestDb (poll : SqPoll) (sq : SubmissionQueue) : Nat :=
  (poll.oldDb + poll.seq) % sq.queueSize

/-- A `uint32_t` read as an `int`. -/
def s32 (n : Nat) : Int := if n < 2 ^ 31 then n else (n : Int) - 2 ^ 32

/-- The statistics of a queue after an entry was dispatched. -/
def SubmissionQueue.dispatched (sq : SubmissionQueue) (ioSize : Nat) : SubmissionQueue :=
  { sq with
    stat := { sq.stat with
      nrDispatched := u32 (sq.stat.nrDispatched + 1)
      nrInFlight := u32 (sq.stat.nrInFlight + 1)
      totalIo := u64 (sq.stat.totalIo + ioSize) } }

/-- The statistics of a queue after the loop; the maximum is taken of two `int`s. -/
def SubmissionQueue.polled (sq : SubmissionQueue) : SubmissionQueue :=
  { sq with
    stat := { sq.stat with
      nrDispatch := u32 (sq.stat.nrDispatch + 1)
      maxNrInFlight :=
        if s32 sq.stat.maxNrInFlight < s32 sq.stat.nrInFlight then sq.stat.nrInFlight
        else sq.stat.maxNrInFlight } }

/-- `__get_io_worker`; submission queue 0 is the admin queue. -/
def getIoWorker (nrIoWorkers sqid : Nat) : Nat := (sqid - 1) % nrIoWorkers

/-- `__nvmev_proc_io` up to the answer of `proc_io_cmd`. -/
def nvmevProcIo {σ : Type} (fns : NvmevNs σ) (ns : σ) (storage : Nat → Nat) (entry : SqEntry)
    (sqid : Nat) : FtlM (ProcOutcome σ) := do
  let nsecsStart ← cpuClock
  fns.procIoCmd ns storage entry sqid nsecsStart

/-- What is given to a worker for an answer: the operations scheduled in the call and, when the entry is
consumed, the command. -/
def ProcAnswer.jobs (ans : ProcAnswer) (sqid cqid sqEntry : Nat) : List IoJob :=
  ans.internal.map (fun op => .internal sqid op.nsecsTarget op.writeBuffer op.buffsToRelease) ++
    if ans.accepted = true then [.request sqid cqid sqEntry ans.entry.commandId ans.result] else []

/-! ## What a worker does to the device -/

/-- `memcpy`. -/
def memcpy (storage : Nat → Nat) (start length : Nat) (bytes : Nat → Nat) : Nat → Nat := fun a =>
  if start ≤ a ∧ a < start + length then bytes (a - start) else storage a

/-- `__do_perform_io` on the storage. `bytes` are the bytes of the host's pages in the order in which the
walk over the PRP entries comes to them; a read changes only these. -/
def doPerformIo (storage : Nat → Nat) (entry : SqEntry) (bytes : Nat → Nat) : Nat → Nat :=
  if entry.writes = true then memcpy storage entry.ioOffset entry.ioSize bytes else storage

/-- The part of the device a worker changes. -/
structure Outside (σ : Type) where
  ctrl : Controller
  ns : σ
  storage : Nat → Nat

/-- An action of a worker. -/
def IoAction.perform {σ : Type} (fns : NvmevNs σ) (sq : Nat → Nat → SqEntry) (bytes : Nat → Nat)
    (o : Outside σ) : IoAction → Except Fault (Outside σ)
  | .copy sqid sqEntry =>
    match o.ctrl.sqes sqid with
    | none => throw .nullPointer
    | some _ => pure { o with storage := doPerformIo o.storage (sq sqid sqEntry) bytes }
  | .fillCqResult r =>
    match o.ctrl.cqes r.cqid with
    | none => throw .nullPointer
    | some cq =>
      let cq := cq.fillCqResult r.sqid r.sqEntry r.commandId r.status r.result0 r.result1
      pure { o with ctrl := { o.ctrl with cqes := Function.update o.ctrl.cqes r.cqid (some cq) } }
  | .release writeBuffer buffsToRelease =>
    pure { o with ns := fns.bufferRelease o.ns writeBuffer buffsToRelease }

/-- The actions of a visit, one after the other. -/
def performAll {σ : Type} (fns : NvmevNs σ) (sq : Nat → Nat → SqEntry) (bytes : Nat → Nat) :
    List IoAction → Outside σ → Except Fault (Outside σ)
  | [], o => pure o
  | action :: rest, o => do
    let o ← action.perform fns sq bytes o
    performAll fns sq bytes rest o

end NvmeVirt

import NvmeVirt.Kernel
import NvmeVirt.Nvme

/-!
# The work queue of an I/O worker (`io.c`)

The queue is an array whose entries are chained by their numbers. The dispatcher takes entries from
the front of the free list (`free_seq`), inserts them into the list of pending work (`io_seq`,
sorted by target time), and puts completed ones back at the end of the free list. The worker walks
the pending list with a cursor of its own; what it does to the outside at an entry is returned as
`IoAction`s. A number of all ones is `none`. A walk of more steps than there are entries comes back
to one it has passed.

A visit is one step of the worker, and an insertion or a reclaim one of the dispatcher; the source
takes no lock between them. The copy of a visit is cut further in `Laws/Io/Pieces`, and what follows
a pass in `Io/Interrupts`. The branch for `perform_io_cmd`, the idle sleep and the time stamps are
left out.
-/

set_option autoImplicit false

namespace NvmeVirt

/-- `NR_MAX_PARALLEL_IO`. -/
def nrMaxParallelIo : Nat := 16384

/-- `struct nvmev_io_work`. -/
structure IoWork where
  sqid : Nat
  cqid : Nat
  sqEntry : Nat
  commandId : Nat
  nsecsTarget : Nat
  isCopied : Bool
  isCompleted : Bool
  status : Nat
  result0 : Nat
  result1 : Nat
  isInternal : Bool
  writeBuffer : Nat
  buffsToRelease : Nat
  next : Option Nat
  prev : Option Nat
  deriving DecidableEq, Repr

/-- `struct nvmev_io_worker`. -/
structure IoWorker where
  workQueue : Nat → IoWork
  freeSeq : Nat
  freeSeqEnd : Nat
  ioSeq : Option Nat
  ioSeqEnd : Option Nat
  latestNsecs : Nat

/-- A zeroed entry. -/
def IoWork.zero : IoWork where
  sqid := 0
  cqid := 0
  sqEntry := 0
  commandId := 0
  nsecsTarget := 0
  isCopied := false
  isCompleted := false
  status := 0
  result0 := 0
  result1 := 0
  isInternal := false
  writeBuffer := 0
  buffsToRelease := 0
  next := none
  prev := none

/-- `NVMEV_IO_WORKER_INIT`, for one worker. -/
def nvmevIoWorkerInit : IoWorker where
  workQueue i :=
    { IoWork.zero with
      next := if i + 1 < nrMaxParallelIo then some (i + 1) else none
      prev := if i = 0 then none else some (i - 1) }
  freeSeq := 0
  freeSeqEnd := nrMaxParallelIo - 1
  ioSeq := none
  ioSeqEnd := none
  latestNsecs := 0

/-- What the dispatcher has queued for the worker. -/
inductive IoJob where
  /-- A command, as `__enqueue_io_req` is called for it. -/
  | request (sqid cqid sqEntry commandId : Nat) (ret : NvmevResult)
  /-- An internal operation, as `schedule_internal_operation` is called for it. -/
  | internal (sqid nsecsTarget writeBuffer buffsToRelease : Nat)
  deriving DecidableEq, Repr

/-- The target time of a job. -/
def IoJob.nsecsTarget : IoJob → Nat
  | request _ _ _ _ ret => ret.nsecsTarget
  | internal _ nsecsTarget _ _ => nsecsTarget

/-- The submission queue a job is queued for. -/
def IoJob.sqid : IoJob → Nat
  | request sqid _ _ _ _ => sqid
  | internal sqid _ _ _ => sqid

/-- What `__fill_cq_result` takes from an entry. -/
structure CqResult where
  sqid : Nat
  cqid : Nat
  sqEntry : Nat
  commandId : Nat
  status : Nat
  result0 : Nat
  result1 : Nat
  deriving DecidableEq, Repr

def IoWork.cqResult (work : IoWork) : CqResult where
  sqid := work.sqid
  cqid := work.cqid
  sqEntry := work.sqEntry
  commandId := work.commandId
  status := work.status
  result0 := work.result0
  result1 := work.result1

/-- What the worker does at an entry, besides marking it. -/
inductive IoAction where
  /-- `__do_perform_io`. -/
  | copy (sqid sqEntry : Nat)
  /-- `__fill_cq_result`. -/
  | fillCqResult (result : CqResult)
  /-- `buffer_release`. -/
  | release (writeBuffer buffsToRelease : Nat)
  deriving DecidableEq, Repr

/-- The entry as `__enqueue_io_req` and `schedule_internal_operation` fill it; what they do not write
stays. -/
def IoJob.fill (work : IoWork) : IoJob → IoWork
  | request sqid cqid sqEntry commandId ret =>
    { work with
      sqid, cqid, sqEntry, commandId
      nsecsTarget := ret.nsecsTarget
      status := ret.status
      isCompleted := false
      isCopied := false
      prev := none
      next := none
      isInternal := false }
  | internal sqid nsecsTarget writeBuffer buffsToRelease =>
    { work with
      sqid, nsecsTarget
      isCompleted := false
      isCopied := true
      prev := none
      next := none
      isInternal := true
      writeBuffer, buffsToRelease }

namespace IoWorker

variable (worker : IoWorker)

/-- Write `work_queue[e]`. -/
def setWork (e : Nat) (work : IoWork) : IoWorker :=
  { worker with workQueue := Function.update worker.workQueue e work }

def setNext (e : Nat) (next : Option Nat) : IoWorker :=
  worker.setWork e { worker.workQueue e with next }

def setPrev (e : Nat) (prev : Option Nat) : IoWorker :=
  worker.setWork e { worker.workQueue e with prev }

/-! ## The dispatcher's side -/

/-- The search from the tail in `__insert_req_sorted`: the entry to insert behind, or `none` for the
head of the list. -/
def findPlace (nsecsTarget : Nat) : Nat → Option Nat → Except Fault (Option Nat)
  | _, none => pure none
  | 0, some _ => throw .endlessLoop
  | passes + 1, some curr =>
    if (worker.workQueue curr).nsecsTarget ≤ worker.latestNsecs then pure (some curr)
    else if (worker.workQueue curr).nsecsTarget ≤ nsecsTarget then pure (some curr)
    else findPlace nsecsTarget passes (worker.workQueue curr).prev

/-- The three ways to link an entry in: at the head, at the tail, in between. -/
def insertAt (entry first : Nat) : Option Nat → IoWorker
  | none => { (worker.setPrev first (some entry)).setNext entry (some first) with ioSeq := some entry }
  | some curr =>
    match (worker.workQueue curr).next with
    | none =>
      { (worker.setPrev entry (some curr)).setNext curr (some entry) with ioSeqEnd := some entry }
    | some after =>
      (((worker.setPrev entry (some curr)).setNext entry (some after)).setPrev after
        (some entry)).setNext curr (some entry)

/-- `__insert_req_sorted`. -/
def insertReqSorted (entry nsecsTarget : Nat) : Except Fault IoWorker :=
  match worker.ioSeq with
  | none => pure { worker with ioSeq := some entry, ioSeqEnd := some entry }
  | some first => do
    let curr ← worker.findPlace nsecsTarget nrMaxParallelIo worker.ioSeqEnd
    pure (worker.insertAt entry first curr)

/-- `__allocate_work_queue_entry` on the worker it selects: the entry after the first of the free
list, if there is one, becomes the first. -/
def allocateWorkQueueEntry : Option (Nat × IoWorker) :=
  match (worker.workQueue worker.freeSeq).next with
  | none => none
  | some next =>
    if nrMaxParallelIo ≤ next then none
    else some (worker.freeSeq, { worker with freeSeq := next })

/-- `__enqueue_io_req` and `schedule_internal_operation`: nothing is queued without an entry. -/
def enqueue (job : IoJob) : Except Fault (Option IoWorker) :=
  match worker.allocateWorkQueueEntry with
  | none => pure none
  | some (entry, worker) => do
    let worker ← (worker.setWork entry (job.fill (worker.workQueue entry))).insertReqSorted entry
      job.nsecsTarget
    pure (some worker)

/-- The loop of `__reclaim_completed_reqs` over one worker: the last entry to take back. -/
def lastReclaimed : Nat → (last curr : Option Nat) → Except Fault (Option Nat)
  | _, last, none => pure last
  | 0, _, some _ => throw .endlessLoop
  | passes + 1, last, some curr =>
    let work := worker.workQueue curr
    if work.isCompleted = true ∧ work.isCopied = true ∧ work.nsecsTarget ≤ worker.latestNsecs then
      lastReclaimed passes (some curr) work.next
    else pure last

/-- The entries from `first` to `last` go to the end of the free list. -/
def reclaimTo (first last : Nat) : IoWorker :=
  let worker := { worker with ioSeq := (worker.workQueue last).next }
  let worker :=
    match worker.ioSeq with
    | none => worker
    | some next => worker.setPrev next none
  let worker := worker.setNext last none
  let worker := worker.setPrev first (some worker.freeSeqEnd)
  let worker := worker.setNext worker.freeSeqEnd (some first)
  { worker with freeSeqEnd := last }

/-- `__reclaim_completed_reqs`, for one worker. -/
def reclaimCompletedReqs : Except Fault IoWorker :=
  match worker.ioSeq with
  | none => pure worker
  | some first => do
    match ← worker.lastReclaimed nrMaxParallelIo none (some first) with
    | none => pure worker
    | some last => pure (worker.reclaimTo first last)

/-! ## The worker's side -/

/-- The copy of `nvmev_io_worker` at an entry. -/
def copies (work : IoWork) : List IoAction :=
  if work.isCopied = true ∨ work.isInternal = true then [] else [.copy work.sqid work.sqEntry]

/-- The completion of `nvmev_io_worker` at an entry. -/
def completes (work : IoWork) : List IoAction :=
  if work.isInternal = true then [.release work.writeBuffer work.buffsToRelease]
  else [.fillCqResult work.cqResult]

/-- The body of the inner loop of `nvmev_io_worker` at the entry `curr`, with the clock at
`currNsecs`: the worker, where its cursor goes, and what it does. -/
def visit (curr currNsecs : Nat) : IoWorker × Option Nat × List IoAction :=
  let worker := { worker with latestNsecs := currNsecs }
  let work := worker.workQueue curr
  if work.isCompleted = true then (worker, work.next, [])
  else if work.nsecsTarget ≤ currNsecs then
    (worker.setWork curr { work with isCopied := true, isCompleted := true }, work.next,
      copies work ++ completes work)
  else (worker.setWork curr { work with isCopied := true }, work.next, copies work)

end IoWorker

end NvmeVirt

import NvmeVirt.Io.Queues

/-!
# Completion doorbells (`io.c`, `main.c`)

The host tells with the doorbell how far it has read a completion queue. `nvmev_proc_io_cq` walks
the entries from the old value to the new one; the indices it reads are kept. The page array of a
queue has the pages `__nvmev_admin_create_cq` allocated for it.

An entry behind the last one is read as any other while its page exists, since nothing in the source
stops that; in a page the queue does not have it is a fault. The walk changes the counts of the
submission queues and the tail, and nothing else.
-/

set_option autoImplicit false

namespace NvmeVirt

/-- The pages of a completion queue. -/
def CompletionQueue.numPages (cq : CompletionQueue) : Nat := divRoundUp (cq.queueSize * 16) 4096

/-- The submission queues after the walk so far, and the entries it read. -/
structure CqWalk where
  sqes : Nat → Option SubmissionQueue
  reads : List Nat

/-- `sqes[sqid]->stat.nr_in_flight--`, if there is such a queue. -/
def consumeSqid (sqes : Nat → Option SubmissionQueue) (sqid : Nat) :
    Except Fault (Nat → Option SubmissionQueue) :=
  if nrMaxIoQueue < sqid then throw .outOfBounds
  else
    match sqes sqid with
    | none => pure sqes
    | some sq =>
      pure (Function.update sqes sqid
        (some { sq with stat := { sq.stat with nrInFlight := sub32 sq.stat.nrInFlight 1 } }))

/-- `cq_entry(i)`: the page must exist. -/
def CompletionQueue.entry (cq : CompletionQueue) (i : Int) : Except Fault NvmeCompletion :=
  if i < 0 ∨ cq.numPages ≤ i.toNat / nrCqePerPage then throw .outOfBounds
  else pure (cq.cq i.toNat)

/-- The loop of `nvmev_proc_io_cq`: the entry is read before the index is compared with the size. -/
def procIoCqEntries (cq : CompletionQueue) (newDb : Int) : Nat → (i : Int) → CqWalk → Except Fault CqWalk
  | 0, _, _ => throw .endlessLoop
  | passes + 1, i, walk =>
    if i = newDb then pure walk
    else do
      let entry ← cq.entry i
      let reads := walk.reads ++ [i.toNat]
      if (cq.queueSize : Int) ≤ i then procIoCqEntries cq newDb passes 0 { walk with reads }
      else do
        let sqes ← consumeSqid walk.sqes entry.sqId
        procIoCqEntries cq newDb passes (i + 1) { sqes, reads }

namespace Controller

/-- `nvmev_proc_io_cq`, and the entries it read. A walk within the queue takes a pass for each entry
and one for the turn. -/
def nvmevProcIoCq (ctrl : Controller) (cqid : Nat) (newDb oldDb : Int) :
    Except Fault (Controller × List Nat) :=
  match ctrl.cqes cqid with
  | none => throw .nullPointer
  | some cq => do
    let walk ← procIoCqEntries cq newDb (2 * cq.queueSize + 2) oldDb { sqes := ctrl.sqes, reads := [] }
    let cqTail := if newDb = -1 then (cq.queueSize : Int) - 1 else newDb - 1
    pure ({ ctrl with
      sqes := walk.sqes
      cqes := Function.update ctrl.cqes cqid (some { cq with cqTail }) }, walk.reads)

end Controller

end NvmeVirt

import NvmeVirt.Kernel
import NvmeVirt.Nvme

/-!
# Queues, registers and admin commands (`nvmev.h`, `pci.c`, `admin.c`)

The queues lie in host memory; here a completion queue holds what the device wrote to it, and what
the device reads of a submission queue comes with the command. The admin queue keeps its page arrays
by their number of pages. The identify and log pages go to host memory and leave no state; what is
read for them must exist.

A ring is zeroed when its queue is created, where the source leaves the host's pages as they are; so
what is said of completions is for a host that clears them before. A handler that stores a queue in
a slot past the last stops in a fault, and so does one that uses an admin queue that is not there.
Priorities, the contiguity flags and the mapping of the pages are left out.
-/

set_option autoImplicit false

namespace NvmeVirt

/-- `NR_MAX_IO_QUEUE`. -/
def nrMaxIoQueue : Nat := 72

def nvmeScInvalidOpcode : Nat := 0x1

/-- `struct nvme_completion`. -/
structure NvmeCompletion where
  result0 : Nat
  result1 : Nat
  sqHead : Nat
  sqId : Nat
  commandId : Nat
  status : Nat
  deriving DecidableEq, Repr

/-- A zeroed completion entry. -/
def NvmeCompletion.zero : NvmeCompletion :=
  { result0 := 0, result1 := 0, sqHead := 0, sqId := 0, commandId := 0, status := 0 }

/-- `phase | (status << 1)`, in 16 bits. -/
def completionStatus (phase : Bool) (status : Nat) : Nat := (phase.toNat ||| status <<< 1) % 2 ^ 16

/-- The head and the phase after a completion was posted. -/
def advanceHead (depth head : Nat) (phase : Bool) : Nat × Bool :=
  if head + 1 = depth then (0, !phase) else (head + 1, phase)

/-- `struct nvmev_sq_stat`. -/
structure SqStat where
  nrDispatched : Nat
  nrDispatch : Nat
  nrInFlight : Nat
  maxNrInFlight : Nat
  totalIo : Nat
  deriving DecidableEq, Repr

/-- `struct nvmev_submission_queue`. -/
structure SubmissionQueue where
  qid : Nat
  cqid : Nat
  queueSize : Nat
  stat : SqStat
  deriving DecidableEq, Repr

/-- `struct nvmev_completion_queue`, with its entries. -/
structure CompletionQueue where
  qid : Nat
  irqEnabled : Bool
  irqVector : Nat
  interruptReady : Bool
  queueSize : Nat
  phase : Bool
  cqHead : Nat
  cqTail : Int
  cq : Nat → NvmeCompletion

/-- `struct nvmev_admin_queue`, with the completion entries. -/
structure AdminQueue where
  phase : Bool
  sqDepth : Nat
  cqDepth : Nat
  cqHead : Nat
  nvmeSq : Option Nat
  nvmeCq : Option Nat
  cq : Nat → NvmeCompletion

/-- The registers the host writes. -/
structure NvmeBar where
  aqa : Nat
  asq : Nat
  acq : Nat
  cc : Nat
  deriving DecidableEq, Repr

namespace NvmeBar

variable (bar : NvmeBar)

def asqs : Nat := bar.aqa % 2 ^ 12
def acqs : Nat := bar.aqa / 2 ^ 16 % 2 ^ 12
def en : Nat := bar.cc % 2
def shn : Nat := bar.cc / 2 ^ 14 % 4

end NvmeBar

/-- `csts`. -/
structure ControllerStatus where
  rdy : Nat
  shst : Nat
  deriving DecidableEq, Repr

/-- The part of `struct nvmev_dev` behind the registers and the admin queue. -/
structure Controller where
  bar : NvmeBar
  oldBar : NvmeBar
  csts : ControllerStatus
  dbs : Nat → Nat
  oldDbs : Nat → Nat
  nrNs : Nat
  nrSq : Nat
  nrCq : Nat
  adminQ : Option AdminQueue
  sqes : Nat → Option SubmissionQueue
  cqes : Nat → Option CompletionQueue

/-! ## Posting -/

/-- `__fill_cq_result` on its queue. -/
def CompletionQueue.fillCqResult (cq : CompletionQueue)
    (sqid sqEntry commandId status result0 result1 : Nat) :
    CompletionQueue :=
  { cq with
    cq := Function.update cq.cq cq.cqHead
      { result0, result1, sqHead := sqEntry, sqId := sqid, commandId
        status := completionStatus cq.phase status }
    cqHead := (advanceHead cq.queueSize cq.cqHead cq.phase).1
    phase := (advanceHead cq.queueSize cq.cqHead cq.phase).2
    interruptReady := true }

/-- `NR_CQE_PER_PAGE` and `NR_SQE_PER_PAGE`. -/
def nrCqePerPage : Nat := 4096 / 16
def nrSqePerPage : Nat := 4096 / 64

/-- `__make_cq_entry_results` on the admin queue. -/
def AdminQueue.makeCqEntryResults (q : AdminQueue) (eid commandId ret result0 result1 : Nat) :
    Except Fault AdminQueue :=
  match q.nvmeCq with
  | none => throw .nullPointer
  | some pages =>
    if pages ≤ q.cqHead / nrCqePerPage then throw .outOfBounds
    else pure { q with
      cq := Function.update q.cq q.cqHead
        { result0, result1, sqHead := eid, sqId := 0, commandId
          status := completionStatus q.phase ret }
      cqHead := (advanceHead q.cqDepth q.cqHead q.phase).1
      phase := (advanceHead q.cqDepth q.cqHead q.phase).2 }

namespace Controller

variable (ctrl : Controller)

/-- `__make_cq_entry_results`. -/
def makeCqEntryResults (eid commandId ret result0 result1 : Nat) : Except Fault Controller :=
  match ctrl.adminQ with
  | none => throw .nullPointer
  | some q => do
    let q ← q.makeCqEntryResults eid commandId ret result0 result1
    pure { ctrl with adminQ := some q }

/-- `__make_cq_entry`. -/
def makeCqEntry (eid commandId ret : Nat) : Except Fault Controller :=
  ctrl.makeCqEntryResults eid commandId ret 0 0

/-- Both copies of a doorbell are zeroed. -/
def resetDoorbell (idx : Nat) : Controller :=
  { ctrl with dbs := Function.update ctrl.dbs idx 0, oldDbs := Function.update ctrl.oldDbs idx 0 }

/-! ## Registers -/

/-- What `nvmev_proc_bars` finds changed, in the order it looks. -/
inductive BarChange where
  | aqa | asq | acq | cc
  deriving DecidableEq, Repr

def barChange : Option BarChange :=
  if ctrl.oldBar.aqa ≠ ctrl.bar.aqa then some .aqa
  else if ctrl.oldBar.asq ≠ ctrl.bar.asq then some .asq
  else if ctrl.oldBar.acq ≠ ctrl.bar.acq then some .acq
  else if ctrl.oldBar.cc ≠ ctrl.bar.cc then some .cc
  else none

/-- A zeroed admin queue. -/
def newAdminQueue : AdminQueue where
  phase := false
  sqDepth := 0
  cqDepth := 0
  cqHead := 0
  nvmeSq := none
  nvmeCq := none
  cq := fun _ => NvmeCompletion.zero

/-- The branch of `nvmev_proc_bars` for `aqa`. -/
def procAqa : Controller :=
  let q := ctrl.adminQ.getD newAdminQueue
  let ctrl := { ctrl with
    oldBar := { ctrl.oldBar with aqa := ctrl.bar.aqa }
    adminQ := some { q with
      cqHead := 0
      phase := true
      sqDepth := ctrl.bar.asqs + 1
      cqDepth := ctrl.bar.acqs + 1 } }
  (ctrl.resetDoorbell 0).resetDoorbell 1

/-- The branch for `asq`; without an admin queue it is tried again. -/
def procAsq : Controller :=
  match ctrl.adminQ with
  | none => ctrl
  | some q =>
    let depth := ctrl.bar.asqs + 1
    let ctrl := { ctrl with
      oldBar := { ctrl.oldBar with asq := ctrl.bar.asq }
      adminQ := some { q with sqDepth := depth, nvmeSq := some (divRoundUp depth nrSqePerPage) } }
    ctrl.resetDoorbell 0

/-- The branch for `acq`; without an admin queue it is tried again. -/
def procAcq : Controller :=
  match ctrl.adminQ with
  | none => ctrl
  | some q =>
    let depth := ctrl.bar.acqs + 1
    let ctrl := { ctrl with
      oldBar := { ctrl.oldBar with acq := ctrl.bar.acq }
      adminQ := some { q with
        cqDepth := depth
        nvmeCq := some (divRoundUp depth nrCqePerPage)
        cqHead := 0
        phase := true } }
    ctrl.resetDoorbell 1

/-- Enabling: ready, if there is an admin queue. -/
def enable : Controller :=
  if ctrl.bar.en = 1 then
    match ctrl.adminQ with
    | none => ctrl
    | some _ => { ctrl with csts := { ctrl.csts with rdy := 1 } }
  else { ctrl with csts := { ctrl.csts with rdy := 0 } }

/-- Shutdown. -/
def shutdown : Except Fault Controller :=
  let ctrl := { ctrl with csts := { ctrl.csts with shst := 2 } }
  let ctrl := (ctrl.resetDoorbell 0).resetDoorbell 1
  match ctrl.adminQ with
  | none => throw .nullPointer
  | some q => pure { ctrl with adminQ := some { q with cqHead := 0 } }

/-- Enabling or disabling, and the shutdown if it is asked for. -/
def enableOrShutdown : Except Fault Controller :=
  if ctrl.bar.shn = 1 then ctrl.enable.shutdown else pure ctrl.enable

/-- The branch for `cc`. -/
def procCc : Except Fault Controller := do
  let ctrl ← ctrl.enableOrShutdown
  pure { ctrl with oldBar := { ctrl.oldBar with cc := ctrl.bar.cc } }

/-- `nvmev_proc_bars`, and whether an event was processed. -/
def nvmevProcBars : Except Fault (Controller × Bool) :=
  match ctrl.barChange with
  | some .aqa => pure (ctrl.procAqa, true)
  | some .asq => pure (ctrl.procAsq, true)
  | some .acq => pure (ctrl.procAcq, true)
  | some .cc => do
    let ctrl ← ctrl.procCc
    pure (ctrl, true)
  | none => pure (ctrl, false)

end Controller

/-! ## Admin commands -/

/-- The opcodes `__nvmev_proc_admin_req` tells apart. -/
inductive AdminOpcode where
  | deleteSq | createSq | getLogPage | deleteCq | createCq | identify | abortCmd | setFeatures
  | getFeatures | asyncEvent | other
  deriving DecidableEq, Repr

/-- The log pages `__nvmev_admin_get_log_page` tells apart. -/
inductive LogPage where
  | smart | cmdEffects | other
  deriving DecidableEq, Repr

/-- The size of what a log page is copied from: `struct nvme_smart_log` and `struct nvme_effects_log`. -/
def LogPage.size : LogPage → Option Nat
  | .smart => some 512
  | .cmdEffects => some 4096
  | .other => none

/-- An admin submission entry: the fields the handlers read, under the names of the commands that have
them. -/
structure AdminCommand where
  opcode : AdminOpcode
  commandId : Nat
  qid : Nat
  cqid : Nat
  qsize : Nat
  irqEnabled : Bool
  irqVector : Nat
  nsid : Nat
  lid : LogPage
  numdl : Nat
  numdu : Nat
  cns : Nat
  numQueues : Bool
  dword11 : Nat
  deriving DecidableEq, Repr

/-- The length of a log page, in 32 bits. -/
def AdminCommand.logLen (cmd : AdminCommand) : Nat :=
  u32 (u32 (((cmd.numdu <<< 16) ||| cmd.numdl) + 1) <<< 2)

namespace Controller

variable (ctrl : Controller)

/-- `sqes[qid] = sq`. -/
def setSq (qid : Nat) (sq : Option SubmissionQueue) : Except Fault Controller :=
  if nrMaxIoQueue < qid then throw .outOfBounds
  else pure { ctrl with sqes := Function.update ctrl.sqes qid sq }

/-- `cqes[qid] = cq`. -/
def setCq (qid : Nat) (cq : Option CompletionQueue) : Except Fault Controller :=
  if nrMaxIoQueue < qid then throw .outOfBounds
  else pure { ctrl with cqes := Function.update ctrl.cqes qid cq }

/-- The queue `__nvmev_admin_create_cq` makes. -/
def newCompletionQueue (cmd : AdminCommand) : CompletionQueue where
  qid := cmd.qid
  irqEnabled := cmd.irqEnabled
  irqVector := if cmd.irqEnabled = true then cmd.irqVector else 0
  interruptReady := false
  queueSize := cmd.qsize + 1
  phase := true
  cqHead := 0
  cqTail := -1
  cq := fun _ => NvmeCompletion.zero

/-- The queue `__nvmev_admin_create_sq` makes. -/
def newSubmissionQueue (cmd : AdminCommand) : SubmissionQueue where
  qid := cmd.qid
  cqid := cmd.cqid
  queueSize := cmd.qsize + 1
  stat := { nrDispatched := 0, nrDispatch := 0, nrInFlight := 0, maxNrInFlight := 0, totalIo := 0 }

/-- `__nvmev_admin_create_cq`. -/
def adminCreateCq (eid : Nat) (cmd : AdminCommand) : Except Fault Controller := do
  let ctrl ← ctrl.setCq cmd.qid (some (newCompletionQueue cmd))
  (ctrl.resetDoorbell (cmd.qid * 2 + 1)).makeCqEntry eid cmd.commandId nvmeScSuccess

/-- `__nvmev_admin_delete_cq`. -/
def adminDeleteCq (eid : Nat) (cmd : AdminCommand) : Except Fault Controller := do
  let ctrl ← ctrl.setCq cmd.qid none
  ctrl.makeCqEntry eid cmd.commandId nvmeScSuccess

/-- `__nvmev_admin_create_sq`. -/
def adminCreateSq (eid : Nat) (cmd : AdminCommand) : Except Fault Controller := do
  let ctrl ← ctrl.setSq cmd.qid (some (newSubmissionQueue cmd))
  (ctrl.resetDoorbell (cmd.qid * 2)).makeCqEntry eid cmd.commandId nvmeScSuccess

/-- `__nvmev_admin_delete_sq`. -/
def adminDeleteSq (eid : Nat) (cmd : AdminCommand) : Except Fault Controller := do
  let ctrl ← ctrl.setSq cmd.qid none
  ctrl.makeCqEntry eid cmd.commandId nvmeScSuccess

/-- `__nvmev_admin_get_log_page`: as many bytes as the host asks for are copied. -/
def adminGetLogPage (eid : Nat) (cmd : AdminCommand) : Except Fault Controller :=
  match cmd.lid.size with
  | none => ctrl.makeCqEntry eid cmd.commandId nvmeScSuccess
  | some size =>
    if size < cmd.logLen then throw .outOfBounds
    else ctrl.makeCqEntry eid cmd.commandId nvmeScSuccess

/-- `__nvmev_admin_identify_namespace`, `__nvmev_admin_identify_namespace_desc` and
`__nvmev_admin_identify_zns_namespace`: each reads `ns[nsid - 1]`. -/
def adminIdentifyNs (eid : Nat) (cmd : AdminCommand) : Except Fault Controller :=
  if cmd.nsid = 0 ∨ ctrl.nrNs < cmd.nsid then throw .outOfBounds
  else ctrl.makeCqEntry eid cmd.commandId nvmeScSuccess

/-- `__nvmev_admin_identify`; the controller pages and the list of namespaces read no namespace. -/
def adminIdentify (eid : Nat) (cmd : AdminCommand) : Except Fault Controller :=
  if cmd.cns ∈ [0x00, 0x03, 0x05] then ctrl.adminIdentifyNs eid cmd
  else if cmd.cns ∈ [0x01, 0x02, 0x06] then ctrl.makeCqEntry eid cmd.commandId nvmeScSuccess
  else ctrl.makeCqEntry eid cmd.commandId nvmeScInvalidOpcode

/-- The result of both feature commands for the number of queues. -/
def numQueuesResult : Nat := u32 (sub32 ctrl.nrCq 1 <<< 16 ||| sub32 ctrl.nrSq 1)

/-- `__nvmev_admin_set_features`. -/
def adminSetFeatures (eid : Nat) (cmd : AdminCommand) : Except Fault Controller :=
  if cmd.numQueues = true then
    let ctrl := { ctrl with
      nrSq := min (cmd.dword11 % 2 ^ 16 + 1) nrMaxIoQueue
      nrCq := min (cmd.dword11 / 2 ^ 16 % 2 ^ 16 + 1) nrMaxIoQueue }
    ctrl.makeCqEntryResults eid cmd.commandId nvmeScSuccess ctrl.numQueuesResult 0
  else ctrl.makeCqEntryResults eid cmd.commandId nvmeScSuccess 0 0

/-- `__nvmev_admin_get_features`. -/
def adminGetFeatures (eid : Nat) (cmd : AdminCommand) : Except Fault Controller :=
  if cmd.numQueues = true then
    ctrl.makeCqEntryResults eid cmd.commandId nvmeScSuccess ctrl.numQueuesResult 0
  else ctrl.makeCqEntryResults eid cmd.commandId nvmeScSuccess 0 0

/-- The admin entry `eid` can be read. -/
def checkSqEntry (eid : Nat) : Except Fault Unit :=
  match ctrl.adminQ.bind AdminQueue.nvmeSq with
  | none => throw .nullPointer
  | some pages => if pages ≤ eid / nrSqePerPage then throw .outOfBounds else pure ()

/-- `__nvmev_proc_admin_req`. -/
def procAdminReq (eid : Nat) (cmd : AdminCommand) : Except Fault Controller := do
  ctrl.checkSqEntry eid
  match cmd.opcode with
  | .deleteSq => ctrl.adminDeleteSq eid cmd
  | .createSq => ctrl.adminCreateSq eid cmd
  | .getLogPage => ctrl.adminGetLogPage eid cmd
  | .deleteCq => ctrl.adminDeleteCq eid cmd
  | .createCq => ctrl.adminCreateCq eid cmd
  | .identify => ctrl.adminIdentify eid cmd
  | .abortCmd => pure ctrl
  | .setFeatures => ctrl.adminSetFeatures eid cmd
  | .getFeatures => ctrl.adminGetFeatures eid cmd
  | .asyncEvent => ctrl.makeCqEntry eid cmd.commandId nvmeScSuccess
  | .other => ctrl.makeCqEntry eid cmd.commandId nvmeScInvalidOpcode

/-- The loop of `nvmev_proc_admin_sq`, from the entry `curr` on. -/
def procAdminEntries (sq : Nat → AdminCommand) (sqDepth : Nat) :
    Nat → (curr : Nat) → Controller → Except Fault Controller
  | 0, _, ctrl => pure ctrl
  | numProc + 1, curr, ctrl => do
    let ctrl ← ctrl.procAdminReq curr (sq curr)
    procAdminEntries sq sqDepth numProc (if curr + 1 = sqDepth then 0 else curr + 1) ctrl

/-- `nvmev_proc_admin_sq`. -/
def nvmevProcAdminSq (sq : Nat → AdminCommand) (newDb oldDb : Nat) : Except Fault Controller :=
  match ctrl.adminQ with
  | none => throw .nullPointer
  | some q =>
    let numProc := if newDb < oldDb then newDb + q.sqDepth - oldDb else newDb - oldDb
    procAdminEntries sq q.sqDepth numProc oldDb ctrl

end Controller

end NvmeVirt

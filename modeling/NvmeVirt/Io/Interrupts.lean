import NvmeVirt.Lib.System
import NvmeVirt.Io.Dispatch

/-!
# Interrupts (`io.c`, `pci.c`)

A worker that posts a completion raises `interrupt_ready` of the queue; after each pass every worker
goes over the completion queues that are its own and signals those whose flag is up. All workers run at
once, so both pieces of code are cut between any two accesses to what they share: `IrqPlace` is the place
of a worker, `IrqStep` one access.
-/

set_option autoImplicit false

namespace NvmeVirt

/-- `__fill_cq_result` up to the flag. -/
def CompletionQueue.fillEntry (cq : CompletionQueue) (r : CqResult) : CompletionQueue :=
  { cq.fillCqResult r.sqid r.sqEntry r.commandId r.status r.result0 r.result1 with
    interruptReady := cq.interruptReady }

def CompletionQueue.setReady (cq : CompletionQueue) (interruptReady : Bool) : CompletionQueue :=
  { cq with interruptReady }

/-- What `nvmev_signal_irq` raises: the interrupt of a vector, or the pin. -/
inductive IrqSignal where
  | msix (msiIndex : Nat)
  | pin
  deriving DecidableEq, Repr

/-- `nvmev_signal_irq`. -/
def nvmevSignalIrq (msixEnabled : Bool) (msiIndex : Nat) : IrqSignal :=
  if msixEnabled = true then .msix msiIndex else .pin

/-- The place of a worker. -/
inductive IrqPlace where
  /-- In the loop over its work queue. -/
  | serving
  /-- In `__fill_cq_result`: the entry is written, the flag is not. -/
  | filled (qid : Nat)
  /-- At the head of the loop over the completion queues. -/
  | sweep (qidx : Nat)
  /-- `irq_lock` is taken. -/
  | locked (qidx : Nat)
  /-- `interrupt_ready` was found up. -/
  | found (qidx : Nat)
  /-- `interrupt_ready` is taken down. -/
  | cleared (qidx : Nat)
  /-- Before `mutex_unlock`. -/
  | unlocking (qidx : Nat)
  deriving DecidableEq, Repr

/-- The completion queues, their locks and the workers. Beside them: how many completions were posted to
a queue, how many of them when it was last signalled, and the signals. -/
structure IrqRun where
  cqes : Nat → Option CompletionQueue
  nrCq : Nat
  nrIoWorkers : Nat
  msixEnabled : Bool
  entryLock : Nat → Option Nat
  irqLock : Nat → Option Nat
  place : Nat → IrqPlace
  posted : Nat → Nat
  covered : Nat → Nat
  signals : List (Nat × IrqSignal)

inductive IrqEvent where
  /-- The dispatcher creates a completion queue. -/
  | createCq (cmd : AdminCommand)
  /-- The host turns MSI-X on or off. -/
  | setMsix (enabled : Bool)
  | fill (w qid : Nat) (result : CqResult)
  /-- The next access of a worker that is not in its work queue. -/
  | advance (w : Nat)
  /-- The worker has come to the end of its work queue. -/
  | startSweep (w : Nat)

namespace IrqRun

variable (s : IrqRun)

def goto (w : Nat) (place : IrqPlace) : IrqRun :=
  { s with place := Function.update s.place w place }

def setCq (qid : Nat) (cq : CompletionQueue) : IrqRun :=
  { s with cqes := Function.update s.cqes qid (some cq) }

/-- The run after a completion queue was created. -/
def created (cmd : AdminCommand) : IrqRun :=
  { s with cqes := Function.update s.cqes cmd.qid (some (Controller.newCompletionQueue cmd)) }

/-- The run once the worker `w` has written the entry. -/
def wrote (w qid : Nat) (cq : CompletionQueue) (result : CqResult) : IrqRun :=
  { (s.setCq qid (cq.fillEntry result)).goto w (.filled qid) with
    entryLock := Function.update s.entryLock qid (some w)
    posted := Function.update s.posted qid (s.posted qid + 1) }

/-- The run once the flag is up and `entry_lock` given back. -/
def raised (w qid : Nat) (cq : CompletionQueue) : IrqRun :=
  { (s.setCq qid (cq.setReady true)).goto w .serving with
    entryLock := Function.update s.entryLock qid none }

/-- The worker `w` looks after the queue `qidx`: the queue exists, has interrupts, and is the worker's. -/
def watches (w qidx : Nat) : Bool :=
  getIoWorker s.nrIoWorkers qidx = w ∧ ((s.cqes qidx).any fun cq => cq.irqEnabled) = true

def tookLock (w qidx : Nat) : IrqRun :=
  { s.goto w (.locked qidx) with irqLock := Function.update s.irqLock qidx (some w) }

def tookDown (w qidx : Nat) (cq : CompletionQueue) : IrqRun :=
  (s.setCq qidx (cq.setReady false)).goto w (.cleared qidx)

def signalled (w qidx : Nat) (cq : CompletionQueue) : IrqRun :=
  { s.goto w (.unlocking qidx) with
    covered := Function.update s.covered qidx (s.posted qidx)
    signals := s.signals ++ [(qidx, nvmevSignalIrq s.msixEnabled cq.irqVector)] }

def unlocked (w qidx : Nat) : IrqRun :=
  { s.goto w (.sweep (qidx + 1)) with irqLock := Function.update s.irqLock qidx none }

end IrqRun

inductive IrqStep : IrqRun → IrqEvent → IrqRun → Prop where
  | createCq {s : IrqRun} {cmd : AdminCommand} : s.cqes cmd.qid = none →
    IrqStep s (.createCq cmd) (s.created cmd)
  | setMsix {s : IrqRun} {enabled : Bool} :
    IrqStep s (.setMsix enabled) { s with msixEnabled := enabled }
  | fill {s : IrqRun} {w qid : Nat} {cq : CompletionQueue} {result : CqResult} :
    s.place w = .serving → s.cqes qid = some cq → s.entryLock qid = none →
    IrqStep s (.fill w qid result) (s.wrote w qid cq result)
  | raise {s : IrqRun} {w qid : Nat} {cq : CompletionQueue} :
    s.place w = .filled qid → s.cqes qid = some cq → IrqStep s (.advance w) (s.raised w qid cq)
  | startSweep {s : IrqRun} {w : Nat} : s.place w = .serving →
    IrqStep s (.startSweep w) (s.goto w (.sweep 1))
  | skip {s : IrqRun} {w qidx : Nat} : s.place w = .sweep qidx → qidx ≤ s.nrCq →
    s.watches w qidx = false → IrqStep s (.advance w) (s.goto w (.sweep (qidx + 1)))
  | busy {s : IrqRun} {w qidx : Nat} : s.place w = .sweep qidx → qidx ≤ s.nrCq →
    s.watches w qidx = true → s.irqLock qidx ≠ none →
    IrqStep s (.advance w) (s.goto w (.sweep (qidx + 1)))
  | lock {s : IrqRun} {w qidx : Nat} : s.place w = .sweep qidx → qidx ≤ s.nrCq →
    s.watches w qidx = true → s.irqLock qidx = none → IrqStep s (.advance w) (s.tookLock w qidx)
  | down {s : IrqRun} {w qidx : Nat} {cq : CompletionQueue} : s.place w = .locked qidx →
    s.cqes qidx = some cq → cq.interruptReady = false →
    IrqStep s (.advance w) (s.goto w (.unlocking qidx))
  | up {s : IrqRun} {w qidx : Nat} {cq : CompletionQueue} : s.place w = .locked qidx →
    s.cqes qidx = some cq → cq.interruptReady = true →
    IrqStep s (.advance w) (s.goto w (.found qidx))
  | clear {s : IrqRun} {w qidx : Nat} {cq : CompletionQueue} : s.place w = .found qidx →
    s.cqes qidx = some cq → IrqStep s (.advance w) (s.tookDown w qidx cq)
  | signal {s : IrqRun} {w qidx : Nat} {cq : CompletionQueue} : s.place w = .cleared qidx →
    s.cqes qidx = some cq → IrqStep s (.advance w) (s.signalled w qidx cq)
  | unlock {s : IrqRun} {w qidx : Nat} : s.place w = .unlocking qidx →
    IrqStep s (.advance w) (s.unlocked w qidx)
  | endSweep {s : IrqRun} {w qidx : Nat} : s.place w = .sweep qidx → s.nrCq < qidx →
    IrqStep s (.advance w) (s.goto w .serving)

/-- Runs from the start of the workers, before any completion queue is there. -/
def irqRuns : System IrqRun IrqEvent where
  init s := (∀ qid, s.cqes qid = none) ∧ (∀ qid, s.entryLock qid = none) ∧
    (∀ qid, s.irqLock qid = none) ∧ (∀ w, s.place w = .serving) ∧ (∀ qid, s.posted qid = 0) ∧
    (∀ qid, s.covered qid = 0) ∧ s.signals = []
  step := IrqStep

end NvmeVirt

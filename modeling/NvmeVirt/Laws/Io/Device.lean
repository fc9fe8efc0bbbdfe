import NvmeVirt.Io.Dispatch
import NvmeVirt.Laws.Io.Admin
import NvmeVirt.Laws.Io.Integrity

/-!
# Runs of the device

A run interleaves the host, the dispatcher and any number of workers. The host writes submission
entries and doorbells; the dispatcher takes the steps of `nvmev_proc_io_sq` for any queue whose
doorbell has moved, and between two queues an admin command; a worker starts a pass or visits an
entry. What `proc_io_cmd` does comes from the functions of the namespace. A visit is one step, the
copy of its command included. `__do_perform_io` goes page by page and takes no lock, so this leaves
out runs in which two workers copy over a common byte at the same time; what the copies do to the
storage when they are made in pieces is a matter of its own (`PieceStep`).

Beside the device a run keeps a history: what `proc_io_cmd` answered, the slots accepted from each
queue since it was created, the incarnations of the queues, those each job was queued for, and what
the storage would be had only commands that end in success changed it.
-/

set_option autoImplicit false

namespace NvmeVirt

/-- An answer of `proc_io_cmd`, with the queues and the slot of the command. -/
structure Answered where
  sqid : Nat
  cqid : Nat
  sqEntry : Nat
  answer : ProcAnswer

/-- What the answer gives to a worker. -/
def Answered.jobs (a : Answered) : List IoJob := a.answer.jobs a.sqid a.cqid a.sqEntry

/-- The device, the host's submission entries, and the history. -/
structure DeviceRun (σ : Type) where
  ctrl : Controller
  sq : Nat → Nat → SqEntry
  ns : σ
  storage : Nat → Nat
  nrIoWorkers : Nat
  workers : Nat → WorkerRun
  dispatcher : Dispatcher
  answers : List Answered
  accepted : Nat → List Nat
  sqGen : Nat → Nat
  cqGen : Nat → Nat
  queuedFor : Nat → Nat → Nat × Nat
  kept : Nat → Nat

inductive DeviceEvent where
  | writeEntry (qid slot : Nat) (entry : SqEntry)
  | writeDoorbell (idx value : Nat)
  | adminReq (eid : Nat) (cmd : AdminCommand)
  /-- The dispatcher comes to a queue whose doorbell has moved. -/
  | pollSq (qid : Nat)
  /-- `proc_io_cmd` is called for the entry at the head. -/
  | attempt
  /-- The next job is given to its worker. -/
  | handOver
  /-- `__nvmev_proc_io` ends with `true`. -/
  | passed
  /-- The loop ends. -/
  | finish
  | startPass (w : Nat)
  | visit (w currNsecs : Nat) (bytes : Nat → Nat)

namespace DeviceRun

variable {σ : Type} (s : DeviceRun σ)

/-- What the workers change. -/
def outside : Outside σ := { ctrl := s.ctrl, ns := s.ns, storage := s.storage }

/-- The run after an admin command. -/
def afterAdmin (ctrl' : Controller) (cmd : AdminCommand) : DeviceRun σ :=
  { s with
    ctrl := ctrl'
    accepted := if cmd.opcode = .createSq then Function.update s.accepted cmd.qid [] else s.accepted
    sqGen :=
      if cmd.opcode = .createSq then Function.update s.sqGen cmd.qid (s.sqGen cmd.qid + 1)
      else s.sqGen
    cqGen :=
      if cmd.opcode = .createCq then Function.update s.cqGen cmd.qid (s.cqGen cmd.qid + 1)
      else s.cqGen }

/-- The run at the head of the loop of `nvmev_proc_io_sq`. -/
def polls (qid : Nat) (sq : SubmissionQueue) : DeviceRun σ :=
  { s with
    dispatcher := .polling
      (nvmevProcIoSq sq qid (s.ctrl.dbs (qid * 2)) (s.ctrl.oldDbs (qid * 2))) }

/-- What the call of `proc_io_cmd` makes of the storage that only successful commands change. -/
def keptAfter (fns : NvmevNs σ) (poll : SqPoll) (env : Env) (out : ProcOutcome σ) : Nat → Nat :=
  if out.answer.result.status = nvmeScSuccess then
    match (nvmevProcIo fns s.ns s.kept (s.sq poll.sqid poll.sqEntry) poll.sqid).run env with
    | .ok (out, _) => out.storage
    | .error _ => s.kept
  else s.kept

/-- The run after a call of `proc_io_cmd`. -/
def answered (poll : SqPoll) (sq : SubmissionQueue) (out : ProcOutcome σ) (kept : Nat → Nat) :
    DeviceRun σ :=
  { s with
    sq := Function.update s.sq poll.sqid
      (Function.update (s.sq poll.sqid) poll.sqEntry out.answer.entry)
    ns := out.ns
    storage := out.storage
    dispatcher := .handing poll out.answer (out.answer.jobs poll.sqid sq.cqid poll.sqEntry)
    answers := s.answers ++
      [{ sqid := poll.sqid, cqid := sq.cqid, sqEntry := poll.sqEntry, answer := out.answer }]
    kept }

/-- The incarnations of the queues a job is for. -/
def incarnations : IoJob → Nat × Nat
  | .request sqid cqid _ _ _ => (s.sqGen sqid, s.cqGen cqid)
  | .internal _ _ _ _ => (0, 0)

/-- The run once a job is in the queue of the worker `w`. -/
def gave (w : Nat) (worker' : IoWorker) (job : IoJob) (dispatcher : Dispatcher) : DeviceRun σ :=
  { s with
    workers := Function.update s.workers w ((s.workers w).queue worker' job)
    dispatcher
    queuedFor := Function.update s.queuedFor w
      (Function.update (s.queuedFor w) (s.workers w).jobs.length (s.incarnations job)) }

/-- All workers once `__reclaim_completed_reqs` has come to them. -/
def reclaimed (workers' : Nat → IoWorker) (w : Nat) : WorkerRun :=
  if w < s.nrIoWorkers then { s.workers w with worker := workers' w } else s.workers w

/-- The run after an entry was dispatched. -/
def dispatched (poll : SqPoll) (sq : SubmissionQueue) (ioSize : Nat) (workers' : Nat → IoWorker) :
    DeviceRun σ :=
  { s with
    ctrl := { s.ctrl with
      sqes := Function.update s.ctrl.sqes poll.sqid (some (sq.dispatched ioSize)) }
    workers := s.reclaimed workers'
    dispatcher := .polling (poll.next sq)
    accepted := Function.update s.accepted poll.sqid (s.accepted poll.sqid ++ [poll.sqEntry]) }

/-- The run after the loop. -/
def finished (poll : SqPoll) (sq : SubmissionQueue) : DeviceRun σ :=
  { s with
    ctrl := { s.ctrl with
      sqes := Function.update s.ctrl.sqes poll.sqid (some sq.polled)
      oldDbs := Function.update s.ctrl.oldDbs (poll.sqid * 2) (poll.latestDb sq) }
    dispatcher := .idle }

/-- The run once the worker `w` has started a pass. -/
def startedPass (w : Nat) : DeviceRun σ :=
  { s with
    workers := Function.update s.workers w
      { s.workers w with cursor := (s.workers w).worker.ioSeq } }

/-- The actions of a visit of the worker `w` at its entry `curr`. -/
def actions (w curr currNsecs : Nat) : List IoAction :=
  ((s.workers w).worker.visit curr currNsecs).2.2

/-- The storage after the copies among some actions. -/
def copied (bytes storage : Nat → Nat) : List IoAction → Nat → Nat
  | [] => storage
  | .copy sqid sqEntry :: rest => copied bytes (doPerformIo storage (s.sq sqid sqEntry) bytes) rest
  | _ :: rest => copied bytes storage rest

/-- The run after a visit. -/
def visited (w curr currNsecs : Nat) (bytes : Nat → Nat) (o : Outside σ) : DeviceRun σ :=
  { s with
    ctrl := o.ctrl
    ns := o.ns
    storage := o.storage
    workers := Function.update s.workers w ((s.workers w).visited curr currNsecs)
    kept :=
      if ((s.workers w).worker.workQueue curr).status = nvmeScSuccess then
        s.copied bytes s.kept (s.actions w curr currNsecs)
      else s.kept }

end DeviceRun

/-- The steps of a run. -/
inductive DeviceStep {σ : Type} (fns : NvmevNs σ) :
    DeviceRun σ → DeviceEvent → DeviceRun σ → Prop where
  | writeEntry {s : DeviceRun σ} {qid slot : Nat} {entry : SqEntry} :
    DeviceStep fns s (.writeEntry qid slot entry)
      { s with sq := Function.update s.sq qid (Function.update (s.sq qid) slot entry) }
  | writeDoorbell {s : DeviceRun σ} {idx value : Nat} :
    DeviceStep fns s (.writeDoorbell idx value)
      { s with ctrl := { s.ctrl with dbs := Function.update s.ctrl.dbs idx value } }
  | adminReq {s : DeviceRun σ} {eid : Nat} {cmd : AdminCommand} {ctrl' : Controller} :
    s.dispatcher = .idle → s.ctrl.procAdminReq eid cmd = .ok ctrl' →
    DeviceStep fns s (.adminReq eid cmd) (s.afterAdmin ctrl' cmd)
  | pollSq {s : DeviceRun σ} {qid : Nat} {sq : SubmissionQueue} :
    s.dispatcher = .idle → 1 ≤ qid → qid ≤ s.ctrl.nrSq → s.ctrl.sqes qid = some sq →
    s.ctrl.dbs (qid * 2) ≠ s.ctrl.oldDbs (qid * 2) →
    DeviceStep fns s (.pollSq qid) (s.polls qid sq)
  | attempt {s : DeviceRun σ} {poll : SqPoll} {sq : SubmissionQueue} {env env' : Env}
    {out : ProcOutcome σ} :
    s.dispatcher = .polling poll → poll.seq < poll.numProc → s.ctrl.sqes poll.sqid = some sq →
    (nvmevProcIo fns s.ns s.storage (s.sq poll.sqid poll.sqEntry) poll.sqid).run env =
      .ok (out, env') →
    DeviceStep fns s .attempt (s.answered poll sq out (s.keptAfter fns poll env out))
  | gave {s : DeviceRun σ} {poll : SqPoll} {ans : ProcAnswer} {job : IoJob} {todo : List IoJob}
    {worker' : IoWorker} :
    s.dispatcher = .handing poll ans (job :: todo) →
    (s.workers (getIoWorker s.nrIoWorkers job.sqid)).worker.enqueue job = .ok (some worker') →
    DeviceStep fns s .handOver
      (s.gave (getIoWorker s.nrIoWorkers job.sqid) worker' job (.handing poll ans todo))
  | lost {s : DeviceRun σ} {poll : SqPoll} {ans : ProcAnswer} {job : IoJob} {todo : List IoJob} :
    s.dispatcher = .handing poll ans (job :: todo) →
    (s.workers (getIoWorker s.nrIoWorkers job.sqid)).worker.enqueue job = .ok none →
    DeviceStep fns s .handOver { s with dispatcher := .handing poll ans todo }
  | passed {s : DeviceRun σ} {poll : SqPoll} {ans : ProcAnswer} {sq : SubmissionQueue}
    {workers' : Nat → IoWorker} :
    s.dispatcher = .handing poll ans [] → ans.accepted = true →
    s.ctrl.sqes poll.sqid = some sq →
    (∀ w, w < s.nrIoWorkers → (s.workers w).worker.reclaimCompletedReqs = .ok (workers' w)) →
    DeviceStep fns s .passed (s.dispatched poll sq ans.entry.ioSize workers')
  | refused {s : DeviceRun σ} {poll : SqPoll} {ans : ProcAnswer} {sq : SubmissionQueue} :
    s.dispatcher = .handing poll ans [] → ans.accepted = false →
    s.ctrl.sqes poll.sqid = some sq →
    DeviceStep fns s .finish (s.finished poll sq)
  | finish {s : DeviceRun σ} {poll : SqPoll} {sq : SubmissionQueue} :
    s.dispatcher = .polling poll → ¬ poll.seq < poll.numProc → s.ctrl.sqes poll.sqid = some sq →
    DeviceStep fns s .finish (s.finished poll sq)
  | startPass {s : DeviceRun σ} {w : Nat} : w < s.nrIoWorkers → (s.workers w).cursor = none →
    DeviceStep fns s (.startPass w) (s.startedPass w)
  | visit {s : DeviceRun σ} {w curr currNsecs : Nat} {bytes : Nat → Nat} {o : Outside σ} :
    w < s.nrIoWorkers → (s.workers w).cursor = some curr →
    (s.workers w).worker.latestNsecs ≤ currNsecs →
    performAll fns s.sq bytes (s.actions w curr currNsecs) s.outside = .ok o →
    DeviceStep fns s (.visit w currNsecs bytes) (s.visited w curr currNsecs bytes o)

/-- A device without queues, whose namespace is as `fresh` says. -/
structure Booted {σ : Type} (fresh : σ → Prop) (s : DeviceRun σ) : Prop where
  ns : fresh s.ns
  sqes : ∀ qid, s.ctrl.sqes qid = none
  cqes : ∀ qid, s.ctrl.cqes qid = none
  nrIoWorkers : 0 < s.nrIoWorkers
  workers : ∀ w, workerRuns.init (s.workers w)
  dispatcher : s.dispatcher = .idle
  answers : s.answers = []
  accepted : ∀ qid, s.accepted qid = []
  kept : s.kept = s.storage

/-- The runs of a device. -/
def deviceRuns {σ : Type} (fns : NvmevNs σ) (fresh : σ → Prop) :
    System (DeviceRun σ) DeviceEvent where
  init := Booted fresh
  step := DeviceStep fns

/-- The jobs still to be given to a worker. -/
def Dispatcher.todo : Dispatcher → List IoJob
  | .handing _ _ todo => todo
  | _ => []

/-! ## What a visit leaves alone -/

section Frame

variable {σ : Type} {fns : NvmevNs σ} {sq : Nat → Nat → SqEntry} {bytes : Nat → Nat}

/-- An action changes the completion queues only, of the controller. -/
theorem IoAction.perform_ctrl {action : IoAction} {o o' : Outside σ}
    (h : action.perform fns sq bytes o = .ok o') : ∃ cqes, o'.ctrl = { o.ctrl with cqes } := by
  unfold IoAction.perform at h
  cases action with
  | copy sqid sqEntry =>
    dsimp only at h
    split at h
    · exact nomatch h
    · rw [← Except.ok.inj h]
      exact ⟨_, rfl⟩
  | fillCqResult r =>
    dsimp only at h
    split at h
    · exact nomatch h
    · rw [← Except.ok.inj h]
      exact ⟨_, rfl⟩
  | release writeBuffer buffsToRelease =>
    rw [← Except.ok.inj h]
    exact ⟨_, rfl⟩

theorem performAll_ctrl {actions : List IoAction} {o o' : Outside σ}
    (h : performAll fns sq bytes actions o = .ok o') : ∃ cqes, o'.ctrl = { o.ctrl with cqes } := by
  induction actions generalizing o with
  | nil =>
    obtain rfl := Except.ok.inj h
    exact ⟨_, rfl⟩
  | cons action rest ih =>
    obtain ⟨mid, hfirst, hrest⟩ := of_bind_ok h
    obtain ⟨_, hmid⟩ := IoAction.perform_ctrl hfirst
    obtain ⟨cqes, hlast⟩ := ih hrest
    rw [hmid] at hlast
    exact ⟨cqes, hlast⟩

/-- What the releases keep of a namespace is kept. -/
theorem IoAction.perform_ns {I : σ → Prop} (hrelease : ∀ ns b n, I ns → I (fns.bufferRelease ns b n))
    {action : IoAction} {o o' : Outside σ} (h : action.perform fns sq bytes o = .ok o') (hns : I o.ns) :
    I o'.ns := by
  unfold IoAction.perform at h
  cases action with
  | copy sqid sqEntry =>
    dsimp only at h
    split at h
    · exact nomatch h
    · rw [← Except.ok.inj h]
      exact hns
  | fillCqResult r =>
    dsimp only at h
    split at h
    · exact nomatch h
    · rw [← Except.ok.inj h]
      exact hns
  | release writeBuffer buffsToRelease =>
    rw [← Except.ok.inj h]
    exact hrelease _ _ _ hns

theorem performAll_ns {I : σ → Prop} (hrelease : ∀ ns b n, I ns → I (fns.bufferRelease ns b n))
    {actions : List IoAction} {o o' : Outside σ}
    (h : performAll fns sq bytes actions o = .ok o') (hns : I o.ns) : I o'.ns := by
  induction actions generalizing o with
  | nil =>
    obtain rfl := Except.ok.inj h
    exact hns
  | cons action rest ih =>
    obtain ⟨mid, hfirst, hrest⟩ := of_bind_ok h
    exact ih hrest (IoAction.perform_ns hrelease hfirst hns)

end Frame

/-! ## The workers -/

section Workers

variable {σ : Type} {fns : NvmevNs σ} {fresh : σ → Prop} {s s' : DeviceRun σ} {l : DeviceEvent}

/-- A worker is reachable after one worker was given another run. -/
theorem reachable_update (h : ∀ w, workerRuns.Reachable (s.workers w)) {w : Nat} {run' : WorkerRun}
    {e : WorkerEvent} (hstep : WorkerStep (s.workers w) e run') (v : Nat) :
    workerRuns.Reachable (Function.update s.workers w run' v) := by
  by_cases hv : v = w
  · rw [hv, Function.update_self]
    exact (h w).step hstep
  · rw [Function.update_of_ne hv]
    exact h v

/-- Every worker takes the steps of a run of its queue. -/
theorem deviceRuns_workers :
    (deviceRuns fns fresh).Invariant fun s => ∀ w, workerRuns.Reachable (s.workers w) where
  init _ hs w := .init (hs.workers w)
  step s _ _ h hstep := by
    cases hstep with
    | gave _ hok => exact reachable_update h (.queued hok)
    | passed _ _ _ hok =>
      intro w
      show workerRuns.Reachable (s.reclaimed _ w)
      unfold DeviceRun.reclaimed
      split
      · rename_i hw
        exact (h w).step (.reclaim (hok w hw))
      · exact h w
    | startPass _ hcursor => exact reachable_update h (.startPass hcursor)
    | visit _ hcursor hclock _ => exact reachable_update h (.visit hcursor hclock)
    | _ => exact h

theorem DeviceRun.reclaimed_log (workers' : Nat → IoWorker) (w : Nat) :
    (s.reclaimed workers' w).jobs = (s.workers w).jobs ∧
      (s.reclaimed workers' w).log = (s.workers w).log := by
  unfold DeviceRun.reclaimed
  split
  · exact ⟨rfl, rfl⟩
  · exact ⟨rfl, rfl⟩

theorem jobs_of_update {workers workers' : Nat → WorkerRun} {w : Nat} {run' : WorkerRun}
    (hworkers : workers' = Function.update workers w run') (hjobs : run'.jobs = (workers w).jobs)
    (v : Nat) : (workers' v).jobs = (workers v).jobs := by
  rw [hworkers]
  by_cases hv : v = w
  · rw [hv, Function.update_self, hjobs]
  · rw [Function.update_of_ne hv]

theorem actionsOf_update {run run' : WorkerRun} (hlog : run'.log = run.log) (n : Nat) :
    run'.actionsOf n = run.actionsOf n := by
  unfold WorkerRun.actionsOf
  rw [hlog]

theorem update_log {workers : Nat → WorkerRun} {w : Nat} {run' : WorkerRun}
    (hlog : run'.log = (workers w).log) (v : Nat) :
    (Function.update workers w run' v).log = (workers v).log := by
  by_cases hv : v = w
  · rw [hv, Function.update_self, hlog]
  · rw [Function.update_of_ne hv]

theorem DeviceRun.startedPass_jobs (s : DeviceRun σ) (v w : Nat) :
    ((s.startedPass v).workers w).jobs = (s.workers w).jobs := by
  refine jobs_of_update (w := v) rfl ?_ w
  rfl

theorem DeviceRun.visited_jobs (s : DeviceRun σ) (v curr currNsecs : Nat) (bytes : Nat → Nat)
    (o : Outside σ) (w : Nat) :
    ((s.visited v curr currNsecs bytes o).workers w).jobs = (s.workers w).jobs := by
  refine jobs_of_update (w := v) rfl ?_ w
  rfl

end Workers

end NvmeVirt

import NvmeVirt.Laws.Io.Lifetime
import NvmeVirt.Laws.Kv.Run
import NvmeVirt.Laws.Zns.Checks
import NvmeVirt.Laws.Zns.Storage
import NvmeVirt.Laws.Zns.WriteBuffer

/-!
# Commands that fail

A namespace leaves the storage alone when it ends a command with an error. The worker does not ask
how a command has ended: it copies the bytes of a write whatever its status. A conventional
namespace gives no failed command to a worker. A zoned one does, and the storage stays what the
successful commands made of it as long as the writes that are tried pass the checks of their zone,
and the host puts no write into the slot of a failed command that waits for its copy. A command with
a zone number past `nr_zones` is no step of these runs.

`kept` is the storage as it would be had only successful commands changed it; the run carries it
beside the real one. They are equal as long as `FailedWriteNothing` holds, which says that no failed
command a worker has still to copy is a write.

A copy is one step here, and what a host finds by reading is not looked at.
-/

set_option autoImplicit false

namespace NvmeVirt

open Outcome

/-- The job is a command of the slot, and it has failed. -/
def IoJob.FailedAt (qid slot : Nat) : IoJob → Prop
  | .request sqid _ sqEntry _ ret => sqid = qid ∧ sqEntry = slot ∧ ret.status ≠ nvmeScSuccess
  | .internal _ _ _ _ => False

/-- A failed command of the slot is on its way to a worker, or with one that has done nothing for it. -/
def DeviceRun.FailedWaits {σ : Type} (s : DeviceRun σ) (qid slot : Nat) : Prop :=
  (∃ job ∈ s.dispatcher.todo, job.FailedAt qid slot) ∨
    ∃ (w n : Nat) (job : IoJob), (s.workers w).jobs[n]? = some job ∧ job.FailedAt qid slot ∧
      (s.workers w).actionsOf n = []

/-- The writes and appends that are tried pass the checks of their zone, and the host puts none into the
slot of a failed command that waits for its copy. -/
def WritesPass (s : DeviceRun ZnsFtl) : DeviceEvent → Prop
  | .attempt => ∀ poll, s.dispatcher = .polling poll →
      (s.sq poll.sqid poll.sqEntry).writes = true →
        s.ns.WritePasses (s.sq poll.sqid poll.sqEntry).toZnsRw
  | .writeEntry qid slot entry => entry.writes = true → ¬ s.FailedWaits qid slot
  | _ => True

/-- The entry in the slot of a failed command that waits for its copy writes nothing. -/
def FailedWriteNothing {σ : Type} (s : DeviceRun σ) : Prop :=
  ∀ qid slot, s.FailedWaits qid slot → (s.sq qid slot).writes = false

/-- The worker is to copy for the entry `curr`, and its command has failed. -/
structure CopiesFailed {σ : Type} (s : DeviceRun σ) (w curr : Nat) : Prop where
  isCompleted : ((s.workers w).worker.workQueue curr).isCompleted = false
  isCopied : ((s.workers w).worker.workQueue curr).isCopied = false
  isInternal : ((s.workers w).worker.workQueue curr).isInternal = false
  failed : ((s.workers w).worker.workQueue curr).status ≠ nvmeScSuccess

/-! ## Copies -/

section Copies

variable {storage bytes : Nat → Nat}

theorem doPerformIo_of_not_writes {entry : SqEntry} (h : entry.writes = false) :
    doPerformIo storage entry bytes = storage := by
  unfold doPerformIo
  rw [if_neg (by rw [h]; exact Bool.false_ne_true)]

variable {σ : Type} {fns : NvmevNs σ} {s : DeviceRun σ}

/-- The actions of a visit change the storage by their copies. -/
theorem performAll_storage {actions : List IoAction} {o o' : Outside σ}
    (h : performAll fns s.sq bytes actions o = .ok o') :
    o'.storage = s.copied bytes o.storage actions := by
  induction actions generalizing o with
  | nil =>
    obtain rfl := Except.ok.inj h
    rfl
  | cons action rest ih =>
    obtain ⟨mid, hfirst, hrest⟩ := of_bind_ok h
    rw [ih hrest]
    unfold IoAction.perform at hfirst
    cases action with
    | copy sqid sqEntry =>
      dsimp only at hfirst
      split at hfirst
      · cases hfirst
      · rw [← Except.ok.inj hfirst]
        rfl
    | fillCqResult r =>
      dsimp only at hfirst
      split at hfirst
      · cases hfirst
      · rw [← Except.ok.inj hfirst]
        rfl
    | release writeBuffer buffsToRelease =>
      rw [← Except.ok.inj hfirst]
      rfl

theorem copied_append (actions actions' : List IoAction) :
    s.copied bytes storage (actions ++ actions') =
      s.copied bytes (s.copied bytes storage actions) actions' := by
  induction actions generalizing storage with
  | nil => rfl
  | cons action rest ih =>
    cases action with
    | copy sqid sqEntry => exact ih
    | fillCqResult r => exact ih
    | release writeBuffer buffsToRelease => exact ih

/-- A completion copies nothing. -/
theorem copied_completes (work : IoWork) :
    s.copied bytes storage (IoWorker.completes work) = storage := by
  unfold IoWorker.completes
  split
  · rfl
  · rfl

/-- A visit copies for the entry, unless that is done or the entry is for an internal operation. -/
theorem copied_actions (w curr currNsecs : Nat) :
    s.copied bytes storage (s.actions w curr currNsecs) =
      if ((s.workers w).worker.workQueue curr).isCompleted = false ∧
          ((s.workers w).worker.workQueue curr).isCopied = false ∧
          ((s.workers w).worker.workQueue curr).isInternal = false then
        doPerformIo storage (s.sq ((s.workers w).worker.workQueue curr).sqid
          ((s.workers w).worker.workQueue curr).sqEntry) bytes
      else storage := by
  have hdone : ∀ storage', s.copied bytes storage'
      (if ((s.workers w).worker.workQueue curr).nsecsTarget ≤ currNsecs then
        IoWorker.completes ((s.workers w).worker.workQueue curr) else []) = storage' := by
    intro storage'
    split
    · exact copied_completes _
    · rfl
  unfold DeviceRun.actions
  rw [IoWorker.visit_actions]
  cases hcompleted : ((s.workers w).worker.workQueue curr).isCompleted with
  | true => simp [DeviceRun.copied]
  | false =>
    rw [if_neg Bool.false_ne_true, copied_append, hdone]
    unfold IoWorker.copies
    cases hcopied : ((s.workers w).worker.workQueue curr).isCopied with
    | true => simp [DeviceRun.copied]
    | false =>
      cases hinternal : ((s.workers w).worker.workQueue curr).isInternal with
      | true => simp [DeviceRun.copied]
      | false => simp [DeviceRun.copied]

end Copies

/-! ## Runs -/

section Runs

variable {σ : Type} {fns : NvmevNs σ} {fresh : σ → Prop} {s s' : DeviceRun σ} {l : DeviceEvent}

/-- A command the namespace ends with an error leaves the storage as it was. -/
def FailsClean (fns : NvmevNs σ) : Prop := ∀ ns storage entry sqid,
  Ensures (fun _ => True) (nvmevProcIo fns ns storage entry sqid) fun out =>
    out.answer.result.status ≠ nvmeScSuccess → out.storage = storage

/-- A visit that writes nothing for a failed command leaves the storage what the successful ones made of
it. -/
theorem visited_kept (h : s.storage = s.kept) {w curr currNsecs : Nat} {bytes : Nat → Nat}
    {o : Outside σ}
    (hok : performAll fns s.sq bytes (s.actions w curr currNsecs) s.outside = .ok o)
    (hnothing : CopiesFailed s w curr → (s.sq ((s.workers w).worker.workQueue curr).sqid
      ((s.workers w).worker.workQueue curr).sqEntry).writes = false) :
    (s.visited w curr currNsecs bytes o).storage = (s.visited w curr currNsecs bytes o).kept := by
  have hstorage : (s.visited w curr currNsecs bytes o).storage =
      s.copied bytes s.storage (s.actions w curr currNsecs) := performAll_storage hok
  have hkept : (s.visited w curr currNsecs bytes o).kept =
      if ((s.workers w).worker.workQueue curr).status = nvmeScSuccess then
        s.copied bytes s.storage (s.actions w curr currNsecs) else s.storage := by
    rw [h]
    rfl
  rw [hstorage, hkept]
  by_cases hstatus : ((s.workers w).worker.workQueue curr).status = nvmeScSuccess
  · rw [if_pos hstatus]
  · rw [if_neg hstatus, copied_actions]
    split
    · rename_i hdue
      exact doPerformIo_of_not_writes (hnothing ⟨hdue.1, hdue.2.1, hdue.2.2, hstatus⟩)
    · rfl

/-- The rule for `storage = kept`: no worker writes for a failed command. -/
theorem storage_kept_step (hclean : FailsClean fns) (h : s.storage = s.kept)
    (hnothing : ∀ w curr, (s.workers w).cursor = some curr → CopiesFailed s w curr →
      (s.sq ((s.workers w).worker.workQueue curr).sqid
        ((s.workers w).worker.workQueue curr).sqEntry).writes = false)
    (hstep : DeviceStep fns s l s') : s'.storage = s'.kept := by
  cases hstep with
  | @attempt poll sq env env' out _ _ _ hrun =>
    show out.storage = s.keptAfter fns poll env out
    unfold DeviceRun.keptAfter
    split
    · rw [← h, hrun]
    · rename_i hstatus
      rw [← h]
      exact (hclean ..).of_run hrun hstatus
  | visit _ hcursor _ hok => exact visited_kept h hok (hnothing _ _ hcursor)
  | _ => exact h

/-- A failed command a worker is to copy for waits in its slot. -/
theorem FailedWriteNothing.copy (h : FailedWriteNothing s)
    (hworkers : ∀ w, workerRuns.Reachable (s.workers w)) {w curr : Nat}
    (hcursor : (s.workers w).cursor = some curr) (hfailed : CopiesFailed s w curr) :
    (s.sq ((s.workers w).worker.workQueue curr).sqid
      ((s.workers w).worker.workQueue curr).sqEntry).writes = false := by
  obtain ⟨job, hjob, hcarries, hactions, _⟩ :=
    WorkerRun.unfinished_at (hworkers w) hcursor hfailed.isCompleted
  rw [hfailed.isCopied] at hactions
  refine h _ _ (.inr ⟨w, _, job, hjob, ?_, ?_⟩)
  · cases job with
    | request sqid cqid sqEntry commandId ret =>
      have hstatus : ((s.workers w).worker.workQueue curr).status = ret.status :=
        congrArg CqResult.status hcarries.1
      exact ⟨(congrArg CqResult.sqid hcarries.1).symm, (congrArg CqResult.sqEntry hcarries.1).symm,
        hstatus ▸ hfailed.failed⟩
    | internal sqid nsecsTarget writeBuffer buffsToRelease =>
      exact absurd (hfailed.isInternal.symm.trans hcarries.2.2.2) Bool.false_ne_true
  · rw [hactions]
    cases job with
    | request => rfl
    | internal => rfl

end Runs

/-! ## A conventional namespace -/

section Conv

variable {fresh : ConvNs → Prop} {s s' : DeviceRun ConvNs} {l : DeviceEvent}

/-- A conventional namespace never touches the storage. -/
theorem convNamespace_failsClean : FailsClean convNamespace := fun ns storage entry sqid =>
  (convNamespace_outcome ns storage entry sqid).mono fun _ hout _ => hout.2.1

/-- The command of the job has not failed. -/
def IoJob.Succeeds : IoJob → Prop
  | .request _ _ _ _ ret => ret.status = nvmeScSuccess
  | .internal _ _ _ _ => True

/-- No job of a failed command is with a worker, or to be given to one. -/
structure JobsSucceed (s : DeviceRun ConvNs) : Prop where
  todo : ∀ job ∈ s.dispatcher.todo, job.Succeeds
  queued : ∀ w, ∀ job ∈ (s.workers w).jobs, job.Succeeds

/-- What it gives to a worker ends in success. -/
theorem ConvOutcome.jobs_succeed {ns : ConvNs} {entry : SqEntry} {out : ProcOutcome ConvNs}
    (h : ConvOutcome ns entry out) {sqid cqid sqEntry : Nat} {job : IoJob}
    (hjob : job ∈ out.answer.jobs sqid cqid sqEntry) : job.Succeeds := by
  unfold ProcAnswer.jobs at hjob
  rcases List.mem_append.mp hjob with hin | hin
  · obtain ⟨op, _, rfl⟩ := List.mem_map.mp hin
    trivial
  · split at hin
    · rename_i haccepted
      obtain rfl := List.mem_singleton.mp hin
      cases h with
      | done _ hstatus _ => exact hstatus
      | rejected href _ => exact absurd (href.accepted.symm.trans haccepted) Bool.false_ne_true
      | short href _ => exact absurd (href.accepted.symm.trans haccepted) Bool.false_ne_true
    · exact absurd hin List.not_mem_nil

/-- A worker that goes on has the jobs it had. -/
theorem JobsSucceed.worker (h : JobsSucceed s) {w : Nat} {run' : WorkerRun}
    (hworkers : s'.workers = Function.update s.workers w run')
    (hdispatcher : s'.dispatcher = s.dispatcher) (hjobs : run'.jobs = (s.workers w).jobs) :
    JobsSucceed s' := by
  refine ⟨?_, fun v job hjob => h.queued v job ?_⟩
  · rw [hdispatcher]
    exact h.todo
  · rw [← jobs_of_update hworkers hjobs v]
    exact hjob

/-- So do all jobs of a run. -/
theorem JobsSucceed.step (h : JobsSucceed s) (hstep : DeviceStep convNamespace s l s') :
    JobsSucceed s' := by
  cases hstep with
  | adminReq _ _ => exact ⟨h.todo, h.queued⟩
  | writeEntry => exact ⟨h.todo, h.queued⟩
  | writeDoorbell => exact ⟨h.todo, h.queued⟩
  | pollSq _ _ _ _ _ => exact ⟨fun _ hjob => absurd hjob List.not_mem_nil, h.queued⟩
  | @attempt poll sq env env' out _ _ _ hrun =>
    exact ⟨fun job hjob => ((convNamespace_outcome ..).of_run hrun).1.jobs_succeed hjob, h.queued⟩
  | @gave poll ans job todo worker' hat _ =>
    have htodo := h.todo
    rw [hat] at htodo
    refine ⟨fun j hj => htodo j (List.mem_cons_of_mem _ hj), fun v j hj => ?_⟩
    have hj : j ∈ (Function.update s.workers (getIoWorker s.nrIoWorkers job.sqid)
        ((s.workers (getIoWorker s.nrIoWorkers job.sqid)).queue worker' job) v).jobs := hj
    by_cases hv : v = getIoWorker s.nrIoWorkers job.sqid
    · rw [hv, Function.update_self] at hj
      rcases List.mem_append.mp hj with hold | hnew
      · exact h.queued _ j hold
      · obtain rfl := List.mem_singleton.mp hnew
        exact htodo _ List.mem_cons_self
    · rw [Function.update_of_ne hv] at hj
      exact h.queued v j hj
  | lost hat _ =>
    have htodo := h.todo
    rw [hat] at htodo
    exact ⟨fun j hj => htodo j (List.mem_cons_of_mem _ hj), h.queued⟩
  | @passed _ _ _ workers' _ _ _ _ =>
    refine ⟨fun _ hjob => absurd hjob List.not_mem_nil, fun w job hjob => h.queued w job ?_⟩
    rw [← (DeviceRun.reclaimed_log workers' w).1]
    exact hjob
  | refused _ _ _ => exact ⟨fun _ hjob => absurd hjob List.not_mem_nil, h.queued⟩
  | finish _ _ _ => exact ⟨fun _ hjob => absurd hjob List.not_mem_nil, h.queued⟩
  | startPass _ _ => exact h.worker rfl rfl rfl
  | visit _ _ _ _ => exact h.worker rfl rfl rfl

/-- On a conventional namespace every command a worker has, or is about to get, has ended in
success, since the refused ones are not handed over. -/
theorem deviceRuns_jobsSucceed : (deviceRuns convNamespace fresh).Invariant JobsSucceed where
  init s hs := by
    refine ⟨fun job hjob => ?_, fun w job hjob => ?_⟩
    · rw [hs.dispatcher] at hjob
      exact absurd hjob List.not_mem_nil
    · rw [(hs.workers w).2.2.1] at hjob
      exact absurd hjob List.not_mem_nil
  step _ _ _ h hstep := h.step hstep

/-- A worker copies for no failed command. -/
theorem JobsSucceed.not_copiesFailed (h : JobsSucceed s)
    (hworkers : ∀ w, workerRuns.Reachable (s.workers w)) {w curr : Nat}
    (hcursor : (s.workers w).cursor = some curr) : ¬ CopiesFailed s w curr := by
  intro hfailed
  obtain ⟨job, hjob, hcarries, _⟩ :=
    WorkerRun.unfinished_at (hworkers w) hcursor hfailed.isCompleted
  have hsucceeds := h.queued w job (List.mem_of_getElem? hjob)
  cases job with
  | request sqid cqid sqEntry commandId ret =>
    have hstatus : ((s.workers w).worker.workQueue curr).status = ret.status :=
      congrArg CqResult.status hcarries.1
    exact absurd (hstatus.trans hsucceeds) hfailed.failed
  | internal sqid nsecsTarget writeBuffer buffsToRelease =>
    exact absurd (hfailed.isInternal.symm.trans hcarries.2.2.2) Bool.false_ne_true

/-- On a conventional device nothing is ever copied for a failed command. -/
theorem conv_storage_kept (h : (deviceRuns convNamespace fresh).Reachable s) :
    s.storage = s.kept := by
  induction h with
  | init h₀ => exact h₀.kept.symm
  | step hs hstep ih =>
    refine storage_kept_step convNamespace_failsClean ih (fun w curr hcursor hfailed => ?_) hstep
    exact absurd hfailed ((deviceRuns_jobsSucceed.reachable hs).not_copiesFailed
      (deviceRuns_workers.reachable hs) hcursor)

end Conv

/-! ## A zoned namespace -/

theorem getElem?_concat_cases {α : Type} {l : List α} {a b : α} {n : Nat}
    (h : (l ++ [a])[n]? = some b) : l[n]? = some b ∨ b = a := by
  by_cases hn : n < l.length
  · exact .inl ((List.getElem?_append_left hn).symm.trans h)
  · have hlt := (List.getElem?_eq_some_iff.mp h).1
    rw [List.length_append, List.length_singleton] at hlt
    obtain rfl : n = l.length := by omega
    rw [List.getElem?_concat_length] at h
    exact .inr (Option.some.inj h).symm

section Waiting

variable {σ : Type} {fns : NvmevNs σ} {s s' : DeviceRun σ} {l : DeviceEvent} {qid slot : Nat}

/-- Nothing new waits where the jobs are the same or fewer, and no less is done for them. -/
theorem DeviceRun.FailedWaits.of_keeps (h : s'.FailedWaits qid slot)
    (htodo : ∀ job ∈ s'.dispatcher.todo, job ∈ s.dispatcher.todo)
    (hjobs : ∀ w, (s'.workers w).jobs = (s.workers w).jobs)
    (hactions : ∀ w n, (s'.workers w).actionsOf n = [] → (s.workers w).actionsOf n = []) :
    s.FailedWaits qid slot := by
  refine h.imp (fun ⟨job, hjob, hat⟩ => ⟨job, htodo job hjob, hat⟩) ?_
  rintro ⟨w, n, job, hjob, hat, hnone⟩
  exact ⟨w, n, job, hjobs w ▸ hjob, hat, hactions w n hnone⟩

/-- A job that was given to a worker waited at the dispatcher before. -/
theorem DeviceRun.FailedWaits.of_gave {poll : SqPoll} {ans : ProcAnswer} {job : IoJob}
    {todo : List IoJob} {worker' : IoWorker}
    (hat : s.dispatcher = .handing poll ans (job :: todo))
    (h : (s.gave (getIoWorker s.nrIoWorkers job.sqid) worker' job
      (.handing poll ans todo)).FailedWaits qid slot) : s.FailedWaits qid slot := by
  have htodo : s.dispatcher.todo = job :: todo := by
    rw [hat]
    rfl
  obtain ⟨job', hjob', hfailed⟩ | ⟨w, n, job', hjob', hfailed, hnone⟩ := h
  · exact .inl ⟨job', htodo ▸ List.mem_cons_of_mem _ hjob', hfailed⟩
  have hlog : ((s.gave (getIoWorker s.nrIoWorkers job.sqid) worker' job
      (.handing poll ans todo)).workers w).log = (s.workers w).log := by
    refine update_log ?_ w
    rfl
  rw [actionsOf_update hlog n] at hnone
  change (Function.update s.workers _ _ w).jobs[n]? = some job' at hjob'
  by_cases hw : w = getIoWorker s.nrIoWorkers job.sqid
  · subst hw
    rw [Function.update_self] at hjob'
    obtain hold | rfl := getElem?_concat_cases hjob'
    · exact .inr ⟨_, n, job', hold, hfailed, hnone⟩
    · exact .inl ⟨job', htodo ▸ List.mem_cons_self, hfailed⟩
  · rw [Function.update_of_ne hw] at hjob'
    exact .inr ⟨w, n, job', hjob', hfailed, hnone⟩

/-- Only a call of `proc_io_cmd` makes a failed command wait. -/
theorem DeviceStep.failedWaits (hstep : DeviceStep fns s l s') (hl : l ≠ .attempt)
    (h : s'.FailedWaits qid slot) : s.FailedWaits qid slot := by
  cases hstep with
  | attempt _ _ _ _ => exact absurd rfl hl
  | gave hat _ => exact h.of_gave hat
  | lost hat _ =>
    refine h.of_keeps (fun job hjob => ?_) (fun _ => rfl) fun _ _ hnone => hnone
    rw [hat]
    exact List.mem_cons_of_mem _ hjob
  | passed _ _ _ _ =>
    refine h.of_keeps (fun _ hjob => absurd hjob List.not_mem_nil)
      (fun w => (s.reclaimed_log _ w).1) fun w n hnone => ?_
    exact (actionsOf_update (s.reclaimed_log _ w).2 n) ▸ hnone
  | pollSq _ _ _ _ _ | refused _ _ _ | finish _ _ _ =>
    exact h.of_keeps (fun _ hjob => absurd hjob List.not_mem_nil) (fun _ => rfl) fun _ _ hnone => hnone
  | @startPass v _ _ =>
    refine h.of_keeps (fun _ hjob => hjob) (s.startedPass_jobs v) fun w n hnone => ?_
    have hlog : ((s.startedPass v).workers w).log = (s.workers w).log := by
      refine update_log ?_ w
      rfl
    exact (actionsOf_update hlog n) ▸ hnone
  | @visit v curr currNsecs bytes o _ _ _ _ =>
    refine h.of_keeps (fun _ hjob => hjob) (s.visited_jobs v curr currNsecs bytes o)
      fun w n hnone => ?_
    change (Function.update s.workers v ((s.workers v).visited curr currNsecs) w).actionsOf n = []
      at hnone
    by_cases hw : w = v
    · subst hw
      rw [Function.update_self, WorkerRun.actionsOf_visit] at hnone
      exact (List.append_eq_nil_iff.mp hnone).1
    · rw [Function.update_of_ne hw] at hnone
      exact hnone
  | _ => exact h

end Waiting

section Zoned

variable {freshZns : ZnsFtl → Prop} {s s' : DeviceRun ZnsFtl} {l : DeviceEvent}

/-- The opcode of the entry stays, and a write ends in success when it passes the checks. -/
theorem znsNamespace_answer (ns : ZnsFtl) (storage : Nat → Nat) (entry : SqEntry) (sqid : Nat) :
    Ensures (fun _ => True) (nvmevProcIo znsNamespace ns storage entry sqid) fun out =>
      out.answer.entry.writes = entry.writes ∧ (entry.writes = true →
        (out.answer.result.status = nvmeScSuccess ↔ ns.WritePasses entry.toZnsRw)) := by
  unfold nvmevProcIo
  refine Ensures.any.bind fun nsecsStart _ => ?_
  have hstatus : Ensures (fun _ => True)
      (({ ns with storage } : ZnsFtl).znsProcNvmeIoCmd entry.toZnsCommand nsecsStart) fun r =>
        entry.writes = true →
          (r.2.result.status = nvmeScSuccess ↔ ns.WritePasses entry.toZnsRw) := by
    by_cases hwrites : entry.writes = true
    · have hcommand : entry.toZnsCommand = .write entry.toZnsRw := by
        unfold SqEntry.toZnsCommand
        obtain hop | hop := of_decide_eq_true hwrites
        · rw [hop]
        · rw [hop]
      rw [hcommand]
      exact ZnsFtl.znsWrite_status_iff.mono fun _ hr _ =>
        hr.trans (ZnsFtl.WritePasses.withStorage_iff storage _)
    · exact Ensures.any.mono fun _ _ hw => absurd hw hwrites
  refine hstatus.bind fun r hr => .pure ⟨?_, hr⟩
  show (if entry.opcode = .zoneAppend then entry.setSlba r.2.slba else entry).writes = entry.writes
  split
  · rfl
  · rfl

/-- A zoned namespace leaves the storage alone where a command fails. -/
theorem znsNamespace_failsClean : FailsClean znsNamespace := by
  intro ftl storage entry sqid
  unfold nvmevProcIo
  apply Ensures.any.bind
  intro nsecsStart _
  apply (ZnsFtl.znsProcNvmeIoCmd_failed entry.toZnsCommand nsecsStart).bind
  rintro ⟨ftl', ans⟩ hr
  exact .pure hr

/-- A write that passes its checks does not fail. -/
theorem FailedWriteNothing.answered (h : FailedWriteNothing s) {poll : SqPoll}
    {sq : SubmissionQueue} {out : ProcOutcome ZnsFtl} {kept : Nat → Nat}
    (hentry : out.answer.entry.writes = (s.sq poll.sqid poll.sqEntry).writes)
    (hpasses : (s.sq poll.sqid poll.sqEntry).writes = true →
      out.answer.result.status = nvmeScSuccess) :
    FailedWriteNothing (s.answered poll sq out kept) := by
  have hsame : ∀ q e, ((s.answered poll sq out kept).sq q e).writes = (s.sq q e).writes := by
    intro q e
    show (Function.update s.sq poll.sqid (Function.update (s.sq poll.sqid) poll.sqEntry
      out.answer.entry) q e).writes = _
    by_cases hq : q = poll.sqid
    · subst hq
      rw [Function.update_self]
      by_cases he : e = poll.sqEntry
      · rw [he, Function.update_self, hentry]
      · rw [Function.update_of_ne he]
    · rw [Function.update_of_ne hq]
  intro qid slot hwaits
  rw [hsame]
  obtain ⟨job, hjob, hfailed⟩ | hworker := hwaits
  · -- the command the answer is for
    have hjob : job ∈ out.answer.jobs poll.sqid sq.cqid poll.sqEntry := hjob
    unfold ProcAnswer.jobs at hjob
    obtain hin | hin := List.mem_append.mp hjob
    · obtain ⟨op, _, rfl⟩ := List.mem_map.mp hin
      exact hfailed.elim
    · split at hin
      · obtain rfl := List.mem_singleton.mp hin
        obtain ⟨rfl, rfl, hstatus⟩ := hfailed
        exact Bool.eq_false_iff.mpr fun hwrites => hstatus (hpasses hwrites)
      · exact absurd hin List.not_mem_nil
  · exact h qid slot (.inr hworker)

/-- Every guarded step keeps it. -/
theorem FailedWriteNothing.step (h : FailedWriteNothing s) (hpass : WritesPass s l)
    (hstep : DeviceStep znsNamespace s l s') : FailedWriteNothing s' := by
  have hwaits : l ≠ .attempt → ∀ qid slot, s'.FailedWaits qid slot → s.FailedWaits qid slot :=
    fun hl _ _ => hstep.failedWaits hl
  cases hstep with
  | @attempt poll sq env env' out hat _ _ hrun =>
    obtain ⟨hentry, hstatus⟩ := (znsNamespace_answer ..).of_run hrun
    exact h.answered hentry fun hwrites => (hstatus hwrites).mpr (hpass poll hat hwrites)
  | @writeEntry q e entry =>
    intro qid slot hwaiting
    have hold := hwaits DeviceEvent.noConfusion qid slot hwaiting
    show (Function.update s.sq q (Function.update (s.sq q) e entry) qid slot).writes = false
    by_cases hq : qid = q
    · subst hq
      rw [Function.update_self]
      by_cases he : slot = e
      · subst he
        rw [Function.update_self]
        exact Bool.eq_false_iff.mpr fun hwrites => hpass hwrites hold
      · rw [Function.update_of_ne he]
        exact h qid slot hold
    · rw [Function.update_of_ne hq]
      exact h qid slot hold
  | _ => exact fun qid slot hwaiting => h qid slot (hwaits DeviceEvent.noConfusion qid slot hwaiting)

/-- There is nothing to copy at boot. -/
theorem Booted.failedWriteNothing (h : Booted freshZns s) : FailedWriteNothing s := by
  intro qid slot hwaits
  obtain ⟨job, hjob, _⟩ | ⟨w, n, job, hjob, _⟩ := hwaits
  · rw [h.dispatcher] at hjob
    exact absurd hjob List.not_mem_nil
  · rw [(h.workers w).2.2.1] at hjob
    cases hjob

/-- On a zoned namespace the storage is what the successful commands made of it, by induction over
steps that pass the checks; a worker may come to the copies in any order. -/
theorem deviceRuns_storage_kept : ((deviceRuns znsNamespace freshZns).guarded WritesPass).Invariant
    fun s => (∀ w, workerRuns.Reachable (s.workers w)) ∧
      FailedWriteNothing s ∧ s.storage = s.kept where
  init s hs := ⟨fun w => .init (hs.workers w), Booted.failedWriteNothing hs, hs.kept.symm⟩
  step s l s' h hstep := by
    obtain ⟨hworkers, hnothing, hkept⟩ := h
    refine ⟨(@deviceRuns_workers _ znsNamespace freshZns).step s l s' hworkers hstep.2,
      hnothing.step hstep.1 hstep.2, ?_⟩
    exact storage_kept_step znsNamespace_failsClean hkept
      (fun _ _ hcursor hfailed => hnothing.copy hworkers hcursor hfailed) hstep.2

end Zoned

/-! ## The other namespaces, and the law -/

section Law

/-- On a conventional namespace the storage is in every run what the commands that ended in success made
of it. On a zoned one it is in every run whose writes pass the checks of their zone, and in which the host
leaves the slot of a failed command without a write until it is copied. A key-value command that sets a
status leaves the namespace as it was. -/
theorem failed_writes_change_nothing (fresh : ConvNs → Prop) (freshZns : ZnsFtl → Prop)
    (hash : List UInt8 → Nat) :
    (∀ s, (deviceRuns convNamespace fresh).Reachable s → s.storage = s.kept) ∧
    (∀ s, ((deviceRuns znsNamespace freshZns).guarded WritesPass).Reachable s →
      s.storage = s.kept) ∧
    ∀ (ftl : KvFtl) cmd value r, ftl.performKvIo hash cmd value = .ok r → r.2.status ≠ none →
      r.1 = ftl :=
  ⟨fun _ h => conv_storage_kept h, fun _ h => (deviceRuns_storage_kept.reachable h).2.2,
    fun _ _ _ _ hok hfailed => KvFtl.performKvIo_failed hok hfailed⟩

end Law

/-! ## A ZN540 of two zones -/

section Refused

/-- A fresh ZN540 of two zones. -/
def FreshZn540 (ftl : ZnsFtl) : Prop :=
  ∃ env env', (znsInitNamespace wdZn540 twoZones fun _ => 0).run env = .ok (ftl, env')

/-- The write of the first page of the first zone, and the one of the second. -/
def firstPageEntry : SqEntry :=
  { flushEntry with opcode := .write, slba := 0, length := 7
                    slba_lt := zero_lt_u64, length_lt := seven_lt_u16 }

def secondPageEntry : SqEntry :=
  { flushEntry with opcode := .write, slba := 8, length := 7
                    slba_lt := secondPage.slba_lt, length_lt := seven_lt_u16 }

/-- A read over the end of the first zone. -/
def boundaryReadEntry : SqEntry :=
  { flushEntry with opcode := .read, slba := 4194300, length := 7
                    slba_lt := by decide, length_lt := seven_lt_u16 }

/-- Writes are only tried with success, and the host writes its entries before the first answer. -/
def triesSuccess (s : DeviceRun ZnsFtl) : DeviceEvent → Bool
  | .attempt => (s.nextAttempt znsNamespace .zero).any fun s' => s'.answers.getLast?.all fun a =>
      a.answer.result.status = nvmeScSuccess ∨ a.answer.entry.writes = false
  | .writeEntry _ _ _ => s.answers.isEmpty
  | _ => true

/-- The check errs on the safe side. -/
theorem triesSuccess_writesPass {fresh : ZnsFtl → Prop} {s : DeviceRun ZnsFtl} {l : DeviceEvent}
    (hreach : (deviceRuns znsNamespace fresh).Reachable s) (h : triesSuccess s l = true) :
    WritesPass s l := by
  cases l with
  | attempt =>
    intro poll hat hwrites
    obtain ⟨s', hnext, hlast⟩ := (Option.any_eq_true _ _).mp h
    have hstep : DeviceStep znsNamespace s .attempt s' := DeviceRun.nextAttempt_step hnext
    cases hstep with
    | @attempt poll' sq env env' out hat' _ _ hrun =>
      obtain rfl : poll' = poll := Dispatcher.polling.inj (hat'.symm.trans hat)
      obtain ⟨hentry, hstatus⟩ := (znsNamespace_answer ..).of_run hrun
      unfold DeviceRun.answered at hlast
      rw [List.getLast?_concat] at hlast
      obtain hsuccess | hreads := of_decide_eq_true hlast
      · exact (hstatus hwrites).mp hsuccess
      · exact absurd (hreads.symm.trans (hentry.trans hwrites)) Bool.false_ne_true
  | writeEntry qid slot entry =>
    rintro _ (⟨job, hjob, _⟩ | ⟨w, n, job, hjob, _⟩)
    · rw [((deviceRuns_answered.reachable hreach).unanswered (List.isEmpty_iff.mp h)).1] at hjob
      exact absurd hjob List.not_mem_nil
    · rw [((deviceRuns_answered.reachable hreach).unanswered (List.isEmpty_iff.mp h)).2 w] at hjob
      cases hjob
  | _ => trivial

/-- One page is written and read back over the end of the zone: the read fails, the page is there. -/
def pageAndBoundary : List DeviceEvent :=
  submitEvents [firstPageEntry, boundaryReadEntry] ++ ringEvents 2 ++ acceptEvents 1 ++
    acceptEvents 1 ++ .finish :: passEvents 2 (2 ^ 40) fun _ => 1

/-- With a write that was taken and a read that failed, both completed. -/
theorem failed_writes_change_nothing_boundary : ∃ s : DeviceRun ZnsFtl,
    ((deviceRuns znsNamespace FreshZn540).guarded WritesPass).Reachable s ∧
      s.answers.map (fun a => a.answer.result.status) = [nvmeScSuccess, nvmeScZnsErrBoundary] ∧
      (s.workers 0).log.length = 4 ∧ s.storage 0 = 1 ∧ s.storage = s.kept := by
  obtain ⟨s, hreach, hends⟩ := @exists_executed _ znsNamespace FreshZn540
    (znsInitNamespace wdZn540 twoZones fun _ => 0) WritesPass triesSuccess pageAndBoundary
    (fun s => s.answers.map (fun a => a.answer.result.status) =
      [nvmeScSuccess, nvmeScZnsErrBoundary] ∧ (s.workers 0).log.length = 4 ∧ s.storage 0 = 1)
    (fun _ _ hrun => ⟨_, _, hrun⟩) (fun _ _ _ ht hl _ => triesSuccess_writesPass ht hl)
    (by decide +kernel)
  obtain ⟨hstatuses, hlog, hone⟩ := of_decide_eq_true hends
  exact ⟨s, hreach, hstatuses, hlog, hone,
    (failed_writes_change_nothing (fun _ => True) FreshZn540 fun _ => 0).2.1 s hreach⟩

/-- A write behind the write pointer is refused, and the worker copies its bytes all the same. -/
theorem refused_write_changes_storage :
    ¬ ∀ s, (deviceRuns znsNamespace FreshZn540).Reachable s → s.storage = s.kept := by
  intro hall
  obtain ⟨s, hreach, hends⟩ := @exists_executed _ znsNamespace FreshZn540
    (znsInitNamespace wdZn540 twoZones fun _ => 0) (fun _ _ => True) (fun _ _ => true)
    (submitEvents [secondPageEntry] ++ ringEvents 1 ++ acceptEvents 1 ++
      .finish :: passEvents 1 (2 ^ 40) fun _ => 1)
    (fun s => s.answers.map (fun a => a.answer.result.status) = [nvmeScZnsInvalidWrite] ∧
      s.storage 4096 = 1 ∧ s.kept 4096 = 0)
    (fun _ _ hrun => ⟨_, _, hrun⟩) (fun _ _ _ _ _ _ => trivial) (by decide +kernel)
  obtain ⟨_, hone, hzero⟩ := of_decide_eq_true hends
  rw [hall s hreach.of_guarded, hzero] at hone
  exact absurd hone Nat.zero_ne_one

end Refused

end NvmeVirt

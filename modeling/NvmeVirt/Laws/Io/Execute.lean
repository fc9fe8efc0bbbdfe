import NvmeVirt.Laws.Io.Device

/-!
# Runs of the device, computed

A step of a run is determined by the event, and by what the clock of the kernel says where
`proc_io_cmd` is called. `DeviceRun.next` computes it, event by event, and gives nothing where the
event cannot happen; what it gives is a step of `DeviceStep` (`DeviceRun.next_step`). A list of
events that computes is thus a run (`exists_executed`), and the conditions on the host are checked
on the way (`checkedNext`).

Runs are computed from `bootedDevice`, which has one worker and an admin queue, and no I/O queue
yet. The events of a host that creates a queue, fills its slots and rings are at the end, for the
examples of the other modules.

The steps themselves are those of `Laws/Io/Device`; nothing is proved of the device here but that
each job of a worker has the answer it comes from (`DeviceRun.JobsAnswered`).
-/

set_option autoImplicit false

namespace NvmeVirt

namespace DeviceRun

variable {σ : Type} (fns : NvmevNs σ) (env : Env) (s : DeviceRun σ)

/-- A job goes to its worker, or is lost. -/
def nextHandOver : Option (DeviceRun σ) :=
  match s.dispatcher with
  | .handing poll ans (job :: todo) =>
    match (s.workers (getIoWorker s.nrIoWorkers job.sqid)).worker.enqueue job with
    | .ok (some worker') =>
      some (s.gave (getIoWorker s.nrIoWorkers job.sqid) worker' job (.handing poll ans todo))
    | .ok none => some { s with dispatcher := .handing poll ans todo }
    | .error _ => none
  | _ => none

/-- The worker `w` once `__reclaim_completed_reqs` has come to it. -/
def reclaimedWorker (w : Nat) : IoWorker :=
  match (s.workers w).worker.reclaimCompletedReqs with
  | .ok worker' => worker'
  | .error _ => (s.workers w).worker

/-- The entry was consumed. -/
def nextPassed : Option (DeviceRun σ) :=
  match s.dispatcher with
  | .handing poll ans [] =>
    match s.ctrl.sqes poll.sqid with
    | some sq =>
      if ans.accepted = true ∧
          ∀ w < s.nrIoWorkers, (s.workers w).worker.reclaimCompletedReqs.isOk = true then
        some (s.dispatched poll sq ans.entry.ioSize s.reclaimedWorker)
      else none
    | none => none
  | _ => none

/-- The loop ends, at a refusal or at the doorbell. -/
def nextFinish : Option (DeviceRun σ) :=
  match s.dispatcher with
  | .handing poll ans [] =>
    match s.ctrl.sqes poll.sqid with
    | some sq => if ans.accepted = false then some (s.finished poll sq) else none
    | none => none
  | .polling poll =>
    match s.ctrl.sqes poll.sqid with
    | some sq => if poll.seq < poll.numProc then none else some (s.finished poll sq)
    | none => none
  | _ => none

/-- `proc_io_cmd` is called. -/
def nextAttempt : Option (DeviceRun σ) :=
  match s.dispatcher with
  | .polling poll =>
    match s.ctrl.sqes poll.sqid,
      (nvmevProcIo fns s.ns s.storage (s.sq poll.sqid poll.sqEntry) poll.sqid).run env with
    | some sq, .ok (out, _) =>
      if poll.seq < poll.numProc then some (s.answered poll sq out (s.keptAfter fns poll env out))
      else none
    | _, _ => none
  | _ => none

/-- The dispatcher comes to a queue. -/
def nextPoll (qid : Nat) : Option (DeviceRun σ) :=
  match s.dispatcher, s.ctrl.sqes qid with
  | .idle, some sq =>
    if 1 ≤ qid ∧ qid ≤ s.ctrl.nrSq ∧ s.ctrl.dbs (qid * 2) ≠ s.ctrl.oldDbs (qid * 2) then
      some (s.polls qid sq)
    else none
  | _, _ => none

/-- An admin command is carried out. -/
def nextAdmin (eid : Nat) (cmd : AdminCommand) : Option (DeviceRun σ) :=
  match s.dispatcher, s.ctrl.procAdminReq eid cmd with
  | .idle, .ok ctrl' => some (s.afterAdmin ctrl' cmd)
  | _, _ => none

/-- A worker starts a pass. -/
def nextPass (w : Nat) : Option (DeviceRun σ) :=
  if w < s.nrIoWorkers ∧ (s.workers w).cursor = none then some (s.startedPass w) else none

/-- A worker visits an entry. -/
def nextVisit (w currNsecs : Nat) (bytes : Nat → Nat) : Option (DeviceRun σ) :=
  match (s.workers w).cursor with
  | some curr =>
    match performAll fns s.sq bytes (s.actions w curr currNsecs) s.outside with
    | .ok o =>
      if w < s.nrIoWorkers ∧ (s.workers w).worker.latestNsecs ≤ currNsecs then
        some (s.visited w curr currNsecs bytes o)
      else none
    | .error _ => none
  | none => none

/-- The state after an event, if it can happen; `proc_io_cmd` is called in the environment `env`. -/
def next : DeviceEvent → Option (DeviceRun σ)
  | .writeEntry qid slot entry =>
    some { s with sq := Function.update s.sq qid (Function.update (s.sq qid) slot entry) }
  | .writeDoorbell idx value =>
    some { s with ctrl := { s.ctrl with dbs := Function.update s.ctrl.dbs idx value } }
  | .adminReq eid cmd => s.nextAdmin eid cmd
  | .pollSq qid => s.nextPoll qid
  | .attempt => s.nextAttempt fns env
  | .handOver => s.nextHandOver
  | .passed => s.nextPassed
  | .finish => s.nextFinish
  | .startPass w => s.nextPass w
  | .visit w currNsecs bytes => s.nextVisit fns w currNsecs bytes

end DeviceRun

section Next

variable {σ : Type} {fns : NvmevNs σ} {env : Env} {s s' : DeviceRun σ} {l : DeviceEvent}

/-- An admin command. -/
theorem DeviceRun.nextAdmin_step {eid : Nat} {cmd : AdminCommand}
    (h : s.nextAdmin eid cmd = some s') : DeviceStep fns s (.adminReq eid cmd) s' := by
  unfold DeviceRun.nextAdmin at h
  split at h
  · rename_i hidle hok
    exact Option.some.inj h ▸ .adminReq hidle hok
  · cases h

/-- A poll. -/
theorem DeviceRun.nextPoll_step {qid : Nat} (h : s.nextPoll qid = some s') :
    DeviceStep fns s (.pollSq qid) s' := by
  unfold DeviceRun.nextPoll at h
  split at h
  · rename_i hidle hsq
    split at h
    · rename_i hpoll
      exact Option.some.inj h ▸ .pollSq hidle hpoll.1 hpoll.2.1 hsq hpoll.2.2
    · cases h
  · cases h

/-- A call of `proc_io_cmd`. -/
theorem DeviceRun.nextAttempt_step (h : s.nextAttempt fns env = some s') :
    DeviceStep fns s .attempt s' := by
  unfold DeviceRun.nextAttempt at h
  split at h
  · rename_i hat
    split at h
    · rename_i hsq hrun
      split at h
      · rename_i hlt
        exact Option.some.inj h ▸ .attempt hat hlt hsq hrun
      · cases h
    · cases h
  · cases h

/-- A job goes over. -/
theorem DeviceRun.nextHandOver_step (h : s.nextHandOver = some s') :
    DeviceStep fns s .handOver s' := by
  unfold DeviceRun.nextHandOver at h
  split at h
  · rename_i hat
    split at h
    · rename_i hok
      exact Option.some.inj h ▸ .gave hat hok
    · rename_i hok
      exact Option.some.inj h ▸ .lost hat hok
    · cases h
  · cases h

/-- Where the reclaim ends it is computed. -/
theorem DeviceRun.reclaimedWorker_eq {w : Nat}
    (h : (s.workers w).worker.reclaimCompletedReqs.isOk = true) :
    (s.workers w).worker.reclaimCompletedReqs = .ok (s.reclaimedWorker w) := by
  unfold DeviceRun.reclaimedWorker
  cases hreclaim : (s.workers w).worker.reclaimCompletedReqs with
  | ok worker' => rfl
  | error fault =>
    rw [hreclaim] at h
    cases h

/-- An entry is consumed. -/
theorem DeviceRun.nextPassed_step (h : s.nextPassed = some s') : DeviceStep fns s .passed s' := by
  unfold DeviceRun.nextPassed at h
  split at h
  · rename_i hat
    split at h
    · rename_i hsq
      split at h
      · rename_i hpassed
        exact Option.some.inj h ▸ .passed hat hpassed.1 hsq fun w hw =>
          DeviceRun.reclaimedWorker_eq (hpassed.2 w hw)
      · cases h
    · cases h
  · cases h

/-- The loop ends. -/
theorem DeviceRun.nextFinish_step (h : s.nextFinish = some s') : DeviceStep fns s .finish s' := by
  unfold DeviceRun.nextFinish at h
  split at h
  · rename_i hat
    split at h
    · rename_i hsq
      split at h
      · rename_i hrefused
        exact Option.some.inj h ▸ .refused hat hrefused hsq
      · cases h
    · cases h
  · rename_i hat
    split at h
    · rename_i hsq
      split at h
      · cases h
      · rename_i hdone
        exact Option.some.inj h ▸ .finish hat hdone hsq
    · cases h
  · cases h

/-- A pass starts. -/
theorem DeviceRun.nextPass_step {w : Nat} (h : s.nextPass w = some s') :
    DeviceStep fns s (.startPass w) s' := by
  unfold DeviceRun.nextPass at h
  split at h
  · rename_i hstart
    exact Option.some.inj h ▸ .startPass hstart.1 hstart.2
  · cases h

/-- An entry is visited. -/
theorem DeviceRun.nextVisit_step {w currNsecs : Nat} {bytes : Nat → Nat}
    (h : s.nextVisit fns w currNsecs bytes = some s') :
    DeviceStep fns s (.visit w currNsecs bytes) s' := by
  unfold DeviceRun.nextVisit at h
  split at h
  · rename_i hcursor
    split at h
    · rename_i hok
      split at h
      · rename_i hvisit
        exact Option.some.inj h ▸ .visit hvisit.1 hcursor hvisit.2 hok
      · cases h
    · cases h
  · cases h

/-- What is computed is a step. -/
theorem DeviceRun.next_step (h : s.next fns env l = some s') : DeviceStep fns s l s' := by
  cases l with
  | writeEntry qid slot entry => exact Option.some.inj h ▸ .writeEntry
  | writeDoorbell idx value => exact Option.some.inj h ▸ .writeDoorbell
  | adminReq eid cmd => exact DeviceRun.nextAdmin_step h
  | pollSq qid => exact DeviceRun.nextPoll_step h
  | attempt => exact DeviceRun.nextAttempt_step h
  | handOver => exact DeviceRun.nextHandOver_step h
  | passed => exact DeviceRun.nextPassed_step h
  | finish => exact DeviceRun.nextFinish_step h
  | startPass w => exact DeviceRun.nextPass_step h
  | visit w currNsecs bytes => exact DeviceRun.nextVisit_step h

/-- Every job a worker has, or is to get, is one of an answer. -/
def DeviceRun.JobsAnswered (s : DeviceRun σ) : Prop :=
  (∀ job ∈ s.dispatcher.todo, ∃ a ∈ s.answers, job ∈ a.jobs) ∧
    ∀ w, ∀ job ∈ (s.workers w).jobs, ∃ a ∈ s.answers, job ∈ a.jobs

/-- A job that goes over is one of the answer. -/
theorem DeviceRun.JobsAnswered.gave (h : s.JobsAnswered) {poll : SqPoll} {ans : ProcAnswer}
    {job : IoJob} {todo : List IoJob} {worker' : IoWorker} {v : Nat}
    (hat : s.dispatcher = .handing poll ans (job :: todo)) :
    (s.gave v worker' job (.handing poll ans todo)).JobsAnswered := by
  have htodo := h.1
  rw [hat] at htodo
  refine ⟨fun other hother => htodo other (List.mem_cons_of_mem _ hother), fun w other hother => ?_⟩
  change other ∈ (Function.update s.workers v ((s.workers v).queue worker' job) w).jobs at hother
  by_cases hw : w = v
  · rw [hw, Function.update_self] at hother
    rcases List.mem_append.mp hother with hold | hnew
    · exact h.2 v other hold
    · obtain rfl := List.mem_singleton.mp hnew
      exact htodo _ List.mem_cons_self
  · rw [Function.update_of_ne hw] at hother
    exact h.2 w other hother

/-- In every run, whatever the namespace and the host do. -/
theorem deviceRuns_answered {fresh : σ → Prop} :
    (deviceRuns fns fresh).Invariant DeviceRun.JobsAnswered where
  init s hs := by
    refine ⟨fun job hjob => ?_, fun w job hjob => ?_⟩
    · rw [hs.dispatcher] at hjob
      exact absurd hjob List.not_mem_nil
    · rw [(hs.workers w).2.2.1] at hjob
      exact absurd hjob List.not_mem_nil
  step s l s' h hstep := by
    cases hstep with
    | attempt _ _ _ _ =>
      refine ⟨fun job hjob => ⟨_, List.mem_concat_self, hjob⟩, fun w job hjob => ?_⟩
      obtain ⟨a, ha, hmem⟩ := h.2 w job hjob
      exact ⟨a, List.mem_append_left _ ha, hmem⟩
    | gave hat _ => exact h.gave hat
    | lost hat _ =>
      have htodo := h.1
      rw [hat] at htodo
      exact ⟨fun job hjob => htodo job (List.mem_cons_of_mem _ hjob), h.2⟩
    | passed _ _ _ _ =>
      refine ⟨fun job hjob => absurd hjob List.not_mem_nil, fun w job hjob => h.2 w job ?_⟩
      rw [← (s.reclaimed_log _ w).1]
      exact hjob
    | pollSq _ _ _ _ _ | refused _ _ _ | finish _ _ _ =>
      exact ⟨fun job hjob => absurd hjob List.not_mem_nil, h.2⟩
    | startPass _ _ => exact ⟨h.1, fun w job hjob => h.2 w job (s.startedPass_jobs _ w ▸ hjob)⟩
    | visit _ _ _ _ =>
      exact ⟨h.1, fun w job hjob => h.2 w job (s.visited_jobs _ _ _ _ _ w ▸ hjob)⟩
    | _ => exact h

/-- Before the first answer there is nothing to do. -/
theorem DeviceRun.JobsAnswered.unanswered (h : s.JobsAnswered) (hnil : s.answers = []) :
    s.dispatcher.todo = [] ∧ ∀ w, (s.workers w).jobs = [] := by
  have hnone : ∀ a, a ∉ s.answers := fun a ha => List.not_mem_nil (hnil ▸ ha)
  refine ⟨List.eq_nil_iff_forall_not_mem.mpr fun job hjob => ?_,
    fun w => List.eq_nil_iff_forall_not_mem.mpr fun job hjob => ?_⟩
  · obtain ⟨a, ha, _⟩ := h.1 job hjob
    exact hnone a ha
  · obtain ⟨a, ha, _⟩ := h.2 w job hjob
    exact hnone a ha

/-- A computed step that passes a check. -/
def DeviceRun.checkedNext (fns : NvmevNs σ) (check : DeviceRun σ → DeviceEvent → Bool)
    (s : DeviceRun σ) (l : DeviceEvent) : Option (DeviceRun σ) :=
  if check s l = true then s.next fns .zero l else none

end Next

/-! ## From boot on -/

section Booted

/-- A flush. -/
def flushEntry : SqEntry where
  opcode := .flush
  commandId := 0
  slba := 0
  length := 0
  fua := false
  zsa := .other
  selectAll := false
  zsaso := false
  zra := 0
  zraSpecificField := 0
  slba_lt := zero_lt_u64
  length_lt := zero_lt_u16

/-- A device with one worker, whose admin rings have 64 entries. -/
def bootedDevice {σ : Type} (ns : σ) : DeviceRun σ where
  ctrl := {
    bar := ⟨0, 0, 0, 0⟩, oldBar := ⟨0, 0, 0, 0⟩, csts := ⟨0, 0⟩, dbs := fun _ => 0
    oldDbs := fun _ => 0, nrNs := 1, nrSq := 72, nrCq := 72
    adminQ := some {
      phase := true, sqDepth := 64, cqDepth := 64, cqHead := 0, nvmeSq := some 1
      nvmeCq := some 1, cq := fun _ => .zero }
    sqes := fun _ => none, cqes := fun _ => none }
  sq := fun _ _ => flushEntry
  ns := ns
  storage := fun _ => 0
  nrIoWorkers := 1
  workers := fun _ => idleWorkerRun
  dispatcher := .idle
  answers := []
  accepted := fun _ => []
  sqGen := fun _ => 0
  cqGen := fun _ => 0
  queuedFor := fun _ _ => (0, 0)
  kept := fun _ => 0

/-- It is a device as the runs start. -/
theorem bootedDevice_booted {σ : Type} {fresh : σ → Prop} {ns : σ} (hns : fresh ns) :
    Booted fresh (bootedDevice ns) :=
  ⟨hns, fun _ => rfl, fun _ => rfl, Nat.one_pos, fun _ => ⟨rfl, rfl, rfl, rfl⟩, rfl, rfl, fun _ => rfl,
    rfl⟩

/-- The command that creates or deletes the queue `qid`; a submission queue is for the completion
queue of its number. -/
def queueCommand (opcode : AdminOpcode) (qid qsize : Nat) : AdminCommand where
  opcode := opcode
  commandId := 0
  qid := qid
  cqid := qid
  qsize := qsize
  irqEnabled := false
  irqVector := 0
  nsid := 0
  lid := .other
  numdl := 0
  numdu := 0
  cns := 0
  numQueues := false
  dword11 := 0

/-- The booted device whose namespace is what `init` makes. -/
def bootedWith {σ : Type} (init : FtlM σ) : Option (DeviceRun σ) :=
  match init.run .zero with
  | .ok (ns, _) => some (bootedDevice ns)
  | .error _ => none

/-- The state after some events, from boot on. -/
def executed {σ : Type} (fns : NvmevNs σ) (init : FtlM σ)
    (check : DeviceRun σ → DeviceEvent → Bool) (ls : List DeviceEvent) : Option (DeviceRun σ) :=
  (bootedWith init).bind fun s => System.follow (DeviceRun.checkedNext fns check) s ls

/-- A run that was computed, with a condition `P` on its steps that `check` decides on the safe side, and
a property of its end. -/
theorem exists_executed {σ : Type} {fns : NvmevNs σ} {fresh : σ → Prop} {init : FtlM σ}
    {P : DeviceRun σ → DeviceEvent → Prop} {check : DeviceRun σ → DeviceEvent → Bool}
    {ls : List DeviceEvent} {p : DeviceRun σ → Bool}
    (hfresh : ∀ ns env', init.run .zero = .ok (ns, env') → fresh ns)
    (hcheck : ∀ s l s', (deviceRuns fns fresh).Reachable s → check s l = true →
      DeviceStep fns s l s' → P s l)
    (h : (executed fns init check ls).any p = true) :
    ∃ s, ((deviceRuns fns fresh).guarded P).Reachable s ∧ p s = true := by
  obtain ⟨s', hexecuted, hp⟩ := (Option.any_eq_true _ _).mp h
  obtain ⟨s, hbooted, hfollow⟩ := Option.bind_eq_some_iff.mp hexecuted
  unfold bootedWith at hbooted
  split at hbooted
  · rename_i ns env' hrun
    obtain rfl := Option.some.inj hbooted
    refine ⟨s', System.Reachable.follow (fun t l t' ht hnext => ?_) ls
      (.init (bootedDevice_booted (hfresh ns env' hrun))) hfollow, hp⟩
    unfold DeviceRun.checkedNext at hnext
    split at hnext
    · rename_i hl
      have hstep := DeviceRun.next_step hnext
      exact ⟨hcheck t l t' ht.of_guarded hl hstep, hstep⟩
    · cases hnext
  · cases hbooted

/-- Queues 1 are created, and the host writes `entries` to the submission queue. -/
def submitEvents (entries : List SqEntry) : List DeviceEvent :=
  [.adminReq 0 (queueCommand .createCq 1 1023), .adminReq 0 (queueCommand .createSq 1 1023)] ++
    entries.mapIdx fun slot entry => .writeEntry 1 slot entry

/-- The host rings the doorbell of queue 1 for the first `count` entries, and the dispatcher comes to it. -/
def ringEvents (count : Nat) : List DeviceEvent := [.writeDoorbell 2 count, .pollSq 1]

/-- The entry at the head is accepted, with `jobs` jobs. -/
def acceptEvents (jobs : Nat) : List DeviceEvent :=
  .attempt :: List.replicate jobs .handOver ++ [.passed]

/-- Worker 0 makes a pass over `count` entries at `currNsecs`, and finds `bytes` in the host's pages. -/
def passEvents (count currNsecs : Nat) (bytes : Nat → Nat) : List DeviceEvent :=
  .startPass 0 :: List.replicate count (.visit 0 currNsecs bytes)

end Booted

end NvmeVirt

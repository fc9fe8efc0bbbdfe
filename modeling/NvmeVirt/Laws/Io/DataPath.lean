import NvmeVirt.Lib.Overwrites
import NvmeVirt.Laws.Io.FailedWrites

/-!
# The copies of the commands

The dispatcher never touches the data of a conventional namespace; a worker copies it when it comes
to the command for the first time. A step of a device run makes one copy at most (`copiesOf`). The
copies of a run are each of a command that was accepted, of the entry that was accepted, and no
command is copied twice (`CopyLedger`, kept by every step).

The ledger rests on two facts about one step: what it adds to the copies is what it adds to the log
of a worker (`DeviceStep.countP_copies`), and what waits at a worker was accepted from the slot it
names (`SlotsAccepted`, by `SlotsAccepted.step`). Since a worker handles a job once, so does the
ledger (`CopyLedger.once`).

A worker reads the submission entry again when it copies, so the host has to leave the entry of a
command alone until then (`SlotsKept`). Whether a copy takes place in one go is left to
`Laws/Io/Pieces`: a `DataCopy` records the bytes and the storage it found, and `CopyLedger.found`
says that the ledger does not depend on them.
-/

set_option autoImplicit false

namespace NvmeVirt

/-! ## Copies -/

/-- A copy: the worker and the number of the job it is for, the submission entry and the bytes of the
host, and the storage it finds. -/
structure DataCopy where
  worker : Nat
  serial : Nat
  entry : SqEntry
  bytes : Nat → Nat
  found : Nat → Nat

/-- What a copy gives to the bytes of the storage; the copy of a read gives nothing. -/
def DataCopy.write (c : DataCopy) (a : Nat) : Option Nat :=
  if c.entry.writes = true ∧ c.entry.ioOffset ≤ a ∧ a < c.entry.ioOffset + c.entry.ioSize then
    some (c.bytes (a - c.entry.ioOffset))
  else none

/-- The copy is for the job `n` of the worker `w`. -/
def DataCopy.isFor (w n : Nat) (c : DataCopy) : Bool := c.worker = w ∧ c.serial = n

namespace DeviceRun

variable {σ : Type} (s : DeviceRun σ)

/-- The worker `w` has yet to copy for the command in its entry `curr`. -/
def CopyDue (w curr : Nat) : Prop :=
  ((s.workers w).worker.workQueue curr).isCompleted = false ∧
    ((s.workers w).worker.workQueue curr).isCopied = false ∧
    ((s.workers w).worker.workQueue curr).isInternal = false

instance (w curr : Nat) : Decidable (s.CopyDue w curr) := inferInstanceAs (Decidable (_ ∧ _ ∧ _))

/-- The submission entry for the job in the entry `curr` of the worker `w`. -/
def entryAt (w curr : Nat) : SqEntry :=
  s.sq ((s.workers w).worker.workQueue curr).sqid ((s.workers w).worker.workQueue curr).sqEntry

/-- The copies of a step. -/
def copiesOf : DeviceEvent → List DataCopy
  | .visit w _ bytes =>
    match (s.workers w).cursor with
    | none => []
    | some curr =>
      if s.CopyDue w curr then
        [⟨w, (s.workers w).serial curr, s.entryAt w curr, bytes, s.storage⟩]
      else []
  | _ => []

/-- A command from the slot waits for its copy, or is on its way to a worker. -/
def Waits (qid slot : Nat) : Prop :=
  (∃ poll ans todo, s.dispatcher = .handing poll ans todo ∧ poll.sqid = qid ∧ poll.sqEntry = slot) ∨
    ∃ w n cqid id ret, (s.workers w).jobs[n]? = some (.request qid cqid slot id ret) ∧
      IoAction.copy qid slot ∉ (s.workers w).actionsOf n

/-- The host does not write to a slot a command waits in. -/
def SlotsKept : DeviceEvent → Prop
  | .writeEntry qid slot _ => ¬ s.Waits qid slot
  | _ => True

end DeviceRun

/-- `proc_io_cmd` leaves the storage and the submission entry alone. -/
def PassesThrough {σ : Type} (fns : NvmevNs σ) : Prop :=
  ∀ ns storage entry sqid env out env',
    (nvmevProcIo fns ns storage entry sqid).run env = .ok (out, env') →
      out.storage = storage ∧ out.answer.entry = entry

/-- The handlers of a conventional namespace hand the entry on as it is. -/
theorem convNamespace_passesThrough : PassesThrough convNamespace :=
  fun ns storage entry sqid _ _ _ hrun => ((convNamespace_outcome ns storage entry sqid).of_run hrun).2

section Steps

variable {σ : Type} {fns : NvmevNs σ} {fresh : σ → Prop} {s s' : DeviceRun σ} {l : DeviceEvent}

/-- The copy of a visit. -/
theorem copiesOf_visit {w curr currNsecs : Nat} {bytes : Nat → Nat}
    (hcursor : (s.workers w).cursor = some curr) :
    s.copiesOf (.visit w currNsecs bytes) = if s.CopyDue w curr then
      [⟨w, (s.workers w).serial curr, s.entryAt w curr, bytes, s.storage⟩] else [] := by
  simp only [DeviceRun.copiesOf, hcursor]

/-- A copy as an overwrite of the storage. -/
theorem doPerformIo_eq_overwrite (c : DataCopy) (storage : Nat → Nat) :
    doPerformIo storage c.entry c.bytes = overwrite storage c.write := by
  funext a
  unfold doPerformIo memcpy overwrite DataCopy.write
  by_cases hwrites : c.entry.writes = true
  · by_cases hin : c.entry.ioOffset ≤ a ∧ a < c.entry.ioOffset + c.entry.ioSize
    · simp [hwrites, hin]
    · simp only [hwrites, if_true, true_and, if_neg hin, Option.getD_none]
  · simp [hwrites]

/-- The storage changes by the copies of the step. -/
theorem DeviceStep.storage_eq (hfns : PassesThrough fns) (h : DeviceStep fns s l s') :
    s'.storage = replay s.storage ((s.copiesOf l).map DataCopy.write) := by
  cases h with
  | attempt _ _ _ hrun => exact (hfns _ _ _ _ _ _ _ hrun).1
  | @visit w curr currNsecs bytes o _ hcursor _ hok =>
    rw [copiesOf_visit hcursor]
    refine (performAll_storage hok).trans ((copied_actions w curr currNsecs).trans ?_)
    by_cases hdue : s.CopyDue w curr
    · rw [if_pos hdue]
      exact (if_pos hdue).trans (doPerformIo_eq_overwrite ⟨w, _, s.entryAt w curr, bytes, _⟩ _)
    · rw [if_neg hdue]
      exact if_neg hdue
  | _ => rfl

/-! ## Each copy is an action of a worker -/

/-- The action is a copy. -/
def IoAction.IsCopy : IoAction → Bool
  | .copy _ _ => true
  | .fillCqResult _ | .release _ _ => false

/-- What a visit logs is its copy. -/
theorem visit_countP_copy (w curr currNsecs : Nat) :
    (s.actions w curr currNsecs).countP IoAction.IsCopy = if s.CopyDue w curr then 1 else 0 := by
  have hdone : ∀ work : IoWork, (IoWorker.completes work).countP IoAction.IsCopy = 0 := by
    intro work
    unfold IoWorker.completes
    split
    · rfl
    · rfl
  have hends : List.countP IoAction.IsCopy
      (if ((s.workers w).worker.workQueue curr).nsecsTarget ≤ currNsecs then
        IoWorker.completes ((s.workers w).worker.workQueue curr) else []) = 0 := by
    split
    · exact hdone _
    · rfl
  unfold DeviceRun.actions
  rw [IoWorker.visit_actions, apply_ite (List.countP IoAction.IsCopy), List.countP_append, hends]
  by_cases hdue : s.CopyDue w curr
  · obtain ⟨hcompleted, hcopied, hinternal⟩ := id hdue
    simp [hdue, hcompleted, IoWorker.copies, hcopied, hinternal, IoAction.IsCopy]
  · rw [if_neg hdue]
    split
    · rfl
    · rename_i hcompleted
      -- not completed, so the copy is done or there is none
      have hnone : IoWorker.copies ((s.workers w).worker.workQueue curr) = [] := by
        refine if_pos (Classical.byContradiction fun hcopy => hdue ?_)
        simpa [DeviceRun.CopyDue, hcompleted] using hcopy
      rw [hnone]
      rfl

/-- For each job there are as many copies as the worker has done. -/
theorem DeviceStep.countP_copies (h : DeviceStep fns s l s') (w n : Nat) :
    ((s'.workers w).actionsOf n).countP IoAction.IsCopy =
      ((s.workers w).actionsOf n).countP IoAction.IsCopy +
        (s.copiesOf l).countP (DataCopy.isFor w n) := by
  cases h with
  | gave _ _ =>
    refine congrArg (List.countP IoAction.IsCopy) (actionsOf_update ?_ n)
    refine update_log ?_ w
    rfl
  | passed _ _ _ _ =>
    exact congrArg (List.countP IoAction.IsCopy) (actionsOf_update (s.reclaimed_log _ w).2 n)
  | startPass _ _ =>
    refine congrArg (List.countP IoAction.IsCopy) (actionsOf_update ?_ n)
    refine update_log ?_ w
    rfl
  | @visit v curr currNsecs bytes o _ hcursor _ _ =>
    rw [copiesOf_visit hcursor]
    show List.countP _
      ((Function.update s.workers v ((s.workers v).visited curr currNsecs) w).actionsOf n) = _
    by_cases hw : w = v
    · subst hw
      rw [Function.update_self, WorkerRun.actionsOf_visit, List.countP_append]
      congr 1
      by_cases hn : (s.workers w).serial curr = n
      · rw [if_pos hn]
        refine (visit_countP_copy w curr currNsecs).trans ?_
        by_cases hdue : s.CopyDue w curr <;> simp [hdue, DataCopy.isFor, hn]
      · rw [if_neg hn]
        by_cases hdue : s.CopyDue w curr <;> simp [hdue, DataCopy.isFor, hn]
    · rw [Function.update_of_ne hw]
      by_cases hdue : s.CopyDue v curr <;> simp [hdue, DataCopy.isFor, Ne.symm hw]
  | _ => rfl

/-! ## The entries of waiting commands -/

/-- The answers and jobs there were are there still. -/
theorem DeviceStep.grows (h : DeviceStep fns s l s') : (∀ a ∈ s.answers, a ∈ s'.answers) ∧
    ∀ (w n : Nat) (job : IoJob), (s.workers w).jobs[n]? = some job →
      (s'.workers w).jobs[n]? = some job := by
  cases h with
  | attempt _ _ _ _ => exact ⟨fun a ha => List.mem_append_left _ ha, fun _ _ _ hjob => hjob⟩
  | @gave poll ans job todo worker' _ _ =>
    refine ⟨fun a ha => ha, fun w n job' hjob => ?_⟩
    show (Function.update s.workers _ _ w).jobs[n]? = some job'
    by_cases hw : w = getIoWorker s.nrIoWorkers job.sqid
    · subst hw
      rw [Function.update_self]
      exact (List.getElem?_append_left (List.getElem?_eq_some_iff.mp hjob).1).trans hjob
    · rw [Function.update_of_ne hw]
      exact hjob
  | passed _ _ _ _ =>
    refine ⟨fun a ha => ha, fun w n job hjob => ?_⟩
    show (s.reclaimed _ w).jobs[n]? = some job
    rw [(s.reclaimed_log _ w).1]
    exact hjob
  | @startPass v _ _ =>
    refine ⟨fun a ha => ha, fun w n job hjob => ?_⟩
    rw [s.startedPass_jobs v w]
    exact hjob
  | @visit v curr currNsecs bytes o _ _ _ _ =>
    refine ⟨fun a ha => ha, fun w n job hjob => ?_⟩
    rw [s.visited_jobs v curr currNsecs bytes o w]
    exact hjob
  | _ => exact ⟨fun a ha => ha, fun _ _ _ hjob => hjob⟩

/-- The slot of a command that waits for its copy holds the entry that was accepted. -/
structure SlotsAccepted (s : DeviceRun σ) : Prop where
  handing : ∀ poll ans todo, s.dispatcher = .handing poll ans todo →
    s.sq poll.sqid poll.sqEntry = ans.entry ∧ ∃ a ∈ s.answers, a.answer = ans ∧
      a.sqid = poll.sqid ∧ a.sqEntry = poll.sqEntry ∧ ∀ job ∈ todo, job ∈ a.jobs
  waiting : ∀ w n job, (s.workers w).jobs[n]? = some job → ∃ a ∈ s.answers, job ∈ a.jobs ∧
    ∀ sqid cqid slot id ret, job = .request sqid cqid slot id ret →
      IoAction.copy sqid slot ∉ (s.workers w).actionsOf n → s.sq sqid slot = a.answer.entry

/-- A step that leaves the entries and the answers alone, and gives no job to a worker. -/
theorem SlotsAccepted.keeps (h : SlotsAccepted s) (hsq : s'.sq = s.sq)
    (hanswers : s'.answers = s.answers)
    (hworkers : ∀ w, (s'.workers w).jobs = (s.workers w).jobs ∧
      ∀ n, (s.workers w).actionsOf n ⊆ (s'.workers w).actionsOf n)
    (hdispatcher : ∀ poll ans todo, s'.dispatcher = .handing poll ans todo →
      ∃ todo', s.dispatcher = .handing poll ans todo' ∧ todo ⊆ todo') : SlotsAccepted s' where
  handing poll ans todo hat := by
    obtain ⟨todo', hat', hsub⟩ := hdispatcher poll ans todo hat
    obtain ⟨hentry, a, ha, hans, hsqid, hslot, htodo⟩ := h.handing poll ans todo' hat'
    rw [hsq, hanswers]
    exact ⟨hentry, a, ha, hans, hsqid, hslot, fun job hjob => htodo job (hsub hjob)⟩
  waiting w n job hjob := by
    obtain ⟨hjobs, hactions⟩ := hworkers w
    rw [hjobs] at hjob
    obtain ⟨a, ha, hmem, hslot⟩ := h.waiting w n job hjob
    rw [hsq, hanswers]
    exact ⟨a, ha, hmem, fun sqid cqid slot id ret heq hcopy =>
      hslot sqid cqid slot id ret heq fun hold => hcopy (hactions n hold)⟩

/-- The host writes an entry for which nothing waits. -/
theorem SlotsAccepted.writeEntry (h : SlotsAccepted s) {qid slot : Nat} {entry : SqEntry}
    (hfree : ¬ s.Waits qid slot) : SlotsAccepted { s with
      sq := Function.update s.sq qid (Function.update (s.sq qid) slot entry) } := by
  have hkept : ∀ q e, s.Waits q e →
      Function.update s.sq qid (Function.update (s.sq qid) slot entry) q e = s.sq q e := by
    intro q e hwaits
    by_cases hq : q = qid
    · subst hq
      have he : e ≠ slot := fun heq => hfree (heq ▸ hwaits)
      rw [Function.update_self, Function.update_of_ne he]
    · rw [Function.update_of_ne hq]
  constructor
  · intro poll ans todo hat
    refine ⟨?_, (h.handing poll ans todo hat).2⟩
    exact (hkept _ _ (.inl ⟨poll, ans, todo, hat, rfl, rfl⟩)).trans (h.handing poll ans todo hat).1
  · intro w n job hjob
    obtain ⟨a, ha, hmem, hslot⟩ := h.waiting w n job hjob
    refine ⟨a, ha, hmem, fun sqid cqid slot' id ret heq hcopy => ?_⟩
    have hwaits : s.Waits sqid slot' := .inr ⟨w, n, cqid, id, ret, heq ▸ hjob, hcopy⟩
    exact (hkept _ _ hwaits).trans (hslot sqid cqid slot' id ret heq hcopy)

/-- `proc_io_cmd` left the submission entry alone. -/
theorem DeviceRun.answered_sq {poll : SqPoll} {sq : SubmissionQueue} {out : ProcOutcome σ}
    {kept : Nat → Nat} (hentry : out.answer.entry = s.sq poll.sqid poll.sqEntry) :
    (s.answered poll sq out kept).sq = s.sq := by
  show Function.update s.sq poll.sqid (Function.update (s.sq poll.sqid) poll.sqEntry _) = s.sq
  rw [hentry, Function.update_eq_self, Function.update_eq_self]

/-- An answer is about the entry in the slot. -/
theorem SlotsAccepted.answered (h : SlotsAccepted s) {poll : SqPoll} {sq : SubmissionQueue}
    {out : ProcOutcome σ} {kept : Nat → Nat}
    (hentry : out.answer.entry = s.sq poll.sqid poll.sqEntry) :
    SlotsAccepted (s.answered poll sq out kept) := by
  constructor
  · intro poll' ans todo hat
    obtain ⟨rfl, rfl, rfl⟩ := Dispatcher.handing.inj hat
    rw [DeviceRun.answered_sq hentry]
    exact ⟨hentry.symm, _, List.mem_concat_self, rfl, rfl, rfl, fun job hjob => hjob⟩
  · intro w n job hjob
    obtain ⟨a, ha, hmem, hslot⟩ := h.waiting w n job hjob
    rw [DeviceRun.answered_sq hentry]
    exact ⟨a, List.mem_append_left _ ha, hmem, hslot⟩

/-- A request of an answer is for the slot of the answer. -/
theorem Answered.slot_of_mem {a : Answered} {sqid cqid slot id : Nat} {ret : NvmevResult}
    (h : .request sqid cqid slot id ret ∈ a.jobs) : sqid = a.sqid ∧ slot = a.sqEntry := by
  unfold Answered.jobs ProcAnswer.jobs at h
  rcases List.mem_append.mp h with hin | hin
  · obtain ⟨op, _, heq⟩ := List.mem_map.mp hin
    cases heq
  · split at hin
    · cases List.mem_singleton.mp hin
      exact ⟨rfl, rfl⟩
    · cases hin

/-- The job of an answer goes to its worker. -/
theorem SlotsAccepted.gave (h : SlotsAccepted s) {poll : SqPoll} {ans : ProcAnswer} {job : IoJob}
    {todo : List IoJob} {worker' : IoWorker} (hat : s.dispatcher = .handing poll ans (job :: todo)) :
    SlotsAccepted
      (s.gave (getIoWorker s.nrIoWorkers job.sqid) worker' job (.handing poll ans todo)) := by
  obtain ⟨hentry, a, ha, hans, hsqid, hslot, htodo⟩ := h.handing poll ans _ hat
  constructor
  · intro poll' ans' todo' hat'
    obtain ⟨rfl, rfl, rfl⟩ := Dispatcher.handing.inj hat'
    exact ⟨hentry, a, ha, hans, hsqid, hslot, fun job' hin => htodo job' (List.mem_cons_of_mem _ hin)⟩
  · intro w n job' hjob'
    have hlog : ∀ v, ((s.gave (getIoWorker s.nrIoWorkers job.sqid) worker' job
        (.handing poll ans todo)).workers v).actionsOf n = (s.workers v).actionsOf n := by
      intro v
      refine actionsOf_update ?_ n
      refine update_log ?_ v
      rfl
    rw [hlog]
    change (Function.update s.workers _ _ w).jobs[n]? = some job' at hjob'
    have hcase : (s.workers w).jobs[n]? = some job' ∨ job' = job := by
      by_cases hw : w = getIoWorker s.nrIoWorkers job.sqid
      · subst hw
        rw [Function.update_self] at hjob'
        exact getElem?_concat_cases hjob'
      · rw [Function.update_of_ne hw] at hjob'
        exact .inl hjob'
    rcases hcase with hold | rfl
    · exact h.waiting w n job' hold
    · refine ⟨a, ha, htodo _ List.mem_cons_self, fun sqid cqid slot id ret heq _ => ?_⟩
      obtain ⟨rfl, rfl⟩ := Answered.slot_of_mem (heq ▸ htodo _ List.mem_cons_self)
      rw [hsqid, hslot, hans]
      exact hentry

/-- Every step that leaves the waiting entries alone. -/
theorem SlotsAccepted.step (h : SlotsAccepted s) (hfns : PassesThrough fns) (hkept : s.SlotsKept l)
    (hstep : DeviceStep fns s l s') : SlotsAccepted s' := by
  have hsame : ∀ w, (s.workers w).jobs = (s.workers w).jobs ∧
      ∀ n, (s.workers w).actionsOf n ⊆ (s.workers w).actionsOf n :=
    fun w => ⟨rfl, fun n => List.Subset.refl _⟩
  cases hstep with
  | writeEntry => exact h.writeEntry hkept
  | writeDoorbell => exact h.keeps rfl rfl hsame fun _ _ todo hat => ⟨todo, hat, fun _ hj => hj⟩
  | adminReq _ _ => exact h.keeps rfl rfl hsame fun _ _ todo hat => ⟨todo, hat, fun _ hj => hj⟩
  | pollSq _ _ _ _ _ => exact h.keeps rfl rfl hsame fun _ _ _ hat => Dispatcher.noConfusion hat
  | attempt _ _ _ hrun => exact h.answered (hfns _ _ _ _ _ _ _ hrun).2
  | gave hat _ => exact h.gave hat
  | @lost poll ans job todo hat _ =>
    refine h.keeps rfl rfl hsame fun poll' ans' todo' hat' => ?_
    obtain ⟨rfl, rfl, rfl⟩ := Dispatcher.handing.inj hat'
    exact ⟨job :: todo, hat, fun _ hj => List.mem_cons_of_mem _ hj⟩
  | passed _ _ _ _ =>
    refine h.keeps rfl rfl (fun w => ?_) fun _ _ _ hat => Dispatcher.noConfusion hat
    obtain ⟨hjobs, hlog⟩ := s.reclaimed_log _ w
    refine ⟨hjobs, fun n => ?_⟩
    show _ ⊆ (s.reclaimed _ w).actionsOf n
    rw [actionsOf_update hlog n]
    exact List.Subset.refl _
  | refused _ _ _ => exact h.keeps rfl rfl hsame fun _ _ _ hat => Dispatcher.noConfusion hat
  | finish _ _ _ => exact h.keeps rfl rfl hsame fun _ _ _ hat => Dispatcher.noConfusion hat
  | @startPass v _ _ =>
    refine h.keeps rfl rfl (fun w => ⟨s.startedPass_jobs v w, fun n => ?_⟩)
      fun _ _ todo hat => ⟨todo, hat, fun _ hj => hj⟩
    have hlog : ((s.startedPass v).workers w).log = (s.workers w).log := by
      refine update_log ?_ w
      rfl
    rw [actionsOf_update hlog n]
    exact List.Subset.refl _
  | @visit v curr currNsecs bytes o _ _ _ _ =>
    refine h.keeps rfl rfl (fun w => ⟨s.visited_jobs v curr currNsecs bytes o w, fun n => ?_⟩)
      fun _ _ todo hat => ⟨todo, hat, fun _ hj => hj⟩
    show _ ⊆ (Function.update s.workers v ((s.workers v).visited curr currNsecs) w).actionsOf n
    by_cases hw : w = v
    · subst hw
      rw [Function.update_self, WorkerRun.actionsOf_visit]
      exact List.subset_append_left _ _
    · rw [Function.update_of_ne hw]
      exact List.Subset.refl _

/-- Where a copy is due there is a command, and nothing has been copied for it. -/
theorem DeviceRun.command_at {w curr : Nat} (hreach : workerRuns.Reachable (s.workers w))
    (hcursor : (s.workers w).cursor = some curr) (hdue : s.CopyDue w curr) : ∃ cqid id ret,
      (s.workers w).jobs[(s.workers w).serial curr]? = some
        (.request ((s.workers w).worker.workQueue curr).sqid cqid
          ((s.workers w).worker.workQueue curr).sqEntry id ret) ∧
      (s.workers w).actionsOf ((s.workers w).serial curr) = [] := by
  obtain ⟨hopen, huncopied, hinternal⟩ := hdue
  obtain ⟨job, hjob, hcarries, hactions, _⟩ := WorkerRun.unfinished_at hreach hcursor hopen
  rw [huncopied] at hactions
  cases job with
  | request sqid cqid slot id ret =>
    have hsqid : _ = sqid := congrArg CqResult.sqid hcarries.1
    have hentry : _ = slot := congrArg CqResult.sqEntry hcarries.1
    subst hsqid
    subst hentry
    exact ⟨cqid, id, ret, hjob, hactions⟩
  | internal => exact absurd (hinternal.symm.trans hcarries.2.2.2) Bool.false_ne_true

/-- The command waits in its slot. -/
theorem DeviceRun.waits_at {w curr : Nat} (hreach : workerRuns.Reachable (s.workers w))
    (hcursor : (s.workers w).cursor = some curr) (hdue : s.CopyDue w curr) :
    s.Waits ((s.workers w).worker.workQueue curr).sqid
      ((s.workers w).worker.workQueue curr).sqEntry := by
  obtain ⟨cqid, id, ret, hjob, hactions⟩ := DeviceRun.command_at hreach hcursor hdue
  refine .inr ⟨w, _, cqid, id, ret, hjob, ?_⟩
  rw [hactions]
  exact List.not_mem_nil

/-- The copy of a visit is for a job of an answer, and of the entry that was accepted. -/
theorem SlotsAccepted.copy (h : SlotsAccepted s) {w curr : Nat}
    (hreach : workerRuns.Reachable (s.workers w)) (hcursor : (s.workers w).cursor = some curr)
    (hdue : s.CopyDue w curr) : ∃ a ∈ s.answers, ∃ job ∈ a.jobs,
      (s.workers w).jobs[(s.workers w).serial curr]? = some job ∧
        s.entryAt w curr = a.answer.entry := by
  obtain ⟨cqid, id, ret, hjob, hactions⟩ := DeviceRun.command_at hreach hcursor hdue
  obtain ⟨a, ha, hmem, hslot⟩ := h.waiting w _ _ hjob
  refine ⟨a, ha, _, hmem, hjob, hslot _ _ _ _ _ rfl ?_⟩
  rw [hactions]
  exact List.not_mem_nil

/-! ## Runs -/

/-- A step copies nothing, or it is a visit that copies once. -/
theorem DeviceStep.copiesOf_cases (h : DeviceStep fns s l s') : s.copiesOf l = [] ∨
    ∃ w curr bytes, (s.workers w).cursor = some curr ∧ s.CopyDue w curr ∧
      s.copiesOf l = [⟨w, (s.workers w).serial curr, s.entryAt w curr, bytes, s.storage⟩] := by
  cases h with
  | @visit w curr currNsecs bytes o _ hcursor _ _ =>
    rw [copiesOf_visit hcursor]
    by_cases hdue : s.CopyDue w curr
    · exact .inr ⟨w, curr, bytes, hcursor, hdue, if_pos hdue⟩
    · exact .inl (if_neg hdue)
  | _ => exact .inl rfl

/-- The copies made up to the state `s`. -/
structure CopyLedger (copies : List DataCopy) (s : DeviceRun σ) : Prop where
  workers : ∀ w, workerRuns.Reachable (s.workers w)
  accepted : SlotsAccepted s
  counts : ∀ w n, ((s.workers w).actionsOf n).countP IoAction.IsCopy =
    copies.countP (DataCopy.isFor w n)
  entries : ∀ c ∈ copies, ∃ a ∈ s.answers, ∃ job ∈ a.jobs,
    (s.workers c.worker).jobs[c.serial]? = some job ∧ c.entry = a.answer.entry

/-- Nothing has been copied at the start. -/
theorem Booted.copyLedger (h : Booted fresh s) : CopyLedger [] s := by
  have hnothing : ∀ w, (s.workers w).jobs = [] ∧ ∀ n, (s.workers w).actionsOf n = [] := by
    intro w
    obtain ⟨_, _, hjobs, hlog⟩ := h.workers w
    refine ⟨hjobs, fun n => ?_⟩
    unfold WorkerRun.actionsOf
    rw [hlog]
    rfl
  constructor
  · exact fun w => .init (h.workers w)
  · constructor
    · intro poll ans todo hat
      rw [h.dispatcher] at hat
      cases hat
    · intro w n job hjob
      rw [(hnothing w).1] at hjob
      cases hjob
  · intro w n
    rw [(hnothing w).2 n]
    rfl
  · exact fun c hc => absurd hc List.not_mem_nil

/-- What holds up to a state holds up to the next. -/
theorem CopyLedger.step {copies : List DataCopy} (h : CopyLedger copies s)
    (hfns : PassesThrough fns) (hkept : s.SlotsKept l) (hstep : DeviceStep fns s l s') :
    CopyLedger (copies ++ s.copiesOf l) s' := by
  obtain ⟨hanswers, hjobs⟩ := hstep.grows
  have hold : ∀ c ∈ copies, ∃ a ∈ s'.answers, ∃ job ∈ a.jobs,
      (s'.workers c.worker).jobs[c.serial]? = some job ∧ c.entry = a.answer.entry := by
    intro c hc
    obtain ⟨a, ha, job, hmem, hjob, hentry⟩ := h.entries c hc
    exact ⟨a, hanswers a ha, job, hmem, hjobs _ _ _ hjob, hentry⟩
  constructor
  · have hworkers := @deviceRuns_workers σ fns fun _ => True
    exact hworkers.step s l s' h.workers hstep
  · exact h.accepted.step hfns hkept hstep
  · intro w n
    rw [hstep.countP_copies w n, h.counts w n, List.countP_append]
  · intro c hc
    rcases List.mem_append.mp hc with hmem | hmem
    · exact hold c hmem
    · rcases hstep.copiesOf_cases with hnone | ⟨w, curr, bytes, hcursor, hdue, hone⟩
      · rw [hnone] at hmem
        cases hmem
      · rw [hone] at hmem
        obtain rfl := List.mem_singleton.mp hmem
        obtain ⟨a, ha, job, hin, hjob, hentry⟩ := h.accepted.copy (h.workers w) hcursor hdue
        exact ⟨a, hanswers a ha, job, hin, hjobs _ _ _ hjob, hentry⟩

/-- The storage plays no part in it, and neither does what a copy found there. -/
theorem CopyLedger.storage {copies : List DataCopy} (h : CopyLedger copies s) (storage : Nat → Nat) :
    CopyLedger copies { s with storage } :=
  ⟨h.workers, ⟨h.accepted.handing, h.accepted.waiting⟩, h.counts, h.entries⟩

/-- What a copy found in the storage is not in the ledger. -/
theorem CopyLedger.found {copies : List DataCopy} {c : DataCopy} (h : CopyLedger (copies ++ [c]) s)
    (found : Nat → Nat) : CopyLedger (copies ++ [{ c with found }]) s := by
  refine ⟨h.workers, h.accepted, fun w n => ?_, fun r hr => ?_⟩
  · rw [h.counts w n, List.countP_append, List.countP_append]
    rfl
  · rcases List.mem_append.mp hr with hold | hnew
    · exact h.entries r (List.mem_append_left _ hold)
    · obtain rfl := List.mem_singleton.mp hnew
      exact h.entries c List.mem_concat_self

/-- How often a worker copies for a job. -/
theorem countP_copy_actions (job : IoJob) (copied completed : Bool) :
    (job.actions copied completed).countP IoAction.IsCopy =
      match job with
      | .request _ _ _ _ _ => if copied = true then 1 else 0
      | .internal _ _ _ _ => 0 := by
  cases job <;> cases copied <;> cases completed <;> rfl

/-- Of each job there is one copy at most. -/
theorem CopyLedger.once {copies : List DataCopy} (h : CopyLedger copies s)
    (w n : Nat) : copies.countP (DataCopy.isFor w n) ≤ 1 := by
  rw [← h.counts w n]
  by_cases hn : n < (s.workers w).jobs.length
  · obtain ⟨_, _, _, hs⟩ := workerRuns_integrity.reachable (h.workers w)
    obtain ⟨copied, completed, heq, _⟩ := hs.actions (List.getElem?_eq_getElem hn)
    rw [heq, countP_copy_actions]
    split
    · split <;> omega
    · exact Nat.zero_le 1
  · obtain ⟨_, _, _, hs⟩ := workerRuns_integrity.reachable (h.workers w)
    rw [hs.actions_fresh (Nat.le_of_not_lt hn)]
    exact Nat.zero_le 1

/-- A command that has been ended was copied. -/
theorem CopyLedger.ended {copies : List DataCopy} (h : CopyLedger copies s)
    {w n sqid cqid slot id : Nat} {ret : NvmevResult}
    (hjob : (s.workers w).jobs[n]? = some (.request sqid cqid slot id ret))
    (hended : ¬ (s.workers w).Unfinished n) : ∃ c ∈ copies, c.isFor w n = true := by
  apply List.countP_pos_iff.mp
  obtain ⟨_, _, _, hs⟩ := workerRuns_integrity.reachable (h.workers w)
  obtain ⟨copied, completed, heq, hcopied, _⟩ := hs.actions hjob
  rw [← h.counts w n, heq, countP_copy_actions]
  have hcompleted : completed = true := by
    refine Classical.byContradiction fun hopen => hended fun d hd hserial => ?_
    rw [Bool.eq_false_iff.mpr hopen] at heq
    apply @IoJob.not_ends_of_actions (.request sqid cqid slot id ret) copied
    rw [← heq]
    exact List.mem_map.mpr ⟨d, List.mem_filter.mpr ⟨hd, decide_eq_true hserial⟩, rfl⟩
  simp [hcopied hcompleted]

/-- A command that is not queued yet has not been copied. -/
theorem CopyLedger.not_queued {copies : List DataCopy} (h : CopyLedger copies s)
    {c : DataCopy} (hc : c ∈ copies) : c.serial < (s.workers c.worker).jobs.length := by
  obtain ⟨_, _, _, _, hjob, _⟩ := h.entries c hc
  exact (List.getElem?_eq_some_iff.mp hjob).1

end Steps

/-- The host writes its entries while the dispatcher is idle and before the first answer. -/
def keepsSlots {σ : Type} (s : DeviceRun σ) : DeviceEvent → Bool
  | .writeEntry _ _ _ => s.answers.isEmpty && s.dispatcher.poll.isNone
  | _ => true

/-- The check is the condition, once every job has its answer. -/
theorem keepsSlots_kept {σ : Type} {s : DeviceRun σ} {l : DeviceEvent} (hanswered : s.JobsAnswered)
    (h : keepsSlots s l = true) : s.SlotsKept l := by
  cases l with
  | writeEntry qid slot entry =>
    obtain ⟨hnil, hidle⟩ := (Bool.and_eq_true _ _).mp h
    rintro (⟨_, _, _, hat, _⟩ | ⟨w, _, _, _, _, hjob, _⟩)
    · rw [hat] at hidle
      cases hidle
    · rw [(hanswered.unanswered (List.isEmpty_iff.mp hnil)).2 w] at hjob
      cases hjob
  | _ => trivial

end NvmeVirt

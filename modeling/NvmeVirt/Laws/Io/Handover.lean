import NvmeVirt.Laws.Io.InOrder

/-!
# What is accepted reaches a worker

The namespace has changed its state when a job is given to a worker, and the worker has no free
entry to give when all but one are taken: the job is dropped then, and the entry is consumed all the
same. While there is room, the jobs owed to a worker are those in its queue and those still to be
given, in order.

`Owed` is the invariant: the jobs of all answers so far, in their order and by worker, are those a
worker has been given and those the dispatcher still holds. It is kept by every step but a hand-over
without room, which `RoomToHandOver` rules out.

The second half of the module builds runs that fill a work queue to its last entry, one command
after the other (`Filling`), and so come to a hand-over without room.
-/

set_option autoImplicit false

namespace NvmeVirt

open Outcome

namespace DeviceRun

variable {σ : Type} (s : DeviceRun σ)

/-- The jobs of a list that are for the worker `w`. -/
def jobsFor (w : Nat) (jobs : List IoJob) : List IoJob :=
  jobs.filter fun job => getIoWorker s.nrIoWorkers job.sqid = w

/-- All jobs the answers so far stand for: a command for each entry consumed, and a release for each
wordline programmed. -/
def owed : List IoJob := s.answers.flatMap Answered.jobs

end DeviceRun

/-- The job is in an entry of the queue that is still pending, or all of it was done. -/
def Placed (run : WorkerRun) (n : Nat) (job : IoJob) : Prop :=
  (∃ free io e, ShareOut run.worker free io ∧ e ∈ io ∧ run.serial e = n ∧
    Carries (run.worker.workQueue e) job) ∨
  run.actionsOf n = job.actions true true

/-- What each worker is owed is in its queue or about to be, and each job in a queue has its entry. -/
structure NothingLost {σ : Type} (s : DeviceRun σ) : Prop where
  owed : ∀ w, s.jobsFor w s.owed = (s.workers w).jobs ++ s.jobsFor w s.dispatcher.todo
  placed : ∀ w n job, (s.workers w).jobs[n]? = some job → Placed (s.workers w) n job

/-- When a job is given to a worker, at least two entries of its queue are free. -/
def RoomToHandOver {σ : Type} (s : DeviceRun σ) : DeviceEvent → Prop
  | .handOver => ∀ poll ans job todo, s.dispatcher = .handing poll ans (job :: todo) →
      ∀ free io, ShareOut (s.workers (getIoWorker s.nrIoWorkers job.sqid)).worker free io →
        io.length + 2 ≤ nrMaxParallelIo
  | _ => True

section Runs

variable {σ : Type} {fns : NvmevNs σ} {fresh : σ → Prop} {s s' : DeviceRun σ} {l : DeviceEvent}

/-- A job in the queue of a reachable worker is pending or done. -/
theorem placed_of_reachable {run : WorkerRun} (h : workerRuns.Reachable run) {n : Nat} {job : IoJob}
    (hjob : run.jobs[n]? = some job) : Placed run n job := by
  obtain ⟨unused, gone, io, hrun⟩ := workerRuns_integrity.reachable h
  by_cases hpending : ∃ e ∈ io, run.serial e = n
  · obtain ⟨e, he, rfl⟩ := hpending
    obtain ⟨job', hjob', hcarries, _⟩ := hrun.pending e he
    obtain rfl : job = job' := Option.some.inj (hjob.symm.trans hjob')
    exact .inl ⟨_, io, e, hrun.queued.shareOut, he, rfl, hcarries⟩
  · exact .inr (hrun.left n job hjob fun e he heq => hpending ⟨e, he, heq⟩)

/-- The queue of a reachable worker refuses a job exactly when all entries but one are taken. -/
theorem refused_iff_full {run : WorkerRun} (h : workerRuns.Reachable run) (job : IoJob) :
    run.worker.enqueue job = .ok none ↔
      ∀ free io, ShareOut run.worker free io → io.length + 1 = nrMaxParallelIo := by
  obtain ⟨unused, gone, io, hrun⟩ := workerRuns_integrity.reachable h
  have hlength := hrun.queued.length
  have hunique : ∀ free' io', ShareOut run.worker free' io' → io' = io := fun free' io' hshare =>
    hshare.ioForth.unique hrun.queued.ioForth
  constructor
  · intro hrefused free' io' hshare
    rcases hrun.queued.enqueue job with ⟨hone, _⟩ | ⟨_, worker', hsome, _⟩
    · rw [hunique free' io' hshare]
      omega
    · rw [hsome] at hrefused
      exact nomatch Except.ok.inj hrefused
  · intro hfull
    have hio := hfull _ io hrun.queued.shareOut
    rcases hrun.queued.enqueue job with ⟨_, hnone⟩ | ⟨hmore, _⟩
    · exact hnone
    · omega

theorem jobsFor_append (w : Nat) (jobs jobs' : List IoJob) :
    s.jobsFor w (jobs ++ jobs') = s.jobsFor w jobs ++ s.jobsFor w jobs' := List.filter_append ..

theorem jobsFor_cons_self {job : IoJob} (todo : List IoJob) :
    s.jobsFor (getIoWorker s.nrIoWorkers job.sqid) (job :: todo) =
      job :: s.jobsFor (getIoWorker s.nrIoWorkers job.sqid) todo :=
  List.filter_cons_of_pos (decide_eq_true rfl)

theorem jobsFor_cons_of_ne {job : IoJob} {w : Nat} (h : w ≠ getIoWorker s.nrIoWorkers job.sqid)
    (todo : List IoJob) : s.jobsFor w (job :: todo) = s.jobsFor w todo :=
  List.filter_cons_of_neg fun heq => h (of_decide_eq_true heq).symm

/-- What is owed to the workers. -/
def Owed (s : DeviceRun σ) : Prop :=
  ∀ w, s.jobsFor w s.owed = (s.workers w).jobs ++ s.jobsFor w s.dispatcher.todo

/-- A step that answers nothing and gives nothing to a worker. -/
theorem Owed.same (h : Owed s) (hanswers : s'.answers = s.answers)
    (hnr : s'.nrIoWorkers = s.nrIoWorkers) (hjobs : ∀ w, (s'.workers w).jobs = (s.workers w).jobs)
    (htodo : s'.dispatcher.todo = s.dispatcher.todo) : Owed s' := by
  intro w
  unfold DeviceRun.jobsFor DeviceRun.owed
  rw [hanswers, hnr, hjobs w, htodo]
  exact h w

/-- An answer is owed as a whole. -/
theorem Owed.answered (h : Owed s) {poll : SqPoll} (hat : s.dispatcher = .polling poll)
    (sq : SubmissionQueue) (out : ProcOutcome σ) (kept : Nat → Nat) :
    Owed (s.answered poll sq out kept) := by
  intro w
  have hold := h w
  rw [hat] at hold
  have howed : (s.answered poll sq out kept).owed =
      s.owed ++ out.answer.jobs poll.sqid sq.cqid poll.sqEntry := by
    unfold DeviceRun.owed
    show List.flatMap Answered.jobs (s.answers ++ [_]) = _
    rw [List.flatMap_append, List.flatMap_singleton]
    rfl
  rw [howed]
  show s.jobsFor w (s.owed ++ _) = (s.workers w).jobs ++ s.jobsFor w _
  rw [jobsFor_append, hold]
  show (s.workers w).jobs ++ [] ++ _ = _
  rw [List.append_nil]
  rfl

/-- A job that was given is owed no longer. -/
theorem Owed.gave (h : Owed s) {poll : SqPoll} {ans : ProcAnswer} {job : IoJob} {todo : List IoJob}
    (hat : s.dispatcher = .handing poll ans (job :: todo)) (worker' : IoWorker) :
    Owed (s.gave (getIoWorker s.nrIoWorkers job.sqid) worker' job (.handing poll ans todo)) := by
  intro w
  have hold := h w
  rw [hat] at hold
  show s.jobsFor w s.owed = (Function.update s.workers _ _ w).jobs ++ s.jobsFor w todo
  rw [hold]
  show _ ++ s.jobsFor w (job :: todo) = _
  by_cases hw : w = getIoWorker s.nrIoWorkers job.sqid
  · rw [hw, jobsFor_cons_self, Function.update_self]
    exact (List.append_assoc _ [job] _).symm
  · rw [jobsFor_cons_of_ne hw, Function.update_of_ne hw]

/-- Nothing is left to give when an entry is passed. -/
theorem Owed.dispatched (h : Owed s) {poll : SqPoll} {ans : ProcAnswer}
    (hat : s.dispatcher = .handing poll ans []) (sq : SubmissionQueue) (ioSize : Nat)
    (workers' : Nat → IoWorker) : Owed (s.dispatched poll sq ioSize workers') := by
  refine Owed.same h rfl rfl (fun w => ?_) ?_
  · show (s.reclaimed workers' w).jobs = _
    unfold DeviceRun.reclaimed
    split
    · rfl
    · rfl
  · rw [hat]
    rfl

/-- A job is not dropped while there is room. -/
theorem not_lost (hreach : (deviceRuns fns fresh).Reachable s) {poll : SqPoll} {ans : ProcAnswer}
    {job : IoJob} {todo : List IoJob} (hroom : RoomToHandOver s .handOver)
    (hat : s.dispatcher = .handing poll ans (job :: todo))
    (hlost : (s.workers (getIoWorker s.nrIoWorkers job.sqid)).worker.enqueue job = .ok none) :
    False := by
  have hrun := deviceRuns_workers.reachable hreach (getIoWorker s.nrIoWorkers job.sqid)
  obtain ⟨unused, gone, io, hin⟩ := workerRuns_integrity.reachable hrun
  have hshare := hin.queued.shareOut
  have hfull := (refused_iff_full hrun job).mp hlost _ io hshare
  have hleft := hroom poll ans job todo hat _ io hshare
  omega

/-- Every step with room keeps it. -/
theorem Owed.step (h : Owed s) (hreach : (deviceRuns fns fresh).Reachable s)
    (hroom : RoomToHandOver s l) (hstep : DeviceStep fns s l s') : Owed s' := by
  cases hstep with
  | attempt hat _ _ _ => exact h.answered hat _ _ _
  | gave hat _ => exact h.gave hat _
  | lost hat hlost => exact absurd (not_lost hreach hroom hat hlost) id
  | passed hat _ _ _ => exact h.dispatched hat _ _ _
  | refused hat _ _ => exact h.same rfl rfl (fun _ => rfl) (by rw [hat]; rfl)
  | finish hat _ _ => exact h.same rfl rfl (fun _ => rfl) (by rw [hat]; rfl)
  | pollSq hidle _ _ _ _ => exact h.same rfl rfl (fun _ => rfl) (by rw [hidle]; rfl)
  | @startPass w _ _ =>
    refine h.same rfl rfl (fun v => ?_) rfl
    show (Function.update s.workers w _ v).jobs = _
    by_cases hv : v = w
    · rw [hv, Function.update_self]
    · rw [Function.update_of_ne hv]
  | @visit w curr currNsecs bytes o _ _ _ _ =>
    refine h.same rfl rfl (fun v => ?_) rfl
    show (Function.update s.workers w _ v).jobs = _
    by_cases hv : v = w
    · rw [hv, Function.update_self]
      rfl
    · rw [Function.update_of_ne hv]
  | _ => exact h

/-- As long as every hand-over finds room, what is owed to a worker is what it has and is about to
get. -/
theorem owed_of_reachable (h : ((deviceRuns fns fresh).guarded RoomToHandOver).Reachable s) :
    Owed s := by
  induction h with
  | init h₀ =>
    intro w
    unfold DeviceRun.owed
    rw [h₀.answers, h₀.dispatcher, (h₀.workers w).2.2.1]
    rfl
  | step hs hstep ih => exact ih.step hs.of_guarded hstep.1 hstep.2

/-- In every run in which every job finds room, nothing is lost: the commands of all entries consumed
and the releases of all wordlines programmed are, in order, what each worker has got and is about to
get, each with its data in an entry that is pending, or done. In every state of such a run a worker's
queue refuses a job if and only if all its entries but one are taken (`refused_iff_full`, for any queue
of a worker). -/
theorem accepted_reaches_worker
    (h : ((deviceRuns fns fresh).guarded RoomToHandOver).Reachable s) :
    NothingLost s ∧ ∀ w job, (s.workers w).worker.enqueue job = .ok none ↔
      ∀ free io, ShareOut (s.workers w).worker free io → io.length + 1 = nrMaxParallelIo := by
  have hworkers := deviceRuns_workers.reachable h.of_guarded
  exact ⟨⟨owed_of_reachable h, fun w n job hjob => placed_of_reachable (hworkers w) hjob⟩,
    fun w job => refused_iff_full (hworkers w) job⟩

end Runs

/-! ## A queue that fills up -/

section Full

/-- `n` entries are taken, and the worker has come to none of them. -/
def Untouched (worker : IoWorker) (n : Nat) : Prop :=
  ∃ free io, Queued worker free io ∧ io.length = n ∧
    ∀ e ∈ io, (worker.workQueue e).isCompleted = false

variable {worker : IoWorker} {n : Nat}

/-- A queue the worker has not looked at takes a job. -/
theorem Untouched.enqueue (h : Untouched worker n) (hn : n + 2 ≤ nrMaxParallelIo) (job : IoJob) :
    ∃ worker', worker.enqueue job = .ok (some worker') ∧ Untouched worker' (n + 1) := by
  obtain ⟨free, io, hqueued, hlength, hfresh⟩ := h
  have htotal := hqueued.length
  rcases hqueued.enqueue job with ⟨hone, _⟩ | ⟨_, worker', hok, hdone⟩
  · omega
  · obtain ⟨rest, before, after, hfree, rfl, hqueued'⟩ := hdone.queued
    refine ⟨worker', hok, rest, _, hqueued', ?_, ?_⟩
    · rw [List.length_append, List.length_cons, ← hlength, List.length_append]
      omega
    · intro e he
      have hfilled : (job.fill (worker.workQueue worker.freeSeq)).isCompleted = false := by
        cases job <;> rfl
      by_cases heq : e = worker.freeSeq
      · rw [heq, hdone.entry.marks.1]
        exact hfilled
      · rw [(hdone.others e heq).marks.1]
        apply hfresh
        rcases List.mem_append.mp he with hin | hin
        · exact List.mem_append_left _ hin
        · rcases List.mem_cons.mp hin with hself | hin
          · exact absurd hself heq
          · exact List.mem_append_right _ hin

/-- Nothing can be taken back from it. -/
theorem Untouched.reclaim (h : Untouched worker n) :
    ∃ worker', worker.reclaimCompletedReqs = .ok worker' ∧ Untouched worker' n := by
  obtain ⟨free, io, hqueued, hlength, hfresh⟩ := h
  obtain ⟨gone, rest, worker', rfl, hok, hdone⟩ := hqueued.reclaim
  refine ⟨worker', hok, ?_⟩
  cases gone with
  | nil =>
    refine ⟨_, rest, hdone.queued, hlength, fun e he => ?_⟩
    rw [(hdone.work e).marks.1]
    exact hfresh e he
  | cons e gone =>
    have hcompleted := (hdone.gone e List.mem_cons_self).1
    exact nomatch hcompleted.symm.trans (hfresh e List.mem_cons_self)

/-- With one free entry it takes none. -/
theorem Untouched.full (h : Untouched worker n) (hn : n + 1 = nrMaxParallelIo) (job : IoJob) :
    worker.enqueue job = .ok none := by
  obtain ⟨free, io, hqueued, hlength, _⟩ := h
  have htotal := hqueued.length
  rcases hqueued.enqueue job with ⟨_, hnone⟩ | ⟨hmore, _⟩
  · exact hnone
  · omega

/-- Its pending list has the jobs queued so far. -/
theorem Untouched.shareOut (h : Untouched worker n) {free io : List Nat}
    (hshare : ShareOut worker free io) : io.length = n := by
  obtain ⟨free', io', hqueued, hlength, _⟩ := h
  rw [hshare.ioForth.unique hqueued.ioForth]
  exact hlength

/-- The admin queue can post. -/
structure AdminReady (ctrl : Controller) (q : AdminQueue) : Prop where
  adminQ : ctrl.adminQ = some q
  nvmeSq : q.nvmeSq = some 1
  nvmeCq : q.nvmeCq = some 1
  cqDepth : q.cqDepth = 64
  cqHead : q.cqHead < 64

theorem AdminReady.congr {ctrl ctrl' : Controller} {q : AdminQueue} (h : AdminReady ctrl q)
    (heq : ctrl'.adminQ = ctrl.adminQ) : AdminReady ctrl' q :=
  ⟨heq.trans h.adminQ, h.nvmeSq, h.nvmeCq, h.cqDepth, h.cqHead⟩

/-- The completion queue of `qid`, of 1024 entries, is new. -/
def Controller.openedCq (ctrl : Controller) (qid : Nat) : Controller :=
  { ctrl with
    cqes := Function.update ctrl.cqes qid
      (some (Controller.newCompletionQueue (queueCommand .createCq qid 1023)))
  }.resetDoorbell (qid * 2 + 1)

/-- The submission queue of `qid`, of 1024 entries, is new. -/
def Controller.openedSq (ctrl : Controller) (qid : Nat) : Controller :=
  { ctrl with
    sqes := Function.update ctrl.sqes qid
      (some (Controller.newSubmissionQueue (queueCommand .createSq qid 1023)))
  }.resetDoorbell (qid * 2)

/-- A queue is created, and the admin queue can post again. -/
theorem AdminReady.create {ctrl : Controller} {q : AdminQueue} (h : AdminReady ctrl q)
    {opcode : AdminOpcode} (hop : opcode = .createCq ∨ opcode = .createSq) {qid : Nat}
    (hqid : qid ≤ 72) : ∃ ctrl' q', ctrl.procAdminReq 0 (queueCommand opcode qid 1023) = .ok ctrl' ∧
      AdminReady ctrl' q' ∧ ctrl'.nrSq = ctrl.nrSq := by
  have hentry : ctrl.checkSqEntry 0 = .ok () := by
    have hsq : ctrl.adminQ.bind AdminQueue.nvmeSq = some 1 := by
      rw [h.adminQ]
      exact h.nvmeSq
    unfold Controller.checkSqEntry
    rw [hsq]
    rfl
  have hslot : ¬ 72 < qid := Nat.not_lt.mpr hqid
  have hpost : ∀ mid : Controller, mid.adminQ = some q → ∃ q',
      mid.makeCqEntry 0 0 nvmeScSuccess = .ok { mid with adminQ := some q' } ∧
      q'.nvmeSq = some 1 ∧ q'.nvmeCq = some 1 ∧ q'.cqDepth = 64 ∧ q'.cqHead < 64 := by
    intro mid hmid
    have hpage : ¬ 1 ≤ q.cqHead / nrCqePerPage := by
      have hhead := h.cqHead
      show ¬ 1 ≤ q.cqHead / 256
      omega
    unfold Controller.makeCqEntry Controller.makeCqEntryResults AdminQueue.makeCqEntryResults
    rw [hmid]
    dsimp only
    rw [h.nvmeCq]
    dsimp only
    rw [if_neg hpage]
    refine ⟨_, rfl, h.nvmeSq, rfl, h.cqDepth, ?_⟩
    show (advanceHead q.cqDepth q.cqHead q.phase).1 < 64
    have hhead := h.cqHead
    unfold advanceHead
    rw [h.cqDepth]
    split
    · exact Nat.succ_pos _
    · show q.cqHead + 1 < 64
      omega
  rcases hop with rfl | rfl
  · obtain ⟨q', hok, hsq, hcq, hdepth, hhead⟩ := hpost (ctrl.openedCq qid) h.adminQ
    have hproc : ctrl.procAdminReq 0 (queueCommand .createCq qid 1023) =
        (ctrl.openedCq qid).makeCqEntry 0 0 nvmeScSuccess := by
      unfold Controller.procAdminReq
      rw [hentry]
      show (do
        let ctrl ← ctrl.setCq qid _
        (ctrl.resetDoorbell (qid * 2 + 1)).makeCqEntry 0 0 nvmeScSuccess) = _
      unfold Controller.setCq
      rw [show nrMaxIoQueue = 72 from rfl, if_neg hslot]
      rfl
    exact ⟨_, q', hproc.trans hok, ⟨rfl, hsq, hcq, hdepth, hhead⟩, rfl⟩
  · obtain ⟨q', hok, hsq, hcq, hdepth, hhead⟩ := hpost (ctrl.openedSq qid) h.adminQ
    have hproc : ctrl.procAdminReq 0 (queueCommand .createSq qid 1023) =
        (ctrl.openedSq qid).makeCqEntry 0 0 nvmeScSuccess := by
      unfold Controller.procAdminReq
      rw [hentry]
      show (do
        let ctrl ← ctrl.setSq qid _
        (ctrl.resetDoorbell (qid * 2)).makeCqEntry 0 0 nvmeScSuccess) = _
      unfold Controller.setSq
      rw [show nrMaxIoQueue = 72 from rfl, if_neg hslot]
      rfl
    exact ⟨_, q', hproc.trans hok, ⟨rfl, hsq, hcq, hdepth, hhead⟩, rfl⟩

/-- A run in which all jobs so far, `n` of them, are still in the queue of the only worker. -/
structure Filling (s : DeviceRun ConvNs) (n : Nat) : Prop where
  reach : ((deviceRuns convNamespace Fresh970ProGib).guarded RoomToHandOver).Reachable s
  nrIoWorkers : s.nrIoWorkers = 1
  worker : Untouched (s.workers 0).worker n
  entries : s.sq = fun _ _ => flushEntry
  admin : ∃ q, AdminReady s.ctrl q
  nrSq : s.ctrl.nrSq = 72

/-- A poll has `seq` of its `numProc` entries behind it. -/
structure PollsAt (s : DeviceRun ConvNs) (qid seq numProc : Nat) : Prop where
  dispatcher : ∃ poll, s.dispatcher = .polling poll ∧ poll.sqid = qid ∧ poll.seq = seq ∧
    poll.numProc = numProc
  sqes : ∃ sq, s.ctrl.sqes qid = some sq

theorem getIoWorker_one (sqid : Nat) : getIoWorker 1 sqid = 0 := Nat.mod_one _

/-- A flush is accepted, and its entry is left alone. -/
theorem flush_answers (ns : ConvNs) (storage : Nat → Nat) (sqid : Nat) :
    ∃ out env', (nvmevProcIo convNamespace ns storage flushEntry sqid).run .zero = .ok (out, env') ∧
      out.answer.accepted = true ∧ out.answer.internal = [] ∧ out.answer.entry = flushEntry := by
  have hens : Ensures NoFault (nvmevProcIo convNamespace ns storage flushEntry sqid) fun out =>
      out.answer.accepted = true ∧ out.answer.internal = [] ∧ out.answer.entry = flushEntry := by
    apply cpuClock_ensures.bind
    intro nsecsStart _
    refine Ensures.bind (P := fun r => r.2.accepted = true ∧ r.2.internal = []) ?_ ?_
    · exact (convFlush_ensures ns).bind fun _ _ => .pure ⟨rfl, rfl⟩
    · rintro ⟨ns', ans⟩ ⟨haccepted, hinternal⟩
      refine .pure ⟨haccepted, ?_, rfl⟩
      show ans.internal.map _ = []
      rw [hinternal]
      rfl
  obtain ⟨out, env', hrun, hout⟩ := answers hens .zero
  exact ⟨out, env', hrun, hout⟩

variable {s : DeviceRun ConvNs} {qid seq numProc : Nat}

/-- The entry at the head is accepted, and its command is the next job. -/
theorem Filling.attempt (h : Filling s n) (hat : PollsAt s qid seq numProc) (hlt : seq < numProc) :
    ∃ s' poll ans job, Filling s' n ∧ s'.dispatcher = .handing poll ans [job] ∧
      ans.accepted = true ∧ poll.sqid = qid ∧ poll.seq = seq ∧ poll.numProc = numProc ∧
      ∃ sq, s'.ctrl.sqes qid = some sq := by
  obtain ⟨poll, hpoll, rfl, rfl, rfl⟩ := hat.dispatcher
  obtain ⟨sq, hsq⟩ := hat.sqes
  obtain ⟨out, env', hrun, haccepted, hinternal, hentry⟩ := flush_answers s.ns s.storage poll.sqid
  have hentries : s.sq poll.sqid poll.sqEntry = flushEntry := by rw [h.entries]
  rw [← hentries] at hrun
  have hstep := DeviceStep.attempt hpoll hlt hsq hrun
  have hjobs : out.answer.jobs poll.sqid sq.cqid poll.sqEntry =
      [.request poll.sqid sq.cqid poll.sqEntry out.answer.entry.commandId out.answer.result] := by
    unfold ProcAnswer.jobs
    rw [hinternal, if_pos haccepted]
    rfl
  have hentries' : (s.answered poll sq out (s.keptAfter convNamespace poll .zero out)).sq =
      fun _ _ => flushEntry := by
    show Function.update s.sq poll.sqid
      (Function.update (s.sq poll.sqid) poll.sqEntry out.answer.entry) = _
    rw [hentry, h.entries]
    exact (congrArg _ (Function.update_eq_self poll.sqEntry fun _ => flushEntry)).trans
      (Function.update_eq_self poll.sqid fun _ _ => flushEntry)
  exact ⟨_, poll, out.answer, _, ⟨h.reach.guarded_step hstep trivial, h.nrIoWorkers, h.worker,
    hentries', h.admin, h.nrSq⟩, congrArg _ hjobs, haccepted, rfl, rfl, rfl, sq, hsq⟩

/-- The only worker takes the next job, and nothing of its queue is taken back. -/
theorem Filling.pass (h : Filling s n) (hn : n + 2 ≤ nrMaxParallelIo)
    (hat : PollsAt s qid seq numProc) (hlt : seq < numProc) :
    ∃ s', Filling s' (n + 1) ∧ PollsAt s' qid (seq + 1) numProc := by
  obtain ⟨s₁, poll, ans, job, h₁, hhanding, haccepted, rfl, rfl, rfl, sq, hsq⟩ := h.attempt hat hlt
  have hw : ∀ job : IoJob, getIoWorker s₁.nrIoWorkers job.sqid = 0 := fun job => by
    rw [h₁.nrIoWorkers]
    exact getIoWorker_one _
  obtain ⟨worker', hok, hworker'⟩ := h₁.worker.enqueue hn job
  rw [← hw job] at hok
  have hroom : RoomToHandOver s₁ .handOver := by
    intro poll' ans' job' todo' hhanding' free io hshare
    rw [hw job'] at hshare
    rw [h₁.worker.shareOut hshare]
    exact hn
  have hgave := @DeviceStep.gave _ convNamespace _ _ _ _ _ _ hhanding hok
  have hreach₂ := h₁.reach.guarded_step hgave hroom
  obtain ⟨worker'', hreclaim, hworker''⟩ := hworker'.reclaim
  have hzero : (Function.update s₁.workers (getIoWorker s₁.nrIoWorkers job.sqid)
      ((s₁.workers (getIoWorker s₁.nrIoWorkers job.sqid)).queue worker' job) 0).worker = worker' := by
    rw [hw job, Function.update_self]
    rfl
  have hpassed := @DeviceStep.passed _ convNamespace
    (s₁.gave (getIoWorker s₁.nrIoWorkers job.sqid) worker' job (.handing poll ans [])) poll ans sq
    (fun _ => worker'') rfl haccepted hsq (by
      intro w hw₁
      have hw₁ : w < s₁.nrIoWorkers := hw₁
      rw [h₁.nrIoWorkers] at hw₁
      obtain rfl : w = 0 := by omega
      show (Function.update s₁.workers _ _ 0).worker.reclaimCompletedReqs = _
      rw [hzero]
      exact hreclaim)
  have hworker₃ : Untouched (((s₁.gave (getIoWorker s₁.nrIoWorkers job.sqid) worker' job
      (.handing poll ans [])).reclaimed fun _ => worker'') 0).worker (n + 1) := by
    have hnr : 0 < (s₁.gave (getIoWorker s₁.nrIoWorkers job.sqid) worker' job
        (.handing poll ans [])).nrIoWorkers := by
      show 0 < s₁.nrIoWorkers
      rw [h₁.nrIoWorkers]
      exact Nat.one_pos
    unfold DeviceRun.reclaimed
    rw [if_pos hnr]
    exact hworker''
  obtain ⟨q, hq⟩ := h₁.admin
  exact ⟨_, ⟨hreach₂.guarded_step hpassed trivial, h₁.nrIoWorkers, hworker₃, h₁.entries,
    ⟨q, hq.congr rfl⟩, h₁.nrSq⟩, ⟨_, rfl, rfl, rfl, rfl⟩, _, Function.update_self ..⟩

/-- The loop takes some more entries. -/
theorem Filling.passes (k : Nat) (h : Filling s n) (hn : n + k + 1 ≤ nrMaxParallelIo)
    (hat : PollsAt s qid seq numProc) (hle : seq + k ≤ numProc) :
    ∃ s', Filling s' (n + k) ∧ PollsAt s' qid (seq + k) numProc := by
  induction k with
  | zero => exact ⟨s, h, hat⟩
  | succ k ih =>
    obtain ⟨s₁, h₁, hat₁⟩ := ih (by omega) (by omega)
    have hlt : seq + k < numProc := by omega
    exact h₁.pass (by omega) hat₁ hlt

/-- A queue of 1024 entries is created, and its doorbell is rung for the first `value` of them. -/
theorem Filling.openQueue (h : Filling s n) (hidle : s.dispatcher = .idle) (hpos : 1 ≤ qid)
    (hle : qid ≤ 72) {value : Nat} (hvalue : value ≠ 0) :
    ∃ s', Filling s' n ∧ PollsAt s' qid 0 value := by
  obtain ⟨q, hq⟩ := h.admin
  obtain ⟨ctrl₁, q₁, hok₁, hq₁, hnr₁⟩ := hq.create (.inl rfl) hle
  obtain ⟨ctrl₂, q₂, hok₂, hq₂, hnr₂⟩ := hq₁.create (.inr rfl) hle
  have hdone := Controller.procAdminReq_done hok₂
  have hsq : ctrl₂.sqes qid =
      some (Controller.newSubmissionQueue (queueCommand .createSq qid 1023)) := by
    rw [hdone.sqes]
    exact Function.update_self ..
  have hold : ctrl₂.oldDbs (qid * 2) = 0 :=
    (hdone.doorbells qid).2.trans (doorbellAfter_created rfl rfl)
  have hreach₁ := h.reach.guarded_step (DeviceStep.adminReq hidle hok₁) trivial
  have hreach₂ := hreach₁.guarded_step (@DeviceStep.adminReq _ _ _ 0 _ _ hidle hok₂) trivial
  have hreach₃ := hreach₂.guarded_step (@DeviceStep.writeDoorbell _ _ _ (qid * 2) value) trivial
  have hnr : qid ≤ ctrl₂.nrSq := by
    rw [hnr₂, hnr₁, h.nrSq]
    exact hle
  have hrung : Function.update ctrl₂.dbs (qid * 2) value (qid * 2) = value := Function.update_self ..
  have hnew : Function.update ctrl₂.dbs (qid * 2) value (qid * 2) ≠ ctrl₂.oldDbs (qid * 2) := by
    rw [hrung, hold]
    exact hvalue
  have hpoll := @DeviceStep.pollSq _ convNamespace
    { (s.afterAdmin ctrl₁ (queueCommand .createCq qid 1023)).afterAdmin ctrl₂
        (queueCommand .createSq qid 1023) with
      ctrl := { ctrl₂ with dbs := Function.update ctrl₂.dbs (qid * 2) value } }
    qid _ hidle hpos hnr hsq hnew
  refine ⟨_, ⟨hreach₃.guarded_step hpoll trivial, h.nrIoWorkers, h.worker, h.entries,
    ⟨q₂, hq₂.congr rfl⟩, (hnr₂.trans hnr₁).trans h.nrSq⟩, ⟨_, rfl, rfl, rfl, ?_⟩, _, hsq⟩
  show (if Function.update ctrl₂.dbs (qid * 2) value (qid * 2) < ctrl₂.oldDbs (qid * 2) then _
    else Function.update ctrl₂.dbs (qid * 2) value (qid * 2) - ctrl₂.oldDbs (qid * 2)) = _
  rw [hrung, hold]
  exact (if_neg (Nat.not_lt_zero _)).trans (Nat.sub_zero _)

/-- The loop ends. -/
theorem Filling.closeQueue (h : Filling s n) (hat : PollsAt s qid numProc numProc) :
    ∃ s', Filling s' n ∧ s'.dispatcher = .idle := by
  obtain ⟨poll, hpoll, rfl, hseq, hnum⟩ := hat.dispatcher
  obtain ⟨sq, hsq⟩ := hat.sqes
  obtain ⟨q, hq⟩ := h.admin
  have hfinish := @DeviceStep.finish _ convNamespace _ _ _ hpoll (by omega) hsq
  exact ⟨_, ⟨h.reach.guarded_step hfinish trivial, h.nrIoWorkers, h.worker, h.entries,
    ⟨q, hq.congr rfl⟩, h.nrSq⟩, rfl⟩

/-- After `k` queues all but one of whose entries were consumed. -/
theorem exists_filling (k : Nat) (hk : k ≤ 16) :
    ∃ s, Filling s (k * 1023) ∧ s.dispatcher = .idle := by
  induction k with
  | zero =>
    obtain ⟨ns, hns, _⟩ := exists_fresh970ProGib
    have hreach : ((deviceRuns convNamespace Fresh970ProGib).guarded RoomToHandOver).Reachable
        (bootedDevice ns) := .init (bootedDevice_booted hns)
    exact ⟨_, ⟨hreach, rfl, ⟨_, [], queued_init, rfl, nofun⟩, rfl, ⟨_, rfl, rfl, rfl, rfl,
      Nat.succ_pos _⟩, rfl⟩, rfl⟩
  | succ k ih =>
    obtain ⟨s, h, hidle⟩ := ih (by omega)
    obtain ⟨s₁, h₁, hat₁⟩ := @Filling.openQueue _ _ (k + 1) h hidle (by omega) (by omega)
      1023 (by omega)
    have hroom : k * 1023 + 1023 + 1 ≤ nrMaxParallelIo := by
      show k * 1023 + 1023 + 1 ≤ 16384
      omega
    obtain ⟨s₂, h₂, hat₂⟩ := h₁.passes 1023 hroom hat₁ (by omega)
    rw [Nat.zero_add] at hat₂
    rw [Nat.succ_mul]
    exact h₂.closeQueue hat₂

/-- Jobs are only handed over to a worker that takes them. -/
def handsOver (s : DeviceRun ConvNs) : DeviceEvent → Bool
  | .handOver =>
    match s.dispatcher with
    | .handing _ _ (job :: _) =>
      match (s.workers (getIoWorker s.nrIoWorkers job.sqid)).worker.enqueue job with
      | .ok (some _) => true
      | _ => false
    | _ => false
  | _ => true

theorem handsOver_room {s : DeviceRun ConvNs} {l : DeviceEvent}
    (hreach : (deviceRuns convNamespace Fresh970ProGib).Reachable s) (h : handsOver s l = true) :
    RoomToHandOver s l := by
  cases l with
  | handOver =>
    intro poll ans job todo hat free io hshare
    have hworker := deviceRuns_workers.reachable hreach (getIoWorker s.nrIoWorkers job.sqid)
    obtain ⟨unused, gone, io', hin⟩ := workerRuns_integrity.reachable hworker
    obtain rfl : io = io' := hshare.ioForth.unique hin.queued.ioForth
    have hlength := hin.queued.length
    obtain ⟨_, hnone⟩ | ⟨hmore, _⟩ := hin.queued.enqueue job
    · unfold handsOver at h
      rw [hat] at h
      dsimp only at h
      rw [hnone] at h
      cases h
    · omega
  | _ => trivial

/-- With the eight releases and the command of a write. -/
theorem accepted_reaches_worker_write : ∃ s : DeviceRun ConvNs,
    ((deviceRuns convNamespace Fresh970ProGib).guarded RoomToHandOver).Reachable s ∧
      s.answers.map (fun a => a.answer.accepted) = [true, false] ∧ (s.workers 0).jobs.length = 9 ∧
      NothingLost s := by
  obtain ⟨s, hreach, hends⟩ := @exists_executedGib RoomToHandOver handsOver twoWrites
    (fun s => s.answers.map (fun a => a.answer.accepted) = [true, false] ∧
      (s.workers 0).jobs.length = 9)
    (fun _ _ _ ht hl _ => handsOver_room ht hl) (by decide +kernel)
  obtain ⟨hflags, hjobs⟩ := of_decide_eq_true hends
  exact ⟨s, hreach, hflags, hjobs, (accepted_reaches_worker hreach).1⟩

/-- With 16383 flushes from 17 queues outstanding, the next one is consumed and dropped. -/
theorem accepted_is_lost :
    ¬ ∀ s, (deviceRuns convNamespace Fresh970ProGib).Reachable s → NothingLost s := by
  intro hall
  obtain ⟨s₀, h₀, hidle⟩ := exists_filling 16 (Nat.le_refl _)
  obtain ⟨s₁, h₁, hat₁⟩ := @Filling.openQueue _ _ 17 h₀ hidle (by omega) (by omega) 16
    (by omega)
  have hroom : 16 * 1023 + 15 + 1 ≤ nrMaxParallelIo := by
    show 16 * 1023 + 15 + 1 ≤ 16384
    omega
  obtain ⟨s₂, h₂, hat₂⟩ := h₁.passes 15 hroom hat₁ (by omega)
  obtain ⟨s₃, poll, ans, job, h₃, hhanding, _⟩ := h₂.attempt hat₂ (by omega)
  have hw : getIoWorker s₃.nrIoWorkers job.sqid = 0 := by
    rw [h₃.nrIoWorkers]
    exact getIoWorker_one _
  have hfull : (s₃.workers (getIoWorker s₃.nrIoWorkers job.sqid)).worker.enqueue job = .ok none := by
    rw [hw]
    exact h₃.worker.full rfl job
  have hlost := h₃.reach.of_guarded.step (.lost hhanding hfull)
  have howed := owed_of_reachable h₃.reach 0
  have howed' := (hall _ hlost).owed 0
  rw [hhanding] at howed
  -- the same jobs are owed and queued before and after, but one is no longer to be given
  have hlength := congrArg List.length (howed.symm.trans howed')
  rw [List.length_append, List.length_append] at hlength
  have hone : (s₃.jobsFor 0 [job]).length = 1 := by
    rw [← hw, jobsFor_cons_self]
    rfl
  have hnone : (s₃.jobsFor 0 ([] : List IoJob)).length = 0 := rfl
  have hgone := Nat.add_left_cancel hlength
  exact nomatch hone.symm.trans (hgone.trans hnone)

end Full

end NvmeVirt

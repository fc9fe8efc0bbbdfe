import NvmeVirt.Lib.System
import NvmeVirt.Laws.Io.Queue

/-!
# The work queue of a worker, over runs

A run interleaves the dispatcher's calls with the worker's passes. Each job gets a number when it is
queued; the log has what the worker did, for which job, and when. The free list is made of entries
that were never used and, behind them, of those taken back, all of them completed: a cursor that was
left behind in the free list is among the latter, where the worker passes on without doing anything.

`Integrity` joins the two lists with the log: for each pending entry what was done for its job is
what its marks say, and for every job whose entry is gone everything was done. Enqueueing,
reclaiming and a visit keep it one after the other; a visit has the two cases of a pending entry and
of one taken back in the meantime.

A visit is one step, and so is each call of the dispatcher. That the worker reads an entry while the
dispatcher fills it is left out.
-/

set_option autoImplicit false

namespace NvmeVirt

/-- An action of the worker. -/
structure Done where
  serial : Nat
  action : IoAction
  clock : Nat

/-- A worker, its cursor, the jobs queued so far, the number of the job last put into each entry, and
what was done. -/
structure WorkerRun where
  worker : IoWorker
  cursor : Option Nat
  jobs : List IoJob
  serial : Nat → Nat
  log : List Done

inductive WorkerEvent where
  | enqueue (job : IoJob)
  | reclaim
  | startPass
  | visit (currNsecs : Nat)

/-- The run once a job is in the first free entry. -/
def WorkerRun.queue (s : WorkerRun) (worker' : IoWorker) (job : IoJob) : WorkerRun :=
  { s with
    worker := worker', jobs := s.jobs ++ [job]
    serial := Function.update s.serial s.worker.freeSeq s.jobs.length }

/-- The run after a visit. -/
def WorkerRun.visited (s : WorkerRun) (curr currNsecs : Nat) : WorkerRun :=
  { s with
    worker := (s.worker.visit curr currNsecs).1
    cursor := (s.worker.visit curr currNsecs).2.1
    log := s.log ++ (s.worker.visit curr currNsecs).2.2.map (⟨s.serial curr, ·, currNsecs⟩) }

inductive WorkerStep : WorkerRun → WorkerEvent → WorkerRun → Prop where
  | queued {s : WorkerRun} {job : IoJob} {worker' : IoWorker} :
    s.worker.enqueue job = .ok (some worker') →
    WorkerStep s (.enqueue job) (s.queue worker' job)
  | refused {s : WorkerRun} {job : IoJob} :
    s.worker.enqueue job = .ok none → WorkerStep s (.enqueue job) s
  | reclaim {s : WorkerRun} {worker' : IoWorker} :
    s.worker.reclaimCompletedReqs = .ok worker' →
    WorkerStep s .reclaim { s with worker := worker' }
  | startPass {s : WorkerRun} : s.cursor = none →
    WorkerStep s .startPass { s with cursor := s.worker.ioSeq }
  | visit {s : WorkerRun} {curr currNsecs : Nat} : s.cursor = some curr →
    s.worker.latestNsecs ≤ currNsecs →
    WorkerStep s (.visit currNsecs) (s.visited curr currNsecs)

/-- Runs from `NVMEV_IO_WORKER_INIT`. -/
def workerRuns : System WorkerRun WorkerEvent where
  init s := s.worker = nvmevIoWorkerInit ∧ s.cursor = none ∧ s.jobs = [] ∧ s.log = []
  step := WorkerStep

/-- What was done for the job `n`, in order. -/
def WorkerRun.actionsOf (s : WorkerRun) (n : Nat) : List IoAction :=
  (s.log.filter (·.serial = n)).map (·.action)

/-- What there is to do for a job, up to the copy and up to the completion. -/
def IoJob.actions (copied completed : Bool) : IoJob → List IoAction
  | .request sqid cqid sqEntry commandId ret =>
    (if copied = true then [.copy sqid sqEntry] else []) ++
      if completed = true then [.fillCqResult ⟨sqid, cqid, sqEntry, commandId, ret.status, 0, 0⟩]
      else []
  | .internal _ _ writeBuffer buffsToRelease =>
    if completed = true then [.release writeBuffer buffsToRelease] else []

/-- The entry holds the data of the job. -/
def Carries (work : IoWork) : IoJob → Prop
  | .request sqid cqid sqEntry commandId ret =>
    work.cqResult = ⟨sqid, cqid, sqEntry, commandId, ret.status, 0, 0⟩ ∧
      work.nsecsTarget = ret.nsecsTarget ∧ work.isInternal = false
  | .internal _ nsecsTarget writeBuffer buffsToRelease =>
    work.nsecsTarget = nsecsTarget ∧ work.writeBuffer = writeBuffer ∧
      work.buffsToRelease = buffsToRelease ∧ work.isInternal = true

section Entries

variable {work work' : IoWork} {job : IoJob}

/-- Filling an entry puts the job in it. -/
theorem Carries.fill (h0 : work.result0 = 0) (h1 : work.result1 = 0) (job : IoJob) :
    Carries (job.fill work) job := by
  cases job with
  | request sqid cqid sqEntry commandId ret =>
    refine ⟨?_, rfl, rfl⟩
    unfold IoWork.cqResult IoJob.fill
    dsimp only
    rw [h0, h1]
  | internal sqid nsecsTarget writeBuffer buffsToRelease => exact ⟨rfl, rfl, rfl, rfl⟩

/-- Links do not matter to what an entry carries. -/
theorem Carries.same (h : Carries work job) (hsame : SameWork work work') : Carries work' job := by
  obtain ⟨_, _, rfl⟩ := hsame
  cases job <;> exact h

/-- Nor do the marks. -/
theorem Carries.visited (h : Carries work job) (currNsecs : Nat) :
    Carries (work.visited currNsecs) job := by
  unfold IoWork.visited
  split
  · exact h
  · cases job <;> exact h

theorem Carries.target (h : Carries work job) : work.nsecsTarget = job.nsecsTarget := by
  cases job with
  | request => exact h.2.1
  | internal => exact h.1

/-- The action that ends a job. -/
def IoAction.Ends : IoAction → Prop
  | .copy _ _ => False
  | .fillCqResult _ | .release _ _ => True

instance : DecidablePred IoAction.Ends
  | .copy _ _ => .isFalse id
  | .fillCqResult _ | .release _ _ => .isTrue trivial

/-- What a visit does to the outside. -/
theorem IoWorker.visit_actions (worker : IoWorker) (curr currNsecs : Nat) :
    (worker.visit curr currNsecs).2.2 =
      if (worker.workQueue curr).isCompleted = true then []
      else copies (worker.workQueue curr) ++
        if (worker.workQueue curr).nsecsTarget ≤ currNsecs then completes (worker.workQueue curr)
        else [] := by
  unfold IoWorker.visit
  dsimp only
  split
  · rfl
  · split
    · rfl
    · exact (List.append_nil _).symm

/-- A visit does what is missing up to the new marks. -/
theorem IoJob.actions_visited {worker : IoWorker} {curr currNsecs : Nat}
    (h : Carries (worker.workQueue curr) job) :
    job.actions (worker.workQueue curr).isCopied (worker.workQueue curr).isCompleted ++
        (worker.visit curr currNsecs).2.2 =
      job.actions ((worker.workQueue curr).visited currNsecs).isCopied
        ((worker.workQueue curr).visited currNsecs).isCompleted := by
  rw [worker.visit_actions]
  unfold IoWork.visited
  cases hcompleted : (worker.workQueue curr).isCompleted with
  | true => rw [if_pos rfl, if_pos rfl, hcompleted, List.append_nil]
  | false =>
    rw [if_neg Bool.false_ne_true, if_neg Bool.false_ne_true]
    unfold IoWorker.copies IoWorker.completes
    cases job with
    | request sqid cqid sqEntry commandId ret =>
      obtain ⟨hresult, _, hinternal⟩ := h
      have hsqid : (worker.workQueue curr).sqid = sqid := congrArg CqResult.sqid hresult
      have hentry : (worker.workQueue curr).sqEntry = sqEntry := congrArg CqResult.sqEntry hresult
      rw [hresult, hsqid, hentry, hinternal]
      by_cases hdue : (worker.workQueue curr).nsecsTarget ≤ currNsecs
      · cases (worker.workQueue curr).isCopied <;> simp [IoJob.actions, hdue]
      · cases (worker.workQueue curr).isCopied <;> simp [IoJob.actions, hdue]
    | internal sqid nsecsTarget writeBuffer buffsToRelease =>
      obtain ⟨_, hbuffer, hbytes, hinternal⟩ := h
      rw [hbuffer, hbytes, hinternal]
      by_cases hdue : (worker.workQueue curr).nsecsTarget ≤ currNsecs
      · simp [IoJob.actions, hdue]
      · simp [IoJob.actions, hdue]

/-- A job is ended when it is due. -/
theorem IoWorker.visit_timely {worker : IoWorker} {curr currNsecs : Nat} {action : IoAction}
    (h : action ∈ (worker.visit curr currNsecs).2.2) (hends : action.Ends) :
    (worker.workQueue curr).nsecsTarget ≤ currNsecs := by
  have hcopies : action ∉ IoWorker.copies (worker.workQueue curr) := by
    intro hmem
    unfold IoWorker.copies at hmem
    split at hmem
    · exact nomatch hmem
    · obtain rfl := List.mem_singleton.mp hmem
      exact hends
  rw [worker.visit_actions] at h
  split at h
  · exact nomatch h
  · rcases List.mem_append.mp h with hmem | hmem
    · exact absurd hmem hcopies
    · split at hmem
      · assumption
      · exact nomatch hmem

end Entries

/-! ## The invariant -/

/-- The free list is made of entries that were never used, and of `gone`, which were taken back. -/
structure Integrity (s : WorkerRun) (unused gone io : List Nat) : Prop where
  queued : Queued s.worker (unused ++ gone) io
  completed : ∀ e ∈ gone, (s.worker.workQueue e).isCompleted = true
  cursor : ∀ c, s.cursor = some c → c ∈ gone ∨ c ∈ io
  results : ∀ e, (s.worker.workQueue e).result0 = 0 ∧ (s.worker.workQueue e).result1 = 0
  distinct : ∀ a ∈ io, ∀ b ∈ io, s.serial a = s.serial b → a = b
  pending : ∀ e ∈ io, ∃ job, s.jobs[s.serial e]? = some job ∧ Carries (s.worker.workQueue e) job ∧
    ((s.worker.workQueue e).isCompleted = true → (s.worker.workQueue e).isCopied = true) ∧
    s.actionsOf (s.serial e) =
      job.actions (s.worker.workQueue e).isCopied (s.worker.workQueue e).isCompleted
  left : ∀ n job, s.jobs[n]? = some job → (∀ e ∈ io, s.serial e ≠ n) →
    s.actionsOf n = job.actions true true
  timely : ∀ d ∈ s.log, ∃ job, s.jobs[d.serial]? = some job ∧
    (d.action.Ends → job.nsecsTarget ≤ d.clock)

section Runs

variable {s s' : WorkerRun} {unused gone io : List Nat}

/-- What entries with other links have in common. -/
theorem SameWork.marks {work work' : IoWork} (h : SameWork work work') :
    work'.isCompleted = work.isCompleted ∧ work'.isCopied = work.isCopied ∧
      work'.result0 = work.result0 ∧ work'.result1 = work.result1 := by
  obtain ⟨_, _, rfl⟩ := h
  exact ⟨rfl, rfl, rfl, rfl⟩

/-- Nothing was done for a job that is still to come. -/
theorem Integrity.actions_fresh (h : Integrity s unused gone io) {n : Nat}
    (hn : s.jobs.length ≤ n) : s.actionsOf n = [] := by
  unfold WorkerRun.actionsOf
  rw [List.map_eq_nil_iff, List.filter_eq_nil_iff]
  intro d hd hserial
  obtain ⟨job, hjob, _⟩ := h.timely d hd
  have hlt := (List.getElem?_eq_some_iff.mp hjob).1
  have heq : d.serial = n := of_decide_eq_true hserial
  omega

theorem Integrity.serial_lt (h : Integrity s unused gone io) {e : Nat} (he : e ∈ io) :
    s.serial e < s.jobs.length := by
  obtain ⟨job, hjob, _⟩ := h.pending e he
  exact (List.getElem?_eq_some_iff.mp hjob).1

/-- What a pending entry stands for after its links have changed. -/
theorem Integrity.pending_same (h : Integrity s unused gone io) {e : Nat} (he : e ∈ io)
    {work' : IoWork} (hsame : SameWork (s.worker.workQueue e) work') :
    ∃ job, s.jobs[s.serial e]? = some job ∧ Carries work' job ∧
      (work'.isCompleted = true → work'.isCopied = true) ∧
      s.actionsOf (s.serial e) = job.actions work'.isCopied work'.isCompleted := by
  obtain ⟨job, hjob, hcarries, hmarks, hactions⟩ := h.pending e he
  obtain ⟨hcompleted, hcopied, _⟩ := hsame.marks
  refine ⟨job, hjob, hcarries.same hsame, ?_, ?_⟩
  · rw [hcompleted, hcopied]
    exact hmarks
  · rw [hcompleted, hcopied]
    exact hactions

/-- The dispatcher takes entries back. -/
theorem Integrity.reclaim (h : Integrity s unused gone io) {worker' : IoWorker}
    (hok : s.worker.reclaimCompletedReqs = .ok worker') :
    ∃ gone' io', Integrity { s with worker := worker' } unused gone' io' := by
  obtain ⟨taken, rest, worker'', rfl, hreclaim, hdone⟩ := h.queued.reclaim
  obtain rfl : worker'' = worker' := Except.ok.inj (hreclaim.symm.trans hok)
  refine ⟨gone ++ taken, rest, ?_⟩
  constructor
  · rw [← List.append_assoc]
    exact hdone.queued
  · intro e he
    show (worker''.workQueue e).isCompleted = true
    rw [(hdone.work e).marks.1]
    rcases List.mem_append.mp he with hold | hnew
    · exact h.completed e hold
    · exact (hdone.gone e hnew).1
  · intro c hc
    rcases h.cursor c hc with hold | hin
    · exact .inl (List.mem_append_left _ hold)
    · rcases List.mem_append.mp hin with hnew | hrest
      · exact .inl (List.mem_append_right _ hnew)
      · exact .inr hrest
  · intro e
    obtain ⟨_, _, h0, h1⟩ := (hdone.work e).marks
    exact ⟨h0.trans (h.results e).1, h1.trans (h.results e).2⟩
  · exact fun a ha b hb => h.distinct a (List.mem_append_right _ ha) b (List.mem_append_right _ hb)
  · exact fun e he => h.pending_same (List.mem_append_right _ he) (hdone.work e)
  · intro n job hjob hnone
    by_cases htaken : ∃ e ∈ taken, s.serial e = n
    · obtain ⟨e, he, rfl⟩ := htaken
      obtain ⟨job', hjob', _, _, hactions⟩ := h.pending e (List.mem_append_left _ he)
      obtain rfl : job = job' := Option.some.inj (hjob.symm.trans hjob')
      obtain ⟨hcompleted, hcopied, _⟩ := hdone.gone e he
      rw [hcompleted, hcopied] at hactions
      exact hactions
    · apply h.left n job hjob
      intro e he heq
      rcases List.mem_append.mp he with hin | hin
      · exact htaken ⟨e, hin, heq⟩
      · exact hnone e hin heq
  · exact h.timely

/-- The worker starts at the front of the pending list. -/
theorem Integrity.startPass (h : Integrity s unused gone io) :
    Integrity { s with cursor := s.worker.ioSeq } unused gone io := by
  refine { h with cursor := fun c hc => .inr ?_ }
  have hforth := h.queued.ioForth
  have hc' : s.worker.ioSeq = some c := hc
  rw [hc'] at hforth
  cases io with
  | nil => exact nomatch hforth
  | cons a io => exact Option.some.inj hforth.1 ▸ List.mem_cons_self

/-- Taking the first free entry: the rest is made of unused entries and of entries taken back. -/
theorem free_split {f : Nat} {rest : List Nat} (h : unused ++ gone = f :: rest) :
    ∃ unused' gone', rest = unused' ++ gone' ∧ (∀ e ∈ gone', e ∈ gone) ∧
      ∀ e ∈ gone, e = f ∨ e ∈ gone' := by
  cases unused with
  | nil =>
    obtain rfl : gone = f :: rest := h
    exact ⟨[], rest, rfl, fun e he => List.mem_cons_of_mem _ he, fun e he => List.mem_cons.mp he⟩
  | cons u unused =>
    obtain ⟨_, rfl⟩ := List.cons.inj h
    exact ⟨unused, gone, rfl, fun e he => he, fun e he => .inr he⟩

theorem mem_inserted {e f : Nat} {before after : List Nat} :
    e ∈ before ++ f :: after ↔ e = f ∨ e ∈ before ++ after := by
  rw [List.mem_append, List.mem_cons, List.mem_append]
  exact or_left_comm

/-- An entry a job was just put into: it carries the job, and nothing was done for it. -/
theorem Integrity.filled (h : Integrity s unused gone io) {job : IoJob} {e : Nat} {work : IoWork}
    (hsame : SameWork (job.fill (s.worker.workQueue e)) work) :
    Carries work job ∧ (work.isCompleted = true → work.isCopied = true) ∧
      s.actionsOf s.jobs.length = job.actions work.isCopied work.isCompleted := by
  obtain ⟨hcompleted, hcopied, _⟩ := hsame.marks
  have hopen : work.isCompleted = false := by
    rw [hcompleted]
    cases job <;> rfl
  refine ⟨(Carries.fill (h.results e).1 (h.results e).2 job).same hsame, ?_, ?_⟩
  · exact fun hclosed => absurd (hopen.symm.trans hclosed) Bool.false_ne_true
  · rw [hcompleted, hcopied, h.actions_fresh (Nat.le_refl _)]
    cases job <;> rfl

/-- The results of an entry stay zero. -/
theorem Integrity.filled_results (h : Integrity s unused gone io) {job : IoJob} {e : Nat}
    {work : IoWork} (hsame : SameWork (job.fill (s.worker.workQueue e)) work) :
    work.result0 = 0 ∧ work.result1 = 0 := by
  obtain ⟨_, _, h0, h1⟩ := hsame.marks
  rw [h0, h1]
  cases job <;> exact h.results e

/-- The dispatcher queues a job. -/
theorem Integrity.enqueue (h : Integrity s unused gone io) {job : IoJob} {worker' : IoWorker}
    (hok : s.worker.enqueue job = .ok (some worker')) :
    ∃ unused' gone' io', Integrity (s.queue worker' job) unused' gone' io' := by
  rcases h.queued.enqueue job with ⟨_, hnone⟩ | ⟨_, worker'', hsome, hdone⟩
  · rw [hnone] at hok
    exact nomatch Except.ok.inj hok
  obtain rfl : worker'' = worker' := Option.some.inj (Except.ok.inj (hsome.symm.trans hok))
  obtain ⟨rest, before, after, hfree, rfl, hqueued⟩ := hdone.queued
  obtain ⟨unused', gone', rfl, hgone', hgone⟩ := free_split hfree
  have hapart := (List.nodup_append.mp h.queued.nodup).2.2
  have hnodup := (List.nodup_append.mp h.queued.nodup).1
  rw [hfree] at hapart hnodup
  have hnew : ∀ e ∈ before ++ after, e ≠ s.worker.freeSeq := fun e he heq =>
    hapart _ List.mem_cons_self e he heq.symm
  have hself : (s.queue worker'' job).serial s.worker.freeSeq = s.jobs.length :=
    Function.update_self ..
  have hold : ∀ e ∈ before ++ after, (s.queue worker'' job).serial e = s.serial e := fun e he =>
    Function.update_of_ne (hnew e he) ..
  refine ⟨unused', gone', before ++ s.worker.freeSeq :: after, ?_⟩
  -- an entry of the new list is the one just filled, or an old one
  constructor
  · exact hqueued
  · intro e he
    have hne : e ≠ s.worker.freeSeq := by
      intro heq
      rw [heq] at he
      exact (List.nodup_cons.mp hnodup).1 (List.mem_append_right _ he)
    show (worker''.workQueue e).isCompleted = true
    rw [(hdone.others e hne).marks.1]
    exact h.completed e (hgone' e he)
  · intro c hc
    rcases h.cursor c hc with hin | hin
    · rcases hgone c hin with heq | hin
      · exact .inr (mem_inserted.mpr (.inl heq))
      · exact .inl hin
    · exact .inr (mem_inserted.mpr (.inr hin))
  · intro e
    show (worker''.workQueue e).result0 = 0 ∧ (worker''.workQueue e).result1 = 0
    by_cases he : e = s.worker.freeSeq
    · rw [he]
      exact h.filled_results hdone.entry
    · obtain ⟨_, _, h0, h1⟩ := (hdone.others e he).marks
      exact ⟨h0.trans (h.results e).1, h1.trans (h.results e).2⟩
  · intro a ha b hb hab
    rcases mem_inserted.mp ha with rfl | ha
    · rcases mem_inserted.mp hb with rfl | hb
      · rfl
      · have hlt := h.serial_lt hb
        rw [hself, hold b hb] at hab
        omega
    · rcases mem_inserted.mp hb with rfl | hb
      · have hlt := h.serial_lt ha
        rw [hself, hold a ha] at hab
        omega
      · rw [hold a ha, hold b hb] at hab
        exact h.distinct a ha b hb hab
  · intro e he
    rcases mem_inserted.mp he with rfl | he
    · rw [hself]
      exact ⟨job, List.getElem?_concat_length, h.filled hdone.entry⟩
    · rw [hold e he]
      obtain ⟨job', hjob', hrest⟩ := h.pending_same he (hdone.others e (hnew e he))
      exact ⟨job', (List.getElem?_append_left (h.serial_lt he)).trans hjob', hrest⟩
  · intro n job' hjob' hnone
    have hn : n < s.jobs.length := by
      have hlt : n < (s.jobs ++ [job]).length := (List.getElem?_eq_some_iff.mp hjob').1
      have hne := hnone _ (mem_inserted.mpr (.inl rfl))
      rw [hself] at hne
      rw [List.length_append, List.length_singleton] at hlt
      omega
    apply h.left n job' ((List.getElem?_append_left hn).symm.trans hjob')
    intro e he heq
    have hne := hnone e (mem_inserted.mpr (.inr he))
    rw [hold e he] at hne
    exact hne heq
  · intro d hd
    obtain ⟨job', hjob', htimely⟩ := h.timely d hd
    exact ⟨job', (List.getElem?_append_left (List.getElem?_eq_some_iff.mp hjob').1).trans hjob',
      htimely⟩

/-- A visit adds to what was done for the job of its entry. -/
theorem WorkerRun.actionsOf_visit {curr currNsecs : Nat} (s : WorkerRun) (n : Nat) :
    (s.visited curr currNsecs).actionsOf n =
      s.actionsOf n ++ if s.serial curr = n then (s.worker.visit curr currNsecs).2.2 else [] := by
  unfold WorkerRun.actionsOf WorkerRun.visited
  dsimp only
  rw [List.filter_append, List.map_append]
  congr 1
  by_cases hn : s.serial curr = n
  · simp [hn, List.filter_map, Function.comp_def]
  · simp [hn, List.filter_map, Function.comp_def]

theorem IoWork.visited_completed {work : IoWork} (h : work.isCompleted = true) (currNsecs : Nat) :
    work.visited currNsecs = work := if_pos h

/-- A visited entry has been copied. -/
theorem IoWork.visited_marks (work : IoWork) (currNsecs : Nat)
    (hmarks : work.isCompleted = true → work.isCopied = true) :
    (work.visited currNsecs).isCopied = true := by
  unfold IoWork.visited
  split
  · rename_i hcompleted
    exact hmarks hcompleted
  · rfl

theorem IoWork.visited_results (work : IoWork) (currNsecs : Nat) :
    (work.visited currNsecs).result0 = work.result0 ∧
      (work.visited currNsecs).result1 = work.result1 := by
  unfold IoWork.visited
  split
  · exact ⟨rfl, rfl⟩
  · exact ⟨rfl, rfl⟩

/-- The cursor stays among the entries taken back, or in the pending list. -/
theorem Integrity.next_mem (h : Integrity s unused gone io) {curr c : Nat}
    (hcurr : curr ∈ gone ∨ curr ∈ io) (hc : s.worker.next curr = some c) : c ∈ gone ∨ c ∈ io := by
  rcases hcurr with hin | hin
  · obtain ⟨_, _, hgone⟩ := h.queued.freeForth.of_append
    rcases hgone.next_mem hin with hend | ⟨b, hb, hnext⟩
    · rw [hend] at hc
      exact nomatch hc
    · obtain rfl : b = c := Option.some.inj (hnext.symm.trans hc)
      exact .inl hb
  · rcases h.queued.ioForth.next_mem hin with hend | ⟨b, hb, hnext⟩
    · rw [hend] at hc
      exact nomatch hc
    · obtain rfl : b = c := Option.some.inj (hnext.symm.trans hc)
      exact .inr hb

/-- At an entry that was taken back the worker passes on. -/
theorem Integrity.visit_gone (h : Integrity s unused gone io) {curr currNsecs : Nat}
    (hin : curr ∈ gone) (hclock : s.worker.latestNsecs ≤ currNsecs) :
    Integrity (s.visited curr currNsecs) unused gone io := by
  have hcompleted := h.completed curr hin
  have hworker : (s.worker.visit curr currNsecs).1 = { s.worker with latestNsecs := currNsecs } := by
    rw [s.worker.visit_worker, IoWork.visited_completed hcompleted, Function.update_eq_self]
  have hquiet : (s.worker.visit curr currNsecs).2.2 = [] := by
    rw [s.worker.visit_actions]
    exact if_pos hcompleted
  have hlog : (s.visited curr currNsecs).log = s.log := by
    show s.log ++ _ = s.log
    rw [hquiet]
    exact List.append_nil _
  have hwork : (s.visited curr currNsecs).worker.workQueue = s.worker.workQueue := by
    show (s.worker.visit curr currNsecs).1.workQueue = _
    rw [hworker]
  have hactions : (s.visited curr currNsecs).actionsOf = s.actionsOf := by
    unfold WorkerRun.actionsOf
    rw [hlog]
  constructor
  · exact h.queued.visit hclock
  · rw [hwork]
    exact h.completed
  · intro c hc
    exact h.next_mem (.inl hin) (s.worker.visit_cursor curr currNsecs ▸ hc)
  · rw [hwork]
    exact h.results
  · exact h.distinct
  · rw [hwork, hactions]
    exact h.pending
  · rw [hactions]
    exact h.left
  · rw [hlog]
    exact h.timely

/-- At a pending entry the worker does what is due. -/
theorem Integrity.visit_pending (h : Integrity s unused gone io) {curr currNsecs : Nat}
    (hin : curr ∈ io) (hclock : s.worker.latestNsecs ≤ currNsecs) :
    Integrity (s.visited curr currNsecs) unused gone io := by
  have hother : ∀ e, e ≠ curr →
      (s.visited curr currNsecs).worker.workQueue e = s.worker.workQueue e := by
    intro e he
    show (s.worker.visit curr currNsecs).1.workQueue e = _
    rw [s.worker.visit_worker]
    exact Function.update_of_ne he ..
  have hself : (s.visited curr currNsecs).worker.workQueue curr =
      (s.worker.workQueue curr).visited currNsecs := by
    show (s.worker.visit curr currNsecs).1.workQueue curr = _
    rw [s.worker.visit_worker]
    exact Function.update_self ..
  obtain ⟨job, hjob, hcarries, hmarks, hactions⟩ := h.pending curr hin
  constructor
  · exact h.queued.visit hclock
  · intro e he
    by_cases hcurr : e = curr
    · rw [hcurr, hself, IoWork.visited_completed (h.completed curr (hcurr ▸ he))]
      exact h.completed curr (hcurr ▸ he)
    · rw [hother e hcurr]
      exact h.completed e he
  · intro c hc
    exact h.next_mem (.inr hin) (s.worker.visit_cursor curr currNsecs ▸ hc)
  · intro e
    by_cases hcurr : e = curr
    · obtain ⟨h0, h1⟩ := (s.worker.workQueue curr).visited_results currNsecs
      rw [hcurr, hself, h0, h1]
      exact h.results curr
    · rw [hother e hcurr]
      exact h.results e
  · exact h.distinct
  · intro e he
    by_cases hcurr : e = curr
    · rw [hcurr, hself]
      refine ⟨job, hjob, hcarries.visited currNsecs, ?_, ?_⟩
      · exact fun _ => IoWork.visited_marks _ currNsecs hmarks
      · refine (s.actionsOf_visit (s.serial curr)).trans ?_
        rw [if_pos rfl, hactions]
        exact IoJob.actions_visited hcarries
    · have hserial : s.serial curr ≠ s.serial e := fun heq =>
        hcurr (h.distinct curr hin e he heq).symm
      have hsame : (s.visited curr currNsecs).actionsOf (s.serial e) = s.actionsOf (s.serial e) := by
        refine (s.actionsOf_visit (s.serial e)).trans ?_
        rw [if_neg hserial, List.append_nil]
      rw [hother e hcurr]
      show ∃ job, s.jobs[s.serial e]? = some job ∧ _ ∧ _ ∧
        (s.visited curr currNsecs).actionsOf (s.serial e) = _
      rw [hsame]
      exact h.pending e he
  · intro n job' hjob' hnone
    have hserial : s.serial curr ≠ n := hnone curr hin
    refine (s.actionsOf_visit n).trans ?_
    rw [if_neg hserial, List.append_nil]
    exact h.left n job' hjob' hnone
  · intro d hd
    rcases List.mem_append.mp hd with hold | hnew
    · exact h.timely d hold
    · obtain ⟨action, haction, rfl⟩ := List.mem_map.mp hnew
      refine ⟨job, hjob, fun hends => ?_⟩
      rw [← hcarries.target]
      exact IoWorker.visit_timely haction hends

/-- The worker visits the entry of its cursor, wherever that is by now. -/
theorem Integrity.visit (h : Integrity s unused gone io) {curr currNsecs : Nat}
    (hcursor : s.cursor = some curr) (hclock : s.worker.latestNsecs ≤ currNsecs) :
    Integrity (s.visited curr currNsecs) unused gone io := by
  rcases h.cursor curr hcursor with hin | hin
  · exact h.visit_gone hin hclock
  · exact h.visit_pending hin hclock

/-- In every interleaving of the dispatcher and its worker the entries are shared out among the
three lists, whatever jobs come and whatever the clock reads. -/
theorem workerRuns_integrity :
    workerRuns.Invariant fun s => ∃ unused gone io, Integrity s unused gone io where
  init s hs := by
    obtain ⟨hworker, hcursor, hjobs, hlog⟩ := hs
    refine ⟨List.range nrMaxParallelIo, [], [], ?_⟩
    constructor
    · rw [hworker, List.append_nil]
      exact queued_init
    · exact nofun
    · rw [hcursor]
      exact nofun
    · rw [hworker]
      exact fun _ => ⟨rfl, rfl⟩
    · exact nofun
    · exact nofun
    · rw [hjobs]
      exact nofun
    · rw [hlog]
      exact nofun
  step s l s' hs hstep := by
    obtain ⟨unused, gone, io, h⟩ := hs
    cases hstep with
    | queued hok => exact h.enqueue hok
    | refused _ => exact ⟨unused, gone, io, h⟩
    | reclaim hok =>
      obtain ⟨gone', io', h'⟩ := h.reclaim hok
      exact ⟨unused, gone', io', h'⟩
    | startPass _ => exact ⟨unused, gone, io, h.startPass⟩
    | visit hcursor hclock => exact ⟨unused, gone, io, h.visit hcursor hclock⟩

/-! ## What a reachable queue is like -/

/-- The links of the queue spell a free list and a pending list, which share out the entries. -/
structure ShareOut (worker : IoWorker) (free io : List Nat) : Prop where
  freeForth : Spells worker.next (some worker.freeSeq) free none
  ioForth : Spells worker.next worker.ioSeq io none
  ioBack : io ≠ [] → Spells worker.prev worker.ioSeqEnd io.reverse none
  free_nodup : free.Nodup
  io_nodup : io.Nodup
  disjoint : ∀ e ∈ free, e ∉ io
  all : ∀ e, e < nrMaxParallelIo ↔ e ∈ free ∨ e ∈ io

/-- The two lists share out the entries. -/
theorem Queued.shareOut {worker : IoWorker} {free io : List Nat} (h : Queued worker free io) :
    ShareOut worker free io := by
  obtain ⟨hfree, hio, hapart⟩ := List.nodup_append.mp h.nodup
  refine ⟨h.freeForth, h.ioForth, h.ioBack, hfree, hio, fun e he he' => hapart e he e he' rfl, ?_⟩
  intro e
  rw [← List.mem_append, h.perm.mem_iff, List.mem_range]

/-- Due entries come first, then entries in the order of their target times. -/
theorem IoWorker.due_then_sorted {worker : IoWorker} (h : io.Pairwise worker.Before) :
    ∃ due later, io = due ++ later ∧ (∀ e ∈ due, worker.target e ≤ worker.latestNsecs) ∧
      later.Pairwise fun a b => worker.target a ≤ worker.target b := by
  induction io with
  | nil => exact ⟨[], [], rfl, nofun, .nil⟩
  | cons a io ih =>
    obtain ⟨hfirst, hrest⟩ := List.pairwise_cons.mp h
    by_cases hdue : worker.target a ≤ worker.latestNsecs
    · obtain ⟨due, later, rfl, hdues, hlater⟩ := ih hrest
      refine ⟨a :: due, later, rfl, ?_, hlater⟩
      intro e he
      rcases List.mem_cons.mp he with rfl | hmem
      · exact hdue
      · exact hdues e hmem
    · -- from the first that is not due on, none is
      have hlate : ∀ e ∈ io, worker.target a ≤ worker.target e := by
        intro e he
        rcases hfirst e he with hle | hle
        · exact absurd hle hdue
        · exact hle
      refine ⟨[], a :: io, rfl, nofun, List.pairwise_cons.mpr ⟨hlate, ?_⟩⟩
      apply hrest.imp_of_mem
      intro b c hb _ hbc
      have hb' := hlate b hb
      unfold IoWorker.Before at hbc
      omega

/-- What was done for a job that was queued: a copy and then a completion, both once it is no longer
pending. -/
theorem Integrity.actions (hs : Integrity s unused gone io) {n : Nat} {job : IoJob}
    (hjob : s.jobs[n]? = some job) : ∃ copied completed,
      s.actionsOf n = job.actions copied completed ∧ (completed = true → copied = true) ∧
        ((∀ e ∈ io, s.serial e ≠ n) → copied = true ∧ completed = true) := by
  by_cases hpending : ∃ e ∈ io, s.serial e = n
  · obtain ⟨e, he, rfl⟩ := hpending
    obtain ⟨job', hjob', _, hmarks, hactions⟩ := hs.pending e he
    obtain rfl : job = job' := Option.some.inj (hjob.symm.trans hjob')
    exact ⟨_, _, hactions, hmarks, fun hnone => absurd rfl (hnone e he)⟩
  · exact ⟨true, true, hs.left n job hjob fun e he heq => hpending ⟨e, he, heq⟩, fun _ => rfl,
      fun _ => ⟨rfl, rfl⟩⟩

/-- For every interleaving: the two lists share out the entries; the pending one has due entries
first and the others in order; the worker does something only at a pending entry; for each job that
was queued it copies and then completes, each at most once and completion not before the target
time, and both are done once the job is no longer pending. Neither of the dispatcher's loops is
endless.

A step is an enqueue, a reclaim, or one visit of the worker to the entry under its cursor, which
reads the entry, acts and moves on; the cursor may be stale, when the dispatcher has reclaimed and
filled the entry again. The two sides are not cut within these steps. -/
theorem worker_queue_integrity (h : workerRuns.Reachable s) : ∃ free io,
    ShareOut s.worker free io ∧
    (∃ due later, io = due ++ later ∧ (∀ e ∈ due, s.worker.target e ≤ s.worker.latestNsecs) ∧
      later.Pairwise fun a b => s.worker.target a ≤ s.worker.target b) ∧
    (∀ c currNsecs, s.cursor = some c → (s.worker.visit c currNsecs).2.2 ≠ [] → c ∈ io) ∧
    (∀ n job, s.jobs[n]? = some job → ∃ copied completed,
      s.actionsOf n = job.actions copied completed ∧ (completed = true → copied = true) ∧
        ((∀ e ∈ io, s.serial e ≠ n) → copied = true ∧ completed = true)) ∧
    (∀ d ∈ s.log, d.action.Ends →
      ∃ job, s.jobs[d.serial]? = some job ∧ job.nsecsTarget ≤ d.clock) ∧
    (∀ job, ∃ worker', s.worker.enqueue job = .ok worker') ∧
    ∃ worker', s.worker.reclaimCompletedReqs = .ok worker' := by
  obtain ⟨unused, gone, io, hs⟩ := workerRuns_integrity.reachable h
  refine ⟨unused ++ gone, io, hs.queued.shareOut, IoWorker.due_then_sorted hs.queued.sorted, ?_, ?_,
    ?_, ?_, ?_⟩
  · intro c currNsecs hc hacts
    rcases hs.cursor c hc with hin | hin
    · rw [s.worker.visit_actions, if_pos (hs.completed c hin)] at hacts
      exact absurd rfl hacts
    · exact hin
  · exact fun n job => hs.actions
  · intro d hd hends
    obtain ⟨job, hjob, htimely⟩ := hs.timely d hd
    exact ⟨job, hjob, htimely hends⟩
  · intro job
    rcases hs.queued.enqueue job with ⟨_, hnone⟩ | ⟨_, worker', hsome, _⟩
    · exact ⟨none, hnone⟩
    · exact ⟨some worker', hsome⟩
  · obtain ⟨_, _, worker', _, hreclaim, _⟩ := hs.queued.reclaim
    exact ⟨worker', hreclaim⟩

/-- The step with a label, if the worker can take it. -/
def WorkerRun.next (s : WorkerRun) : WorkerEvent → Option WorkerRun
  | .enqueue job =>
    match s.worker.enqueue job with
    | .ok (some worker') => some (s.queue worker' job)
    | .ok none => some s
    | .error _ => none
  | .reclaim =>
    match s.worker.reclaimCompletedReqs with
    | .ok worker' => some { s with worker := worker' }
    | .error _ => none
  | .startPass => if s.cursor = none then some { s with cursor := s.worker.ioSeq } else none
  | .visit currNsecs =>
    match s.cursor with
    | some curr =>
      if s.worker.latestNsecs ≤ currNsecs then some (s.visited curr currNsecs) else none
    | none => none

/-- What is computed is a step. -/
theorem WorkerRun.next_step {s s' : WorkerRun} {e : WorkerEvent} (h : s.next e = some s') :
    WorkerStep s e s' := by
  unfold WorkerRun.next at h
  cases e with
  | enqueue job =>
    dsimp only at h
    split at h
    · rename_i worker' hok
      exact Option.some.inj h ▸ .queued hok
    · rename_i hnone
      exact Option.some.inj h ▸ .refused hnone
    · cases h
  | reclaim =>
    dsimp only at h
    split at h
    · rename_i worker' hok
      exact Option.some.inj h ▸ .reclaim hok
    · cases h
  | startPass =>
    obtain ⟨hnone, heq⟩ := Option.ite_none_right_eq_some.mp h
    exact Option.some.inj heq ▸ .startPass hnone
  | visit currNsecs =>
    dsimp only at h
    split at h
    · rename_i curr hcursor
      obtain ⟨hclock, heq⟩ := Option.ite_none_right_eq_some.mp h
      exact Option.some.inj heq ▸ .visit hcursor hclock
    · cases h

/-- The read of one block at the head of queue 1. -/
def firstRequest : IoJob := .request 1 1 0 7 { status := 0, nsecsTarget := 100 }

/-- A worker with nothing queued. -/
def idleWorkerRun : WorkerRun where
  worker := nvmevIoWorkerInit
  cursor := none
  jobs := []
  serial := fun _ => 0
  log := []

/-- A request and a release that is due before it; a pass ends the release and copies for the request.
The release is taken back and a third job queued; the next pass ends the request, which is taken back. -/
def threeJobs : List WorkerEvent :=
  [.enqueue firstRequest, .enqueue (.internal 1 50 0 4096), .startPass, .visit 60, .visit 60,
    .reclaim, .enqueue (.request 1 1 1 8 { status := 0, nsecsTarget := 200 }), .startPass,
    .visit 100, .visit 110, .reclaim]

/-- Three jobs: two are ended, and the third has been copied and waits for its time. -/
theorem worker_queue_integrity_three : ∃ s free io, workerRuns.Reachable s ∧
    ShareOut s.worker free io ∧ s.actionsOf 0 = firstRequest.actions true true ∧
      s.actionsOf 2 = [.copy 1 1] ∧ ∃ e ∈ io, s.serial e = 2 := by
  have hrun : (System.follow WorkerRun.next idleWorkerRun threeJobs).any (fun s : WorkerRun =>
      decide (2 < s.jobs.length) && (s.actionsOf 0 == firstRequest.actions true true &&
        s.actionsOf 2 == [.copy 1 1])) = true := by
    decide +kernel
  obtain ⟨s, hfollow, htest⟩ := (Option.any_eq_true _ _).mp hrun
  obtain ⟨hlt, htest⟩ := Bool.and_eq_true_iff.mp htest
  obtain ⟨hfirst, hthird⟩ := Bool.and_eq_true_iff.mp htest
  have hthird : s.actionsOf 2 = [.copy 1 1] := eq_of_beq hthird
  have hreach : workerRuns.Reachable s :=
    System.Reachable.follow (fun _ _ _ _ => WorkerRun.next_step) threeJobs
      (.init ⟨rfl, rfl, rfl, rfl⟩) hfollow
  obtain ⟨free, io, hshare, _, _, hactions, _⟩ := worker_queue_integrity hreach
  obtain ⟨job, hjob⟩ : ∃ job, s.jobs[2]? = some job :=
    ⟨_, List.getElem?_eq_getElem (of_decide_eq_true hlt)⟩
  obtain ⟨copied, completed, heq, _, hleft⟩ := hactions 2 job hjob
  refine ⟨s, free, io, hreach, hshare, eq_of_beq hfirst, hthird, ?_⟩
  by_contra hgone
  -- a job that is not pending has been ended, and this one was only copied
  obtain ⟨rfl, rfl⟩ := hleft fun e he hserial => hgone ⟨e, he, hserial⟩
  rw [hthird] at heq
  cases job <;> simp [IoJob.actions] at heq

/-! ## The entry a worker is at -/

/-- The job `n` has not been ended. -/
def WorkerRun.Unfinished (run : WorkerRun) (n : Nat) : Prop :=
  ∀ d ∈ run.log, d.serial = n → ¬ d.action.Ends

instance (run : WorkerRun) (n : Nat) : Decidable (run.Unfinished n) :=
  inferInstanceAs (Decidable (∀ d ∈ run.log, d.serial = n → ¬ d.action.Ends))

/-- A command that is not completed has not been ended. -/
theorem IoJob.not_ends_of_actions {job : IoJob} {copied : Bool} {action : IoAction}
    (h : action ∈ job.actions copied false) : ¬ action.Ends := by
  cases job with
  | request sqid cqid sqEntry commandId ret =>
    cases copied with
    | false => exact absurd h List.not_mem_nil
    | true =>
      obtain rfl := List.mem_singleton.mp h
      exact id
  | internal sqid nsecsTarget writeBuffer buffsToRelease => exact absurd h List.not_mem_nil

/-- At an entry that is not completed there is a job, and it has not been ended. -/
theorem WorkerRun.unfinished_at {run : WorkerRun} (h : workerRuns.Reachable run) {curr : Nat}
    (hcursor : run.cursor = some curr) (hopen : (run.worker.workQueue curr).isCompleted = false) :
    ∃ job, run.jobs[run.serial curr]? = some job ∧ Carries (run.worker.workQueue curr) job ∧
      run.actionsOf (run.serial curr) = job.actions (run.worker.workQueue curr).isCopied false ∧
      run.Unfinished (run.serial curr) := by
  obtain ⟨unused, gone, io, hrun⟩ := workerRuns_integrity.reachable h
  rcases hrun.cursor curr hcursor with hin | hin
  · rw [hrun.completed curr hin] at hopen
    cases hopen
  · obtain ⟨job, hjob, hcarries, _, hactions⟩ := hrun.pending curr hin
    rw [hopen] at hactions
    refine ⟨job, hjob, hcarries, hactions, fun d hd hserial => ?_⟩
    apply @IoJob.not_ends_of_actions job (run.worker.workQueue curr).isCopied
    rw [← hactions]
    unfold WorkerRun.actionsOf
    exact List.mem_map.mpr ⟨d, List.mem_filter.mpr ⟨hd, decide_eq_true hserial⟩, rfl⟩

end Runs

end NvmeVirt

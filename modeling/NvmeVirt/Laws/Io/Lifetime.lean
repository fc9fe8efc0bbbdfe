import NvmeVirt.Laws.Io.Handover

/-!
# The queues of a command

A command waits in a worker until its target time. An admin command takes a queue away, or puts
another one in its slot, at once; the worker looks at the slots without a check. `Lifetime` says
that it finds the queues the command was taken for. It does while the host leaves the queues of
unfinished commands alone and no command is given to a worker without its completion queue.

Queues are told apart by counting how often each slot was filled: the run keeps for each job the
counts at the time it was queued (`queuedFor`), and `UnfinishedLive` says that for every job not
ended they are still the counts of now, and the slots are filled. Every step keeps that
(`UnfinishedLive.step`) but an admin command that takes or replaces the queue of an unfinished one,
which `QueuesKept` rules out.

Internal operations have no queue, and nothing is claimed of them. The code does not check any of this.
-/

set_option autoImplicit false

namespace NvmeVirt

/-- The submission and the completion queue of a command. -/
def IoJob.queues : IoJob → Option (Nat × Nat)
  | .request sqid cqid _ _ _ => some (sqid, cqid)
  | .internal _ _ _ _ => none

/-- The queues are there, and are those of the incarnations. -/
structure QueuesLive {σ : Type} (s : DeviceRun σ) (queues gens : Nat × Nat) : Prop where
  sqes : ∃ sq, s.ctrl.sqes queues.1 = some sq
  cqes : ∃ cq, s.ctrl.cqes queues.2 = some cq
  gens : gens = (s.sqGen queues.1, s.cqGen queues.2)

/-- The entry holds a command for the queues, and they are those it was taken for. -/
def LiveAt {σ : Type} (s : DeviceRun σ) (w curr : Nat) (queues : Nat × Nat) : Prop :=
  ∃ job, (s.workers w).jobs[(s.workers w).serial curr]? = some job ∧ job.queues = some queues ∧
    QueuesLive s queues (s.queuedFor w ((s.workers w).serial curr))

/-- An action of a worker at an entry touches no queue, or those its command was taken for. -/
def ActsOnLive {σ : Type} (s : DeviceRun σ) (w curr : Nat) : IoAction → Prop
  | .copy sqid _ => ∃ cqid, LiveAt s w curr (sqid, cqid)
  | .fillCqResult r => LiveAt s w curr (r.sqid, r.cqid)
  | .release _ _ => True

/-- What a worker does at its entry is on the queues its command was taken for, and meets no slot without
a queue. -/
structure Lifetime {σ : Type} (fns : NvmevNs σ) (s : DeviceRun σ) : Prop where
  live : ∀ w curr currNsecs, (s.workers w).cursor = some curr →
    ∀ action ∈ s.actions w curr currNsecs, ActsOnLive s w curr action
  done : ∀ w curr currNsecs bytes, (s.workers w).cursor = some curr →
    ∃ o, performAll fns s.sq bytes (s.actions w curr currNsecs) s.outside = .ok o

/-- The queues of all unfinished commands are those they were taken for. -/
def UnfinishedLive {σ : Type} (s : DeviceRun σ) : Prop :=
  ∀ w n job queues, (s.workers w).jobs[n]? = some job → job.queues = some queues →
    (s.workers w).Unfinished n → QueuesLive s queues (s.queuedFor w n)

/-- The command takes the submission queue away, or puts another one in its slot. -/
def AdminCommand.ReplacesSq (cmd : AdminCommand) (qid : Nat) : Prop :=
  (cmd.opcode = .createSq ∨ cmd.opcode = .deleteSq) ∧ cmd.qid = qid

/-- The command takes the completion queue away, or puts another one in its slot. -/
def AdminCommand.ReplacesCq (cmd : AdminCommand) (qid : Nat) : Prop :=
  (cmd.opcode = .createCq ∨ cmd.opcode = .deleteCq) ∧ cmd.qid = qid

/-- No queue of an unfinished command is taken away or replaced, and the completion queue of a command
is there when it is given to a worker. -/
def QueuesKept {σ : Type} (s : DeviceRun σ) : DeviceEvent → Prop
  | .adminReq _ cmd => ∀ w n job queues, (s.workers w).jobs[n]? = some job →
      job.queues = some queues → (s.workers w).Unfinished n →
        ¬ cmd.ReplacesSq queues.1 ∧ ¬ cmd.ReplacesCq queues.2
  | .handOver => ∀ poll ans job todo queues, s.dispatcher = .handing poll ans (job :: todo) →
      job.queues = some queues → ∃ cq, s.ctrl.cqes queues.2 = some cq
  | _ => True

/-! ## Steps that keep the queues -/

/-- All queues that were there still are. -/
structure KeepsQueues (ctrl ctrl' : Controller) : Prop where
  sqes : ∀ qid, (∃ sq, ctrl.sqes qid = some sq) → ∃ sq, ctrl'.sqes qid = some sq
  cqes : ∀ qid, (∃ cq, ctrl.cqes qid = some cq) → ∃ cq, ctrl'.cqes qid = some cq

section Keeps

variable {ctrl ctrl' ctrl'' : Controller}

theorem KeepsQueues.refl (ctrl : Controller) : KeepsQueues ctrl ctrl := ⟨fun _ h => h, fun _ h => h⟩

theorem KeepsQueues.trans (h : KeepsQueues ctrl ctrl') (h' : KeepsQueues ctrl' ctrl'') :
    KeepsQueues ctrl ctrl'' :=
  ⟨fun qid hq => h'.sqes qid (h.sqes qid hq), fun qid hq => h'.cqes qid (h.cqes qid hq)⟩

theorem exists_update {α : Type} {slots : Nat → Option α} (qid : Nat) (a : α) {q : Nat}
    (h : ∃ b, slots q = some b) : ∃ b, Function.update slots qid (some a) q = some b := by
  by_cases hq : q = qid
  · exact ⟨a, by rw [hq, Function.update_self]⟩
  · rw [Function.update_of_ne hq]
    exact h

/-- A submission queue is put where one was. -/
theorem KeepsQueues.setSq (qid : Nat) (sq : SubmissionQueue)
    (hsqes : ctrl'.sqes = Function.update ctrl.sqes qid (some sq)) (hcqes : ctrl'.cqes = ctrl.cqes) :
    KeepsQueues ctrl ctrl' := by
  refine ⟨fun q hq => ?_, fun q hq => ?_⟩
  · rw [hsqes]
    exact exists_update qid sq hq
  · rw [hcqes]
    exact hq

/-- An action takes no queue away. -/
theorem IoAction.perform_keeps {σ : Type} {fns : NvmevNs σ} {sq : Nat → Nat → SqEntry}
    {bytes : Nat → Nat} {action : IoAction} {o o' : Outside σ}
    (h : action.perform fns sq bytes o = .ok o') : KeepsQueues o.ctrl o'.ctrl := by
  unfold IoAction.perform at h
  cases action with
  | copy sqid sqEntry =>
    dsimp only at h
    split at h
    · cases h
    · rw [← Except.ok.inj h]
      exact .refl _
  | fillCqResult r =>
    dsimp only at h
    split at h
    · cases h
    · rw [← Except.ok.inj h]
      exact ⟨fun _ hq => hq, fun _ hq => exists_update r.cqid _ hq⟩
  | release writeBuffer buffsToRelease =>
    rw [← Except.ok.inj h]
    exact .refl _

/-- Nor do the actions of a visit. -/
theorem performAll_keeps {σ : Type} {fns : NvmevNs σ} {sq : Nat → Nat → SqEntry}
    {bytes : Nat → Nat} {actions : List IoAction} {o o' : Outside σ}
    (h : performAll fns sq bytes actions o = .ok o') : KeepsQueues o.ctrl o'.ctrl := by
  induction actions generalizing o with
  | nil =>
    obtain rfl := Except.ok.inj h
    exact .refl _
  | cons action rest ih =>
    obtain ⟨mid, hfirst, hrest⟩ := of_bind_ok h
    exact (IoAction.perform_keeps hfirst).trans (ih hrest)

/-- The slot an action looks at holds a queue. -/
def IoAction.Finds (ctrl : Controller) : IoAction → Prop
  | .copy sqid _ => ∃ sq, ctrl.sqes sqid = some sq
  | .fillCqResult r => ∃ cq, ctrl.cqes r.cqid = some cq
  | .release _ _ => True

/-- What an action needs is still there. -/
theorem IoAction.Finds.keeps {action : IoAction} (h : action.Finds ctrl)
    (hkeeps : KeepsQueues ctrl ctrl') : action.Finds ctrl' := by
  cases action with
  | copy sqid sqEntry => exact hkeeps.sqes sqid h
  | fillCqResult r => exact hkeeps.cqes r.cqid h
  | release writeBuffer buffsToRelease => trivial

/-- With its queue there an action does not fail. -/
theorem IoAction.Finds.perform {σ : Type} {fns : NvmevNs σ} {sq : Nat → Nat → SqEntry}
    {bytes : Nat → Nat} {action : IoAction} {o : Outside σ} (h : action.Finds o.ctrl) :
    ∃ o', action.perform fns sq bytes o = .ok o' := by
  unfold IoAction.perform
  cases action with
  | copy sqid sqEntry =>
    obtain ⟨sq, hsq⟩ := h
    dsimp only
    rw [hsq]
    exact ⟨_, rfl⟩
  | fillCqResult r =>
    obtain ⟨cq, hcq⟩ := h
    dsimp only
    rw [hcq]
    exact ⟨_, rfl⟩
  | release writeBuffer buffsToRelease => exact ⟨_, rfl⟩

/-- Neither do the actions of a visit. -/
theorem performAll_ok {σ : Type} {fns : NvmevNs σ} {sq : Nat → Nat → SqEntry}
    {bytes : Nat → Nat} {actions : List IoAction} {o : Outside σ}
    (h : ∀ action ∈ actions, action.Finds o.ctrl) :
    ∃ o', performAll fns sq bytes actions o = .ok o' := by
  induction actions generalizing o with
  | nil => exact ⟨o, rfl⟩
  | cons action rest ih =>
    obtain ⟨mid, hfirst⟩ :=
      @IoAction.Finds.perform _ fns sq bytes action o (h action List.mem_cons_self)
    have hkeeps := IoAction.perform_keeps hfirst
    obtain ⟨o', hrest⟩ := ih fun a ha => (h a (List.mem_cons_of_mem _ ha)).keeps hkeeps
    refine ⟨o', ?_⟩
    unfold performAll
    rw [hfirst]
    exact hrest

end Keeps

/-! ## Runs -/

section Runs

variable {σ : Type} {fns : NvmevNs σ} {fresh : σ → Prop} {s s' : DeviceRun σ} {l : DeviceEvent}

/-- The queues of a job live on where no slot is filled anew. -/
theorem QueuesLive.keeps {queues gens : Nat × Nat} (h : QueuesLive s queues gens)
    (hkeeps : KeepsQueues s.ctrl s'.ctrl) (hsq : s'.sqGen = s.sqGen) (hcq : s'.cqGen = s.cqGen) :
    QueuesLive s' queues gens := by
  refine ⟨hkeeps.sqes _ h.sqes, hkeeps.cqes _ h.cqes, ?_⟩
  rw [hsq, hcq]
  exact h.gens

/-- A step that gives no worker a job and keeps the queues. -/
theorem UnfinishedLive.keeps (h : UnfinishedLive s) (hkeeps : KeepsQueues s.ctrl s'.ctrl)
    (hgens : s'.sqGen = s.sqGen ∧ s'.cqGen = s.cqGen ∧ s'.queuedFor = s.queuedFor)
    (hjobs : ∀ w, (s'.workers w).jobs = (s.workers w).jobs)
    (hlogs : ∀ w n, (s'.workers w).Unfinished n → (s.workers w).Unfinished n) :
    UnfinishedLive s' := by
  intro w n job queues hjob hqueues hopen
  rw [hjobs w] at hjob
  rw [hgens.2.2]
  exact (h w n job queues hjob hqueues (hlogs w n hopen)).keeps hkeeps hgens.1 hgens.2.1

/-- The submission queue the dispatcher is at is there, and the jobs it has to give are for it. -/
def AtQueue (s : DeviceRun σ) : Prop :=
  ∀ poll ans todo, s.dispatcher = .handing poll ans todo →
    (∃ sq, s.ctrl.sqes poll.sqid = some sq) ∧ ∀ job ∈ todo, job.sqid = poll.sqid

/-- The jobs of an answer are for the queue it came from. -/
theorem ProcAnswer.sqid_of_mem_jobs {ans : ProcAnswer} {sqid cqid sqEntry : Nat} {job : IoJob}
    (h : job ∈ ans.jobs sqid cqid sqEntry) : job.sqid = sqid := by
  unfold ProcAnswer.jobs at h
  rcases List.mem_append.mp h with hin | hin
  · obtain ⟨op, _, rfl⟩ := List.mem_map.mp hin
    rfl
  · split at hin
    · obtain rfl := List.mem_singleton.mp hin
      rfl
    · exact absurd hin List.not_mem_nil

theorem IoJob.sqid_of_queues {job : IoJob} {queues : Nat × Nat} (h : job.queues = some queues) :
    job.sqid = queues.1 := by
  cases job with
  | request sqid cqid sqEntry commandId ret =>
    obtain rfl := Option.some.inj h
    rfl
  | internal sqid nsecsTarget writeBuffer buffsToRelease => cases h

/-- The dispatcher stays at a queue there is. -/
theorem AtQueue.step (h : AtQueue s) (hstep : DeviceStep fns s l s') : AtQueue s' := by
  cases hstep with
  | adminReq hidle _ =>
    intro poll ans todo hat
    cases hidle.symm.trans hat
  | pollSq _ _ _ _ _ =>
    intro poll ans todo hat
    cases hat
  | @attempt poll sq env env' out _ _ hsq _ =>
    intro poll' ans todo hat
    obtain ⟨rfl, _, rfl⟩ := Dispatcher.handing.inj hat
    exact ⟨⟨sq, hsq⟩, fun job hjob => ProcAnswer.sqid_of_mem_jobs hjob⟩
  | gave hat _ | lost hat _ =>
    intro poll' ans' todo' hat'
    obtain ⟨rfl, _, rfl⟩ := Dispatcher.handing.inj hat'
    obtain ⟨hsq, hjobs⟩ := h _ _ _ hat
    exact ⟨hsq, fun job hjob => hjobs job (List.mem_cons_of_mem _ hjob)⟩
  | passed _ _ _ _ =>
    intro poll ans todo hat
    cases hat
  | refused _ _ _ | finish _ _ _ =>
    intro poll ans todo hat
    cases hat
  | visit _ _ _ hok =>
    intro poll ans todo hat
    obtain ⟨hsq, hjobs⟩ := h poll ans todo hat
    exact ⟨(performAll_keeps hok).sqes _ hsq, hjobs⟩
  | _ => exact h

theorem sqesAfter_kept {ctrl : Controller} {cmd : AdminCommand} {qid : Nat}
    (h : ¬ cmd.ReplacesSq qid) : sqesAfter ctrl cmd qid = ctrl.sqes qid := by
  unfold sqesAfter
  cases hop : cmd.opcode with
  | createSq => exact Function.update_of_ne (fun heq => h ⟨.inl hop, heq.symm⟩) ..
  | deleteSq => exact Function.update_of_ne (fun heq => h ⟨.inr hop, heq.symm⟩) ..
  | _ => rfl

theorem cqesAfter_kept {ctrl : Controller} {cmd : AdminCommand} {qid : Nat}
    (h : ¬ cmd.ReplacesCq qid) : cqesAfter ctrl cmd qid = ctrl.cqes qid := by
  unfold cqesAfter
  cases hop : cmd.opcode with
  | createCq => exact Function.update_of_ne (fun heq => h ⟨.inl hop, heq.symm⟩) ..
  | deleteCq => exact Function.update_of_ne (fun heq => h ⟨.inr hop, heq.symm⟩) ..
  | _ => rfl

/-- A command that leaves a submission queue alone leaves its count alone. -/
theorem DeviceRun.afterAdmin_sqGen {ctrl' : Controller} {cmd : AdminCommand} {qid : Nat}
    (h : ¬ cmd.ReplacesSq qid) : (s.afterAdmin ctrl' cmd).sqGen qid = s.sqGen qid := by
  unfold DeviceRun.afterAdmin
  dsimp only
  split
  · rename_i hop
    exact Function.update_of_ne (fun heq => h ⟨.inl hop, heq.symm⟩) ..
  · rfl

/-- The same for completion queues. -/
theorem DeviceRun.afterAdmin_cqGen {ctrl' : Controller} {cmd : AdminCommand} {qid : Nat}
    (h : ¬ cmd.ReplacesCq qid) : (s.afterAdmin ctrl' cmd).cqGen qid = s.cqGen qid := by
  unfold DeviceRun.afterAdmin
  dsimp only
  split
  · rename_i hop
    exact Function.update_of_ne (fun heq => h ⟨.inl hop, heq.symm⟩) ..
  · rfl

/-- An admin command leaves the queues it does not replace. -/
theorem QueuesLive.adminReq {ctrl' : Controller} {cmd : AdminCommand} {queues gens : Nat × Nat}
    (h : QueuesLive s queues gens) (hdone : AdminDone s.ctrl ctrl' cmd)
    (hsq : ¬ cmd.ReplacesSq queues.1) (hcq : ¬ cmd.ReplacesCq queues.2) :
    QueuesLive (s.afterAdmin ctrl' cmd) queues gens := by
  refine ⟨?_, ?_, ?_⟩
  · show ∃ sq, ctrl'.sqes queues.1 = some sq
    rw [hdone.sqes, sqesAfter_kept hsq]
    exact h.sqes
  · show ∃ cq, ctrl'.cqes queues.2 = some cq
    rw [hdone.cqes, cqesAfter_kept hcq]
    exact h.cqes
  · rw [DeviceRun.afterAdmin_sqGen hsq, DeviceRun.afterAdmin_cqGen hcq]
    exact h.gens

/-- A queue that is replaced is gone, or another one. -/
theorem QueuesLive.not_replaced {ctrl' : Controller} {cmd : AdminCommand} {queues gens : Nat × Nat}
    (h : QueuesLive s queues gens) (hdone : AdminDone s.ctrl ctrl' cmd)
    (h' : QueuesLive (s.afterAdmin ctrl' cmd) queues gens) :
    ¬ cmd.ReplacesSq queues.1 ∧ ¬ cmd.ReplacesCq queues.2 := by
  have hgens := h.gens.symm.trans h'.gens
  constructor
  · rintro ⟨hop | hop, hqid⟩
    · have hgen : s.sqGen queues.1 = (s.afterAdmin ctrl' cmd).sqGen queues.1 :=
        congrArg Prod.fst hgens
      unfold DeviceRun.afterAdmin at hgen
      dsimp only at hgen
      rw [if_pos hop, hqid, Function.update_self] at hgen
      omega
    · obtain ⟨sq, hsq⟩ := h'.sqes
      have hsq : ctrl'.sqes queues.1 = some sq := hsq
      rw [hdone.sqes] at hsq
      unfold sqesAfter at hsq
      rw [hop, ← hqid] at hsq
      dsimp only at hsq
      rw [Function.update_self] at hsq
      cases hsq
  · rintro ⟨hop | hop, hqid⟩
    · have hgen : s.cqGen queues.2 = (s.afterAdmin ctrl' cmd).cqGen queues.2 :=
        congrArg Prod.snd hgens
      unfold DeviceRun.afterAdmin at hgen
      dsimp only at hgen
      rw [if_pos hop, hqid, Function.update_self] at hgen
      omega
    · obtain ⟨cq, hcq⟩ := h'.cqes
      have hcq : ctrl'.cqes queues.2 = some cq := hcq
      rw [hdone.cqes] at hcq
      unfold cqesAfter at hcq
      rw [hop, ← hqid] at hcq
      dsimp only at hcq
      rw [Function.update_self] at hcq
      cases hcq

/-- The job just given is for the queues as they are. -/
theorem UnfinishedLive.gave (h : UnfinishedLive s) (hat : AtQueue s) {poll : SqPoll}
    {ans : ProcAnswer} {job : IoJob} {todo : List IoJob}
    (hkept : QueuesKept s .handOver) (hhanding : s.dispatcher = .handing poll ans (job :: todo))
    (w : Nat) (worker' : IoWorker) (dispatcher : Dispatcher) :
    UnfinishedLive (s.gave w worker' job dispatcher) := by
  have hlive : ∀ queues, job.queues = some queues → QueuesLive s queues (s.incarnations job) := by
    intro queues hqueues
    obtain ⟨hsq, hjobs⟩ := hat poll ans _ hhanding
    have hqid := (hjobs job List.mem_cons_self).symm.trans (IoJob.sqid_of_queues hqueues)
    refine ⟨hqid ▸ hsq, hkept poll ans job todo queues hhanding hqueues, ?_⟩
    cases job with
    | request sqid cqid sqEntry commandId ret =>
      obtain rfl := Option.some.inj hqueues
      rfl
    | internal sqid nsecsTarget writeBuffer buffsToRelease => cases hqueues
  intro v n job' queues hjob' hqueues hopen
  have hold : ∀ gens, QueuesLive s queues gens →
      QueuesLive (s.gave w worker' job dispatcher) queues gens :=
    fun gens hgens => ⟨hgens.sqes, hgens.cqes, hgens.gens⟩
  apply hold
  show QueuesLive s queues (Function.update s.queuedFor w _ v n)
  have hjob' : (Function.update s.workers w ((s.workers w).queue worker' job) v).jobs[n]? =
      some job' := hjob'
  have hopen : (Function.update s.workers w ((s.workers w).queue worker' job) v).Unfinished n := hopen
  by_cases hv : v = w
  · rw [hv, Function.update_self] at hjob' hopen ⊢
    have hjob' : ((s.workers w).jobs ++ [job])[n]? = some job' := hjob'
    by_cases hn : n < (s.workers w).jobs.length
    · rw [List.getElem?_append_left hn] at hjob'
      rw [Function.update_of_ne (Nat.ne_of_lt hn)]
      exact h w n job' queues hjob' hqueues hopen
    · obtain rfl : n = (s.workers w).jobs.length := by
        have hlt := (List.getElem?_eq_some_iff.mp hjob').1
        rw [List.length_append, List.length_singleton] at hlt
        omega
      rw [List.getElem?_concat_length] at hjob'
      rw [Function.update_self]
      obtain rfl := Option.some.inj hjob'
      exact hlive queues hqueues
  · rw [Function.update_of_ne hv] at hjob' hopen ⊢
    exact h v n job' queues hjob' hqueues hopen

/-- A worker that goes on has the jobs it had, and ends some of them. -/
theorem UnfinishedLive.worker (h : UnfinishedLive s) {w : Nat} {run' : WorkerRun}
    (hworkers : s'.workers = Function.update s.workers w run')
    (hkeeps : KeepsQueues s.ctrl s'.ctrl)
    (hgens : s'.sqGen = s.sqGen ∧ s'.cqGen = s.cqGen ∧ s'.queuedFor = s.queuedFor)
    (hjobs : run'.jobs = (s.workers w).jobs) (hlog : ∀ d ∈ (s.workers w).log, d ∈ run'.log) :
    UnfinishedLive s' := by
  refine h.keeps hkeeps hgens (jobs_of_update hworkers hjobs) fun v n hopen => ?_
  rw [hworkers] at hopen
  by_cases hv : v = w
  · rw [hv, Function.update_self] at hopen
    rw [hv]
    exact fun d hd => hopen d (hlog d hd)
  · rw [Function.update_of_ne hv] at hopen
    exact hopen

/-- Every guarded step keeps the queues of unfinished jobs. -/
theorem UnfinishedLive.step (h : UnfinishedLive s) (hat : AtQueue s) (hkept : QueuesKept s l)
    (hstep : DeviceStep fns s l s') : UnfinishedLive s' := by
  cases hstep with
  | adminReq _ hok =>
    intro w n job queues hjob hqueues hopen
    obtain ⟨hsq, hcq⟩ := hkept w n job queues hjob hqueues hopen
    exact (h w n job queues hjob hqueues hopen).adminReq (Controller.procAdminReq_done hok) hsq hcq
  | gave hhanding _ => exact h.gave hat hkept hhanding _ _ _
  | @passed _ _ _ workers' _ _ _ _ =>
    refine h.keeps (.setSq _ _ rfl rfl) ⟨rfl, rfl, rfl⟩ (fun w => ?_) fun w n hopen d hd => ?_
    · exact (DeviceRun.reclaimed_log workers' w).1
    · apply hopen d
      show d ∈ (s.reclaimed workers' w).log
      rw [(DeviceRun.reclaimed_log workers' w).2]
      exact hd
  | refused _ _ _ | finish _ _ _ =>
    exact h.keeps (.setSq _ _ rfl rfl) ⟨rfl, rfl, rfl⟩ (fun _ => rfl) fun _ _ hopen => hopen
  | startPass _ _ => exact h.worker rfl (.refl _) ⟨rfl, rfl, rfl⟩ rfl fun _ hd => hd
  | visit _ _ _ hok =>
    exact h.worker rfl (performAll_keeps hok) ⟨rfl, rfl, rfl⟩ rfl
      fun _ hd => List.mem_append_left _ hd
  | _ =>
    exact h.keeps ⟨fun _ hq => hq, fun _ hq => hq⟩ ⟨rfl, rfl, rfl⟩ (fun _ => rfl)
      fun _ _ hopen => hopen

/-- As long as no queue with unfinished commands is deleted, each of these has the queues it came
from. -/
theorem deviceRuns_unfinishedLive :
    ((deviceRuns fns fresh).guarded QueuesKept).Invariant fun s => AtQueue s ∧ UnfinishedLive s where
  init s hs := by
    refine ⟨fun poll ans todo hat => ?_, fun w n job queues hjob => ?_⟩
    · rw [hs.dispatcher] at hat
      cases hat
    · rw [(hs.workers w).2.2.1] at hjob
      cases hjob
  step s l s' h hstep := ⟨h.1.step hstep.2, h.2.step h.1 hstep.1 hstep.2⟩

/-- What a worker does at an entry names the queues in it. -/
theorem IoWorker.visit_queues {worker : IoWorker} {curr currNsecs : Nat} {action : IoAction}
    (h : action ∈ (worker.visit curr currNsecs).2.2) :
    (worker.workQueue curr).isCompleted = false ∧
      ((worker.workQueue curr).isInternal = false ∧
          (action = .copy (worker.workQueue curr).sqid (worker.workQueue curr).sqEntry ∨
            action = .fillCqResult (worker.workQueue curr).cqResult) ∨
        ∃ writeBuffer buffsToRelease, action = .release writeBuffer buffsToRelease) := by
  rw [worker.visit_actions] at h
  split at h
  · exact absurd h List.not_mem_nil
  · rename_i hcompleted
    refine ⟨Bool.eq_false_iff.mpr hcompleted, ?_⟩
    rcases List.mem_append.mp h with hin | hin
    · unfold IoWorker.copies at hin
      split at hin
      · exact absurd hin List.not_mem_nil
      · rename_i hopen
        exact .inl ⟨Bool.eq_false_iff.mpr fun hinternal => hopen (.inr hinternal),
          .inl (List.mem_singleton.mp hin)⟩
    · split at hin
      · unfold IoWorker.completes at hin
        split at hin
        · exact .inr ⟨_, _, List.mem_singleton.mp hin⟩
        · rename_i hinternal
          exact .inl ⟨Bool.eq_false_iff.mpr hinternal, .inr (List.mem_singleton.mp hin)⟩
      · exact absurd hin List.not_mem_nil

/-- What a worker is about to do is for queues that live. -/
theorem UnfinishedLive.actsOnLive (h : UnfinishedLive s)
    (hworkers : ∀ w, workerRuns.Reachable (s.workers w)) {w curr currNsecs : Nat}
    (hcursor : (s.workers w).cursor = some curr) {action : IoAction}
    (haction : action ∈ s.actions w curr currNsecs) : ActsOnLive s w curr action := by
  obtain ⟨hopen, hacts⟩ := IoWorker.visit_queues haction
  obtain ⟨job, hjob, hcarries, _, hunfinished⟩ :=
    WorkerRun.unfinished_at (hworkers w) hcursor hopen
  cases job with
  | internal sqid nsecsTarget writeBuffer buffsToRelease =>
    rcases hacts with ⟨hinternal, _⟩ | ⟨_, _, rfl⟩
    · exact absurd (hinternal.symm.trans hcarries.2.2.2) Bool.false_ne_true
    · trivial
  | request sqid cqid sqEntry commandId ret =>
    obtain ⟨hresult, _, _⟩ := hcarries
    have hlive : LiveAt s w curr (sqid, cqid) :=
      ⟨_, hjob, rfl, h w _ _ (sqid, cqid) hjob rfl hunfinished⟩
    have hsqid : ((s.workers w).worker.workQueue curr).sqid = sqid := congrArg CqResult.sqid hresult
    rcases hacts with ⟨_, rfl | rfl⟩ | ⟨_, _, rfl⟩
    · rw [hsqid]
      exact ⟨cqid, hlive⟩
    · rw [hresult]
      exact hlive
    · trivial

/-- So it finds them. -/
theorem ActsOnLive.finds {w curr : Nat} {action : IoAction} (h : ActsOnLive s w curr action) :
    action.Finds s.ctrl := by
  cases action with
  | copy sqid sqEntry =>
    obtain ⟨_, _, _, _, hlive⟩ := h
    exact hlive.sqes
  | fillCqResult r =>
    obtain ⟨_, _, _, hlive⟩ := h
    exact hlive.cqes
  | release writeBuffer buffsToRelease => trivial

/-- In every run in which no queue of an unfinished command is taken away or replaced, and no command is
given to a worker without its completion queue, a worker copies and completes for queues that are there
and are those the command was taken for, and meets no empty slot. An admin command leaves the queues of
all unfinished commands as they were exactly when it replaces none of them. -/
theorem queue_lifetime (h : ((deviceRuns fns fresh).guarded QueuesKept).Reachable s) :
    Lifetime fns s ∧ ∀ eid cmd s', DeviceStep fns s (.adminReq eid cmd) s' →
      (QueuesKept s (.adminReq eid cmd) ↔ UnfinishedLive s') := by
  obtain ⟨hat, hlive⟩ := deviceRuns_unfinishedLive.reachable h
  have hworkers := deviceRuns_workers.reachable h.of_guarded
  have hacts : ∀ w curr currNsecs, (s.workers w).cursor = some curr →
      ∀ action ∈ s.actions w curr currNsecs, ActsOnLive s w curr action :=
    fun w curr currNsecs hcursor action haction => hlive.actsOnLive hworkers hcursor haction
  refine ⟨⟨hacts, fun w curr currNsecs bytes hcursor => ?_⟩, fun eid cmd s' hstep => ?_⟩
  · exact performAll_ok fun action haction => (hacts w curr currNsecs hcursor action haction).finds
  · constructor
    · exact fun hkept => hlive.step hat hkept hstep
    · intro hlive' w n job queues hjob hqueues hopen
      cases hstep with
      | adminReq _ hok =>
        exact (hlive w n job queues hjob hqueues hopen).not_replaced (Controller.procAdminReq_done hok)
          (hlive' w n job queues hjob hqueues hopen)

end Runs

/-! ## A flush that waits -/

section Flush

/-- A flush is given to worker 0, which starts a pass. -/
def flushWaits : List DeviceEvent :=
  submitEvents [flushEntry] ++ ringEvents 1 ++ acceptEvents 1 ++ [.finish, .startPass 0]

/-- Queues are created before the first answer, and a job is given away with its completion queue there. -/
def keepsQueues (s : DeviceRun ConvNs) : DeviceEvent → Bool
  | .adminReq _ _ => s.answers.isEmpty
  | .handOver => s.dispatcher.todo.head?.all fun job =>
      job.queues.all fun queues => (s.ctrl.cqes queues.2).isSome
  | _ => true

theorem keepsQueues_kept {s : DeviceRun ConvNs} {l : DeviceEvent}
    (hreach : (deviceRuns convNamespace Fresh970ProGib).Reachable s) (h : keepsQueues s l = true) :
    QueuesKept s l := by
  cases l with
  | adminReq eid cmd =>
    intro w n job queues hjob
    rw [((deviceRuns_answered.reachable hreach).unanswered (List.isEmpty_iff.mp h)).2 w] at hjob
    cases hjob
  | handOver =>
    intro poll ans job todo queues hat hqueues
    unfold keepsQueues at h
    rw [hat] at h
    dsimp only [Dispatcher.todo] at h
    rw [List.head?_cons, Option.all_some, hqueues, Option.all_some] at h
    exact Option.isSome_iff_exists.mp h
  | _ => trivial

/-- With a flush about to be completed. -/
theorem queue_lifetime_flush : ∃ s : DeviceRun ConvNs,
    ((deviceRuns convNamespace Fresh970ProGib).guarded QueuesKept).Reachable s ∧
      (s.workers 0).cursor = some 0 ∧ (s.workers 0).jobs.length = 1 ∧ Lifetime convNamespace s := by
  obtain ⟨s, hreach, hends⟩ := @exists_executedGib QueuesKept keepsQueues flushWaits
    (fun s => (s.workers 0).cursor = some 0 ∧ (s.workers 0).jobs.length = 1)
    (fun _ _ _ ht hl _ => keepsQueues_kept ht hl) (by decide +kernel)
  obtain ⟨hcursor, hjobs⟩ := of_decide_eq_true hends
  exact ⟨s, hreach, hcursor, hjobs, (queue_lifetime hreach).1⟩

/-- The completion queue of a flush is deleted before the worker comes to it. -/
theorem queue_deleted_too_early : ¬ ∀ s, (deviceRuns convNamespace Fresh970ProGib).Reachable s →
    Lifetime convNamespace s := by
  intro hall
  obtain ⟨s, hreach, hends⟩ := @exists_executedGib (fun _ _ => True) (fun _ _ => true)
    (flushWaits ++ [.adminReq 0 (queueCommand .deleteCq 1 1023)])
    (fun s => (s.workers 0).cursor = some 0 ∧ s.ctrl.cqes 1 = none ∧
      IoAction.fillCqResult ⟨1, 1, 0, 0, nvmeScSuccess, 0, 0⟩ ∈ s.actions 0 0 (2 ^ 40))
    (fun _ _ _ _ _ _ => trivial) (by decide +kernel)
  obtain ⟨hcursor, hdeleted, hfill⟩ := of_decide_eq_true hends
  obtain ⟨_, _, _, hqueues⟩ := (hall s hreach.of_guarded).live 0 0 (2 ^ 40) hcursor _ hfill
  obtain ⟨cq, hcq⟩ := hqueues.cqes
  cases hdeleted.symm.trans hcq

end Flush

end NvmeVirt

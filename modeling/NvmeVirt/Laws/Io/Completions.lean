import NvmeVirt.Lib.Channel
import NvmeVirt.Laws.Io.DataPath

/-!
# Completions on their way to the host

A worker posts a completion at the head of its queue and does not look how far the host has read.
The host reads the slots in turn and takes an entry when its phase tag is the one of the lap. A
visit of a worker ends no command, or posts the completion of the one that is due.

`hostRuns` puts a host beside the device, which looks at the next slot of any queue at any time, and
keeps what was posted to each queue and what the host has seen of it. A post has the worker and the
number of its job there, so that a command is known without its identifier. `VisitDone.of_visit` is
the lemma about one visit that `Laws/Io/Delivery` is built on.

A ring is zeroed when it is created, as the host does it before it asks for the queue.
-/

set_option autoImplicit false

namespace NvmeVirt

/-- A completion that was posted, and the job it is for. -/
structure Post where
  worker : Nat
  serial : Nat
  entry : NvmeCompletion

def Post.key (p : Post) : Nat × Nat := (p.worker, p.serial)

/-- The device, and for each completion queue since it was created: how many commands for it the
dispatcher has taken, what was posted, and what the host has read. -/
structure HostRun (σ : Type) where
  device : DeviceRun σ
  taken : Nat → Nat
  posts : Nat → List Post
  seen : Nat → List NvmeCompletion

inductive HostEvent where
  | device (l : DeviceEvent)
  /-- The host looks at the next slot of a completion queue. -/
  | read (cqid : Nat)

/-- The job is a command whose completion goes to the queue. -/
def IoJob.completesTo (cqid : Nat) : IoJob → Bool
  | .request _ c _ _ _ => c = cqid
  | .internal _ _ _ _ => false

/-- How many commands for a completion queue the dispatcher has yet to give to a worker. -/
def Dispatcher.waiting (cqid : Nat) : Dispatcher → Nat
  | .handing _ _ todo => todo.countP (IoJob.completesTo cqid)
  | .idle | .polling _ => 0

/-- The entry `__fill_cq_result` writes. -/
def CompletionQueue.posted (cq : CompletionQueue) (r : CqResult) : NvmeCompletion :=
  { result0 := r.result0, result1 := r.result1, sqHead := r.sqEntry, sqId := r.sqid
    commandId := r.commandId, status := completionStatus cq.phase r.status }

/-- What an action posts to the queue `cq` with the number `cqid`. -/
def IoAction.posts (cq : CompletionQueue) (cqid w n : Nat) : IoAction → Option Post
  | .fillCqResult r => if r.cqid = cqid then some ⟨w, n, cq.posted r⟩ else none
  | _ => none

/-- What a visit posts to a queue; it posts once at most. -/
def DeviceRun.posts {σ : Type} (d : DeviceRun σ) (w currNsecs cqid : Nat) : List Post :=
  match (d.workers w).cursor, d.ctrl.cqes cqid with
  | some curr, some cq =>
    (d.actions w curr currNsecs).filterMap (IoAction.posts cq cqid w ((d.workers w).serial curr))
  | _, _ => []

/-- The job is a command for the queue. -/
def DeviceRun.CommandFor {σ : Type} (d : DeviceRun σ) (cqid : Nat) (k : Nat × Nat) (job : IoJob) :
    Prop :=
  (d.workers k.1).jobs[k.2]? = some job ∧ job.completesTo cqid = true

/-- The job has not been ended. -/
def DeviceRun.Unended {σ : Type} (d : DeviceRun σ) (k : Nat × Nat) : Prop :=
  (d.workers k.1).Unfinished k.2

/-- The completion is that of its job, a command for the queue. -/
def Post.IsFor {σ : Type} (d : DeviceRun σ) (cqid : Nat) (p : Post) : Prop :=
  ∃ sqid slot id ret, (d.workers p.worker).jobs[p.serial]? = some (.request sqid cqid slot id ret) ∧
    p.entry = { result0 := 0, result1 := 0, sqHead := slot, sqId := sqid, commandId := id
                status := completionStatus p.entry.tag ret.status }

namespace HostRun

variable {σ : Type} (s : HostRun σ)

/-- The slot the host looks at has the tag it waits for. -/
def Ready (cqid : Nat) (cq : CompletionQueue) : Prop :=
  (cq.cq ((s.seen cqid).length % cq.queueSize)).tag = lapTag cq.queueSize (s.seen cqid).length

/-- The run after a step of the device. -/
def after (l : DeviceEvent) (device : DeviceRun σ) : HostRun σ :=
  match l with
  | .attempt => { s with device, taken := fun c => s.taken c + device.dispatcher.waiting c }
  | .adminReq _ cmd =>
    if cmd.opcode = .createCq then
      { device, taken := Function.update s.taken cmd.qid 0
        posts := Function.update s.posts cmd.qid [], seen := Function.update s.seen cmd.qid [] }
    else { s with device }
  | .visit w currNsecs _ =>
    { s with device, posts := fun c => s.posts c ++ s.device.posts w currNsecs c }
  | _ => { s with device }

/-- The run once the host has taken the entry at its slot. -/
def took (cqid : Nat) (cq : CompletionQueue) : HostRun σ :=
  { s with
    seen := Function.update s.seen cqid
      (s.seen cqid ++ [cq.cq ((s.seen cqid).length % cq.queueSize)]) }

end HostRun

inductive HostStep {σ : Type} (fns : NvmevNs σ) : HostRun σ → HostEvent → HostRun σ → Prop where
  | device {s : HostRun σ} {l : DeviceEvent} {d : DeviceRun σ} :
    DeviceStep fns s.device l d → HostStep fns s (.device l) (s.after l d)
  | took {s : HostRun σ} {cqid : Nat} {cq : CompletionQueue} :
    s.device.ctrl.cqes cqid = some cq → s.Ready cqid cq →
    HostStep fns s (.read cqid) (s.took cqid cq)
  | waited {s : HostRun σ} {cqid : Nat} {cq : CompletionQueue} :
    s.device.ctrl.cqes cqid = some cq → ¬ s.Ready cqid cq → HostStep fns s (.read cqid) s

/-- The runs of a device and its host. -/
def hostRuns {σ : Type} (fns : NvmevNs σ) (fresh : σ → Prop) : System (HostRun σ) HostEvent where
  init s := Booted fresh s.device ∧ (∀ c, s.taken c = 0) ∧ (∀ c, s.posts c = []) ∧
    ∀ c, s.seen c = []
  step := HostStep fns

/-- The ring holds what was posted. -/
structure RingPosts (cq : CompletionQueue) (posts : List Post) : Prop where
  holds : RingHolds cq.queueSize NvmeCompletion.tag cq.cq (posts.map Post.entry)
  head : cq.cqHead = posts.length % cq.queueSize
  phase : cq.phase = lapTag cq.queueSize posts.length

section Posting

variable {σ : Type} {fns : NvmevNs σ} {d d' : DeviceRun σ} {c : Nat}

/-! ## Posting -/

/-- A completion carries the phase of its ring. -/
theorem CompletionQueue.posted_tag (cq : CompletionQueue) (r : CqResult) :
    (cq.posted r).tag = cq.phase :=
  tag_completionStatus rfl

/-- `__fill_cq_result` posts to the next slot. -/
theorem RingPosts.fill {cq : CompletionQueue} {posts : List Post} (h : RingPosts cq posts)
    {r : CqResult} {p : Post} (hp : p.entry = cq.posted r) :
    RingPosts (cq.fillCqResult r.sqid r.sqEntry r.commandId r.status r.result0 r.result1)
      (posts ++ [p]) := by
  have hmod := succ_mod_ring h.holds.depth_pos posts.length
  have htag := lapTag_succ h.holds.depth_pos posts.length
  rw [← h.head] at hmod htag
  have hholds := @RingHolds.post _ _ _ _ _ h.holds (cq.posted r)
    ((cq.posted_tag r).trans (h.phase.trans (by rw [List.length_map])))
  rw [List.length_map, ← h.head] at hholds
  refine ⟨?_, ?_, ?_⟩
  · rw [List.map_append, List.map_singleton, hp]
    exact hholds
  · rw [List.length_append, List.length_singleton]
    show (advanceHead cq.queueSize cq.cqHead cq.phase).1 = (posts.length + 1) % cq.queueSize
    rw [hmod]
    unfold advanceHead
    split <;> rfl
  · rw [List.length_append, List.length_singleton]
    show (advanceHead cq.queueSize cq.cqHead cq.phase).2 = lapTag cq.queueSize (posts.length + 1)
    rw [htag, ← h.phase]
    unfold advanceHead
    split <;> rfl

/-- A ring without posts. -/
theorem RingPosts.created (cmd : AdminCommand) :
    RingPosts (Controller.newCompletionQueue cmd) [] where
  holds := .start (Nat.succ_pos _) fun _ _ => rfl
  head := (Nat.zero_mod _).symm
  phase := (lapTag_first (Nat.succ_pos _)).symm

/-! ## What a visit posts -/

/-- Nothing changes for the commands of the queue `c`, except that the queue may go. -/
structure SameFor (d d' : DeviceRun σ) (c : Nat) : Prop where
  cqes : ∀ cq, d'.ctrl.cqes c = some cq → d.ctrl.cqes c = some cq
  commands : ∀ k job, d'.CommandFor c k job ↔ d.CommandFor c k job
  unended : ∀ k job, d.CommandFor c k job → (d'.Unended k ↔ d.Unended k)
  queuedFor : ∀ k job, d.CommandFor c k job → d'.queuedFor k.1 k.2 = d.queuedFor k.1 k.2
  cqGen : d'.cqGen c = d.cqGen c

theorem WorkerRun.unfinished_congr {run run' : WorkerRun} (hlog : run'.log = run.log) (n : Nat) :
    run'.Unfinished n ↔ run.Unfinished n := by
  unfold WorkerRun.Unfinished
  rw [hlog]

/-- What a visit leaves to be ended. -/
theorem WorkerRun.visited_unfinished (run : WorkerRun) (curr currNsecs n : Nat) :
    (run.visited curr currNsecs).Unfinished n ↔ run.Unfinished n ∧
      (run.serial curr = n → ∀ a ∈ (run.worker.visit curr currNsecs).2.2, ¬ a.Ends) := by
  constructor
  · intro h
    refine ⟨fun e he => h e (List.mem_append_left _ he), fun hn a ha => ?_⟩
    exact h ⟨_, a, currNsecs⟩ (List.mem_append_right _ (List.mem_map.mpr ⟨a, ha, rfl⟩)) hn
  · rintro ⟨hold, hnew⟩ e he hn
    rcases List.mem_append.mp he with hin | hin
    · exact hold e hin hn
    · obtain ⟨a, ha, rfl⟩ := List.mem_map.mp hin
      exact hnew hn a ha

/-- One list of actions after the other. -/
theorem performAll_append {sq : Nat → Nat → SqEntry} {bytes : Nat → Nat}
    {first rest : List IoAction} {o o' : Outside σ}
    (h : performAll fns sq bytes (first ++ rest) o = .ok o') :
    ∃ mid, performAll fns sq bytes first o = .ok mid ∧
      performAll fns sq bytes rest mid = .ok o' := by
  induction first generalizing o with
  | nil => exact ⟨o, rfl, h⟩
  | cons action first ih =>
    obtain ⟨next, hnext, hlast⟩ := of_bind_ok h
    obtain ⟨mid, hmid, hrest⟩ := ih hlast
    refine ⟨mid, ?_, hrest⟩
    show (action.perform fns sq bytes o >>= _) = _
    rw [hnext]
    exact hmid

/-- Only `__fill_cq_result` changes a completion queue. -/
theorem performAll_cqes {sq : Nat → Nat → SqEntry} {bytes : Nat → Nat} {actions : List IoAction}
    {o o' : Outside σ} (h : performAll fns sq bytes actions o = .ok o')
    (hquiet : ∀ r, .fillCqResult r ∉ actions) : o'.ctrl.cqes = o.ctrl.cqes := by
  induction actions generalizing o with
  | nil =>
    obtain rfl := Except.ok.inj h
    rfl
  | cons action rest ih =>
    obtain ⟨mid, hfirst, hlast⟩ := of_bind_ok h
    rw [ih hlast fun r hr => hquiet r (List.mem_cons_of_mem _ hr)]
    unfold IoAction.perform at hfirst
    cases action with
    | copy sqid sqEntry =>
      dsimp only at hfirst
      split at hfirst
      · cases hfirst
      · rw [← Except.ok.inj hfirst]
    | fillCqResult r => exact absurd List.mem_cons_self (hquiet r)
    | release writeBuffer buffsToRelease => rw [← Except.ok.inj hfirst]

/-- A completion is put into its queue. -/
theorem IoAction.perform_fillCqResult {sq : Nat → Nat → SqEntry} {bytes : Nat → Nat} {r : CqResult}
    {o o' : Outside σ} (h : (IoAction.fillCqResult r).perform fns sq bytes o = .ok o') :
    ∃ cq, o.ctrl.cqes r.cqid = some cq ∧ o'.ctrl.cqes = Function.update o.ctrl.cqes r.cqid
      (some (cq.fillCqResult r.sqid r.sqEntry r.commandId r.status r.result0 r.result1)) := by
  unfold IoAction.perform at h
  dsimp only at h
  split at h
  · cases h
  · rename_i cq hcq
    obtain rfl := Except.ok.inj h
    exact ⟨cq, hcq, rfl⟩

/-- A command for the queue `c` is ended with the completion `p`. -/
structure Completes (d d' : DeviceRun σ) (c : Nat) (p : Post) : Prop where
  isFor : p.IsFor d c
  unended : d.Unended p.key
  filled : ∃ cq r, d.ctrl.cqes c = some cq ∧ p.entry = cq.posted r ∧ d'.ctrl.cqes c =
    some (cq.fillCqResult r.sqid r.sqEntry r.commandId r.status r.result0 r.result1)
  jobs : ∀ w, (d'.workers w).jobs = (d.workers w).jobs
  ends : ∀ k, d'.Unended k ↔ d.Unended k ∧ k ≠ p.key
  queuedFor : d'.queuedFor = d.queuedFor
  cqGen : d'.cqGen = d.cqGen

/-- A visit ends no command, or posts the completion of the one that is due. -/
inductive VisitDone (d d' : DeviceRun σ) (w currNsecs : Nat) : Prop where
  | quiet : (∀ c, SameFor d d' c) → (∀ c, d.posts w currNsecs c = []) → VisitDone d d' w currNsecs
  | posted {cqid : Nat} {p : Post} : Completes d d' cqid p → (∀ c, c ≠ cqid → SameFor d d' c) →
    (∀ c, d.posts w currNsecs c = if c = cqid then [p] else []) → VisitDone d d' w currNsecs

theorem DeviceRun.visited_unfinished {w curr currNsecs : Nat} {bytes : Nat → Nat} {o : Outside σ}
    (v m : Nat) : ((d.visited w curr currNsecs bytes o).workers v).Unfinished m ↔
      (d.workers v).Unfinished m ∧ (v = w → (d.workers w).serial curr = m →
        ∀ a ∈ d.actions w curr currNsecs, ¬ a.Ends) := by
  show (Function.update d.workers w _ v).Unfinished m ↔ _
  by_cases hv : v = w
  · subst hv
    rw [Function.update_self, WorkerRun.visited_unfinished]
    exact and_congr_right fun _ => ⟨fun h _ => h, fun h => h rfl⟩
  · rw [Function.update_of_ne hv]
    exact ⟨fun h => ⟨h, fun hw => absurd hw hv⟩, And.left⟩

/-- The posts of a visit are among its actions. -/
theorem DeviceRun.posts_of_cursor {w curr currNsecs c : Nat} {cq : CompletionQueue}
    (hcursor : (d.workers w).cursor = some curr) (hcq : d.ctrl.cqes c = some cq) :
    d.posts w currNsecs c = (d.actions w curr currNsecs).filterMap
      (IoAction.posts cq c w ((d.workers w).serial curr)) := by
  unfold DeviceRun.posts
  rw [hcursor, hcq]

/-- Without `__fill_cq_result` nothing is posted. -/
theorem DeviceRun.posts_quiet {w curr currNsecs : Nat} (hcursor : (d.workers w).cursor = some curr)
    (hquiet : ∀ r, .fillCqResult r ∉ d.actions w curr currNsecs) (c : Nat) :
    d.posts w currNsecs c = [] := by
  cases hcq : d.ctrl.cqes c with
  | none =>
    unfold DeviceRun.posts
    rw [hcursor, hcq]
  | some cq =>
    rw [posts_of_cursor hcursor hcq, List.filterMap_eq_nil_iff]
    intro a ha
    cases a with
    | fillCqResult r => exact absurd ha (hquiet r)
    | copy sqid sqEntry => rfl
    | release writeBuffer buffsToRelease => rfl

/-- The one `__fill_cq_result` posts to its queue. -/
theorem DeviceRun.posts_fill {w curr currNsecs : Nat} {r : CqResult} {cq : CompletionQueue}
    {first : List IoAction} (hcursor : (d.workers w).cursor = some curr)
    (hcq : d.ctrl.cqes r.cqid = some cq)
    (hactions : d.actions w curr currNsecs = first ++ [.fillCqResult r])
    (hfirst : ∀ a ∈ first, ¬ a.Ends) (c : Nat) : d.posts w currNsecs c =
      if c = r.cqid then [⟨w, (d.workers w).serial curr, cq.posted r⟩] else [] := by
  have hnone : ∀ cq', first.filterMap (IoAction.posts cq' c w ((d.workers w).serial curr)) = [] := by
    intro cq'
    rw [List.filterMap_eq_nil_iff]
    intro a ha
    cases a with
    | copy sqid sqEntry => rfl
    | fillCqResult r => exact absurd trivial (hfirst _ ha)
    | release writeBuffer buffsToRelease => rfl
  by_cases hc : c = r.cqid
  · subst hc
    rw [posts_of_cursor hcursor hcq, hactions, List.filterMap_append, hnone]
    simp [IoAction.posts]
  · rw [if_neg hc]
    cases hcq' : d.ctrl.cqes c with
    | none =>
      unfold DeviceRun.posts
      rw [hcursor, hcq']
    | some cq' =>
      rw [posts_of_cursor hcursor hcq', hactions, List.filterMap_append, hnone]
      simp [IoAction.posts, Ne.symm hc]

/-- A visit that ends no command of the queue. -/
theorem SameFor.visited {w curr currNsecs : Nat} {bytes : Nat → Nat} {o : Outside σ}
    (hcqes : o.ctrl.cqes c = d.ctrl.cqes c)
    (hends : ∀ job, d.CommandFor c (w, (d.workers w).serial curr) job →
      ∀ a ∈ d.actions w curr currNsecs, ¬ a.Ends) :
    SameFor d (d.visited w curr currNsecs bytes o) c where
  cqes _ hcq := hcqes ▸ hcq
  commands k job := by
    unfold DeviceRun.CommandFor
    rw [d.visited_jobs]
  unended k job hfor := by
    unfold DeviceRun.Unended
    rw [DeviceRun.visited_unfinished]
    refine ⟨And.left, fun h => ⟨h, fun hw hn => ?_⟩⟩
    apply hends job
    rw [hn, ← hw]
    exact hfor
  queuedFor _ _ _ := rfl
  cqGen := rfl

/-- A visit does one of the two. -/
theorem VisitDone.of_visit {w curr currNsecs : Nat} {bytes : Nat → Nat} {o : Outside σ}
    (hworkers : ∀ w, workerRuns.Reachable (d.workers w))
    (hcursor : (d.workers w).cursor = some curr)
    (hok : performAll fns d.sq bytes (d.actions w curr currNsecs) d.outside = .ok o) :
    VisitDone d (d.visited w curr currNsecs bytes o) w currNsecs := by
  have hquiet : (∀ r, .fillCqResult r ∉ d.actions w curr currNsecs) →
      (∀ c job, d.CommandFor c (w, (d.workers w).serial curr) job →
        ∀ a ∈ d.actions w curr currNsecs, ¬ a.Ends) →
      VisitDone d (d.visited w curr currNsecs bytes o) w currNsecs := by
    intro hfills hends
    have hcqes : o.ctrl.cqes = d.ctrl.cqes := performAll_cqes hok hfills
    exact .quiet (fun c => .visited (congrFun hcqes c) (hends c))
      (DeviceRun.posts_quiet hcursor hfills)
  have hnothing : (∀ a ∈ d.actions w curr currNsecs, ¬ a.Ends) →
      VisitDone d (d.visited w curr currNsecs bytes o) w currNsecs :=
    fun hnone => hquiet (fun r hr => hnone _ hr trivial) fun _ _ _ => hnone
  have hactions : d.actions w curr currNsecs = _ := IoWorker.visit_actions _ _ _
  have hcopies : ∀ a ∈ IoWorker.copies ((d.workers w).worker.workQueue curr), ¬ a.Ends := by
    intro a ha
    unfold IoWorker.copies at ha
    split at ha
    · cases ha
    · rw [List.mem_singleton.mp ha]
      exact id
  cases hopen : ((d.workers w).worker.workQueue curr).isCompleted with
  | true =>
    rw [hopen, if_pos rfl] at hactions
    exact hnothing fun a ha => absurd (hactions ▸ ha) List.not_mem_nil
  | false =>
    rw [hopen, if_neg Bool.false_ne_true] at hactions
    by_cases hdue : ((d.workers w).worker.workQueue curr).nsecsTarget ≤ currNsecs
    · rw [if_pos hdue] at hactions
      obtain ⟨job, hjob, hcarries, _, hunfinished⟩ :=
        WorkerRun.unfinished_at (hworkers w) hcursor hopen
      cases job with
      | internal sqid nsecsTarget writeBuffer buffsToRelease =>
        obtain ⟨_, _, _, hinternal⟩ := hcarries
        have hone : d.actions w curr currNsecs = [.release
            ((d.workers w).worker.workQueue curr).writeBuffer
            ((d.workers w).worker.workQueue curr).buffsToRelease] := by
          rw [hactions]
          simp [IoWorker.copies, IoWorker.completes, hinternal]
        refine hquiet (fun r hr => ?_) fun c job' hfor => ?_
        · rw [hone] at hr
          cases List.mem_singleton.mp hr
        · obtain ⟨hjob', hc⟩ := hfor
          obtain rfl := Option.some.inj (hjob.symm.trans hjob')
          cases hc
      | request sqid cqid slot id ret =>
        obtain ⟨hresult, _, hinternal⟩ := hcarries
        have hlast : d.actions w curr currNsecs =
            IoWorker.copies ((d.workers w).worker.workQueue curr) ++
              [.fillCqResult ⟨sqid, cqid, slot, id, ret.status, 0, 0⟩] := by
          rw [hactions, ← hresult]
          simp [IoWorker.completes, hinternal]
        rw [hlast] at hok
        obtain ⟨mid, hmid, hfill⟩ := performAll_append hok
        have hcqes := performAll_cqes hmid fun r hr => hcopies _ hr trivial
        obtain ⟨o', hfilled, hend⟩ := of_bind_ok hfill
        obtain rfl := Except.ok.inj hend
        obtain ⟨cq, hcq, hcq'⟩ := IoAction.perform_fillCqResult hfilled
        rw [hcqes] at hcq hcq'
        have hcompletes : Completes d (d.visited w curr currNsecs bytes o') cqid
            ⟨w, (d.workers w).serial curr, cq.posted ⟨sqid, cqid, slot, id, ret.status, 0, 0⟩⟩ := by
          refine ⟨⟨sqid, slot, id, ret, hjob, ?_⟩, hunfinished, ⟨cq, _, hcq, rfl, ?_⟩,
            fun v => d.visited_jobs .., fun k => ?_, rfl, rfl⟩
          · rw [cq.posted_tag]
            rfl
          · exact (congrFun hcq' cqid).trans (Function.update_self ..)
          · unfold DeviceRun.Unended
            rw [DeviceRun.visited_unfinished, hlast]
            refine and_congr_right fun _ => ⟨fun h hkey => ?_, fun hkey hv hm => ?_⟩
            · obtain ⟨rfl, rfl⟩ := hkey
              exact h rfl rfl _ List.mem_concat_self trivial
            · exact absurd (Prod.ext hv hm.symm) hkey
        refine .posted hcompletes (fun c hc => ?_) fun c => ?_
        · refine .visited ((congrFun hcq' c).trans (Function.update_of_ne hc ..)) fun job hfor => ?_
          obtain ⟨hjob', hto⟩ := hfor
          obtain rfl := Option.some.inj (hjob.symm.trans hjob')
          exact absurd (of_decide_eq_true hto).symm hc
        · exact DeviceRun.posts_fill hcursor hcq hlast hcopies c
    · rw [if_neg hdue, List.append_nil] at hactions
      exact hnothing fun a ha => hcopies a (hactions ▸ ha)

end Posting

end NvmeVirt

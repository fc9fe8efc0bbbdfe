import NvmeVirt.Laws.Io.Completions

/-!
# Every completion reaches the host

Over all runs of the device and the host, the host gets the completion of each command once, in the
order in which the workers posted them, and what it gets is the completion of that command. Nothing
in the device keeps a worker from overwriting an entry that is not read yet, so the law is for hosts
that never have more commands outstanding on a completion queue than it has entries (`InCredit`). A
queue is created in a slot only when all commands for the last one have been ended.

`Delivers` is the invariant for one queue: what the host has seen is a beginning of what was posted,
the rest is in the ring and in front of the host's phase, and every post is for a command of the
queue that is no longer outstanding. A visit that posts adds to the end (`Delivers.visit`), a read
takes from the front; all other steps are the `SameFor` of the queue.

The ring is taken zeroed when the queue is created, and the host polls: interrupts are in
`Laws/Io/Interrupts`. The key-value branch of the worker is left out.
-/

set_option autoImplicit false

namespace NvmeVirt

/-- What the host keeps to. -/
def InCredit {σ : Type} (s : HostRun σ) : HostEvent → Prop
  | .device .attempt => ∀ poll sq cq, s.device.dispatcher = .polling poll →
      s.device.ctrl.sqes poll.sqid = some sq → s.device.ctrl.cqes sq.cqid = some cq →
      s.taken sq.cqid < (s.seen sq.cqid).length + cq.queueSize
  | .device (.adminReq _ cmd) => cmd.opcode = .createCq →
      ∀ k job, s.device.CommandFor cmd.qid k job → ¬ s.device.Unended k
  | _ => True

/-- Every command the dispatcher has taken for the queue `c` is with it, with a worker, or posted; what
was posted is in the ring until the host reads it. `pending` are the commands with the workers. -/
structure Delivers {σ : Type} (s : HostRun σ) (c : Nat) (pending : List (Nat × Nat)) : Prop where
  mem : ∀ k, k ∈ pending ↔ (∃ job, s.device.CommandFor c k job) ∧ s.device.Unended k
  nodup : pending.Nodup
  count : (s.posts c).length + pending.length + s.device.dispatcher.waiting c ≤ s.taken c
  room : ∀ cq, s.device.ctrl.cqes c = some cq → s.taken c ≤ (s.seen c).length + cq.queueSize
  ring : ∀ cq, s.device.ctrl.cqes c = some cq → RingPosts cq (s.posts c)
  seen : s.seen c <+: (s.posts c).map Post.entry
  keys : ((s.posts c).map Post.key).Nodup
  posts : ∀ p ∈ s.posts c, p.IsFor s.device c ∧ ¬ s.device.Unended p.key
  gens : ∀ k job, s.device.CommandFor c k job → (s.device.queuedFor k.1 k.2).2 ≤ s.device.cqGen c
  ended : ∀ k job, s.device.CommandFor c k job →
    (s.device.queuedFor k.1 k.2).2 = s.device.cqGen c → ¬ s.device.Unended k →
    k ∈ (s.posts c).map Post.key

section Steps

variable {σ : Type} {fns : NvmevNs σ} {fresh : σ → Prop} {s s' : HostRun σ} {d d' : DeviceRun σ}
  {c : Nat} {pending : List (Nat × Nat)}

/-! ## Steps -/

/-- A completion stays that of its command. -/
theorem Post.IsFor.grown {p : Post} (h : p.IsFor d c)
    (hcommands : ∀ k job, d.CommandFor c k job → d'.CommandFor c k job) : p.IsFor d' c := by
  obtain ⟨sqid, slot, id, ret, hjob, hentry⟩ := h
  have hfor : d.CommandFor c p.key (.request sqid c slot id ret) := ⟨hjob, decide_eq_true rfl⟩
  exact ⟨sqid, slot, id, ret, (hcommands _ _ hfor).1, hentry⟩

/-- It is the completion of some command. -/
theorem Post.IsFor.commandFor {p : Post} (h : p.IsFor d c) : ∃ job, d.CommandFor c p.key job := by
  obtain ⟨sqid, slot, id, ret, hjob, _⟩ := h
  exact ⟨_, hjob, decide_eq_true rfl⟩

/-- A step that changes nothing for the commands of the queue. -/
theorem Delivers.same (h : Delivers s c pending) (hsame : SameFor s.device s'.device c)
    (hposts : s'.posts c = s.posts c) (hseen : s'.seen c = s.seen c)
    (hcount : s'.device.dispatcher.waiting c + s.taken c ≤
      s.device.dispatcher.waiting c + s'.taken c)
    (hroom : ∀ cq, s'.device.ctrl.cqes c = some cq →
      s'.taken c ≤ (s.seen c).length + cq.queueSize) : Delivers s' c pending where
  mem k := by
    rw [h.mem]
    constructor
    · rintro ⟨⟨job, hfor⟩, hopen⟩
      exact ⟨⟨job, (hsame.commands k job).mpr hfor⟩, (hsame.unended k job hfor).mpr hopen⟩
    · rintro ⟨⟨job, hfor'⟩, hopen⟩
      have hfor := (hsame.commands k job).mp hfor'
      exact ⟨⟨job, hfor⟩, (hsame.unended k job hfor).mp hopen⟩
  nodup := h.nodup
  count := by
    have hold := h.count
    rw [hposts]
    omega
  room cq hcq := by
    rw [hseen]
    exact hroom cq hcq
  ring cq hcq := by
    rw [hposts]
    exact h.ring cq (hsame.cqes cq hcq)
  seen := by
    rw [hposts, hseen]
    exact h.seen
  keys := by
    rw [hposts]
    exact h.keys
  posts p hp := by
    rw [hposts] at hp
    obtain ⟨hfor, hended⟩ := h.posts p hp
    obtain ⟨job, hcommand⟩ := hfor.commandFor
    exact ⟨hfor.grown fun k job => (hsame.commands k job).mpr,
      fun hopen => hended ((hsame.unended _ job hcommand).mp hopen)⟩
  gens k job hfor' := by
    have hfor := (hsame.commands k job).mp hfor'
    rw [hsame.queuedFor k job hfor, hsame.cqGen]
    exact h.gens k job hfor
  ended k job hfor' hgen hended := by
    have hfor := (hsame.commands k job).mp hfor'
    rw [hsame.queuedFor k job hfor, hsame.cqGen] at hgen
    rw [hposts]
    exact h.ended k job hfor hgen fun hopen => hended ((hsame.unended k job hfor).mpr hopen)

/-- A completion of the queue is posted. -/
theorem Delivers.posted (h : Delivers s c pending) {p : Post}
    (hdone : Completes s.device s'.device c p) (hposts : s'.posts c = s.posts c ++ [p])
    (hwaiting : s'.device.dispatcher = s.device.dispatcher) (htaken : s'.taken c = s.taken c)
    (hseen : s'.seen c = s.seen c) : Delivers s' c (pending.erase p.key) := by
  obtain ⟨cq, r, hcq, hentry, hcq'⟩ := hdone.filled
  have hcommands : ∀ k job, s'.device.CommandFor c k job ↔ s.device.CommandFor c k job := by
    intro k job
    unfold DeviceRun.CommandFor
    rw [hdone.jobs]
  have hpending : p.key ∈ pending := (h.mem _).mpr ⟨hdone.isFor.commandFor, hdone.unended⟩
  constructor
  · intro k
    rw [h.nodup.mem_erase_iff, h.mem, hdone.ends]
    simp only [hcommands]
    exact ⟨fun ⟨hne, hfor, hold⟩ => ⟨hfor, hold, hne⟩, fun ⟨hfor, hold, hne⟩ => ⟨hne, hfor, hold⟩⟩
  · exact h.nodup.erase _
  · have hold := h.count
    have hlength := List.length_erase_of_mem hpending
    have hpos := List.length_pos_of_mem hpending
    rw [hposts, hwaiting, htaken, List.length_append, List.length_singleton]
    omega
  · intro cq'' hcq''
    obtain rfl := Option.some.inj (hcq'.symm.trans hcq'')
    rw [htaken, hseen]
    exact h.room cq hcq
  · intro cq'' hcq''
    obtain rfl := Option.some.inj (hcq'.symm.trans hcq'')
    rw [hposts]
    exact (h.ring cq hcq).fill hentry
  · rw [hposts, hseen, List.map_append]
    exact h.seen.trans (List.prefix_append _ _)
  · rw [hposts, List.map_append]
    refine List.nodup_append.mpr ⟨h.keys, List.nodup_singleton _, fun k hk k' hk' heq => ?_⟩
    obtain rfl := List.mem_singleton.mp hk'
    obtain ⟨q, hq, hqk⟩ := List.mem_map.mp hk
    -- what was posted before is of another command: that one has been ended
    apply (h.posts q hq).2
    rw [hqk, heq]
    exact hdone.unended
  · intro q hq
    rw [hposts] at hq
    have hgrown : ∀ {q : Post}, q.IsFor s.device c → q.IsFor s'.device c :=
      fun hfor => hfor.grown fun k job => (hcommands k job).mpr
    rcases List.mem_append.mp hq with hin | hin
    · obtain ⟨hfor, hended⟩ := h.posts q hin
      exact ⟨hgrown hfor, fun hstill => hended ((hdone.ends _).mp hstill).1⟩
    · obtain rfl := List.mem_singleton.mp hin
      exact ⟨hgrown hdone.isFor, fun hstill => ((hdone.ends _).mp hstill).2 rfl⟩
  · intro k job hfor
    rw [hdone.queuedFor, hdone.cqGen]
    exact h.gens k job ((hcommands k job).mp hfor)
  · intro k job hfor hgen hended
    rw [hdone.queuedFor, hdone.cqGen] at hgen
    rw [hposts, List.map_append]
    by_cases hk : k = p.key
    · exact List.mem_append_right _ (List.mem_singleton.mpr hk)
    · exact List.mem_append_left _ (h.ended k job ((hcommands k job).mp hfor) hgen
        fun hold => hended ((hdone.ends k).mpr ⟨hold, hk⟩))

/-! ### A command is given to a worker -/

/-- A job that is just queued has not been ended. -/
theorem WorkerRun.fresh_unfinished {run : WorkerRun} (h : workerRuns.Reachable run) :
    run.Unfinished run.jobs.length := by
  obtain ⟨_, _, _, hrun⟩ := workerRuns_integrity.reachable h
  intro e he hserial
  obtain ⟨_, hjob, _⟩ := hrun.timely e he
  exact absurd hserial (Nat.ne_of_lt (List.getElem?_eq_some_iff.mp hjob).1)

/-- The job a worker gets next. -/
def DeviceRun.nextKey (d : DeviceRun σ) (w : Nat) : Nat × Nat := (w, (d.workers w).jobs.length)

/-- A job given to a worker is one more command for its queue. -/
theorem DeviceRun.gave_commandFor {w : Nat} {worker' : IoWorker} {job : IoJob}
    {dispatcher : Dispatcher} (k : Nat × Nat) (job' : IoJob) :
    (d.gave w worker' job dispatcher).CommandFor c k job' ↔
      d.CommandFor c k job' ∨ k = d.nextKey w ∧ job' = job ∧ job.completesTo c = true := by
  obtain ⟨v, m⟩ := k
  show (Function.update d.workers w ((d.workers w).queue worker' job) v).jobs[m]? = some job' ∧ _ ↔
    (d.workers v).jobs[m]? = some job' ∧ _ ∨ _
  by_cases hv : v = w
  · subst hv
    rw [Function.update_self]
    show ((d.workers v).jobs ++ [job])[m]? = some job' ∧ _ ↔ _
    rcases Nat.lt_trichotomy m (d.workers v).jobs.length with hm | hm | hm
    · have hne : (v, m) ≠ d.nextKey v := fun heq => Nat.ne_of_lt hm (congrArg Prod.snd heq)
      rw [List.getElem?_append_left hm]
      exact ⟨.inl, fun hor => hor.resolve_right fun hnext => hne hnext.1⟩
    · rw [hm, List.getElem?_concat_length, List.getElem?_eq_none (Nat.le_refl _)]
      constructor
      · rintro ⟨hjob, hto⟩
        obtain rfl := Option.some.inj hjob
        exact .inr ⟨rfl, rfl, hto⟩
      · rintro (⟨hnone, _⟩ | ⟨_, rfl, hto⟩)
        · cases hnone
        · exact ⟨rfl, hto⟩
    · have hne : (v, m) ≠ d.nextKey v := fun heq => Nat.ne_of_gt hm (congrArg Prod.snd heq)
      rw [List.getElem?_eq_none (Nat.le_of_lt hm), List.getElem?_eq_none (by simp; omega)]
      exact ⟨.inl, fun hor => hor.resolve_right fun hnext => hne hnext.1⟩
  · have hne : (v, m) ≠ d.nextKey w := fun heq => hv (congrArg Prod.fst heq)
    rw [Function.update_of_ne hv]
    exact ⟨.inl, fun hor => hor.resolve_right fun hnext => hne hnext.1⟩

/-- The next job of a worker is none yet. -/
theorem DeviceRun.not_commandFor_nextKey {w : Nat} {job : IoJob} :
    ¬ d.CommandFor c (d.nextKey w) job := by
  rintro ⟨hjob, _⟩
  exact absurd (List.getElem?_eq_some_iff.mp hjob).1 (Nat.lt_irrefl _)

/-- Giving a job ends none. -/
theorem DeviceRun.gave_unended {w : Nat} {worker' : IoWorker} {job : IoJob}
    {dispatcher : Dispatcher} (k : Nat × Nat) :
    (d.gave w worker' job dispatcher).Unended k ↔ d.Unended k := by
  refine WorkerRun.unfinished_congr ?_ k.2
  show (Function.update d.workers w ((d.workers w).queue worker' job) k.1).log = _
  by_cases hw : k.1 = w
  · rw [hw, Function.update_self]
    rfl
  · rw [Function.update_of_ne hw]

theorem DeviceRun.gave_queuedFor {w : Nat} {worker' : IoWorker} {job : IoJob}
    {dispatcher : Dispatcher} {k : Nat × Nat} (hk : k ≠ d.nextKey w) :
    (d.gave w worker' job dispatcher).queuedFor k.1 k.2 = d.queuedFor k.1 k.2 := by
  show Function.update d.queuedFor w _ k.1 k.2 = _
  by_cases hw : k.1 = w
  · have hn : k.2 ≠ (d.workers w).jobs.length := fun hn => hk (Prod.ext hw hn)
    rw [hw, Function.update_self, Function.update_of_ne hn]
  · rw [Function.update_of_ne hw]

theorem DeviceRun.gave_queuedFor_next {w : Nat} {worker' : IoWorker} {job : IoJob}
    {dispatcher : Dispatcher} (hto : job.completesTo c = true) :
    ((d.gave w worker' job dispatcher).queuedFor (d.nextKey w).1 (d.nextKey w).2).2 = d.cqGen c := by
  show (Function.update d.queuedFor w (Function.update (d.queuedFor w) (d.workers w).jobs.length
    (d.incarnations job)) w (d.workers w).jobs.length).2 = _
  rw [Function.update_self, Function.update_self]
  cases job with
  | request sqid cqid slot id ret =>
    obtain rfl := of_decide_eq_true hto
    rfl
  | internal sqid nsecsTarget writeBuffer buffsToRelease => cases hto

/-- A job for another queue. -/
theorem SameFor.gave {w : Nat} {worker' : IoWorker} {job : IoJob} {dispatcher : Dispatcher}
    (hto : ¬ job.completesTo c = true) : SameFor d (d.gave w worker' job dispatcher) c where
  cqes _ hcq := hcq
  commands k job' := by
    rw [DeviceRun.gave_commandFor]
    exact ⟨fun hor => hor.resolve_right fun hnext => hto hnext.2.2, .inl⟩
  unended k _ _ := DeviceRun.gave_unended k
  queuedFor k job' hfor := DeviceRun.gave_queuedFor fun hk =>
    DeviceRun.not_commandFor_nextKey (hk ▸ hfor)
  cqGen := rfl

/-- A command for the queue is given to a worker. -/
theorem Delivers.gave (h : Delivers s c pending) {w : Nat} {worker' : IoWorker} {job : IoJob}
    {poll : SqPoll} {ans : ProcAnswer} {todo : List IoJob}
    (hworker : workerRuns.Reachable (s.device.workers w))
    (hat : s.device.dispatcher = .handing poll ans (job :: todo))
    (hto : job.completesTo c = true) :
    Delivers { s with device := s.device.gave w worker' job (.handing poll ans todo) } c
      (s.device.nextKey w :: pending) where
  mem k := by
    rw [List.mem_cons, h.mem, DeviceRun.gave_unended]
    simp only [DeviceRun.gave_commandFor]
    constructor
    · rintro (rfl | ⟨⟨job', hfor⟩, hopen⟩)
      · exact ⟨⟨job, .inr ⟨rfl, rfl, hto⟩⟩, WorkerRun.fresh_unfinished hworker⟩
      · exact ⟨⟨job', .inl hfor⟩, hopen⟩
    · rintro ⟨⟨job', hfor | ⟨hk, _, _⟩⟩, hopen⟩
      · exact .inr ⟨⟨job', hfor⟩, hopen⟩
      · exact .inl hk
  nodup := List.nodup_cons.mpr ⟨fun hin =>
    have ⟨⟨_, hfor⟩, _⟩ := (h.mem _).mp hin
    DeviceRun.not_commandFor_nextKey hfor, h.nodup⟩
  count := by
    have hold := h.count
    rw [hat] at hold
    have hwaiting : (Dispatcher.handing poll ans (job :: todo)).waiting c =
        todo.countP (IoJob.completesTo c) + 1 := List.countP_cons_of_pos hto
    rw [hwaiting] at hold
    show (s.posts c).length + (pending.length + 1) + todo.countP (IoJob.completesTo c) ≤ s.taken c
    omega
  room := h.room
  ring := h.ring
  seen := h.seen
  keys := h.keys
  posts p hp := by
    obtain ⟨hfor, hended⟩ := h.posts p hp
    exact ⟨hfor.grown fun k job' hcommand => (DeviceRun.gave_commandFor k job').mpr (.inl hcommand),
      fun hopen => hended ((DeviceRun.gave_unended _).mp hopen)⟩
  gens k job' hfor := by
    rcases (DeviceRun.gave_commandFor k job').mp hfor with hold | ⟨rfl, _, _⟩
    · rw [DeviceRun.gave_queuedFor fun hk => DeviceRun.not_commandFor_nextKey (hk ▸ hold)]
      exact h.gens k job' hold
    · rw [DeviceRun.gave_queuedFor_next hto]
      exact Nat.le_refl _
  ended k job' hfor hgen hended := by
    rw [DeviceRun.gave_unended] at hended
    rcases (DeviceRun.gave_commandFor k job').mp hfor with hold | ⟨rfl, _, _⟩
    · rw [DeviceRun.gave_queuedFor fun hk => DeviceRun.not_commandFor_nextKey (hk ▸ hold)] at hgen
      exact h.ended k job' hold hgen hended
    · exact absurd (WorkerRun.fresh_unfinished hworker) hended

/-! ### The other steps -/

/-- A step that leaves the queue, the jobs and what was done. -/
theorem SameFor.of_eq (hcqes : ∀ cq, d'.ctrl.cqes c = some cq → d.ctrl.cqes c = some cq)
    (hjobs : ∀ w, (d'.workers w).jobs = (d.workers w).jobs)
    (hlogs : ∀ w, (d'.workers w).log = (d.workers w).log) (hqueued : d'.queuedFor = d.queuedFor)
    (hgen : d'.cqGen c = d.cqGen c) : SameFor d d' c where
  cqes := hcqes
  commands k job := by
    unfold DeviceRun.CommandFor
    rw [hjobs]
  unended k _ _ := WorkerRun.unfinished_congr (hlogs k.1) k.2
  queuedFor k _ _ := by rw [hqueued]
  cqGen := hgen

/-- A step that takes no command, posts nothing and gives no command of the queue to a worker. -/
theorem Delivers.still (h : Delivers s c pending) (hsame : SameFor s.device d c)
    (hwaiting : d.dispatcher.waiting c ≤ s.device.dispatcher.waiting c) :
    Delivers { s with device := d } c pending :=
  h.same hsame rfl rfl (Nat.add_le_add_right hwaiting _) fun cq hcq => h.room cq (hsame.cqes cq hcq)

/-- The queue is created, once the commands for the last one have been ended. -/
theorem Delivers.created (h : Delivers s c pending) (cmd : AdminCommand)
    (hall : ∀ k job, s.device.CommandFor c k job → ¬ s.device.Unended k)
    (hidle : s'.device.dispatcher = .idle)
    (hcq : s'.device.ctrl.cqes c = some (Controller.newCompletionQueue cmd))
    (hworkers : s'.device.workers = s.device.workers)
    (hqueued : s'.device.queuedFor = s.device.queuedFor)
    (hgen : s'.device.cqGen c = s.device.cqGen c + 1) (htaken : s'.taken c = 0)
    (hposts : s'.posts c = []) (hseen : s'.seen c = []) : Delivers s' c [] := by
  have hcommands : ∀ k job, s'.device.CommandFor c k job ↔ s.device.CommandFor c k job := by
    intro k job
    unfold DeviceRun.CommandFor
    rw [hworkers]
  have hunended : ∀ k, s'.device.Unended k ↔ s.device.Unended k := by
    intro k
    unfold DeviceRun.Unended
    rw [hworkers]
  have hnone : pending = [] := by
    refine List.eq_nil_iff_forall_not_mem.mpr fun k hk => ?_
    obtain ⟨⟨job, hfor⟩, hopen⟩ := (h.mem k).mp hk
    exact hall k job hfor hopen
  constructor
  · intro k
    rw [← hnone, h.mem, hunended]
    simp only [hcommands]
  · exact List.nodup_nil
  · rw [hposts, hidle]
    exact Nat.zero_le _
  · intro cq _
    rw [htaken]
    exact Nat.zero_le _
  · intro cq hcq'
    obtain rfl := Option.some.inj (hcq.symm.trans hcq')
    rw [hposts]
    exact .created cmd
  · rw [hseen]
    exact List.nil_prefix
  · rw [hposts]
    exact List.nodup_nil
  · intro p hp
    rw [hposts] at hp
    cases hp
  · intro k job hfor
    rw [hqueued, hgen]
    exact Nat.le_succ_of_le (h.gens k job ((hcommands k job).mp hfor))
  · intro k job hfor hsame
    rw [hqueued, hgen] at hsame
    have hle := h.gens k job ((hcommands k job).mp hfor)
    omega

theorem HostRun.took_seen (s : HostRun σ) (cq : CompletionQueue) : (s.took c cq).seen c =
    s.seen c ++ [cq.cq ((s.seen c).length % cq.queueSize)] :=
  Function.update_self ..

/-- The host reads an entry. -/
theorem Delivers.took (h : Delivers s c pending) {cqid : Nat} {cq : CompletionQueue}
    (hcq : s.device.ctrl.cqes cqid = some cq) (hready : s.Ready cqid cq) :
    Delivers (s.took cqid cq) c pending := by
  by_cases hc : c = cqid
  · subst hc
    have hring := h.ring cq hcq
    refine ⟨h.mem, h.nodup, h.count, fun cq' hcq' => ?_, h.ring, ?_, h.keys, h.posts, h.gens, h.ended⟩
    · have hroom := h.room cq' hcq'
      rw [s.took_seen, List.length_append]
      show s.taken c ≤ _
      omega
    · rw [s.took_seen]
      refine hring.holds.take h.seen ?_ hready
      have hcount := h.count
      have hroom := h.room cq hcq
      rw [List.length_map]
      omega
  · have hother : (s.took cqid cq).seen c = s.seen c := Function.update_of_ne hc ..
    refine ⟨h.mem, h.nodup, h.count, fun cq' hcq' => ?_, h.ring, ?_, h.keys, h.posts, h.gens, h.ended⟩
    · rw [hother]
      exact h.room cq' hcq'
    · rw [hother]
      exact h.seen

/-- A call of `proc_io_cmd` takes one command at most, and that is for the queue of its submission
queue. -/
theorem ProcAnswer.countP_jobs (ans : ProcAnswer) (sqid cqid sqEntry : Nat) :
    (ans.jobs sqid cqid sqEntry).countP (IoJob.completesTo c) ≤ if c = cqid then 1 else 0 := by
  have hinternal : ∀ ops : List ScheduledOp, (ops.map fun op => IoJob.internal sqid op.nsecsTarget
      op.writeBuffer op.buffsToRelease).countP (IoJob.completesTo c) = 0 := by
    intro ops
    rw [List.countP_eq_zero]
    intro job hjob
    obtain ⟨op, _, rfl⟩ := List.mem_map.mp hjob
    exact Bool.false_ne_true
  unfold ProcAnswer.jobs
  rw [List.countP_append, hinternal, Nat.zero_add]
  split
  · by_cases hc : c = cqid
    · rw [if_pos hc]
      exact List.countP_le_length
    · rw [List.countP_cons_of_neg fun hto => hc (of_decide_eq_true hto).symm]
      exact Nat.zero_le _
  · exact Nat.zero_le _

/-- An admin command leaves the queue, or makes a new one in credit. -/
theorem Delivers.adminReq (h : Delivers s c pending) {eid : Nat} {cmd : AdminCommand}
    {ctrl' : Controller} (hcredit : InCredit s (.device (.adminReq eid cmd)))
    (hidle : s.device.dispatcher = .idle) (hok : s.device.ctrl.procAdminReq eid cmd = .ok ctrl') :
    ∃ pending', Delivers (s.after (.adminReq eid cmd) (s.device.afterAdmin ctrl' cmd)) c pending' := by
  have hcqes := (Controller.procAdminReq_done hok).cqes
  by_cases hcreate : cmd.opcode = .createCq ∧ c = cmd.qid
  · obtain ⟨hop, rfl⟩ := hcreate
    refine ⟨[], h.created cmd (hcredit hop) ?_ ?_ ?_ ?_ ?_ ?_ ?_ ?_⟩
    all_goals
      unfold HostRun.after
      dsimp only
      rw [if_pos hop]
    · exact hidle
    · show ctrl'.cqes cmd.qid = _
      rw [hcqes]
      unfold cqesAfter
      rw [hop]
      exact Function.update_self ..
    · rfl
    · rfl
    · unfold DeviceRun.afterAdmin
      dsimp only
      rw [if_pos hop, Function.update_self]
    · exact Function.update_self ..
    · exact Function.update_self ..
    · exact Function.update_self ..
  · have hother : cmd.opcode = .createCq → c ≠ cmd.qid := fun hop hc => hcreate ⟨hop, hc⟩
    have hsame : SameFor s.device (s.device.afterAdmin ctrl' cmd) c := by
      refine .of_eq (fun cq hcq => ?_) (fun _ => rfl) (fun _ => rfl) rfl ?_
      · have hcq' : ctrl'.cqes c = some cq := hcq
        rw [hcqes] at hcq'
        rcases cqesAfter_cases hcq' with ⟨hop, hc, _⟩ | ⟨_, hold⟩
        · exact absurd hc (hother hop)
        · exact hold
      · unfold DeviceRun.afterAdmin
        dsimp only
        split
        · rename_i hop
          exact Function.update_of_ne (hother hop) ..
        · rfl
    refine ⟨pending, ?_⟩
    by_cases hop : cmd.opcode = .createCq
    · have hafter : s.after (.adminReq eid cmd) (s.device.afterAdmin ctrl' cmd) = _ := if_pos hop
      have hne := hother hop
      refine h.same (by rw [hafter]; exact hsame) ?_ ?_ ?_ fun cq hcq => ?_
      all_goals rw [hafter]
      · exact Function.update_of_ne hne ..
      · exact Function.update_of_ne hne ..
      · show _ ≤ _ + Function.update s.taken cmd.qid 0 c
        rw [Function.update_of_ne hne]
        exact Nat.le_refl _
      · show Function.update s.taken cmd.qid 0 c ≤ _
        rw [Function.update_of_ne hne]
        rw [hafter] at hcq
        exact h.room cq (hsame.cqes cq hcq)
    · have hafter : s.after (.adminReq eid cmd) (s.device.afterAdmin ctrl' cmd) = _ := if_neg hop
      rw [hafter]
      exact h.still hsame (Nat.le_refl _)

/-- The dispatcher takes a command. -/
theorem Delivers.attempt (h : Delivers s c pending) (hcredit : InCredit s (.device .attempt))
    {poll : SqPoll} {sq : SubmissionQueue} {out : ProcOutcome σ} {kept : Nat → Nat}
    (hpolling : s.device.dispatcher = .polling poll)
    (hsq : s.device.ctrl.sqes poll.sqid = some sq) :
    Delivers (s.after .attempt (s.device.answered poll sq out kept)) c pending := by
  have hsame : SameFor s.device (s.device.answered poll sq out kept) c :=
    .of_eq (fun _ hcq => hcq) (fun _ => rfl) (fun _ => rfl) rfl rfl
  refine h.same hsame rfl rfl ?_ fun cq hcq => ?_
  · show _ + s.taken c ≤ _ + (s.taken c + _)
    rw [Nat.add_comm (s.taken c)]
    exact (Nat.le_add_left ..).trans (Nat.le_refl _)
  · have hcount : (s.device.answered poll sq out kept).dispatcher.waiting c ≤ _ :=
      out.answer.countP_jobs poll.sqid sq.cqid poll.sqEntry
    have hroom := h.room cq hcq
    show s.taken c + _ ≤ _
    by_cases hc : c = sq.cqid
    · rw [if_pos hc] at hcount
      have hlt := hcredit poll sq cq hpolling hsq (hc ▸ hcq)
      rw [← hc] at hlt
      omega
    · rw [if_neg hc] at hcount
      omega

/-- A visit posts one completion at most. -/
theorem Delivers.visit (h : Delivers s c pending) {w curr currNsecs : Nat} {bytes : Nat → Nat}
    {o : Outside σ} (hworkers : ∀ w, workerRuns.Reachable (s.device.workers w))
    (hcursor : (s.device.workers w).cursor = some curr)
    (hok : performAll fns s.device.sq bytes (s.device.actions w curr currNsecs) s.device.outside =
      .ok o) :
    ∃ pending', Delivers (s.after (.visit w currNsecs bytes)
      (s.device.visited w curr currNsecs bytes o)) c pending' := by
  cases VisitDone.of_visit hworkers hcursor hok with
  | quiet hsame hposts =>
    refine ⟨pending, h.same (hsame c) ?_ rfl (Nat.le_refl _)
      fun cq hcq => h.room cq ((hsame c).cqes cq hcq)⟩
    show s.posts c ++ s.device.posts w currNsecs c = s.posts c
    rw [hposts, List.append_nil]
  | @posted cqid p hdone hothers hposts =>
    have happend : (s.after (.visit w currNsecs bytes)
        (s.device.visited w curr currNsecs bytes o)).posts c =
        s.posts c ++ s.device.posts w currNsecs c := rfl
    rw [hposts] at happend
    by_cases hc : c = cqid
    · subst hc
      rw [if_pos rfl] at happend
      exact ⟨_, h.posted hdone happend rfl rfl rfl⟩
    · rw [if_neg hc, List.append_nil] at happend
      exact ⟨pending, h.same (hothers c hc) happend rfl (Nat.le_refl _)
        fun cq hcq => h.room cq ((hothers c hc).cqes cq hcq)⟩

/-- Any step of the device. -/
theorem Delivers.device (h : Delivers s c pending) {l : DeviceEvent}
    (hworkers : ∀ w, workerRuns.Reachable (s.device.workers w))
    (hcredit : InCredit s (.device l)) (hstep : DeviceStep fns s.device l d) :
    ∃ pending', Delivers (s.after l d) c pending' := by
  have hkept : ∀ d' : DeviceRun σ, d'.ctrl.cqes = s.device.ctrl.cqes →
      (∀ w, (d'.workers w).jobs = (s.device.workers w).jobs) →
      (∀ w, (d'.workers w).log = (s.device.workers w).log) →
      d'.queuedFor = s.device.queuedFor → d'.cqGen = s.device.cqGen →
      d'.dispatcher.waiting c ≤ s.device.dispatcher.waiting c →
      ∃ pending', Delivers { s with device := d' } c pending' := by
    intro d' hcqes hjobs hlogs hqueued hgen hwaiting
    exact ⟨pending, h.still (.of_eq (fun cq hcq => hcqes ▸ hcq) hjobs hlogs hqueued
      (congrFun hgen c)) hwaiting⟩
  cases hstep with
  | adminReq hidle hok => exact h.adminReq hcredit hidle hok
  | attempt hpolling _ hsq _ => exact ⟨pending, h.attempt hcredit hpolling hsq⟩
  | @gave poll ans job todo worker' hat hqueue =>
    by_cases hto : job.completesTo c = true
    · exact ⟨_, h.gave (hworkers _) hat hto⟩
    · refine ⟨pending, h.still (.gave hto) ?_⟩
      rw [hat]
      exact Nat.le_of_eq (List.countP_cons_of_neg hto).symm
  | lost hat _ =>
    refine hkept _ rfl (fun _ => rfl) (fun _ => rfl) rfl rfl ?_
    rw [hat]
    exact (List.sublist_cons_self _ _).countP_le
  | @passed _ _ _ workers' _ _ _ _ =>
    exact hkept _ rfl (fun w => (s.device.reclaimed_log workers' w).1)
      (fun w => (s.device.reclaimed_log workers' w).2) rfl rfl (Nat.zero_le _)
  | pollSq _ _ _ _ _ | refused _ _ _ | finish _ _ _ =>
    exact hkept _ rfl (fun _ => rfl) (fun _ => rfl) rfl rfl (Nat.zero_le _)
  | @startPass w _ _ =>
    refine hkept _ rfl (s.device.startedPass_jobs w) (fun v => ?_) rfl rfl (Nat.le_refl _)
    show (Function.update s.device.workers w _ v).log = _
    by_cases hv : v = w
    · rw [hv, Function.update_self]
    · rw [Function.update_of_ne hv]
  | visit _ hcursor _ hok => exact h.visit hworkers hcursor hok
  | writeEntry | writeDoorbell =>
    exact hkept _ rfl (fun _ => rfl) (fun _ => rfl) rfl rfl (Nat.le_refl _)

/-! ## Runs -/

/-- The device of a run with its host is in a run of its own. -/
theorem hostRuns_device : (hostRuns fns fresh).Invariant fun s =>
    (deviceRuns fns fresh).Reachable s.device where
  init _ hs := .init hs.1
  step s l s' h hstep := by
    cases hstep with
    | @device l d hdevice =>
      have hafter : (s.after l d).device = d := by
        unfold HostRun.after
        cases l with
        | adminReq eid cmd =>
          dsimp only
          split
          · rfl
          · rfl
        | _ => rfl
      rw [hafter]
      exact h.step hdevice
    | took _ _ => exact h
    | waited _ _ => exact h

/-- Nothing was posted at boot. -/
theorem Delivers.booted (hbooted : Booted fresh s.device) (hposts : s.posts c = [])
    (hseen : s.seen c = []) : Delivers s c [] := by
  have hnone : ∀ k job, ¬ s.device.CommandFor c k job := by
    rintro k job ⟨hjob, _⟩
    rw [(hbooted.workers k.1).2.2.1] at hjob
    cases hjob
  constructor
  · intro k
    exact ⟨fun hk => absurd hk List.not_mem_nil, fun ⟨⟨job, hfor⟩, _⟩ => absurd hfor (hnone k job)⟩
  · exact List.nodup_nil
  · rw [hposts, hbooted.dispatcher]
    exact Nat.zero_le _
  · intro cq hcq
    cases (hbooted.cqes c).symm.trans hcq
  · intro cq hcq
    cases (hbooted.cqes c).symm.trans hcq
  · rw [hseen]
    exact List.nil_prefix
  · rw [hposts]
    exact List.nodup_nil
  · intro p hp
    rw [hposts] at hp
    cases hp
  · exact fun k job hfor => absurd hfor (hnone k job)
  · exact fun k job hfor => absurd hfor (hnone k job)

/-- Over whole runs in credit. -/
theorem hostRuns_deliver : ((hostRuns fns fresh).guarded InCredit).Invariant fun s =>
    (deviceRuns fns fresh).Reachable s.device ∧ ∀ c, ∃ pending, Delivers s c pending := by
  refine hostRuns_device.guarded.of_rel
    (fun s hs c => ⟨[], .booted hs.1 (hs.2.2.1 c) (hs.2.2.2 c)⟩) ?_
  rintro s l s' hreach h ⟨hcredit, hstep⟩ c
  obtain ⟨pending, hc⟩ := h c
  cases hstep with
  | device hdevice => exact hc.device (deviceRuns_workers.reachable hreach) hcredit hdevice
  | took hcq hready => exact ⟨pending, hc.took hcq hready⟩
  | waited _ _ => exact ⟨pending, hc⟩

/-- What the host gets of the completions of a queue. -/
structure HostGets (s : HostRun σ) (c : Nat) : Prop where
  /-- It reads what was posted, in that order. -/
  order : s.seen c <+: (s.posts c).map Post.entry
  /-- It finds an entry exactly while there is one it has not read. -/
  ready : ∀ cq, s.device.ctrl.cqes c = some cq →
    (s.Ready c cq ↔ (s.seen c).length < (s.posts c).length)
  /-- No command is completed twice. -/
  once : ((s.posts c).map Post.key).Nodup
  /-- What is posted is the completion of a command for the queue that has been ended. -/
  right : ∀ p ∈ s.posts c, p.IsFor s.device c ∧ ¬ s.device.Unended p.key
  /-- Every command for the queue as it is that has been ended was completed. -/
  all : ∀ k job, s.device.CommandFor c k job →
    (s.device.queuedFor k.1 k.2).2 = s.device.cqGen c → ¬ s.device.Unended k →
    k ∈ (s.posts c).map Post.key

/-- What the invariant says of the host. -/
theorem Delivers.gets (h : Delivers s c pending) : HostGets s c where
  order := h.seen
  ready cq hcq := by
    have hring := h.ring cq hcq
    have hlength := h.seen.length_le
    have hcount := h.count
    have hroom := h.room cq hcq
    have hiff := hring.holds.ready_iff hlength (by rw [List.length_map]; omega)
    rw [List.length_map] at hiff
    exact hiff
  once := h.keys
  right := h.posts
  all := h.ended

/-- In every run of a device and a host that never has more commands outstanding for a completion
queue than the queue has entries, and that creates a queue in a slot only when all commands for the
last one have been ended, the host gets every completion of the queue once, in the order in which
they were posted; each is the completion of its own command, and no command that was ended goes
without one. The host reads the slots in turn by their phase tag, and the ring is zeroed when it is
created; commands of the key-value FTL, which have a path of their own, are left out. -/
theorem completions_reach_host (h : ((hostRuns fns fresh).guarded InCredit).Reachable s) (c : Nat) :
    HostGets s c := by
  obtain ⟨pending, hdelivers⟩ := (hostRuns_deliver.reachable h).2 c
  exact hdelivers.gets

end Steps

/-! ## Runs of device and host, computed -/

section Computed

variable {σ : Type} {fns : NvmevNs σ} {fresh : σ → Prop} {s s' : HostRun σ} {l : HostEvent}

instance (s : HostRun σ) (cqid : Nat) (cq : CompletionQueue) : Decidable (s.Ready cqid cq) :=
  inferInstanceAs (Decidable (_ = _))

/-- The state after an event, if it can happen. -/
def HostRun.next (fns : NvmevNs σ) (s : HostRun σ) : HostEvent → Option (HostRun σ)
  | .device l => (s.device.next fns .zero l).map (s.after l)
  | .read cqid =>
    (s.device.ctrl.cqes cqid).map fun cq => if s.Ready cqid cq then s.took cqid cq else s

/-- What is computed is a step. -/
theorem HostRun.next_step (h : s.next fns l = some s') : HostStep fns s l s' := by
  cases l with
  | device l =>
    obtain ⟨d, hd, rfl⟩ := Option.map_eq_some_iff.mp h
    exact .device (DeviceRun.next_step hd)
  | read cqid =>
    obtain ⟨cq, hcq, rfl⟩ := Option.map_eq_some_iff.mp h
    by_cases hready : s.Ready cqid cq
    · rw [if_pos hready]
      exact .took hcq hready
    · rw [if_neg hready]
      exact .waited hcq hready

/-- The host has credit for the command at the head, and creates queues before the first command. -/
def inCredit (s : HostRun σ) : HostEvent → Bool
  | .device .attempt =>
    s.device.dispatcher.poll.all fun poll => (s.device.ctrl.sqes poll.sqid).all fun sq =>
      (s.device.ctrl.cqes sq.cqid).all fun cq =>
        s.taken sq.cqid < (s.seen sq.cqid).length + cq.queueSize
  | .device (.adminReq _ _) => s.device.answers.isEmpty
  | _ => true

/-- The check errs on the safe side. -/
theorem inCredit_guard (hreach : (hostRuns fns fresh).Reachable s) (h : inCredit s l = true) :
    InCredit s l := by
  cases l with
  | read cqid => trivial
  | device l =>
    cases l with
    | attempt =>
      intro poll sq cq hat hsq hcq
      unfold inCredit at h
      dsimp only at h
      rw [hat] at h
      unfold Dispatcher.poll at h
      rw [Option.all_some, hsq, Option.all_some, hcq, Option.all_some] at h
      exact of_decide_eq_true h
    | adminReq eid cmd =>
      intro _ k job hfor
      have hanswered := deviceRuns_answered.reachable (hostRuns_device.reachable hreach)
      have hnone := (hanswered.unanswered (List.isEmpty_iff.mp h)).2 k.1
      have hjob := hfor.1
      rw [hnone] at hjob
      cases hjob
    | _ => trivial

/-- A run of a 970PRO of a gibibyte and its host that was computed. -/
def hostExecuted (ls : List HostEvent) : Option (HostRun ConvNs) :=
  (bootedWith (convInitNamespace samsung970Pro gib)).bind fun device =>
    System.follow (fun s l => if inCredit s l = true then HostRun.next convNamespace s l else none)
      { device, taken := fun _ => 0, posts := fun _ => [], seen := fun _ => [] } ls

theorem exists_hostExecuted {ls : List HostEvent} {p : HostRun ConvNs → Bool}
    (h : (hostExecuted ls).any p = true) :
    ∃ s, ((hostRuns convNamespace Fresh970ProGib).guarded InCredit).Reachable s ∧ p s = true := by
  obtain ⟨s', hexecuted, hp⟩ := (Option.any_eq_true _ _).mp h
  obtain ⟨d, hbooted, hfollow⟩ := Option.bind_eq_some_iff.mp hexecuted
  unfold bootedWith at hbooted
  split at hbooted
  · rename_i ns env' hrun
    obtain rfl := Option.some.inj hbooted
    refine ⟨s', System.Reachable.follow (fun t l t' ht hnext => ?_) ls (.init ?_) hfollow, hp⟩
    · split at hnext
      · rename_i hl
        exact ⟨inCredit_guard ht.of_guarded hl, HostRun.next_step hnext⟩
      · cases hnext
    · exact ⟨bootedDevice_booted ⟨_, _, hrun⟩, fun _ => rfl, fun _ => rfl, fun _ => rfl⟩
  · cases hbooted

/-- Completion queue 1 has two entries, and two flushes are completed. -/
def twoFlushes : List DeviceEvent :=
  [.adminReq 0 (queueCommand .createCq 1 1), .adminReq 0 (queueCommand .createSq 1 1023)] ++
    (List.range 3).map (fun n => .writeEntry 1 n { flushEntry with commandId := n + 7 }) ++
    ringEvents 2 ++ acceptEvents 1 ++ acceptEvents 1 ++ .finish :: passEvents 2 (2 ^ 40) fun _ => 0

/-- A third flush is completed. -/
def thirdFlush : List DeviceEvent :=
  ringEvents 3 ++ acceptEvents 1 ++ .finish :: passEvents 1 (2 ^ 41) fun _ => 0

/-- The host reads the first two completions, looks in vain for another one, and reads that of the third
flush when it has come. -/
def threeFlushes : List HostEvent :=
  twoFlushes.map .device ++ [.read 1, .read 1, .read 1] ++ thirdFlush.map .device ++ [.read 1]

/-- With a ring that goes round, and a look of the host that finds no entry. -/
theorem completions_reach_host_three : ∃ s : HostRun ConvNs,
    (s.seen 1).map NvmeCompletion.commandId = [7, 8, 9] ∧ HostGets s 1 := by
  obtain ⟨s, hreach, hends⟩ := @exists_hostExecuted threeFlushes
    (fun s : HostRun ConvNs => decide ((s.seen 1).map NvmeCompletion.commandId = [7, 8, 9]))
    (by decide +kernel)
  exact ⟨s, of_decide_eq_true hends, completions_reach_host hreach 1⟩

end Computed

end NvmeVirt

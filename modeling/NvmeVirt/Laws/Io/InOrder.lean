import NvmeVirt.Lib.Ring
import NvmeVirt.Laws.Io.Execute
import NvmeVirt.Laws.Io.Namespaces

/-!
# Entries are dispatched in order

The head of a submission ring is recomputed from the head of the last poll and the number of passes
of the loop, and stepped slot by slot with a comparison inside the loop. `Progress` says that both
stay where the number of entries accepted since the queue was created puts them, whatever entry the
loop stops at.

`InOrder` says so for a whole device: each queue nobody polls has its old doorbell there, and the
queue of the poll under way has its `Progress`. Each kind of step has a lemma; those at which a head
moves are `InOrder.dispatched`, where an entry is consumed, and `InOrder.finished`, where the loop
leaves the queue. The others leave doorbells and accepted entries alone, or start anew
(`InOrder.adminReq`, a queue created or deleted).

The host keeps its doorbells inside the ring (`DoorbellInRange`); the device does not check that.
Whether the host overwrites an entry before it was fetched is not asked here, and neither is when
the entries are completed.
-/

set_option autoImplicit false

namespace NvmeVirt

/-- The host writes a submission doorbell below the size of its queue. -/
def DoorbellInRange {σ : Type} (s : DeviceRun σ) : DeviceEvent → Prop
  | .writeDoorbell idx value => ∀ qid sq, idx = qid * 2 → s.ctrl.sqes qid = some sq →
      value < sq.queueSize
  | _ => True

/-- The poll the dispatcher is in. -/
def Dispatcher.poll : Dispatcher → Option SqPoll
  | .idle => none
  | .polling poll | .handing poll _ _ => some poll

/-- How far a poll has come on a ring of `size` slots, after `count` entries were accepted. -/
structure Progress (poll : SqPoll) (size count : Nat) : Prop where
  newDb : poll.newDb < size
  oldDb : poll.oldDb < size
  numProc : poll.numProc < size
  newDb_eq : poll.newDb = (poll.oldDb + poll.numProc) % size
  seq : poll.seq ≤ poll.numProc
  sqEntry : poll.sqEntry = (poll.oldDb + poll.seq) % size
  count : count % size = poll.sqEntry

namespace Progress

variable {poll : SqPoll} {sq : SubmissionQueue} {count : Nat}

/-- A poll starts at the old doorbell and has the entries up to the new one before it. -/
theorem start {qid newDb oldDb : Nat} (hnew : newDb < sq.queueSize) (hold : oldDb < sq.queueSize)
    (hcount : count % sq.queueSize = oldDb) :
    Progress (nvmevProcIoSq sq qid newDb oldDb) sq.queueSize count := by
  have hnum : (nvmevProcIoSq sq qid newDb oldDb).numProc =
      if newDb < oldDb then newDb + sq.queueSize - oldDb else newDb - oldDb := rfl
  refine ⟨hnew, hold, ?_, ?_, Nat.zero_le _, ?_, hcount⟩
  · rw [hnum]
    split
    · omega
    · omega
  · show newDb = (oldDb + _) % _
    rw [hnum]
    split
    · have hsum : oldDb + (newDb + sq.queueSize - oldDb) = newDb + sq.queueSize := by omega
      rw [hsum, Nat.add_mod_right, Nat.mod_eq_of_lt hnew]
    · have hsum : oldDb + (newDb - oldDb) = newDb := by omega
      rw [hsum, Nat.mod_eq_of_lt hnew]
  · exact (Nat.mod_eq_of_lt hold).symm

/-- One entry is accepted, and the head is one slot on. -/
theorem next (h : Progress poll sq.queueSize count) (hlt : poll.seq < poll.numProc) :
    Progress (poll.next sq) sq.queueSize (count + 1) := by
  have hpos := (Nat.zero_le _).trans_lt h.oldDb
  have hslot := succ_mod_ring hpos (poll.oldDb + poll.seq)
  rw [← h.sqEntry] at hslot
  refine ⟨h.newDb, h.oldDb, h.numProc, h.newDb_eq, hlt, hslot.symm, ?_⟩
  have hnext := succ_mod_ring hpos count
  rw [h.count] at hnext
  exact hnext

/-- The doorbell the loop would leave behind counts the accepted entries. -/
theorem latestDb (h : Progress poll sq.queueSize count) :
    poll.latestDb sq = count % sq.queueSize := by
  rw [h.count, h.sqEntry]
  rfl

/-- The head is in the part of the ring the poll has to go through. -/
theorem inside (h : Progress poll sq.queueSize count) (hlt : poll.seq < poll.numProc) :
    (poll.sqEntry + sq.queueSize - poll.oldDb) % sq.queueSize <
      (poll.newDb + sq.queueSize - poll.oldDb) % sq.queueSize := by
  rw [h.sqEntry, h.newDb_eq, ring_distance h.oldDb (hlt.trans h.numProc),
    ring_distance h.oldDb h.numProc]
  exact hlt

end Progress

/-- The rings and the entries accepted from them. -/
structure InOrder {σ : Type} (s : DeviceRun σ) : Prop where
  dbs : ∀ qid sq, s.ctrl.sqes qid = some sq → s.ctrl.dbs (qid * 2) < sq.queueSize
  slots : ∀ qid sq, s.ctrl.sqes qid = some sq →
    ∀ i slot, (s.accepted qid)[i]? = some slot → slot = i % sq.queueSize
  oldDbs : ∀ qid sq, s.ctrl.sqes qid = some sq →
    (∀ poll, s.dispatcher.poll = some poll → poll.sqid ≠ qid) →
    s.ctrl.oldDbs (qid * 2) = (s.accepted qid).length % sq.queueSize
  polled : ∀ poll, s.dispatcher.poll = some poll → ∃ sq, s.ctrl.sqes poll.sqid = some sq ∧
    Progress poll sq.queueSize (s.accepted poll.sqid).length
  handing : ∀ poll ans todo, s.dispatcher = .handing poll ans todo → poll.seq < poll.numProc

section Runs

variable {σ : Type} {fns : NvmevNs σ} {fresh : σ → Prop} {s s' : DeviceRun σ} {l : DeviceEvent}

/-- An admin command leaves a queue with its doorbells, or puts a new one with neither entries nor
history. -/
theorem InOrder.adminReq (h : InOrder s) {ctrl' : Controller} {cmd : AdminCommand}
    (hidle : s.dispatcher = .idle) (hdone : AdminDone s.ctrl ctrl' cmd) :
    InOrder (s.afterAdmin ctrl' cmd) := by
  have hnopoll : ∀ poll, s.dispatcher.poll ≠ some poll := by
    intro poll hpoll
    rw [hidle] at hpoll
    exact nomatch hpoll
  -- a queue afterwards is new and empty, or an old one with its doorbells and its history
  have hcases : ∀ qid sq, ctrl'.sqes qid = some sq →
      ((s.afterAdmin ctrl' cmd).accepted qid = [] ∧ ctrl'.dbs (qid * 2) = 0 ∧
        ctrl'.oldDbs (qid * 2) = 0 ∧ 0 < sq.queueSize) ∨
      ((s.afterAdmin ctrl' cmd).accepted qid = s.accepted qid ∧
        ctrl'.dbs (qid * 2) = s.ctrl.dbs (qid * 2) ∧
        ctrl'.oldDbs (qid * 2) = s.ctrl.oldDbs (qid * 2) ∧ s.ctrl.sqes qid = some sq) := by
    intro qid sq hsq
    obtain ⟨hdbs, holdDbs⟩ := hdone.doorbells qid
    rw [hdone.sqes] at hsq
    have haccepted : (s.afterAdmin ctrl' cmd).accepted =
        if cmd.opcode = AdminOpcode.createSq then Function.update s.accepted cmd.qid []
        else s.accepted := rfl
    rcases sqesAfter_cases hsq with ⟨hop, hqid, hnew⟩ | ⟨hother, hold⟩
    · left
      rw [doorbellAfter_created hop hqid] at hdbs holdDbs
      rw [haccepted, if_pos hop, hqid, Function.update_self, ← hqid, hnew]
      exact ⟨rfl, hdbs, holdDbs, Nat.succ_pos _⟩
    · right
      rw [doorbellAfter_same hother] at hdbs holdDbs
      refine ⟨?_, hdbs, holdDbs, hold⟩
      rw [haccepted]
      by_cases hop : cmd.opcode = .createSq
      · rw [if_pos hop, Function.update_of_ne (hother hop)]
      · rw [if_neg hop]
  refine ⟨?_, ?_, ?_, fun poll hpoll => absurd hpoll (hnopoll poll), ?_⟩
  · intro qid sq hsq
    show ctrl'.dbs (qid * 2) < _
    rcases hcases qid sq hsq with ⟨_, hdbs, _, hpos⟩ | ⟨_, hdbs, _, hold⟩
    · rw [hdbs]
      exact hpos
    · rw [hdbs]
      exact h.dbs qid sq hold
  · intro qid sq hsq i slot hslot
    rcases hcases qid sq hsq with ⟨hnil, _⟩ | ⟨hsame, _, _, hold⟩
    · rw [hnil] at hslot
      exact nomatch hslot
    · rw [hsame] at hslot
      exact h.slots qid sq hold i slot hslot
  · intro qid sq hsq _
    show ctrl'.oldDbs (qid * 2) = _
    rcases hcases qid sq hsq with ⟨hnil, _, hzero, _⟩ | ⟨hsame, _, holdDbs, hold⟩
    · rw [hnil, hzero, List.length_nil, Nat.zero_mod]
    · rw [hsame, holdDbs]
      exact h.oldDbs qid sq hold fun poll hpoll => absurd hpoll (hnopoll poll)
  · intro poll ans todo hat
    exact nomatch hidle.symm.trans hat

/-- A queue keeps its size when its statistics change. -/
theorem sqes_resized {sqes : Nat → Option SubmissionQueue} {qid q : Nat}
    {sq sq' x : SubmissionQueue} (hx : Function.update sqes qid (some sq') q = some x)
    (hsq : sqes qid = some sq) (hsize : sq'.queueSize = sq.queueSize) :
    ∃ y, sqes q = some y ∧ x.queueSize = y.queueSize := by
  by_cases hq : q = qid
  · rw [hq, Function.update_self] at hx
    obtain rfl := Option.some.inj hx
    exact ⟨sq, hq ▸ hsq, hsize⟩
  · rw [Function.update_of_ne hq] at hx
    exact ⟨x, hx, rfl⟩

/-- A doorbell in range. -/
theorem InOrder.writeDoorbell (h : InOrder s) {idx value : Nat}
    (hrange : DoorbellInRange s (.writeDoorbell idx value)) :
    InOrder { s with ctrl := { s.ctrl with dbs := Function.update s.ctrl.dbs idx value } } := by
  refine ⟨?_, h.slots, h.oldDbs, h.polled, h.handing⟩
  intro qid sq hsq
  show Function.update s.ctrl.dbs idx value (qid * 2) < _
  by_cases hidx : qid * 2 = idx
  · rw [hidx, Function.update_self]
    exact hrange qid sq hidx.symm hsq
  · rw [Function.update_of_ne hidx]
    exact h.dbs qid sq hsq

/-- The dispatcher comes to a queue whose doorbell has moved. -/
theorem InOrder.pollSq (h : InOrder s) {qid : Nat} {sq : SubmissionQueue}
    (hidle : s.dispatcher = .idle) (hsq : s.ctrl.sqes qid = some sq) :
    InOrder (s.polls qid sq) := by
  have hcount := h.oldDbs qid sq hsq fun poll hpoll => by
    rw [hidle] at hpoll
    exact nomatch hpoll
  have hold : s.ctrl.oldDbs (qid * 2) < sq.queueSize := by
    rw [hcount]
    exact Nat.mod_lt _ ((Nat.zero_le _).trans_lt (h.dbs qid sq hsq))
  refine ⟨h.dbs, h.slots, ?_, ?_, fun _ _ _ hhanding => Dispatcher.noConfusion hhanding⟩
  · intro q x hx hother
    exact h.oldDbs q x hx fun poll hpoll => by
      rw [hidle] at hpoll
      exact nomatch hpoll
  · intro poll hpoll
    obtain rfl := Option.some.inj hpoll
    exact ⟨sq, hsq, .start (h.dbs qid sq hsq) hold hcount.symm⟩

/-- `proc_io_cmd` has answered, and the head is where it was. -/
theorem InOrder.answered (h : InOrder s) {poll : SqPoll} {sq : SubmissionQueue}
    {out : ProcOutcome σ} {kept : Nat → Nat} (hat : s.dispatcher = .polling poll)
    (hlt : poll.seq < poll.numProc) : InOrder (s.answered poll sq out kept) := by
  have hpoll : s.dispatcher.poll = some poll := by
    rw [hat]
    rfl
  refine ⟨h.dbs, h.slots, ?_, ?_, ?_⟩
  · intro q x hx hother
    apply h.oldDbs q x hx
    intro p hp
    rw [hpoll] at hp
    obtain rfl := Option.some.inj hp
    exact hother poll rfl
  · intro p hp
    obtain rfl := Option.some.inj hp
    exact h.polled poll hpoll
  · intro p ans todo hp
    obtain ⟨rfl, _, _⟩ := Dispatcher.handing.inj hp
    exact hlt

/-- Giving a job to a worker leaves the poll where it is. -/
theorem InOrder.handOver (h : InOrder s) {poll : SqPoll} {ans : ProcAnswer} {job : IoJob}
    {todo : List IoJob} (hat : s.dispatcher = .handing poll ans (job :: todo))
    (hctrl : s'.ctrl = s.ctrl) (haccepted : s'.accepted = s.accepted)
    (hat' : s'.dispatcher = .handing poll ans todo) : InOrder s' := by
  have hpoll : s'.dispatcher.poll = s.dispatcher.poll := by
    rw [hat, hat']
    rfl
  refine ⟨?_, ?_, ?_, ?_, ?_⟩
  · rw [hctrl]
    exact h.dbs
  · rw [hctrl, haccepted]
    exact h.slots
  · rw [hctrl, haccepted, hpoll]
    exact h.oldDbs
  · rw [hctrl, haccepted, hpoll]
    exact h.polled
  · intro p a t hp
    rw [hat'] at hp
    obtain ⟨rfl, _, _⟩ := Dispatcher.handing.inj hp
    exact h.handing _ _ _ hat

/-- An accepted entry is consumed. -/
theorem InOrder.dispatched (h : InOrder s) {poll : SqPoll} {ans : ProcAnswer}
    {sq : SubmissionQueue} {workers' : Nat → IoWorker}
    (hat : s.dispatcher = .handing poll ans []) (hsq : s.ctrl.sqes poll.sqid = some sq) :
    InOrder (s.dispatched poll sq ans.entry.ioSize workers') := by
  have hpoll : s.dispatcher.poll = some poll := by
    rw [hat]
    rfl
  obtain ⟨sq', hsq', hprogress⟩ := h.polled poll hpoll
  obtain rfl : sq' = sq := Option.some.inj (hsq'.symm.trans hsq)
  have hlength : ((s.dispatched poll sq' ans.entry.ioSize workers').accepted poll.sqid).length =
      (s.accepted poll.sqid).length + 1 := by
    show (Function.update s.accepted poll.sqid _ poll.sqid).length = _
    rw [Function.update_self, List.length_append, List.length_singleton]
  refine ⟨?_, ?_, ?_, ?_, fun _ _ _ hhanding => Dispatcher.noConfusion hhanding⟩
  · intro q x hx
    obtain ⟨y, hy, hsize⟩ := sqes_resized hx hsq rfl
    rw [hsize]
    exact h.dbs q y hy
  · intro q x hx i slot hslot
    obtain ⟨y, hy, hsize⟩ := sqes_resized hx hsq rfl
    rw [hsize]
    have hslot : (Function.update s.accepted poll.sqid _ q)[i]? = some slot := hslot
    by_cases hq : q = poll.sqid
    · rw [hq, Function.update_self] at hslot
      rw [hq] at hy
      by_cases hi : i < (s.accepted poll.sqid).length
      · rw [List.getElem?_append_left hi] at hslot
        exact h.slots poll.sqid y hy i slot hslot
      · -- the entry just accepted
        obtain rfl : i = (s.accepted poll.sqid).length := by
          have hbound := (List.getElem?_eq_some_iff.mp hslot).1
          rw [List.length_append, List.length_singleton] at hbound
          omega
        obtain rfl : sq' = y := Option.some.inj (hsq.symm.trans hy)
        rw [List.getElem?_concat_length] at hslot
        rw [← Option.some.inj hslot, hprogress.count]
    · rw [Function.update_of_ne hq] at hslot
      exact h.slots q y hy i slot hslot
  · intro q x hx hother
    have hq : q ≠ poll.sqid := fun heq => hother (poll.next sq') rfl heq.symm
    obtain ⟨y, hy, hsize⟩ := sqes_resized hx hsq rfl
    show s.ctrl.oldDbs (q * 2) = (Function.update s.accepted poll.sqid _ q).length % _
    rw [hsize, Function.update_of_ne hq]
    apply h.oldDbs q y hy
    intro p hp
    rw [hpoll] at hp
    obtain rfl := Option.some.inj hp
    exact hq.symm
  · intro p hp
    obtain rfl := Option.some.inj hp
    refine ⟨sq'.dispatched ans.entry.ioSize, Function.update_self .., ?_⟩
    show Progress _ sq'.queueSize _
    rw [show (poll.next sq').sqid = poll.sqid from rfl, hlength]
    exact hprogress.next (h.handing _ _ _ hat)

/-- The loop ends, and the old doorbell is left at the head. -/
theorem InOrder.finished (h : InOrder s) {poll : SqPoll} {sq : SubmissionQueue}
    (hpoll : s.dispatcher.poll = some poll) (hsq : s.ctrl.sqes poll.sqid = some sq) :
    InOrder (s.finished poll sq) := by
  obtain ⟨sq', hsq', hprogress⟩ := h.polled poll hpoll
  obtain rfl : sq' = sq := Option.some.inj (hsq'.symm.trans hsq)
  refine ⟨?_, ?_, ?_, nofun, fun _ _ _ hhanding => Dispatcher.noConfusion hhanding⟩
  · intro q x hx
    obtain ⟨y, hy, hsize⟩ := sqes_resized hx hsq rfl
    rw [hsize]
    exact h.dbs q y hy
  · intro q x hx
    obtain ⟨y, hy, hsize⟩ := sqes_resized hx hsq rfl
    rw [hsize]
    exact h.slots q y hy
  · intro q x hx _
    obtain ⟨y, hy, hsize⟩ := sqes_resized hx hsq rfl
    show Function.update s.ctrl.oldDbs (poll.sqid * 2) _ (q * 2) = _
    rw [hsize]
    by_cases hq : q = poll.sqid
    · rw [hq] at hy
      obtain rfl : sq' = y := Option.some.inj (hsq.symm.trans hy)
      rw [hq, Function.update_self, hprogress.latestDb]
      rfl
    · have hidx : q * 2 ≠ poll.sqid * 2 := by omega
      rw [Function.update_of_ne hidx]
      apply h.oldDbs q y hy
      intro p hp
      rw [hpoll] at hp
      obtain rfl := Option.some.inj hp
      exact fun heq => hq heq.symm

/-- Workers do not touch the rings. -/
theorem InOrder.visited (h : InOrder s) {w curr currNsecs : Nat} {bytes : Nat → Nat}
    {o : Outside σ}
    (hok : performAll fns s.sq bytes (s.actions w curr currNsecs) s.outside = .ok o) :
    InOrder (s.visited w curr currNsecs bytes o) := by
  obtain ⟨cqes, hctrl⟩ := performAll_ctrl hok
  have hsame : (s.visited w curr currNsecs bytes o).ctrl = { s.ctrl with cqes } := hctrl
  refine ⟨?_, ?_, ?_, ?_, h.handing⟩
  · rw [hsame]
    exact h.dbs
  · rw [hsame]
    exact h.slots
  · rw [hsame]
    exact h.oldDbs
  · rw [hsame]
    exact h.polled

/-- Every step whose doorbell is in range. -/
theorem InOrder.step (h : InOrder s) (hrange : DoorbellInRange s l)
    (hstep : DeviceStep fns s l s') : InOrder s' := by
  cases hstep with
  | writeEntry => exact ⟨h.dbs, h.slots, h.oldDbs, h.polled, h.handing⟩
  | writeDoorbell => exact h.writeDoorbell hrange
  | adminReq hidle hok => exact h.adminReq hidle (Controller.procAdminReq_done hok)
  | pollSq hidle _ _ hsq _ => exact h.pollSq hidle hsq
  | attempt hat hlt _ _ => exact h.answered hat hlt
  | gave hat _ => exact h.handOver hat rfl rfl rfl
  | lost hat _ => exact h.handOver hat rfl rfl rfl
  | passed hat _ hsq _ => exact h.dispatched hat hsq
  | refused hat _ hsq => exact h.finished (by rw [hat]; rfl) hsq
  | finish hat _ hsq => exact h.finished (by rw [hat]; rfl) hsq
  | startPass _ _ => exact ⟨h.dbs, h.slots, h.oldDbs, h.polled, h.handing⟩
  | visit _ _ _ hok => exact h.visited hok

/-- Every run whose doorbells are in range, the queues created and deleted on the way included. -/
theorem deviceRuns_inOrder :
    ((deviceRuns fns fresh).guarded DoorbellInRange).Invariant InOrder where
  init s hs := by
    refine ⟨?_, ?_, ?_, ?_, ?_⟩
    · exact fun qid sq hsq => nomatch (hs.sqes qid).symm.trans hsq
    · exact fun qid sq hsq => nomatch (hs.sqes qid).symm.trans hsq
    · exact fun qid sq hsq => nomatch (hs.sqes qid).symm.trans hsq
    · intro poll hpoll
      rw [hs.dispatcher] at hpoll
      exact nomatch hpoll
    · exact fun poll ans todo hat => nomatch hs.dispatcher.symm.trans hat
  step _ _ _ h hstep := h.step hstep.1 hstep.2

end Runs

section Conv

variable {fresh : ConvNs → Prop} {s : DeviceRun ConvNs}

/-- A refused attempt leaves the namespace, the storage and the submission entries as they were, and
gives nothing to a worker. -/
theorem refused_unchanged {poll : SqPoll} {sq : SubmissionQueue} {env env' : Env}
    {out : ProcOutcome ConvNs}
    (hrun : (nvmevProcIo convNamespace s.ns s.storage (s.sq poll.sqid poll.sqEntry) poll.sqid).run env =
      .ok (out, env')) (hrefused : out.answer.accepted = false) (kept : Nat → Nat) :
    (s.answered poll sq out kept).ns = s.ns ∧ (s.answered poll sq out kept).storage = s.storage ∧
      (s.answered poll sq out kept).sq = s.sq ∧
      out.answer.jobs poll.sqid sq.cqid poll.sqEntry = [] := by
  obtain ⟨houtcome, hstorage, hentry⟩ := (convNamespace_outcome ..).of_run hrun
  have hsame : RefusedWith s.ns out.answer.result.status out := by
    cases houtcome with
    | done haccepted _ _ => exact nomatch hrefused.symm.trans haccepted
    | rejected href _ => exact href.status ▸ href
    | short href _ => exact href.status ▸ href
  refine ⟨hsame.ns, hstorage, ?_, ?_⟩
  · show Function.update s.sq poll.sqid (Function.update (s.sq poll.sqid) poll.sqEntry _) = s.sq
    rw [hentry, Function.update_eq_self, Function.update_eq_self]
  · unfold ProcAnswer.jobs
    rw [hsame.internal, if_neg (by rw [hrefused]; exact Bool.false_ne_true)]
    rfl

/-- Over all polls, whatever is accepted and refused: the entries accepted from a queue since it was
created are those of the slots in cyclic order from 0; between two polls the old doorbell stands
where their number puts it; an attempt is for the slot after the last accepted one, inside the part
of the ring up to the doorbell; and a refused one changes nothing. The host may write any doorbell
below the size of its queue at any time, and any entry; the workers run in between. -/
theorem dispatched_in_order
    (h : ((deviceRuns convNamespace fresh).guarded DoorbellInRange).Reachable s) {qid : Nat}
    {sq : SubmissionQueue} (hsq : s.ctrl.sqes qid = some sq) :
    (∀ i slot, (s.accepted qid)[i]? = some slot → slot = i % sq.queueSize) ∧
    ((∀ poll, s.dispatcher.poll = some poll → poll.sqid ≠ qid) →
      s.ctrl.oldDbs (qid * 2) = (s.accepted qid).length % sq.queueSize) ∧
    ∀ poll s', s.dispatcher = .polling poll → poll.sqid = qid →
      DeviceStep convNamespace s .attempt s' →
      poll.sqEntry = (s.accepted qid).length % sq.queueSize ∧
      (poll.sqEntry + sq.queueSize - poll.oldDb) % sq.queueSize <
        (poll.newDb + sq.queueSize - poll.oldDb) % sq.queueSize ∧
      ∀ ans todo, s'.dispatcher = .handing poll ans todo → ans.accepted = false →
        s'.ns = s.ns ∧ s'.storage = s.storage ∧ s'.sq = s.sq ∧ todo = [] := by
  have hin := deviceRuns_inOrder.reachable h
  refine ⟨hin.slots qid sq hsq, hin.oldDbs qid sq hsq, ?_⟩
  rintro poll s' hat rfl hstep
  obtain ⟨sq', hsq', hprogress⟩ := hin.polled poll (by rw [hat]; rfl)
  obtain rfl : sq' = sq := Option.some.inj (hsq'.symm.trans hsq)
  cases hstep with
  | @attempt poll' sq'' env env' out hat' hlt hsq'' hrun =>
    obtain rfl : poll' = poll := Dispatcher.polling.inj (hat'.symm.trans hat)
    refine ⟨hprogress.count.symm, hprogress.inside hlt, fun ans todo hans hrefused => ?_⟩
    obtain ⟨_, rfl, rfl⟩ := Dispatcher.handing.inj hans
    exact refused_unchanged hrun hrefused _

end Conv

/-! ## A 970PRO of a gibibyte -/

section Gib

/-- A fresh 970PRO namespace of a gibibyte. -/
def Fresh970ProGib (ns : ConvNs) : Prop :=
  ∃ env env', (convInitNamespace samsung970Pro gib).run env = .ok (ns, env')

/-- A 970PRO of a gibibyte. -/
theorem exists_fresh970ProGib : ∃ ns, Fresh970ProGib ns ∧ NsSettled samsung970Pro gib ns ∧
    FreshNs samsung970Pro gib ns := by
  obtain ⟨ns, env', hrun, _⟩ := answers (convInitNamespace970Pro_ensures
    gib_wellFormed.pgsPerBlk_pos gib_wellFormed.pgsPerBlk_le) .zero
  exact ⟨ns, ⟨.zero, env', hrun⟩, convInitNamespace_settled gib_wellFormed (by decide) hrun⟩

/-- A run of such a device that was computed. -/
theorem exists_executedGib {P : DeviceRun ConvNs → DeviceEvent → Prop}
    {check : DeviceRun ConvNs → DeviceEvent → Bool} {ls : List DeviceEvent}
    {p : DeviceRun ConvNs → Bool}
    (hcheck : ∀ s l s', (deviceRuns convNamespace Fresh970ProGib).Reachable s → check s l = true →
      DeviceStep convNamespace s l s' → P s l)
    (h : (executed convNamespace (convInitNamespace samsung970Pro gib) check ls).any p = true) :
    ∃ s, ((deviceRuns convNamespace Fresh970ProGib).guarded P).Reachable s ∧ p s = true :=
  exists_executed (fun _ _ hrun => ⟨_, _, hrun⟩) hcheck h

/-- A write of 512 KiB at the `n`-th half mebibyte. -/
def halfMibEntry (n : Nat) : SqEntry :=
  { flushEntry with opcode := .write, commandId := n, slba := u64 (n * 1024), length := 1023
                    slba_lt := Nat.mod_lt _ (by decide), length_lt := by decide }

/-- Two such writes come to the head of queue 1. The first is accepted and handed over with the releases
of its eight wordlines. -/
def oneOfTwoWrites : List DeviceEvent :=
  submitEvents [halfMibEntry 0, halfMibEntry 1] ++ ringEvents 2 ++ acceptEvents 9

/-- The write buffer of 768 KiB has no room left for the second. -/
def twoWrites : List DeviceEvent := oneOfTwoWrites ++ [.attempt, .finish]

/-- The doorbell of a submission queue is rung below the size of the queue. -/
def ringsInRange (s : DeviceRun ConvNs) : DeviceEvent → Bool
  | .writeDoorbell idx value =>
    idx % 2 = 1 || (s.ctrl.sqes (idx / 2)).all fun sq => value < sq.queueSize
  | _ => true

/-- The check is the condition. -/
theorem ringsInRange_doorbell {s : DeviceRun ConvNs} {l : DeviceEvent}
    (h : ringsInRange s l = true) : DoorbellInRange s l := by
  cases l with
  | writeDoorbell idx value =>
    rintro qid sq rfl hsq
    unfold ringsInRange at h
    dsimp only at h
    rw [Nat.mul_div_cancel _ (by decide : 0 < 2), hsq, Nat.mul_mod_left] at h
    exact of_decide_eq_true h
  | _ => trivial

/-- With an accepted and a refused attempt behind one doorbell. -/
theorem dispatched_in_order_two : ∃ s : DeviceRun ConvNs,
    ((deviceRuns convNamespace Fresh970ProGib).guarded DoorbellInRange).Reachable s ∧
      s.answers.map (fun a => a.answer.accepted) = [true, false] ∧ s.ctrl.dbs 2 = 2 ∧
      s.accepted 1 = [0] ∧ s.ctrl.oldDbs 2 = 1 := by
  obtain ⟨s, hreach, hends⟩ := @exists_executedGib DoorbellInRange ringsInRange twoWrites
    (fun s => s.answers.map (fun a => a.answer.accepted) = [true, false] ∧ s.ctrl.dbs 2 = 2 ∧
      s.accepted 1 = [0] ∧ s.dispatcher.poll = none ∧
        (s.ctrl.sqes 1).map SubmissionQueue.queueSize = some 1024)
    (fun _ _ _ _ hl _ => ringsInRange_doorbell hl) (by decide +kernel)
  obtain ⟨hflags, hdb, haccepted, hidle, hqueue⟩ := of_decide_eq_true hends
  obtain ⟨sq, hsq, hsize⟩ := Option.map_eq_some_iff.mp hqueue
  have hold := (dispatched_in_order hreach hsq).2.1 fun poll hpoll =>
    absurd (hidle.symm.trans hpoll) (Option.some_ne_none poll).symm
  rw [haccepted, hsize] at hold
  exact ⟨s, hreach, hflags, hdb, haccepted, hold⟩

end Gib

end NvmeVirt

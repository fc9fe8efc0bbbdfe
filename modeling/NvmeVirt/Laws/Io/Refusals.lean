import NvmeVirt.Laws.Conv.Range
import NvmeVirt.Laws.Io.InOrder

/-!
# Refusals for good

An answer with the bit DNR is for good when the command is answered with that bit in every state the
namespace can still come to, whatever commands it processes and in whatever order the releases that are
on the way reach its write buffer. `conv_read` and `conv_write` refuse a command for good when it is
beyond the range check, and a write also when the buffer has lost the bytes it needs. They report both
with `false`, which the dispatcher takes for "try again": nothing is given to a worker, and the head
stays at the entry.
-/

set_option autoImplicit false

namespace NvmeVirt

open Outcome

/-- The bit DNR is set. -/
def HasDnr (status : Nat) : Prop := status &&& nvmeScDnr = nvmeScDnr

instance (status : Nat) : Decidable (HasDnr status) := inferInstanceAs (Decidable (_ = _))

/-- In every state the namespace can come to, `proc_io_cmd` answers the entry with DNR. -/
def NsRun.RefusesForGood (s : NsRun) (entry : SqEntry) (sqid : Nat) : Prop :=
  ∀ t, s.onwards.Reachable t → ∀ storage env, ∃ out env',
    (nvmevProcIo convNamespace t.ns storage entry sqid).run env = .ok (out, env') ∧
      HasDnr out.answer.result.status

/-- The bytes a job gives back to a write buffer. -/
def IoJob.released : IoJob → Option Nat
  | .request _ _ _ _ _ => none
  | .internal _ _ _ buffsToRelease => some buffsToRelease

/-- The releases in the queue of a worker that it has not executed. -/
def WorkerRun.releasesLeft (run : WorkerRun) : List Nat :=
  run.jobs.zipIdx.filterMap fun job => if run.actionsOf job.2 = [] then job.1.released else none

/-- The namespace of a device, and the releases on the way to its write buffer. -/
def DeviceRun.toNsRun (s : DeviceRun ConvNs) : NsRun where
  ns := s.ns
  pending := s.dispatcher.todo.filterMap IoJob.released ++
    (List.range s.nrIoWorkers).flatMap fun w => (s.workers w).releasesLeft

/-- The bytes the write buffer has, or gets back. -/
def NsRun.budget (s : NsRun) : Nat := s.ns.writeBuffer.remaining + s.pending.sum

/-- In the state after an answer: it has DNR, and no later state of the namespace lifts that. -/
def DeviceRun.Permanent (s : DeviceRun ConvNs) (a : Answered) : Prop :=
  HasDnr a.answer.result.status ∧ s.toNsRun.RefusesForGood a.answer.entry a.sqid

/-- The head moves past the entry, and its completion is on the way to a worker. -/
def Answered.Delivered (a : Answered) : Prop :=
  a.answer.accepted = true ∧
    a.jobs.count (.request a.sqid a.cqid a.sqEntry a.answer.entry.commandId a.answer.result) = 1

/-- The command passes the range check, and a write has its bytes in the buffer or on the way there. -/
def NsRun.CanAdmit (s : NsRun) (cmd : NvmeCommand) : Prop :=
  ¬ s.ns.Rejects cmd ∧ (cmd.opcode = .write → cmd.bytes ≤ s.budget)

instance (s : NsRun) (cmd : NvmeCommand) : Decidable (s.CanAdmit cmd) :=
  inferInstanceAs (Decidable (_ ∧ _))

/-- The command at the head of the poll can be admitted, now or later. -/
def HeadCanBeAdmitted (s : DeviceRun ConvNs) : DeviceEvent → Prop
  | .attempt => ∀ poll, s.dispatcher = .polling poll →
      s.toNsRun.CanAdmit (s.sq poll.sqid poll.sqEntry).toNvmeCommand
  | _ => True

/-- No state the namespace can come to admits the command: it is beyond the range check, or it is a
write and the bytes left are not enough for any write. -/
def NsRun.NeverAdmits (s : NsRun) (cmd : NvmeCommand) : Prop :=
  s.ns.Rejects cmd ∨ (cmd.opcode = .write ∧ s.budget < lbaSize)

/-! ## What a namespace can come to -/

section Onwards

variable {cfg : SsdConfig} {bytes : Nat} {s t : NsRun} {entry : SqEntry}

/-- All the releases that are on the way can be executed. -/
theorem NsRun.onwards_released (ns : ConvNs) (pending : List Nat) :
    (NsRun.onwards ⟨ns, pending⟩).Reachable
      ⟨{ ns with writeBuffer := bufferRelease ns.writeBuffer pending.sum }, []⟩ := by
  suffices h : ∀ (pending : List Nat) (ns : ConvNs) (start : NsRun),
      start.onwards.Reachable ⟨ns, pending⟩ → start.onwards.Reachable
        ⟨{ ns with writeBuffer := bufferRelease ns.writeBuffer pending.sum }, []⟩ from
    h pending ns _ (.init rfl)
  intro pending
  induction pending with
  | nil => exact fun _ _ h => h
  | cons bytes rest ih =>
    intro ns start h
    have hnext : start.onwards.Reachable
        ⟨{ ns with writeBuffer := bufferRelease ns.writeBuffer bytes }, rest⟩ :=
      .step (l := .release 0) h ⟨bytes, rfl, rfl⟩
    have hrest := ih _ start hnext
    rw [List.sum_cons]
    unfold bufferRelease at hrest ⊢
    rw [← Nat.add_assoc]
    exact hrest

theorem NsSettled.onwards (h : NsSettled cfg bytes s.ns) (ht : s.onwards.Reachable t) :
    NsSettled cfg bytes t.ns := by
  induction ht with
  | init h₀ => exact h₀ ▸ h
  | step _ hstep ih => exact ih.step hstep

/-- The range check depends on the geometry only. -/
theorem NsSettled.outOfRange_eq {ns ns' : ConvNs} (h : NsSettled cfg bytes ns)
    (h' : NsSettled cfg bytes ns') (cmd : NvmeCommand) : ns'.outOfRange cmd = ns.outOfRange cmd := by
  unfold ConvNs.outOfRange
  rw [h.sp, h'.sp, h.nrParts, h'.nrParts]

/-- While no write fits, nothing is taken from the buffer and nothing more comes back to it. -/
theorem budget_onwards (h : NsSettled cfg bytes s.ns) (hdead : s.budget < lbaSize)
    (ht : s.onwards.Reachable t) : NsSettled cfg bytes t.ns ∧ t.budget = s.budget := by
  induction ht with
  | init h₀ =>
    obtain rfl : _ = s := h₀
    exact ⟨h, rfl⟩
  | @step t t' l _ hstep ih =>
    obtain ⟨hset, hbudget⟩ := ih
    refine ⟨hset.step hstep, ?_⟩
    rw [← hbudget]
    rw [← hbudget] at hdead
    cases l with
    | command req =>
      obtain ⟨ans, ⟨env, env', hrun⟩, hpending⟩ := hstep
      unfold NsRun.budget
      by_cases hop : req.cmd.opcode = .write
      · rw [convProcNvmeIoCmd_write hop] at hrun
        rcases convWrite_cases hrun with ⟨hadmits, _⟩ | ⟨_, status, hr⟩
        · have hbytes : lbaSize ≤ req.cmd.bytes := Nat.le_mul_of_pos_left _ (Nat.succ_pos _)
          unfold NsRun.budget at hdead
          have := hadmits.2
          omega
        · obtain ⟨hns, hans⟩ := Prod.mk.inj hr
          rw [hpending, hans, hns]
          show _ + (t.pending ++ []).sum = _
          rw [List.append_nil]
      · obtain ⟨_, hsame, hinternal⟩ := (convProcNvmeIoCmd_quiet (E := fun _ => True)
          (settled_pageRule (E := fun _ => True) _ trivial) hset.inv hop).of_run hrun
        have hbuffer : t'.ns.writeBuffer = t.ns.writeBuffer := hsame.writeBuffer
        have hnone : ans.internal = [] := hinternal
        rw [hpending, hbuffer, hnone]
        show _ + (t.pending ++ []).sum = _
        rw [List.append_nil]
    | release k =>
      obtain ⟨released, hk, rfl⟩ := hstep
      unfold NsRun.budget bufferRelease
      dsimp only
      obtain ⟨hlt, hget⟩ := List.getElem?_eq_some_iff.mp hk
      have hsum := (List.getElem_cons_eraseIdx_perm hlt).sum_eq
      rw [List.sum_cons, hget] at hsum
      omega

/-! ## Answers with DNR -/

/-- The refusals have the bit, a success does not. -/
theorem ConvOutcome.of_hasDnr {ns : ConvNs} {out : ProcOutcome ConvNs}
    (h : ConvOutcome ns entry out) (hdnr : HasDnr out.answer.result.status) :
    ns.Rejects entry.toNvmeCommand ∨ ns.Short entry.toNvmeCommand := by
  cases h with
  | done _ hstatus _ =>
    rw [hstatus] at hdnr
    exact absurd hdnr (by decide)
  | rejected _ hout => exact .inl hout
  | short _ hshort => exact .inr hshort

/-- Where the command is refused whatever the time, it is answered with DNR. -/
theorem refused_answers {ns : ConvNs} {status : Nat} (hdnr : HasDnr (status ||| nvmeScDnr))
    (sqid : Nat) (hrefused : ∀ nsecsStart, convProcNvmeIoCmd ns
      { cmd := entry.toNvmeCommand, sqId := sqid, nsecsStart } =
        pure (ns, .refuse (refusal { cmd := entry.toNvmeCommand, sqId := sqid, nsecsStart } status)))
    (storage : Nat → Nat) (env : Env) : ∃ out env',
      (nvmevProcIo convNamespace ns storage entry sqid).run env = .ok (out, env') ∧
        HasDnr out.answer.result.status := by
  suffices hens : Ensures NoFault (nvmevProcIo convNamespace ns storage entry sqid)
      fun out => HasDnr out.answer.result.status from answers hens env
  unfold nvmevProcIo
  refine cpuClock_ensures.bind fun nsecsStart _ => ?_
  unfold convNamespace
  dsimp only
  rw [hrefused]
  exact Ensures.bind (P := fun r => HasDnr r.2.result.status) (.pure hdnr) fun _ hr => .pure hr

theorem convProcNvmeIoCmd_rejected {ns : ConvNs} {req : NvmevRequest} (h : ns.Rejects req.cmd) :
    convProcNvmeIoCmd ns req = pure (ns, .refuse (refusal req nvmeScLbaRange)) := by
  obtain ⟨hop | hop, hout⟩ := h
  · unfold convProcNvmeIoCmd
    rw [hop]
    exact convRead_outOfRange hout
  · rw [convProcNvmeIoCmd_write hop, convWrite_outOfRange hout]

/-- A command that no later state admits is refused for good; a write larger than the whole buffer is
not refused, it stops the machine. -/
theorem NsSettled.refusesForGood (h : NsSettled cfg bytes s.ns) (hnever : s.NeverAdmits entry.toNvmeCommand)
    (hfits : entry.toNvmeCommand.opcode = .write →
      s.ns.outOfRange entry.toNvmeCommand = false → entry.toNvmeCommand.bytes ≤ s.ns.writeBuffer.size)
    (sqid : Nat) : s.RefusesForGood entry sqid := by
  intro t ht storage env
  by_cases hout : s.ns.Rejects entry.toNvmeCommand
  · refine @refused_answers _ _ nvmeScLbaRange (by decide) sqid (fun nsecsStart => ?_) storage env
    apply convProcNvmeIoCmd_rejected
    exact ⟨hout.1, ((h.outOfRange_eq (h.onwards ht) _).trans hout.2)⟩
  · obtain ⟨hop, hdead⟩ := hnever.resolve_left hout
    have hin : s.ns.outOfRange entry.toNvmeCommand = false :=
      Bool.eq_false_iff.mpr fun hrange => hout ⟨.inr hop, hrange⟩
    obtain ⟨hset, hbudget⟩ := budget_onwards h hdead ht
    have hbytes : lbaSize ≤ entry.toNvmeCommand.bytes := Nat.le_mul_of_pos_left _ (Nat.succ_pos _)
    have hshort : t.ns.writeBuffer.remaining < entry.toNvmeCommand.bytes := by
      have hle : t.ns.writeBuffer.remaining ≤ t.budget := Nat.le_add_right ..
      omega
    refine @refused_answers _ _ nvmeScInternal (by decide) sqid (fun nsecsStart => ?_)
      storage env
    rw [convProcNvmeIoCmd_write hop]
    refine convWrite_short ((h.outOfRange_eq hset _).trans hin) ?_ hshort
    rw [hset.bufferSize, ← h.bufferSize]
    exact hfits hop hin

/-- A command that can be admitted is not refused for good: once the releases on the way are executed,
the buffer has its bytes. -/
theorem NsRun.CanAdmit.not_forGood (h : s.CanAdmit entry.toNvmeCommand) (sqid : Nat) :
    ¬ s.RefusesForGood entry sqid := by
  intro hforGood
  obtain ⟨out, env', hrun, hdnr⟩ :=
    hforGood _ (NsRun.onwards_released s.ns s.pending) (fun _ => 0) .zero
  rcases ((convNamespace_outcome ..).of_run hrun).1.of_hasDnr hdnr with hout | hshort
  · exact h.1 hout
  · exact absurd (h.2 hshort.1) (Nat.not_le.mpr hshort.2.2)

end Onwards

/-! ## The dispatcher -/

section Dispatcher

variable {fresh : ConvNs → Prop} {cfg : SsdConfig} {bytes : Nat} {s s' : DeviceRun ConvNs}

theorem deviceRuns_settled (hfresh : ∀ ns, fresh ns → NsSettled cfg bytes ns) :
    (deviceRuns convNamespace fresh).Invariant fun s => NsSettled cfg bytes s.ns where
  init _ hs := hfresh _ hs.ns
  step s l s' h hstep := by
    cases hstep with
    | attempt _ _ _ hrun =>
      obtain ⟨_, _, _, hproc⟩ := run_bind hrun
      obtain ⟨⟨ns', ans⟩, env', hcmd, hout⟩ := run_bind hproc
      obtain rfl := run_pure hout
      obtain ⟨hinv, hshape, hsize⟩ := convProcNvmeIoCmd_inv (settled_pageRule _ trivial) h.inv hcmd
      exact ⟨hinv, hshape.nrParts.trans h.nrParts, hshape.size.trans h.size,
        hsize.trans h.bufferSize⟩
    | visit _ _ _ hok =>
      refine performAll_ns (fun ns _ _ hns => ?_) hok h
      exact ⟨hns.inv.withBuffer _, hns.nrParts, hns.size, hns.bufferSize⟩
    | _ => exact h

/-- An attempt adds its answer to the history. -/
theorem attempt_answered {poll : SqPoll} {a : Answered} (hat : s.dispatcher = .polling poll)
    (hstep : DeviceStep convNamespace s .attempt s') (ha : s'.answers = s.answers ++ [a]) :
    ∃ out env env' cqid,
      (nvmevProcIo convNamespace s.ns s.storage (s.sq poll.sqid poll.sqEntry) poll.sqid).run env =
        .ok (out, env') ∧
      a = { sqid := poll.sqid, cqid, sqEntry := poll.sqEntry, answer := out.answer } ∧
      s'.ns = out.ns ∧ s'.nrIoWorkers = s.nrIoWorkers ∧ s'.workers = s.workers ∧
      s'.dispatcher.todo = out.answer.jobs poll.sqid cqid poll.sqEntry := by
  cases hstep with
  | @attempt poll' sq env env' out hat' _ _ hrun =>
    obtain rfl : poll' = poll := Dispatcher.polling.inj (hat'.symm.trans hat)
    obtain rfl := List.singleton_inj.mp (List.append_cancel_left ha)
    exact ⟨out, env, env', sq.cqid, hrun, rfl, rfl, rfl, rfl, rfl⟩

/-- Nothing was scheduled: the namespace and the releases on the way are as before. -/
theorem RefusedWith.toNsRun {poll : SqPoll} {out : ProcOutcome ConvNs} {status cqid : Nat}
    (h : RefusedWith s.ns status out) (hat : s.dispatcher = .polling poll) (hns : s'.ns = out.ns)
    (hcount : s'.nrIoWorkers = s.nrIoWorkers) (hworkers : s'.workers = s.workers)
    (htodo : s'.dispatcher.todo = out.answer.jobs poll.sqid cqid poll.sqEntry) :
    s'.toNsRun = s.toNsRun := by
  have hjobs : out.answer.jobs poll.sqid cqid poll.sqEntry = [] := by
    unfold ProcAnswer.jobs
    rw [h.internal, if_neg (by rw [h.accepted]; exact Bool.false_ne_true)]
    rfl
  unfold DeviceRun.toNsRun
  rw [htodo, hjobs, hns, h.ns, hcount, hworkers, hat]
  rfl

/-- A write inside the range that does not stop the machine is no larger than the buffer, and is
refused where the buffer is short. -/
theorem convWrite_fits {ns : ConvNs} {req : NvmevRequest} (hin : ns.outOfRange req.cmd = false) :
    Ensures (fun _ => True) (convWrite ns req) fun r => req.cmd.bytes ≤ ns.writeBuffer.size ∧
      (ns.writeBuffer.remaining < req.cmd.bytes → r = (ns, .refuse (refusal req nvmeScInternal))) := by
  rcases Nat.lt_or_ge ns.writeBuffer.size req.cmd.bytes with hlarge | hfits
  · rw [convWrite_tooLarge hin hlarge]
    exact .throw trivial
  rcases Nat.lt_or_ge ns.writeBuffer.remaining req.cmd.bytes with hshort | hroom
  · rw [convWrite_short hin hfits hshort]
    exact .pure ⟨hfits, fun _ => rfl⟩
  · exact Ensures.any.mono fun _ _ => ⟨hfits, fun hshort => absurd hroom (Nat.not_le.mpr hshort)⟩

theorem convNamespace_write {ns : ConvNs} {entry : SqEntry} (hop : entry.toNvmeCommand.opcode = .write)
    (hin : ns.outOfRange entry.toNvmeCommand = false) (storage : Nat → Nat) (sqid : Nat) :
    Ensures (fun _ => True) (nvmevProcIo convNamespace ns storage entry sqid) fun out =>
      entry.toNvmeCommand.bytes ≤ ns.writeBuffer.size ∧
        (ns.writeBuffer.remaining < entry.toNvmeCommand.bytes →
          RefusedWith ns (nvmeScInternal ||| nvmeScDnr) out) := by
  unfold nvmevProcIo
  refine Ensures.any.bind fun nsecsStart _ => ?_
  unfold convNamespace
  dsimp only
  rw [convProcNvmeIoCmd_write hop]
  refine (@convWrite_fits ns ⟨entry.toNvmeCommand, sqid, nsecsStart⟩ hin).bind fun r hr => ?_
  refine .pure ⟨hr.1, fun hshort => ?_⟩
  obtain ⟨rfl, hans⟩ := Prod.mk.inj (hr.2 hshort)
  rw [hans]
  exact ⟨rfl, rfl, rfl, rfl⟩

/-- An attempt at a command that no later state admits: it is refused for good, and not delivered. -/
theorem attempt_never {poll : SqPoll} {a : Answered} (hset : NsSettled cfg bytes s.ns)
    (hat : s.dispatcher = .polling poll) (hstep : DeviceStep convNamespace s .attempt s')
    (ha : s'.answers = s.answers ++ [a])
    (hnever : s.toNsRun.NeverAdmits (s.sq poll.sqid poll.sqEntry).toNvmeCommand) :
    s'.Permanent a ∧ ¬ a.Delivered := by
  obtain ⟨out, env, env', cqid, hrun, rfl, hns, hcount, hworkers, htodo⟩ :=
    attempt_answered hat hstep ha
  obtain ⟨houtcome, _, hentry⟩ := (convNamespace_outcome ..).of_run hrun
  have hrefused : ∃ status, HasDnr status ∧ RefusedWith s.ns status out := by
    cases houtcome with
    | rejected href _ => exact ⟨_, by decide, href⟩
    | short href _ => exact ⟨_, by decide, href⟩
    | done haccepted hstatus hin =>
      obtain ⟨hop, hdead⟩ := hnever.resolve_left hin
      have hrange : s.ns.outOfRange (s.sq poll.sqid poll.sqEntry).toNvmeCommand = false :=
        Bool.eq_false_iff.mpr fun hrange => hin ⟨.inr hop, hrange⟩
      have hle : s.ns.writeBuffer.remaining ≤ s.toNsRun.budget := Nat.le_add_right ..
      have hbytes : lbaSize ≤ (s.sq poll.sqid poll.sqEntry).toNvmeCommand.bytes :=
        Nat.le_mul_of_pos_left _ (Nat.succ_pos _)
      have hshort : s.ns.writeBuffer.remaining <
          (s.sq poll.sqid poll.sqEntry).toNvmeCommand.bytes :=
        Nat.lt_of_le_of_lt hle (Nat.lt_of_lt_of_le hdead hbytes)
      exact ⟨_, by decide, ((convNamespace_write hop hrange ..).of_run hrun).2 hshort⟩
  obtain ⟨status, hdnr, href⟩ := hrefused
  refine ⟨⟨href.status ▸ hdnr, ?_⟩, fun hdelivered => nomatch hdelivered.1.symm.trans href.accepted⟩
  rw [href.toNsRun hat hns hcount hworkers htodo, hentry]
  exact hset.refusesForGood (s := s.toNsRun) hnever
    (fun hop hin => ((convNamespace_write hop hin ..).of_run hrun).1) _

/-- An attempt at a command that can be admitted does not refuse it for good. -/
theorem attempt_canAdmit {poll : SqPoll} {a : Answered} (hat : s.dispatcher = .polling poll)
    (hstep : DeviceStep convNamespace s .attempt s') (ha : s'.answers = s.answers ++ [a])
    (hcan : s.toNsRun.CanAdmit (s.sq poll.sqid poll.sqEntry).toNvmeCommand) : ¬ s'.Permanent a := by
  rintro ⟨hdnr, hforGood⟩
  obtain ⟨out, env, env', cqid, hrun, rfl, hns, hcount, hworkers, htodo⟩ :=
    attempt_answered hat hstep ha
  obtain ⟨houtcome, _, hentry⟩ := (convNamespace_outcome ..).of_run hrun
  rcases houtcome.of_hasDnr hdnr with hout | hshort
  · exact hcan.1 hout
  · cases houtcome with
    | done _ hstatus _ =>
      have hzero : out.answer.result.status = nvmeScSuccess := hstatus
      rw [hzero] at hdnr
      exact absurd hdnr (by decide)
    | rejected _ hout => exact hcan.1 hout
    | short href _ =>
      rw [href.toNsRun hat hns hcount hworkers htodo, hentry] at hforGood
      exact hcan.not_forGood _ hforGood

/-- In every run in which each command that comes to the head of a queue can be admitted, then or later,
`proc_io_cmd` refuses none for good but those it delivers. From any state of any run, an attempt at a
command that no later state admits refuses it for good, and does not deliver that. In between are writes
whose bytes the buffer has lost while it still has some: they wait for writes of other queues that give
back more than they take. -/
theorem refusals_delivered (hfresh : ∀ ns, fresh ns → NsSettled cfg bytes ns) :
    (∀ s s' a, ((deviceRuns convNamespace fresh).guarded HeadCanBeAdmitted).Reachable s →
      ((deviceRuns convNamespace fresh).guarded HeadCanBeAdmitted).step s .attempt s' →
      s'.answers = s.answers ++ [a] → s'.Permanent a → a.Delivered) ∧
    ∀ s s' a poll, (deviceRuns convNamespace fresh).Reachable s → s.dispatcher = .polling poll →
      (deviceRuns convNamespace fresh).step s .attempt s' → s'.answers = s.answers ++ [a] →
      s.toNsRun.NeverAdmits (s.sq poll.sqid poll.sqEntry).toNvmeCommand →
      s'.Permanent a ∧ ¬ a.Delivered := by
  constructor
  · intro s s' a _ hstep ha hpermanent
    obtain ⟨hguard, hstep⟩ := hstep
    obtain ⟨poll, hat⟩ : ∃ poll, s.dispatcher = .polling poll := by
      cases hstep with
      | attempt hat _ _ _ => exact ⟨_, hat⟩
    exact absurd hpermanent (attempt_canAdmit hat hstep ha (hguard poll hat))
  · intro s s' a poll hreach hat hstep ha hnever
    exact attempt_never ((deviceRuns_settled hfresh).reachable hreach) hat hstep ha hnever

end Dispatcher

/-! ## A 970PRO of a gibibyte -/

section Gib

theorem Fresh970ProGib.settled {ns : ConvNs} (h : Fresh970ProGib ns) :
    NsSettled samsung970Pro gib ns := by
  obtain ⟨_, _, hrun⟩ := h
  exact (convInitNamespace_settled gib_wellFormed (by decide) hrun).1

theorem attempt_appends {s s' : DeviceRun ConvNs} (hstep : DeviceStep convNamespace s .attempt s') :
    ∃ a, s'.answers = s.answers ++ [a] := by
  cases hstep with
  | attempt _ _ _ _ => exact ⟨_, rfl⟩

/-- The condition on the head of the poll, decided. -/
def headCanBeAdmitted (s : DeviceRun ConvNs) : DeviceEvent → Bool
  | .attempt =>
    match s.dispatcher with
    | .polling poll => decide (s.toNsRun.CanAdmit (s.sq poll.sqid poll.sqEntry).toNvmeCommand)
    | _ => true
  | _ => true

theorem headCanBeAdmitted_guard {s : DeviceRun ConvNs} {l : DeviceEvent}
    (h : headCanBeAdmitted s l = true) : HeadCanBeAdmitted s l := by
  cases l with
  | attempt =>
    intro poll hat
    unfold headCanBeAdmitted at h
    dsimp only at h
    rw [hat] at h
    exact of_decide_eq_true h
  | _ => trivial

/-- The second of two writes of 512 KiB is refused with DNR, but not for good: the releases of the first
one are on the way. -/
theorem refusals_delivered_two : ∃ (s s' : DeviceRun ConvNs) (a : Answered),
    ((deviceRuns convNamespace Fresh970ProGib).guarded HeadCanBeAdmitted).step s .attempt s' ∧
      s'.answers = s.answers ++ [a] ∧ HasDnr a.answer.result.status ∧ ¬ s'.Permanent a := by
  obtain ⟨s, hreach, hends⟩ := @exists_executedGib HeadCanBeAdmitted headCanBeAdmitted oneOfTwoWrites
    (fun s => headCanBeAdmitted s .attempt && (s.next convNamespace .zero .attempt).any fun s' =>
      s'.answers.getLast?.any fun a => !a.answer.accepted && decide (HasDnr a.answer.result.status))
    (fun _ _ _ _ hl _ => headCanBeAdmitted_guard hl) (by decide +kernel)
  obtain ⟨hguard, hnext⟩ := Bool.and_eq_true_iff.mp hends
  obtain ⟨s', hs', hlast⟩ := (Option.any_eq_true _ _).mp hnext
  have hstep := DeviceRun.next_step hs'
  obtain ⟨a, ha⟩ := attempt_appends hstep
  rw [ha, List.getLast?_concat] at hlast
  obtain ⟨hrefused, hdnr⟩ := Bool.and_eq_true_iff.mp hlast
  have hstep' : ((deviceRuns convNamespace Fresh970ProGib).guarded HeadCanBeAdmitted).step s .attempt
    s' := ⟨headCanBeAdmitted_guard hguard, hstep⟩
  refine ⟨s, s', a, hstep', ha, of_decide_eq_true hdnr, fun hpermanent => ?_⟩
  have hdelivered := (refusals_delivered fun _ hns => Fresh970ProGib.settled hns).1 s s' a hreach
    hstep' ha hpermanent
  rw [hdelivered.1] at hrefused
  exact nomatch hrefused

/-- A write of one LBA at 2^63. -/
def farWriteEntry : SqEntry :=
  { flushEntry with opcode := .write, commandId := 7, slba := 2 ^ 63, slba_lt := by decide }

/-- The write is refused for good, and its refusal is not delivered. -/
theorem refusal_not_delivered :
    ¬ ∀ s s' a, (deviceRuns convNamespace Fresh970ProGib).Reachable s →
      (deviceRuns convNamespace Fresh970ProGib).step s .attempt s' →
      s'.answers = s.answers ++ [a] → s'.Permanent a → a.Delivered := by
  intro hall
  obtain ⟨s, hreach, hends⟩ := @exists_executedGib (fun _ _ => True) (fun _ _ => true)
    (submitEvents [farWriteEntry] ++ ringEvents 1)
    (fun s => (s.next convNamespace .zero .attempt).isSome && match s.dispatcher with
      | .polling poll => decide (s.ns.Rejects (s.sq poll.sqid poll.sqEntry).toNvmeCommand)
      | _ => false)
    (fun _ _ _ _ _ _ => trivial) (by decide +kernel)
  obtain ⟨hnext, hhead⟩ := Bool.and_eq_true_iff.mp hends
  obtain ⟨s', hs'⟩ := Option.isSome_iff_exists.mp hnext
  have hstep := DeviceRun.next_step hs'
  obtain ⟨a, ha⟩ := attempt_appends hstep
  cases hat : s.dispatcher with
  | polling poll =>
    rw [hat] at hhead
    have hnever := attempt_never
      ((deviceRuns_settled fun _ hns => Fresh970ProGib.settled hns).reachable hreach.of_guarded) hat
      hstep ha (.inl (of_decide_eq_true hhead))
    exact hnever.2 (hall s s' a hreach.of_guarded hstep ha hnever.1)
  | _ =>
    rw [hat] at hhead
    exact nomatch hhead

end Gib

end NvmeVirt

import NvmeVirt.Io.Queues

/-!
# What an admin command does

Every command but `nvme_admin_abort_cmd` first changes the queues or the number of them
(`Controller.prepared`), and then posts one completion to the admin queue. `AdminDone` says so once
for all commands; the runs of the rings, of the doorbells and of the device take what they need from
it: which slot is filled or emptied (`AdminDone.sqes`, `AdminDone.cqes`), and which doorbells are
reset (`AdminDone.doorbells`).

What the identify pages and logs contain is left out, since nothing modelled reads it. Faults end a
command, and then there is no step.
-/

set_option autoImplicit false

namespace NvmeVirt

/-! ## Posting -/

section Posting

/-- The tag a completion carries. -/
def NvmeCompletion.tag (c : NvmeCompletion) : Bool := decide (c.status % 2 = 1)

theorem tag_completionStatus {c : NvmeCompletion} {phase : Bool} {status : Nat}
    (hc : c.status = completionStatus phase status) : c.tag = phase := by
  have hlow : completionStatus phase status % 2 = (phase.toNat ||| status <<< 1) % 2 := by
    unfold completionStatus
    omega
  have heven : (status <<< 1) % 2 ≠ 1 := by
    rw [Nat.shiftLeft_eq]
    omega
  unfold NvmeCompletion.tag
  rw [hc, hlow]
  cases phase with
  | false =>
    apply decide_eq_false
    rw [Nat.or_mod_two_eq_one]
    rintro (hbit | hbit)
    · exact nomatch hbit
    · exact heven hbit
  | true =>
    apply decide_eq_true
    rw [Nat.or_mod_two_eq_one]
    exact .inl rfl

/-- What posting does to the admin queue. -/
structure AdminPosted (q q' : AdminQueue) : Prop where
  cqDepth : q'.cqDepth = q.cqDepth
  cqHead : q'.cqHead = (advanceHead q.cqDepth q.cqHead q.phase).1
  phase : q'.phase = (advanceHead q.cqDepth q.cqHead q.phase).2
  tag : (q'.cq q.cqHead).tag = q.phase

/-- One completion is posted, with the phase of the ring. -/
theorem AdminQueue.makeCqEntryResults_posted {q q' : AdminQueue} {eid commandId ret r0 r1 : Nat}
    (h : q.makeCqEntryResults eid commandId ret r0 r1 = .ok q') : AdminPosted q q' := by
  unfold AdminQueue.makeCqEntryResults at h
  split at h
  · exact nomatch h
  · split at h
    · exact nomatch h
    · obtain rfl := Except.ok.inj h
      refine ⟨rfl, rfl, rfl, ?_⟩
      apply tag_completionStatus
      dsimp only
      rw [Function.update_self]

/-- What posting leaves: the controller but for one more completion in the admin queue. -/
def PostedTo (ctrl ctrl' : Controller) : Prop :=
  ∃ q q', ctrl.adminQ = some q ∧ ctrl' = { ctrl with adminQ := some q' } ∧ AdminPosted q q'

/-- The rest of the controller stays. -/
theorem Controller.makeCqEntryResults_posted {ctrl ctrl' : Controller}
    {eid commandId ret r0 r1 : Nat}
    (h : ctrl.makeCqEntryResults eid commandId ret r0 r1 = .ok ctrl') : PostedTo ctrl ctrl' := by
  unfold Controller.makeCqEntryResults at h
  cases hq : ctrl.adminQ with
  | none =>
    rw [hq] at h
    exact nomatch h
  | some q =>
    rw [hq] at h
    dsimp only at h
    cases hpost : q.makeCqEntryResults eid commandId ret r0 r1 with
    | error fault =>
      rw [hpost] at h
      exact nomatch h
    | ok q' =>
      rw [hpost] at h
      exact ⟨q, q', hq, (Except.ok.inj h).symm, AdminQueue.makeCqEntryResults_posted hpost⟩

end Posting

/-! ## The commands -/

section Commands

variable {ctrl ctrl' : Controller} {cmd : AdminCommand} {eid : Nat}

/-- The controller before the completion of a command is posted. -/
def Controller.prepared (ctrl : Controller) (cmd : AdminCommand) : Controller :=
  match cmd.opcode with
  | .createCq =>
    { ctrl with
      cqes := Function.update ctrl.cqes cmd.qid (some (newCompletionQueue cmd)) }.resetDoorbell
      (cmd.qid * 2 + 1)
  | .deleteCq => { ctrl with cqes := Function.update ctrl.cqes cmd.qid none }
  | .createSq =>
    { ctrl with
      sqes := Function.update ctrl.sqes cmd.qid (some (newSubmissionQueue cmd)) }.resetDoorbell
      (cmd.qid * 2)
  | .deleteSq => { ctrl with sqes := Function.update ctrl.sqes cmd.qid none }
  | .setFeatures =>
    if cmd.numQueues = true then
      { ctrl with
        nrSq := min (cmd.dword11 % 2 ^ 16 + 1) nrMaxIoQueue
        nrCq := min (cmd.dword11 / 2 ^ 16 % 2 ^ 16 + 1) nrMaxIoQueue }
    else ctrl
  | _ => ctrl

/-- An admin command posts a completion, or it is an abort and nothing changes. -/
inductive AdminDone (ctrl ctrl' : Controller) (cmd : AdminCommand) : Prop where
  | aborted : cmd.opcode = .abortCmd → ctrl' = ctrl → AdminDone ctrl ctrl' cmd
  | posted : PostedTo (ctrl.prepared cmd) ctrl' → cmd.opcode ≠ .abortCmd → AdminDone ctrl ctrl' cmd

/-- A completion queue is put into its slot, if the slot exists. -/
theorem Controller.setCq_ok {qid : Nat} {cq : Option CompletionQueue}
    (h : ctrl.setCq qid cq = .ok ctrl') :
    ctrl' = { ctrl with cqes := Function.update ctrl.cqes qid cq } := by
  unfold Controller.setCq at h
  split at h
  · exact nomatch h
  · exact (Except.ok.inj h).symm

/-- So is a submission queue. -/
theorem Controller.setSq_ok {qid : Nat} {sq : Option SubmissionQueue}
    (h : ctrl.setSq qid sq = .ok ctrl') :
    ctrl' = { ctrl with sqes := Function.update ctrl.sqes qid sq } := by
  unfold Controller.setSq at h
  split at h
  · exact nomatch h
  · exact (Except.ok.inj h).symm

/-- The first part of a program that answers. -/
theorem of_bind_ok {α β : Type} {m : Except Fault α} {f : α → Except Fault β} {b : β}
    (h : m >>= f = .ok b) : ∃ a, m = .ok a ∧ f a = .ok b := by
  cases m with
  | error fault => exact nomatch h
  | ok a => exact ⟨a, rfl, h⟩

/-- Every command that ends is one of these. -/
theorem Controller.procAdminReq_done (h : ctrl.procAdminReq eid cmd = .ok ctrl') :
    AdminDone ctrl ctrl' cmd := by
  obtain ⟨_, _, h⟩ := of_bind_ok h
  -- a handler, up to its one answer
  have answered : ∀ {mid : Controller} {commandId ret r0 r1 : Nat},
      mid.makeCqEntryResults eid commandId ret r0 r1 = .ok ctrl' → ctrl.prepared cmd = mid →
      cmd.opcode ≠ .abortCmd → AdminDone ctrl ctrl' cmd :=
    fun hpost hmid habort => .posted (hmid ▸ makeCqEntryResults_posted hpost) habort
  unfold prepared at answered
  cases hop : cmd.opcode with
  | abortCmd =>
    rw [hop] at h
    exact .aborted hop (Except.ok.inj h).symm
  | createCq =>
    rw [hop] at h answered
    obtain ⟨mid, hset, hpost⟩ := of_bind_ok (show ctrl.adminCreateCq eid cmd = .ok ctrl' from h)
    obtain rfl := setCq_ok hset
    exact answered hpost rfl nofun
  | deleteCq =>
    rw [hop] at h answered
    obtain ⟨mid, hset, hpost⟩ := of_bind_ok (show ctrl.adminDeleteCq eid cmd = .ok ctrl' from h)
    obtain rfl := setCq_ok hset
    exact answered hpost rfl nofun
  | createSq =>
    rw [hop] at h answered
    obtain ⟨mid, hset, hpost⟩ := of_bind_ok (show ctrl.adminCreateSq eid cmd = .ok ctrl' from h)
    obtain rfl := setSq_ok hset
    exact answered hpost rfl nofun
  | deleteSq =>
    rw [hop] at h answered
    obtain ⟨mid, hset, hpost⟩ := of_bind_ok (show ctrl.adminDeleteSq eid cmd = .ok ctrl' from h)
    obtain rfl := setSq_ok hset
    exact answered hpost rfl nofun
  | identify =>
    rw [hop] at h answered
    have hident : ctrl.adminIdentify eid cmd = .ok ctrl' := h
    unfold adminIdentify adminIdentifyNs at hident
    split at hident
    · split at hident
      · exact nomatch hident
      · exact answered hident rfl nofun
    · split at hident
      · exact answered hident rfl nofun
      · exact answered hident rfl nofun
  | getLogPage =>
    rw [hop] at h answered
    have hlog : ctrl.adminGetLogPage eid cmd = .ok ctrl' := h
    unfold adminGetLogPage at hlog
    split at hlog
    · exact answered hlog rfl nofun
    · split at hlog
      · exact nomatch hlog
      · exact answered hlog rfl nofun
  | setFeatures =>
    rw [hop] at h answered
    have hset : ctrl.adminSetFeatures eid cmd = .ok ctrl' := h
    unfold adminSetFeatures at hset
    split at hset
    · rename_i hnum
      exact answered hset (if_pos hnum) nofun
    · rename_i hnum
      exact answered hset (if_neg hnum) nofun
  | getFeatures =>
    rw [hop] at h answered
    have hget : ctrl.adminGetFeatures eid cmd = .ok ctrl' := h
    unfold adminGetFeatures at hget
    split at hget
    · exact answered hget rfl nofun
    · exact answered hget rfl nofun
  | asyncEvent | other =>
    rw [hop] at h answered
    exact answered h rfl nofun

/-! ## The queues a command leaves -/

/-- The I/O completion queues after a command. -/
def cqesAfter (ctrl : Controller) (cmd : AdminCommand) : Nat → Option CompletionQueue :=
  match cmd.opcode with
  | .createCq => Function.update ctrl.cqes cmd.qid (some (Controller.newCompletionQueue cmd))
  | .deleteCq => Function.update ctrl.cqes cmd.qid none
  | _ => ctrl.cqes

/-- The submission queues after a command. -/
def sqesAfter (ctrl : Controller) (cmd : AdminCommand) : Nat → Option SubmissionQueue :=
  match cmd.opcode with
  | .createSq => Function.update ctrl.sqes cmd.qid (some (Controller.newSubmissionQueue cmd))
  | .deleteSq => Function.update ctrl.sqes cmd.qid none
  | _ => ctrl.sqes

theorem Controller.prepared_adminQ (ctrl : Controller) (cmd : AdminCommand) :
    (ctrl.prepared cmd).adminQ = ctrl.adminQ := by
  unfold prepared
  cases cmd.opcode with
  | setFeatures =>
    dsimp only
    split
    · rfl
    · rfl
  | _ => rfl

/-- Two commands touch a completion queue. -/
theorem Controller.prepared_cqes (ctrl : Controller) (cmd : AdminCommand) :
    (ctrl.prepared cmd).cqes = cqesAfter ctrl cmd := by
  unfold prepared cqesAfter
  cases cmd.opcode with
  | setFeatures =>
    dsimp only
    split
    · rfl
    · rfl
  | _ => rfl

/-- Two commands touch a submission queue. -/
theorem Controller.prepared_sqes (ctrl : Controller) (cmd : AdminCommand) :
    (ctrl.prepared cmd).sqes = sqesAfter ctrl cmd := by
  unfold prepared sqesAfter
  cases cmd.opcode with
  | setFeatures =>
    dsimp only
    split
    · rfl
    · rfl
  | _ => rfl

/-- The completion queues after a command. -/
theorem AdminDone.cqes (h : AdminDone ctrl ctrl' cmd) : ctrl'.cqes = cqesAfter ctrl cmd := by
  cases h with
  | aborted hop hsame =>
    rw [hsame]
    unfold cqesAfter
    rw [hop]
  | posted hpost _ =>
    obtain ⟨_, _, _, rfl, _⟩ := hpost
    exact ctrl.prepared_cqes cmd

/-- The submission queues after a command. -/
theorem AdminDone.sqes (h : AdminDone ctrl ctrl' cmd) : ctrl'.sqes = sqesAfter ctrl cmd := by
  cases h with
  | aborted hop hsame =>
    rw [hsame]
    unfold sqesAfter
    rw [hop]
  | posted hpost _ =>
    obtain ⟨_, _, _, rfl, _⟩ := hpost
    exact ctrl.prepared_sqes cmd

/-- A submission doorbell after a command: creating a queue zeroes its own. -/
def doorbellAfter (dbs : Nat → Nat) (cmd : AdminCommand) (qid : Nat) : Nat :=
  if cmd.opcode = .createSq ∧ qid = cmd.qid then 0 else dbs (qid * 2)

/-- Other doorbells stay. -/
theorem doorbellAfter_same {dbs : Nat → Nat} {qid : Nat}
    (h : cmd.opcode = .createSq → qid ≠ cmd.qid) : doorbellAfter dbs cmd qid = dbs (qid * 2) :=
  if_neg fun hboth => h hboth.1 hboth.2

theorem doorbellAfter_created {dbs : Nat → Nat} {qid : Nat} (hop : cmd.opcode = .createSq)
    (hqid : qid = cmd.qid) : doorbellAfter dbs cmd qid = 0 :=
  if_pos ⟨hop, hqid⟩

/-- Creating a submission queue resets its doorbell and the copy of it. -/
theorem Controller.prepared_doorbells (ctrl : Controller) (cmd : AdminCommand) (qid : Nat) :
    (ctrl.prepared cmd).dbs (qid * 2) = doorbellAfter ctrl.dbs cmd qid ∧
      (ctrl.prepared cmd).oldDbs (qid * 2) = doorbellAfter ctrl.oldDbs cmd qid := by
  by_cases hcreate : cmd.opcode = .createSq ∧ qid = cmd.qid
  · obtain ⟨hop, hqid⟩ := hcreate
    rw [doorbellAfter_created hop hqid, doorbellAfter_created hop hqid, hqid]
    unfold prepared
    rw [hop]
    exact ⟨Function.update_self .., Function.update_self ..⟩
  · have hother : cmd.opcode = .createSq → qid ≠ cmd.qid := fun hop hqid => hcreate ⟨hop, hqid⟩
    rw [doorbellAfter_same hother, doorbellAfter_same hother]
    unfold prepared
    cases hop : cmd.opcode with
    | createCq =>
      have hodd : qid * 2 ≠ cmd.qid * 2 + 1 := by omega
      exact ⟨Function.update_of_ne hodd .., Function.update_of_ne hodd ..⟩
    | createSq =>
      have hqid := hother hop
      have hne : qid * 2 ≠ cmd.qid * 2 := by omega
      exact ⟨Function.update_of_ne hne .., Function.update_of_ne hne ..⟩
    | setFeatures =>
      dsimp only
      split
      · exact ⟨rfl, rfl⟩
      · exact ⟨rfl, rfl⟩
    | _ => exact ⟨rfl, rfl⟩

/-- The doorbells after a command. -/
theorem AdminDone.doorbells (h : AdminDone ctrl ctrl' cmd) (qid : Nat) :
    ctrl'.dbs (qid * 2) = doorbellAfter ctrl.dbs cmd qid ∧
      ctrl'.oldDbs (qid * 2) = doorbellAfter ctrl.oldDbs cmd qid := by
  cases h with
  | aborted hop hsame =>
    have hother : cmd.opcode = .createSq → qid ≠ cmd.qid := fun hcreate =>
      nomatch hop.symm.trans hcreate
    rw [hsame, doorbellAfter_same hother, doorbellAfter_same hother]
    exact ⟨rfl, rfl⟩
  | posted hpost _ =>
    obtain ⟨_, _, _, rfl, _⟩ := hpost
    exact ctrl.prepared_doorbells cmd qid

/-- What a table holds after one slot was set. -/
theorem update_eq_some {α : Type} {slots : Nat → Option α} {slot : Option α} {i j : Nat} {a : α}
    (h : Function.update slots i slot j = some a) :
    j = i ∧ slot = some a ∨ j ≠ i ∧ slots j = some a := by
  by_cases hj : j = i
  · rw [hj, Function.update_self] at h
    exact .inl ⟨hj, h⟩
  · rw [Function.update_of_ne hj] at h
    exact .inr ⟨hj, h⟩

/-- What becomes of a completion queue. -/
theorem cqesAfter_cases {qid : Nat} {cq : CompletionQueue} (h : cqesAfter ctrl cmd qid = some cq) :
    cmd.opcode = .createCq ∧ qid = cmd.qid ∧ cq = Controller.newCompletionQueue cmd ∨
      (cmd.opcode = .createCq → qid ≠ cmd.qid) ∧ ctrl.cqes qid = some cq := by
  unfold cqesAfter at h
  cases hop : cmd.opcode with
  | createCq =>
    rw [hop] at h
    obtain ⟨hqid, hnew⟩ | ⟨hqid, hold⟩ := update_eq_some h
    · exact .inl ⟨rfl, hqid, (Option.some.inj hnew).symm⟩
    · exact .inr ⟨fun _ => hqid, hold⟩
  | deleteCq =>
    rw [hop] at h
    obtain ⟨_, hnone⟩ | ⟨_, hold⟩ := update_eq_some h
    · cases hnone
    · exact .inr ⟨nofun, hold⟩
  | _ =>
    rw [hop] at h
    exact .inr ⟨nofun, h⟩

/-- What becomes of a submission queue. -/
theorem sqesAfter_cases {qid : Nat} {sq : SubmissionQueue} (h : sqesAfter ctrl cmd qid = some sq) :
    cmd.opcode = .createSq ∧ qid = cmd.qid ∧ sq = Controller.newSubmissionQueue cmd ∨
      (cmd.opcode = .createSq → qid ≠ cmd.qid) ∧ ctrl.sqes qid = some sq := by
  unfold sqesAfter at h
  cases hop : cmd.opcode with
  | createSq =>
    rw [hop] at h
    obtain ⟨hqid, hnew⟩ | ⟨hqid, hold⟩ := update_eq_some h
    · exact .inl ⟨rfl, hqid, (Option.some.inj hnew).symm⟩
    · exact .inr ⟨fun _ => hqid, hold⟩
  | deleteSq =>
    rw [hop] at h
    obtain ⟨_, hnone⟩ | ⟨_, hold⟩ := update_eq_some h
    · cases hnone
    · exact .inr ⟨nofun, hold⟩
  | _ =>
    rw [hop] at h
    exact .inr ⟨nofun, h⟩

end Commands

end NvmeVirt

import NvmeVirt.Laws.Io.Admin
import NvmeVirt.Lib.Ring

/-!
# Which admin commands are answered

A command is answered if its handler comes to its completion. An abort has none, and a handler does
not get there when the queue, the namespace or the log page it is asked for does not exist.

`Controller.procAdminReq_answered_iff` settles one command: it is answered if and only if it is
`Answerable`, which looks at the command and the number of namespaces.
`Controller.procAdminEntries_answered` carries this through the loop of a batch, whose ring stays
ready from entry to entry (`PostedFor.ready`).

What a batch is asked to store is the host's own affair: its data pages lie apart from the two admin
rings. Only the completions are looked at; what a command returns is left out.
-/

set_option autoImplicit false

namespace NvmeVirt

/-! ## One command -/

section Command

variable {ctrl ctrl' : Controller} {q q' : AdminQueue} {cmd : AdminCommand}
variable {eid commandId ret r0 r1 : Nat}

/-- The rings of the admin queue lie in the pages it has. -/
structure AdminQueue.Ready (q : AdminQueue) : Prop where
  sq : ∃ pages, q.nvmeSq = some pages ∧ q.sqDepth ≤ pages * nrSqePerPage
  cq : ∃ pages, q.nvmeCq = some pages ∧ q.cqDepth ≤ pages * nrCqePerPage
  cqHead : q.cqHead < q.cqDepth

/-- One completion is posted, at the head of the ring, and nothing else of the queue changes. -/
structure PostedFor (q q' : AdminQueue) (eid commandId : Nat) : Prop where
  entry : ∃ c : NvmeCompletion, q'.cq = Function.update q.cq q.cqHead c ∧
    c.commandId = commandId ∧ c.sqHead = eid
  cqHead : q'.cqHead = (advanceHead q.cqDepth q.cqHead q.phase).1
  phase : q'.phase = (advanceHead q.cqDepth q.cqHead q.phase).2
  sqDepth : q'.sqDepth = q.sqDepth
  cqDepth : q'.cqDepth = q.cqDepth
  nvmeSq : q'.nvmeSq = q.nvmeSq
  nvmeCq : q'.nvmeCq = q.nvmeCq

/-- The completion of an entry is posted, and it is the only one. -/
def AnsweredFor (ctrl ctrl' : Controller) (eid commandId : Nat) : Prop :=
  ∃ q q', ctrl.adminQ = some q ∧ ctrl'.adminQ = some q' ∧ PostedFor q q' eid commandId

/-- What a command asks for exists. -/
def Answerable (nrNs : Nat) (cmd : AdminCommand) : Prop :=
  match cmd.opcode with
  | .abortCmd => False
  | .createSq | .deleteSq | .createCq | .deleteCq => cmd.qid ≤ nrMaxIoQueue
  | .identify => cmd.cns ∈ [0x00, 0x03, 0x05] → 1 ≤ cmd.nsid ∧ cmd.nsid ≤ nrNs
  | .getLogPage => ∀ size, cmd.lid.size = some size → cmd.logLen ≤ size
  | _ => True

/-- The rings are ready for the next entry. -/
theorem PostedFor.ready (h : PostedFor q q' eid commandId) (hq : q.Ready) : q'.Ready := by
  obtain ⟨sqPages, hsq, hsqDepth⟩ := hq.sq
  obtain ⟨cqPages, hcq, hcqDepth⟩ := hq.cq
  refine ⟨⟨sqPages, h.nvmeSq.trans hsq, h.sqDepth ▸ hsqDepth⟩,
    ⟨cqPages, h.nvmeCq.trans hcq, h.cqDepth ▸ hcqDepth⟩, ?_⟩
  have hlt := hq.cqHead
  rw [h.cqHead, h.cqDepth]
  unfold advanceHead
  split
  · exact Nat.zero_lt_of_lt hlt
  · show q.cqHead + 1 < q.cqDepth
    omega

/-- The slot after the one posted to is the next of the ring. -/
theorem PostedFor.next (h : PostedFor q q' eid commandId) (hq : q.Ready) :
    q'.cqHead = (q.cqHead + 1) % q.cqDepth := by
  have hpos := Nat.zero_lt_of_lt hq.cqHead
  rw [h.cqHead, succ_mod_ring hpos, Nat.mod_eq_of_lt hq.cqHead]
  unfold advanceHead
  split
  · rfl
  · rfl

/-- Posting moves the head or turns the phase. -/
theorem not_answeredFor_self : ¬ AnsweredFor ctrl ctrl eid commandId := by
  rintro ⟨q, q', hq, hq', hpost⟩
  obtain rfl : q = q' := Option.some.inj (hq.symm.trans hq')
  have hhead := hpost.cqHead
  have hphase := hpost.phase
  unfold advanceHead at hhead hphase
  split at hphase
  · exact (Bool.eq_not_self _).mp hphase
  · rename_i hlap
    rw [if_neg hlap] at hhead
    exact absurd hhead.symm (Nat.succ_ne_self _)

/-- Whatever a handler posts, it can. -/
theorem Controller.makeCqEntryResults_answers (hctrl : ctrl.adminQ = some q) (hq : q.Ready) :
    ∃ ctrl', ctrl.makeCqEntryResults eid commandId ret r0 r1 = .ok ctrl' ∧
      AnsweredFor ctrl ctrl' eid commandId := by
  obtain ⟨pages, hpages, hdepth⟩ := hq.cq
  have hin : ¬ pages ≤ q.cqHead / nrCqePerPage := by
    have hlt : q.cqHead < pages * nrCqePerPage := Nat.lt_of_lt_of_le hq.cqHead hdepth
    exact Nat.not_le.mpr (Nat.div_lt_of_lt_mul (Nat.mul_comm _ _ ▸ hlt))
  have hpost : ∃ q', q.makeCqEntryResults eid commandId ret r0 r1 = .ok q' ∧
      PostedFor q q' eid commandId := by
    unfold AdminQueue.makeCqEntryResults
    rw [hpages]
    dsimp only
    rw [if_neg hin]
    exact ⟨_, rfl, ⟨⟨_, rfl, rfl, rfl⟩, rfl, rfl, rfl, rfl, rfl, hpages.symm⟩⟩
  obtain ⟨q', hok, hfor⟩ := hpost
  refine ⟨{ ctrl with adminQ := some q' }, ?_, q, q', hctrl, rfl, hfor⟩
  unfold Controller.makeCqEntryResults
  rw [hctrl]
  dsimp only
  rw [hok]
  rfl

/-- The entry is there. -/
theorem Controller.checkSqEntry_ok (hctrl : ctrl.adminQ = some q) (hq : q.Ready)
    (heid : eid < q.sqDepth) : ctrl.checkSqEntry eid = .ok () := by
  obtain ⟨pages, hpages, hdepth⟩ := hq.sq
  have hin : ¬ pages ≤ eid / nrSqePerPage := by
    have hlt : eid < pages * nrSqePerPage := Nat.lt_of_lt_of_le heid hdepth
    exact Nat.not_le.mpr (Nat.div_lt_of_lt_mul (Nat.mul_comm _ _ ▸ hlt))
  have hsq : ctrl.adminQ.bind AdminQueue.nvmeSq = some pages := by
    rw [hctrl]
    exact hpages
  unfold Controller.checkSqEntry
  rw [hsq]
  dsimp only
  rw [if_neg hin]
  rfl

/-- The slots of the completion queues. -/
theorem Controller.setCq_eq {qid : Nat} {cq : Option CompletionQueue} (h : qid ≤ nrMaxIoQueue) :
    ctrl.setCq qid cq = .ok { ctrl with cqes := Function.update ctrl.cqes qid cq } :=
  if_neg (Nat.not_lt.mpr h)

/-- The slots of the submission queues. -/
theorem Controller.setSq_eq {qid : Nat} {sq : Option SubmissionQueue} (h : qid ≤ nrMaxIoQueue) :
    ctrl.setSq qid sq = .ok { ctrl with sqes := Function.update ctrl.sqes qid sq } :=
  if_neg (Nat.not_lt.mpr h)

/-- What a command asks for exists if its handler comes to an end at all. -/
theorem Controller.answerable_of_ok (h : ctrl.procAdminReq eid cmd = .ok ctrl')
    (habort : cmd.opcode ≠ .abortCmd) : Answerable ctrl.nrNs cmd := by
  obtain ⟨_, _, h⟩ := of_bind_ok h
  unfold Answerable
  cases hop : cmd.opcode with
  | abortCmd => exact absurd hop habort
  | createCq =>
    rw [hop] at h
    obtain ⟨mid, hset, _⟩ := of_bind_ok (show ctrl.adminCreateCq eid cmd = .ok ctrl' from h)
    by_contra hqid
    exact nomatch (if_pos (Nat.not_le.mp hqid)).symm.trans hset
  | deleteCq =>
    rw [hop] at h
    obtain ⟨mid, hset, _⟩ := of_bind_ok (show ctrl.adminDeleteCq eid cmd = .ok ctrl' from h)
    by_contra hqid
    exact nomatch (if_pos (Nat.not_le.mp hqid)).symm.trans hset
  | createSq =>
    rw [hop] at h
    obtain ⟨mid, hset, _⟩ := of_bind_ok (show ctrl.adminCreateSq eid cmd = .ok ctrl' from h)
    by_contra hqid
    exact nomatch (if_pos (Nat.not_le.mp hqid)).symm.trans hset
  | deleteSq =>
    rw [hop] at h
    obtain ⟨mid, hset, _⟩ := of_bind_ok (show ctrl.adminDeleteSq eid cmd = .ok ctrl' from h)
    by_contra hqid
    exact nomatch (if_pos (Nat.not_le.mp hqid)).symm.trans hset
  | identify =>
    rw [hop] at h
    have hident : ctrl.adminIdentify eid cmd = .ok ctrl' := h
    intro hcns
    unfold adminIdentify adminIdentifyNs at hident
    rw [if_pos hcns] at hident
    split at hident
    · exact nomatch hident
    · omega
  | getLogPage =>
    rw [hop] at h
    have hlog : ctrl.adminGetLogPage eid cmd = .ok ctrl' := h
    intro size hsize
    unfold adminGetLogPage at hlog
    rw [hsize] at hlog
    dsimp only at hlog
    split at hlog
    · exact nomatch hlog
    · omega
  | setFeatures | getFeatures | asyncEvent | other => trivial

/-- A command is answered exactly when what it asks for exists. -/
theorem Controller.procAdminReq_answered_iff (hctrl : ctrl.adminQ = some q) (hq : q.Ready)
    (heid : eid < q.sqDepth) :
    (∃ ctrl', ctrl.procAdminReq eid cmd = .ok ctrl' ∧ AnsweredFor ctrl ctrl' eid cmd.commandId) ↔
      Answerable ctrl.nrNs cmd := by
  constructor
  · rintro ⟨ctrl', hok, hfor⟩
    apply answerable_of_ok hok
    intro hop
    obtain ⟨_, _, h⟩ := of_bind_ok hok
    rw [hop] at h
    obtain rfl := Except.ok.inj h
    exact not_answeredFor_self hfor
  · intro hans
    -- a handler, once it has come to its completion
    have answers : ∀ (mid : Controller) (ret r0 r1 : Nat), mid.adminQ = ctrl.adminQ →
        ∃ ctrl', mid.makeCqEntryResults eid cmd.commandId ret r0 r1 = .ok ctrl' ∧
          AnsweredFor ctrl ctrl' eid cmd.commandId := by
      intro mid ret r0 r1 hmid
      obtain ⟨ctrl', hok, q₀, q', hq₀, hq', hpost⟩ :=
        @makeCqEntryResults_answers mid q eid cmd.commandId ret r0 r1 (hmid.trans hctrl) hq
      exact ⟨ctrl', hok, q₀, q', hmid.symm.trans hq₀, hq', hpost⟩
    unfold procAdminReq
    rw [checkSqEntry_ok hctrl hq heid]
    unfold Answerable at hans
    cases hop : cmd.opcode with
    | abortCmd =>
      rw [hop] at hans
      exact hans.elim
    | createCq =>
      rw [hop] at hans
      show ∃ ctrl', ctrl.adminCreateCq eid cmd = _ ∧ _
      unfold adminCreateCq
      rw [setCq_eq hans]
      exact answers _ _ _ _ rfl
    | deleteCq =>
      rw [hop] at hans
      show ∃ ctrl', ctrl.adminDeleteCq eid cmd = _ ∧ _
      unfold adminDeleteCq
      rw [setCq_eq hans]
      exact answers _ _ _ _ rfl
    | createSq =>
      rw [hop] at hans
      show ∃ ctrl', ctrl.adminCreateSq eid cmd = _ ∧ _
      unfold adminCreateSq
      rw [setSq_eq hans]
      exact answers _ _ _ _ rfl
    | deleteSq =>
      rw [hop] at hans
      show ∃ ctrl', ctrl.adminDeleteSq eid cmd = _ ∧ _
      unfold adminDeleteSq
      rw [setSq_eq hans]
      exact answers _ _ _ _ rfl
    | identify =>
      rw [hop] at hans
      show ∃ ctrl', ctrl.adminIdentify eid cmd = _ ∧ _
      unfold adminIdentify adminIdentifyNs
      split
      · rename_i hcns
        have hns := hans hcns
        rw [if_neg (by omega)]
        exact answers _ _ _ _ rfl
      · split
        · exact answers _ _ _ _ rfl
        · exact answers _ _ _ _ rfl
    | getLogPage =>
      rw [hop] at hans
      show ∃ ctrl', ctrl.adminGetLogPage eid cmd = _ ∧ _
      unfold adminGetLogPage
      split
      · exact answers _ _ _ _ rfl
      · rename_i size hsize
        rw [if_neg (Nat.not_lt.mpr (hans size hsize))]
        exact answers _ _ _ _ rfl
    | setFeatures =>
      show ∃ ctrl', ctrl.adminSetFeatures eid cmd = _ ∧ _
      unfold adminSetFeatures
      split
      · exact answers _ _ _ _ rfl
      · exact answers _ _ _ _ rfl
    | getFeatures =>
      show ∃ ctrl', ctrl.adminGetFeatures eid cmd = _ ∧ _
      unfold adminGetFeatures
      split
      · exact answers _ _ _ _ rfl
      · exact answers _ _ _ _ rfl
    | asyncEvent | other => exact answers _ _ _ _ rfl

end Command

/-! ## A batch -/

section Batch

variable {ctrl ctrl' : Controller} {q : AdminQueue} {sq : Nat → AdminCommand}

/-- How many entries a doorbell stands for. -/
def AdminQueue.batchLength (q : AdminQueue) (newDb oldDb : Nat) : Nat :=
  if newDb < oldDb then newDb + q.sqDepth - oldDb else newDb - oldDb

/-- The entries of a batch are answered one by one, each with one completion that carries its command
id, in slots that follow each other from the head on. -/
def BatchAnswered (ctrl : Controller) (q : AdminQueue) (sq : Nat → AdminCommand)
    (newDb oldDb : Nat) : Prop :=
  ∃ run : Nat → Controller, run 0 = ctrl ∧
    ctrl.nvmevProcAdminSq sq newDb oldDb = .ok (run (q.batchLength newDb oldDb)) ∧
    ∀ i, i < q.batchLength newDb oldDb →
      (run i).procAdminReq ((oldDb + i) % q.sqDepth) (sq ((oldDb + i) % q.sqDepth)) =
        .ok (run (i + 1)) ∧
      AnsweredFor (run i) (run (i + 1)) ((oldDb + i) % q.sqDepth)
        (sq ((oldDb + i) % q.sqDepth)).commandId ∧
      (run i).adminQ.map AdminQueue.cqHead = some ((q.cqHead + i) % q.cqDepth)

theorem Controller.prepared_nrNs (ctrl : Controller) (cmd : AdminCommand) :
    (ctrl.prepared cmd).nrNs = ctrl.nrNs := by
  unfold prepared
  cases cmd.opcode with
  | setFeatures =>
    dsimp only
    split
    · rfl
    · rfl
  | _ => rfl

/-- No command makes a namespace. -/
theorem AdminDone.nrNs {cmd : AdminCommand} (h : AdminDone ctrl ctrl' cmd) :
    ctrl'.nrNs = ctrl.nrNs := by
  cases h with
  | aborted _ hsame => rw [hsame]
  | posted hpost _ =>
    obtain ⟨_, _, _, rfl, _⟩ := hpost
    exact ctrl.prepared_nrNs cmd

/-- The loop, if all its entries can be answered. -/
theorem Controller.procAdminEntries_answered (numProc : Nat) :
    ∀ {ctrl : Controller} {q : AdminQueue} {curr : Nat}, ctrl.adminQ = some q → q.Ready →
      curr < q.sqDepth →
      (∀ i, i < numProc → Answerable ctrl.nrNs (sq ((curr + i) % q.sqDepth))) →
      ∃ run : Nat → Controller, run 0 = ctrl ∧
        procAdminEntries sq q.sqDepth numProc curr ctrl = .ok (run numProc) ∧
        ∀ i, i < numProc →
          (run i).procAdminReq ((curr + i) % q.sqDepth) (sq ((curr + i) % q.sqDepth)) =
            .ok (run (i + 1)) ∧
          AnsweredFor (run i) (run (i + 1)) ((curr + i) % q.sqDepth)
            (sq ((curr + i) % q.sqDepth)).commandId ∧
          (run i).adminQ.map AdminQueue.cqHead = some ((q.cqHead + i) % q.cqDepth) := by
  induction numProc with
  | zero =>
    intro ctrl q curr _ _ _ _
    exact ⟨fun _ => ctrl, rfl, rfl, nofun⟩
  | succ numProc ih =>
    intro ctrl q curr hctrl hq hcurr hans
    have hpos := Nat.zero_lt_of_lt hcurr
    have hhere := hans 0 (Nat.succ_pos _)
    rw [Nat.add_zero, Nat.mod_eq_of_lt hcurr] at hhere
    obtain ⟨mid, hok, hfor⟩ := (procAdminReq_answered_iff hctrl hq hcurr).mpr hhere
    obtain ⟨q₀, q', hq₀, hq', hpost⟩ := id hfor
    obtain rfl : q = q₀ := Option.some.inj (hctrl.symm.trans hq₀)
    -- the rest of the batch starts at the next entry, with the next slot
    have hnext : (if curr + 1 = q.sqDepth then 0 else curr + 1) = (curr + 1) % q.sqDepth := by
      rw [succ_mod_ring hpos, Nat.mod_eq_of_lt hcurr]
    have hentry : ∀ i, ((curr + 1) % q.sqDepth + i) % q.sqDepth = (curr + (i + 1)) % q.sqDepth := by
      intro i
      rw [Nat.mod_add_mod, Nat.add_assoc, Nat.add_comm 1]
    have hslot : ∀ i, (q'.cqHead + i) % q.cqDepth = (q.cqHead + (i + 1)) % q.cqDepth := by
      intro i
      rw [hpost.next hq, Nat.mod_add_mod, Nat.add_assoc, Nat.add_comm 1]
    have hrest := @ih mid q' ((curr + 1) % q.sqDepth) hq' (hpost.ready hq)
    rw [hpost.sqDepth, hpost.cqDepth, (procAdminReq_done hok).nrNs] at hrest
    obtain ⟨run, hzero, hloop, hrun⟩ := hrest (Nat.mod_lt _ hpos) (by
      intro i hi
      rw [hentry]
      exact hans (i + 1) (Nat.succ_lt_succ hi))
    refine ⟨fun i => Nat.casesOn i ctrl run, rfl, ?_, ?_⟩
    · unfold procAdminEntries
      rw [hok, hnext]
      exact hloop
    · intro i hi
      cases i with
      | zero =>
        rw [Nat.add_zero, Nat.mod_eq_of_lt hcurr, Nat.add_zero q.cqHead, Nat.mod_eq_of_lt hq.cqHead]
        show ctrl.procAdminReq curr (sq curr) = .ok (run 0) ∧ AnsweredFor ctrl (run 0) _ _ ∧ _
        rw [hzero]
        exact ⟨hok, hfor, congrArg (Option.map AdminQueue.cqHead) hctrl⟩
      | succ i =>
        have hi := hrun i (Nat.lt_of_succ_lt_succ hi)
        rw [hentry, hslot] at hi
        exact hi

/-- A batch of admin commands is answered, one completion for each entry, exactly when it holds no
abort and every queue, namespace and log page it asks for exists. The rings are whole pages and the
head is in its ring, which the writes of the registers see to. The data pages the commands name lie
apart from the rings: what a command stores there is not among the entries. -/
theorem admin_batch_answered_iff {newDb oldDb : Nat} (hctrl : ctrl.adminQ = some q) (hq : q.Ready)
    (hold : oldDb < q.sqDepth) :
    BatchAnswered ctrl q sq newDb oldDb ↔
      ∀ i, i < q.batchLength newDb oldDb → Answerable ctrl.nrNs (sq ((oldDb + i) % q.sqDepth)) := by
  have hloop : ctrl.nvmevProcAdminSq sq newDb oldDb =
      Controller.procAdminEntries sq q.sqDepth (q.batchLength newDb oldDb) oldDb ctrl := by
    unfold Controller.nvmevProcAdminSq
    rw [hctrl]
    rfl
  constructor
  · rintro ⟨run, hzero, _, hrun⟩ i hi
    have hnrNs : ∀ k, k ≤ i → (run k).nrNs = ctrl.nrNs := by
      intro k hk
      induction k with
      | zero => rw [hzero]
      | succ k ih =>
        have hdone := Controller.procAdminReq_done (hrun k (Nat.lt_trans hk hi)).1
        exact hdone.nrNs.trans (ih (Nat.le_of_succ_le hk))
    obtain ⟨hok, hfor, _⟩ := hrun i hi
    rw [← hnrNs i (Nat.le_refl i)]
    apply Controller.answerable_of_ok hok
    intro hop
    obtain ⟨_, _, h⟩ := of_bind_ok hok
    rw [hop] at h
    have hself : run i = run (i + 1) := Except.ok.inj h
    rw [← hself] at hfor
    exact not_answeredFor_self hfor
  · intro hans
    obtain ⟨run, hzero, hok, hrun⟩ :=
      Controller.procAdminEntries_answered _ hctrl hq hold hans
    exact ⟨run, hzero, hloop.trans hok, hrun⟩

/-! ## The queue the registers set up -/

theorem le_divRoundUp_mul (n : Nat) {d : Nat} (hd : 0 < d) : n ≤ divRoundUp n d * d := by
  have hdiv := Nat.div_add_mod (n + d - 1) d
  have hmod := Nat.mod_lt (n + d - 1) hd
  unfold divRoundUp
  rw [Nat.mul_comm]
  omega

/-- Once the host has given depths and addresses, the rings lie in their pages. -/
theorem Controller.ready_of_registers (ctrl : Controller) :
    ∃ q, ctrl.procAqa.procAsq.procAcq.adminQ = some q ∧ q.Ready ∧
      q.sqDepth = ctrl.bar.asqs + 1 ∧ q.cqDepth = ctrl.bar.acqs + 1 :=
  ⟨_, rfl, ⟨⟨_, rfl, le_divRoundUp_mul _ (by decide)⟩, ⟨_, rfl, le_divRoundUp_mul _ (by decide)⟩,
    Nat.succ_pos _⟩, rfl, rfl⟩

/-- A controller whose host asks for admin rings of four entries. -/
def askingController : Controller where
  bar := ⟨0x30003, 0x1000, 0x2000, 0x1⟩
  oldBar := ⟨0, 0, 0, 0⟩
  csts := ⟨0, 0⟩
  dbs := fun _ => 0
  oldDbs := fun _ => 0
  nrNs := 1
  nrSq := 0
  nrCq := 0
  adminQ := none
  sqes := fun _ => none
  cqes := fun _ => none

/-- An admin command without an argument. -/
def plainCommand (opcode : AdminOpcode) (commandId : Nat) : AdminCommand where
  opcode := opcode
  commandId := commandId
  qid := 0
  cqid := 0
  qsize := 0
  irqEnabled := false
  irqVector := 0
  nsid := 0
  lid := .other
  numdl := 0
  numdu := 0
  cns := 0
  numQueues := false
  dword11 := 0

theorem admin_batch_answered_iff_registered :
    ∃ q, askingController.procAqa.procAsq.procAcq.adminQ = some q ∧
      BatchAnswered askingController.procAqa.procAsq.procAcq q (plainCommand .getFeatures) 2 3 := by
  obtain ⟨q, hq, hready, hsq, _⟩ := askingController.ready_of_registers
  have hdepth : q.sqDepth = 4 := hsq
  refine ⟨q, hq, (admin_batch_answered_iff hq hready ?_).mpr fun _ _ => trivial⟩
  rw [hdepth]
  decide

/-- An abort is consumed, and no completion is posted for it. -/
theorem abort_is_not_answered :
    ¬ ∀ (ctrl : Controller) (q : AdminQueue) (sq : Nat → AdminCommand) (newDb oldDb : Nat),
      ctrl.adminQ = some q → q.Ready → oldDb < q.sqDepth → BatchAnswered ctrl q sq newDb oldDb := by
  intro hall
  obtain ⟨q, hq, hready, hsq, _⟩ := askingController.ready_of_registers
  have hdepth : q.sqDepth = 4 := hsq
  have hold : 0 < q.sqDepth := by
    rw [hdepth]
    decide
  have hans := hall _ q (fun _ => plainCommand .abortCmd 7) 1 0 hq hready hold
  obtain ⟨run, hzero, _, hrun⟩ := hans
  have hone : 0 < q.batchLength 1 0 := Nat.one_pos
  obtain ⟨hok, hfor, _⟩ := hrun 0 hone
  obtain ⟨_, _, h⟩ := of_bind_ok hok
  have hself : run 0 = run 1 := Except.ok.inj h
  rw [← hself] at hfor
  exact not_answeredFor_self hfor

end Batch

end NvmeVirt

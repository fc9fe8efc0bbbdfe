import NvmeVirt.Lib.Ring
import NvmeVirt.Lib.System
import NvmeVirt.Io.Worker
import NvmeVirt.Laws.Io.Admin

/-!
# Completion rings

A run is made of register writes and polls, doorbell writes, admin commands and completions. Beside
the controller it keeps, for each completion ring, the slots and tags of the completions posted
since the ring was last restarted. Posting keeps a ring in step. The steps that restart the admin
ring set the phase as well, but for the shutdown, which leaves it: the admin ring stays in step
where every shutdown finds the phase at 1.

`InStep` says where head and phase are after the posts so far: as a host that reads the ring slot by
slot expects them. It is kept by one post (`InStep.advance`), so each of the two invariants has one
interesting step.

Whether the host has read an entry before it is used again is not asked here; see
`Laws/Io/Delivery`.
-/

set_option autoImplicit false

namespace NvmeVirt

/-- The controller, and the slots and tags used since the last restart. -/
structure RingRun where
  ctrl : Controller
  adminPosts : List (Nat × Bool)
  posts : Nat → List (Nat × Bool)

inductive RingEvent where
  | writeRegisters (bar : NvmeBar)
  | writeDoorbell (idx value : Nat)
  | procBars
  | adminReq (eid : Nat) (cmd : AdminCommand)
  | fillCqResult (result : CqResult)

/-- The steps of `nvmev_proc_bars` that put the admin ring back to slot 0. -/
def Controller.Restarts (ctrl : Controller) : Prop :=
  ctrl.barChange = some .aqa ∨ ctrl.barChange = some .acq ∧ ctrl.adminQ ≠ none ∨
    ctrl.barChange = some .cc ∧ ctrl.bar.shn = 1

instance (ctrl : Controller) : Decidable ctrl.Restarts :=
  haveI : Decidable (ctrl.adminQ ≠ none) :=
    decidable_of_iff (ctrl.adminQ.isSome = true) (by cases ctrl.adminQ <;> simp)
  inferInstanceAs (Decidable (_ ∨ _ ∧ _ ∨ _ ∧ _))

/-- What an admin command posted: every one but `nvme_admin_abort_cmd` posts to the head. -/
def adminPost (ctrl ctrl' : Controller) (cmd : AdminCommand) : List (Nat × Bool) :=
  match cmd.opcode, ctrl.adminQ, ctrl'.adminQ with
  | .abortCmd, _, _ => []
  | _, some q, some q' => [(q.cqHead, (q'.cq q.cqHead).tag)]
  | _, _, _ => []

inductive RingStep : RingRun → RingEvent → RingRun → Prop where
  | writeRegisters {s : RingRun} {bar : NvmeBar} :
    RingStep s (.writeRegisters bar) { s with ctrl := { s.ctrl with bar } }
  | writeDoorbell {s : RingRun} {idx value : Nat} :
    RingStep s (.writeDoorbell idx value)
      { s with ctrl := { s.ctrl with dbs := Function.update s.ctrl.dbs idx value } }
  | procBars {s : RingRun} {ctrl' : Controller} {event : Bool} :
    s.ctrl.nvmevProcBars = .ok (ctrl', event) →
    RingStep s .procBars { s with
      ctrl := ctrl', adminPosts := if s.ctrl.Restarts then [] else s.adminPosts }
  | adminReq {s : RingRun} {eid : Nat} {cmd : AdminCommand} {ctrl' : Controller} :
    s.ctrl.procAdminReq eid cmd = .ok ctrl' →
    RingStep s (.adminReq eid cmd) {
      ctrl := ctrl', adminPosts := s.adminPosts ++ adminPost s.ctrl ctrl' cmd
      posts := if cmd.opcode = .createCq then Function.update s.posts cmd.qid [] else s.posts }
  | fillCqResult {s : RingRun} {r : CqResult} {cq cq' : CompletionQueue} :
    s.ctrl.cqes r.cqid = some cq →
    cq' = cq.fillCqResult r.sqid r.sqEntry r.commandId r.status r.result0 r.result1 →
    RingStep s (.fillCqResult r) { s with
      ctrl := { s.ctrl with cqes := Function.update s.ctrl.cqes r.cqid (some cq') }
      posts := Function.update s.posts r.cqid
        (s.posts r.cqid ++ [(cq.cqHead, (cq'.cq cq.cqHead).tag)]) }

/-- Runs from a device without queues. -/
def ringRuns : System RingRun RingEvent where
  init s := s.ctrl.adminQ = none ∧ (∀ qid, s.ctrl.cqes qid = none) ∧ s.adminPosts = []
  step := RingStep

/-- The admin queue, if there is one, is at phase 1 when the controller is shut down. -/
def ShutsDownInPhase (s : RingRun) : RingEvent → Prop
  | .procBars => s.ctrl.barChange = some .cc → s.ctrl.bar.shn = 1 →
      ∀ q, s.ctrl.adminQ = some q → q.phase = true
  | _ => True

/-- The admin completion ring is in step. -/
def AdminInStep (s : RingRun) : Prop :=
  ∀ q, s.ctrl.adminQ = some q → InStep q.cqDepth q.cqHead q.phase s.adminPosts

/-- The I/O completion rings are in step. -/
def QueuesInStep (s : RingRun) : Prop :=
  ∀ qid cq, s.ctrl.cqes qid = some cq → InStep cq.queueSize cq.cqHead cq.phase (s.posts qid)

/-! ## Posting -/

section Posting

/-- One completion more. -/
theorem InStep.advance {depth head : Nat} {phase : Bool} {uses : List (Nat × Bool)}
    (h : InStep depth head phase uses) :
    InStep depth (advanceHead depth head phase).1 (advanceHead depth head phase).2
      (uses ++ [(head, phase)]) := by
  have huse := h.use
  unfold advanceHead
  by_cases hwrap : head + 1 = depth
  · rw [if_pos hwrap, if_pos hwrap] at huse
    rw [if_pos hwrap]
    exact huse
  · rw [if_neg hwrap, if_neg hwrap] at huse
    rw [if_neg hwrap]
    exact huse

/-- A completion carries the phase of the ring. -/
theorem CompletionQueue.fillCqResult_tag (cq : CompletionQueue)
    (sqid sqEntry commandId status result0 result1 : Nat) :
    ((cq.fillCqResult sqid sqEntry commandId status result0 result1).cq cq.cqHead).tag = cq.phase := by
  apply tag_completionStatus
  unfold CompletionQueue.fillCqResult
  dsimp only
  rw [Function.update_self]

end Posting

/-! ## What the polls of the registers do -/

section Bars

variable {ctrl ctrl' : Controller} {event : Bool}

/-- A poll leaves the I/O queues, and the admin ring as it is, restarted, or shut down. -/
inductive BarsDone (ctrl ctrl' : Controller) : Prop where
  | kept : ¬ ctrl.Restarts →
    (∀ q', ctrl'.adminQ = some q' → ∃ q, ctrl.adminQ = some q ∧ q'.cqDepth = q.cqDepth ∧
      q'.cqHead = q.cqHead ∧ q'.phase = q.phase) → BarsDone ctrl ctrl'
  | restarted : ctrl.Restarts → ctrl.barChange ≠ some .cc →
    (∀ q', ctrl'.adminQ = some q' → 0 < q'.cqDepth ∧ q'.cqHead = 0 ∧ q'.phase = true) →
    BarsDone ctrl ctrl'
  | shutDown : ctrl.Restarts → ctrl.barChange = some .cc → ctrl.bar.shn = 1 →
    (∃ q q', ctrl.adminQ = some q ∧ ctrl'.adminQ = some q' ∧ q'.cqDepth = q.cqDepth ∧
      q'.cqHead = 0 ∧ q'.phase = q.phase) → BarsDone ctrl ctrl'

theorem Controller.enable_admin (ctrl : Controller) :
    ctrl.enable.adminQ = ctrl.adminQ ∧ ctrl.enable.cqes = ctrl.cqes := by
  unfold Controller.enable
  split
  · split
    · exact ⟨rfl, rfl⟩
    · exact ⟨rfl, rfl⟩
  · exact ⟨rfl, rfl⟩

/-- A shutdown puts the head of the admin ring to 0, and nothing else of it. -/
theorem Controller.shutdown_ok (h : ctrl.shutdown = .ok ctrl') : ctrl'.cqes = ctrl.cqes ∧
    ∃ q, ctrl.adminQ = some q ∧ ctrl'.adminQ = some { q with cqHead := 0 } := by
  unfold Controller.shutdown resetDoorbell at h
  dsimp only at h
  cases hq : ctrl.adminQ with
  | none =>
    rw [hq] at h
    exact nomatch h
  | some q =>
    rw [hq] at h
    obtain rfl := Except.ok.inj h
    exact ⟨rfl, q, rfl, rfl⟩

/-- `cc` says nothing of the I/O queues. -/
theorem Controller.procCc_cqes (h : ctrl.procCc = .ok ctrl') : ctrl'.cqes = ctrl.cqes := by
  obtain ⟨mid, hmid, h⟩ := of_bind_ok h
  obtain rfl := Except.ok.inj h
  show mid.cqes = ctrl.cqes
  unfold Controller.enableOrShutdown at hmid
  split at hmid
  · exact (shutdown_ok hmid).1.trans ctrl.enable_admin.2
  · rw [← Except.ok.inj hmid]
    exact ctrl.enable_admin.2

/-- Nor do the other registers. -/
theorem Controller.nvmevProcBars_cqes (h : ctrl.nvmevProcBars = .ok (ctrl', event)) :
    ctrl'.cqes = ctrl.cqes := by
  unfold Controller.nvmevProcBars at h
  split at h
  · obtain ⟨rfl, _⟩ := Prod.mk.inj (Except.ok.inj h)
    rfl
  · obtain ⟨rfl, _⟩ := Prod.mk.inj (Except.ok.inj h)
    unfold Controller.procAsq
    split
    · rfl
    · rfl
  · obtain ⟨rfl, _⟩ := Prod.mk.inj (Except.ok.inj h)
    unfold Controller.procAcq
    split
    · rfl
    · rfl
  · obtain ⟨mid, hmid, h⟩ := of_bind_ok h
    obtain ⟨rfl, _⟩ := Prod.mk.inj (Except.ok.inj h)
    exact procCc_cqes hmid
  · obtain ⟨rfl, _⟩ := Prod.mk.inj (Except.ok.inj h)
    rfl

/-- What processing `cc` does to the admin ring. -/
theorem Controller.procCc_done (hcc : ctrl.barChange = some .cc) (h : ctrl.procCc = .ok ctrl') :
    BarsDone ctrl ctrl' := by
  obtain ⟨mid, hmid, h⟩ := of_bind_ok h
  obtain rfl := Except.ok.inj h
  have henable := ctrl.enable_admin.1
  unfold Controller.enableOrShutdown at hmid
  split at hmid
  · rename_i hshn
    have hrestarts : ctrl.Restarts := .inr (.inr ⟨hcc, hshn⟩)
    obtain ⟨_, q, hq, hq'⟩ := shutdown_ok hmid
    exact .shutDown hrestarts hcc hshn ⟨q, _, henable ▸ hq, hq', rfl, rfl, rfl⟩
  · rename_i hshn
    have hkept : ¬ ctrl.Restarts := by
      rintro (haqa | ⟨hacq, _⟩ | ⟨_, hshut⟩)
      · rw [hcc] at haqa
        exact nomatch haqa
      · rw [hcc] at hacq
        exact nomatch hacq
      · exact hshn hshut
    refine .kept hkept fun q' hq' => ?_
    obtain rfl := Except.ok.inj hmid
    exact ⟨q', henable ▸ hq', rfl, rfl, rfl⟩

/-- What a poll of the registers does to it. -/
theorem Controller.nvmevProcBars_done (h : ctrl.nvmevProcBars = .ok (ctrl', event)) :
    BarsDone ctrl ctrl' := by
  have hkept : ∀ change, ctrl.barChange = change → change ≠ some .aqa → change ≠ some .cc →
      (change = some .acq → ctrl.adminQ = none) → ¬ ctrl.Restarts := by
    rintro change hchange haqa hcc hacq (h | ⟨h, hsome⟩ | ⟨h, _⟩)
    · exact haqa (hchange.symm.trans h)
    · exact hsome (hacq (hchange.symm.trans h))
    · exact hcc (hchange.symm.trans h)
  unfold Controller.nvmevProcBars at h
  cases hchange : ctrl.barChange with
  | none =>
    rw [hchange] at h
    obtain ⟨rfl, _⟩ := Prod.mk.inj (Except.ok.inj h)
    exact .kept (hkept none hchange nofun nofun nofun) fun q hq => ⟨q, hq, rfl, rfl, rfl⟩
  | some change =>
    rw [hchange] at h
    cases change with
    | aqa =>
      obtain ⟨rfl, _⟩ := Prod.mk.inj (Except.ok.inj h)
      refine .restarted (.inl hchange) (by rw [hchange]; exact nofun) fun q' hq' => ?_
      rw [← Option.some.inj (show some _ = some q' from hq')]
      exact ⟨Nat.succ_pos _, rfl, rfl⟩
    | asq =>
      obtain ⟨rfl, _⟩ := Prod.mk.inj (Except.ok.inj h)
      refine .kept (hkept _ hchange nofun nofun nofun) fun q' hq' => ?_
      unfold Controller.procAsq at hq'
      cases hq : ctrl.adminQ with
      | none =>
        rw [hq] at hq'
        exact nomatch hq.symm.trans hq'
      | some q =>
        rw [hq] at hq'
        rw [← Option.some.inj (show some _ = some q' from hq')]
        exact ⟨q, rfl, rfl, rfl, rfl⟩
    | acq =>
      obtain ⟨rfl, _⟩ := Prod.mk.inj (Except.ok.inj h)
      cases hq : ctrl.adminQ with
      | none =>
        refine .kept (hkept _ hchange nofun nofun fun _ => hq) fun q' hq' => ?_
        unfold Controller.procAcq at hq'
        rw [hq] at hq'
        exact nomatch hq.symm.trans hq'
      | some q =>
        refine .restarted (.inr (.inl ⟨hchange, by rw [hq]; exact nofun⟩))
          (by rw [hchange]; exact nofun) fun q' hq' => ?_
        unfold Controller.procAcq at hq'
        rw [hq] at hq'
        rw [← Option.some.inj (show some _ = some q' from hq')]
        exact ⟨Nat.succ_pos _, rfl, rfl⟩
    | cc =>
      obtain ⟨mid, hmid, h⟩ := of_bind_ok h
      obtain ⟨rfl, _⟩ := Prod.mk.inj (Except.ok.inj h)
      exact procCc_done hchange hmid

end Bars

/-! ## Runs -/

section Runs

variable {s s' : RingRun} {l : RingEvent}

/-- Every step keeps the I/O rings in step. -/
theorem QueuesInStep.step (h : QueuesInStep s) (hstep : RingStep s l s') : QueuesInStep s' := by
  cases hstep with
  | writeRegisters => exact h
  | writeDoorbell => exact h
  | procBars hok =>
    intro qid cq hcq
    exact h qid cq (Controller.nvmevProcBars_cqes hok ▸ hcq)
  | @adminReq eid cmd ctrl' hok =>
    intro qid cq hcq
    show InStep _ _ _ ((if cmd.opcode = AdminOpcode.createCq then Function.update s.posts cmd.qid []
      else s.posts) qid)
    have hcq' : ctrl'.cqes qid = some cq := hcq
    rw [(Controller.procAdminReq_done hok).cqes] at hcq'
    rcases cqesAfter_cases hcq' with ⟨hcreate, hqid, hnew⟩ | ⟨hother, hold⟩
    · rw [if_pos hcreate, hqid, Function.update_self, hnew]
      exact .start (Nat.succ_pos _)
    · by_cases hcreate : cmd.opcode = .createCq
      · rw [if_pos hcreate, Function.update_of_ne (hother hcreate)]
        exact h qid cq hold
      · rw [if_neg hcreate]
        exact h qid cq hold
  | @fillCqResult r cq cq' hcq hfill =>
    intro qid other hother
    by_cases hqid : qid = r.cqid
    · have hcq' : cq' = other := by
        have hself : Function.update s.ctrl.cqes r.cqid (some cq') r.cqid = some other :=
          hqid ▸ hother
        rw [Function.update_self] at hself
        exact Option.some.inj hself
      rw [hqid]
      show InStep _ _ _ (Function.update s.posts r.cqid _ r.cqid)
      rw [Function.update_self, ← hcq', hfill, CompletionQueue.fillCqResult_tag]
      exact (h r.cqid cq hcq).advance
    · show InStep _ _ _ (Function.update s.posts r.cqid _ qid)
      rw [Function.update_of_ne hqid]
      exact h qid other ((Function.update_of_ne hqid ..).symm.trans hother)

/-- The I/O rings are in step in every run, shutdowns and new queues included. -/
theorem ringRuns_queues : ringRuns.Invariant QueuesInStep where
  init _ hs qid _ hcq := nomatch (hs.2.1 qid).symm.trans hcq
  step _ _ _ hs hstep := hs.step hstep

/-- A shutdown keeps the admin ring in step exactly when it finds the phase at 1. -/
theorem InStep.shutdown_iff {depth : Nat} {phase : Bool} (hpos : 0 < depth) :
    InStep depth 0 phase [] ↔ phase = true := by
  constructor
  · intro h
    rw [h.phase]
    exact (InStep.start hpos).phase.symm
  · rintro rfl
    exact .start hpos

/-- An admin command posts one completion. -/
theorem AdminInStep.adminReq (h : AdminInStep s) {eid : Nat} {cmd : AdminCommand}
    {ctrl' : Controller} (hok : s.ctrl.procAdminReq eid cmd = .ok ctrl') {q' : AdminQueue}
    (hq' : ctrl'.adminQ = some q') :
    InStep q'.cqDepth q'.cqHead q'.phase (s.adminPosts ++ adminPost s.ctrl ctrl' cmd) := by
  cases Controller.procAdminReq_done hok with
  | aborted hop hsame =>
    unfold adminPost
    rw [hop, List.append_nil]
    exact h q' (hsame ▸ hq')
  | posted hpost habort =>
    obtain ⟨q, q'', hq, rfl, hposted⟩ := hpost
    obtain rfl : q'' = q' := Option.some.inj hq'
    rw [s.ctrl.prepared_adminQ cmd] at hq
    have hpost' : adminPost s.ctrl { s.ctrl.prepared cmd with adminQ := some q'' } cmd =
        [(q.cqHead, q.phase)] := by
      unfold adminPost
      rw [hq]
      cases hop : cmd.opcode with
      | abortCmd => exact absurd hop habort
      | _ => rw [← hposted.tag]
    rw [hpost', hposted.cqDepth, hposted.cqHead, hposted.phase]
    exact (h q hq).advance

/-- Every step that does not shut down in the other phase keeps the admin ring in step. -/
theorem AdminInStep.step (h : AdminInStep s) (hkeeps : ShutsDownInPhase s l)
    (hstep : RingStep s l s') : AdminInStep s' := by
  cases hstep with
  | writeRegisters => exact h
  | writeDoorbell => exact h
  | @procBars ctrl' event hok =>
    intro q' hq'
    show InStep _ _ _ (if s.ctrl.Restarts then [] else s.adminPosts)
    cases Controller.nvmevProcBars_done hok with
    | kept hrestarts hsame =>
      obtain ⟨q, hq, hdepth, hhead, hphase⟩ := hsame q' hq'
      rw [if_neg hrestarts, hdepth, hhead, hphase]
      exact h q hq
    | restarted hrestarts _ hnew =>
      obtain ⟨hpos, hhead, hphase⟩ := hnew q' hq'
      rw [if_pos hrestarts, hhead, hphase]
      exact .start hpos
    | shutDown hrestarts hcc hshn hshut =>
      obtain ⟨q, q'', hq, hq'', hdepth, hhead, hphase⟩ := hshut
      obtain rfl : q'' = q' := Option.some.inj (hq''.symm.trans hq')
      rw [if_pos hrestarts, hdepth, hhead, hphase]
      exact (InStep.shutdown_iff (h q hq).depth_pos).mpr (hkeeps hcc hshn q hq)
  | adminReq hok => exact fun q' hq' => h.adminReq hok hq'
  | fillCqResult _ _ => exact h

/-- The admin ring is in step as long as every shutdown finds its phase at 1. -/
theorem ringRuns_admin : (ringRuns.guarded ShutsDownInPhase).Invariant AdminInStep where
  init _ hs _ hq := nomatch hs.1.symm.trans hq
  step _ _ _ hs hstep := hs.step hstep.1 hstep.2

/-- In every run whose shutdowns find the admin phase at 1, every completion ring is in step: the
head and the phase are where the completions since the last restart put them, and each went to its
slot with its tag. A shutdown that finds the phase at 0, after an odd number of laps, puts the admin
ring out of step. Register writes come in any order, between any two passes of the dispatcher over
the registers; the I/O rings are in step whatever the shutdowns. -/
theorem completion_rings_in_step (h : (ringRuns.guarded ShutsDownInPhase).Reachable s) :
    QueuesInStep s ∧ AdminInStep s ∧
      ∀ s' q, s.ctrl.adminQ = some q → RingStep s .procBars s' → s.ctrl.barChange = some .cc →
        s.ctrl.bar.shn = 1 → (AdminInStep s' ↔ s.adminPosts.length / q.cqDepth % 2 = 0) := by
  have hqueues := ringRuns_queues.reachable h.of_guarded
  have hadmin := ringRuns_admin.reachable h
  refine ⟨hqueues, hadmin, fun s' q hq hstep hcc hshn => ?_⟩
  have hin := hadmin q hq
  have hphase : q.phase = true ↔ s.adminPosts.length / q.cqDepth % 2 = 0 := by
    rw [hin.phase]
    exact decide_eq_true_iff
  rw [← hphase]
  cases hstep with
  | @procBars ctrl' event hok =>
    cases Controller.nvmevProcBars_done hok with
    | kept hrestarts _ => exact absurd (.inr (.inr ⟨hcc, hshn⟩)) hrestarts
    | restarted _ hne _ => exact absurd hcc hne
    | shutDown hrestarts _ _ hshut =>
      obtain ⟨q₀, q', hq₀, hq', hdepth, hhead, hsame⟩ := hshut
      obtain rfl : q₀ = q := Option.some.inj (hq₀.symm.trans hq)
      rw [← InStep.shutdown_iff hin.depth_pos, ← hsame, ← hdepth, ← hhead]
      have hposts : (if s.ctrl.Restarts then [] else s.adminPosts) = [] := if_pos hrestarts
      constructor
      · intro hadmin'
        exact hposts ▸ hadmin' q' hq'
      · intro hring q'' hq''
        obtain rfl : q' = q'' := Option.some.inj (hq'.symm.trans hq'')
        show InStep _ _ _ (if s.ctrl.Restarts then [] else s.adminPosts)
        rw [hposts]
        exact hring

/-- A device without queues. -/
def bootedRun : RingRun where
  ctrl := {
    bar := ⟨0, 0, 0, 0⟩, oldBar := ⟨0, 0, 0, 0⟩, csts := ⟨0, 0⟩, dbs := fun _ => 0
    oldDbs := fun _ => 0, nrNs := 1, nrSq := 0, nrCq := 0, adminQ := none
    sqes := fun _ => none, cqes := fun _ => none }
  adminPosts := []
  posts := fun _ => []

theorem bootedRun_init : ringRuns.init bootedRun := ⟨rfl, fun _ => rfl, rfl⟩

/-- The registers for an admin queue of two entries. -/
def twoEntryBar : NvmeBar := { aqa := 0x10001, asq := 0x1000, acq := 0x2000, cc := 0x1 }

def asyncEventCommand : AdminCommand where
  opcode := .asyncEvent
  commandId := 0
  qid := 0
  cqid := 0
  qsize := 0
  irqEnabled := false
  irqVector := 0
  nsid := 0
  lid := .other
  numdl := 0
  numdu := 0
  cns := 0
  numQueues := false
  dword11 := 0

/-- The state after an event, if it can happen. -/
def RingRun.next (s : RingRun) : RingEvent → Option RingRun
  | .writeRegisters bar => some { s with ctrl := { s.ctrl with bar } }
  | .writeDoorbell idx value =>
    some { s with ctrl := { s.ctrl with dbs := Function.update s.ctrl.dbs idx value } }
  | .procBars =>
    match s.ctrl.nvmevProcBars with
    | .ok (ctrl', _) =>
      some { s with ctrl := ctrl', adminPosts := if s.ctrl.Restarts then [] else s.adminPosts }
    | .error _ => none
  | .adminReq eid cmd =>
    match s.ctrl.procAdminReq eid cmd with
    | .ok ctrl' => some {
        ctrl := ctrl', adminPosts := s.adminPosts ++ adminPost s.ctrl ctrl' cmd
        posts := if cmd.opcode = .createCq then Function.update s.posts cmd.qid [] else s.posts }
    | .error _ => none
  | .fillCqResult r => (s.ctrl.cqes r.cqid).map fun cq =>
    let cq' := cq.fillCqResult r.sqid r.sqEntry r.commandId r.status r.result0 r.result1
    { s with
      ctrl := { s.ctrl with cqes := Function.update s.ctrl.cqes r.cqid (some cq') }
      posts := Function.update s.posts r.cqid
        (s.posts r.cqid ++ [(cq.cqHead, (cq'.cq cq.cqHead).tag)]) }

/-- What is computed is a step. -/
theorem RingRun.next_step {l : RingEvent} (h : s.next l = some s') : RingStep s l s' := by
  cases l with
  | writeRegisters bar => exact Option.some.inj h ▸ .writeRegisters
  | writeDoorbell idx value => exact Option.some.inj h ▸ .writeDoorbell
  | procBars =>
    unfold RingRun.next at h
    dsimp only at h
    split at h
    · rename_i hok
      exact Option.some.inj h ▸ .procBars hok
    · cases h
  | adminReq eid cmd =>
    unfold RingRun.next at h
    dsimp only at h
    split at h
    · rename_i hok
      exact Option.some.inj h ▸ .adminReq hok
    · cases h
  | fillCqResult r =>
    obtain ⟨cq, hcq, rfl⟩ := Option.map_eq_some_iff.mp h
    exact .fillCqResult hcq rfl

/-- The poll is no shutdown, or the admin queue is at phase 1. -/
def shutsDownInPhase (s : RingRun) : RingEvent → Bool
  | .procBars => s.ctrl.barChange != some .cc || s.ctrl.bar.shn != 1 || s.ctrl.adminQ.all (·.phase)
  | _ => true

/-- The check is the condition. -/
theorem shutsDownInPhase_guard {l : RingEvent} (h : shutsDownInPhase s l = true) :
    ShutsDownInPhase s l := by
  cases l with
  | procBars =>
    intro hcc hshn q hq
    unfold shutsDownInPhase at h
    dsimp only at h
    rw [hcc, hshn, hq] at h
    exact h
  | _ => trivial

/-- A success on its way to completion queue 1. -/
def ringResult : CqResult := ⟨1, 1, 0, 0, 0, 0, 0⟩

/-- The admin ring goes twice around and an I/O ring of two entries once, and a shutdown is waiting. -/
def twoLaps : List RingEvent :=
  .writeRegisters twoEntryBar :: List.replicate 4 .procBars ++
    [.adminReq 0 { asyncEventCommand with opcode := .createCq, qid := 1, qsize := 1 }] ++
    List.replicate 3 (.adminReq 0 asyncEventCommand) ++
    List.replicate 3 (.fillCqResult ringResult) ++
    [.writeRegisters { twoEntryBar with cc := 0x4001 }]

/-- A computed step that meets the condition. -/
def RingRun.checkedNext (s : RingRun) (l : RingEvent) : Option RingRun :=
  if shutsDownInPhase s l = true then s.next l else none

theorem RingRun.checkedNext_step {l : RingEvent} (h : s.checkedNext l = some s') :
    (ringRuns.guarded ShutsDownInPhase).step s l s' := by
  unfold RingRun.checkedNext at h
  split at h
  · rename_i hl
    exact ⟨shutsDownInPhase_guard hl, RingRun.next_step h⟩
  · cases h

/-- With both kinds of rings past a wrap, and a shutdown at phase 1. -/
theorem completion_rings_in_step_laps : ∃ s s' : RingRun,
    (ringRuns.guarded ShutsDownInPhase).step s .procBars s' ∧ s.ctrl.barChange = some .cc ∧
      s.ctrl.bar.shn = 1 ∧ s.adminPosts = [(0, true), (1, true), (0, false), (1, false)] ∧
      s.posts 1 = [(0, true), (1, true), (0, false)] ∧ s'.adminPosts = [] ∧
      QueuesInStep s ∧ AdminInStep s ∧ AdminInStep s' := by
  have hcomputed : ((System.follow RingRun.checkedNext bootedRun twoLaps).any fun s =>
      decide (s.ctrl.barChange = some .cc ∧ s.ctrl.bar.shn = 1 ∧
        s.adminPosts = [(0, true), (1, true), (0, false), (1, false)] ∧
        s.posts 1 = [(0, true), (1, true), (0, false)]) &&
      (s.checkedNext .procBars).any fun s' => decide (s'.adminPosts = [])) = true := by
    decide +kernel
  obtain ⟨s, hfollow, hends⟩ := (Option.any_eq_true _ _).mp hcomputed
  obtain ⟨hfacts, hnext⟩ := Bool.and_eq_true_iff.mp hends
  obtain ⟨hcc, hshn, hadmin, hposts⟩ := of_decide_eq_true hfacts
  obtain ⟨s', hs', hnone⟩ := (Option.any_eq_true _ _).mp hnext
  have hreach : (ringRuns.guarded ShutsDownInPhase).Reachable s :=
    System.Reachable.follow (fun _ _ _ _ hchecked => RingRun.checkedNext_step hchecked) twoLaps
      (.init bootedRun_init) hfollow
  have hstep := RingRun.checkedNext_step hs'
  obtain ⟨hqueues, hin, _⟩ := completion_rings_in_step hreach
  exact ⟨s, s', hstep, hcc, hshn, hadmin, hposts, of_decide_eq_true hnone, hqueues, hin,
    (completion_rings_in_step (hreach.step hstep)).2.1⟩

set_option maxRecDepth 20000 in
/-- Two commands take the admin ring once around, and a shutdown then leaves its head at 0 with the
phase at 0. -/
theorem shutdown_out_of_step : ¬ ∀ s, ringRuns.Reachable s → QueuesInStep s ∧ AdminInStep s := by
  intro hall
  have hboot : ringRuns.Reachable bootedRun := .init bootedRun_init
  have hbar := hboot.step (@RingStep.writeRegisters _ twoEntryBar)
  have haqa := hbar.step (.procBars rfl)
  have hasq := haqa.step (.procBars rfl)
  have hacq := hasq.step (.procBars rfl)
  have hcc := hacq.step (.procBars rfl)
  have hfirst := hcc.step (@RingStep.adminReq _ 0 asyncEventCommand _ rfl)
  have hsecond := hfirst.step (@RingStep.adminReq _ 1 asyncEventCommand _ rfl)
  have hshn := hsecond.step (@RingStep.writeRegisters _ { twoEntryBar with cc := 0x4001 })
  have hdown := hshn.step (.procBars rfl)
  have hphase := ((hall _ hdown).2 _ rfl).phase
  exact nomatch hphase

end Runs

end NvmeVirt

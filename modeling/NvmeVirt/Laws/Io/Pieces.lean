import NvmeVirt.Laws.Io.DataPath
import NvmeVirt.Laws.Io.InOrder

/-!
# Copies in pieces

`__do_perform_io` copies page by page and takes no lock. Here a worker begins a copy when it comes
to a command for the first time and makes it piece by piece; what else its visit does is one step,
once the copy is over. A piece is of any number of bytes, and between two pieces the host, the
dispatcher and the other workers take any steps. Only the pieces change the storage.

The code does not see to it that two copies under way go to different places; that is up to the
host. As long as of two that touch a common byte none writes (`PieceRun.Apart`), each copy is as
good as made at once when it ends: the storage is that of a store that does one command after the
other, but for the bytes under way (`CopyFacts.step`). While a copy is under way its worker stays at
the command (`UnderWay.At.step`), whose slot and submission queue the host has to leave as they are.
-/

set_option autoImplicit false

namespace NvmeVirt

/-! ## Runs -/

/-- A worker goes over the byte `a` of the storage for the entry. -/
def SqEntry.Touches (entry : SqEntry) (a : Nat) : Prop :=
  (entry.writes = true ∨ entry.opcode = .read) ∧
    entry.ioOffset ≤ a ∧ a < entry.ioOffset + entry.ioSize

/-- The entries touch a common byte, and one of them writes. -/
def SqEntry.Conflicts (entry entry' : SqEntry) : Prop :=
  (entry.writes = true ∨ entry'.writes = true) ∧ ∃ a, entry.Touches a ∧ entry'.Touches a

/-- A copy under way: the entry of the work queue it is for, the submission entry, the bytes of the
host's pages as they are when they are copied, how many bytes are done, and what was found where
they go or come from. -/
structure UnderWay where
  curr : Nat
  entry : SqEntry
  bytes : Nat → Nat
  done : Nat
  found : Nat → Nat

namespace UnderWay

variable (c : UnderWay)

/-- The byte `a` of the storage is among the next `n` bytes. -/
def Next (n a : Nat) : Prop :=
  c.entry.ioOffset + c.done ≤ a ∧ a < c.entry.ioOffset + c.done + n

instance (n a : Nat) : Decidable (c.Next n a) := inferInstanceAs (Decidable (_ ∧ _))

/-- The copy after `n` bytes more, with `storage` before. -/
def copied (n : Nat) (storage : Nat → Nat) : UnderWay :=
  { c with done := c.done + n, found := fun a => if c.Next n a then storage a else c.found a }

/-- What the next `n` bytes give to the storage. -/
def piece (n a : Nat) : Option Nat :=
  if c.entry.writes = true ∧ c.Next n a then some (c.bytes (a - c.entry.ioOffset)) else none

/-- What the copy has given to the storage so far. -/
def made (a : Nat) : Option Nat :=
  if c.entry.writes = true ∧ c.entry.ioOffset ≤ a ∧ a < c.entry.ioOffset + c.done then
    some (c.bytes (a - c.entry.ioOffset))
  else none

end UnderWay

/-- A device, and the copies its workers have under way. -/
structure PieceRun (σ : Type) where
  device : DeviceRun σ
  underWay : Nat → Option UnderWay

inductive PieceEvent where
  /-- A step without a copy. -/
  | device (l : DeviceEvent)
  /-- A worker comes to a command it has to copy for. -/
  | start (w : Nat) (bytes : Nat → Nat)
  /-- A worker copies the next `n` bytes. -/
  | piece (w n : Nat)
  /-- The copy is over, and the visit goes on to its end. -/
  | finish (w currNsecs : Nat)

namespace PieceRun

variable {σ : Type} (r : PieceRun σ)

/-- What the copies under way have given to the storage. -/
def made (w a : Nat) : Option Nat := (r.underWay w).bind fun c => c.made a

/-- The run when the worker `w` begins to copy at its entry `curr`. -/
def started (w curr : Nat) (bytes : Nat → Nat) : PieceRun σ :=
  { r with
    underWay := Function.update r.underWay w
      (some { curr, entry := r.device.entryAt w curr, bytes, done := 0, found := fun _ => 0 }) }

/-- The run after the next `n` bytes of the copy `c` of the worker `w`. -/
def copied (w n : Nat) (c : UnderWay) : PieceRun σ where
  device := { r.device with storage := overwrite r.device.storage (c.piece n) }
  underWay := Function.update r.underWay w (some (c.copied n r.device.storage))

/-- The run after the visit of the worker `w`, which left the device as `device` is; the storage stays
as the pieces have made it. -/
def finished (w : Nat) (device : DeviceRun σ) : PieceRun σ where
  device := { device with storage := r.device.storage }
  underWay := Function.update r.underWay w none

/-- The copies that end with a step. -/
def copiesOf : PieceEvent → List DataCopy
  | .finish w _ =>
    match r.underWay w with
    | some c => [⟨w, (r.device.workers w).serial c.curr, c.entry, c.bytes, c.found⟩]
    | none => []
  | _ => []

/-- The host leaves the slots of waiting commands alone, and no copy begins while there is one under
way it conflicts with. -/
def Apart : PieceEvent → Prop
  | .device l => r.device.SlotsKept l
  | .start w _ => ∀ curr, (r.device.workers w).cursor = some curr →
    ∀ v c, r.underWay v = some c → ¬ c.entry.Conflicts (r.device.entryAt w curr)
  | _ => True

end PieceRun

/-- The steps of a run in which copies are made in pieces. -/
inductive PieceStep {σ : Type} (fns : NvmevNs σ) : PieceRun σ → PieceEvent → PieceRun σ → Prop where
  | device {r : PieceRun σ} {l : DeviceEvent} {device : DeviceRun σ} : r.device.copiesOf l = [] →
    (∀ w currNsecs bytes, l = .visit w currNsecs bytes → r.underWay w = none) →
    DeviceStep fns r.device l device → PieceStep fns r (.device l) { r with device }
  | start {r : PieceRun σ} {w curr : Nat} {bytes : Nat → Nat} {sq : SubmissionQueue} :
    w < r.device.nrIoWorkers → (r.device.workers w).cursor = some curr → r.device.CopyDue w curr →
    r.underWay w = none →
    r.device.ctrl.sqes ((r.device.workers w).worker.workQueue curr).sqid = some sq →
    PieceStep fns r (.start w bytes) (r.started w curr bytes)
  | piece {r : PieceRun σ} {w n : Nat} {c : UnderWay} : r.underWay w = some c →
    c.done + n ≤ c.entry.ioSize → PieceStep fns r (.piece w n) (r.copied w n c)
  | finish {r : PieceRun σ} {w currNsecs : Nat} {c : UnderWay} {device : DeviceRun σ} :
    r.underWay w = some c → c.done = c.entry.ioSize →
    DeviceStep fns r.device (.visit w currNsecs c.bytes) device →
    PieceStep fns r (.finish w currNsecs) (r.finished w device)

/-- A run from `r` on, with the copies that ended in it. -/
inductive CopyRun {σ : Type} (fns : NvmevNs σ) (r : PieceRun σ) :
    List DataCopy → PieceRun σ → Prop where
  | refl : CopyRun fns r [] r
  | step {copies : List DataCopy} {r' r'' : PieceRun σ} {e : PieceEvent} : CopyRun fns r copies r' →
    r'.Apart e → PieceStep fns r' e r'' → CopyRun fns r (copies ++ r'.copiesOf e) r''

/-! ## Where a copy is under way -/

section UnderWay

variable {σ : Type} {fns : NvmevNs σ} {s s' : DeviceRun σ} {l : DeviceEvent} {w : Nat}
  {c : UnderWay}

/-- An entry that has not been completed keeps its job when the dispatcher queues another. -/
theorem WorkerRun.enqueue_same {run : WorkerRun} (h : workerRuns.Reachable run) {curr : Nat}
    (hcursor : run.cursor = some curr) (hopen : (run.worker.workQueue curr).isCompleted = false)
    {job : IoJob} {worker' : IoWorker} (hok : run.worker.enqueue job = .ok (some worker')) :
    SameWork (run.worker.workQueue curr) (worker'.workQueue curr) := by
  obtain ⟨unused, gone, io, hrun⟩ := workerRuns_integrity.reachable h
  have hin : curr ∈ io := by
    refine (hrun.cursor curr hcursor).resolve_left fun hgone => ?_
    rw [hrun.completed curr hgone] at hopen
    cases hopen
  rcases hrun.queued.enqueue job with ⟨_, hnone⟩ | ⟨_, worker'', hsome, hdone⟩
  · rw [hnone] at hok
    exact nomatch Except.ok.inj hok
  · obtain rfl : worker'' = worker' := Option.some.inj (Except.ok.inj (hsome.symm.trans hok))
    obtain ⟨rest, _, _, hfree, _⟩ := hdone.queued
    refine hdone.others curr fun heq => ?_
    have hapart := (List.nodup_append.mp hrun.queued.nodup).2.2
    rw [hfree] at hapart
    exact hapart _ List.mem_cons_self curr hin heq.symm

theorem WorkerRun.reclaim_same {run : WorkerRun} (h : workerRuns.Reachable run) (curr : Nat)
    {worker' : IoWorker} (hok : run.worker.reclaimCompletedReqs = .ok worker') :
    SameWork (run.worker.workQueue curr) (worker'.workQueue curr) := by
  obtain ⟨_, _, _, hrun⟩ := workerRuns_integrity.reachable h
  obtain ⟨_, _, worker'', _, hreclaim, hdone⟩ := hrun.queued.reclaim
  obtain rfl : worker'' = worker' := Except.ok.inj (hreclaim.symm.trans hok)
  exact hdone.work curr

/-- The worker `w` is where the copy `c` is due. -/
structure UnderWay.At (c : UnderWay) (s : DeviceRun σ) (w : Nat) : Prop where
  cursor : (s.workers w).cursor = some c.curr
  due : s.CopyDue w c.curr
  entry : s.entryAt w c.curr = c.entry

theorem UnderWay.At.of_same (h : c.At s w)
    (hcursor : (s'.workers w).cursor = (s.workers w).cursor)
    (hwork : SameWork ((s.workers w).worker.workQueue c.curr)
      ((s'.workers w).worker.workQueue c.curr))
    (hsq : s'.sq ((s.workers w).worker.workQueue c.curr).sqid
      ((s.workers w).worker.workQueue c.curr).sqEntry = s.entryAt w c.curr) : c.At s' w := by
  obtain ⟨next, prev, heq⟩ := hwork
  refine ⟨hcursor.trans h.cursor, ?_, ?_⟩
  · unfold DeviceRun.CopyDue
    rw [heq]
    exact h.due
  · unfold DeviceRun.entryAt
    rw [heq]
    exact hsq.trans h.entry

/-- Another worker made a step. -/
theorem UnderWay.At.of_update (h : c.At s w) {v : Nat} {run' : WorkerRun}
    (hworkers : s'.workers = Function.update s.workers v run') (hv : w ≠ v) (hsq : s'.sq = s.sq) :
    c.At s' w := by
  have hw : s'.workers w = s.workers w := by rw [hworkers, Function.update_of_ne hv]
  refine h.of_same (by rw [hw]) (by rw [hw]; exact .refl _) ?_
  rw [hsq]
  rfl

/-- While its copy is under way a worker stays where it is, and its command as it is. -/
theorem UnderWay.At.step (h : c.At s w) (hfns : PassesThrough fns)
    (hworkers : ∀ v, workerRuns.Reachable (s.workers v)) (hkept : s.SlotsKept l)
    (hother : ∀ v currNsecs bytes, l = .visit v currNsecs bytes → v ≠ w)
    (hstep : DeviceStep fns s l s') : c.At s' w := by
  cases hstep with
  | @writeEntry qid slot entry =>
    refine h.of_same rfl (.refl _) ?_
    have hwaits := DeviceRun.waits_at (hworkers w) h.cursor h.due
    show Function.update s.sq qid (Function.update (s.sq qid) slot entry) _ _ = _
    by_cases hq : ((s.workers w).worker.workQueue c.curr).sqid = qid
    · have hslot : ((s.workers w).worker.workQueue c.curr).sqEntry ≠ slot := by
        intro heq
        rw [hq, heq] at hwaits
        exact hkept hwaits
      rw [hq, Function.update_self, Function.update_of_ne hslot, ← hq]
      rfl
    · rw [Function.update_of_ne hq]
      rfl
  | attempt _ _ _ hrun =>
    refine h.of_same rfl (.refl _) ?_
    rw [DeviceRun.answered_sq (hfns _ _ _ _ _ _ _ hrun).2]
    rfl
  | @gave poll ans job todo worker' _ hok =>
    by_cases hw : w = getIoWorker s.nrIoWorkers job.sqid
    · subst hw
      refine h.of_same ?_ ?_ rfl
      · show (Function.update s.workers _ _ _).cursor = _
        rw [Function.update_self]
        rfl
      · show SameWork _ ((Function.update s.workers _ _ _).worker.workQueue c.curr)
        rw [Function.update_self]
        exact WorkerRun.enqueue_same (hworkers _) h.cursor h.due.1 hok
    · exact h.of_update rfl hw rfl
  | @passed poll ans sq workers' _ _ _ hok =>
    have hcursor : (s.reclaimed workers' w).cursor = (s.workers w).cursor := by
      unfold DeviceRun.reclaimed
      split
      · rfl
      · rfl
    have hwork : SameWork ((s.workers w).worker.workQueue c.curr)
        ((s.reclaimed workers' w).worker.workQueue c.curr) := by
      unfold DeviceRun.reclaimed
      split
      · rename_i hw
        exact WorkerRun.reclaim_same (hworkers w) c.curr (hok w hw)
      · exact .refl _
    exact h.of_same hcursor hwork rfl
  | @startPass v _ hnone =>
    refine h.of_update rfl ?_ rfl
    rintro rfl
    exact nomatch hnone.symm.trans h.cursor
  | @visit v curr currNsecs bytes o _ _ _ _ =>
    exact h.of_update rfl (hother v currNsecs bytes rfl).symm rfl
  | _ => exact ⟨h.cursor, h.due, h.entry⟩

/-- The storage plays no part in it. -/
theorem UnderWay.At.storage (h : c.At s w) (storage : Nat → Nat) : c.At { s with storage } w :=
  ⟨h.cursor, h.due, h.entry⟩

end UnderWay

/-! ## The copies of a run -/

section Facts

variable {σ : Type} {fns : NvmevNs σ} {s₀ : Nat → Nat} {copies : List DataCopy} {r r' : PieceRun σ}
  {w n : Nat} {c : UnderWay}

/-- The copies that ended in a run from the storage `s₀` on, and those under way. -/
structure CopyFacts (s₀ : Nat → Nat) (copies : List DataCopy) (r : PieceRun σ) : Prop where
  ledger : CopyLedger copies r.device
  place : ∀ w c, r.underWay w = some c → c.At r.device w
  bounded : ∀ w c, r.underWay w = some c → c.done ≤ c.entry.ioSize
  staged : Staged (replay s₀ (copies.map DataCopy.write)) r.device.storage r.made
  finds : ∀ w c, r.underWay w = some c → ∀ a, c.entry.Touches a →
    a < c.entry.ioOffset + c.done → c.found a = replay s₀ (copies.map DataCopy.write) a
  apart : ∀ v w c c', r.underWay v = some c → r.underWay w = some c' → v ≠ w →
    ¬ c.entry.Conflicts c'.entry
  found : ∀ before c after, copies = before ++ c :: after → ∀ a, c.entry.Touches a →
    c.found a = replay s₀ (before.map DataCopy.write) a

theorem SqEntry.Conflicts.symm {entry entry' : SqEntry} (h : entry.Conflicts entry') :
    entry'.Conflicts entry := by
  obtain ⟨hwrites, a, ha, ha'⟩ := h
  exact ⟨hwrites.symm, a, ha', ha⟩

theorem UnderWay.made_some {a v : Nat} (h : c.made a = some v) : c.entry.writes = true ∧
    c.entry.ioOffset ≤ a ∧ a < c.entry.ioOffset + c.done := by
  unfold UnderWay.made at h
  split at h
  · assumption
  · cases h

/-- What was made of a copy is some of its bytes. -/
theorem UnderWay.made_touches (hdone : c.done ≤ c.entry.ioSize) {a v : Nat} (h : c.made a = some v) :
    c.entry.Touches a := by
  obtain ⟨hwrites, hlow, hhigh⟩ := UnderWay.made_some h
  exact ⟨.inl hwrites, hlow, by omega⟩

/-- A piece more is a piece more made. -/
theorem UnderWay.copied_made (storage : Nat → Nat) (a : Nat) :
    (c.copied n storage).made a = (c.piece n a).or (c.made a) := by
  by_cases hwrites : c.entry.writes = true
  · by_cases hnext : c.Next n a
    · have hpiece : c.piece n a = some (c.bytes (a - c.entry.ioOffset)) := if_pos ⟨hwrites, hnext⟩
      obtain ⟨hlow, hhigh⟩ := hnext
      have hstart : c.entry.ioOffset ≤ a := by omega
      have hend : a < c.entry.ioOffset + (c.done + n) := by omega
      rw [hpiece, Option.some_or]
      exact if_pos ⟨hwrites, hstart, hend⟩
    · have hpiece : c.piece n a = none := if_neg fun h => hnext h.2
      rw [hpiece, Option.none_or]
      unfold UnderWay.Next at hnext
      refine if_congr (and_congr_right fun _ => ?_) rfl rfl
      show c.entry.ioOffset ≤ a ∧ a < c.entry.ioOffset + (c.done + n) ↔ _
      omega
  · have hpiece : c.piece n a = none := if_neg fun h => hwrites h.1
    have hmade : c.made a = none := if_neg fun h => hwrites h.1
    rw [hpiece, hmade]
    exact if_neg fun h => hwrites h.1

/-- All bytes have been copied. -/
theorem UnderWay.made_all (hdone : c.done = c.entry.ioSize) (w n : Nat) :
    c.made = DataCopy.write ⟨w, n, c.entry, c.bytes, c.found⟩ := by
  funext a
  unfold UnderWay.made DataCopy.write
  rw [hdone]

theorem PieceRun.made_of (h : r.underWay w = some c) : r.made w = c.made := by
  funext a
  unfold PieceRun.made
  rw [h]
  rfl

theorem PieceRun.made_none (h : r.underWay w = none) (a : Nat) : r.made w a = none := by
  unfold PieceRun.made
  rw [h]
  rfl

theorem PieceRun.made_some {a v : Nat} (h : r.made w a = some v) :
    ∃ c, r.underWay w = some c ∧ c.made a = some v := Option.bind_eq_some_iff.mp h

/-- The copies of the other workers are as they were. -/
theorem PieceRun.made_same {v : Nat} (h : r'.underWay v = r.underWay v) : r'.made v = r.made v := by
  funext a
  unfold PieceRun.made
  rw [h]

theorem CopyFacts.boot {fresh : σ → Prop} (h : Booted fresh r.device)
    (hnone : ∀ w, r.underWay w = none) : CopyFacts r.device.storage [] r := by
  have hnothing : ∀ w c, r.underWay w ≠ some c := fun w c hc => nomatch (hnone w).symm.trans hc
  constructor
  · exact h.copyLedger
  · exact fun w c hc => absurd hc (hnothing w c)
  · exact fun w c hc => absurd hc (hnothing w c)
  · exact .nothing fun w a => PieceRun.made_none (hnone w) a
  · exact fun w c hc => absurd hc (hnothing w c)
  · exact fun v w c c' hc => absurd hc (hnothing v c)
  · exact fun before c after hlist => absurd hlist (by simp)

/-- A step without a copy. -/
theorem CopyFacts.device (h : CopyFacts s₀ copies r) (hfns : PassesThrough fns)
    {l : DeviceEvent} {device : DeviceRun σ} (hnone : r.device.copiesOf l = [])
    (hother : ∀ w currNsecs bytes, l = .visit w currNsecs bytes → r.underWay w = none)
    (hkept : r.device.SlotsKept l) (hstep : DeviceStep fns r.device l device) :
    CopyFacts s₀ copies { r with device } := by
  have hstorage := hstep.storage_eq hfns
  have hledger := h.ledger.step hfns hkept hstep
  rw [hnone] at hstorage hledger
  rw [List.append_nil] at hledger
  refine ⟨hledger, fun w c hc => ?_, h.bounded, ?_, h.finds, h.apart, h.found⟩
  · refine (h.place w c hc).step hfns h.ledger.workers hkept (fun v currNsecs bytes hl hv => ?_) hstep
    subst hv
    exact nomatch (hother v currNsecs bytes hl).symm.trans hc
  · show Staged _ device.storage r.made
    rw [hstorage]
    exact h.staged

/-- A copy begins. -/
theorem CopyFacts.started (h : CopyFacts s₀ copies r) {curr : Nat} {bytes : Nat → Nat}
    (hcursor : (r.device.workers w).cursor = some curr) (hdue : r.device.CopyDue w curr)
    (hnone : r.underWay w = none)
    (hapart : ∀ v c, r.underWay v = some c → ¬ c.entry.Conflicts (r.device.entryAt w curr)) :
    CopyFacts s₀ copies (r.started w curr bytes) := by
  have hself : (r.started w curr bytes).underWay w = some
      { curr, entry := r.device.entryAt w curr, bytes, done := 0, found := fun _ => 0 } :=
    Function.update_self ..
  have hother : ∀ v, v ≠ w → (r.started w curr bytes).underWay v = r.underWay v := fun v hv =>
    Function.update_of_ne hv ..
  -- nothing is done of the new copy
  have hmade : (r.started w curr bytes).made = r.made := by
    funext v a
    by_cases hv : v = w
    · rw [hv, PieceRun.made_of hself, PieceRun.made_none hnone]
      exact if_neg fun hin => Nat.not_lt_of_le hin.2.1 hin.2.2
    · exact congrFun (PieceRun.made_same (hother v hv)) a
  have hcases : ∀ v c, (r.started w curr bytes).underWay v = some c → v ≠ w ∧ r.underWay v = some c ∨
      v = w ∧ { curr, entry := r.device.entryAt w curr, bytes, done := 0, found := fun _ => 0 } = c :=
    fun v c hc => (update_eq_some hc).symm.imp_right fun hin => ⟨hin.1, Option.some.inj hin.2⟩
  constructor
  · exact h.ledger
  · intro v c hc
    rcases hcases v c hc with ⟨_, hold⟩ | ⟨rfl, rfl⟩
    · exact h.place v c hold
    · exact ⟨hcursor, hdue, rfl⟩
  · intro v c hc
    rcases hcases v c hc with ⟨_, hold⟩ | ⟨rfl, rfl⟩
    · exact h.bounded v c hold
    · exact Nat.zero_le _
  · rw [hmade]
    exact h.staged
  · intro v c hc a htouches hlt
    rcases hcases v c hc with ⟨_, hold⟩ | ⟨rfl, rfl⟩
    · exact h.finds v c hold a htouches hlt
    · exact absurd hlt (Nat.not_lt_of_le htouches.2.1)
  · intro v v' c c' hc hc' hne
    rcases hcases v c hc with ⟨_, hold⟩ | ⟨rfl, rfl⟩
    · rcases hcases v' c' hc' with ⟨_, hold'⟩ | ⟨rfl, rfl⟩
      · exact h.apart v v' c c' hold hold' hne
      · exact hapart v c hold
    · rcases hcases v' c' hc' with ⟨_, hold'⟩ | ⟨rfl, rfl⟩
      · exact fun hconf => hapart v' c' hold' hconf.symm
      · exact absurd rfl hne
  · exact h.found

/-- A piece of a copy is made. -/
theorem CopyFacts.copied (h : CopyFacts s₀ copies r) (hc : r.underWay w = some c)
    (hn : c.done + n ≤ c.entry.ioSize) : CopyFacts s₀ copies (r.copied w n c) := by
  have hself : (r.copied w n c).underWay w = some (c.copied n r.device.storage) :=
    Function.update_self ..
  have hother : ∀ v, v ≠ w → (r.copied w n c).underWay v = r.underWay v := fun v hv =>
    Function.update_of_ne hv ..
  have hcases : ∀ v c', (r.copied w n c).underWay v = some c' → v ≠ w ∧ r.underWay v = some c' ∨
      v = w ∧ c.copied n r.device.storage = c' :=
    fun v c' hc' => (update_eq_some hc').symm.imp_right fun hin => ⟨hin.1, Option.some.inj hin.2⟩
  -- what another worker has under way touches no byte of a write, nor writes a byte the copy touches
  have hclear : ∀ v a u, v ≠ w → r.made v a = some u → c.entry.Touches a → False := by
    intro v a u hv hmade htouches
    obtain ⟨c', hc', hmade'⟩ := PieceRun.made_some hmade
    exact h.apart v w c' c hc' hc hv ⟨.inl (UnderWay.made_some hmade').1, a,
      UnderWay.made_touches (h.bounded v c' hc') hmade', htouches⟩
  have hnext : ∀ a, c.entry.writes = true → c.Next n a → c.entry.Touches a := fun a hwrites hin =>
    ⟨.inl hwrites, Nat.le_of_add_right_le hin.1, by have := hin.2; omega⟩
  constructor
  · exact h.ledger.storage _
  · intro v c' hc'
    rcases hcases v c' hc' with ⟨_, hold⟩ | ⟨rfl, rfl⟩
    · exact (h.place v c' hold).storage _
    · exact ⟨(h.place v c hc).cursor, (h.place v c hc).due, (h.place v c hc).entry⟩
  · intro v c' hc'
    rcases hcases v c' hc' with ⟨_, hold⟩ | ⟨rfl, rfl⟩
    · exact h.bounded v c' hold
    · exact hn
  · refine h.staged.extend (i := w) (fun a => ?_) (fun v hv => PieceRun.made_same (hother v hv)) ?_
    · rw [PieceRun.made_of hself, PieceRun.made_of hc]
      exact UnderWay.copied_made _ a
    · intro v hv a u hmade
      refine if_neg fun hin => ?_
      exact hclear v a u hv hmade (hnext a hin.1 hin.2)
  · intro v c' hc' a htouches hlt
    rcases hcases v c' hc' with ⟨_, hold⟩ | ⟨rfl, rfl⟩
    · exact h.finds v c' hold a htouches hlt
    · show (if c.Next n a then r.device.storage a else c.found a) = _
      by_cases hin : c.Next n a
      · rw [if_pos hin]
        refine h.staged.clear a fun u => ?_
        by_cases hu : u = v
        · rw [hu, PieceRun.made_of hc]
          exact if_neg fun hmade => Nat.not_lt_of_le hin.1 hmade.2.2
        · cases hmade : r.made u a with
          | none => rfl
          | some byte => exact (hclear u a byte hu hmade htouches).elim
      · rw [if_neg hin]
        refine h.finds v c hc a htouches ?_
        refine Nat.lt_of_not_le fun hle => hin ⟨hle, ?_⟩
        have hend : a < c.entry.ioOffset + (c.done + n) := hlt
        omega
  · intro v v' c₁ c₂ hc₁ hc₂ hne
    rcases hcases v c₁ hc₁ with ⟨_, hold₁⟩ | ⟨rfl, rfl⟩
    · rcases hcases v' c₂ hc₂ with ⟨_, hold₂⟩ | ⟨rfl, rfl⟩
      · exact h.apart v v' c₁ c₂ hold₁ hold₂ hne
      · exact h.apart v v' c₁ c hold₁ hc hne
    · rcases hcases v' c₂ hc₂ with ⟨_, hold₂⟩ | ⟨rfl, rfl⟩
      · exact h.apart v v' c c₂ hc hold₂ hne
      · exact absurd rfl hne
  · exact h.found

/-- A copy is over: it is the last one, of what the others have left. -/
theorem CopyFacts.finished (h : CopyFacts s₀ copies r) (hfns : PassesThrough fns)
    {currNsecs : Nat} {device : DeviceRun σ} (hc : r.underWay w = some c)
    (hdone : c.done = c.entry.ioSize)
    (hstep : DeviceStep fns r.device (.visit w currNsecs c.bytes) device) :
    CopyFacts s₀ (copies ++ r.copiesOf (.finish w currNsecs)) (r.finished w device) := by
  have hplace := h.place w c hc
  have hother : ∀ v, v ≠ w → (r.finished w device).underWay v = r.underWay v := fun v hv =>
    Function.update_of_ne hv ..
  have hcases : ∀ v c', (r.finished w device).underWay v = some c' →
      v ≠ w ∧ r.underWay v = some c' := by
    intro v c' hc'
    exact (update_eq_some hc').resolve_left fun hin => Option.some_ne_none _ hin.2.symm
  have hcopies : r.copiesOf (.finish w currNsecs) =
      [⟨w, (r.device.workers w).serial c.curr, c.entry, c.bytes, c.found⟩] := by
    simp only [PieceRun.copiesOf, hc]
  have hone : r.device.copiesOf (.visit w currNsecs c.bytes) =
      [⟨w, (r.device.workers w).serial c.curr, c.entry, c.bytes, r.device.storage⟩] := by
    rw [copiesOf_visit hplace.cursor, if_pos hplace.due, hplace.entry]
  have hledger := h.ledger.step hfns (l := .visit w currNsecs c.bytes) trivial hstep
  rw [hone] at hledger
  -- the bytes of the copy are those it has made
  have hwrite : DataCopy.write ⟨w, (r.device.workers w).serial c.curr, c.entry, c.bytes, c.found⟩ =
      r.made w := by
    rw [PieceRun.made_of hc]
    exact (UnderWay.made_all hdone _ _).symm
  rw [hcopies]
  constructor
  · exact (hledger.found c.found).storage _
  · intro v c' hc'
    obtain ⟨hv, hold⟩ := hcases v c' hc'
    refine ((h.place v c' hold).step hfns h.ledger.workers
      (l := .visit w currNsecs c.bytes) trivial ?_ hstep).storage _
    intro v' currNsecs' bytes' hl
    obtain ⟨rfl, _, _⟩ := DeviceEvent.visit.inj hl
    exact hv.symm
  · intro v c' hc'
    exact h.bounded v c' (hcases v c' hc').2
  · rw [List.map_append, List.map_singleton, replay_concat, hwrite]
    refine h.staged.finish (fun a => ?_) fun v hv => PieceRun.made_same (hother v hv)
    exact PieceRun.made_none (Function.update_self ..) a
  · intro v c' hc' a htouches hlt
    obtain ⟨hv, hold⟩ := hcases v c' hc'
    rw [List.map_append, List.map_singleton, replay_concat, hwrite]
    refine (h.finds v c' hold a htouches hlt).trans (overwrite_of_none ?_).symm
    cases hmade : r.made w a with
    | none => rfl
    | some byte =>
      rw [PieceRun.made_of hc] at hmade
      exact absurd ⟨.inl (UnderWay.made_some hmade).1, a,
        UnderWay.made_touches hdone.le hmade, htouches⟩ (h.apart w v c c' hc hold hv.symm)
  · intro v v' c₁ c₂ hc₁ hc₂ hne
    exact h.apart v v' c₁ c₂ (hcases v c₁ hc₁).2 (hcases v' c₂ hc₂).2 hne
  · intro before c' after hlist a htouches
    rcases List.eq_nil_or_concat' after with rfl | ⟨after, last, rfl⟩
    · obtain ⟨rfl, hlast⟩ := List.append_inj' hlist rfl
      obtain rfl := List.cons.inj hlast |>.1
      exact h.finds w c hc a htouches (hdone ▸ htouches.2.2)
    · rw [← List.cons_append, ← List.append_assoc] at hlist
      exact h.found before c' after (List.append_inj' hlist rfl).1 a htouches

/-- What holds up to a state holds up to the next. -/
theorem CopyFacts.step (h : CopyFacts s₀ copies r) (hfns : PassesThrough fns) {e : PieceEvent}
    (hapart : r.Apart e) (hstep : PieceStep fns r e r') :
    CopyFacts s₀ (copies ++ r.copiesOf e) r' := by
  cases hstep with
  | device hnone hother hdevice =>
    rw [show r.copiesOf (.device _) = [] from rfl, List.append_nil]
    exact h.device hfns hnone hother hapart hdevice
  | start _ hcursor hdue hnone _ =>
    rw [show r.copiesOf (.start _ _) = [] from rfl, List.append_nil]
    exact h.started hcursor hdue hnone (hapart _ hcursor)
  | piece hc hn =>
    rw [show r.copiesOf (.piece _ _) = [] from rfl, List.append_nil]
    exact h.copied hc hn
  | finish hc hdone hdevice => exact h.finished hfns hc hdone hdevice

theorem CopyRun.facts {m : PieceRun σ} {copies' : List DataCopy} (h : CopyFacts s₀ copies m)
    (hfns : PassesThrough fns) (hrun : CopyRun fns m copies' r) :
    CopyFacts s₀ (copies ++ copies') r := by
  induction hrun with
  | refl =>
    rw [List.append_nil]
    exact h
  | step _ hapart hstep ih =>
    rw [← List.append_assoc]
    exact ih.step hfns hapart hstep

end Facts

/-! ## One order -/

section Conv

variable {fresh : ConvNs → Prop} {r₀ m r : PieceRun ConvNs} {h h' : List DataCopy}

/-- The copies are one sequence of reads and writes of a store, in the order in which they end:
where no copy under way has written, the storage is what the writes of that order make of it, and
every copy has found what the earlier ones have left in its bytes. Each is for a command that was
accepted, and of the entry that was accepted. The order agrees with that of the commands: when the
completion of one has been posted before another one is queued, its copy comes first, and the other
one finds its bytes, or those of a copy in between.

A run here is one in which the host keeps the slots of the commands, and in which no two copies that
conflict are under way at the same time. The code sees to neither. -/
theorem commands_in_one_order (hboot : Booted fresh r₀.device) (hnone : ∀ w, r₀.underWay w = none)
    (hm : CopyRun convNamespace r₀ h m) (hr : CopyRun convNamespace m h' r) :
    (∀ a, (∀ w c, r.underWay w = some c → c.made a = none) →
      r.device.storage a = replay r₀.device.storage ((h ++ h').map DataCopy.write) a) ∧
    (∀ before c after, h ++ h' = before ++ c :: after → ∀ a, c.entry.Touches a →
      c.found a = replay r₀.device.storage (before.map DataCopy.write) a) ∧
    (∀ c ∈ h ++ h', ∃ a ∈ r.device.answers, ∃ job ∈ a.jobs,
      (r.device.workers c.worker).jobs[c.serial]? = some job ∧ c.entry = a.answer.entry) ∧
    (∀ w n, (h ++ h').countP (DataCopy.isFor w n) ≤ 1) ∧
    ∀ w n sqid cqid slot id ret,
      (m.device.workers w).jobs[n]? = some (.request sqid cqid slot id ret) →
      ¬ (m.device.workers w).Unfinished n →
      ∃ before c mid, h = before ++ c :: mid ∧ c.isFor w n = true ∧ ∀ late ∈ h ++ h',
        (m.device.workers late.worker).jobs.length ≤ late.serial →
        ∃ mid' after, h' = mid' ++ late :: after ∧
          ∀ a v, c.write a = some v → late.entry.Touches a →
            ∃ c' ∈ c :: (mid ++ mid'), c'.write a = some (late.found a) := by
  have hfacts := hm.facts (.boot hboot hnone) convNamespace_passesThrough
  rw [List.nil_append] at hfacts
  have hall := hr.facts hfacts convNamespace_passesThrough
  refine ⟨fun a ha => ?_, hall.found, hall.ledger.entries, hall.ledger.once, ?_⟩
  · refine hall.staged.clear a fun w => ?_
    cases hmade : r.made w a with
    | none => rfl
    | some byte =>
      obtain ⟨c, hc, hbyte⟩ := PieceRun.made_some hmade
      exact nomatch (ha w c hc).symm.trans hbyte
  intro w n sqid cqid slot id ret hjob hended
  obtain ⟨c, hc, hfor⟩ := hfacts.ledger.ended hjob hended
  obtain ⟨before, mid, rfl⟩ := List.append_of_mem hc
  refine ⟨before, c, mid, rfl, hfor, fun late hlate hserial => ?_⟩
  have hlate' : late ∈ h' := by
    refine (List.mem_append.mp hlate).resolve_left fun hin => ?_
    exact absurd (hfacts.ledger.not_queued hin) (Nat.not_lt_of_le hserial)
  obtain ⟨mid', after, rfl⟩ := List.append_of_mem hlate'
  refine ⟨mid', after, rfl, fun a v hwrite htouches => ?_⟩
  have hfound := hall.found (before ++ c :: (mid ++ mid')) late after (by simp) a htouches
  rw [hfound, List.map_append, List.map_cons]
  obtain ⟨write, hmem, hvalue⟩ := @replay_covered _ _ r₀.device.storage c.write
    (before.map DataCopy.write) ((mid ++ mid').map DataCopy.write) a v hwrite
  rw [← List.map_cons] at hmem
  obtain ⟨c', hc', rfl⟩ := List.mem_map.mp hmem
  exact ⟨c', hc', hvalue⟩

end Conv

/-! ## Runs, computed -/

section Computed

variable {σ : Type} {fns : NvmevNs σ} {r r' : PieceRun σ} {e : PieceEvent}

namespace PieceRun

variable (fns : NvmevNs σ) (r : PieceRun σ)

/-- No worker with a copy under way visits an entry. -/
def leavesAlone : DeviceEvent → Bool
  | .visit w _ _ => (r.underWay w).isNone
  | _ => true

/-- A step of the device without a copy. -/
def nextDevice (l : DeviceEvent) : Option (PieceRun σ) :=
  if r.device.copiesOf l = [] ∧ r.leavesAlone l = true then
    (r.device.next fns .zero l).map fun device => { r with device }
  else none

/-- The worker `w` begins a copy. -/
def nextStart (w : Nat) (bytes : Nat → Nat) : Option (PieceRun σ) :=
  match (r.device.workers w).cursor with
  | some curr =>
    if w < r.device.nrIoWorkers ∧ r.device.CopyDue w curr ∧ (r.underWay w).isNone = true ∧
        (r.device.ctrl.sqes ((r.device.workers w).worker.workQueue curr).sqid).isSome = true then
      some (r.started w curr bytes)
    else none
  | none => none

/-- The worker `w` copies the next `n` bytes. -/
def nextPiece (w n : Nat) : Option (PieceRun σ) :=
  match r.underWay w with
  | some c => if c.done + n ≤ c.entry.ioSize then some (r.copied w n c) else none
  | none => none

/-- The copy of the worker `w` is over. -/
def nextFinish (w currNsecs : Nat) : Option (PieceRun σ) :=
  match r.underWay w with
  | some c =>
    if c.done = c.entry.ioSize then
      (r.device.next fns .zero (.visit w currNsecs c.bytes)).map (r.finished w)
    else none
  | none => none

/-- The state after an event, if it can happen. -/
def next : PieceEvent → Option (PieceRun σ)
  | .device l => r.nextDevice fns l
  | .start w bytes => r.nextStart w bytes
  | .piece w n => r.nextPiece w n
  | .finish w currNsecs => r.nextFinish fns w currNsecs

end PieceRun

theorem PieceRun.nextDevice_step {l : DeviceEvent} (h : r.nextDevice fns l = some r') :
    PieceStep fns r (.device l) r' := by
  unfold PieceRun.nextDevice at h
  split at h
  · rename_i hl
    obtain ⟨device, hnext, rfl⟩ := Option.map_eq_some_iff.mp h
    refine .device hl.1 (fun w currNsecs bytes hvisit => ?_) (DeviceRun.next_step hnext)
    subst hvisit
    exact Option.isNone_iff_eq_none.mp hl.2
  · cases h

theorem PieceRun.nextStart_step {w : Nat} {bytes : Nat → Nat} (h : r.nextStart w bytes = some r') :
    PieceStep fns r (.start w bytes) r' := by
  unfold PieceRun.nextStart at h
  split at h
  · rename_i hcursor
    split at h
    · rename_i hstart
      obtain ⟨hw, hdue, hnone, hsq⟩ := hstart
      obtain ⟨sq, hsq⟩ := Option.isSome_iff_exists.mp hsq
      exact Option.some.inj h ▸ .start hw hcursor hdue (Option.isNone_iff_eq_none.mp hnone) hsq
    · cases h
  · cases h

theorem PieceRun.nextPiece_step {w n : Nat} (h : r.nextPiece w n = some r') :
    PieceStep fns r (.piece w n) r' := by
  unfold PieceRun.nextPiece at h
  split at h
  · rename_i hc
    split at h
    · rename_i hn
      exact Option.some.inj h ▸ .piece hc hn
    · cases h
  · cases h

theorem PieceRun.nextFinish_step {w currNsecs : Nat} (h : r.nextFinish fns w currNsecs = some r') :
    PieceStep fns r (.finish w currNsecs) r' := by
  unfold PieceRun.nextFinish at h
  split at h
  · rename_i hc
    split at h
    · rename_i hdone
      obtain ⟨device, hnext, rfl⟩ := Option.map_eq_some_iff.mp h
      exact .finish hc hdone (DeviceRun.next_step hnext)
    · cases h
  · cases h

/-- What is computed is a step. -/
theorem PieceRun.next_step (h : r.next fns e = some r') : PieceStep fns r e r' := by
  cases e with
  | device l => exact PieceRun.nextDevice_step h
  | start w bytes => exact PieceRun.nextStart_step h
  | piece w n => exact PieceRun.nextPiece_step h
  | finish w currNsecs => exact PieceRun.nextFinish_step h

/-- One entry ends before the other begins, or neither writes. -/
def SqEntry.keepsApart (entry entry' : SqEntry) : Bool :=
  (!entry.writes && !entry'.writes) ||
    decide (entry.ioOffset + entry.ioSize ≤ entry'.ioOffset) ||
    decide (entry'.ioOffset + entry'.ioSize ≤ entry.ioOffset)

theorem SqEntry.not_conflicts {entry entry' : SqEntry} (h : entry.keepsApart entry' = true) :
    ¬ entry.Conflicts entry' := by
  rintro ⟨hwrites, a, ⟨_, hlow, hhigh⟩, _, hlow', hhigh'⟩
  rcases Bool.or_eq_true_iff.mp h with hfirst | hafter
  · rcases Bool.or_eq_true_iff.mp hfirst with hneither | hbefore
    · simp only [Bool.and_eq_true, Bool.not_eq_true'] at hneither
      rw [hneither.1, hneither.2] at hwrites
      exact hwrites.elim Bool.false_ne_true Bool.false_ne_true
    · have hle := of_decide_eq_true hbefore
      omega
  · have hle := of_decide_eq_true hafter
    omega

/-- Of two workers neither begins a copy that conflicts with one the other has under way. -/
def PieceRun.keepsApart (r : PieceRun σ) : PieceEvent → Bool
  | .device l => keepsSlots r.device l
  | .start w _ => w < 2 && (r.device.workers w).cursor.all fun curr =>
    [0, 1].all fun v => (r.underWay v).all fun c => c.entry.keepsApart (r.device.entryAt w curr)
  | _ => true

/-- What `PieceRun.keepsApart` relies on. -/
structure PieceRun.TwoWorkers (r : PieceRun σ) : Prop where
  answered : r.device.JobsAnswered
  none : ∀ w, 2 ≤ w → r.underWay w = none

theorem PieceRun.keepsApart_apart (h : r.TwoWorkers) (he : r.keepsApart e = true) : r.Apart e := by
  cases e with
  | device l => exact keepsSlots_kept h.answered he
  | start w bytes =>
    intro curr hcursor v c hc
    have hv : v < 2 := by
      refine Nat.lt_of_not_le fun hv => ?_
      exact nomatch (h.none v hv).symm.trans hc
    have hall := (Bool.and_eq_true _ _).mp he |>.2
    rw [hcursor] at hall
    have hone := List.all_eq_true.mp hall v (by simp; omega)
    rw [hc] at hone
    exact SqEntry.not_conflicts hone
  | _ => trivial

theorem PieceRun.TwoWorkers.step (h : r.TwoWorkers) (he : r.keepsApart e = true)
    (hstep : PieceStep fns r e r') : r'.TwoWorkers := by
  have hanswers := (@deviceRuns_answered σ fns fun _ => True).step
  cases hstep with
  | device _ _ hdevice => exact ⟨hanswers _ _ _ h.answered hdevice, h.none⟩
  | @start w curr bytes _ _ _ _ _ _ =>
    refine ⟨h.answered, fun v hv => ?_⟩
    have hw : w < 2 := of_decide_eq_true ((Bool.and_eq_true _ _).mp he).1
    exact (Function.update_of_ne (by omega) ..).trans (h.none v hv)
  | @piece w n c hc _ =>
    refine ⟨h.answered, fun v hv => ?_⟩
    have hw : v ≠ w := by
      rintro rfl
      exact nomatch (h.none v hv).symm.trans hc
    exact (Function.update_of_ne hw ..).trans (h.none v hv)
  | @finish w currNsecs c device hc _ hdevice =>
    have hanswered : device.JobsAnswered := hanswers _ _ _ h.answered hdevice
    refine ⟨⟨hanswered.1, hanswered.2⟩, fun v hv => ?_⟩
    by_cases hw : v = w
    · rw [hw]
      exact Function.update_self ..
    · exact (Function.update_of_ne hw ..).trans (h.none v hv)

/-- A computed step that keeps the copies apart. -/
def PieceRun.checkedNext (fns : NvmevNs σ) (r : PieceRun σ) (e : PieceEvent) : Option (PieceRun σ) :=
  if r.keepsApart e = true then r.next fns e else none

/-- A run that is computed on. -/
theorem CopyRun.follow (es : List PieceEvent) : ∀ {m t r : PieceRun σ} {h : List DataCopy},
    CopyRun fns m h t → t.TwoWorkers → System.follow (PieceRun.checkedNext fns) t es = some r →
      r.TwoWorkers ∧ ∃ h', CopyRun fns m h' r := by
  induction es with
  | nil =>
    intro m t r h hrun htwo hfollow
    obtain rfl := Option.some.inj hfollow
    exact ⟨htwo, h, hrun⟩
  | cons e es ih =>
    intro m t r h hrun htwo hfollow
    unfold System.follow at hfollow
    rw [List.foldlM_cons] at hfollow
    obtain ⟨t', hnext, hrest⟩ := Option.bind_eq_some_iff.mp hfollow
    unfold PieceRun.checkedNext at hnext
    split at hnext
    · rename_i he
      have hstep := PieceRun.next_step hnext
      exact ih (hrun.step (PieceRun.keepsApart_apart htwo he) hstep) (htwo.step he hstep) hrest
    · cases hnext

end Computed

/-! ## A write and two reads -/

section Gib

/-- The first page is written. -/
def firstPageWrite : SqEntry :=
  { flushEntry with opcode := .write, length := 7, length_lt := by decide }

/-- The page `n` is read. -/
def pageRead (n : Nat) : SqEntry :=
  { flushEntry with opcode := .read, slba := u64 (n * 8), length := 7
                    slba_lt := Nat.mod_lt _ (by decide), length_lt := by decide }

/-- The command at the head of the queue `qid` is dispatched, the `count`-th for it. -/
def dispatchEvents (qid count : Nat) : List DeviceEvent :=
  [.writeDoorbell (qid * 2) count, .pollSq qid] ++ acceptEvents 1 ++ [.finish]

/-- The queues `qid` are created. -/
def createEvents (qid : Nat) : List DeviceEvent :=
  [.adminReq 0 (queueCommand .createCq qid 1023), .adminReq 0 (queueCommand .createSq qid 1023)]

/-- Two queues, each with a worker, which has come to a command. -/
def bothTaken : List DeviceEvent :=
  createEvents 1 ++ createEvents 2 ++
    [.writeEntry 1 0 firstPageWrite, .writeEntry 2 0 (pageRead 1), .writeEntry 2 1 (pageRead 0)] ++
    dispatchEvents 1 1 ++ dispatchEvents 2 1 ++ [.startPass 0, .startPass 1]

/-- The write of the first page and the read of the second are under way together, piece by piece. -/
def copiedTogether : List PieceEvent :=
  bothTaken.map .device ++
    [.start 0 fun _ => 1, .start 1 fun _ => 0, .piece 0 100, .piece 1 4096, .piece 0 3996,
      .finish 0 (2 ^ 40), .finish 1 (2 ^ 40)]

/-- The second worker reads the first page. -/
def firstPageRead : List PieceEvent :=
  (dispatchEvents 2 2).map .device ++
    [.device (.startPass 1), .start 1 fun _ => 0, .piece 1 4096, .finish 1 (2 ^ 41)]

/-- A booted device with two workers. -/
def bootedPair : Option (PieceRun ConvNs) :=
  (bootedWith (convInitNamespace samsung970Pro gib)).map fun s =>
    { device := { s with nrIoWorkers := 2 }, underWay := fun _ => none }

theorem bootedPair_booted {r : PieceRun ConvNs} (h : bootedPair = some r) :
    Booted Fresh970ProGib r.device ∧ (∀ w, r.underWay w = none) ∧ r.TwoWorkers := by
  obtain ⟨s, hs, rfl⟩ := Option.map_eq_some_iff.mp h
  unfold bootedWith at hs
  split at hs
  · rename_i ns env' hrun
    obtain rfl := Option.some.inj hs
    have hboot : Booted Fresh970ProGib (bootedDevice ns) := bootedDevice_booted ⟨.zero, env', hrun⟩
    refine ⟨{ hboot with nrIoWorkers := Nat.two_pos }, fun _ => rfl, ⟨?_, ?_⟩, fun _ _ => rfl⟩
    · exact fun job hjob => absurd hjob List.not_mem_nil
    · exact fun w job hjob => absurd hjob List.not_mem_nil
  · cases hs

/-- The job `n` of the worker is a command, and it was ended. -/
def WorkerRun.hasEnded (run : WorkerRun) (n : Nat) : Bool :=
  match run.jobs[n]? with
  | some (.request _ _ _ _ _) => !decide (run.Unfinished n)
  | _ => false

theorem WorkerRun.hasEnded_request {run : WorkerRun} {n : Nat} (h : run.hasEnded n = true) :
    (∃ sqid cqid slot id ret, run.jobs[n]? = some (.request sqid cqid slot id ret)) ∧
      ¬ run.Unfinished n := by
  unfold WorkerRun.hasEnded at h
  split at h
  · rename_i hjob
    exact ⟨⟨_, _, _, _, _, hjob⟩, of_decide_eq_false (Bool.not_eq_true' _ |>.mp h)⟩
  · cases h

/-- With a write and a read of other bytes under way together, and a later read of what was written:
its copy finds the bytes of the write, or those of a copy in between. -/
theorem commands_in_one_order_together : ∃ r₀ m r : PieceRun ConvNs, ∃ h h',
    CopyRun convNamespace r₀ h m ∧ CopyRun convNamespace m h' r ∧
      ∃ before c mid mid' late after, h = before ++ c :: mid ∧ h' = mid' ++ late :: after ∧
        c.isFor 0 0 = true ∧ late.isFor 1 1 = true ∧
          ∀ a v, c.write a = some v → late.entry.Touches a →
            ∃ c' ∈ c :: (mid ++ mid'), c'.write a = some (late.found a) := by
  have hcomputed : (bootedPair.bind fun r₀ =>
      (System.follow (PieceRun.checkedNext convNamespace) r₀ copiedTogether).bind fun m =>
        (System.follow (PieceRun.checkedNext convNamespace) m firstPageRead).map fun r =>
          (m.device.workers 0).hasEnded 0 && decide ((m.device.workers 1).jobs.length = 1) &&
            (r.device.workers 1).hasEnded 1) = some true := by decide +kernel
  obtain ⟨r₀, hr₀, hrest⟩ := Option.bind_eq_some_iff.mp hcomputed
  obtain ⟨m, hm, hrest⟩ := Option.bind_eq_some_iff.mp hrest
  obtain ⟨r, hr, hends⟩ := Option.map_eq_some_iff.mp hrest
  obtain ⟨hfirst, hread⟩ := Bool.and_eq_true_iff.mp hends
  obtain ⟨hwritten, hcount⟩ := Bool.and_eq_true_iff.mp hfirst
  obtain ⟨⟨_, _, _, _, _, hjob⟩, hdone⟩ := WorkerRun.hasEnded_request hwritten
  obtain ⟨⟨_, _, _, _, _, hjob'⟩, hdone'⟩ := WorkerRun.hasEnded_request hread
  obtain ⟨hboot, hnone, htwo⟩ := bootedPair_booted hr₀
  obtain ⟨htwo, h, hrun⟩ := CopyRun.follow copiedTogether .refl htwo hm
  obtain ⟨_, h', hrun'⟩ := CopyRun.follow firstPageRead .refl htwo hr
  obtain ⟨_, _, _, _, horder⟩ := commands_in_one_order hboot hnone hrun hrun'
  obtain ⟨before, c, mid, hlist, hfor, hlate⟩ := horder 0 0 _ _ _ _ _ hjob hdone
  have hfacts := hrun'.facts (hrun.facts (.boot hboot hnone) convNamespace_passesThrough)
    convNamespace_passesThrough
  obtain ⟨late, hmem, hfor'⟩ := hfacts.ledger.ended hjob' hdone'
  obtain ⟨hworker, hserial⟩ := of_decide_eq_true hfor'
  obtain ⟨mid', after, hlist', hfinds⟩ := hlate late hmem (by
    rw [hworker, of_decide_eq_true hcount, hserial])
  exact ⟨r₀, m, r, h, h', hrun, hrun', before, c, mid, mid', late, after, hlist, hlist', hfor, hfor',
    hfinds⟩

end Gib

end NvmeVirt

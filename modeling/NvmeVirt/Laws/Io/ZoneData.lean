import NvmeVirt.Laws.Io.DataPath
import NvmeVirt.Laws.Zns.ZoneLogs

/-!
# The data of a zoned namespace

The dispatcher moves the write pointer of a zone when it takes a write, and resets a zone at once;
the data of a write comes later, when a worker copies it. Over all runs each zone is a log all the
same: a record is there from the moment its write is taken, shows what it found until the copy, and
has the bytes of the host from then until its zone is reset.

Two of the steps change a log. `ZonesAreLogs.attempt` is the dispatcher's: a write that is taken
appends an empty record, a reset clears. `ZonesAreLogs.visit` is the worker's: a copy fills the
record of its write, which is the only one that waits there (`WritesWait`). Between the two a write
is handed over (`ZonesAreLogs.gave`), which changes only where it waits; all other steps give and
copy nothing (`GivesNothing`).

The law is for hosts that leave the submission entry of a command alone until it is copied, that
reset no zone with a write under way, that open no zone with ZRWA, and whose writes pass the checks
of their zone: the device would copy the data of a refused write too. A command with a zone number
past `nr_zones` is no step of these runs, and a copy is one step.
-/

set_option autoImplicit false

namespace NvmeVirt

open Outcome

namespace DeviceRun

variable {σ : Type} (s : DeviceRun σ)

/-- A command that has ended well is on its way from the dispatcher to its worker. -/
def Handing (sqid slot : Nat) : Prop := ∃ poll ans todo cqid id ret,
  s.dispatcher = .handing poll ans todo ∧ .request sqid cqid slot id ret ∈ todo ∧
    ret.status = nvmeScSuccess

/-- A command that has ended well waits for its copy as the job `n` of the worker `w`. -/
def Queued (w n sqid slot : Nat) : Prop := ∃ cqid id ret,
  (s.workers w).jobs[n]? = some (.request sqid cqid slot id ret) ∧ ret.status = nvmeScSuccess ∧
    IoAction.copy sqid slot ∉ (s.workers w).actionsOf n

/-- A write that has ended well waits for its copy at the dispatcher, or as a job of a worker. -/
def WriteWaits : Option (Nat × Nat) → Nat → Nat → Prop
  | none, sqid, slot => s.Handing sqid slot ∧ (s.sq sqid slot).writes = true
  | some (w, n), sqid, slot => s.Queued w n sqid slot ∧ (s.sq sqid slot).writes = true

/-- The submission entry the dispatcher is at. -/
def entryOf (poll : SqPoll) : SqEntry := s.sq poll.sqid poll.sqEntry

end DeviceRun

/-- The zoned namespace with the storage of the device. -/
def DeviceRun.zns (s : DeviceRun ZnsFtl) : ZnsFtl := { s.ns with storage := s.storage }

/-- What the host keeps to. -/
def ZoneHost (s : DeviceRun ZnsFtl) : DeviceEvent → Prop
  | .writeEntry qid slot _ => ¬ s.Waits qid slot
  | .attempt => ∀ poll, s.dispatcher = .polling poll → ¬ s.Waits poll.sqid poll.sqEntry ∧
      s.zns.OpensNoZrwa (s.entryOf poll).toZnsCommand ∧
      ((s.entryOf poll).writes = true → s.ns.WritePasses (s.entryOf poll).toZnsRw) ∧
      ∀ z, s.zns.Empties (s.entryOf poll).toZnsCommand z → ∀ k sqid slot,
        s.WriteWaits k sqid slot → s.zns.lbaToZone (s.sq sqid slot).slba ≠ z
  | _ => True

/-- The next command resets the zone. -/
def ResetsZone (s : DeviceRun ZnsFtl) (z : Nat) : DeviceEvent → Prop
  | .attempt => ∃ poll, s.dispatcher = .polling poll ∧ s.zns.Empties (s.entryOf poll).toZnsCommand z
  | _ => False

/-- What is handed over for the entry of a poll: at most one command, after everything else. -/
structure HandsOver (poll : SqPoll) (todo : List IoJob) : Prop where
  slot : ∀ sqid cqid slot id ret, .request sqid cqid slot id ret ∈ todo →
    sqid = poll.sqid ∧ slot = poll.sqEntry
  last : ∀ before rest sqid cqid slot id ret,
    todo = before ++ .request sqid cqid slot id ret :: rest → rest = []

/-- Each write that waits for its copy has a record of its own, which is empty. -/
structure WritesWait (s : DeviceRun ZnsFtl) (logs : Nat → AppendLog Nat) : Prop where
  handing : ∀ poll ans todo, s.dispatcher = .handing poll ans todo → HandsOver poll todo
  record : ∀ k sqid slot, s.WriteWaits k sqid slot → ∃ z r, z < s.zns.zp.nrZones ∧
    r ∈ (logs z).records ∧ r.data = none ∧ r.start = (s.sq sqid slot).slba ∧
    r.len = (s.sq sqid slot).length + 1
  apart : ∀ k k' sqid sqid' slot slot', s.WriteWaits k sqid slot → s.WriteWaits k' sqid' slot' →
    (s.sq sqid slot).slba = (s.sq sqid' slot').slba → k = k'

/-- The device is a family of logs. -/
structure ZonesAreLogs (cfg : ZnsConfig) (size : Nat) (s : DeviceRun ZnsFtl)
    (logs : Nat → AppendLog Nat) : Prop where
  workers : ∀ w, workerRuns.Reachable (s.workers w)
  stores : StoresLogs cfg size s.zns logs
  waits : WritesWait s logs
  failed : FailedWriteNothing s

section Steps

variable {cfg : ZnsConfig} {size : Nat} {s s' : DeviceRun ZnsFtl} {l : DeviceEvent}
  {logs logs' : Nat → AppendLog Nat}

/-! ## Writes that wait -/

/-- What is left to hand over. -/
theorem HandsOver.tail {poll : SqPoll} {job : IoJob} {todo : List IoJob}
    (h : HandsOver poll (job :: todo)) : HandsOver poll todo where
  slot sqid cqid slot id ret hmem := h.slot sqid cqid slot id ret (List.mem_cons_of_mem _ hmem)
  last before rest sqid cqid slot id ret htodo :=
    h.last (job :: before) rest sqid cqid slot id ret (by rw [htodo, List.cons_append])

/-- What an answer hands over is for the entry of the poll. -/
theorem ProcAnswer.handsOver (ans : ProcAnswer) (poll : SqPoll) (cqid : Nat) :
    HandsOver poll (ans.jobs poll.sqid cqid poll.sqEntry) := by
  unfold ProcAnswer.jobs
  constructor
  · intro sqid cqid' slot id ret hmem
    rcases List.mem_append.mp hmem with hin | hin
    · obtain ⟨op, _, hop⟩ := List.mem_map.mp hin
      cases hop
    · split at hin
      · cases List.mem_singleton.mp hin
        exact ⟨rfl, rfl⟩
      · cases hin
  · intro before rest sqid cqid' slot id ret
    -- nothing before the command is one, so it is in the second part, which is short
    generalize ans.internal = ops
    induction ops generalizing before with
    | nil =>
      intro hlist
      have hlen := congrArg List.length hlist
      rw [List.map_nil, List.nil_append, List.length_append, List.length_cons] at hlen
      have hshort : ∀ (c : Prop) [Decidable c] (job : IoJob),
          (if c then [job] else []).length ≤ 1 := by
        intro c _ job
        split <;> simp
      have hle := hshort (ans.accepted = true)
        (.request poll.sqid cqid poll.sqEntry ans.entry.commandId ans.result)
      exact List.length_eq_zero_iff.mp (by omega)
    | cons op ops ih =>
      intro hlist
      cases before with
      | nil => cases (List.cons.inj hlist).1
      | cons first before => exact ih before (List.cons.inj hlist).2

/-- The slot of a command that waits is one the host leaves alone. -/
theorem WritesWait.waits (h : WritesWait s logs) {k : Option (Nat × Nat)} {sqid slot : Nat}
    (hk : s.WriteWaits k sqid slot) : s.Waits sqid slot := by
  cases k with
  | none =>
    obtain ⟨⟨poll, ans, todo, cqid, id, ret, hat, hmem, _⟩, _⟩ := hk
    obtain ⟨rfl, rfl⟩ := (h.handing poll ans todo hat).slot sqid cqid slot id ret hmem
    exact .inl ⟨poll, ans, todo, hat, rfl, rfl⟩
  | some job =>
    obtain ⟨⟨cqid, id, ret, hjob, _, hcopy⟩, _⟩ := hk
    exact .inr ⟨job.1, job.2, cqid, id, ret, hjob, hcopy⟩

/-- After a step that takes no write, and leaves the records of those that wait alone. -/
theorem WritesWait.renamed (h : WritesWait s logs) (f : Option (Nat × Nat) → Option (Nat × Nat))
    (hold : ∀ k sqid slot, s'.WriteWaits k sqid slot → s.WriteWaits (f k) sqid slot ∧
      s'.sq sqid slot = s.sq sqid slot)
    (hf : ∀ k k' sqid sqid' slot slot', s'.WriteWaits k sqid slot →
      s'.WriteWaits k' sqid' slot' → f k = f k' → k = k')
    (hzp : s'.zns.zp = s.zns.zp)
    (hkept : ∀ z, z < s.zns.zp.nrZones → ∀ r ∈ (logs z).records, (∃ k sqid slot,
      s'.WriteWaits k sqid slot ∧ r.start = (s.sq sqid slot).slba) → r ∈ (logs' z).records)
    (hhanding : ∀ poll ans todo, s'.dispatcher = .handing poll ans todo → HandsOver poll todo) :
    WritesWait s' logs' := by
  refine ⟨hhanding, fun k sqid slot hk => ?_, fun k k' sqid sqid' slot slot' hk hk' hslba => ?_⟩
  · obtain ⟨hwaits, hentry⟩ := hold k sqid slot hk
    obtain ⟨z, r, hz, hr, hempty, hstart, hlen⟩ := h.record _ _ _ hwaits
    rw [hentry, hzp]
    exact ⟨z, r, hz, hkept z hz r hr ⟨k, sqid, slot, hk, hstart⟩, hempty, hstart, hlen⟩
  · obtain ⟨hwaits, hentry⟩ := hold k sqid slot hk
    obtain ⟨hwaits', hentry'⟩ := hold k' sqid' slot' hk'
    rw [hentry, hentry'] at hslba
    exact hf _ _ _ _ _ _ hk hk' (h.apart _ _ _ _ _ _ hwaits hwaits' hslba)

/-- The step gives no job to a worker, and leaves the slots of waiting commands alone. -/
structure GivesNothing (s s' : DeviceRun ZnsFtl) : Prop where
  sq : ∀ sqid slot, s.Waits sqid slot → s'.sq sqid slot = s.sq sqid slot
  jobs : ∀ w, (s'.workers w).jobs = (s.workers w).jobs
  log : ∀ w n, (s.workers w).actionsOf n ⊆ (s'.workers w).actionsOf n
  dispatcher : ∀ poll ans todo, s'.dispatcher = .handing poll ans todo →
    ∃ todo', s.dispatcher = .handing poll ans todo' ∧ (todo = todo' ∨ ∃ job, todo' = job :: todo)

/-- No write waits that did not wait before. -/
theorem GivesNothing.waits (h : GivesNothing s s') (hwaits : WritesWait s logs)
    {k : Option (Nat × Nat)} {sqid slot : Nat} (hk : s'.WriteWaits k sqid slot) :
    s.WriteWaits k sqid slot ∧ s'.sq sqid slot = s.sq sqid slot := by
  cases k with
  | none =>
    obtain ⟨⟨poll, ans, todo, cqid, id, ret, hat, hmem, hok⟩, hwrites⟩ := hk
    obtain ⟨todo', hat', hsub⟩ := h.dispatcher poll ans todo hat
    have hmem' : .request sqid cqid slot id ret ∈ todo' := by
      rcases hsub with rfl | ⟨job, rfl⟩
      · exact hmem
      · exact List.mem_cons_of_mem _ hmem
    obtain ⟨hsqid, hslot⟩ := (hwaits.handing poll ans todo' hat').slot sqid cqid slot id ret hmem'
    have hsame := h.sq sqid slot (.inl ⟨poll, ans, todo', hat', hsqid.symm, hslot.symm⟩)
    rw [hsame] at hwrites
    exact ⟨⟨⟨poll, ans, todo', cqid, id, ret, hat', hmem', hok⟩, hwrites⟩, hsame⟩
  | some job =>
    obtain ⟨w, n⟩ := job
    obtain ⟨⟨cqid, id, ret, hjob, hok, hcopy⟩, hwrites⟩ := hk
    rw [h.jobs] at hjob
    have hcopy' := fun hold => hcopy (h.log w n hold)
    have hsame := h.sq sqid slot (.inr ⟨w, n, cqid, id, ret, hjob, hcopy'⟩)
    rw [hsame] at hwrites
    exact ⟨⟨⟨cqid, id, ret, hjob, hok, hcopy'⟩, hwrites⟩, hsame⟩

/-- Nor is anything else handed over. -/
theorem GivesNothing.handing (h : GivesNothing s s') (hwaits : WritesWait s logs) (poll : SqPoll)
    (ans : ProcAnswer) (todo : List IoJob) (hat : s'.dispatcher = .handing poll ans todo) :
    HandsOver poll todo := by
  obtain ⟨todo', hat', hsub⟩ := h.dispatcher poll ans todo hat
  have hands := hwaits.handing poll ans todo' hat'
  rcases hsub with rfl | ⟨job, rfl⟩
  · exact hands
  · exact hands.tail

/-- A step that does nothing to the namespace and its storage. -/
theorem ZonesAreLogs.same (h : ZonesAreLogs cfg size s logs) (hgives : GivesNothing s s')
    (hworkers : ∀ w, workerRuns.Reachable (s'.workers w)) (hfailed : FailedWriteNothing s')
    (hns : s'.zns = s.zns) : ZonesAreLogs cfg size s' logs := by
  refine ⟨hworkers, ?_, ?_, hfailed⟩
  · rw [hns]
    exact h.stores
  · exact h.waits.renamed id (fun k sqid slot hk => hgives.waits h.waits hk)
      (fun _ _ _ _ _ _ _ _ hkk => hkk) (by rw [hns]) (fun _ _ _ hr _ => hr)
      (hgives.handing h.waits)

/-! ## The dispatcher hands a command over -/

/-- A job goes to its worker, and a write waits there from then on. -/
theorem ZonesAreLogs.gave (h : ZonesAreLogs cfg size s logs) {poll : SqPoll} {ans : ProcAnswer}
    {job : IoJob} {todo : List IoJob} {worker' : IoWorker}
    (hat : s.dispatcher = .handing poll ans (job :: todo))
    (hworkers : ∀ w, workerRuns.Reachable ((s.gave (getIoWorker s.nrIoWorkers job.sqid) worker' job
      (.handing poll ans todo)).workers w))
    (hfailed : FailedWriteNothing
      (s.gave (getIoWorker s.nrIoWorkers job.sqid) worker' job (.handing poll ans todo))) :
    ZonesAreLogs cfg size
      (s.gave (getIoWorker s.nrIoWorkers job.sqid) worker' job (.handing poll ans todo)) logs := by
  generalize getIoWorker s.nrIoWorkers job.sqid = v at hworkers hfailed ⊢
  have hands := h.waits.handing poll ans _ hat
  -- the job that is given takes the place of the command the dispatcher had
  let f : Option (Nat × Nat) → Option (Nat × Nat) := fun k =>
    if k = some (v, (s.workers v).jobs.length) then none else k
  have hself : f (some (v, (s.workers v).jobs.length)) = none := if_pos rfl
  have hother : ∀ k, k ≠ some (v, (s.workers v).jobs.length) → f k = k := fun k hk => if_neg hk
  have hlog : ∀ w n, ((s.gave v worker' job (.handing poll ans todo)).workers w).actionsOf n =
      (s.workers w).actionsOf n := by
    intro w n
    refine actionsOf_update ?_ n
    refine update_log ?_ w
    rfl
  have hlast : ∀ {sqid slot}, (s.gave v worker' job (.handing poll ans todo)).WriteWaits none
      sqid slot → ∀ {sqid' cqid' slot' id' ret'}, job ≠ .request sqid' cqid' slot' id' ret' := by
    rintro sqid slot ⟨⟨poll', ans', todo', cqid, id, ret, hat', hmem, _⟩, _⟩ _ _ _ _ _ rfl
    obtain ⟨rfl, rfl, rfl⟩ := Dispatcher.handing.inj hat'
    rw [hands.last [] todo _ _ _ _ _ rfl] at hmem
    cases hmem
  have hgiven : ∀ {sqid slot}, (s.gave v worker' job (.handing poll ans todo)).WriteWaits
      (some (v, (s.workers v).jobs.length)) sqid slot →
      ∃ cqid id ret, job = .request sqid cqid slot id ret ∧ ret.status = nvmeScSuccess := by
    rintro sqid slot ⟨⟨cqid, id, ret, hjob, hok, _⟩, _⟩
    change (Function.update s.workers v _ v).jobs[_]? = _ at hjob
    rw [Function.update_self] at hjob
    exact ⟨cqid, id, ret, Option.some.inj (List.getElem?_concat_length.symm.trans hjob), hok⟩
  refine ⟨hworkers, h.stores, h.waits.renamed f (fun k sqid slot hk => ⟨?_, rfl⟩)
    (fun k k' sqid sqid' slot slot' hk hk' hkk => ?_) rfl (fun _ _ _ hr _ => hr)
    (fun poll' ans' todo' hat' => ?_), hfailed⟩
  · by_cases hkv : k = some (v, (s.workers v).jobs.length)
    · subst hkv
      obtain ⟨cqid, id, ret, rfl, hok⟩ := hgiven hk
      rw [hself]
      exact ⟨⟨poll, ans, _, cqid, id, ret, hat, List.mem_cons_self, hok⟩, hk.2⟩
    · rw [hother k hkv]
      cases k with
      | none =>
        obtain ⟨⟨poll', ans', todo', cqid, id, ret, hat', hmem, hok⟩, hwrites⟩ := hk
        obtain ⟨rfl, rfl, rfl⟩ := Dispatcher.handing.inj hat'
        exact ⟨⟨poll, ans, _, cqid, id, ret, hat, List.mem_cons_of_mem _ hmem, hok⟩, hwrites⟩
      | some key =>
        obtain ⟨w, n⟩ := key
        obtain ⟨⟨cqid, id, ret, hjob, hok, hcopy⟩, hwrites⟩ := hk
        rw [hlog] at hcopy
        refine ⟨⟨cqid, id, ret, ?_, hok, hcopy⟩, hwrites⟩
        change (Function.update s.workers v _ w).jobs[n]? = _ at hjob
        by_cases hw : w = v
        · subst hw
          rw [Function.update_self] at hjob
          have hn : n ≠ (s.workers w).jobs.length := fun hn => hkv (by rw [hn])
          have hlt := (List.getElem?_eq_some_iff.mp hjob).1
          change n < ((s.workers w).jobs ++ [job]).length at hlt
          rw [List.length_append, List.length_singleton] at hlt
          exact (List.getElem?_append_left (by omega)).symm.trans hjob
        · rw [Function.update_of_ne hw] at hjob
          exact hjob
  · by_cases hkv : k = some (v, (s.workers v).jobs.length)
    · by_cases hkv' : k' = some (v, (s.workers v).jobs.length)
      · exact hkv.trans hkv'.symm
      · subst hkv
        rw [hself, hother k' hkv'] at hkk
        subst hkk
        obtain ⟨_, _, _, hjob, _⟩ := hgiven hk
        exact absurd hjob (hlast hk')
    · by_cases hkv' : k' = some (v, (s.workers v).jobs.length)
      · subst hkv'
        rw [hself, hother k hkv] at hkk
        subst hkk
        obtain ⟨_, _, _, hjob, _⟩ := hgiven hk'
        exact absurd hjob (hlast hk)
      · rw [hother k hkv, hother k' hkv'] at hkk
        exact hkk
  · obtain ⟨rfl, rfl, rfl⟩ := Dispatcher.handing.inj hat'
    exact hands.tail

/-! ## The dispatcher takes a command -/

/-- An entry that writes is a write or an append. -/
theorem SqEntry.toZnsCommand_of_writes {entry : SqEntry} (h : entry.writes = true) :
    entry.toZnsCommand = .write entry.toZnsRw := by
  unfold SqEntry.writes at h
  unfold SqEntry.toZnsCommand
  rcases of_decide_eq_true h with hop | hop
  · rw [hop]
  · rw [hop]

/-- A call of `proc_io_cmd` is one of `zns_proc_nvme_io_cmd`. -/
theorem znsNamespace_ran {ns : ZnsFtl} {storage : Nat → Nat} {entry : SqEntry} {sqid : Nat}
    {env env' : Env} {out : ProcOutcome ZnsFtl}
    (hrun : (nvmevProcIo znsNamespace ns storage entry sqid).run env = .ok (out, env')) :
    ∃ nsecsStart env₁ env₂ ans, (({ ns with storage } : ZnsFtl).znsProcNvmeIoCmd entry.toZnsCommand
      nsecsStart).run env₁ = .ok ((out.ns, ans), env₂) ∧ out.storage = out.ns.storage ∧
      out.answer.accepted = ans.accepted ∧ out.answer.result = ans.result ∧
      out.answer.entry = if entry.opcode = .zoneAppend then entry.setSlba ans.slba else entry := by
  obtain ⟨nsecsStart, env₁, _, hcall⟩ := run_bind hrun
  obtain ⟨⟨ftl, ans⟩, env₂, hcmd, hpure⟩ := run_bind hcall
  obtain rfl := run_pure hpure
  exact ⟨nsecsStart, env₁, env₂, ans, hcmd, rfl, rfl, rfl, rfl⟩

/-- A command is handed over if it was accepted. -/
theorem ProcAnswer.request_mem {ans : ProcAnswer} {q c e sqid cqid slot id : Nat} {ret : NvmevResult}
    (h : .request sqid cqid slot id ret ∈ ans.jobs q c e) :
    ans.accepted = true ∧ ret = ans.result ∧ sqid = q ∧ slot = e := by
  unfold ProcAnswer.jobs at h
  rcases List.mem_append.mp h with hin | hin
  · obtain ⟨op, _, hop⟩ := List.mem_map.mp hin
    cases hop
  · split at hin
    · rename_i haccepted
      cases List.mem_singleton.mp hin
      exact ⟨haccepted, rfl, rfl, rfl⟩
    · cases hin

/-- The records of a log lie below 2³² blocks. -/
theorem StoresLogs.record_lt {ftl : ZnsFtl} (h : StoresLogs cfg size ftl logs)
    (hsmall : size ≤ 2 ^ 32 * lbaSize) {z : Nat} (hz : z < ftl.zp.nrZones) {r : LogRecord Nat}
    (hr : r ∈ (logs z).records) : r.start + r.len ≤ 2 ^ 32 := by
  have hupper := (h.zone hz).upper
  rw [(h.zone hz).capacity, (h.zone hz).zslba, ← h.next hz] at hupper
  have hbelow := AppendLog.below_next hr
  have hend := h.settled.shaped.zone_end hsmall hz
  omega

/-- The entry of an appending command says where its record is. -/
theorem SqEntry.setSlba_slba (entry : SqEntry) {slba : Nat} (h : slba < 2 ^ 64) :
    (entry.setSlba slba).slba = slba := Nat.mod_eq_of_lt h

/-- The dispatcher takes a command: a write that succeeds is appended to its zone, and a reset
clears it. -/
theorem ZonesAreLogs.attempt (h : ZonesAreLogs cfg size s logs) (hsmall : size ≤ 2 ^ 32 * lbaSize)
    (hhost : ZoneHost s .attempt) {poll : SqPoll} {sq : SubmissionQueue} {env env' : Env}
    {out : ProcOutcome ZnsFtl} {kept : Nat → Nat} (hat : s.dispatcher = .polling poll)
    (hrun : (nvmevProcIo znsNamespace s.ns s.storage (s.entryOf poll) poll.sqid).run env =
      .ok (out, env')) (hfailed : FailedWriteNothing (s.answered poll sq out kept)) :
    ∃ e logs', LogStep (fun _ => 0) logs e logs' ∧
      ZonesAreLogs cfg size (s.answered poll sq out kept) logs' ∧
      ∀ P, e = .clear P → ∀ z, P z → ResetsZone s z .attempt := by
  obtain ⟨hfree, hno, _, hreset⟩ := hhost poll hat
  obtain ⟨nsecsStart, env₁, env₂, ans, hcmd, hstorage, haccepted, hresult, hentry⟩ :=
    znsNamespace_ran hrun
  obtain ⟨e, logs', htook, hstores⟩ := h.stores.command hsmall hno hcmd
  have hzns : (s.answered poll sq out kept).zns = out.ns := by
    unfold DeviceRun.zns DeviceRun.answered
    dsimp only
    rw [hstorage]
  have hzp : out.ns.zp = s.zns.zp :=
    hstores.settled.shaped.zp.trans h.stores.settled.shaped.zp.symm
  generalize hs' : s.answered poll sq out kept = s' at hzns hfailed ⊢
  have hslot : s'.sq poll.sqid poll.sqEntry = out.answer.entry := by
    rw [← hs']
    show Function.update s.sq _ _ _ _ = _
    rw [Function.update_self, Function.update_self]
  have hothers : ∀ sqid slot, s.Waits sqid slot → s'.sq sqid slot = s.sq sqid slot := by
    intro sqid slot hwaits
    rw [← hs']
    show Function.update s.sq _ _ _ _ = _
    by_cases hq : sqid = poll.sqid
    · subst hq
      have he : slot ≠ poll.sqEntry := fun he => hfree (he ▸ hwaits)
      rw [Function.update_self, Function.update_of_ne he]
    · rw [Function.update_of_ne hq]
  -- the writes of before wait as they did
  have hqueued : ∀ {w n sqid slot}, s'.WriteWaits (some (w, n)) sqid slot →
      s.WriteWaits (some (w, n)) sqid slot ∧ s'.sq sqid slot = s.sq sqid slot := by
    rintro w n sqid slot ⟨⟨cqid, id, ret, hjob, hok, hcopy⟩, hwrites⟩
    subst hs'
    have hsame := hothers sqid slot (.inr ⟨w, n, cqid, id, ret, hjob, hcopy⟩)
    rw [hsame] at hwrites
    exact ⟨⟨⟨cqid, id, ret, hjob, hok, hcopy⟩, hwrites⟩, hsame⟩
  -- and the new one has the record that was appended
  have hnew : ∀ {sqid slot}, s'.WriteWaits none sqid slot → ∃ z r, z < s.zns.zp.nrZones ∧
      r ∈ (logs' z).records ∧ r.data = none ∧ r.start = (s'.sq sqid slot).slba ∧
      r.len = (s'.sq sqid slot).length + 1 ∧
      ∀ z', z' < s.zns.zp.nrZones → ∀ r' ∈ (logs z').records, r'.start ≠ r.start := by
    rintro sqid slot ⟨⟨poll', ans', todo', cqid, id, ret, hat', hmem, hok⟩, hwrites⟩
    subst hs'
    obtain ⟨rfl, rfl, rfl⟩ := Dispatcher.handing.inj hat'
    obtain ⟨hacc, rfl, rfl, rfl⟩ := ProcAnswer.request_mem hmem
    rw [hslot] at hwrites ⊢
    have hwrites' : (s.entryOf poll).writes = true := by
      rw [hentry] at hwrites
      split at hwrites
      · exact hwrites
      · exact hwrites
    rw [hresult] at hok
    obtain ⟨z, r, hz, hr, hempty, hstart, hlen, hslba, hapart⟩ := htook.written _
      (SqEntry.toZnsCommand_of_writes hwrites') (haccepted.symm.trans hacc) hok
    refine ⟨z, r, hz, hr, hempty, ?_, ?_, hapart⟩
    · rw [hstart, hentry]
      split
      · have hlt := hstores.record_lt hsmall (by rw [hzp]; exact hz) hr
        rw [SqEntry.setSlba_slba]
        rw [← hstart]
        omega
      · rename_i hop
        exact hslba (decide_eq_false hop)
    · rw [hlen, hentry]
      split
      · rfl
      · rfl
  refine ⟨e, logs', htook.step, ⟨?_, ?_, ?_, hfailed⟩, fun P hP z hz => ?_⟩
  · intro w
    rw [← hs']
    exact h.workers w
  · rw [hzns]
    exact hstores
  · constructor
    · intro poll' ans' todo' hat'
      subst hs'
      obtain ⟨rfl, rfl, rfl⟩ := Dispatcher.handing.inj hat'
      exact out.answer.handsOver poll sq.cqid
    · intro k sqid slot hk
      rw [hzns, hzp]
      cases k with
      | none =>
        obtain ⟨z, r, hz, hr, hempty, hstart, hlen, _⟩ := hnew hk
        exact ⟨z, r, hz, hr, hempty, hstart, hlen⟩
      | some key =>
        obtain ⟨hold, hsame⟩ := hqueued hk
        obtain ⟨z, r, hz, hr, hempty, hstart, hlen⟩ := h.waits.record _ _ _ hold
        rw [hsame]
        refine ⟨z, r, hz, htook.kept z (fun hemp => ?_) r hr, hempty, hstart, hlen⟩
        apply hreset z hemp _ sqid slot hold
        rw [← hstart]
        exact h.stores.lbaToZone hsmall hz hr
    · intro k k' sqid sqid' slot slot' hk hk' hslba
      cases k with
      | none =>
        cases k' with
        | none => rfl
        | some key' =>
          obtain ⟨_, r, _, _, _, hstart, _, hapart⟩ := hnew hk
          obtain ⟨hold, hsame⟩ := hqueued hk'
          obtain ⟨z', r', hz', hr', _, hstart', _⟩ := h.waits.record _ _ _ hold
          rw [hslba, hsame] at hstart
          exact absurd (hstart'.trans hstart.symm) (hapart z' hz' r' hr')
      | some key =>
        obtain ⟨hold, hsame⟩ := hqueued hk
        cases k' with
        | none =>
          obtain ⟨_, r, _, _, _, hstart, _, hapart⟩ := hnew hk'
          obtain ⟨z', r', hz', hr', _, hstart', _⟩ := h.waits.record _ _ _ hold
          rw [← hslba, hsame] at hstart
          exact absurd (hstart'.trans hstart.symm) (hapart z' hz' r' hr')
        | some key' =>
          obtain ⟨hold', hsame'⟩ := hqueued hk'
          rw [hsame, hsame'] at hslba
          exact h.waits.apart _ _ _ _ _ _ hold hold' hslba
  · exact ⟨poll, hat, htook.cleared P hP z hz⟩

/-! ## A worker visits an entry -/

/-- The releases of a visit leave the zones alone. -/
theorem performAll_zones {sq : Nat → Nat → SqEntry} {bytes : Nat → Nat} {actions : List IoAction}
    {o o' : Outside ZnsFtl} (hok : performAll znsNamespace sq bytes actions o = .ok o')
    (hinv : ∃ leak, ZnsInv leak o.ns) : o'.ns.zp = o.ns.zp ∧ o'.ns.ssd = o.ns.ssd ∧
      o'.ns.zoneDescs = o.ns.zoneDescs ∧ ∃ leak, ZnsInv leak o'.ns := by
  refine @performAll_ns _ znsNamespace sq bytes (fun ftl => ftl.zp = o.ns.zp ∧ ftl.ssd = o.ns.ssd ∧
    ftl.zoneDescs = o.ns.zoneDescs ∧ ∃ leak, ZnsInv leak ftl) ?_ _ _ _ hok ⟨rfl, rfl, rfl, hinv⟩
  rintro ftl _ _ ⟨hzp, hssd, hdescs, leak, hinv⟩
  exact ⟨hzp, hssd, hdescs, leak, ⟨hinv.tallied.acquired, hinv.tallied.bounded, hinv.tallied.total,
    hinv.tallied.underflows, hinv.tallied.nrZones_lt⟩, hinv.idle, hinv.timed⟩

/-- The copy starts at the first LBA of the entry. -/
theorem SqEntry.ioOffset_eq {entry : SqEntry} (h : entry.slba < 2 ^ 32) :
    entry.ioOffset = entry.slba * lbaSize := by
  unfold SqEntry.ioOffset u64
  rw [Nat.shiftLeft_eq]
  exact Nat.mod_eq_of_lt (by unfold lbaBits; omega)

/-- It is as long as the LBAs of the entry. -/
theorem SqEntry.ioSize_eq (entry : SqEntry) : entry.ioSize = (entry.length + 1) * lbaSize :=
  Nat.shiftLeft_eq ..

/-- The copy of a command is in the record of its write. -/
theorem doPerformIo_eq_fill {storage bytes : Nat → Nat} {entry : SqEntry} {r : LogRecord Nat}
    (hwrites : entry.writes = true) (hstart : r.start = entry.slba) (hlen : r.len = entry.length + 1)
    (hlt : r.start < 2 ^ 32) : doPerformIo storage entry bytes = fun a =>
      if r.Covers lbaSize a then bytes (a - r.start * lbaSize) else storage a := by
  have hoff : entry.ioOffset = r.start * lbaSize := by
    rw [hstart] at hlt ⊢
    exact SqEntry.ioOffset_eq hlt
  have hsize : entry.ioSize = r.len * lbaSize := by
    rw [entry.ioSize_eq, hlen]
  funext a
  have hcovers : r.Covers lbaSize a ↔
      r.start * lbaSize ≤ a ∧ a < r.start * lbaSize + r.len * lbaSize := by
    unfold LogRecord.Covers
    rw [Nat.add_mul]
  unfold doPerformIo memcpy
  rw [if_pos hwrites, hoff, hsize]
  exact if_congr hcovers.symm rfl rfl

/-- A visit that is to copy leaves the copy in the log of the worker. -/
theorem copy_mem_visited {w curr currNsecs : Nat} (hdue : s.CopyDue w curr) :
    IoAction.copy ((s.workers w).worker.workQueue curr).sqid
      ((s.workers w).worker.workQueue curr).sqEntry ∈
      ((s.workers w).visited curr currNsecs).actionsOf ((s.workers w).serial curr) := by
  obtain ⟨hopen, hcopied, hinternal⟩ := hdue
  rw [WorkerRun.actionsOf_visit, if_pos rfl, IoWorker.visit_actions, if_neg (by simp [hopen])]
  unfold IoWorker.copies
  rw [if_neg (by simp [hcopied, hinternal])]
  exact List.mem_append_right _ (List.mem_append_left _ List.mem_cons_self)

/-- The command in an entry that is to be copied waits, if it has ended well. -/
theorem DeviceRun.writeWaits {w curr : Nat} (hreach : workerRuns.Reachable (s.workers w))
    (hcursor : (s.workers w).cursor = some curr) (hdue : s.CopyDue w curr)
    (hok : ((s.workers w).worker.workQueue curr).status = nvmeScSuccess)
    (hwrites : (s.entryAt w curr).writes = true) :
    s.WriteWaits (some (w, (s.workers w).serial curr))
      ((s.workers w).worker.workQueue curr).sqid
      ((s.workers w).worker.workQueue curr).sqEntry := by
  obtain ⟨hopen, hcopied, hinternal⟩ := hdue
  obtain ⟨job, hjob, hcarries, hactions, _⟩ := WorkerRun.unfinished_at hreach hcursor hopen
  refine ⟨?_, hwrites⟩
  rw [hcopied] at hactions
  cases job with
  | request sqid cqid slot id ret =>
    have hsqid : _ = sqid := congrArg CqResult.sqid hcarries.1
    have hslot : _ = slot := congrArg CqResult.sqEntry hcarries.1
    have hstatus : _ = ret.status := congrArg CqResult.status hcarries.1
    rw [← hsqid, ← hslot] at hjob
    refine ⟨cqid, id, ret, hjob, hstatus.symm.trans hok, ?_⟩
    rw [hactions]
    exact List.not_mem_nil
  | internal => exact absurd (hinternal.symm.trans hcarries.2.2.2) Bool.false_ne_true

/-- Once a worker has copied for a command, that no longer waits. -/
theorem copied_not_waiting {w curr currNsecs : Nat} {bytes : Nat → Nat} {o : Outside ZnsFtl}
    {sqid slot sqid' slot' : Nat} (hdue : s.CopyDue w curr)
    (hwaits : s.WriteWaits (some (w, (s.workers w).serial curr)) sqid slot)
    (hk : (s.visited w curr currNsecs bytes o).WriteWaits (some (w, (s.workers w).serial curr))
      sqid' slot')
    (hsqid : ((s.workers w).worker.workQueue curr).sqid = sqid)
    (hslot : ((s.workers w).worker.workQueue curr).sqEntry = slot) : False := by
  obtain ⟨⟨_, _, _, hjob, _, _⟩, _⟩ := hwaits
  obtain ⟨⟨_, _, _, hjob', _, hcopy⟩, _⟩ := hk
  rw [s.visited_jobs w curr currNsecs bytes o w, hjob] at hjob'
  obtain ⟨rfl, _, rfl, _⟩ := IoJob.request.inj (Option.some.inj hjob')
  apply hcopy
  have hmem := @copy_mem_visited s w curr currNsecs hdue
  rw [hsqid, hslot] at hmem
  show _ ∈ (Function.update s.workers w ((s.workers w).visited curr currNsecs) w).actionsOf _
  rw [Function.update_self]
  exact hmem

/-- The counters of the namespace are in order. -/
theorem ZonesAreLogs.zns_inv (h : ZonesAreLogs cfg size s logs) : ∃ leak, ZnsInv leak s.ns := by
  obtain ⟨leak, hinv⟩ := h.stores.settled.inv
  exact ⟨leak, hinv.withStorage s.ns.storage⟩

/-- A visit hands nothing over. -/
theorem givesNothing_visited (s : DeviceRun ZnsFtl) (w curr currNsecs : Nat) (bytes : Nat → Nat)
    (o : Outside ZnsFtl) : GivesNothing s (s.visited w curr currNsecs bytes o) := by
  refine ⟨fun _ _ _ => rfl, s.visited_jobs w curr currNsecs bytes o, fun v n => ?_,
    fun poll ans todo hat => ⟨todo, hat, .inl rfl⟩⟩
  show _ ⊆ (Function.update s.workers w ((s.workers w).visited curr currNsecs) v).actionsOf n
  by_cases hv : v = w
  · subst hv
    rw [Function.update_self, WorkerRun.actionsOf_visit]
    exact List.subset_append_left _ _
  · rw [Function.update_of_ne hv]
    exact List.Subset.refl _

/-- A visit fills the record of the write it copies, and does nothing to the logs otherwise. -/
theorem ZonesAreLogs.visit (h : ZonesAreLogs cfg size s logs) (hsmall : size ≤ 2 ^ 32 * lbaSize)
    {w curr currNsecs : Nat} {bytes : Nat → Nat} {o : Outside ZnsFtl}
    (hcursor : (s.workers w).cursor = some curr)
    (hok : performAll znsNamespace s.sq bytes (s.actions w curr currNsecs) s.outside = .ok o)
    (hworkers : ∀ v, workerRuns.Reachable ((s.visited w curr currNsecs bytes o).workers v))
    (hfailed : FailedWriteNothing (s.visited w curr currNsecs bytes o)) :
    ∃ e logs', LogStep (fun _ => 0) logs e logs' ∧
      ZonesAreLogs cfg size (s.visited w curr currNsecs bytes o) logs' ∧ (∀ P, e ≠ .clear P) ∧
      (s.CopyDue w curr → ((s.workers w).worker.workQueue curr).status = nvmeScSuccess →
        (s.entryAt w curr).writes = true → ∃ z r, z < s.zns.zp.nrZones ∧ r ∈ (logs' z).records ∧
          r.data = some bytes ∧ r.start = (s.entryAt w curr).slba ∧
          r.len = (s.entryAt w curr).length + 1 ∧
          s.zns.lbaToZone (s.entryAt w curr).slba = z) := by
  have hgives := givesNothing_visited s w curr currNsecs bytes o
  obtain ⟨hzp, hssd, hdescs, leak, hinv⟩ := performAll_zones hok h.zns_inv
  have hinv' := hinv.withStorage o.storage
  have hstorage : o.storage =
      if s.CopyDue w curr then doPerformIo s.storage (s.entryAt w curr) bytes else s.storage :=
    (performAll_storage hok).trans (copied_actions w curr currNsecs)
  by_cases hwrite : s.CopyDue w curr ∧
      ((s.workers w).worker.workQueue curr).status = nvmeScSuccess ∧
      (s.entryAt w curr).writes = true
  · obtain ⟨hdue, hstatus, hwrites⟩ := hwrite
    have hwaits := DeviceRun.writeWaits (h.workers w) hcursor hdue hstatus hwrites
    obtain ⟨z, r, hz, hr, hempty, hstart, hlen⟩ := h.waits.record _ _ _ hwaits
    have hlt := h.stores.record_lt hsmall hz hr
    have hpos : 0 < r.len := (logs z).tiles.pos r.range (List.mem_map_of_mem hr)
    rw [if_pos hdue] at hstorage
    have hfill := hstorage.trans
      (@doPerformIo_eq_fill s.storage bytes _ _ hwrites hstart hlen (by omega))
    have hmem : { r with data := some bytes } ∈
        (Function.update logs z ((logs z).fill r.start bytes) z).records := by
      rw [Function.update_self]
      exact AppendLog.mem_fill.mpr ⟨r, hr, AppendLog.filled_self⟩
    refine ⟨.fill z r.start bytes, _, .fill hr hempty, ⟨hworkers, ?_, ?_, hfailed⟩, by simp,
      fun _ _ _ => ⟨z, _, hz, hmem, rfl, hstart, hlen, hstart ▸ h.stores.lbaToZone hsmall hz hr⟩⟩
    · exact (h.stores.fill hz hr bytes).congr hzp (congrArg Ssd.sp hssd) hdescs hfill ⟨leak, hinv'⟩
    · refine h.waits.renamed id (fun k sqid slot hk => hgives.waits h.waits hk)
        (fun _ _ _ _ _ _ _ _ hkk => hkk) hzp (fun z' _ r' hr' hwaiting => ?_)
        (hgives.handing h.waits)
      by_cases hzz : z' = z
      · subst hzz
        rw [Function.update_self]
        refine AppendLog.mem_fill.mpr ⟨r', hr', AppendLog.filled_of_ne fun heq => ?_⟩
        -- that would be the write that was copied
        obtain ⟨k, sqid, slot, hk, hstart'⟩ := hwaiting
        have hold := (hgives.waits h.waits hk).1
        obtain rfl := h.waits.apart _ _ _ _ _ _ hold hwaits
          (hstart'.symm.trans (heq.trans hstart))
        exact copied_not_waiting hdue hwaits hk rfl rfl
      · rw [Function.update_of_ne hzz]
        exact hr'
  · have hsame : o.storage = s.storage := by
      rw [hstorage]
      split
      · rename_i hdue
        refine doPerformIo_of_not_writes (Bool.eq_false_iff.mpr fun hwrites => ?_)
        have hstatus : ((s.workers w).worker.workQueue curr).status ≠ nvmeScSuccess :=
          fun hstatus => hwrite ⟨hdue, hstatus, hwrites⟩
        have hnothing := h.failed.copy h.workers hcursor ⟨hdue.1, hdue.2.1, hdue.2.2, hstatus⟩
        exact Bool.false_ne_true (hnothing.symm.trans hwrites)
      · rfl
    refine ⟨.quiet, logs, .quiet, ⟨hworkers, ?_, ?_, hfailed⟩, by simp,
      fun hdue hstatus hwrites => absurd ⟨hdue, hstatus, hwrites⟩ hwrite⟩
    · exact h.stores.congr hzp (congrArg Ssd.sp hssd) hdescs hsame ⟨leak, hinv'⟩
    · exact h.waits.renamed id (fun k sqid slot hk => hgives.waits h.waits hk)
        (fun _ _ _ _ _ _ _ _ hkk => hkk) hzp (fun _ _ _ hr _ => hr) (hgives.handing h.waits)

/-! ## Runs -/

/-- The slot of a failed command that waits is one the host leaves alone. -/
theorem WritesWait.failed (h : WritesWait s logs) {qid slot : Nat} (hwaits : s.FailedWaits qid slot) :
    s.Waits qid slot := by
  obtain ⟨job, hjob, hfailed⟩ | ⟨w, n, job, hjob, hfailed, hnone⟩ := hwaits
  · cases hat : s.dispatcher with
    | handing poll ans todo =>
      rw [hat] at hjob
      cases job with
      | request sqid cqid sqEntry id ret =>
        obtain ⟨rfl, rfl, _⟩ := hfailed
        obtain ⟨rfl, rfl⟩ := (h.handing poll ans todo hat).slot _ _ _ _ _ hjob
        exact .inl ⟨poll, ans, todo, hat, rfl, rfl⟩
      | internal => exact hfailed.elim
    | _ =>
      rw [hat] at hjob
      cases hjob
  · cases job with
    | request sqid cqid sqEntry id ret =>
      obtain ⟨rfl, rfl, _⟩ := hfailed
      refine .inr ⟨w, n, cqid, id, ret, hjob, ?_⟩
      rw [hnone]
      exact List.not_mem_nil
    | internal => exact hfailed.elim

/-- A host that keeps to the rules has its writes pass. -/
theorem ZoneHost.writesPass (h : ZoneHost s l) (hwaits : WritesWait s logs) : WritesPass s l := by
  cases l with
  | attempt => exact fun poll hat => (h poll hat).2.2.1
  | writeEntry qid slot entry => exact fun _ hfailed => h (hwaits.failed hfailed)
  | _ => trivial

/-- What a step of the device does to the logs. -/
theorem ZonesAreLogs.step (h : ZonesAreLogs cfg size s logs) (hsmall : size ≤ 2 ^ 32 * lbaSize)
    (hhost : ZoneHost s l) (hstep : DeviceStep znsNamespace s l s') :
    ∃ e logs', LogStep (fun _ => 0) logs e logs' ∧ ZonesAreLogs cfg size s' logs' ∧
      ∀ P, e = .clear P → ∀ z, P z → ResetsZone s z l := by
  have hworkers := (@deviceRuns_workers _ znsNamespace fun _ => True).step s l s' h.workers hstep
  have hfailed := h.failed.step (hhost.writesPass h.waits) hstep
  have hquiet : GivesNothing s s' → s'.zns = s.zns →
      ∃ e logs', LogStep (fun _ => 0) logs e logs' ∧ ZonesAreLogs cfg size s' logs' ∧
        ∀ P, e = .clear P → ∀ z, P z → ResetsZone s z l := fun hgives hns =>
    ⟨.quiet, logs, .quiet, h.same hgives hworkers hfailed hns, fun P hP => absurd hP (by simp)⟩
  have hsame : ∀ w n, (s.workers w).actionsOf n ⊆ (s.workers w).actionsOf n :=
    fun _ _ => List.Subset.refl _
  cases hstep with
  | @writeEntry qid slot entry =>
    refine hquiet ⟨fun q e hwaits => ?_, fun _ => rfl, hsame,
      fun _ _ todo hat => ⟨todo, hat, .inl rfl⟩⟩ rfl
    show Function.update s.sq qid _ q e = s.sq q e
    by_cases hq : q = qid
    · subst hq
      have he : e ≠ slot := fun he => hhost (he ▸ hwaits)
      rw [Function.update_self, Function.update_of_ne he]
    · rw [Function.update_of_ne hq]
  | writeDoorbell | adminReq _ _ =>
    exact hquiet ⟨fun _ _ _ => rfl, fun _ => rfl, hsame,
      fun _ _ todo hat => ⟨todo, hat, .inl rfl⟩⟩ rfl
  | pollSq _ _ _ _ _ | refused _ _ _ | finish _ _ _ =>
    exact hquiet ⟨fun _ _ _ => rfl, fun _ => rfl, hsame,
      fun _ _ _ hat => Dispatcher.noConfusion hat⟩ rfl
  | attempt hat _ _ hrun => exact h.attempt hsmall hhost hat hrun hfailed
  | gave hat _ =>
    exact ⟨.quiet, logs, .quiet, h.gave hat hworkers hfailed, fun P hP => absurd hP (by simp)⟩
  | @lost poll ans job todo hat _ =>
    refine hquiet ⟨fun _ _ _ => rfl, fun _ => rfl, hsame, fun poll' ans' todo' hat' => ?_⟩ rfl
    obtain ⟨rfl, rfl, rfl⟩ := Dispatcher.handing.inj hat'
    exact ⟨job :: todo, hat, .inr ⟨job, rfl⟩⟩
  | passed _ _ _ _ =>
    refine hquiet ⟨fun _ _ _ => rfl, fun w => (s.reclaimed_log _ w).1, fun w n => ?_,
      fun _ _ _ hat => Dispatcher.noConfusion hat⟩ rfl
    show _ ⊆ (s.reclaimed _ w).actionsOf n
    rw [actionsOf_update (s.reclaimed_log _ w).2 n]
    exact List.Subset.refl _
  | @startPass v _ _ =>
    refine hquiet ⟨fun _ _ _ => rfl, s.startedPass_jobs v, fun w n => ?_,
      fun _ _ todo hat => ⟨todo, hat, .inl rfl⟩⟩ rfl
    have hlog : ((s.startedPass v).workers w).log = (s.workers w).log := by
      refine update_log ?_ w
      rfl
    rw [actionsOf_update hlog n]
    exact List.Subset.refl _
  | visit _ hcursor _ hok =>
    obtain ⟨e, logs', hlogs, hnext, hnone, _⟩ := h.visit hsmall hcursor hok hworkers hfailed
    exact ⟨e, logs', hlogs, hnext, fun P hP => absurd hP (hnone P)⟩

end Steps

end NvmeVirt

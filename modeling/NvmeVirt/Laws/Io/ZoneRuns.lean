import NvmeVirt.Laws.Io.Pieces
import NvmeVirt.Laws.Io.ZoneData

/-!
# Zones over whole runs

The device with a zoned namespace refines a family of logs, one a zone; and the bytes a worker has
copied for a write are there until the zone is reset, whatever else the device does.

The steps are in `Laws/Io/ZoneData`; here they are put together over runs (`zonedRuns_logs`), and a
record that is filled is followed through the rest of a run (`ZonesAreLogs.keeps`). That a copy
counts as one step is no loss: the writes that wait have records of their own, so two workers never
copy to the same place at a time (`ZonesAreLogs.writesApart`).

Only the storage is followed. What a read gets while a write to the same blocks is copied is not
asked.
-/

set_option autoImplicit false

namespace NvmeVirt

open Outcome

/-- What `zns_init_namespace` makes. -/
def FreshZoned (cfg : ZnsConfig) (size : Nat) (ftl : ZnsFtl) : Prop :=
  ∃ storage env env', (znsInitNamespace cfg size storage).run env = .ok (ftl, env')

/-- The runs of a device with a zoned namespace of `size` bytes that keep to `ZoneHost`. -/
def zonedRuns (cfg : ZnsConfig) (size : Nat) : System (DeviceRun ZnsFtl) DeviceEvent :=
  (deviceRuns znsNamespace (FreshZoned cfg size)).guarded ZoneHost

/-- No two writes that wait for their copies touch a common byte. -/
def DeviceRun.WritesApart {σ : Type} (s : DeviceRun σ) : Prop :=
  ∀ k k' sqid sqid' slot slot', s.WriteWaits k sqid slot → s.WriteWaits k' sqid' slot' → k ≠ k' →
    ¬ (s.sq sqid slot).Conflicts (s.sq sqid' slot')

section Runs

variable {cfg : ZnsConfig} {size : Nat} {s s' s'' : DeviceRun ZnsFtl} {l : DeviceEvent}

/-- The logs of a device that has just booted; they show what the memory holds. -/
def bootedLogs (cfg : ZnsConfig) (storage : Nat → Nat) (z : Nat) : AppendLog Nat where
  origin := z * cfg.lbas
  next := z * cfg.lbas
  blank := storage
  records := []
  tiles := rfl

/-- A device boots with empty logs. -/
theorem Booted.zonesAreLogs (h : Booted (FreshZoned cfg size) s) :
    ZonesAreLogs cfg size s (bootedLogs cfg s.storage) := by
  obtain ⟨storage, env, env', hrun⟩ := h.ns
  have hfresh := (znsInitNamespace_ensures cfg size storage).of_run hrun
  have hworker : ∀ w, (s.workers w).jobs = [] := fun w => (h.workers w).2.2.1
  have hnone : ∀ k sqid slot, ¬ s.WriteWaits k sqid slot := by
    intro k sqid slot hk
    cases k with
    | none =>
      obtain ⟨⟨_, _, _, _, _, _, hat, _⟩, _⟩ := hk
      exact Dispatcher.noConfusion (h.dispatcher.symm.trans hat)
    | some key =>
      obtain ⟨⟨_, _, _, hjob, _⟩, _⟩ := hk
      rw [hworker] at hjob
      cases hjob
  refine ⟨fun w => .init (h.workers w), ⟨⟨?_, ?_, ?_⟩, fun _ _ => rfl, fun _ _ _ _ => rfl⟩, ?_,
    Booted.failedWriteNothing h⟩
  · exact ⟨hfresh.capacity, hfresh.aligned, hfresh.zp, hfresh.sp⟩
  · exact ⟨0, hfresh.inv.withStorage s.storage⟩
  · exact fun z hz => hfresh.seqZone hz
  · refine ⟨fun poll ans todo hat => ?_, fun k sqid slot hk => absurd hk (hnone k sqid slot),
      fun k _ sqid _ slot _ hk => absurd hk (hnone k sqid slot)⟩
    exact Dispatcher.noConfusion (h.dispatcher.symm.trans hat)

/-- Each state of a run has its logs, which a run of the logs leads to. -/
theorem zonedRuns_logs (hsmall : size ≤ 2 ^ 32 * lbaSize) (h : (zonedRuns cfg size).Reachable s) :
    ∃ logs, (appendLogs fun _ => 0).Reachable logs ∧ ZonesAreLogs cfg size s logs := by
  induction h with
  | init hboot => exact ⟨_, .init fun _ => rfl, Booted.zonesAreLogs hboot⟩
  | step _ hstep ih =>
    obtain ⟨logs, hreach, hlogs⟩ := ih
    obtain ⟨e, logs', hnext, hlogs', _⟩ := hlogs.step hsmall hstep.1 hstep.2
    exact ⟨logs', hreach.step hnext, hlogs'⟩

/-- A write that waits for its copy touches places of its own record. -/
theorem ZonesAreLogs.covers_of_touches {logs : Nat → AppendLog Nat}
    (h : ZonesAreLogs cfg size s logs) (hsmall : size ≤ 2 ^ 32 * lbaSize) {entry : SqEntry} {z a : Nat}
    {r : LogRecord Nat} (hz : z < s.zns.zp.nrZones) (hr : r ∈ (logs z).records)
    (hstart : r.start = entry.slba) (hlen : r.len = entry.length + 1) (ha : entry.Touches a) :
    r.Covers lbaSize a := by
  obtain ⟨_, hfrom, hto⟩ := ha
  have hlt := h.stores.record_lt hsmall hz hr
  have hoff := @SqEntry.ioOffset_eq entry (by omega)
  rw [hoff, ← hstart] at hfrom hto
  rw [entry.ioSize_eq, ← hlen, ← Nat.add_mul] at hto
  exact ⟨hfrom, hto⟩

/-- Writes that wait have records of their own, so their copies never meet. -/
theorem ZonesAreLogs.writesApart {logs : Nat → AppendLog Nat} (h : ZonesAreLogs cfg size s logs)
    (hsmall : size ≤ 2 ^ 32 * lbaSize) : s.WritesApart := by
  rintro k k' sqid sqid' slot slot' hk hk' hne ⟨_, a, ha, ha'⟩
  obtain ⟨z, r, hz, hr, _, hstart, hlen⟩ := h.waits.record k sqid slot hk
  obtain ⟨z', r', hz', hr', _, hstart', hlen'⟩ := h.waits.record k' sqid' slot' hk'
  have hat := h.covers_of_touches hsmall hz hr hstart hlen ha
  have hat' := h.covers_of_touches hsmall hz' hr' hstart' hlen' ha'
  obtain rfl := ZnsFtl.inZone_unique (h.stores.inZone hz hr hat) (h.stores.inZone hz' hr' hat')
  obtain rfl := AppendLog.record_unique hr hr' hat hat'
  exact hne (h.waits.apart k k' sqid sqid' slot slot' hk hk' (hstart.symm.trans hstart'))

/-- The device refines a family of logs: it begins as one, each of its steps is one of the logs,
which clears only those of the zones the step resets, and in every state it reaches each log ends at
the write pointer and shows the bytes of its zone.

A copy is one step here. The source copies page by page without a lock, but no two writes that wait
for their copies touch a common byte, so it makes no difference to the storage how the copies of
different workers are mixed.

The steps are those of the device with a host that leaves the entry of a command alone until it is
copied, addresses no zone past the last, resets no zone with a write under way and opens none with
ZRWA; and each write for which `proc_io_cmd` is called passes the checks of its zone, for one that
is refused is copied all the same. The storage has at most 2³² blocks. -/
theorem zones_are_append_logs (hsmall : size ≤ 2 ^ 32 * lbaSize) :
    (∀ s, (zonedRuns cfg size).init s → ∃ logs, (appendLogs fun _ => 0).init logs ∧
      ZonesAreLogs cfg size s logs) ∧
    (∀ s l s' logs, ZonesAreLogs cfg size s logs → (zonedRuns cfg size).step s l s' →
      ∃ e logs', (appendLogs fun _ => 0).step logs e logs' ∧ ZonesAreLogs cfg size s' logs' ∧
        ∀ P, e = .clear P → ∀ z, P z → ResetsZone s z l) ∧
    ∀ s, (zonedRuns cfg size).Reachable s → s.WritesApart ∧
      ∃ logs, (appendLogs fun _ => 0).Reachable logs ∧
        ∀ z, z < s.ns.zp.nrZones → (logs z).origin = (s.ns.zoneDescs z).zslba ∧
          (logs z).next = (s.ns.zoneDescs z).wp ∧
          ∀ a, s.ns.InZone z a → s.storage a = (logs z).read lbaSize a := by
  refine ⟨fun s hboot => ⟨_, fun _ => rfl, Booted.zonesAreLogs hboot⟩,
    fun s l s' logs hlogs hstep => hlogs.step hsmall hstep.1 hstep.2, fun s hreach => ?_⟩
  obtain ⟨logs, hlogs, h⟩ := zonedRuns_logs hsmall hreach
  refine ⟨h.writesApart hsmall, logs, hlogs, fun z hz => ⟨?_, h.stores.next hz, h.stores.bytes z hz⟩⟩
  exact (h.stores.origin z hz).trans (h.stores.zone hz).zslba.symm

/-- A record that is filled stays through a run that does not reset its zone. -/
theorem ZonesAreLogs.keeps (hsmall : size ≤ 2 ^ 32 * lbaSize) {logs : Nat → AppendLog Nat} {z : Nat}
    {r : LogRecord Nat} (h : ZonesAreLogs cfg size s logs) (hr : r ∈ (logs z).records)
    (hfull : r.data ≠ none)
    (hlater : (((zonedRuns cfg size).guarded fun s l => ¬ ResetsZone s z l).startingAt s).Reachable
      s') : ∃ logs', ZonesAreLogs cfg size s' logs' ∧ r ∈ (logs' z).records := by
  induction hlater with
  | init hstart =>
    obtain rfl : _ = s := hstart
    exact ⟨logs, h, hr⟩
  | step _ hstep ih =>
    obtain ⟨logs', hlogs', hr'⟩ := ih
    obtain ⟨hkept, hhost, hdevice⟩ := hstep
    obtain ⟨e, logs'', hnext, hlogs'', hclear⟩ := hlogs'.step hsmall hhost hdevice
    exact ⟨logs'', hlogs'', hnext.keeps hr' hfull fun P hP hz => hkept (hclear P hP z hz)⟩

/-- Once a worker has copied for a write that was taken, the bytes of the host stay in its blocks
until their zone is reset, whatever else the device does: other writes, reads, zone commands, copies
by other workers in any order. The runs are those of `zonedRuns`, with a host that keeps to its
rules; a copy is one step, which no other copy of a write can get into. -/
theorem zone_data_kept (hsmall : size ≤ 2 ^ 32 * lbaSize) {w curr currNsecs : Nat}
    {bytes : Nat → Nat} (hreach : (zonedRuns cfg size).Reachable s)
    (hcursor : (s.workers w).cursor = some curr) (hdue : s.CopyDue w curr)
    (hok : ((s.workers w).worker.workQueue curr).status = nvmeScSuccess)
    (hwrites : (s.entryAt w curr).writes = true)
    (hstep : (zonedRuns cfg size).step s (.visit w currNsecs bytes) s')
    (hlater : (((zonedRuns cfg size).guarded fun t l =>
      ¬ ResetsZone t (s.zns.lbaToZone (s.entryAt w curr).slba) l).startingAt s').Reachable s'') :
    ∀ i, i < (s.entryAt w curr).ioSize →
      s''.storage ((s.entryAt w curr).ioOffset + i) = bytes i := by
  obtain ⟨logs, _, h⟩ := zonedRuns_logs hsmall hreach
  obtain ⟨hhost, hdevice⟩ := hstep
  have hworkers := (@deviceRuns_workers _ znsNamespace fun _ => True).step s _ s' h.workers hdevice
  have hfailed := h.failed.step (hhost.writesPass h.waits) hdevice
  cases hdevice with
  | @visit _ curr' _ _ o _ hcursor' _ hperform =>
    obtain rfl := Option.some.inj (hcursor.symm.trans hcursor')
    obtain ⟨e, logs', _, h', _, hfilled⟩ := h.visit hsmall hcursor hperform hworkers hfailed
    obtain ⟨z, r, hz, hr, hdata, hstart, hlen, rfl⟩ := hfilled hdue hok hwrites
    obtain ⟨logs'', h'', hr''⟩ := h'.keeps hsmall hr (by simp [hdata]) hlater
    have hz'' : s.zns.lbaToZone (s.entryAt w curr).slba < s''.zns.zp.nrZones := by
      rw [h''.stores.settled.shaped.zp, ← h.stores.settled.shaped.zp]
      exact hz
    have hlt := h''.stores.record_lt hsmall hz'' hr''
    rw [hstart, hlen] at hlt
    rw [SqEntry.ioOffset_eq (by omega), SqEntry.ioSize_eq, ← hstart, ← hlen]
    intro i hi
    have hat : r.Covers lbaSize (r.start * lbaSize + i) := by
      refine ⟨Nat.le_add_right .., ?_⟩
      rw [Nat.add_mul]
      exact Nat.add_lt_add_left hi _
    have hbytes := h''.stores.bytes _ hz'' _ (h''.stores.inZone hz'' hr'' hat)
    rw [AppendLog.read_of_mem hr'' hat] at hbytes
    unfold LogRecord.value at hbytes
    rw [hdata, Nat.add_sub_cancel_left] at hbytes
    exact hbytes

end Runs

/-! ## Two pages of a ZN540 -/

section TwoPages

/-- The host keeps to the rules: it writes its entries before the first answer, each slot is tried once,
and the commands are reads, and writes that end in success. -/
def zoneHostKept (s : DeviceRun ZnsFtl) : DeviceEvent → Bool
  | .attempt => triesSuccess s .attempt && s.dispatcher.poll.all fun poll =>
      decide ((s.entryOf poll).opcode = .write ∨ (s.entryOf poll).opcode = .read) &&
        s.answers.all fun a => a.sqid ≠ poll.sqid ∨ a.sqEntry ≠ poll.sqEntry
  | l => keepsSlots s l

/-- Such a command opens and resets no zone. -/
theorem opcode_zones {entry : SqEntry} (h : entry.opcode = .write ∨ entry.opcode = .read)
    (ftl : ZnsFtl) : ftl.OpensNoZrwa entry.toZnsCommand ∧
      ∀ z, ¬ ftl.Empties entry.toZnsCommand z := by
  unfold SqEntry.toZnsCommand
  obtain hop | hop := h
  · rw [hop]
    exact ⟨fun _ hm => ZnsCommand.noConfusion hm, fun _ => id⟩
  · rw [hop]
    exact ⟨fun _ hm => ZnsCommand.noConfusion hm, fun _ => id⟩

/-- Such a host keeps to the rules, and resets no zone. -/
theorem zoneHostKept_host {fresh : ZnsFtl → Prop} {s : DeviceRun ZnsFtl} {l : DeviceEvent}
    (hreach : (deviceRuns znsNamespace fresh).Reachable s) (h : zoneHostKept s l = true) :
    ZoneHost s l ∧ ∀ z, ¬ ResetsZone s z l := by
  cases l with
  | attempt =>
    obtain ⟨hsuccess, hpolls⟩ := Bool.and_eq_true_iff.mp h
    have hat : ∀ poll, s.dispatcher = .polling poll →
        ((s.entryOf poll).opcode = .write ∨ (s.entryOf poll).opcode = .read) ∧
          ∀ a ∈ s.answers, a.sqid ≠ poll.sqid ∨ a.sqEntry ≠ poll.sqEntry := by
      intro poll hat
      rw [hat] at hpolls
      obtain ⟨hop, hslots⟩ := Bool.and_eq_true_iff.mp ((Option.all_some ..).symm.trans hpolls)
      exact ⟨of_decide_eq_true hop, fun a ha => of_decide_eq_true (List.all_eq_true.mp hslots a ha)⟩
    refine ⟨fun poll hpoll => ?_, fun z ⟨poll, hpoll, hempties⟩ =>
      (opcode_zones (hat poll hpoll).1 s.zns).2 z hempties⟩
    obtain ⟨hop, hslots⟩ := hat poll hpoll
    refine ⟨?_, (opcode_zones hop s.zns).1, triesSuccess_writesPass hreach hsuccess poll hpoll,
      fun z hz => absurd hz ((opcode_zones hop s.zns).2 z)⟩
    rintro (⟨_, _, _, hhanding, _⟩ | ⟨w, n, cqid, id, ret, hjob, _⟩)
    · exact Dispatcher.noConfusion (hpoll.symm.trans hhanding)
    · obtain ⟨a, ha, hmem⟩ := (deviceRuns_answered.reachable hreach).2 w _ (List.mem_of_getElem? hjob)
      obtain ⟨_, _, hsqid, hslot⟩ := ProcAnswer.request_mem hmem
      exact (hslots a ha).elim (fun hne => hne hsqid.symm) fun hne => hne hslot.symm
  | writeEntry qid slot entry =>
    have hkept : keepsSlots s (.writeEntry qid slot entry) = true := h
    exact ⟨keepsSlots_kept (deviceRuns_answered.reachable hreach) hkept, fun _ => id⟩
  | _ => exact ⟨trivial, fun _ => id⟩

/-- Two pages are written, and the worker is at the first one. -/
def twoPagesTaken : List DeviceEvent :=
  submitEvents [firstPageEntry, secondPageEntry, boundaryReadEntry] ++ ringEvents 2 ++
    acceptEvents 1 ++ acceptEvents 1 ++ [.finish, .startPass 0]

/-- The worker comes to the second page, and to a read over the end of the zone, which has failed. -/
def secondPageCopied : List DeviceEvent :=
  .visit 0 (2 ^ 40) (fun _ => 2) :: ringEvents 3 ++ acceptEvents 1 ++
    .finish :: passEvents 1 (2 ^ 41) fun _ => 3

/-- Two zones are few blocks. -/
theorem twoZones_small : twoZones ≤ 2 ^ 32 * lbaSize := by decide

/-- With two writes that wait for their copies. -/
theorem zones_are_append_logs_two : ∃ s : DeviceRun ZnsFtl, (zonedRuns wdZn540 twoZones).Reachable s ∧
    (s.ns.zoneDescs 0).wp = 16 ∧ s.storage 0 = 0 ∧ s.WritesApart ∧
    ∃ logs, (appendLogs fun _ => 0).Reachable logs ∧
      ∀ z, z < s.ns.zp.nrZones → (logs z).origin = (s.ns.zoneDescs z).zslba ∧
        (logs z).next = (s.ns.zoneDescs z).wp ∧
        ∀ a, s.ns.InZone z a → s.storage a = (logs z).read lbaSize a := by
  obtain ⟨s, hreach, hends⟩ := @exists_executed _ znsNamespace (FreshZoned wdZn540 twoZones)
    (znsInitNamespace wdZn540 twoZones fun _ => 0) ZoneHost zoneHostKept twoPagesTaken
    (fun s => (s.ns.zoneDescs 0).wp = 16 ∧ s.storage 0 = 0) (fun _ _ hrun => ⟨_, _, _, hrun⟩)
    (fun _ _ _ ht hl _ => (zoneHostKept_host ht hl).1) (by decide +kernel)
  obtain ⟨hwp, hblank⟩ := of_decide_eq_true hends
  exact ⟨s, hreach, hwp, hblank, (zones_are_append_logs twoZones_small).2.2 s hreach⟩

/-- The worker is at a write of the first page that has ended well. -/
def atFirstPage (s : DeviceRun ZnsFtl) : Prop :=
  (s.workers 0).cursor = some 0 ∧ s.CopyDue 0 0 ∧
    ((s.workers 0).worker.workQueue 0).status = nvmeScSuccess ∧ (s.entryAt 0 0).writes = true ∧
    (s.entryAt 0 0).ioOffset = 0 ∧ (s.entryAt 0 0).ioSize = 4096

instance (s : DeviceRun ZnsFtl) : Decidable (atFirstPage s) :=
  inferInstanceAs (Decidable (_ ∧ _ ∧ _ ∧ _ ∧ _ ∧ _))

/-- The bytes of the first page are there when those of the second one have come, too. -/
theorem zone_data_kept_two : ∃ s s' s'' : DeviceRun ZnsFtl,
    (zonedRuns wdZn540 twoZones).step s (.visit 0 (2 ^ 40) fun _ => 1) s' ∧
      s''.answers.map (fun a => a.answer.result.status) =
        [nvmeScSuccess, nvmeScSuccess, nvmeScZnsErrBoundary] ∧
      s''.storage 4096 = 2 ∧ ∀ i, i < 4096 → s''.storage i = 1 := by
  obtain ⟨s, hreach, hends⟩ := @exists_executed _ znsNamespace (FreshZoned wdZn540 twoZones)
    (znsInitNamespace wdZn540 twoZones fun _ => 0) ZoneHost zoneHostKept twoPagesTaken
    (fun s => decide (atFirstPage s) &&
      (s.next znsNamespace .zero (.visit 0 (2 ^ 40) fun _ => 1)).any fun s' =>
        (System.follow (DeviceRun.checkedNext znsNamespace zoneHostKept) s' secondPageCopied).any
          fun s'' => s''.answers.map (fun a => a.answer.result.status) =
            [nvmeScSuccess, nvmeScSuccess, nvmeScZnsErrBoundary] ∧ s''.storage 4096 = 2)
    (fun _ _ hrun => ⟨_, _, _, hrun⟩) (fun _ _ _ ht hl _ => (zoneHostKept_host ht hl).1)
    (by decide +kernel)
  obtain ⟨hat, hnext⟩ := Bool.and_eq_true_iff.mp hends
  obtain ⟨hcursor, hdue, hok, hwrites, hoffset, hsize⟩ := of_decide_eq_true hat
  obtain ⟨s', hs', hlater⟩ := (Option.any_eq_true _ _).mp hnext
  obtain ⟨s'', hfollow, hfacts⟩ := (Option.any_eq_true _ _).mp hlater
  obtain ⟨hstatuses, htwo⟩ := of_decide_eq_true hfacts
  have hstep : (zonedRuns wdZn540 twoZones).step s (.visit 0 (2 ^ 40) fun _ => 1) s' :=
    ⟨trivial, DeviceRun.next_step hs'⟩
  have hreach'' : (((zonedRuns wdZn540 twoZones).guarded fun t l =>
      ¬ ResetsZone t (s.zns.lbaToZone (s.entryAt 0 0).slba) l).startingAt s').Reachable s'' := by
    refine System.Reachable.follow (fun t l t' ht hnext' => ?_) secondPageCopied (.init rfl) hfollow
    unfold DeviceRun.checkedNext at hnext'
    split at hnext'
    · rename_i hl
      have hdevice : (deviceRuns znsNamespace (FreshZoned wdZn540 twoZones)).Reachable t :=
        (((hreach.step hstep).of_startingAt ht.of_startingAt_guarded)).of_guarded
      obtain ⟨hhost, hkept⟩ := zoneHostKept_host hdevice hl
      exact ⟨hkept _, hhost, DeviceRun.next_step hnext'⟩
    · cases hnext'
  refine ⟨s, s', s'', hstep, hstatuses, htwo, fun i hi => ?_⟩
  have hkept := zone_data_kept twoZones_small hreach hcursor hdue hok hwrites hstep hreach'' i
    (by rw [hsize]; exact hi)
  rw [hoffset, Nat.zero_add] at hkept
  exact hkept

end TwoPages

end NvmeVirt

import NvmeVirt.Lib.AppendLog
import NvmeVirt.Laws.Zns.Resets
import NvmeVirt.Laws.Zns.Sequential

/-!
# A zone is a log

Each zone is a log of the writes since its last reset: a write that succeeds appends a record, which
has no values until a worker copies them; a reset clears the log and fills the zone with zeros. The
bytes of the zone are at all times what its log shows.

`StoresLogs` relates the FTL with its logs. `StoresLogs.command` is what a command does, one of
nothing, an append and a clear (`LogsTook`), and `StoresLogs.fill` what a copy does. The sequence of
the records is that of `Laws/Zns/Sequential`, and what a reset does to the storage that of
`Laws/Zns/Resets`.

Here a command is carried out at once; who copies, and when, is left to `Laws/Io/ZoneData`.
-/

set_option autoImplicit false

namespace NvmeVirt

open Outcome

/-- The bytes of the zones are what the logs show, and the records are the ranges written. -/
structure StoresLogs (cfg : ZnsConfig) (size : Nat) (ftl : ZnsFtl) (logs : Nat → AppendLog Nat) :
    Prop where
  settled : SeqSettled cfg size
    ⟨ftl, [], fun _ => 0, fun z => (logs z).records.map LogRecord.range⟩
  origin : ∀ z, z < ftl.zp.nrZones → (logs z).origin = z * cfg.lbas
  bytes : ∀ z, z < ftl.zp.nrZones → ∀ a, ftl.InZone z a → ftl.storage a = (logs z).read lbaSize a

/-- What a command has made of the logs. -/
structure LogsTook (ftl : ZnsFtl) (cmd : ZnsCommand) (ans : ZnsAnswer) (logs : Nat → AppendLog Nat)
    (e : LogEvent Nat Nat) (logs' : Nat → AppendLog Nat) : Prop where
  step : LogStep (fun _ => 0) logs e logs'
  cleared : ∀ P, e = .clear P → ∀ z, P z → ftl.Empties cmd z
  kept : ∀ z, ¬ ftl.Empties cmd z → ∀ r ∈ (logs z).records, r ∈ (logs' z).records
  /-- The record of a write starts where no other does. -/
  written : ∀ rw, cmd = .write rw → ans.accepted = true → ans.result.status = nvmeScSuccess →
    ∃ z r, z < ftl.zp.nrZones ∧ r ∈ (logs' z).records ∧ r.data = none ∧ r.start = ans.slba ∧
      r.len = rw.nrLba ∧ (rw.append = false → ans.slba = rw.slba) ∧
      ∀ z', z' < ftl.zp.nrZones → ∀ r' ∈ (logs z').records, r'.start ≠ r.start

section Zones

variable {cfg : ZnsConfig} {size : Nat} {ftl : ZnsFtl} {logs : Nat → AppendLog Nat} {z z' a : Nat}
  {r : LogRecord Nat}

/-- A byte lies in one zone. -/
theorem ZnsFtl.inZone_unique (h : ftl.InZone z a) (h' : ftl.InZone z' a) : z = z' := by
  have hpos : 0 < ftl.zp.zoneSize := by
    unfold ZnsFtl.InZone at h
    omega
  have hdiv : ∀ w, ftl.InZone w a → a / ftl.zp.zoneSize = w := fun w hw =>
    Nat.div_eq_of_lt_le hw.1 (by rw [Nat.succ_mul]; exact hw.2)
  exact (hdiv z h).symm.trans (hdiv z' h')

/-- The bytes of a zone, by its LBAs. -/
theorem Shaped.inZone_iff (h : Shaped cfg size ftl) (hz : z < ftl.zp.nrZones) :
    ftl.InZone z a ↔ z * cfg.lbas * lbaSize ≤ a ∧ a < (z * cfg.lbas + cfg.lbas) * lbaSize := by
  obtain ⟨hsize, _⟩ := h.zoneSize_eq (Nat.lt_of_le_of_lt (Nat.zero_le z) hz)
  have hzp : ftl.zp.zoneSize = cfg.lbas * lbaSize := by
    rw [h.zp]
    exact hsize
  unfold ZnsFtl.InZone
  rw [hzp, Nat.add_mul, Nat.mul_assoc]

/-- The records of a zone are its writes. -/
theorem StoresLogs.zone (h : StoresLogs cfg size ftl logs) (hz : z < ftl.zp.nrZones) :
    SeqZone cfg.lbas z (ftl.zoneDescs z) ((logs z).records.map LogRecord.range) :=
  h.settled.zones z hz

/-- The log goes on at the write pointer. -/
theorem StoresLogs.next (h : StoresLogs cfg size ftl logs) (hz : z < ftl.zp.nrZones) :
    (logs z).next = (ftl.zoneDescs z).wp := by
  have hsum := (logs z).tiles.sum_eq
  have hsum' := (h.zone hz).tiles.sum_eq
  rw [(h.zone hz).zslba, ← h.origin z hz] at hsum'
  omega

/-- A record lies in its zone. -/
theorem StoresLogs.inZone (h : StoresLogs cfg size ftl logs) (hz : z < ftl.zp.nrZones)
    (hr : r ∈ (logs z).records) (hat : r.Covers lbaSize a) : ftl.InZone z a := by
  have hupper := (h.zone hz).upper
  rw [(h.zone hz).capacity, (h.zone hz).zslba, ← h.next hz] at hupper
  have hlow := AppendLog.origin_le hr
  rw [h.origin z hz] at hlow
  have hhigh := Nat.le_trans (AppendLog.below_next hr) hupper
  rw [h.settled.shaped.inZone_iff hz]
  obtain ⟨hfrom, hto⟩ := hat
  exact ⟨Nat.le_trans (Nat.mul_le_mul_right _ hlow) hfrom,
    Nat.lt_of_lt_of_le hto (Nat.mul_le_mul_right _ hhigh)⟩

/-- The zone of a record is the zone of its first block. -/
theorem StoresLogs.lbaToZone (h : StoresLogs cfg size ftl logs) (hsmall : size ≤ 2 ^ 32 * lbaSize)
    (hz : z < ftl.zp.nrZones) (hr : r ∈ (logs z).records) : ftl.lbaToZone r.start = z := by
  have hpos : 0 < r.len := (logs z).tiles.pos r.range (List.mem_map_of_mem hr)
  exact (h.settled.writtenInOrder hsmall hz).inZone r.range (List.mem_map_of_mem hr) r.start
    (Nat.le_refl _) (Nat.lt_add_of_pos_right hpos)

/-- What holds between commands does not depend on the bytes. -/
theorem ZnsInv.withStorage {leak : Nat} (h : ZnsInv leak ftl) (storage : Nat → Nat) :
    ZnsInv leak { ftl with storage } :=
  ⟨⟨h.tallied.acquired, h.tallied.bounded, h.tallied.total, h.tallied.underflows,
    h.tallied.nrZones_lt⟩, h.idle, h.timed⟩

/-- What the logs are about is the descriptors and the bytes. -/
theorem StoresLogs.congr (h : StoresLogs cfg size ftl logs) {ftl' : ZnsFtl} (hzp : ftl'.zp = ftl.zp)
    (hsp : ftl'.ssd.sp = ftl.ssd.sp) (hdescs : ftl'.zoneDescs = ftl.zoneDescs)
    (hstorage : ftl'.storage = ftl.storage) (hinv : ∃ leak, ZnsInv leak ftl') :
    StoresLogs cfg size ftl' logs := by
  refine ⟨⟨h.settled.shaped.congr hzp hsp, hinv, fun z hz => ?_⟩, fun z hz => ?_, fun z hz a ha => ?_⟩
  · dsimp only at hz ⊢
    rw [hzp] at hz
    rw [hdescs]
    exact h.zone hz
  · rw [hzp] at hz
    exact h.origin z hz
  · rw [hzp] at hz
    rw [hstorage]
    exact h.bytes z hz a ((ZnsFtl.inZone_congr hzp z a).mp ha)

/-- The bytes of a record are written. -/
theorem StoresLogs.fill (h : StoresLogs cfg size ftl logs) (hz : z < ftl.zp.nrZones)
    (hr : r ∈ (logs z).records) (d : Nat → Nat) : StoresLogs cfg size
      { ftl with storage := fun a =>
          if r.Covers lbaSize a then d (a - r.start * lbaSize) else ftl.storage a }
      (Function.update logs z ((logs z).fill r.start d)) := by
  have hranges : ∀ z', (Function.update logs z ((logs z).fill r.start d) z').records.map
      LogRecord.range = (logs z').records.map LogRecord.range := by
    intro z'
    by_cases hzz : z' = z
    · subst hzz
      rw [Function.update_self]
      exact AppendLog.map_range_filled ..
    · rw [Function.update_of_ne hzz]
  refine ⟨⟨⟨h.settled.shaped.capacity, h.settled.shaped.aligned, h.settled.shaped.zp,
    h.settled.shaped.sp⟩, ?_, fun z' hz' => ?_⟩, fun z' hz' => ?_, fun z' hz' a ha => ?_⟩
  · obtain ⟨leak, hinv⟩ := h.settled.inv
    exact ⟨leak, hinv.withStorage _⟩
  · dsimp only
    rw [hranges]
    exact h.zone hz'
  · by_cases hzz : z' = z
    · subst hzz
      rw [Function.update_self]
      exact h.origin z' hz'
    · rw [Function.update_of_ne hzz]
      exact h.origin z' hz'
  · by_cases hzz : z' = z
    · subst hzz
      rw [Function.update_self, AppendLog.read_fill hr, ← h.bytes z' hz' a ha]
    · rw [Function.update_of_ne hzz, ← h.bytes z' hz' a ha]
      exact if_neg fun hat => hzz (ZnsFtl.inZone_unique ha (h.inZone hz hr hat))

end Zones

/-! ## Commands -/

section Commands

variable {cfg : ZnsConfig} {size leak nsecsStart : Nat} {ftl : ZnsFtl} {logs logs' : Nat → AppendLog Nat}
  {cmd : ZnsCommand} {env env' : Env} {r : ZnsFtl × ZnsAnswer}

/-- The command opens no zone with ZRWA. -/
def ZnsFtl.OpensNoZrwa (ftl : ZnsFtl) (cmd : ZnsCommand) : Prop :=
  ∀ m, cmd = .zoneMgmtSend m → m.zsa = .openZone → m.zsaso = true →
    ∀ z, z < ftl.zp.nrZones → ftl.addressed m z → (ftl.zoneDescs z).state ≠ .empty

/-- The command of a run. -/
theorem ZnsFtl.OpensNoZrwa.noZrwaOpen (h : ftl.OpensNoZrwa cmd) {s : ZnsRun} (hs : s.ftl = ftl) :
    NoZrwaOpen s (.command cmd nsecsStart) := by
  subst hs
  cases cmd with
  | zoneMgmtSend m => exact h m rfl
  | _ => trivial

/-- The logs of a run after a command, from the ranges it logs. -/
theorem StoresLogs.ran (h : StoresLogs cfg size ftl logs) (hsmall : size ≤ 2 ^ 32 * lbaSize)
    (hno : ftl.OpensNoZrwa cmd)
    (hrun : (ftl.znsProcNvmeIoCmd cmd nsecsStart).run env = .ok (r, env'))
    (hlog : Logged ftl (fun z => (logs z).records.map LogRecord.range) cmd r.2
      fun z => (logs' z).records.map LogRecord.range)
    (horigin : ∀ z, (logs' z).origin = (logs z).origin)
    (hbytes : ∀ z, z < ftl.zp.nrZones → ∀ a, ftl.InZone z a →
      r.1.storage a = (logs' z).read lbaSize a) : StoresLogs cfg size r.1 logs' := by
  have hset := (@znsRuns_seqSettled cfg size (fun _ => 0) hsmall).step _ _ _ h.settled
    ⟨hno.noZrwaOpen rfl, .command hrun hlog⟩
  have hzp : r.1.zp = ftl.zp := hset.shaped.zp.trans h.settled.shaped.zp.symm
  refine ⟨⟨hset.shaped, hset.inv, hset.zones⟩, fun z hz => ?_, fun z hz a ha => ?_⟩
  · rw [hzp] at hz
    exact (horigin z).trans (h.origin z hz)
  · rw [hzp] at hz
    exact hbytes z hz a ((ZnsFtl.inZone_congr hzp z a).mp ha)

/-- A command that empties no zone leaves the bytes alone. -/
theorem StoresLogs.same_bytes (h : StoresLogs cfg size ftl logs)
    (hzeroed : ftl.Zeroed (ftl.Empties cmd) r.1.storage) (hnone : ∀ z, ¬ ftl.Empties cmd z)
    (hread : ∀ z, (logs' z).read lbaSize = (logs z).read lbaSize) :
    ∀ z, z < ftl.zp.nrZones → ∀ a, ftl.InZone z a → r.1.storage a = (logs' z).read lbaSize a := by
  intro z hz a ha
  rw [hzeroed.outside a fun z hz => absurd hz (hnone z), hread]
  exact h.bytes z hz a ha

/-- A command that leaves the logs as they are. -/
theorem StoresLogs.unchanged (h : StoresLogs cfg size ftl logs) (hsmall : size ≤ 2 ^ 32 * lbaSize)
    (hno : ftl.OpensNoZrwa cmd)
    (hrun : (ftl.znsProcNvmeIoCmd cmd nsecsStart).run env = .ok (r, env'))
    (hnone : ∀ z, ¬ ftl.Empties cmd z)
    (hlog : Logged ftl (fun z => (logs z).records.map LogRecord.range) cmd r.2
      fun z => (logs z).records.map LogRecord.range)
    (hfails : ∀ rw, cmd = .write rw →
      ¬ (r.2.accepted = true ∧ r.2.result.status = nvmeScSuccess)) :
    ∃ e logs', LogsTook ftl cmd r.2 logs e logs' ∧ StoresLogs cfg size r.1 logs' := by
  have hzeroed := (ftl.znsProcNvmeIoCmd_empties cmd nsecsStart).of_run hrun
  refine ⟨.quiet, logs, ⟨.quiet, ?_, fun _ _ _ hr => hr, ?_⟩, ?_⟩
  · exact fun P hP => absurd hP (by simp)
  · exact fun rw hcmd haccepted hstatus => absurd ⟨haccepted, hstatus⟩ (hfails rw hcmd)
  · exact h.ran hsmall hno hrun hlog (fun _ => rfl) (h.same_bytes hzeroed hnone fun _ => rfl)

/-- A write or an append. -/
theorem StoresLogs.write (h : StoresLogs cfg size ftl logs) (hsmall : size ≤ 2 ^ 32 * lbaSize)
    {rw : ZnsRwCommand}
    (hrun : (ftl.znsProcNvmeIoCmd (.write rw) nsecsStart).run env = .ok (r, env'))
    (hin : ftl.target rw < ftl.zp.nrZones) (hacc : ftl.Accepts rw) (hw : Written leak ftl rw r) :
    ∃ e logs', LogsTook ftl (.write rw) r.2 logs e logs' ∧ StoresLogs cfg size r.1 logs' := by
  have hnone : ∀ z, ¬ ftl.Empties (.write rw) z := fun _ => id
  have hno : ftl.OpensNoZrwa (.write rw) := fun m hm => ZnsCommand.noConfusion hm
  have hzeroed := (ftl.znsProcNvmeIoCmd_empties _ nsecsStart).of_run hrun
  have hpos : 0 < rw.nrLba := Nat.succ_pos _
  have hslba : r.2.slba = (logs (ftl.target rw)).next := by
    rw [hw.slba, hacc.atWp, h.next hin]
  generalize hlogs' : Function.update logs (ftl.target rw)
    ((logs (ftl.target rw)).append rw.nrLba hpos) = logs'
  have hself : logs' (ftl.target rw) = (logs (ftl.target rw)).append rw.nrLba hpos := by
    rw [← hlogs', Function.update_self]
  have hother : ∀ z, z ≠ ftl.target rw → logs' z = logs z := fun z hz => by
    rw [← hlogs', Function.update_of_ne hz]
  have hstores : StoresLogs cfg size r.1 logs' := by
    refine h.ran hsmall hno hrun ?_ (fun z => ?_) (h.same_bytes hzeroed hnone fun z => ?_)
    · have hranges : (fun z => (logs' z).records.map LogRecord.range) =
          Function.update (fun z => (logs z).records.map LogRecord.range) (ftl.target rw)
            ((logs (ftl.target rw)).records.map LogRecord.range ++ [(r.2.slba, rw.nrLba)]) := by
        funext z
        by_cases hz : z = ftl.target rw
        · subst hz
          rw [Function.update_self, hself, hslba]
          exact List.map_append
        · rw [Function.update_of_ne hz, hother z hz]
      rw [hranges]
      exact .written hw.accepted hw.status
    · by_cases hz : z = ftl.target rw
      · subst hz
        rw [hself]
        rfl
      · rw [hother z hz]
    · by_cases hz : z = ftl.target rw
      · subst hz
        rw [hself, AppendLog.read_append]
      · rw [hother z hz]
  have hmem : ⟨(logs (ftl.target rw)).next, rw.nrLba, none⟩ ∈ (logs' (ftl.target rw)).records := by
    rw [hself]
    exact List.mem_concat_self
  have hzp : r.1.zp = ftl.zp := hw.zp
  refine ⟨.append (ftl.target rw) rw.nrLba, logs', ⟨?_, ?_, ?_, ?_⟩, hstores⟩
  · rw [← hlogs']
    exact .append hpos
  · exact fun P hP => absurd hP (by simp)
  · intro z _ r₀ hr₀
    by_cases hz : z = ftl.target rw
    · subst hz
      rw [hself]
      exact List.mem_append_left _ hr₀
    · rw [hother z hz]
      exact hr₀
  · intro rw' hrw _ _
    obtain rfl := ZnsCommand.write.inj hrw
    refine ⟨_, _, hin, hmem, rfl, hslba.symm, rfl, fun hwrite => ?_, fun z' hz' r' hr' heq => ?_⟩
    · rw [hw.slba]
      exact ftl.targetSlba_write hwrite
    · -- a record that starts there is in the same zone, and ends before the write pointer
      have hzone := hstores.lbaToZone hsmall (by rw [hzp]; exact hin) hmem
      have hzone' := h.lbaToZone hsmall hz' hr'
      rw [(SameGeometry.mk hw.zp hw.sp).lbaToZone] at hzone
      rw [heq, hzone] at hzone'
      subst hzone'
      have hbelow := AppendLog.below_next hr'
      have hlen : 0 < r'.len :=
        (logs (ftl.target rw)).tiles.pos r'.range (List.mem_map_of_mem hr')
      rw [heq] at hbelow
      dsimp only at hbelow
      omega

/-- What a management command does to the logs: it clears those of the zones it resets. -/
theorem StoresLogs.send (h : StoresLogs cfg size ftl logs) (hsmall : size ≤ 2 ^ 32 * lbaSize)
    {m : ZoneMgmtSend} (hno : ftl.OpensNoZrwa (.zoneMgmtSend m))
    (hrun : (ftl.znsProcNvmeIoCmd (.zoneMgmtSend m) nsecsStart).run env = .ok (r, env')) :
    ∃ e logs', LogsTook ftl (.zoneMgmtSend m) r.2 logs e logs' ∧
      StoresLogs cfg size r.1 logs' := by
  classical
  have hzeroed := (ftl.znsProcNvmeIoCmd_empties _ nsecsStart).of_run hrun
  generalize hlogs' : (fun z => if ftl.Resets m z then (logs z).clear fun _ => 0 else logs z) = logs'
  have hcleared : ∀ z, ftl.Resets m z → logs' z = (logs z).clear fun _ => 0 := fun z hz => by
    rw [← hlogs']
    exact if_pos hz
  have hothers : ∀ z, ¬ ftl.Resets m z → logs' z = logs z := fun z hz => by
    rw [← hlogs']
    exact if_neg hz
  refine ⟨.clear (ftl.Resets m), logs', ⟨.clear hcleared hothers, ?_, ?_, ?_⟩, ?_⟩
  · intro P hP z hz
    rw [← LogEvent.clear.inj hP] at hz
    exact hz
  · intro z hz r₀ hr₀
    rw [hothers z hz]
    exact hr₀
  · exact fun rw hcmd => ZnsCommand.noConfusion hcmd
  · refine h.ran hsmall hno hrun (.sent (fun z hz => ?_) fun z hz => ?_) (fun z => ?_)
      fun z hz a ha => ?_
    · rw [hcleared z hz]
      rfl
    · rw [hothers z hz]
    · by_cases hz : ftl.Resets m z
      · rw [hcleared z hz]
        rfl
      · rw [hothers z hz]
    · by_cases hreset : ftl.Resets m z
      · rw [hcleared z hreset, AppendLog.read_clear]
        exact hzeroed.inside z hreset a ha
      · rw [hothers z hreset, hzeroed.outside a fun z' hz' hin =>
          hreset (ZnsFtl.inZone_unique ha hin ▸ hz')]
        exact h.bytes z hz a ha

/-- Every command takes a step of the logs. -/
theorem StoresLogs.command (h : StoresLogs cfg size ftl logs) (hsmall : size ≤ 2 ^ 32 * lbaSize)
    (hno : ftl.OpensNoZrwa cmd)
    (hrun : (ftl.znsProcNvmeIoCmd cmd nsecsStart).run env = .ok (r, env')) :
    ∃ e logs', LogsTook ftl cmd r.2 logs e logs' ∧ StoresLogs cfg size r.1 logs' := by
  obtain ⟨leak, hinv⟩ := h.settled.inv
  have hdone := hinv.ran h.settled.shaped hrun
  cases cmd with
  | write rw =>
    have hnone : ∀ z, ¬ ftl.Empties (.write rw) z := fun _ => id
    obtain ⟨hin, _, hseq⟩ := hdone.seq fun z hz => (h.zone hz).zrwav
    have hfails : ¬ (r.2.accepted = true ∧ r.2.result.status = nvmeScSuccess) →
        ∃ e logs', LogsTook ftl (.write rw) r.2 logs e logs' ∧ StoresLogs cfg size r.1 logs' :=
      fun hnot => h.unchanged hsmall hno hrun hnone (.unwritten hnot) fun _ _ => hnot
    cases hseq with
    | short _ => exact hfails fun hok => Bool.false_ne_true hok.1
    | refused _ _ hbad => exact hfails fun hok => hbad hok.2
    | written _ hacc hw => exact h.write hsmall hrun hin hacc hw
  | zoneMgmtSend m => exact h.send hsmall hno hrun
  | read _ | flush | zoneMgmtRecv _ | other =>
    refine h.unchanged hsmall hno hrun (fun _ => id) (.quiet ?_ ?_) ?_
    · exact fun _ => ZnsCommand.noConfusion
    · exact fun _ => ZnsCommand.noConfusion
    · exact fun _ hcmd => ZnsCommand.noConfusion hcmd

end Commands

end NvmeVirt

import NvmeVirt.Laws.Zns.Sequential
import NvmeVirt.Laws.Zns.WriteBuffer

/-!
# Zone numbers past the last zone

`zns_write`, `zns_read` and `__zmgmt_send` compute a zone number from the address of the command and
index `zone_descs` and the buffers with it; only `zns_zmgmt_recv` compares it with `nr_zones`. A
command with a larger zone number goes on with the memory behind the arrays. Here the arrays of the
FTL go on behind their last element, with contents nobody chose, and such a command is a step that
reads and writes there. What else may lie in that memory is left out: the FTL's own fields are
changed only as the handlers change them.

In these runs the resource counters match the zones, and zones are written sequentially, as long as
every write and every zone command has a zone number below `nr_zones`. A read past the last zone may
stay: it reads a state and charges the flash (`ZnsMemoryStep.within`). So a guarded run makes the
steps of `Laws/Zns/Run`, and reads; the invariants are those of `Laws/Zns/Resources` and
`Laws/Zns/Sequential`, which look at the zones of the device only (`ZnsInv.withBehind`).

The last part computes what the memory behind two zones can do: where it reads as an empty zone an
open of zone 2 is counted and opens none, and where it reads as an open zone at LBA 0 an append to
zone 2 succeeds there (`StrayZns.append`).
-/

set_option autoImplicit false

namespace NvmeVirt

open Outcome

/-! ## The memory behind the arrays -/

namespace ZnsFtl

variable (ftl : ZnsFtl)

/-- The command uses a zone number past the last zone. -/
def PastZones : ZnsCommand → Prop
  | .write cmd => ftl.zp.nrZones ≤ ftl.lbaToZone cmd.slba
  | .read cmd => ftl.zp.nrZones ≤ ftl.lbaToZone cmd.slba
  | .zoneMgmtSend cmd =>
    cmd.selectAll = false ∧ cmd.zsa ≠ .other ∧ ftl.zp.nrZones ≤ ftl.lbaToZone cmd.slba
  | _ => False

/-- The FTL as such a command finds it: every zone number of 32 bits indexes something. -/
def unbounded : ZnsFtl := { ftl with zp := { ftl.zp with nrZones := 2 ^ 32 } }

/-- The buffer is one of the device, or of a zone it has. -/
def HasBuffer : BufferId → Prop
  | .global => True
  | .zone zid => zid < ftl.zp.nrZones
  | .zrwa zid => zid < ftl.zp.nrZones

instance : DecidablePred ftl.HasBuffer
  | .global => .isTrue trivial
  | .zone zid => inferInstanceAs (Decidable (zid < ftl.zp.nrZones))
  | .zrwa zid => inferInstanceAs (Decidable (zid < ftl.zp.nrZones))

/-- The FTL with `descs` and `bufs` behind the ends of its arrays. -/
def withBehind (descs : Nat → ZoneDescriptor) (bufs : BufferId → Buffer) : ZnsFtl :=
  { ftl with
    zoneDescs := fun z => if z < ftl.zp.nrZones then ftl.zoneDescs z else descs z
    buffers := fun id => if ftl.HasBuffer id then ftl.buffers id else bufs id }

end ZnsFtl

/-- What the ranges written become when a command uses a zone number past the last zone: a range
counts for the zone its first LBA lies in. -/
inductive LoggedBehind (ftl : ZnsFtl) (log : Nat → List (Nat × Nat)) :
    ZnsCommand → ZnsAnswer → (Nat → List (Nat × Nat)) → Prop where
  | written {cmd : ZnsRwCommand} {ans : ZnsAnswer} :
    ans.accepted = true → ans.result.status = nvmeScSuccess →
    LoggedBehind ftl log (.write cmd) ans
      (Function.update log (ftl.lbaToZone ans.slba)
        (log (ftl.lbaToZone ans.slba) ++ [(ans.slba, cmd.nrLba)]))
  | quiet {cmd : ZnsCommand} {ans : ZnsAnswer} :
    (∀ rw, cmd = .write rw → ¬ (ans.accepted = true ∧ ans.result.status = nvmeScSuccess)) →
    LoggedBehind ftl log cmd ans log

/-- The steps of a run, with those that leave the arrays. -/
inductive ZnsMemoryStep : ZnsRun → ZnsEvent → ZnsRun → Prop where
  | inside {s s' : ZnsRun} {e : ZnsEvent} : ZnsStep s e s' → ZnsMemoryStep s e s'
  | past {s : ZnsRun} {cmd : ZnsCommand} {nsecsStart : Nat} {env env' : Env} {ftl : ZnsFtl}
    {ans : ZnsAnswer} {log : Nat → List (Nat × Nat)} :
    s.ftl.PastZones cmd →
    (s.ftl.unbounded.znsProcNvmeIoCmd cmd nsecsStart).run env = .ok ((ftl, ans), env') →
    LoggedBehind s.ftl s.log cmd ans log →
    ZnsMemoryStep s (.command cmd nsecsStart)
      { ftl := { ftl with zp := s.ftl.zp }
        log, released := s.released
        pending := s.pending ++ ans.internal.map fun op => (s.ftl.zoneOf cmd, op) }

/-- Runs of a namespace over memory that holds anything behind the arrays of zones. -/
def znsMemoryRuns (cfg : ZnsConfig) (size : Nat) (storage : Nat → Nat) : System ZnsRun ZnsEvent where
  init s := ∃ s₀ descs bufs, (znsRuns cfg size storage).init s₀ ∧
    s = { s₀ with ftl := s₀.ftl.withBehind descs bufs }
  step := ZnsMemoryStep

/-- Writes, appends and the commands for one zone have a zone number below `nr_zones`. A read past the
last zone only reads a state. -/
def WithinZones (s : ZnsRun) : ZnsEvent → Prop
  | .command (.read _) _ => True
  | .command cmd _ => ¬ s.ftl.PastZones cmd
  | .release _ => True

section Memory

variable {cfg : ZnsConfig} {size leak : Nat} {storage : Nat → Nat} {ftl : ZnsFtl} {s s' : ZnsRun}
  {descs : Nat → ZoneDescriptor} {bufs : BufferId → Buffer}

/-- Inside the array nothing is new. -/
theorem ZnsFtl.withBehind_desc {z : Nat} (hz : z < ftl.zp.nrZones) :
    (ftl.withBehind descs bufs).zoneDescs z = ftl.zoneDescs z := if_pos hz

/-- Behind it lies what lies there. -/
theorem ZnsFtl.withBehind_past {z : Nat} (hz : ftl.zp.nrZones ≤ z) :
    (ftl.withBehind descs bufs).zoneDescs z = descs z := if_neg (Nat.not_lt.mpr hz)

/-- The FTL of a fresh namespace is one over such memory. -/
theorem ZnsFtl.withBehind_self (ftl : ZnsFtl) : ftl.withBehind ftl.zoneDescs ftl.buffers = ftl := by
  unfold ZnsFtl.withBehind
  simp only [ite_self]

/-- A run that stays inside starts as one over such memory does. -/
theorem znsMemoryRuns_init (h : (znsRuns cfg size storage).init s) :
    (znsMemoryRuns cfg size storage).init s := by
  refine ⟨s, s.ftl.zoneDescs, s.ftl.buffers, h, ?_⟩
  rw [s.ftl.withBehind_self]

/-- The parameters stay. -/
theorem Shaped.withBehind (h : Shaped cfg size ftl) : Shaped cfg size (ftl.withBehind descs bufs) :=
  h.congr rfl rfl

/-- What holds between commands looks at the zones of the device only. -/
theorem ZnsInv.withBehind (h : ZnsInv leak ftl) : ZnsInv leak (ftl.withBehind descs bufs) := by
  have hheld : ∀ k, (ftl.withBehind descs bufs).heldCnt k = ftl.heldCnt k := by
    intro k
    apply tally_congr
    intro z hz
    have hz' : z < ftl.zp.nrZones := Finset.mem_range.mp hz
    rw [ZnsFtl.withBehind_desc hz']
  refine ⟨⟨?_, h.tallied.bounded, h.tallied.total, h.tallied.underflows, h.tallied.nrZones_lt⟩,
    ?_, h.timed⟩
  · intro k
    rw [hheld]
    exact h.tallied.acquired k
  · intro z hz
    have hz' : z < ftl.zp.nrZones := hz
    rw [ZnsFtl.withBehind_desc hz']
    exact h.idle z hz'

/-- Under the guard, a step that leaves the arrays moves the clocks and nothing else. -/
theorem ZnsMemoryStep.within {e : ZnsEvent} (h : ZnsMemoryStep s e s') (hw : WithinZones s e)
    (htimed : s.ftl.ssd.Timed) :
    ZnsStep s e s' ∨ ∃ ssd, s.ftl.ssd.SameFlash ssd ∧ s' = { s with ftl := { s.ftl with ssd } } := by
  cases h with
  | inside hstep => exact .inl hstep
  | @past cmd nsecsStart env env' ftl ans log hpast hrun hlog =>
    cases cmd with
    | read cmd =>
      have hin : ¬ 2 ^ 32 ≤ s.ftl.unbounded.lpnToZone (s.ftl.unbounded.lbaToLpn cmd.slba) :=
        Nat.not_le.mpr (Nat.mod_lt _ (by decide))
      have hread := (@znsRead_ensures (fun _ => True) s.ftl.unbounded htimed
        { cmd, nsecsStart } fun hout => absurd hout hin).of_run hrun
      obtain ⟨⟨ssd, hssd, hftl⟩, _, hinternal, _⟩ := hread
      refine .inr ⟨ssd, hssd, ?_⟩
      cases hlog with
      | quiet _ =>
        dsimp only at hftl hinternal
        rw [hftl, hinternal]
        simp only [List.map_nil, List.append_nil]
        rfl
    | write _ => exact absurd hpast hw
    | zoneMgmtSend _ => exact absurd hpast hw
    | flush => exact hpast.elim
    | zoneMgmtRecv _ => exact hpast.elim
    | other => exact hpast.elim

end Memory

/-! ## The open and the active resource -/

section Resources

variable {cfg : ZnsConfig} {size : Nat} {storage : Nat → Nat}

/-- As long as writes and zone commands stay inside, the counters and the zones of the device are as
in a run that has nothing behind them. -/
theorem znsMemoryRuns_settled :
    ((znsMemoryRuns cfg size storage).guarded WithinZones).Invariant (ZnsSettled cfg size) where
  init s hs := by
    obtain ⟨s₀, descs, bufs, hinit, rfl⟩ := hs
    obtain ⟨hshaped, leak, hinv⟩ := (@znsRuns_settled cfg size storage).init s₀ hinit
    exact ⟨hshaped.withBehind, leak, hinv.withBehind⟩
  step s e s' hs hstep := by
    obtain ⟨hw, hstep⟩ := hstep
    obtain ⟨_, leak, hinv⟩ := id hs
    rcases hstep.within hw hinv.timed with hinside | ⟨ssd, hssd, rfl⟩
    · exact (@znsRuns_settled cfg size storage).step s e s' hs hinside
    · exact ⟨hs.1.congr rfl hssd.sp, leak, hinv.withSsd hssd⟩

/-- In every state of every run whose writes and zone commands have a zone number below `nr_zones`,
the open and the active counters are the numbers of such zones, no counter is past its total, and no
release has met a zero counter. All other commands are taken as they come, with and without ZRWA,
and the releases in any order; a command that stops at an assertion or divides by zero ends the run.
With a zone number past the last zone the source reads and writes what lies behind `zone_descs`, and
then the counters need not match any more. -/
theorem zone_resources_match {s : ZnsRun}
    (h : ((znsMemoryRuns cfg size storage).guarded WithinZones).Reachable s) :
    ResourcesMatch s.ftl :=
  (znsMemoryRuns_settled.reachable h).resourcesMatch

end Resources

/-! ## Zones are written sequentially -/

section Sequential

variable {cfg : ZnsConfig} {size : Nat} {storage : Nat → Nat}

/-- The guard of the runs in which zones are written sequentially. -/
def OrdinaryZones (s : ZnsRun) (e : ZnsEvent) : Prop := NoZrwaOpen s e ∧ WithinZones s e

/-- And over those that open no zone with ZRWA. -/
theorem znsMemoryRuns_seqSettled (hsmall : size ≤ 2 ^ 32 * lbaSize) :
    ((znsMemoryRuns cfg size storage).guarded OrdinaryZones).Invariant (SeqSettled cfg size) where
  init s hs := by
    obtain ⟨s₀, descs, bufs, hinit, rfl⟩ := hs
    obtain ⟨hshaped, ⟨leak, hinv⟩, hzones⟩ :=
      (@znsRuns_seqSettled cfg size storage hsmall).init s₀ hinit
    refine ⟨hshaped.withBehind, ⟨leak, hinv.withBehind⟩, fun z hz => ?_⟩
    have hz' : z < s₀.ftl.zp.nrZones := hz
    rw [ZnsFtl.withBehind_desc hz']
    exact hzones z hz'
  step s e s' hs hstep := by
    obtain ⟨⟨hno, hw⟩, hstep⟩ := hstep
    obtain ⟨leak, hinv⟩ := hs.inv
    rcases hstep.within hw hinv.timed with hinside | ⟨ssd, hssd, rfl⟩
    · exact (@znsRuns_seqSettled cfg size storage hsmall).step s e s' hs ⟨hno, hinside⟩
    · exact ⟨hs.shaped.congr rfl hssd.sp, ⟨leak, hinv.withSsd hssd⟩, hs.zones⟩

/-- In every run in which no zone is opened with ZRWA, and whose writes and zone commands have a
zone number below `nr_zones`, zones are written sequentially, and only a writable zone takes a
write. The namespace has at most 2³² blocks, so that the 32-bit product in `zone_to_slba` does not
wrap. Appends are writes at the write pointer. -/
theorem zones_written_sequentially (hsmall : size ≤ 2 ^ 32 * lbaSize) {s : ZnsRun}
    (h : ((znsMemoryRuns cfg size storage).guarded OrdinaryZones).Reachable s) :
    (∀ z, z < s.ftl.zp.nrZones → WrittenInOrder s.ftl z (s.log z)) ∧
      ∀ cmd nsecsStart env r env',
        (s.ftl.znsProcNvmeIoCmd (.write cmd) nsecsStart).run env = .ok (r, env') →
        r.2.accepted = true → r.2.result.status = nvmeScSuccess → WriteTaken s.ftl r.1 cmd := by
  have hs := (znsMemoryRuns_seqSettled hsmall).reachable h
  obtain ⟨leak, hinv⟩ := hs.inv
  exact ⟨fun z hz => hs.writtenInOrder hsmall hz, fun cmd nsecsStart env r env' hrun hok hstatus =>
    hs.writeTaken hsmall (hinv.ran hs.shaped hrun) hok hstatus⟩

end Sequential

/-! ## Two zones, and a command for a third -/

section Two

variable {s : ZnsRun}

theorem FreshZns.nrZones_two (h : FreshZns wdZn540 twoZones s.ftl) : s.ftl.zp.nrZones = 2 := by
  rw [h.zp]
  rfl

/-- The first LBA behind two zones. -/
theorem FreshZns.thirdZone_two (h : FreshZns wdZn540 twoZones s.ftl) :
    s.ftl.lbaToZone 8388608 = 2 := by
  unfold ZnsFtl.lbaToZone
  rw [h.zoneLbas_two]
  rfl

/-- With the first page of zone 0 written, and zone 1 opened. -/
theorem FreshZns.exists_wroteOpened_two (h : FreshZns wdZn540 twoZones s.ftl) {guard}
    (hinit : (znsRuns wdZn540 twoZones fun _ => 0).init s)
    (hwrite : guard s (.command (.write firstPage) 0))
    (hopen : ∀ s', s'.ftl.zp = s.ftl.zp → s'.ftl.ssd.sp = s.ftl.ssd.sp →
      guard s' (.command (.zoneMgmtSend (openCmd 4194304 false (by decide))) 0)) :
    ∃ s', ((znsMemoryRuns wdZn540 twoZones fun _ => 0).guarded guard).Reachable s' ∧
      s'.log 0 = [(0, 8)] := by
  obtain ⟨r, hstep, hw⟩ := @FreshZns.exists_wrote_two s firstPage h rfl rfl (by decide)
  have hs : Shaped wdZn540 twoZones (s.wrote firstPage r).ftl := h.toShaped.congr hw.zp hw.sp
  have hzone : (s.wrote firstPage r).ftl.lbaToZone 4194304 = 1 := by
    unfold ZnsFtl.lbaToZone
    rw [hs.zoneLbas_two]
    rfl
  have hin : (s.wrote firstPage r).ftl.lbaToZone 4194304 < (s.wrote firstPage r).ftl.zp.nrZones := by
    rw [hzone, hs.zp]
    decide
  have hopened := @openCmd_step (s.wrote firstPage r) 4194304 (by decide) false hin
  have hreach : ((znsMemoryRuns wdZn540 twoZones fun _ => 0).guarded guard).Reachable s :=
    .init (znsMemoryRuns_init hinit)
  refine ⟨_, (hreach.step ⟨hwrite, .inside hstep⟩).step ⟨hopen _ hw.zp hw.sp, .inside hopened⟩, ?_⟩
  obtain ⟨_, _, _, hlog⟩ := hinit
  have htarget := @FreshZns.target_two s firstPage h (by decide)
  show Function.update s.log (s.ftl.target firstPage) _ 0 = _
  rw [htarget, Function.update_self, hlog, hw.slba, s.ftl.targetSlba_write rfl]
  rfl

/-- An open of the second zone stays inside. -/
theorem FreshZns.withinZones_two {h : 4194304 < 2 ^ 64} {s' : ZnsRun}
    (hfresh : FreshZns wdZn540 twoZones s.ftl) (hzp : s'.ftl.zp = s.ftl.zp)
    (hsp : s'.ftl.ssd.sp = s.ftl.ssd.sp) :
    WithinZones s' (.command (.zoneMgmtSend (openCmd 4194304 false h)) 0) := by
  rintro ⟨_, _, hpast⟩
  have hs : Shaped wdZn540 twoZones s'.ftl := hfresh.toShaped.congr hzp hsp
  have hpast' : s'.ftl.zp.nrZones ≤ s'.ftl.lbaToZone 4194304 := hpast
  unfold ZnsFtl.lbaToZone at hpast'
  rw [hs.zoneLbas_two, hs.zp] at hpast'
  exact absurd hpast' (by decide)

/-- So does a write of the first page. -/
theorem FreshZns.withinFirst_two (h : FreshZns wdZn540 twoZones s.ftl) :
    WithinZones s (.command (.write firstPage) 0) := by
  intro hpast
  have htarget : s.ftl.lbaToZone 0 = 0 := @FreshZns.target_two s firstPage h (by decide)
  have hpast' : s.ftl.zp.nrZones ≤ s.ftl.lbaToZone 0 := hpast
  rw [htarget, h.nrZones_two] at hpast'
  exact absurd hpast' (by decide)

/-- A write and an open of two zones. -/
theorem zone_resources_match_two :
    ∃ s, ((znsMemoryRuns wdZn540 twoZones fun _ => 0).guarded WithinZones).Reachable s ∧
      s.log 0 = [(0, 8)] ∧ ResourcesMatch s.ftl := by
  obtain ⟨s, hinit, hfresh⟩ := @exists_freshZns wdZn540 twoZones (fun _ => 0) (by decide) (by decide)
  obtain ⟨s', hreach, hlog⟩ := @FreshZns.exists_wroteOpened_two s hfresh WithinZones hinit
    hfresh.withinFirst_two fun _ hzp hsp => hfresh.withinZones_two hzp hsp
  exact ⟨s', hreach, hlog, zone_resources_match hreach⟩

/-- A write to the first of two zones. -/
theorem zones_written_sequentially_two :
    ∃ s, ((znsMemoryRuns wdZn540 twoZones fun _ => 0).guarded OrdinaryZones).Reachable s ∧
      s.log 0 = [(0, 8)] ∧ ∀ z, z < s.ftl.zp.nrZones → WrittenInOrder s.ftl z (s.log z) := by
  obtain ⟨s, hinit, hfresh⟩ := @exists_freshZns wdZn540 twoZones (fun _ => 0) (by decide) (by decide)
  obtain ⟨s', hreach, hlog⟩ := @FreshZns.exists_wroteOpened_two s hfresh OrdinaryZones hinit
    ⟨trivial, hfresh.withinFirst_two⟩
    fun _ hzp hsp => ⟨fun _ hopt => absurd hopt Bool.false_ne_true, hfresh.withinZones_two hzp hsp⟩
  exact ⟨s', hreach, hlog, (zones_written_sequentially (by decide) hreach).1⟩

/-- Opening an EMPTY zone where every resource has two units left. -/
theorem ZnsFtl.openEmpty_two {ftl : ZnsFtl} {zid : Nat} (hempty : (ftl.zoneDescs zid).state = .empty)
    (hres : ftl.resInfos = fun _ => { acquiredCnt := 0, totalCnt := 2, underflows := 0 }) :
    ((ftl.zmgmtSendOpenZone zid false).1.resInfos .openZone).acquiredCnt = 1 ∧
      ∀ z, z ≠ zid → (ftl.zmgmtSendOpenZone zid false).1.zoneDescs z = ftl.zoneDescs z := by
  have hfull : ∀ k, ftl.isZoneResourceFull k = false := by
    intro k
    unfold ZnsFtl.isZoneResourceFull
    rw [hres]
    rfl
  have hactive : ftl.acquireZoneResource .activeZone =
      (ftl.setResInfo .activeZone { acquiredCnt := 1, totalCnt := 2, underflows := 0 }, true) := by
    unfold ZnsFtl.acquireZoneResource ZnsFtl.isZoneResourceAvail
    rw [hres]
    rfl
  unfold ZnsFtl.zmgmtSendOpenZone
  rw [hempty]
  dsimp only
  rw [hfull, hfull, hactive]
  unfold ZnsFtl.openExplicitly ZnsFtl.acquireZoneResource ZnsFtl.isZoneResourceAvail
  simp only [ZnsFtl.setResInfo, hres, Bool.false_eq_true, if_false]
  refine ⟨rfl, fun z hz => ?_⟩
  exact Function.update_of_ne hz _ _

/-- Where the memory behind two descriptors reads as an empty zone, opening zone 2 takes a unit of the
open resource for none of the two. -/
theorem zone_resources_unsound_two :
    ∃ s, (znsMemoryRuns wdZn540 twoZones fun _ => 0).Reachable s ∧
      (s.ftl.resInfos .openZone).acquiredCnt = 1 ∧ s.ftl.countZones ZoneState.isOpen = 0 := by
  obtain ⟨s, hinit, hfresh⟩ := @exists_freshZns wdZn540 twoZones (fun _ => 0) (by decide) (by decide)
  have hzone := hfresh.thirdZone_two
  have hpast : s.ftl.PastZones (.zoneMgmtSend (openCmd 8388608 false (by decide))) := by
    refine ⟨rfl, ZoneSendAction.noConfusion, ?_⟩
    show s.ftl.zp.nrZones ≤ s.ftl.lbaToZone 8388608
    rw [hzone, hfresh.nrZones_two]
  have hin : s.ftl.unbounded.lbaToZone 8388608 < 2 ^ 32 := Nat.mod_lt _ (by decide)
  have hlog : ∀ ans, LoggedBehind s.ftl s.log
      (.zoneMgmtSend (openCmd 8388608 false (by decide))) ans s.log :=
    fun _ => .quiet fun _ => ZnsCommand.noConfusion
  have hstep := ZnsMemoryStep.past hpast
    (@openCmd_run s.ftl.unbounded 8388608 (by decide) false hin 0 Env.zero) (hlog _)
  have hempty : ∀ z, (s.ftl.zoneDescs z).state = .empty := by
    intro z
    rw [hfresh.zoneDescs]
    rfl
  have hres : s.ftl.unbounded.resInfos =
      fun _ => { acquiredCnt := 0, totalCnt := 2, underflows := 0 } := by
    show s.ftl.resInfos = _
    rw [hfresh.resInfos, hfresh.zp]
    rfl
  have hthird : s.ftl.unbounded.lbaToZone 8388608 = 2 := hzone
  rw [hthird] at hstep
  obtain ⟨hopen, hothers⟩ := s.ftl.unbounded.openEmpty_two (hempty 2) hres
  refine ⟨_, .step (.init (znsMemoryRuns_init hinit)) hstep, hopen, ?_⟩
  apply Finset.card_eq_zero.mpr
  apply Finset.filter_eq_empty_iff.mpr
  intro z hz
  have hz' : z < s.ftl.zp.nrZones := Finset.mem_range.mp hz
  rw [hfresh.nrZones_two] at hz'
  dsimp only
  rw [hothers z (Nat.ne_of_lt hz')]
  show ¬ ZoneState.isOpen (s.ftl.zoneDescs z).state = true
  rw [hempty]
  exact Bool.false_ne_true

/-- A write pointer moves in its own zone. -/
theorem ZnsFtl.increaseWritePtr_others {ftl : ZnsFtl} {zid nrLba z : Nat} (hz : z ≠ zid) :
    (ftl.increaseWritePtr zid nrLba).zoneDescs z = ftl.zoneDescs z := by
  unfold ZnsFtl.increaseWritePtr
  dsimp only
  split
  · exact (Function.update_of_ne hz _ _).trans (Function.update_of_ne hz _ _)
  · exact Function.update_of_ne hz _ _

theorem ZnsFtl.increaseWritePtr_ssd {ftl : ZnsFtl} {zid nrLba : Nat} :
    (ftl.increaseWritePtr zid nrLba).ssd = ftl.ssd := by
  unfold ZnsFtl.increaseWritePtr
  dsimp only
  split
  · rfl
  · rfl

/-- Once the checks are passed a write succeeds, and moves no other zone. -/
theorem ZnsFtl.programWrite_ensures {E : Fault → Prop} {ftl : ZnsFtl} {req : ZnsRequest}
    {zid slba : Nat} (h : ftl.ssd.Timed) :
    Ensures E (ftl.programWrite req zid slba) (fun r => r.2.accepted = true ∧
      r.2.result.status = nvmeScSuccess ∧ r.2.slba = slba ∧
      ∀ z, z ≠ zid → r.1.zoneDescs z = ftl.zoneDescs z) := by
  unfold ZnsFtl.programWrite
  dsimp only
  rw [ftl.increaseWritePtr_ssd]
  apply (ssdAdvanceWriteBuffer_ensures h _ _).bind
  intro r hr
  have hacc : ({ ssd := r.1, nsecsLatest := r.2, internal := [] } : ZoneProgram).ssd.Timed := hr.timed
  apply (programPages_ensures _ _ _ _ _ _ hacc).bind
  intro acc _
  exact .pure ⟨rfl, rfl, rfl, fun _ hz => ftl.increaseWritePtr_others hz⟩

/-- Memory that reads as an open zone at LBA 0. -/
def strayZone : ZoneDescriptor :=
  { state := .openedImpl, zrwav := false, zoneCapacity := 4194304, zslba := 0, wp := 0 }

/-- An append of one page to zone 2. -/
def strayAppend : ZnsRwCommand :=
  { append := true, slba := 8388608, length := 7, fua := false, slba_lt := twoZones_end_lt
    length_lt := seven_lt_u16 }

/-- Two zones with such memory behind them. -/
structure StrayZns (ftl : ZnsFtl) : Prop where
  nrZones : ftl.zp.nrZones = 2 ^ 32
  wbSize : ftl.zp.zoneWbSize = 983040
  sp : ftl.ssd.sp = wdZn540.params twoZones
  timed : ftl.ssd.Timed
  zoneLbas : ftl.zoneLbas = 4194304
  lpnToZone : ftl.lpnToZone (ftl.lbaToLpn 8388608) = 2
  desc : ftl.zoneDescs 2 = strayZone
  buffer : ftl.buffers (.zone 2) = bufferInit 983040

/-- The append is to the zone behind the last one. -/
theorem StrayZns.target {ftl : ZnsFtl} (h : StrayZns ftl) : ftl.lbaToZone 8388608 = 2 := by
  unfold ZnsFtl.lbaToZone
  rw [h.zoneLbas]
  rfl

/-- A fresh device of two zones with such memory. -/
theorem FreshZns.stray (h : FreshZns wdZn540 twoZones s.ftl) :
    StrayZns (s.ftl.withBehind (fun _ => strayZone) s.ftl.buffers).unbounded where
  nrZones := rfl
  wbSize := by
    show s.ftl.zp.zoneWbSize = _
    rw [h.zp]
    rfl
  sp := h.sp
  timed := h.timed
  zoneLbas := h.toShaped.zoneLbas_two
  lpnToZone := (h.toShaped.lpnToZone _).trans h.thirdZone_two
  desc := @ZnsFtl.withBehind_past s.ftl (fun _ => strayZone) s.ftl.buffers 2
    (Nat.le_of_eq h.nrZones_two)
  buffer := by
    show (if s.ftl.HasBuffer (.zone 2) then s.ftl.buffers (.zone 2) else s.ftl.buffers (.zone 2)) = _
    rw [ite_self, h.buffers, h.zp]
    rfl

/-- The checks find an open zone at its write pointer. -/
theorem StrayZns.checkWrite {ftl : ZnsFtl} (h : StrayZns ftl) (id : BufferId) (buf : Buffer) :
    (ftl.setBuffer id buf).checkWrite 2 0 strayAppend.nrLba = (ftl.setBuffer id buf, nvmeScSuccess) := by
  have hlbas : (ftl.setBuffer id buf).zoneLbas = 4194304 := h.zoneLbas
  have hdesc : (ftl.setBuffer id buf).zoneDescs 2 = strayZone := h.desc
  have hunit : ¬ lbaToByte strayAppend.nrLba % (ftl.setBuffer id buf).ssd.sp.writeUnitSize ≠ 0 := by
    show ¬ lbaToByte strayAppend.nrLba % ftl.ssd.sp.writeUnitSize ≠ 0
    rw [h.sp]
    decide
  have hsame : (ftl.setBuffer id buf).checkBoundaryError 0 strayAppend.nrLba = true := by
    unfold ZnsFtl.checkBoundaryError ZnsFtl.lbaToZone
    rw [hlbas]
    decide
  have hwp : ¬ 0 ≠ ((ftl.setBuffer id buf).zoneDescs 2).wp := by
    rw [hdesc]
    decide
  unfold ZnsFtl.checkWrite ZnsFtl.writeSwitch
  rw [if_neg hunit, hsame, if_neg Bool.noConfusion, if_neg hwp, hdesc]
  rfl

/-- `__zns_write` takes the descriptor behind the array for that of a zone. -/
theorem StrayZns.append {ftl : ZnsFtl} (h : StrayZns ftl) :
    Ensures (fun _ => False) (ftl.znsWrite { cmd := strayAppend, nsecsStart := 0 }) (fun r =>
      r.2.accepted = true ∧ r.2.result.status = nvmeScSuccess ∧ r.2.slba = 0 ∧
      ∀ z, z ≠ 2 → r.1.zoneDescs z = ftl.zoneDescs z) := by
  have hslba : strayAppend.slba = 8388608 := rfl
  have hwb : ftl.writeBuffer 2 = .zone 2 := by
    unfold ZnsFtl.writeBuffer
    rw [h.wbSize]
    rfl
  have hstart : ftl.effectiveSlba strayAppend 2 = 0 := by
    unfold ZnsFtl.effectiveSlba
    rw [if_pos (by rfl), h.desc]
    rfl
  unfold ZnsFtl.znsWrite ZnsFtl.znsWriteSeq
  dsimp only
  rw [hslba, h.lpnToZone, h.nrZones, if_neg (by decide), h.desc, if_pos (by rfl), h.target, hwb,
    h.buffer, hstart, bufferAllocate_room (by decide) (by decide), pure_bind]
  dsimp only
  rw [if_neg (Nat.lt_irrefl _)]
  unfold ZnsFtl.writeCharged
  dsimp only
  rw [h.checkWrite]
  dsimp only
  rw [if_neg (not_not_intro rfl)]
  exact ZnsFtl.programWrite_ensures h.timed

/-- Where the memory behind two descriptors reads as an open zone at LBA 0, an append to zone 2 is
accepted over the first page of zone 0, whose write pointer stays. -/
theorem zones_unsequential_two :
    ∃ s, ((znsMemoryRuns wdZn540 twoZones fun _ => 0).guarded NoZrwaOpen).Reachable s ∧
      0 < s.ftl.zp.nrZones ∧ s.log 0 = [(0, 8)] ∧ (s.ftl.zoneDescs 0).wp = 0 ∧
      ¬ WrittenInOrder s.ftl 0 (s.log 0) := by
  obtain ⟨s, hinit, hfresh⟩ := @exists_freshZns wdZn540 twoZones (fun _ => 0) (by decide) (by decide)
  let t : ZnsRun := { s with ftl := s.ftl.withBehind (fun _ => strayZone) s.ftl.buffers }
  have hreach : ((znsMemoryRuns wdZn540 twoZones fun _ => 0).guarded NoZrwaOpen).Reachable t :=
    .init ⟨s, _, _, hinit, rfl⟩
  obtain ⟨⟨ftl, ans⟩, env', hrun, hok, hstatus, hslba, hothers⟩ := hfresh.stray.append.total Env.zero
  have hpast : t.ftl.PastZones (.write strayAppend) := by
    show s.ftl.zp.nrZones ≤ s.ftl.lbaToZone 8388608
    rw [hfresh.thirdZone_two, hfresh.nrZones_two]
  have hstep := ZnsMemoryStep.past hpast hrun (LoggedBehind.written hok hstatus)
  have hno : NoZrwaOpen t (.command (.write strayAppend) 0) := trivial
  have hzone : s.ftl.lbaToZone 0 = 0 := @FreshZns.target_two s firstPage hfresh (by decide)
  have hlog : Function.update t.log (t.ftl.lbaToZone ans.slba)
      (t.log (t.ftl.lbaToZone ans.slba) ++ [(ans.slba, strayAppend.nrLba)]) 0 = [(0, 8)] := by
    obtain ⟨_, _, _, hempty⟩ := hinit
    show Function.update s.log (s.ftl.lbaToZone ans.slba)
      (s.log (s.ftl.lbaToZone ans.slba) ++ [(ans.slba, 8)]) 0 = _
    rw [hslba, hzone, Function.update_self, hempty]
    rfl
  have hwp : (ftl.zoneDescs 0).wp = 0 := by
    rw [hothers 0 (by decide)]
    show (t.ftl.zoneDescs 0).wp = 0
    have hz : 0 < s.ftl.zp.nrZones := by
      rw [hfresh.nrZones_two]
      decide
    rw [ZnsFtl.withBehind_desc hz, hfresh.wp_zero]
  refine ⟨_, hreach.step ⟨hno, hstep⟩, ?_, hlog, hwp, fun horder => ?_⟩
  · show 0 < s.ftl.zp.nrZones
    rw [hfresh.nrZones_two]
    decide
  · have hmem : (0, 8) ∈ Function.update t.log (t.ftl.lbaToZone ans.slba)
        (t.log (t.ftl.lbaToZone ans.slba) ++ [(ans.slba, strayAppend.nrLba)]) 0 := by
      rw [hlog]
      exact List.mem_singleton_self _
    have hle : 0 + 8 ≤ (ftl.zoneDescs 0).wp := (horder.tiles.within (0, 8) hmem).2
    rw [hwp] at hle
    exact absurd hle (by decide)

end Two

end NvmeVirt

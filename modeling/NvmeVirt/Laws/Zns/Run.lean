import NvmeVirt.Lib.System
import NvmeVirt.Laws.Zns.Zrwa
import NvmeVirt.Zns.Cmd

/-!
# Runs of a zoned namespace

A run takes the commands whose zone number is below `nr_zones`, and the releases they schedule in any
order. A command with a zone number past the last zone is no step of these runs: the source does not
check it and goes on with the memory behind its arrays, which `Laws.Zns.Behind` adds. Neither is a
command that stops at an assertion or divides by zero. Beside the FTL a run keeps what an observer
would: the releases that are still to come with the zone they are for, the bytes released for each
zone, and the ranges written to each zone since it was last reset.

Over all these runs, whatever the configuration: the counters of the open and the active resource are
the numbers of open and of active zones, and no release ever meets a zero counter.
-/

set_option autoImplicit false

namespace NvmeVirt

open Outcome

/-- The FTL with its history. -/
structure ZnsRun where
  ftl : ZnsFtl
  pending : List (Nat × ScheduledRelease)
  released : Nat → Nat
  log : Nat → List (Nat × Nat)

inductive ZnsEvent where
  /-- A command is submitted. -/
  | command (cmd : ZnsCommand) (nsecsStart : Nat)
  /-- The worker performs the pending release at `k`. -/
  | release (k : Nat)

/-- `buffer_release` on the buffer a release is for. -/
def ZnsFtl.performRelease (ftl : ZnsFtl) (op : ScheduledRelease) : ZnsFtl :=
  ftl.setBuffer op.buffer (bufferRelease (ftl.buffers op.buffer) op.bytes)

/-- The zone `z` is emptied by the command. -/
def ZnsFtl.Resets (ftl : ZnsFtl) (cmd : ZoneMgmtSend) (z : Nat) : Prop :=
  cmd.zsa = .resetZone ∧ ftl.addressed cmd z ∧ (ftl.zoneDescs z).state.canReset = true

/-- What the ranges written to the zones become. -/
inductive Logged (ftl : ZnsFtl) (log : Nat → List (Nat × Nat)) :
    ZnsCommand → ZnsAnswer → (Nat → List (Nat × Nat)) → Prop where
  | written {cmd : ZnsRwCommand} {ans : ZnsAnswer} :
    ans.accepted = true → ans.result.status = nvmeScSuccess →
    Logged ftl log (.write cmd) ans
      (Function.update log (ftl.target cmd) (log (ftl.target cmd) ++ [(ans.slba, cmd.nrLba)]))
  | unwritten {cmd : ZnsRwCommand} {ans : ZnsAnswer} :
    ¬ (ans.accepted = true ∧ ans.result.status = nvmeScSuccess) →
    Logged ftl log (.write cmd) ans log
  | sent {cmd : ZoneMgmtSend} {ans : ZnsAnswer} {log' : Nat → List (Nat × Nat)} :
    (∀ z, ftl.Resets cmd z → log' z = []) → (∀ z, ¬ ftl.Resets cmd z → log' z = log z) →
    Logged ftl log (.zoneMgmtSend cmd) ans log'
  | quiet {cmd : ZnsCommand} {ans : ZnsAnswer} :
    (∀ rw, cmd ≠ .write rw) → (∀ m, cmd ≠ .zoneMgmtSend m) → Logged ftl log cmd ans log

/-- The zone a command writes to. -/
def ZnsFtl.zoneOf (ftl : ZnsFtl) : ZnsCommand → Nat
  | .write cmd => ftl.target cmd
  | _ => 0

/-- The steps of a run. -/
inductive ZnsStep : ZnsRun → ZnsEvent → ZnsRun → Prop where
  | command {s : ZnsRun} {cmd : ZnsCommand} {nsecsStart : Nat} {env env' : Env} {ftl : ZnsFtl}
    {ans : ZnsAnswer} {log : Nat → List (Nat × Nat)} :
    (s.ftl.znsProcNvmeIoCmd cmd nsecsStart).run env = .ok ((ftl, ans), env') →
    Logged s.ftl s.log cmd ans log →
    ZnsStep s (.command cmd nsecsStart)
      { ftl, log, released := s.released
        pending := s.pending ++ ans.internal.map fun op => (s.ftl.zoneOf cmd, op) }
  | release {s : ZnsRun} {k zid : Nat} {op : ScheduledRelease} :
    s.pending[k]? = some (zid, op) →
    ZnsStep s (.release k)
      { s with
        ftl := s.ftl.performRelease op
        pending := s.pending.eraseIdx k
        released := Function.update s.released zid (s.released zid + op.bytes) }

/-- Runs of a namespace of `size` bytes over the memory `storage`. -/
def znsRuns (cfg : ZnsConfig) (size : Nat) (storage : Nat → Nat) : System ZnsRun ZnsEvent where
  init s := (∃ env env', (znsInitNamespace cfg size storage).run env = .ok (s.ftl, env')) ∧
    s.pending = [] ∧ (s.released = fun _ => 0) ∧ s.log = fun _ => []
  step := ZnsStep

/-! ## Initialisation -/

section Init

variable {cfg : ZnsConfig} {size : Nat} {storage : Nat → Nat}

/-- The parameters of a namespace of `size` bytes. -/
def ZnsConfig.params (cfg : ZnsConfig) (size : Nat) : SsdParams := ssdInitParams cfg.toSsdConfig size 1

/-- The parameters of the FTL are those of its configuration. -/
structure Shaped (cfg : ZnsConfig) (size : Nat) (ftl : ZnsFtl) : Prop where
  capacity : size % cfg.zoneSize = 0
  aligned : cfg.zoneSize % (cfg.params size).pgsz = 0
  zp : ftl.zp = znsParams cfg (cfg.params size) size
  sp : ftl.ssd.sp = cfg.params size

/-- What `zns_init_namespace` makes. -/
structure FreshZns (cfg : ZnsConfig) (size : Nat) (ftl : ZnsFtl) : Prop extends
    Shaped cfg size ftl where
  timed : ftl.ssd.Timed
  resInfos : ftl.resInfos = initResource ftl.zp
  zoneDescs : ftl.zoneDescs = initDescriptor ftl.zp
  buffers : ftl.buffers = initBuffers ftl.zp ftl.ssd.sp

theorem znsInitNamespace_ensures (cfg : ZnsConfig) (size : Nat) (storage : Nat → Nat) :
    Ensures (fun _ => True) (znsInitNamespace cfg size storage) (FreshZns cfg size) := by
  unfold znsInitNamespace znsInitParams
  by_cases hcap : size % cfg.zoneSize = 0
  · by_cases halign : cfg.zoneSize % (ssdInitParams cfg.toSsdConfig size 1).pgsz = 0
    · apply Ensures.bind
        (P := fun zp => FreshZns cfg size (znsInitFtl zp (ssdInit (cfg.params size)) storage))
      · apply (nvmevAssert_ensures hcap).bind
        intro _ _
        apply (nvmevAssert_ensures halign).bind
        intro _ _
        exact .pure ⟨⟨hcap, halign, rfl, rfl⟩, ssdInit_timed _, rfl, rfl, rfl⟩
      · exact fun _ hzp => .pure hzp
    · apply Ensures.bind (P := fun _ => False)
      · apply (nvmevAssert_ensures hcap).bind
        intro _ _
        rw [nvmevAssert_fails halign]
        exact .throw trivial
      · exact fun _ hfalse => hfalse.elim
  · apply Ensures.bind (P := fun _ => False)
    · rw [nvmevAssert_fails hcap]
      exact .throw trivial
    · exact fun _ hfalse => hfalse.elim

/-- A namespace of whole zones of whole pages can be made. -/
theorem exists_freshZns (hcap : size % cfg.zoneSize = 0)
    (halign : cfg.zoneSize % (cfg.params size).pgsz = 0) :
    ∃ s, (znsRuns cfg size storage).init s ∧ FreshZns cfg size s.ftl := by
  have hrun : ∃ ftl, (znsInitNamespace cfg size storage).run Env.zero = .ok (ftl, Env.zero) := by
    have halign' : cfg.zoneSize % (ssdInitParams cfg.toSsdConfig size 1).pgsz = 0 := halign
    unfold znsInitNamespace znsInitParams nvmevAssert check
    dsimp only
    rw [if_pos hcap, if_pos halign']
    exact ⟨_, rfl⟩
  obtain ⟨ftl, hrun⟩ := hrun
  have hfresh := (znsInitNamespace_ensures cfg size storage).of_run hrun
  exact ⟨{ ftl, pending := [], released := fun _ => 0, log := fun _ => [] },
    ⟨⟨_, _, hrun⟩, rfl, rfl, rfl⟩, hfresh⟩

theorem FreshZns.inv {ftl : ZnsFtl} (h : FreshZns cfg size ftl) : ZnsInv 0 ftl := by
  constructor
  · have hnone : ∀ k, ftl.heldCnt k = 0 := by
      intro k
      apply tally_eq_zero
      intro z _
      rw [h.zoneDescs]
      cases k <;> exact Bool.false_ne_true
    constructor
    · intro k
      rw [hnone, h.resInfos]
      cases k <;> rfl
    · rw [h.resInfos]
      exact fun _ => Nat.zero_le _
    · rw [h.resInfos]
      exact fun _ => rfl
    · rw [h.resInfos]
      exact fun _ => rfl
    · rw [h.zp]
      exact Nat.mod_lt _ (by decide)
  · intro z _ _
    rw [h.zoneDescs]
    rfl
  · exact h.timed

theorem Shaped.congr {ftl ftl' : ZnsFtl} (h : Shaped cfg size ftl) (hzp : ftl'.zp = ftl.zp)
    (hsp : ftl'.ssd.sp = ftl.ssd.sp) : Shaped cfg size ftl' :=
  ⟨h.capacity, h.aligned, hzp.trans h.zp, hsp.trans h.sp⟩

/-- The two ways of finding the zone of an address agree: a zone is a number of whole pages. -/
theorem Shaped.lpnToZone {ftl : ZnsFtl} (h : Shaped cfg size ftl) (lba : Nat) :
    ftl.lpnToZone (ftl.lbaToLpn lba) = ftl.lbaToZone lba := by
  have hpgsz : (cfg.params size).pgsz = (cfg.params size).secsz * (cfg.params size).secsPerPg := rfl
  have hsec : 0 < (cfg.params size).secsz := (by decide : 0 < lbaSize)
  have halign := h.aligned
  unfold ZnsFtl.lpnToZone ZnsFtl.lbaToLpn ZnsFtl.lbaToZone ZnsFtl.zonePgs ZnsFtl.zoneLbas
  rw [h.zp, h.sp]
  show u32 (lba / (cfg.params size).secsPerPg / (cfg.zoneSize / (cfg.params size).pgsz)) =
    u32 (lba / (cfg.zoneSize / (cfg.params size).secsz))
  have hlbas : cfg.zoneSize / (cfg.params size).secsz =
      (cfg.params size).secsPerPg * (cfg.zoneSize / (cfg.params size).pgsz) := by
    obtain ⟨k, hk⟩ := Nat.dvd_of_mod_eq_zero halign
    have hpos : 0 < (cfg.params size).pgsz := (by decide : 0 < lbaSize * (4096 / lbaSize))
    rw [hk, Nat.mul_div_cancel_left _ hpos, hpgsz, Nat.mul_assoc, Nat.mul_div_cancel_left _ hsec]
  rw [hlbas, Nat.div_div_eq_div_mul]

end Init

/-! ## One command -/

section Command

variable {E : Fault → Prop} {leak : Nat} {ftl : ZnsFtl} {cmd : ZnsCommand} {nsecsStart : Nat}

theorem readPages_ensures (stime elpn : Nat) :
    ∀ (passes lpn : Nat) {acc : Ssd × Nat}, acc.1.Timed →
      Ensures E (ftl.readPages stime elpn passes lpn acc) (fun acc' => acc.1.SameFlash acc'.1) := by
  intro passes
  induction passes with
  | zero => exact fun _ _ h => .pure ⟨rfl, rfl, h⟩
  | succ passes ih =>
    intro lpn acc h
    unfold ZnsFtl.readPages
    apply Ensures.ite
    · intro _
      apply (ssdAdvanceNand_ensures h _).bind
      rintro ⟨ssd, nsecsCompleted⟩ hr
      have htimed : (ssd, max nsecsCompleted acc.2).1.Timed := hr.timed
      exact (ih _ htimed).mono fun _ hrest => hr.trans hrest
    · intro _
      exact .pure ⟨rfl, rfl, h⟩

/-- A read moves the clocks and nothing else. -/
theorem znsRead_ensures (h : ftl.ssd.Timed) {req : ZnsRequest}
    (hout : ftl.zp.nrZones ≤ ftl.lpnToZone (ftl.lbaToLpn req.cmd.slba) → E .outOfBounds) :
    Ensures E (ftl.znsRead req) (fun r => (∃ ssd, ftl.ssd.SameFlash ssd ∧ r.1 = { ftl with ssd }) ∧
      r.2.accepted = true ∧ r.2.internal = [] ∧ ∃ zid, r.2.result.status =
        ftl.readStatus zid req.cmd.slba req.cmd.nrLba) := by
  unfold ZnsFtl.znsRead
  dsimp only
  apply Ensures.ite
  · intro hpast
    exact .throw (hout hpast)
  intro _
  apply (readPages_ensures _ _ _ _ h).bind
  intro r hr
  apply (ssdAdvancePcie_ensures hr.timed _ _).bind
  intro r' hr'
  exact .pure ⟨⟨r'.1, hr.trans hr', rfl⟩, rfl, rfl, _, rfl⟩

/-- Moving the clocks keeps what holds between commands. -/
theorem ZnsInv.withSsd (h : ZnsInv leak ftl) {ssd : Ssd} (hsame : ftl.ssd.SameFlash ssd) :
    ZnsInv leak { ftl with ssd } :=
  ⟨⟨h.tallied.acquired, h.tallied.bounded, h.tallied.total, h.tallied.underflows,
    h.tallied.nrZones_lt⟩, h.idle, hsame.timed⟩

theorem ZnsInv.performRelease (h : ZnsInv leak ftl) (op : ScheduledRelease) :
    ZnsInv leak (ftl.performRelease op) :=
  ⟨⟨h.tallied.acquired, h.tallied.bounded, h.tallied.total, h.tallied.underflows,
    h.tallied.nrZones_lt⟩, h.idle, h.timed⟩

/-- A command gets to a division by zero. -/
def ZnsFtl.Divides (ftl : ZnsFtl) : ZnsCommand → Prop
  | .write cmd => ftl.WriteDivides cmd
  | .zoneMgmtSend cmd => ftl.SendDivides cmd
  | _ => False

/-- The effect of a command. -/
inductive CommandDone (leak : Nat) (ftl : ZnsFtl) : ZnsCommand → ZnsFtl × ZnsAnswer → Prop where
  | seqWrite {cmd : ZnsRwCommand} {nsecsStart : Nat} {r : ZnsFtl × ZnsAnswer} :
    ftl.target cmd < ftl.zp.nrZones → (ftl.zoneDescs (ftl.target cmd)).zrwav = false →
    SeqDone leak ftl { cmd, nsecsStart } r → CommandDone leak ftl (.write cmd) r
  | zrwaWrite {cmd : ZnsRwCommand} {r : ZnsFtl × ZnsAnswer} :
    ftl.target cmd < ftl.zp.nrZones → (ftl.zoneDescs (ftl.target cmd)).zrwav = true →
    Kept leak ftl r.1 ∨ ftl.FlushEnds cmd ∧ Kept (leak + 1) ftl r.1 →
    CommandDone leak ftl (.write cmd) r
  | sent {cmd : ZoneMgmtSend} {r : ZnsFtl × ZnsAnswer} :
    Sent leak (ftl.addressed cmd) cmd.zsa cmd.zsaso ftl r.1 → r.2.internal = [] →
    CommandDone leak ftl (.zoneMgmtSend cmd) r
  | clocks {cmd : ZnsCommand} {ssd : Ssd} {ans : ZnsAnswer} :
    (∀ rw, cmd ≠ .write rw) → (∀ m, cmd ≠ .zoneMgmtSend m) → ftl.ssd.SameFlash ssd →
    ans.internal = [] → CommandDone leak ftl cmd ({ ftl with ssd }, ans)

/-- A write to a zone without ZRWA has the effect of a sequential one. -/
theorem CommandDone.seq {cmd : ZnsRwCommand} {r : ZnsFtl × ZnsAnswer}
    (h : CommandDone leak ftl (.write cmd) r)
    (hav : ∀ z, z < ftl.zp.nrZones → (ftl.zoneDescs z).zrwav = false) :
    ftl.target cmd < ftl.zp.nrZones ∧ ∃ nsecsStart, SeqDone leak ftl { cmd, nsecsStart } r := by
  cases h with
  | seqWrite hin _ hdone => exact ⟨hin, _, hdone⟩
  | zrwaWrite hin hzrwa _ => exact absurd ((hav _ hin).symm.trans hzrwa) Bool.false_ne_true
  | clocks hnw _ _ _ => exact absurd rfl (hnw cmd)

/-- `zns_proc_nvme_io_cmd`. It stops at an address behind the last zone, in the allocator of the write
buffers, and where it divides by zero. -/
theorem ZnsInv.command {cfg : ZnsConfig} {size : Nat} (h : ZnsInv leak ftl) (hs : Shaped cfg size ftl)
    (hbug : E .bugOn) (hnull : E .nullPointer) (hout : E .outOfBounds)
    (hdiv : ftl.Divides cmd → E .divideByZero) :
    Ensures E (ftl.znsProcNvmeIoCmd cmd nsecsStart) (CommandDone leak ftl cmd) := by
  have hsame : ftl.ssd.SameFlash ftl.ssd := ⟨rfl, rfl, h.timed⟩
  unfold ZnsFtl.znsProcNvmeIoCmd
  cases cmd with
  | write cmd =>
    dsimp only
    unfold ZnsFtl.znsWrite
    dsimp only
    rw [hs.lpnToZone, ← ZnsFtl.target]
    apply Ensures.ite
    · intro _
      exact .throw hout
    intro hin
    have hz := Nat.lt_of_not_le hin
    apply Ensures.ite
    · intro hav
      exact (h.writeSeq hz hav fun _ => hbug).mono fun r hr => .seqWrite hz hav hr
    · intro hav
      have hav' := Bool.eq_true_of_not_eq_false hav
      have hdone := @ZnsInv.writeZrwa E leak ftl { cmd, nsecsStart } h hz hav' hbug hnull hdiv
      exact hdone.mono fun r hr => .zrwaWrite hz hav' hr
  | read cmd =>
    apply (znsRead_ensures h.timed fun _ => hout).mono
    rintro ⟨ftl', ans⟩ ⟨⟨ssd, hssd, rfl⟩, _, hinternal, _⟩
    exact .clocks (fun _ => ZnsCommand.noConfusion) (fun _ => ZnsCommand.noConfusion) hssd hinternal
  | flush =>
    apply Ensures.bind (P := fun _ => True)
    · apply cpuClock_ensures.bind
      intro _ _
      apply (ssdNextIdleTime_ensures _).bind
      intro _ _
      exact .pure trivial
    · intro _ _
      exact .pure (.clocks (fun _ => ZnsCommand.noConfusion) (fun _ => ZnsCommand.noConfusion) hsame rfl)
  | zoneMgmtSend cmd =>
    apply (h.send nsecsStart (fun _ _ _ => hout) hdiv).bind
    intro r hr
    exact .pure (.sent hr rfl)
  | zoneMgmtRecv cmd =>
    exact .pure (.clocks (fun _ => ZnsCommand.noConfusion) (fun _ => ZnsCommand.noConfusion) hsame rfl)
  | other =>
    exact .pure (.clocks (fun _ => ZnsCommand.noConfusion) (fun _ => ZnsCommand.noConfusion) hsame rfl)

/-- The effect of a command that has come to an end. -/
theorem ZnsInv.ran {cfg : ZnsConfig} {size : Nat} (h : ZnsInv leak ftl) (hs : Shaped cfg size ftl)
    {env env' : Env} {r : ZnsFtl × ZnsAnswer}
    (hrun : (ftl.znsProcNvmeIoCmd cmd nsecsStart).run env = .ok (r, env')) :
    CommandDone leak ftl cmd r :=
  (h.command (E := fun _ => True) hs trivial trivial trivial fun _ => trivial).of_run hrun

/-- A command keeps what holds between commands, but for a ZRWA unit it may lose. -/
theorem CommandDone.inv {r : ZnsFtl × ZnsAnswer} (h : CommandDone leak ftl cmd r)
    (hinv : ZnsInv leak ftl) :
    (∃ leak', ZnsInv leak' r.1) ∧ r.1.zp = ftl.zp ∧ r.1.ssd.sp = ftl.ssd.sp := by
  cases h with
  | seqWrite hz hav hdone =>
    cases hdone with
    | short _ => exact ⟨⟨_, hinv⟩, rfl, rfl⟩
    | refused _ _ _ => exact ⟨⟨_, hinv.charge _⟩, rfl, rfl⟩
    | written _ _ hw => exact ⟨⟨_, hw.inv⟩, hw.zp, hw.sp⟩
  | zrwaWrite _ _ hdone =>
    rcases hdone with hk | ⟨_, hk⟩
    · exact ⟨⟨_, hk.inv⟩, hk.zp, hk.sp⟩
    · exact ⟨⟨_, hk.inv⟩, hk.zp, hk.sp⟩
  | sent hsent _ => exact ⟨⟨_, hsent.inv⟩, hsent.zp, congrArg Ssd.sp hsent.ssd⟩
  | clocks _ _ hssd _ => exact ⟨⟨_, hinv.withSsd hssd⟩, rfl, hssd.sp⟩

end Command

/-! ## The open and the active resource -/

/-- What holds in every state of a run. -/
def ZnsSettled (cfg : ZnsConfig) (size : Nat) (s : ZnsRun) : Prop :=
  Shaped cfg size s.ftl ∧ ∃ leak, ZnsInv leak s.ftl

section Runs

variable {cfg : ZnsConfig} {size : Nat} {storage : Nat → Nat}

theorem znsRuns_settled : (znsRuns cfg size storage).Invariant (ZnsSettled cfg size) where
  init s hs := by
    obtain ⟨⟨env, env', hrun⟩, _⟩ := hs
    have hfresh := (znsInitNamespace_ensures cfg size storage).of_run hrun
    exact ⟨hfresh.toShaped, 0, hfresh.inv⟩
  step s e s' hs hstep := by
    obtain ⟨hshaped, leak, hinv⟩ := hs
    cases hstep with
    | command hrun _ =>
      obtain ⟨hinv', hzp, hsp⟩ := (hinv.ran hshaped hrun).inv hinv
      exact ⟨hshaped.congr hzp hsp, hinv'⟩
    | release _ => exact ⟨hshaped.congr rfl rfl, leak, hinv.performRelease _⟩

/-- How many zones are in a state that satisfies `p`. -/
def ZnsFtl.countZones (ftl : ZnsFtl) (p : ZoneState → Bool) : Nat :=
  ((Finset.range ftl.zp.nrZones).filter fun z => p (ftl.zoneDescs z).state = true).card

/-- The open and the active counters are the numbers of such zones, no counter is past its total, and
no release has met a zero counter. -/
structure ResourcesMatch (ftl : ZnsFtl) : Prop where
  openZone : (ftl.resInfos .openZone).acquiredCnt = ftl.countZones ZoneState.isOpen
  activeZone : (ftl.resInfos .activeZone).acquiredCnt = ftl.countZones ZoneState.isActive
  bounded : ∀ k, (ftl.resInfos k).acquiredCnt ≤ (ftl.resInfos k).totalCnt
  underflows : ∀ k, (ftl.resInfos k).underflows = 0

theorem ZnsSettled.resourcesMatch {s : ZnsRun} (h : ZnsSettled cfg size s) : ResourcesMatch s.ftl := by
  obtain ⟨_, leak, hinv⟩ := h
  have htallied := hinv.tallied
  exact ⟨htallied.acquired .openZone, htallied.acquired .activeZone, htallied.bounded,
    htallied.underflows⟩

end Runs

/-! ## A run on a device of two zones -/

/-- Two zones of a ZN540. -/
def twoZones : Nat := 2 * mb 2048

/-- The first LBA behind two such zones. -/
theorem twoZones_end_lt : 8388608 < 2 ^ 64 := by decide

/-- Open the zone of `slba`. -/
def openCmd (slba : Nat) (zrwa : Bool) (h : slba < 2 ^ 64) : ZoneMgmtSend :=
  { slba, zsa := .openZone, selectAll := false, zsaso := zrwa, slba_lt := h }

theorem openCmd_run {ftl : ZnsFtl} {slba : Nat} {h : slba < 2 ^ 64} (zrwa : Bool)
    (hin : ftl.lbaToZone slba < ftl.zp.nrZones) (nsecsStart : Nat) (env : Env) :
    (ftl.znsProcNvmeIoCmd (.zoneMgmtSend (openCmd slba zrwa h)) nsecsStart).run env =
      .ok (((ftl.zmgmtSendOpenZone (ftl.lbaToZone slba) zrwa).1,
        .done (ftl.zmgmtSendOpenZone (ftl.lbaToZone slba) zrwa).2 nsecsStart slba), env) := by
  have hone : ftl.zmgmtSendOne slba .openZone zrwa =
      pure (ftl.zmgmtSendOpenZone (ftl.lbaToZone slba) zrwa) :=
    if_neg fun hboth => Nat.not_le.mpr hin hboth.1
  have hsend : ftl.znsZmgmtSend (openCmd slba zrwa h) nsecsStart =
      ftl.zmgmtSendOne slba .openZone zrwa >>= fun r =>
        pure (r.1, { status := r.2, nsecsTarget := nsecsStart }) := rfl
  unfold ZnsFtl.znsProcNvmeIoCmd
  dsimp only
  rw [hsend, hone]
  rfl

/-- The step of a command that resets nothing. -/
theorem openCmd_step {s : ZnsRun} {slba : Nat} {h : slba < 2 ^ 64} (zrwa : Bool)
    (hin : s.ftl.lbaToZone slba < s.ftl.zp.nrZones) :
    ZnsStep s (.command (.zoneMgmtSend (openCmd slba zrwa h)) 0)
      { s with ftl := (s.ftl.zmgmtSendOpenZone (s.ftl.lbaToZone slba) zrwa).1 } := by
  have hlog : ∀ ans, Logged s.ftl s.log (.zoneMgmtSend (openCmd slba zrwa h)) ans s.log :=
    fun _ => .sent (fun _ hr => nomatch hr.1) fun _ _ => rfl
  have hstep := ZnsStep.command (openCmd_run zrwa hin 0 Env.zero) (hlog _)
  simpa [ZnsAnswer.done] using hstep

/-- On fresh zones the first can be opened. -/
theorem exists_opened {cfg : ZnsConfig} {size : Nat} {storage : Nat → Nat}
    (hcap : size % cfg.zoneSize = 0) (halign : cfg.zoneSize % (cfg.params size).pgsz = 0)
    (hpos : 0 < u32 (size / cfg.zoneSize)) (zrwa : Bool) :
    ∃ s s', FreshZns cfg size s.ftl ∧ (znsRuns cfg size storage).init s ∧
      ZnsStep s (.command (.zoneMgmtSend (openCmd 0 zrwa (by decide))) 0) s' ∧
      Ended 0 0 { s.ftl.zoneDescs 0 with state := .openedExpl, zrwav := zrwa } s.ftl s'.ftl := by
  obtain ⟨s, hinit, hfresh⟩ := @exists_freshZns cfg size storage hcap halign
  have hzone : s.ftl.lbaToZone 0 = 0 := by
    unfold ZnsFtl.lbaToZone
    rw [Nat.zero_div]
    rfl
  have hin : 0 < s.ftl.zp.nrZones := by
    rw [hfresh.zp]
    exact hpos
  have hempty : (s.ftl.zoneDescs 0).state = .empty := by
    rw [hfresh.zoneDescs]
    rfl
  have hend := @Charged.openEmpty _ _ _ zrwa (hfresh.inv.tallied.charged hin) hempty
    (hfresh.inv.idle 0 hin hempty) (by
      intro _
      rw [hfresh.resInfos]
      exact hin)
  refine ⟨s, _, hfresh, hinit, openCmd_step zrwa (hzone.symm ▸ hin), ?_⟩
  rw [hzone]
  exact hend

end NvmeVirt

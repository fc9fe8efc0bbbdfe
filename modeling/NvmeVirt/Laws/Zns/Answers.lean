import NvmeVirt.Laws.Zns.Retry

/-!
# Which zone commands are answered

A zone management command, a write, an append or a read is sound when, whatever it reads of the
environment, it comes to an end, with a status the handlers name, without a descriptor past the last
zone, with an error for an address or an action it does not know, and, for zone management, without
a change behind an error. The conditions for that are decided before the command: the true zone
number of the address is below the number of zones, the action is known, nothing divides by a zero
flush granularity, and no allocation is larger than its buffer.

For zone management each handler is `Atomic`: it ends in success, or with a status of the list and
everything as it was. A read looks at descriptors only, and a write fails in three places, at an
unknown zone, at a flush granularity of zero and at a buffer that is too small; `ZnsInv.write_exact`
says that it ends exactly where none of these is met.

Zone numbers of 33 bits and more wrap to those of other zones; about these nothing is said beyond
the sufficient condition. The answers to reports are in `Laws/Zns/Reports`.
-/

set_option autoImplicit false

namespace NvmeVirt

open Outcome

/-- The statuses the handlers of a zoned namespace name. -/
def zoneStatuses : List Nat :=
  [nvmeScSuccess, nvmeScInvalidField, nvmeScZnsInvalidZoneOperation, nvmeScZnsZrwaRsrcUnavail,
    nvmeScZnsErrBoundary, nvmeScZnsErrFull, nvmeScZnsErrReadOnly, nvmeScZnsErrOffline,
    nvmeScZnsInvalidWrite, nvmeScZnsNoActiveZone, nvmeScZnsNoOpenZone, nvmeScZnsInvalidTransition]

/-- The zone number of the address, before it is cut to 32 bits, is one of a zone. -/
def ZnsFtl.InRange (ftl : ZnsFtl) (slba : Nat) : Prop := slba / ftl.zoneLbas < ftl.zp.nrZones

/-- What an answer owes to a command that is valid or not. -/
structure WellAnswered (ftl ftl' : ZnsFtl) (status : Nat) (valid : Prop) : Prop where
  bounded : ∀ z, ftl.zp.nrZones ≤ z → ftl'.zoneDescs z = ftl.zoneDescs z
  defined : status ∈ zoneStatuses
  invalid : ¬ valid → status ≠ nvmeScSuccess

/-! ## Zone management -/

/-- A handler has answered with a status it names, and an error comes without a change. -/
def Atomic (ftl : ZnsFtl) (r : ZnsFtl × Nat) : Prop :=
  r.2 ∈ zoneStatuses ∧ (r.2 ≠ nvmeScSuccess → r.1 = ftl)

section Atomic

variable {ftl ftl' : ZnsFtl} {leak zid status slba : Nat} {held : ZoneResourceType → Bool}
  {action : ZoneSendAction} {option : Bool}

theorem Atomic.success : Atomic ftl (ftl', nvmeScSuccess) :=
  ⟨(by decide : nvmeScSuccess ∈ zoneStatuses), fun hbad => absurd rfl hbad⟩

theorem Atomic.same (h : status ∈ zoneStatuses) : Atomic ftl (ftl, status) := ⟨h, fun _ => rfl⟩

/-- Closing: the zone is closed, or the command is refused. -/
theorem ZnsFtl.closeZone_atomic (ftl : ZnsFtl) (zid : Nat) :
    Atomic ftl (ftl.zmgmtSendCloseZone zid) := by
  unfold ZnsFtl.zmgmtSendCloseZone
  cases (ftl.zoneDescs zid).state with
  | openedImpl | openedExpl | closed => exact .success
  | empty | full | readOnly | offline => exact .same (by decide)

/-- Finishing gives up what the zone holds, and never fails half way. -/
theorem ZnsFtl.finishZone_atomic (ftl : ZnsFtl) (zid : Nat) :
    Atomic ftl (ftl.zmgmtSendFinishZone zid) := by
  unfold ZnsFtl.zmgmtSendFinishZone
  cases (ftl.zoneDescs zid).state with
  | openedImpl | openedExpl | closed | empty | full => exact .success
  | readOnly | offline => exact .same (by decide)

/-- A reset of a zone that is not read only or offline. -/
theorem ZnsFtl.resetZone_atomic (ftl : ZnsFtl) (zid : Nat) :
    Atomic ftl (ftl.zmgmtSendResetZone zid) := by
  unfold ZnsFtl.zmgmtSendResetZone
  cases (ftl.zoneDescs zid).state with
  | openedImpl | openedExpl | closed | empty | full => exact .success
  | readOnly | offline => exact .same (by decide)

/-- Going offline is for a zone that is read only, or offline already. -/
theorem ZnsFtl.offlineZone_atomic (ftl : ZnsFtl) (zid : Nat) :
    Atomic ftl (ftl.zmgmtSendOfflineZone zid) := by
  unfold ZnsFtl.zmgmtSendOfflineZone
  cases (ftl.zoneDescs zid).state with
  | readOnly | offline => exact .success
  | openedImpl | openedExpl | closed | empty | full => exact .same (by decide)

/-- The open resource is there for a zone without it, so the transition comes to its end. -/
theorem Charged.openExplicitly_success (h : Charged leak zid held ftl)
    (hfree : held .openZone = false) : Atomic ftl' (ftl.openExplicitly zid) := by
  obtain ⟨mid, hacq, _⟩ := h.acquire hfree (h.avail hfree rfl)
  unfold ZnsFtl.openExplicitly
  rw [hacq]
  exact .success

/-- Where the open resource was there, the active one is as well. -/
theorem Charged.activate_success (h : Charged leak zid held ftl) (hopen : held .openZone = false)
    (hfree : held .activeZone = false) :
    Atomic ftl' ((ftl.acquireZoneResource .activeZone).1.openExplicitly zid) := by
  obtain ⟨mid, hacq, hc, _⟩ := h.acquire hfree (h.avail hfree rfl)
  rw [hacq]
  exact hc.openExplicitly_success hopen

/-- The checks of an EMPTY zone all stand before the first resource is taken. -/
theorem Tallied.openZone_atomic (h : Tallied leak ftl) (hz : zid < ftl.zp.nrZones) :
    Atomic ftl (ftl.zmgmtSendOpenZone zid option) := by
  have hc := h.charged hz
  unfold ZnsFtl.zmgmtSendOpenZone
  cases hs : (ftl.zoneDescs zid).state with
  | empty =>
    have hnone := ZoneDescriptor.holds_empty hs
    dsimp only
    rw [hc.not_full (hnone .activeZone) rfl, hc.not_full (hnone .openZone) rfl,
      if_neg Bool.false_ne_true, if_neg Bool.false_ne_true]
    split
    · split
      · exact .same (by decide)
      · rename_i hroom
        have hne : (ftl.resInfos .zrwaZone).acquiredCnt ≠ (ftl.resInfos .zrwaZone).totalCnt :=
          fun he => hroom (beq_iff_eq.mpr he)
        have hle := hc.bounded .zrwaZone
        obtain ⟨mid, hacq, hmid, _⟩ := hc.acquire (hnone .zrwaZone) (by omega)
        rw [hacq]
        exact (hmid.setZoneDesc _).activate_success (hnone .openZone) (hnone .activeZone)
    · exact hc.activate_success (hnone .openZone) (hnone .activeZone)
  | closed =>
    apply hc.openExplicitly_success
    simp [ZoneDescriptor.holds, ZoneState.isOpen, hs]
  | openedImpl | openedExpl => exact .success
  | full | readOnly | offline => exact .same (by decide)

/-- The explicit flush, which may divide by zero, checks before it commits. -/
theorem ZnsFtl.flushExplicitZrwa_atomic (ftl : ZnsFtl) (slba : Nat) :
    Ensures (fun _ => True) (ftl.zmgmtSendFlushExplicitZrwa slba) (Atomic ftl) := by
  unfold ZnsFtl.zmgmtSendFlushExplicitZrwa
  apply Ensures.ite
  · intro _
    exact .pure (.same (by decide))
  intro _
  apply Ensures.ite
  · intro _
    exact .pure (.same (by decide))
  intro _
  apply Ensures.ite
  · intro _
    exact .throw trivial
  intro _
  apply Ensures.ite
  · intro _
    exact .pure (.same (by decide))
  intro _
  cases (ftl.zoneDescs (ftl.lbaToZone slba)).state with
  | openedExpl | openedImpl | closed => exact .pure .success
  | empty | full | readOnly | offline => exact .pure (.same (by decide))

/-- A known action on one zone answers with a named status, and an error comes without a change. -/
theorem ZnsInv.sendOne_atomic (h : ZnsInv leak ftl) (hknown : action ≠ .other) :
    Ensures (fun _ => True) (ftl.zmgmtSendOne slba action option) (Atomic ftl) := by
  unfold ZnsFtl.zmgmtSendOne
  apply Ensures.ite
  · intro _
    exact .throw trivial
  intro hin
  have hz : ftl.lbaToZone slba < ftl.zp.nrZones := Nat.lt_of_not_le fun hle => hin ⟨hle, hknown⟩
  cases action with
  | closeZone => exact .pure (ftl.closeZone_atomic _)
  | finishZone => exact .pure (ftl.finishZone_atomic _)
  | openZone => exact .pure (h.tallied.openZone_atomic hz)
  | resetZone => exact .pure (ftl.resetZone_atomic _)
  | offlineZone => exact .pure (ftl.offlineZone_atomic _)
  | flushExplZrwa => exact ftl.flushExplicitZrwa_atomic slba
  | other => exact absurd rfl hknown

end Atomic

/-- The command names a zone, or all of them, and an action the handler knows. -/
def ZnsFtl.SendValid (ftl : ZnsFtl) (cmd : ZoneMgmtSend) : Prop :=
  cmd.zsa ≠ .other ∧ (cmd.selectAll = false → ftl.InRange cmd.slba)

/-- When a zone management command is sound. -/
def ZnsFtl.SendAnswers (ftl : ZnsFtl) (cmd : ZoneMgmtSend) : Prop :=
  ftl.SendValid cmd ∧ ¬ ftl.SendDivides cmd

def ZnsFtl.SendSound (ftl : ZnsFtl) (cmd : ZoneMgmtSend) (nsecsStart : Nat) : Prop :=
  ∀ env, ∃ r env', (ftl.znsZmgmtSend cmd nsecsStart).run env = .ok (r, env') ∧
    WellAnswered ftl r.1 r.2.status (ftl.SendValid cmd) ∧
    (r.2.status ≠ nvmeScSuccess →
      r.1.zoneDescs = ftl.zoneDescs ∧ r.1.resInfos = ftl.resInfos)

section Send

variable {E : Fault → Prop} {ftl : ZnsFtl} {leak slba : Nat} {cmd : ZoneMgmtSend}

/-- The zone number of an address in range is below the number of zones. -/
theorem ZnsFtl.InRange.lbaToZone (h : ftl.InRange slba) (hn : ftl.zp.nrZones < 2 ^ 32) :
    ftl.lbaToZone slba < ftl.zp.nrZones := by
  unfold ZnsFtl.lbaToZone u32
  rw [Nat.mod_eq_of_lt (Nat.lt_trans h hn)]
  exact h

/-- A zone number of 32 bits is not cut. -/
theorem ZnsFtl.inRange_of_lbaToZone (hfits : slba / ftl.zoneLbas < 2 ^ 32)
    (hz : ftl.lbaToZone slba < ftl.zp.nrZones) : ftl.InRange slba := by
  unfold ZnsFtl.lbaToZone u32 at hz
  rw [Nat.mod_eq_of_lt hfits] at hz
  exact hz

/-- With `select_all` the statuses of the zones are dropped. -/
theorem ZnsFtl.sendAll_status (nsecsStart : Nat) (hall : cmd.selectAll = true) :
    Ensures (fun _ => True) (ftl.znsZmgmtSend cmd nsecsStart)
      (fun r => r.2.status = nvmeScSuccess) := by
  unfold ZnsFtl.znsZmgmtSend
  rw [if_pos hall]
  apply Ensures.any.bind
  intro _ _
  exact .pure rfl

/-- A known action ends in success, or in a status of the list with nothing changed. -/
theorem ZnsInv.send_atomic (h : ZnsInv leak ftl) (nsecsStart : Nat) (hknown : cmd.zsa ≠ .other) :
    Ensures (fun _ => True) (ftl.znsZmgmtSend cmd nsecsStart) (fun r =>
      r.2.status ∈ zoneStatuses ∧ (r.2.status ≠ nvmeScSuccess → r.1 = ftl)) := by
  by_cases hall : cmd.selectAll = true
  · apply (ftl.sendAll_status nsecsStart hall).mono
    intro r hr
    rw [hr]
    exact ⟨by decide, fun hbad => absurd rfl hbad⟩
  · unfold ZnsFtl.znsZmgmtSend
    rw [if_neg hall]
    apply (h.sendOne_atomic hknown).bind
    intro r hr
    exact .pure hr

/-- Under the conditions zone management is sound. -/
theorem ZnsInv.send_sound (h : ZnsInv leak ftl) (nsecsStart : Nat) (hcmd : ftl.SendAnswers cmd) :
    ftl.SendSound cmd nsecsStart := by
  obtain ⟨⟨hknown, hrange⟩, hdiv⟩ := hcmd
  have hn := h.tallied.nrZones_lt
  have hsent : Ensures (fun _ => False) (ftl.znsZmgmtSend cmd nsecsStart)
      (fun r => Sent leak (ftl.addressed cmd) cmd.zsa cmd.zsaso ftl r.1) :=
    h.send nsecsStart
      (fun hone hpast _ => absurd ((hrange hone).lbaToZone hn) (Nat.not_lt.mpr hpast)) hdiv
  have haddressed : ∀ z, ftl.addressed cmd z → z < ftl.zp.nrZones := by
    intro z hz
    unfold ZnsFtl.addressed at hz
    by_cases hall : cmd.selectAll = true
    · rw [if_pos hall] at hz
      obtain ⟨j, hj, rfl⟩ := hz
      exact Nat.lt_of_le_of_lt (ftl.lbaToZone_zoneToSlba_le j) hj
    · rw [if_neg hall] at hz
      rw [hz]
      exact (hrange (Bool.eq_false_iff.mpr hall)).lbaToZone hn
  intro env
  obtain ⟨r, env', hrun, hr, hdefined, hatomic⟩ :=
    (hsent.and (h.send_atomic nsecsStart hknown)).total env
  refine ⟨r, env', hrun, ⟨fun z hz => ?_, hdefined, fun hnot => ?_⟩, fun hbad => ?_⟩
  · exact hr.others z fun hin => Nat.not_lt.mpr hz (haddressed z hin)
  · exact absurd ⟨hknown, hrange⟩ hnot
  · rw [hatomic hbad]
    exact ⟨rfl, rfl⟩

/-- An explicit flush that gets to the remainder by zero does not answer. -/
theorem ZnsFtl.flushExplicitZrwa_divides {option : Bool} (hzero : ftl.zp.lbasPerZrwafg = 0)
    (hdiv : ftl.FlushDivides slba) :
    Ensures (fun _ => True) (ftl.zmgmtSendOne slba .flushExplZrwa option) (fun _ => False) := by
  obtain ⟨hav, hwindow⟩ := hdiv
  unfold ZnsFtl.zmgmtSendOne ZnsFtl.zmgmtSendFlushExplicitZrwa
  apply Ensures.ite
  · intro _
    exact .throw trivial
  intro _
  dsimp only
  rw [hav, if_neg nofun, if_neg (not_not_intro hwindow), if_pos hzero]
  exact .throw trivial

/-- The loop of `select_all` comes to a zone whose flush divides by zero, if there is one: until then
it has changed nothing. -/
theorem ZnsFtl.send_divides (nsecsStart : Nat) (hdiv : ftl.SendDivides cmd) :
    Ensures (fun _ => True) (ftl.znsZmgmtSend cmd nsecsStart) (fun _ => False) := by
  obtain ⟨hzero, hact, hwhere⟩ := hdiv
  unfold ZnsFtl.znsZmgmtSend
  rw [hact]
  by_cases hall : cmd.selectAll = true
  · rw [if_pos hall] at hwhere ⊢
    obtain ⟨j, hj, hflush⟩ := hwhere
    apply Ensures.bind (P := fun _ => False) _ fun _ hfalse => hfalse.elim
    have hloop : Ensures (fun _ => True)
        (forRange ftl.zp.nrZones ftl fun zid ftl =>
          ftl.zmgmtSendOne (ftl.zoneToSlba zid) .flushExplZrwa cmd.zsaso >>= fun r => pure r.1)
        (fun ftl' => ftl' = ftl ∧ ∀ i, i < ftl.zp.nrZones → ¬ ftl.FlushDivides (ftl.zoneToSlba i)) := by
      apply Ensures.forRange
        (I := fun i ftl' => ftl' = ftl ∧ ∀ k, k < i → ¬ ftl.FlushDivides (ftl.zoneToSlba k))
      · exact ⟨rfl, fun k hk => absurd hk (Nat.not_lt_zero k)⟩
      · rintro i _ ftl' ⟨hsame, hbefore⟩
        rw [hsame]
        by_cases hhere : ftl.FlushDivides (ftl.zoneToSlba i)
        · exact (ftl.flushExplicitZrwa_divides hzero hhere).bind fun _ hfalse => hfalse.elim
        · apply (ftl.sendOne_unchanged hzero).bind
          intro r hr
          apply Ensures.pure
          refine ⟨hr, fun k hk => ?_⟩
          rcases Nat.lt_succ_iff_lt_or_eq.mp hk with hlt | rfl
          · exact hbefore k hlt
          · exact hhere
    exact hloop.mono fun _ hr => hr.2 j hj hflush
  · rw [if_neg hall] at hwhere ⊢
    exact (ftl.flushExplicitZrwa_divides hzero hwhere).bind fun _ hfalse => hfalse.elim

/-- An unknown action is not refused: the status of one zone is whatever stood there before, and that
of all zones is success. -/
theorem ZnsInv.send_unknown (h : ZnsInv leak ftl) (nsecsStart : Nat) (hact : cmd.zsa = .other) :
    ∃ r env', (ftl.znsZmgmtSend cmd nsecsStart).run Env.zero = .ok (r, env') ∧
      r.2.status = nvmeScSuccess := by
  by_cases hall : cmd.selectAll = true
  · have hends : Ensures (fun _ => False) (ftl.znsZmgmtSend cmd nsecsStart)
        (fun r => Sent leak (ftl.addressed cmd) cmd.zsa cmd.zsaso ftl r.1) := by
      apply h.send nsecsStart fun _ _ hknown => hknown hact
      intro hdiv
      have hflush := hdiv.2.1
      rw [hact] at hflush
      exact nomatch hflush
    obtain ⟨r, env', hrun, _, hstatus⟩ :=
      (hends.and (ftl.sendAll_status nsecsStart hall)).total Env.zero
    exact ⟨r, env', hrun, hstatus⟩
  · have hone : ftl.zmgmtSendOne cmd.slba .other cmd.zsaso = (do
        let garbage ← getRandomU32
        pure (ftl, garbage)) := if_neg fun hboth => hboth.2 rfl
    unfold ZnsFtl.znsZmgmtSend
    rw [if_neg hall, hact, hone]
    exact ⟨_, _, rfl, rfl⟩

/-- A zone management command is sound if and only if it answers, for zone numbers that are not
cut. -/
theorem ZnsInv.sendSound_iff (h : ZnsInv leak ftl) (nsecsStart : Nat)
    (hfits : cmd.slba / ftl.zoneLbas < 2 ^ 32) :
    ftl.SendSound cmd nsecsStart ↔ ftl.SendAnswers cmd := by
  refine ⟨fun hsound => ?_, h.send_sound nsecsStart⟩
  have hknown : cmd.zsa ≠ .other := by
    intro hact
    obtain ⟨r, env', hrun, hstatus⟩ := h.send_unknown nsecsStart hact
    obtain ⟨r', env'', hrun', hwell, _⟩ := hsound Env.zero
    rw [hrun] at hrun'
    cases hrun'
    exact hwell.invalid (fun hvalid => hvalid.1 hact) hstatus
  refine ⟨⟨hknown, fun hone => ?_⟩, fun hdiv => ?_⟩
  · apply ftl.inRange_of_lbaToZone hfits
    by_contra hpast
    have hnever : Ensures (fun _ => True) (ftl.znsZmgmtSend cmd nsecsStart) (fun _ => False) := by
      unfold ZnsFtl.znsZmgmtSend ZnsFtl.zmgmtSendOne
      rw [if_neg (by rw [hone]; exact Bool.false_ne_true)]
      dsimp only
      rw [if_pos ⟨Nat.le_of_not_lt hpast, hknown⟩]
      exact .throw trivial
    obtain ⟨r, env', hrun, _⟩ := hsound Env.zero
    exact hnever.of_run hrun
  · obtain ⟨r, env', hrun, _⟩ := hsound Env.zero
    exact (ftl.send_divides nsecsStart hdiv).of_run hrun

end Send

/-! ## Reads -/

def ZnsFtl.ReadSound (ftl : ZnsFtl) (cmd : ZnsRwCommand) (nsecsStart : Nat) : Prop :=
  ∀ env, ∃ r env', (ftl.znsRead { cmd, nsecsStart }).run env = .ok (r, env') ∧
    WellAnswered ftl r.1 r.2.result.status (ftl.InRange cmd.slba)

section Read

variable {cfg : ZnsConfig} {size : Nat} {ftl : ZnsFtl} {leak : Nat} {cmd : ZnsRwCommand}

/-- A read ends with a status of the list. -/
theorem ZnsFtl.readStatus_defined (ftl : ZnsFtl) (zid slba nrLba : Nat) :
    ftl.readStatus zid slba nrLba ∈ zoneStatuses := by
  unfold ZnsFtl.readStatus
  split
  · decide
  · split
    · decide
    · decide

/-- A read is sound if its address is that of a zone, and only then when its zone number is not
cut. -/
theorem ZnsInv.read_sound (h : ZnsInv leak ftl) (hs : Shaped cfg size ftl) (nsecsStart : Nat)
    (hrange : ftl.InRange cmd.slba) : ftl.ReadSound cmd nsecsStart := by
  have hin : ¬ ftl.zp.nrZones ≤ ftl.lpnToZone (ftl.lbaToLpn cmd.slba) := by
    rw [hs.lpnToZone]
    exact Nat.not_le.mpr (hrange.lbaToZone h.tallied.nrZones_lt)
  have hread := @znsRead_ensures (fun _ => False) ftl h.timed { cmd, nsecsStart } hin
  intro env
  obtain ⟨r, env', hrun, ⟨ssd, _, hftl⟩, _, _, zid, hstatus⟩ := hread.total env
  refine ⟨r, env', hrun, fun z _ => ?_, ?_, fun hnot => absurd hrange hnot⟩
  · rw [hftl]
  · rw [hstatus]
    exact ftl.readStatus_defined ..

/-- Where the zone number has 32 bits, a read is sound exactly for an address in range. -/
theorem ZnsInv.readSound_iff (h : ZnsInv leak ftl) (hs : Shaped cfg size ftl) (nsecsStart : Nat)
    (hfits : cmd.slba / ftl.zoneLbas < 2 ^ 32) :
    ftl.ReadSound cmd nsecsStart ↔ ftl.InRange cmd.slba := by
  refine ⟨fun hsound => ?_, h.read_sound hs nsecsStart⟩
  apply ftl.inRange_of_lbaToZone hfits
  by_contra hpast
  have hnever : ftl.znsRead { cmd, nsecsStart } = throw .outOfBounds := by
    unfold ZnsFtl.znsRead
    dsimp only
    rw [hs.lpnToZone, if_pos (Nat.le_of_not_lt hpast)]
  obtain ⟨r, env', hrun, _⟩ := hsound Env.zero
  rw [hnever] at hrun
  cases hrun

end Read

/-! ## Writes and appends -/

namespace ZnsFtl

/-- The ZRWA buffer of the zone exists, and is not smaller than `size`. -/
def ZrwaHolds (ftl : ZnsFtl) (zid size : Nat) : Prop :=
  ftl.zp.zrwaBufferSize ≠ 0 ∧ size ≤ (ftl.buffers (.zrwa zid)).size

/-- The implicit flush of a write up to `elba` neither divides by zero nor asks for more than the
ZRWA buffer can ever hold. -/
def FlushAnswers (ftl : ZnsFtl) (zid elba : Nat) : Prop :=
  (ftl.zrwaImplStart (ftl.zoneDescs zid).wp ≤ elba → ftl.zp.lbasPerZrwafg ≠ 0) ∧
    (0 < ftl.flushLbas zid elba (ftl.zoneDescs zid).wp →
      ftl.ZrwaHolds zid (u64 (lbaToByte (ftl.flushLbas zid elba (ftl.zoneDescs zid).wp))))

/-- A write to a zone with a ZRWA that passes its checks opens the zone when it is closed, and
flushes. -/
def ZrwaAnswers (ftl : ZnsFtl) (cmd : ZnsRwCommand) : Prop :=
  ftl.rejectsZrwa (ftl.target cmd) cmd.slba cmd.nrLba = nvmeScSuccess →
    (ftl.zoneDescs (ftl.target cmd)).state.isActive = true →
      ((ftl.zoneDescs (ftl.target cmd)).state = .closed →
        ftl.ZrwaGrants (ftl.buffers (.zrwa (ftl.target cmd))) ftl.zp.zrwaSize) ∧
      ftl.FlushAnswers (ftl.target cmd) (ftl.targetElba cmd)

/-- When a write or an append is sound. -/
def WriteAnswers (ftl : ZnsFtl) (cmd : ZnsRwCommand) : Prop :=
  ftl.InRange cmd.slba ∧
    if (ftl.zoneDescs (ftl.target cmd)).zrwav = true then ftl.ZrwaAnswers cmd
    else cmd.bytes ≤ (ftl.targetBuffer cmd).size

def WriteSound (ftl : ZnsFtl) (cmd : ZnsRwCommand) (nsecsStart : Nat) : Prop :=
  ∀ env, ∃ r env', (ftl.znsWrite { cmd, nsecsStart }).run env = .ok (r, env') ∧
    WellAnswered ftl r.1 r.2.result.status (ftl.InRange cmd.slba)

end ZnsFtl

section Seq

variable {ftl : ZnsFtl} {leak zid slba nrLba : Nat} {req : ZnsRequest}

theorem answer_named {status : Nat} (h : status ∈ zoneStatuses) : (ftl, status).2 ∈ zoneStatuses := h

theorem ZnsFtl.openImplicitly_status (ftl : ZnsFtl) (zid : Nat) :
    (ftl.openImplicitly zid).2 ∈ zoneStatuses := by
  unfold ZnsFtl.openImplicitly
  split
  · exact answer_named (by decide)
  · exact answer_named (by decide)

theorem ZnsFtl.checkWrite_status (ftl : ZnsFtl) (zid slba nrLba : Nat) :
    (ftl.checkWrite zid slba nrLba).2 ∈ zoneStatuses := by
  unfold ZnsFtl.checkWrite
  split
  · exact answer_named (by decide)
  split
  · exact answer_named (by decide)
  split
  · exact answer_named (by decide)
  unfold ZnsFtl.writeSwitch
  cases (ftl.zoneDescs zid).state with
  | empty =>
    dsimp only
    split
    · exact answer_named (by decide)
    split
    · exact answer_named (by decide)
    split
    · exact answer_named (by decide)
    exact ZnsFtl.openImplicitly_status ..
  | closed => exact ftl.openImplicitly_status zid
  | openedImpl | openedExpl | full | readOnly | offline => exact answer_named (by decide)

/-- A sequential write ends with a status of the list. -/
theorem ZnsFtl.writeSeq_status (ftl : ZnsFtl) (req : ZnsRequest) :
    Ensures (fun _ => True) (ftl.znsWriteSeq req) (fun r => r.2.result.status ∈ zoneStatuses) := by
  unfold ZnsFtl.znsWriteSeq
  dsimp only
  apply Ensures.any.bind
  intro r _
  apply Ensures.ite
  · intro _
    exact .pure (by decide : nvmeScSuccess ∈ zoneStatuses)
  intro _
  unfold ZnsFtl.writeCharged
  have hchecked := ZnsFtl.checkWrite_status
    (ftl.setBuffer (ftl.writeBuffer (ftl.lbaToZone req.cmd.slba)) r.1) (ftl.lbaToZone req.cmd.slba)
    (ftl.effectiveSlba req.cmd (ftl.lbaToZone req.cmd.slba)) req.cmd.nrLba
  apply Ensures.ite
  · intro _
    exact .pure hchecked
  intro _
  unfold ZnsFtl.programWrite
  apply Ensures.any.bind
  intro _ _
  apply Ensures.any.bind
  intro _ _
  exact .pure (by decide : nvmeScSuccess ∈ zoneStatuses)

/-- A write to a zone without ZRWA answers if and only if it is not larger than the buffer. -/
theorem ZnsInv.writeSeq_exact (h : ZnsInv leak ftl) (hz : ftl.target req.cmd < ftl.zp.nrZones)
    (hav : (ftl.zoneDescs (ftl.target req.cmd)).zrwav = false) :
    Ensures (fun _ => ¬ req.cmd.bytes ≤ (ftl.targetBuffer req.cmd).size) (ftl.znsWriteSeq req)
      (fun r => req.cmd.bytes ≤ (ftl.targetBuffer req.cmd).size ∧
        (∀ z, ftl.zp.nrZones ≤ z → r.1.zoneDescs z = ftl.zoneDescs z) ∧
        r.2.result.status ∈ zoneStatuses) := by
  by_cases hfits : req.cmd.bytes ≤ (ftl.targetBuffer req.cmd).size
  · have hdone : Ensures (fun _ => ¬ req.cmd.bytes ≤ (ftl.targetBuffer req.cmd).size)
        (ftl.znsWriteSeq req) (SeqDone leak ftl req) :=
      h.writeSeq hz hav fun hlarge => absurd hfits (Nat.not_le.mpr hlarge)
    apply (hdone.and (ftl.writeSeq_status req)).mono
    rintro r ⟨hr, hstatus⟩
    refine ⟨hfits, fun z hpast => ?_, hstatus⟩
    cases hr with
    | short _ => rfl
    | refused _ _ _ => rfl
    | written _ _ hw => exact hw.others z (Nat.ne_of_gt (Nat.lt_of_lt_of_le hz hpast))
  · have hthrow : ftl.znsWriteSeq req = throw .bugOn := by
      unfold ZnsFtl.znsWriteSeq
      dsimp only
      show (bufferAllocate (ftl.targetBuffer req.cmd) req.cmd.bytes >>= _) = _
      rw [bufferAllocate_tooLarge (Nat.lt_of_not_le hfits)]
      rfl
    rw [hthrow]
    exact .throw hfits

end Seq

section Zrwa

variable {E : Fault → Prop} {ftl mid : ZnsFtl} {leak zid : Nat} {req : ZnsRequest}

theorem Frame.increaseWritePtr (zid : Nat) (ftl : ZnsFtl) (lbas : Nat) :
    Frame zid ftl (ftl.increaseWritePtr zid lbas) := by
  unfold ZnsFtl.increaseWritePtr
  dsimp only
  split
  · exact (((Frame.setZoneDesc ..).trans (.release ..)).trans (.release ..)).trans (.setZoneDesc ..)
  · exact .setZoneDesc ..

/-- An allocation from a ZRWA buffer stops where the buffer does not hold the size. -/
theorem ZnsFtl.zrwaBufferAllocate_exact (ftl : ZnsFtl) (zid size : Nat) :
    Ensures (fun _ => ¬ ftl.ZrwaHolds zid size) (ftl.zrwaBufferAllocate zid size)
      (fun r => ftl.ZrwaHolds zid size ∧ Frame zid ftl r.1) := by
  unfold ZnsFtl.zrwaBufferAllocate
  apply Ensures.ite
  · intro hnone
    exact .throw fun hholds => hholds.1 hnone
  intro hbuffer
  by_cases hfits : size ≤ (ftl.buffers (.zrwa zid)).size
  · by_cases hroom : size ≤ (ftl.buffers (.zrwa zid)).remaining
    · rw [bufferAllocate_room hfits hroom, pure_bind]
      exact .pure ⟨⟨hbuffer, hfits⟩, .setZrwaBuffer ..⟩
    · rw [bufferAllocate_short hfits (Nat.lt_of_not_le hroom), pure_bind]
      exact .pure ⟨⟨hbuffer, hfits⟩, .setZrwaBuffer ..⟩
  · rw [bufferAllocate_tooLarge (Nat.lt_of_not_le hfits)]
    exact .throw fun hholds => hfits hholds.2

/-- An allocation there is room for. -/
theorem ZnsFtl.zrwaBufferAllocate_room (ftl : ZnsFtl) {zid size : Nat}
    (hbuffer : ftl.zp.zrwaBufferSize ≠ 0) (hfits : size ≤ (ftl.buffers (.zrwa zid)).size)
    (hroom : size ≤ (ftl.buffers (.zrwa zid)).remaining) :
    ftl.zrwaBufferAllocate zid size = pure (ftl.setBuffer (.zrwa zid) { ftl.buffers (.zrwa zid) with
      remaining := (ftl.buffers (.zrwa zid)).remaining - size }, size) := by
  unfold ZnsFtl.zrwaBufferAllocate
  rw [if_neg hbuffer, bufferAllocate_room hfits hroom, pure_bind]

/-- The implicit flush divides by the granularity where the write reaches past the window. -/
theorem ZnsFtl.implicitFlush_exact (ftl : ZnsFtl) (zid elba wp : Nat) :
    Ensures (fun _ => ¬ (ftl.zrwaImplStart wp ≤ elba → ftl.zp.lbasPerZrwafg ≠ 0))
      (ftl.implicitFlush zid elba wp)
      (fun n => (ftl.zrwaImplStart wp ≤ elba → ftl.zp.lbasPerZrwafg ≠ 0) ∧
        n = ftl.flushLbas zid elba wp) := by
  unfold ZnsFtl.implicitFlush ZnsFtl.flushLbas
  split
  · rename_i hstart
    unfold ZnsFtl.roundUpZrwafg
    apply Ensures.ite
    · intro hzero
      exact .throw fun hnonzero => hnonzero hstart hzero
    · intro hnonzero
      exact .pure ⟨fun _ => hnonzero, rfl⟩
  rename_i hstart
  split
  · exact .pure ⟨fun h => absurd h hstart, rfl⟩
  · exact .pure ⟨fun h => absurd h hstart, rfl⟩

/-- The flush ends exactly where the window has the room for it. -/
theorem ZnsFtl.flushImplicitly_exact (ftl : ZnsFtl) (zid lbas : Nat) :
    Ensures (fun _ => ¬ (0 < lbas → ftl.ZrwaHolds zid (u64 (lbaToByte lbas))))
      (ftl.flushImplicitly zid lbas)
      (fun r => (0 < lbas → ftl.ZrwaHolds zid (u64 (lbaToByte lbas))) ∧ Frame zid ftl r.1) := by
  unfold ZnsFtl.flushImplicitly
  apply Ensures.ite
  · intro hpos
    apply Ensures.bind ((ftl.zrwaBufferAllocate_exact zid _).tolerate
      fun _ hnot hall => hnot (hall hpos))
    rintro ⟨mid, alloc⟩ ⟨hholds, hframe⟩
    apply Ensures.ite
    · intro _
      exact .pure ⟨fun _ => hholds, hframe⟩
    · intro _
      exact .pure ⟨fun _ => hholds, hframe.trans (.increaseWritePtr ..)⟩
  · intro hnone
    exact .pure ⟨fun hpos => absurd hpos hnone, .refl ..⟩

/-- The end of a ZRWA write stops in its flush or not at all. -/
theorem ZnsFtl.programZrwa_exact (hssd : ftl.ssd.Timed) (req : ZnsRequest) (zid : Nat) :
    Ensures (fun _ => ¬ ftl.FlushAnswers zid (lastLba req.cmd.slba req.cmd.nrLba))
      (ftl.programZrwa req zid)
      (fun r => ftl.FlushAnswers zid (lastLba req.cmd.slba req.cmd.nrLba) ∧
        (∀ z, z ≠ zid → r.1.zoneDescs z = ftl.zoneDescs z) ∧
        r.2.result.status ∈ zoneStatuses) := by
  unfold ZnsFtl.programZrwa
  apply Ensures.bind ((ftl.implicitFlush_exact ..).tolerate fun _ hnot hall => hnot hall.1)
  rintro n ⟨hdivides, rfl⟩
  apply Ensures.bind ((ftl.flushImplicitly_exact ..).tolerate fun _ hnot hall => hnot hall.2)
  rintro ⟨mid, room⟩ ⟨hholds, hframe⟩
  show Ensures _ (mid.finishZrwa req zid _ _ room) _
  have hflush : ftl.FlushAnswers zid (lastLba req.cmd.slba req.cmd.nrLba) := ⟨hdivides, hholds⟩
  have htimed : mid.ssd.Timed := by
    rw [hframe.ssd]
    exact hssd
  unfold ZnsFtl.finishZrwa
  apply Ensures.ite
  · intro _
    exact .pure ⟨hflush, hframe.others, (by decide : nvmeScSuccess ∈ zoneStatuses)⟩
  intro _
  apply (ssdAdvanceWriteBuffer_ensures htimed _ _).bind
  intro r hr
  have hacc : ({ ssd := r.1, nsecsLatest := r.2, internal := [] } : ZoneProgram).ssd.Timed := hr.timed
  apply (flushPages_ensures _ _ _ _ _ hacc).bind
  intro acc _
  exact .pure ⟨hflush, hframe.others, (by decide : nvmeScSuccess ∈ zoneStatuses)⟩

/-- A closed zone is opened if and only if its ZRWA buffer grants the window. -/
theorem Tallied.switchZrwa_closed (h : Tallied leak ftl) (hz : zid < ftl.zp.nrZones)
    (hclosed : (ftl.zoneDescs zid).state = .closed) :
    Ensures (fun _ => ¬ ftl.ZrwaGrants (ftl.buffers (.zrwa zid)) ftl.zp.zrwaSize)
      (ftl.writeSwitchZrwa zid) (fun r =>
        ftl.ZrwaGrants (ftl.buffers (.zrwa zid)) ftl.zp.zrwaSize ∧ r.2 = nvmeScSuccess) := by
  have hc := h.charged hz
  have hfree : (ftl.zoneDescs zid).holds .openZone = false := by
    simp [ZoneDescriptor.holds, ZoneState.isOpen, hclosed]
  obtain ⟨mid, hacq, _, info, rfl⟩ := hc.acquire hfree (hc.avail hfree rfl)
  unfold ZnsFtl.writeSwitchZrwa
  rw [hclosed]
  dsimp only
  rw [hacq]
  dsimp only
  by_cases hgrants : ftl.ZrwaGrants (ftl.buffers (.zrwa zid)) ftl.zp.zrwaSize
  · obtain ⟨hbuffer, hfits, hpos, hroom⟩ := hgrants
    have halloc := @ZnsFtl.zrwaBufferAllocate_room (ftl.setResInfo .openZone info) zid
      (ftl.setResInfo .openZone info).zp.zrwaSize hbuffer hfits hroom
    rw [halloc, pure_bind]
    apply (nvmevAssert_ensures (Nat.pos_iff_ne_zero.mp hpos)).bind
    intro _ _
    exact .pure ⟨⟨hbuffer, hfits, hpos, hroom⟩, rfl⟩
  · apply ((ftl.setResInfo .openZone info).zrwaBufferAllocate_ensures zid _ hgrants hgrants).bind
    rintro r (rfl | ⟨hbuffer, hfits, hroom, rfl⟩)
    · dsimp only
      rw [nvmevAssert_fails (not_not_intro rfl)]
      exact .throw hgrants
    · have hzero : ¬ (ftl.setResInfo .openZone info).zp.zrwaSize ≠ 0 := fun hne =>
        hgrants ⟨hbuffer, hfits, Nat.pos_iff_ne_zero.mpr hne, hroom⟩
      dsimp only
      rw [nvmevAssert_fails hzero]
      exact .throw hgrants

/-- Opening the zone changes nothing its flush depends on. -/
theorem ZrwaOpened.flushAnswers (h : ZrwaOpened leak zid ftl mid) (elba : Nat) :
    mid.FlushAnswers zid elba ↔ ftl.FlushAnswers zid elba := by
  have hend := h.ended
  have g : SameGeometry ftl mid := ⟨hend.frame.zp, congrArg Ssd.sp hend.frame.ssd⟩
  have hwp : (mid.zoneDescs zid).wp = (ftl.zoneDescs zid).wp := by rw [hend.desc]
  have hsize : (mid.buffers (.zrwa zid)).size = (ftl.buffers (.zrwa zid)).size := by
    rw [h.buffer]
    unfold ZnsFtl.openedBuffer
    split
    · rfl
    · rfl
  unfold ZnsFtl.FlushAnswers ZnsFtl.ZrwaHolds ZnsFtl.flushLbas ZnsFtl.zrwaImplStart
    ZnsFtl.zoneToElba
  rw [hwp, hsize, g.zp, g.zoneToSlba]

theorem ZnsFtl.rejectsZrwa_status (ftl : ZnsFtl) (zid slba nrLba : Nat) :
    ftl.rejectsZrwa zid slba nrLba ∈ zoneStatuses := by
  unfold ZnsFtl.rejectsZrwa
  dsimp only
  split
  · decide
  split
  · decide
  split
  · decide
  · decide

/-- A write to a zone with ZRWA answers if and only if what it allocates can be granted and nothing
divides by zero. -/
theorem ZnsInv.writeZrwa_exact (h : ZnsInv leak ftl) (hz : ftl.target req.cmd < ftl.zp.nrZones)
    (hav : (ftl.zoneDescs (ftl.target req.cmd)).zrwav = true) :
    Ensures (fun _ => ¬ ftl.ZrwaAnswers req.cmd) (ftl.znsWriteZrwa req)
      (fun r => ftl.ZrwaAnswers req.cmd ∧
        (∀ z, ftl.zp.nrZones ≤ z → r.1.zoneDescs z = ftl.zoneDescs z) ∧
        r.2.result.status ∈ zoneStatuses) := by
  have hbusy : (ftl.zoneDescs (ftl.target req.cmd)).state ≠ .empty := by
    intro hempty
    rw [h.idle _ hz hempty] at hav
    exact absurd hav Bool.false_ne_true
  have hpast : ∀ z, ftl.zp.nrZones ≤ z → z ≠ ftl.target req.cmd := fun z hle =>
    Nat.ne_of_gt (Nat.lt_of_lt_of_le hz hle)
  unfold ZnsFtl.znsWriteZrwa ZnsFtl.checkWriteZrwa
  dsimp only
  rw [← ZnsFtl.target]
  by_cases hchecked : ftl.rejectsZrwa (ftl.target req.cmd) req.cmd.slba req.cmd.nrLba ≠ nvmeScSuccess
  · rw [if_pos hchecked, pure_bind]
    dsimp only
    rw [if_pos hchecked]
    exact .pure ⟨fun hpass => absurd hpass hchecked, fun _ _ => rfl,
      ZnsFtl.rejectsZrwa_status ..⟩
  have hpass := Decidable.not_not.mp hchecked
  rw [if_neg hchecked]
  cases hs : (ftl.zoneDescs (ftl.target req.cmd)).state with
  | empty => exact absurd hs hbusy
  | full | readOnly | offline =>
    unfold ZnsFtl.writeSwitchZrwa
    rw [hs, pure_bind]
    apply Ensures.pure
    refine ⟨fun _ hactive => ?_, fun _ _ => rfl, by simp [ZnsAnswer.done, zoneStatuses]⟩
    rw [hs] at hactive
    exact absurd hactive Bool.false_ne_true
  | openedImpl | openedExpl =>
    have hiff : ftl.ZrwaAnswers req.cmd ↔
        ftl.FlushAnswers (ftl.target req.cmd) (lastLba req.cmd.slba req.cmd.nrLba) := by
      unfold ZnsFtl.ZrwaAnswers
      rw [hs]
      exact ⟨fun hall => (hall hpass rfl).2,
        fun hflush _ _ => ⟨fun hclosed => ZoneState.noConfusion hclosed, hflush⟩⟩
    unfold ZnsFtl.writeSwitchZrwa
    rw [hs, pure_bind, hiff]
    apply (ftl.programZrwa_exact h.timed req _).mono
    exact fun r hr => ⟨hr.1, fun z hle => hr.2.1 z (hpast z hle), hr.2.2⟩
  | closed =>
    have hiff : ftl.ZrwaAnswers req.cmd ↔
        ftl.ZrwaGrants (ftl.buffers (.zrwa (ftl.target req.cmd))) ftl.zp.zrwaSize ∧
          ftl.FlushAnswers (ftl.target req.cmd) (lastLba req.cmd.slba req.cmd.nrLba) := by
      unfold ZnsFtl.ZrwaAnswers
      rw [hs]
      exact ⟨fun hall => ⟨(hall hpass rfl).1 rfl, (hall hpass rfl).2⟩,
        fun hboth _ _ => ⟨fun _ => hboth.1, hboth.2⟩⟩
    rw [hiff]
    have hopened := h.tallied.switchZrwa (E := fun _ => True) hz hbusy trivial trivial
    have hboth := (h.tallied.switchZrwa_closed hz hs).and hopened
    apply (hboth.tolerate fun _ hnot hall => hnot hall.1).bind
    rintro ⟨mid, status⟩ ⟨⟨hgrants, hstatus⟩, hmid⟩
    have hsuccess : status = nvmeScSuccess := hstatus
    have hzrwa := (hmid.resolve_left fun hbad => hbad.1 hstatus).2
    have hflush := hzrwa.flushAnswers (lastLba req.cmd.slba req.cmd.nrLba)
    have htimed : mid.ssd.Timed := by
      have hssd : mid.ssd = ftl.ssd := hzrwa.ended.frame.ssd
      rw [hssd]
      exact h.timed
    dsimp only
    rw [if_neg (not_not_intro hsuccess), ← hflush]
    apply ((mid.programZrwa_exact htimed req _).tolerate fun _ hnot hall => hnot hall.2).mono
    rintro r ⟨hanswers, hothers, hdefined⟩
    refine ⟨⟨hgrants, hanswers⟩, fun z hle => ?_, hdefined⟩
    rw [hothers z (hpast z hle)]
    exact hzrwa.ended.frame.others z (hpast z hle)

end Zrwa

section Write

variable {cfg : ZnsConfig} {size : Nat} {ftl : ZnsFtl} {leak : Nat} {cmd : ZnsRwCommand}

/-- A write to a zone there is ends exactly where its conditions hold, and then with a status of the
list. -/
theorem ZnsInv.write_exact (h : ZnsInv leak ftl) (hs : Shaped cfg size ftl) (nsecsStart : Nat)
    (hz : ftl.target cmd < ftl.zp.nrZones) :
    Ensures (fun _ => ¬ if (ftl.zoneDescs (ftl.target cmd)).zrwav = true then ftl.ZrwaAnswers cmd
        else cmd.bytes ≤ (ftl.targetBuffer cmd).size)
      (ftl.znsWrite { cmd, nsecsStart })
      (fun r => (if (ftl.zoneDescs (ftl.target cmd)).zrwav = true then ftl.ZrwaAnswers cmd
          else cmd.bytes ≤ (ftl.targetBuffer cmd).size) ∧
        (∀ z, ftl.zp.nrZones ≤ z → r.1.zoneDescs z = ftl.zoneDescs z) ∧
        r.2.result.status ∈ zoneStatuses) := by
  unfold ZnsFtl.znsWrite
  dsimp only
  rw [hs.lpnToZone, ← ZnsFtl.target, if_neg (Nat.not_le.mpr hz)]
  by_cases hav : (ftl.zoneDescs (ftl.target cmd)).zrwav = true
  · simp only [hav, if_true, Bool.true_eq_false, if_false]
    exact @ZnsInv.writeZrwa_exact ftl leak { cmd, nsecsStart } h hz hav
  · have hav' := Bool.eq_false_iff.mpr hav
    simp only [hav', if_true, Bool.false_eq_true, if_false]
    exact @ZnsInv.writeSeq_exact ftl leak { cmd, nsecsStart } h hz hav'

/-- Where the zone number has 32 bits, a write is sound exactly under its conditions. -/
theorem ZnsInv.writeSound_iff (h : ZnsInv leak ftl) (hs : Shaped cfg size ftl) (nsecsStart : Nat)
    (hfits : cmd.slba / ftl.zoneLbas < 2 ^ 32) :
    ftl.WriteSound cmd nsecsStart ↔ ftl.WriteAnswers cmd := by
  by_cases hrange : ftl.InRange cmd.slba
  · have hz : ftl.target cmd < ftl.zp.nrZones := hrange.lbaToZone h.tallied.nrZones_lt
    have hiff := (h.write_exact hs nsecsStart hz).total_iff Env.zero
    unfold ZnsFtl.WriteAnswers
    rw [and_iff_right hrange, ← hiff]
    constructor
    · intro hsound env
      obtain ⟨r, env', hrun, hwell⟩ := hsound env
      exact ⟨r, env', hrun, hwell.bounded, hwell.defined⟩
    · intro hall env
      obtain ⟨r, env', hrun, hbounded, hdefined⟩ := hall env
      exact ⟨r, env', hrun, hbounded, hdefined, fun hnot => absurd hrange hnot⟩
  · have hthrow : ftl.znsWrite { cmd, nsecsStart } = throw .outOfBounds := by
      have hpast : ¬ ftl.lbaToZone cmd.slba < ftl.zp.nrZones := fun hz =>
        hrange (ftl.inRange_of_lbaToZone hfits hz)
      unfold ZnsFtl.znsWrite
      dsimp only
      rw [hs.lpnToZone, if_pos (Nat.le_of_not_lt hpast)]
    constructor
    · intro hsound
      obtain ⟨r, env', hrun, _⟩ := hsound Env.zero
      rw [hthrow] at hrun
      cases hrun
    · exact fun hanswers => absurd hanswers.1 hrange

end Write

/-! ## The commands of a run -/

section Runs

variable {cfg : ZnsConfig} {size : Nat} {storage : Nat → Nat}

/-- The number of zones fits 32 bits, and so does the number of a zone. -/
theorem ZnsFtl.InRange.fits {ftl : ZnsFtl} {slba : Nat} (h : ftl.InRange slba)
    (hn : ftl.zp.nrZones < 2 ^ 32) : slba / ftl.zoneLbas < 2 ^ 32 := Nat.lt_trans h hn

/-- In every reachable state a command that answers is sound, and a command whose zone number is not
cut is sound only if it answers. Sound means that it comes to an end, leaves everything past the
last zone alone, answers with a status there is, and with success only when it is valid; a zone
management command that fails changes nothing. The other direction needs the zone number below 2³²,
for a larger one is cut to 32 bits and may then name a zone. -/
theorem zone_commands_answer (nsecsStart : Nat) {s : ZnsRun}
    (h : (znsRuns cfg size storage).Reachable s) :
    (∀ cmd : ZoneMgmtSend,
      (s.ftl.SendAnswers cmd → s.ftl.SendSound cmd nsecsStart) ∧
      (cmd.slba / s.ftl.zoneLbas < 2 ^ 32 → s.ftl.SendSound cmd nsecsStart → s.ftl.SendAnswers cmd)) ∧
    (∀ cmd : ZnsRwCommand,
      (s.ftl.WriteAnswers cmd → s.ftl.WriteSound cmd nsecsStart) ∧
      (cmd.slba / s.ftl.zoneLbas < 2 ^ 32 →
        s.ftl.WriteSound cmd nsecsStart → s.ftl.WriteAnswers cmd)) ∧
    ∀ cmd : ZnsRwCommand,
      (s.ftl.InRange cmd.slba → s.ftl.ReadSound cmd nsecsStart) ∧
      (cmd.slba / s.ftl.zoneLbas < 2 ^ 32 →
        s.ftl.ReadSound cmd nsecsStart → s.ftl.InRange cmd.slba) := by
  obtain ⟨hshaped, leak, hinv⟩ := znsRuns_settled.reachable h
  have hn := hinv.tallied.nrZones_lt
  refine ⟨fun cmd => ⟨?_, fun hfits => ?_⟩, fun cmd => ⟨fun hcmd => ?_, fun hfits => ?_⟩,
    fun cmd => ⟨?_, fun hfits => ?_⟩⟩
  · exact hinv.send_sound nsecsStart
  · exact (hinv.sendSound_iff nsecsStart hfits).mp
  · exact (hinv.writeSound_iff hshaped nsecsStart (hcmd.1.fits hn)).mpr hcmd
  · exact (hinv.writeSound_iff hshaped nsecsStart hfits).mp
  · exact hinv.read_sound hshaped nsecsStart
  · exact (hinv.readSound_iff hshaped nsecsStart hfits).mp

end Runs

/-! ## A fresh ZN540 -/

theorem FreshZns.inRange_two {s : ZnsRun} (h : FreshZns wdZn540 twoZones s.ftl) {slba : Nat} :
    s.ftl.InRange slba ↔ slba / 4194304 < 2 := by
  have hzones : s.ftl.zp.nrZones = 2 := by
    rw [h.zp]
    decide
  unfold ZnsFtl.InRange
  rw [h.zoneLbas_two, hzones]

/-- An open, a write and a read of the first zone. -/
theorem zone_commands_answer_two : ∃ s, (znsRuns wdZn540 twoZones fun _ => 0).Reachable s ∧
    s.ftl.SendSound (openCmd 0 false (by decide)) 0 ∧ s.ftl.WriteSound firstPage 0 ∧
    s.ftl.ReadSound firstPage 0 := by
  obtain ⟨s, hinit, hfresh⟩ := @exists_freshZns wdZn540 twoZones (fun _ => 0) (by decide) (by decide)
  have hrange : s.ftl.InRange 0 := hfresh.inRange_two.mpr (by decide)
  obtain ⟨hsend, hwrite, hread⟩ := zone_commands_answer 0 (.init hinit)
  refine ⟨s, .init hinit, (hsend _).1 ⟨⟨nofun, fun _ => hrange⟩, ?_⟩, (hwrite _).1 ⟨hrange, ?_⟩,
    (hread _).1 hrange⟩
  · exact fun hdiv => nomatch hdiv.2.1
  · have hav : (s.ftl.zoneDescs (s.ftl.target firstPage)).zrwav = false := by
      rw [hfresh.zoneDescs]
      rfl
    rw [hav, if_neg Bool.false_ne_true, (hfresh.targetBuffer_two (by decide)).2]
    decide

/-- Close the zone behind the last one. -/
def closeBehind : ZoneMgmtSend :=
  { slba := 8388608, zsa := .closeZone, selectAll := false, zsaso := false, slba_lt := twoZones_end_lt }

/-- An action the handler does not know. -/
def unknownAction : ZoneMgmtSend :=
  { slba := 0, zsa := .other, selectAll := false, zsaso := false, slba_lt := zero_lt_u64 }

/-- Reset the zone 2³², whose number is cut to 0. -/
def resetCut : ZoneMgmtSend :=
  { slba := 2 ^ 54, zsa := .resetZone, selectAll := false, zsaso := false, slba_lt := by decide }

/-- On a fresh ZN540 none of the three is sound: the first reads a descriptor that is not there, the
second returns a status nobody set, and the third resets the first zone. -/
theorem zone_commands_unsound_two : ∃ s, (znsRuns wdZn540 twoZones fun _ => 0).Reachable s ∧
    ¬ s.ftl.SendSound closeBehind 0 ∧ ¬ s.ftl.SendSound unknownAction 0 ∧
    ¬ s.ftl.SendSound resetCut 0 := by
  obtain ⟨s, hinit, hfresh⟩ := @exists_freshZns wdZn540 twoZones (fun _ => 0) (by decide) (by decide)
  have hlbas := hfresh.zoneLbas_two
  refine ⟨s, .init hinit, ?_, ?_, ?_⟩
  · rw [hfresh.inv.sendSound_iff 0 (by rw [hlbas]; decide)]
    exact fun hanswers => absurd (hfresh.inRange_two.mp (hanswers.1.2 rfl)) (by decide)
  · rw [hfresh.inv.sendSound_iff 0 (by rw [hlbas]; decide)]
    exact fun hanswers => hanswers.1.1 rfl
  · intro hsound
    have hzone : s.ftl.lbaToZone resetCut.slba = 0 := by
      unfold ZnsFtl.lbaToZone
      rw [hlbas]
      decide
    have hempty : (s.ftl.zoneDescs 0).state = .empty := by
      rw [hfresh.zoneDescs]
      rfl
    have hreset : s.ftl.znsZmgmtSend resetCut 0 = pure ((s.ftl.emptyZone 0).1,
        { status := nvmeScSuccess, nsecsTarget := 0 }) := by
      have hin : ¬ (s.ftl.zp.nrZones ≤ 0 ∧ ZoneSendAction.resetZone ≠ .other) := by
        rw [hfresh.zp]
        decide
      have hone : s.ftl.zmgmtSendOne resetCut.slba .resetZone false =
          pure ((s.ftl.emptyZone 0).1, nvmeScSuccess) := by
        unfold ZnsFtl.zmgmtSendOne ZnsFtl.zmgmtSendResetZone
        dsimp only
        rw [hzone, if_neg hin, hempty]
        rfl
      have hfold : s.ftl.znsZmgmtSend resetCut 0 =
          s.ftl.zmgmtSendOne resetCut.slba .resetZone false >>= fun r =>
            pure (r.1, { status := r.2, nsecsTarget := 0 }) := rfl
      rw [hfold, hone]
      rfl
    obtain ⟨r, env', hrun, hwell, _⟩ := hsound Env.zero
    rw [hreset] at hrun
    have hr := run_pure hrun
    have hbehind : ¬ s.ftl.SendValid resetCut := fun hvalid =>
      absurd (hfresh.inRange_two.mp (hvalid.2 rfl)) (by decide)
    apply hwell.invalid hbehind
    rw [hr]

end NvmeVirt

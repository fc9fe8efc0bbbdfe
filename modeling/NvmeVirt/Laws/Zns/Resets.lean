import NvmeVirt.Laws.Zns.Storage

/-!
# What a reset does to the storage

The zones a command resets are filled with zeros, and every other byte stays as it is; a command
that resets no zone leaves the storage alone.

`Zeroed` composes (`Zeroed.trans`), so that the loop of `select_all` is one zone after the other
(`sendAll_resets`). Which zones a command empties is read in the state it finds
(`znsProcNvmeIoCmd_empties`).

A reset does not wait for writes whose data is still to be copied; that is up to `Laws/Io/ZoneData`.
-/

set_option autoImplicit false

namespace NvmeVirt

open Outcome

namespace ZnsFtl

variable (ftl : ZnsFtl)

/-- The byte lies in the zone. -/
def InZone (z a : Nat) : Prop := z * ftl.zp.zoneSize ≤ a ∧ a < z * ftl.zp.zoneSize + ftl.zp.zoneSize

/-- The zones of `P` are zero in `storage`, and the rest is as it was. -/
structure Zeroed (P : Nat → Prop) (storage : Nat → Nat) : Prop where
  inside : ∀ z, P z → ∀ a, ftl.InZone z a → storage a = 0
  outside : ∀ a, (∀ z, P z → ¬ ftl.InZone z a) → storage a = ftl.storage a

variable {ftl} {ftl' : ZnsFtl} {P Q : Nat → Prop} {storage : Nat → Nat} {slba zid : Nat}
  {action : ZoneSendAction} {option : Bool}

/-- No zone is reset. -/
theorem Zeroed.refl (hP : ∀ z, ¬ P z) : ftl.Zeroed P ftl.storage :=
  ⟨fun z hz => absurd hz (hP z), fun _ _ => rfl⟩

/-- The zones, in other words. -/
theorem Zeroed.congr (h : ftl.Zeroed P storage) (hPQ : ∀ z, P z ↔ Q z) : ftl.Zeroed Q storage := by
  rw [← funext fun z => propext (hPQ z)]
  exact h

theorem inZone_congr (hzp : ftl'.zp = ftl.zp) (z a : Nat) : ftl'.InZone z a ↔ ftl.InZone z a := by
  unfold InZone
  rw [hzp]

/-- Zones that are zero stay so when others are filled with zeros. -/
theorem Zeroed.trans (h : ftl.Zeroed P ftl'.storage) (hzp : ftl'.zp = ftl.zp)
    (h' : ftl'.Zeroed Q storage) : ftl.Zeroed (fun z => P z ∨ Q z) storage := by
  constructor
  · intro z hz a ha
    by_cases hQ : ∃ z', Q z' ∧ ftl.InZone z' a
    · obtain ⟨z', hz', hin⟩ := hQ
      exact h'.inside z' hz' a ((inZone_congr hzp z' a).mpr hin)
    · rw [h'.outside a fun z' hz' hin => hQ ⟨z', hz', (inZone_congr hzp z' a).mp hin⟩]
      have hP : P z := hz.resolve_right fun hq => hQ ⟨z, hq, ha⟩
      exact h.inside z hP a ha
  · intro a ha
    rw [h'.outside a fun z hz hin => ha z (.inr hz) ((inZone_congr hzp z a).mp hin)]
    exact h.outside a fun z hz => ha z (.inl hz)

/-! ## One zone -/

/-- What a zone management action leaves alone on the way. -/
structure Passes (ftl ftl' : ZnsFtl) : Prop where
  zp : ftl'.zp = ftl.zp
  ssd : ftl'.ssd = ftl.ssd
  canReset : ∀ z, (ftl'.zoneDescs z).state.canReset = (ftl.zoneDescs z).state.canReset

/-- The resources a reset gives back first change nothing else. -/
theorem emptyZone_resets {mid : ZnsFtl} (hzp : mid.zp = ftl.zp) (hssd : mid.ssd = ftl.ssd)
    (hdescs : mid.zoneDescs = ftl.zoneDescs) (hstorage : mid.storage = ftl.storage)
    (hcan : (ftl.zoneDescs zid).state.canReset = true) :
    ftl.Passes (mid.emptyZone zid).1 ∧
      ftl.Zeroed (fun z => z = zid ∧ (ftl.zoneDescs z).state.canReset = true)
        (mid.emptyZone zid).1.storage := by
  have hend : (mid.emptyZone zid).1.zp = ftl.zp ∧ (mid.emptyZone zid).1.ssd = ftl.ssd ∧
      (mid.emptyZone zid).1.zoneDescs =
        Function.update ftl.zoneDescs zid (ftl.zoneDescs zid).reset ∧
      (mid.emptyZone zid).1.storage =
        memset ftl.storage (zid * ftl.zp.zoneSize) 0 ftl.zp.zoneSize := by
    by_cases hbuffer : ftl.zp.zrwaBufferSize = 0
    · simp [emptyZone, resetZone, getStorageAddrFromZid, setZoneDesc, changeZoneState,
        ZoneDescriptor.reset, hzp, hssd, hdescs, hstorage, hbuffer]
    · simp [emptyZone, resetZone, getStorageAddrFromZid, setZoneDesc, setBuffer, changeZoneState,
        ZoneDescriptor.reset, hzp, hssd, hdescs, hstorage, hbuffer]
  obtain ⟨hzp', hssd', hdescs', hstorage'⟩ := hend
  refine ⟨⟨hzp', hssd', fun z => ?_⟩, ⟨?_, fun a ha => ?_⟩⟩
  · rw [hdescs']
    by_cases hz : z = zid
    · subst hz
      rw [Function.update_self, hcan]
      rfl
    · rw [Function.update_of_ne hz]
  · rintro z ⟨rfl, _⟩ a ha
    rw [hstorage']
    exact if_pos ha
  · rw [hstorage']
    exact if_neg (ha zid ⟨rfl, hcan⟩)

/-- A reset of one zone. -/
theorem zmgmtSendResetZone_resets (ftl : ZnsFtl) (zid : Nat) :
    ftl.Passes (ftl.zmgmtSendResetZone zid).1 ∧
      ftl.Zeroed (fun z => z = zid ∧ (ftl.zoneDescs z).state.canReset = true)
        (ftl.zmgmtSendResetZone zid).1.storage := by
  have hstays : (ftl.zoneDescs zid).state.canReset = false → ftl.Passes ftl ∧
      ftl.Zeroed (fun z => z = zid ∧ (ftl.zoneDescs z).state.canReset = true) ftl.storage := by
    refine fun hcan => ⟨⟨rfl, rfl, fun _ => rfl⟩, .refl ?_⟩
    rintro z ⟨rfl, hz⟩
    exact absurd (hcan.symm.trans hz) Bool.false_ne_true
  unfold zmgmtSendResetZone
  cases hs : (ftl.zoneDescs zid).state with
  | openedImpl | openedExpl =>
    have hframe := (Frame.release zid ftl .openZone).trans (.releaseActive ..)
    exact emptyZone_resets hframe.zp hframe.ssd (releaseActive_zoneDescs ..)
      (releaseActive_storage _) (by rw [hs]; rfl)
  | closed =>
    have hframe := Frame.releaseActive zid ftl
    exact emptyZone_resets hframe.zp hframe.ssd (releaseActive_zoneDescs ..)
      (releaseActive_storage _) (by rw [hs]; rfl)
  | full | empty => exact emptyZone_resets rfl rfl rfl rfl (by rw [hs]; rfl)
  | readOnly | offline => exact hstays (by rw [hs]; rfl)

/-- The same by its command. -/
theorem zmgmtSendOne_resets (ftl : ZnsFtl) (slba : Nat) (option : Bool) :
    Ensures (fun _ => True) (ftl.zmgmtSendOne slba .resetZone option) fun r =>
      ftl.Passes r.1 ∧ ftl.Zeroed (fun z => z = ftl.lbaToZone slba ∧
        (ftl.zoneDescs z).state.canReset = true) r.1.storage := by
  unfold zmgmtSendOne
  apply Ensures.ite
  · exact fun _ => .throw trivial
  · exact fun _ => .pure (zmgmtSendResetZone_resets ..)

/-- Any other action. -/
theorem zmgmtSendOne_keeps (h : action ≠ .resetZone) :
    KeepsStorage ftl (ftl.zmgmtSendOne slba action option) := by
  unfold zmgmtSendOne
  apply Ensures.ite
  · exact fun _ => .throw trivial
  intro _
  cases action with
  | closeZone => exact .pure (zmgmtSendCloseZone_storage _)
  | finishZone => exact .pure (zmgmtSendFinishZone_storage _)
  | openZone => exact .pure (zmgmtSendOpenZone_storage ..)
  | resetZone => exact absurd rfl h
  | offlineZone => exact .pure (zmgmtSendOfflineZone_storage _)
  | flushExplZrwa => exact flushExplicitZrwa_storage slba
  | other => exact Ensures.any.bind fun _ _ => .pure rfl

/-! ## Commands -/

/-- The loop of `select_all`, pass by pass. -/
theorem sendAll_resets (ftl : ZnsFtl) (option : Bool) : Ensures (fun _ => True)
    (forRange ftl.zp.nrZones ftl fun zid ftl => do
      let (ftl, _) ← ftl.zmgmtSendOne (ftl.zoneToSlba zid) .resetZone option
      pure ftl)
    (fun ftl' => ftl.Zeroed (fun z => (∃ j, j < ftl.zp.nrZones ∧
      z = ftl.lbaToZone (ftl.zoneToSlba j)) ∧ (ftl.zoneDescs z).state.canReset = true)
      ftl'.storage) := by
  have hloop := @Ensures.forRange Env Fault ZnsFtl (fun _ => True) (fun i ftl' => ftl.Passes ftl' ∧
    ftl.Zeroed (fun z => (∃ j, j < i ∧ z = ftl.lbaToZone (ftl.zoneToSlba j)) ∧
      (ftl.zoneDescs z).state.canReset = true) ftl'.storage) ftl.zp.nrZones ftl
    (fun zid ftl => do
      let (ftl, _) ← ftl.zmgmtSendOne (ftl.zoneToSlba zid) .resetZone option
      pure ftl) ?_ ?_
  · exact hloop.mono fun _ h => h.2
  · exact ⟨⟨rfl, rfl, fun _ => rfl⟩, .refl fun z hz => by
      obtain ⟨⟨j, hj, _⟩, _⟩ := hz
      exact absurd hj (Nat.not_lt_zero j)⟩
  · intro i _ mid ⟨hpass, hzeroed⟩
    have hslba : mid.zoneToSlba = ftl.zoneToSlba := by
      funext zid
      unfold zoneToSlba zoneLbas
      rw [hpass.zp, hpass.ssd]
    have hzone : mid.lbaToZone = ftl.lbaToZone := by
      funext lba
      unfold lbaToZone zoneLbas
      rw [hpass.zp, hpass.ssd]
    apply (zmgmtSendOne_resets mid (mid.zoneToSlba i) option).bind
    rintro ⟨last, _⟩ ⟨hlast, hfilled⟩
    refine .pure ⟨⟨hlast.zp.trans hpass.zp, hlast.ssd.trans hpass.ssd,
      fun z => (hlast.canReset z).trans (hpass.canReset z)⟩, ?_⟩
    refine (hzeroed.trans hpass.zp hfilled).congr fun z => ?_
    rw [hslba, hzone, hpass.canReset z]
    constructor
    · rintro (⟨⟨j, hj, hz⟩, hcan⟩ | ⟨hz, hcan⟩)
      · exact ⟨⟨j, Nat.lt_succ_of_lt hj, hz⟩, hcan⟩
      · exact ⟨⟨i, Nat.lt_succ_self i, hz⟩, hcan⟩
    · rintro ⟨⟨j, hj, hz⟩, hcan⟩
      rcases Nat.lt_succ_iff_lt_or_eq.mp hj with hlt | rfl
      · exact .inl ⟨⟨j, hlt, hz⟩, hcan⟩
      · exact .inr ⟨hz, hcan⟩

/-- The zones a command empties. -/
def Empties (ftl : ZnsFtl) : ZnsCommand → Nat → Prop
  | .zoneMgmtSend cmd, z => ftl.Resets cmd z
  | _, _ => False

/-- One zone, or all of them. -/
theorem znsZmgmtSend_resets (ftl : ZnsFtl) (cmd : ZoneMgmtSend) (nsecsStart : Nat) :
    Ensures (fun _ => True) (ftl.znsZmgmtSend cmd nsecsStart) fun r =>
      ftl.Zeroed (ftl.Resets cmd) r.1.storage := by
  by_cases hreset : cmd.zsa = .resetZone
  · unfold znsZmgmtSend
    rw [hreset]
    apply Ensures.ite
    · intro hall
      apply (sendAll_resets ftl cmd.zsaso).bind
      intro ftl' hzeroed
      refine .pure (hzeroed.congr fun z => ?_)
      unfold Resets addressed
      rw [if_pos hall]
      exact ⟨fun h => ⟨hreset, h⟩, fun h => h.2⟩
    · intro hone
      apply (zmgmtSendOne_resets ftl cmd.slba cmd.zsaso).bind
      rintro ⟨ftl', status⟩ ⟨_, hzeroed⟩
      refine .pure (hzeroed.congr fun z => ?_)
      unfold Resets addressed
      rw [if_neg hone]
      exact ⟨fun h => ⟨hreset, h⟩, fun h => h.2⟩
  · have hnone : ∀ z, ¬ ftl.Resets cmd z := fun z hz => hreset hz.1
    suffices hkeeps : KeepsStorage ftl (ftl.znsZmgmtSend cmd nsecsStart) from
      hkeeps.mono fun r hr => by
        rw [show r.1.storage = ftl.storage from hr]
        exact .refl hnone
    unfold znsZmgmtSend
    apply Ensures.ite
    · intro _
      apply Ensures.bind (P := fun ftl' : ZnsFtl => ftl'.storage = ftl.storage)
      · refine Ensures.forRange (I := fun _ (ftl' : ZnsFtl) => ftl'.storage = ftl.storage) rfl ?_
        intro i _ mid hmid
        apply (zmgmtSendOne_keeps hreset).bind
        exact fun _ hlast => .pure (hlast.trans hmid)
      · exact fun _ h => .pure h
    · intro _
      apply (zmgmtSendOne_keeps hreset).bind
      exact fun _ h => .pure h

/-- A command fills the zones it empties with zeros, and leaves the other bytes alone. -/
theorem znsProcNvmeIoCmd_empties (ftl : ZnsFtl) (cmd : ZnsCommand) (nsecsStart : Nat) :
    Ensures (fun _ => True) (ftl.znsProcNvmeIoCmd cmd nsecsStart) fun r =>
      ftl.Zeroed (ftl.Empties cmd) r.1.storage := by
  have hkeeps : ∀ {ftl' : ZnsFtl}, (∀ z, ¬ ftl.Empties cmd z) → ftl'.storage = ftl.storage →
      ftl.Zeroed (ftl.Empties cmd) ftl'.storage := by
    intro ftl' hnone hsame
    rw [hsame]
    exact .refl hnone
  unfold znsProcNvmeIoCmd
  cases cmd with
  | write cmd => exact (znsWrite_storage _).mono fun _ hr => hkeeps (fun _ => id) hr
  | read cmd => exact (znsRead_storage _).mono fun _ hr => hkeeps (fun _ => id) hr
  | flush => exact Ensures.any.bind fun _ _ => .pure (hkeeps (fun _ => id) rfl)
  | zoneMgmtSend cmd =>
    apply (znsZmgmtSend_resets ftl cmd nsecsStart).bind
    exact fun _ hr => .pure hr
  | zoneMgmtRecv cmd => exact .pure (hkeeps (fun _ => id) rfl)
  | other => exact .pure (hkeeps (fun _ => id) rfl)

end ZnsFtl

end NvmeVirt

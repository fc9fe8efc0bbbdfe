import NvmeVirt.Laws.Zns.Resources

/-!
# What a zone management action does to its zone

`ZoneMove` lists the transitions of one zone, by the action that takes it there. Each action of
`zns_mgmt_send.c` makes such a move and leaves the counters with what the zone holds afterwards: it
is `Acted`. The other zones and their buffers are left alone, which is the `Frame` of the zone.

What an action gives up or takes depends on what the zone holds in its state, so the proofs go by
the state of the zone, as the code's `switch` does; `Tallied.freeOpen`, `Tallied.freeClosed` and
`Tallied.freeIdle` are the three ways to give up what is held, shared by finish and reset. Opening
is the one action that can run out of resources.

Which of the moves the standard allows is not asked; `ZoneMove` is what the code does.
-/

set_option autoImplicit false

namespace NvmeVirt

open Outcome

/-- The states `__zmgmt_send_reset_zone` empties a zone from. -/
def ZoneState.canReset : ZoneState → Bool
  | .readOnly | .offline => false
  | _ => true

/-- The descriptor after `__reset_zone`. -/
def ZoneDescriptor.reset (d : ZoneDescriptor) : ZoneDescriptor :=
  { d with state := .empty, wp := d.zslba, zrwav := false }

/-- The transitions of a zone under a zone management action with its option. -/
inductive ZoneMove : ZoneSendAction → Bool → ZoneDescriptor → ZoneDescriptor → Prop where
  | stay {action : ZoneSendAction} {option : Bool} {d : ZoneDescriptor} :
    (action = .resetZone → d.state.canReset = false) → ZoneMove action option d d
  | close {option : Bool} {d : ZoneDescriptor} :
    d.state.isOpen = true → ZoneMove .closeZone option d { d with state := .closed }
  | finish {option : Bool} {d : ZoneDescriptor} :
    d.state.isActive = true ∨ d.state = .empty →
    ZoneMove .finishZone option d { d with state := .full }
  | open {option : Bool} {d : ZoneDescriptor} :
    d.state = .empty ∧ option = false ∨ d.state = .closed ∨ d.state = .openedImpl →
    ZoneMove .openZone option d { d with state := .openedExpl }
  | openZrwa {d : ZoneDescriptor} :
    d.state = .empty → ZoneMove .openZone true d { d with state := .openedExpl, zrwav := true }
  | reset {option : Bool} {d : ZoneDescriptor} :
    d.state.canReset = true → ZoneMove .resetZone option d d.reset
  | offline {option : Bool} {d : ZoneDescriptor} :
    d.state = .readOnly → ZoneMove .offlineZone option d { d with state := .offline }
  | commit {option : Bool} {d : ZoneDescriptor} {wp : Nat} {state : ZoneState} :
    d.zrwav = true → d.state.isActive = true → state = d.state ∨ state = .full →
    ZoneMove .flushExplZrwa option d { d with wp, state }

/-! ## Frames -/

/-- What an operation on the zone `zid` leaves alone. -/
structure Frame (zid : Nat) (ftl ftl' : ZnsFtl) : Prop where
  zp : ftl'.zp = ftl.zp
  ssd : ftl'.ssd = ftl.ssd
  others : ∀ z, z ≠ zid → ftl'.zoneDescs z = ftl.zoneDescs z
  buffers : ∀ id, id ≠ .zrwa zid → ftl'.buffers id = ftl.buffers id

section Frame

variable {ftl ftl' ftl'' : ZnsFtl} {zid : Nat}

theorem Frame.refl (zid : Nat) (ftl : ZnsFtl) : Frame zid ftl ftl :=
  ⟨rfl, rfl, fun _ _ => rfl, fun _ _ => rfl⟩

theorem Frame.trans (h : Frame zid ftl ftl') (h' : Frame zid ftl' ftl'') : Frame zid ftl ftl'' where
  zp := h'.zp.trans h.zp
  ssd := h'.ssd.trans h.ssd
  others z hz := (h'.others z hz).trans (h.others z hz)
  buffers id hid := (h'.buffers id hid).trans (h.buffers id hid)

theorem Frame.setZoneDesc (zid : Nat) (ftl : ZnsFtl) (d : ZoneDescriptor) :
    Frame zid ftl (ftl.setZoneDesc zid d) :=
  ⟨rfl, rfl, fun _ hz => Function.update_of_ne hz .., fun _ _ => rfl⟩

theorem Frame.setResInfo (zid : Nat) (ftl : ZnsFtl) (type : ZoneResourceType)
    (info : ZoneResourceInfo) : Frame zid ftl (ftl.setResInfo type info) :=
  ⟨rfl, rfl, fun _ _ => rfl, fun _ _ => rfl⟩

theorem Frame.setZrwaBuffer (zid : Nat) (ftl : ZnsFtl) (buf : Buffer) :
    Frame zid ftl (ftl.setBuffer (.zrwa zid) buf) :=
  ⟨rfl, rfl, fun _ _ => rfl, fun _ hid => Function.update_of_ne hid ..⟩

theorem Frame.release (zid : Nat) (ftl : ZnsFtl) (type : ZoneResourceType) :
    Frame zid ftl (ftl.releaseZoneResource type) := .setResInfo ..

@[simp] theorem ZnsFtl.setZoneDesc_self (ftl : ZnsFtl) (zid : Nat) (d : ZoneDescriptor) :
    (ftl.setZoneDesc zid d).zoneDescs zid = d := Function.update_self ..

@[simp] theorem ZnsFtl.changeZoneState_self (ftl : ZnsFtl) (zid : Nat) (state : ZoneState) :
    (ftl.changeZoneState zid state).zoneDescs zid = { ftl.zoneDescs zid with state } :=
  Function.update_self ..

@[simp] theorem ZnsFtl.setBuffer_self (ftl : ZnsFtl) (id : BufferId) (buf : Buffer) :
    (ftl.setBuffer id buf).buffers id = buf := Function.update_self ..

@[simp] theorem ZnsFtl.releaseZoneResource_zoneDescs (ftl : ZnsFtl) (type : ZoneResourceType) :
    (ftl.releaseZoneResource type).zoneDescs = ftl.zoneDescs := rfl

end Frame

/-! ## Operations that have ended -/

/-- An operation on the zone `zid` has ended with the descriptor `d`, and the counters say so. -/
structure Ended (leak zid : Nat) (d : ZoneDescriptor) (ftl ftl' : ZnsFtl) : Prop where
  frame : Frame zid ftl ftl'
  desc : ftl'.zoneDescs zid = d
  charged : Charged leak zid d.holds ftl'

/-- What an action made of its zone. -/
def Acted (leak zid : Nat) (action : ZoneSendAction) (option : Bool) (ftl ftl' : ZnsFtl) : Prop :=
  ∃ d, ZoneMove action option (ftl.zoneDescs zid) d ∧ Ended leak zid d ftl ftl'

section Actions

variable {ftl ftl' : ZnsFtl} {leak zid : Nat} {held held' : ZoneResourceType → Bool}
  {d : ZoneDescriptor} {action : ZoneSendAction} {option : Bool}

/-- What is held may be described in any way that agrees kind by kind. -/
theorem Charged.to (h : Charged leak zid held ftl) (hheld : ∀ k, held k = held' k) :
    Charged leak zid held' ftl := by
  rw [← funext hheld]
  exact h

theorem Acted.of (hmove : ZoneMove action option (ftl.zoneDescs zid) d)
    (hend : Ended leak zid d ftl ftl') : Acted leak zid action option ftl ftl' := ⟨d, hmove, hend⟩

/-- The command was refused. -/
theorem Acted.stay (h : Charged leak zid (ftl.zoneDescs zid).holds ftl)
    (hact : action = .resetZone → (ftl.zoneDescs zid).state.canReset = false) :
    Acted leak zid action option ftl ftl := ⟨_, .stay hact, .refl .., rfl, h⟩

/-- Closing an open zone gives up the open resource. -/
theorem Tallied.closeZone (h : Tallied leak ftl) (hz : zid < ftl.zp.nrZones) :
    Acted leak zid .closeZone option ftl (ftl.zmgmtSendCloseZone zid).1 := by
  have hc := h.charged hz
  have hclose : (ftl.zoneDescs zid).state.isOpen = true →
      Acted leak zid .closeZone option ftl
        ((ftl.changeZoneState zid .closed).releaseZoneResource .openZone) := by
    intro hopen
    apply Acted.of (.close hopen)
    constructor
    · exact (Frame.setZoneDesc ..).trans (.release ..)
    · simp
    · apply ((hc.changeZoneState .closed).release (T := .openZone) hopen).to
      intro k
      cases hs : (ftl.zoneDescs zid).state <;> cases k <;>
        simp_all [ZoneDescriptor.holds, ZoneState.isOpen, ZoneState.isActive]
  unfold ZnsFtl.zmgmtSendCloseZone
  cases hs : (ftl.zoneDescs zid).state with
  | openedImpl => exact hclose (by rw [hs]; rfl)
  | openedExpl => exact hclose (by rw [hs]; rfl)
  | closed | empty | full | readOnly | offline =>
    exact .stay hc fun hreset => ZoneSendAction.noConfusion hreset

/-- An active zone gives back what it holds besides the open resource. -/
theorem Charged.releaseActive (h : Charged leak zid held ftl) (hactive : held .activeZone = true)
    (hzrwa : held .zrwaZone = (ftl.zoneDescs zid).zrwav) :
    Charged leak zid (Function.update (Function.update held .activeZone false) .zrwaZone false)
      (ftl.releaseActive zid) := by
  unfold ZnsFtl.releaseActive
  have hrel := h.release hactive
  dsimp only
  split
  · rename_i hav
    apply hrel.release
    rw [Function.update_of_ne (by decide), hzrwa, hav]
  · rename_i hav
    apply hrel.to
    intro k
    cases k with
    | activeZone => rfl
    | openZone => rfl
    | zrwaZone =>
      rw [Function.update_of_ne (by decide), Function.update_self, hzrwa]
      exact Bool.eq_false_iff.mpr hav

theorem Frame.releaseActive (zid : Nat) (ftl : ZnsFtl) : Frame zid ftl (ftl.releaseActive zid) := by
  unfold ZnsFtl.releaseActive
  dsimp only
  split
  · exact (Frame.release ..).trans (.release ..)
  · exact .release ..

@[simp] theorem ZnsFtl.releaseActive_zoneDescs (ftl : ZnsFtl) (zid : Nat) :
    (ftl.releaseActive zid).zoneDescs = ftl.zoneDescs := by
  unfold ZnsFtl.releaseActive
  dsimp only
  split
  · rfl
  · rfl

/-- The part finish and reset share: an active zone holds nothing any more. -/
structure Freed (leak zid : Nat) (ftl ftl' : ZnsFtl) : Prop where
  frame : Frame zid ftl ftl'
  descs : ftl'.zoneDescs = ftl.zoneDescs
  charged : Charged leak zid (fun _ => false) ftl'

/-- An open zone gives up both resources. -/
theorem Tallied.freeOpen (h : Tallied leak ftl) (hz : zid < ftl.zp.nrZones)
    (hopen : (ftl.zoneDescs zid).state.isOpen = true) :
    Freed leak zid ftl ((ftl.releaseZoneResource .openZone).releaseActive zid) := by
  have hactive : (ftl.zoneDescs zid).state.isActive = true := by
    cases hs : (ftl.zoneDescs zid).state <;> simp_all [ZoneState.isOpen, ZoneState.isActive]
  constructor
  · exact (Frame.release ..).trans (.releaseActive ..)
  · simp
  · apply (((h.charged hz).release (T := .openZone) hopen).releaseActive _ _).to
    · intro k
      cases k <;> rfl
    · exact hactive
    · show ((ftl.zoneDescs zid).zrwav && (ftl.zoneDescs zid).state.isActive) = _
      rw [hactive, Bool.and_true]
      rfl

/-- A closed zone gives up the active one. -/
theorem Tallied.freeClosed (h : Tallied leak ftl) (hz : zid < ftl.zp.nrZones)
    (hclosed : (ftl.zoneDescs zid).state = .closed) :
    Freed leak zid ftl (ftl.releaseActive zid) := by
  have hactive : (ftl.zoneDescs zid).state.isActive = true := by rw [hclosed]; rfl
  constructor
  · exact .releaseActive ..
  · simp
  · apply ((h.charged hz).releaseActive hactive _).to
    · intro k
      cases k with
      | activeZone => rfl
      | zrwaZone => rfl
      | openZone =>
        show (ftl.zoneDescs zid).state.isOpen = false
        rw [hclosed]
        rfl
    · show ((ftl.zoneDescs zid).zrwav && (ftl.zoneDescs zid).state.isActive) = _
      rw [hactive, Bool.and_true]

/-- A zone that is not active has nothing to give up. -/
theorem Tallied.freeIdle (h : Tallied leak ftl) (hz : zid < ftl.zp.nrZones)
    (hidle : (ftl.zoneDescs zid).state.isActive = false) : Freed leak zid ftl ftl := by
  refine ⟨.refl .., rfl, (h.charged hz).to fun k => ?_⟩
  cases hs : (ftl.zoneDescs zid).state <;> cases k <;>
    simp_all [ZoneDescriptor.holds, ZoneState.isOpen, ZoneState.isActive]

/-- A zone that holds nothing becomes FULL. -/
theorem Freed.finish (h : Freed leak zid ftl ftl') :
    Ended leak zid { ftl.zoneDescs zid with state := .full } ftl (ftl'.changeZoneState zid .full) := by
  constructor
  · exact h.frame.trans (.setZoneDesc ..)
  · rw [ZnsFtl.changeZoneState_self, h.descs]
  · apply (h.charged.changeZoneState .full).to
    intro k
    cases k <;> simp [ZoneDescriptor.holds, ZoneState.isOpen, ZoneState.isActive]

/-- Finishing takes any zone that is not read only or offline to FULL. -/
theorem Tallied.finishZone (h : Tallied leak ftl) (hz : zid < ftl.zp.nrZones) :
    Acted leak zid .finishZone option ftl (ftl.zmgmtSendFinishZone zid).1 := by
  unfold ZnsFtl.zmgmtSendFinishZone
  cases hs : (ftl.zoneDescs zid).state with
  | openedImpl =>
    exact ⟨_, .finish (.inl (by rw [hs]; rfl)), (h.freeOpen hz (by rw [hs]; rfl)).finish⟩
  | openedExpl =>
    exact ⟨_, .finish (.inl (by rw [hs]; rfl)), (h.freeOpen hz (by rw [hs]; rfl)).finish⟩
  | closed => exact ⟨_, .finish (.inl (by rw [hs]; rfl)), (h.freeClosed hz hs).finish⟩
  | empty => exact ⟨_, .finish (.inr hs), (h.freeIdle hz (by rw [hs]; rfl)).finish⟩
  | full | readOnly | offline =>
    exact .stay (h.charged hz) fun hreset => ZoneSendAction.noConfusion hreset

/-- A zone that holds nothing is emptied. -/
theorem Freed.empty (h : Freed leak zid ftl ftl') :
    Ended leak zid (ftl.zoneDescs zid).reset ftl (ftl'.emptyZone zid).1 := by
  have hcharged : Charged leak zid (ftl.zoneDescs zid).reset.holds ftl' := by
    apply h.charged.to
    intro k
    cases k <;>
      simp [ZoneDescriptor.reset, ZoneDescriptor.holds, ZoneState.isOpen, ZoneState.isActive]
  have hmid : Frame zid ftl (ftl'.changeZoneState zid .empty) := h.frame.trans (.setZoneDesc ..)
  have hstore : ∀ storage, Frame zid (ftl'.changeZoneState zid .empty)
      { ftl'.changeZoneState zid .empty with storage } :=
    fun _ => ⟨rfl, rfl, fun _ _ => rfl, fun _ _ => rfl⟩
  have hdesc : { (ftl'.changeZoneState zid .empty).zoneDescs zid with
      wp := ((ftl'.changeZoneState zid .empty).zoneDescs zid).zslba, zrwav := false } =
      (ftl.zoneDescs zid).reset := by
    rw [ZnsFtl.changeZoneState_self, h.descs]
    rfl
  unfold ZnsFtl.emptyZone ZnsFtl.resetZone
  dsimp only
  rw [hdesc]
  split
  · constructor
    · exact ((hmid.trans (hstore _)).trans (.setZoneDesc ..)).trans (.setZrwaBuffer ..)
    · exact ZnsFtl.setZoneDesc_self ..
    · exact hcharged.congr rfl rfl fun z hz => by
        show Function.update (Function.update _ _ _) _ _ z = _
        rw [Function.update_of_ne hz, Function.update_of_ne hz]
  · constructor
    · exact (hmid.trans (hstore _)).trans (.setZoneDesc ..)
    · exact ZnsFtl.setZoneDesc_self ..
    · exact hcharged.congr rfl rfl fun z hz => by
        show Function.update (Function.update _ _ _) _ _ z = _
        rw [Function.update_of_ne hz, Function.update_of_ne hz]

/-- A reset takes it to EMPTY. -/
theorem Tallied.resetZone (h : Tallied leak ftl) (hz : zid < ftl.zp.nrZones) :
    Acted leak zid .resetZone option ftl (ftl.zmgmtSendResetZone zid).1 := by
  unfold ZnsFtl.zmgmtSendResetZone
  cases hs : (ftl.zoneDescs zid).state with
  | openedImpl => exact ⟨_, .reset (by rw [hs]; rfl), (h.freeOpen hz (by rw [hs]; rfl)).empty⟩
  | openedExpl => exact ⟨_, .reset (by rw [hs]; rfl), (h.freeOpen hz (by rw [hs]; rfl)).empty⟩
  | closed => exact ⟨_, .reset (by rw [hs]; rfl), (h.freeClosed hz hs).empty⟩
  | full => exact ⟨_, .reset (by rw [hs]; rfl), (h.freeIdle hz (by rw [hs]; rfl)).empty⟩
  | empty => exact ⟨_, .reset (by rw [hs]; rfl), (h.freeIdle hz (by rw [hs]; rfl)).empty⟩
  | readOnly | offline => exact .stay (h.charged hz) fun _ => by rw [hs]; rfl

/-- Going offline takes no resource and gives none. -/
theorem Tallied.offlineZone (h : Tallied leak ftl) (hz : zid < ftl.zp.nrZones) :
    Acted leak zid .offlineZone option ftl (ftl.zmgmtSendOfflineZone zid).1 := by
  have hc := h.charged hz
  unfold ZnsFtl.zmgmtSendOfflineZone
  cases hs : (ftl.zoneDescs zid).state with
  | readOnly =>
    apply Acted.of (.offline hs)
    constructor
    · exact .setZoneDesc ..
    · simp
    · apply (hc.changeZoneState .offline).to
      intro k
      cases k <;> simp [ZoneDescriptor.holds, ZoneState.isOpen, ZoneState.isActive, hs]
  | offline | empty | openedImpl | openedExpl | closed | full =>
    exact .stay hc fun hreset => ZoneSendAction.noConfusion hreset

/-- A zone without the open resource gets it and is open. -/
theorem Charged.openExplicitly (h : Charged leak zid held ftl) (hfree : held .openZone = false)
    (hactive : held .activeZone = true) (hzrwa : held .zrwaZone = (ftl.zoneDescs zid).zrwav) :
    Ended leak zid { ftl.zoneDescs zid with state := .openedExpl } ftl (ftl.openExplicitly zid).1 := by
  obtain ⟨ftl', hacq, hc, info, rfl⟩ := h.acquire hfree (h.avail hfree rfl)
  unfold ZnsFtl.openExplicitly
  rw [hacq]
  constructor
  · exact (Frame.setResInfo ..).trans (.setZoneDesc ..)
  · exact ZnsFtl.changeZoneState_self ..
  · apply (hc.changeZoneState .openedExpl).to
    intro k
    cases k with
    | activeZone => exact hactive
    | openZone => rfl
    | zrwaZone => exact hzrwa.trans (Bool.and_true _).symm

/-- An EMPTY zone gets the active resource and is opened. -/
theorem Charged.activate (h : Charged leak zid held ftl) (hopen : held .openZone = false)
    (hfree : held .activeZone = false) (hzrwa : held .zrwaZone = (ftl.zoneDescs zid).zrwav) :
    Ended leak zid { ftl.zoneDescs zid with state := .openedExpl } ftl
      ((ftl.acquireZoneResource .activeZone).1.openExplicitly zid).1 := by
  obtain ⟨ftl', hacq, hc, info, rfl⟩ := h.acquire hfree (h.avail hfree rfl)
  rw [hacq]
  have hend := hc.openExplicitly hopen rfl hzrwa
  exact ⟨(Frame.setResInfo ..).trans hend.frame, hend.desc, hend.charged⟩

/-- An EMPTY zone is opened when there is a ZRWA unit for it or it asks for none. -/
theorem Charged.openEmpty (h : Charged leak zid (ftl.zoneDescs zid).holds ftl)
    (hs : (ftl.zoneDescs zid).state = .empty) (hav : (ftl.zoneDescs zid).zrwav = false)
    (havail : option = true →
      (ftl.resInfos .zrwaZone).acquiredCnt < (ftl.resInfos .zrwaZone).totalCnt) :
    Ended leak zid { ftl.zoneDescs zid with state := .openedExpl, zrwav := option } ftl
      (ftl.zmgmtSendOpenZone zid option).1 := by
  have hnone := ZoneDescriptor.holds_empty hs
  unfold ZnsFtl.zmgmtSendOpenZone
  rw [hs]
  dsimp only
  rw [h.not_full (hnone .activeZone) rfl, h.not_full (hnone .openZone) rfl,
    if_neg Bool.false_ne_true, if_neg Bool.false_ne_true]
  cases option with
  | true =>
    have hlt := havail rfl
    have hfull : ftl.isZoneResourceFull .zrwaZone = false := beq_false_of_ne (by omega)
    obtain ⟨ftl', hacq, hc, info, rfl⟩ := h.acquire (hnone .zrwaZone) hlt
    rw [if_pos rfl, hfull, if_neg Bool.false_ne_true, hacq]
    have hset := hc.setZoneDesc { ftl.zoneDescs zid with zrwav := true }
    have hend := hset.activate (hnone .openZone) (hnone .activeZone) (by simp)
    constructor
    · exact ((Frame.setResInfo ..).trans (.setZoneDesc ..)).trans hend.frame
    · exact hend.desc.trans (by simp)
    · have hch := hend.charged
      rw [ZnsFtl.setZoneDesc_self] at hch
      exact hch
  | false =>
    rw [if_neg Bool.false_ne_true, ← hav]
    exact h.activate (hnone .openZone) (hnone .activeZone) ((hnone .zrwaZone).trans hav.symm)

/-- Without the resource the open of an EMPTY zone with ZRWA is refused. -/
theorem Charged.openEmpty_refused (h : Charged leak zid (ftl.zoneDescs zid).holds ftl)
    (hs : (ftl.zoneDescs zid).state = .empty) (hfull : ftl.isZoneResourceFull .zrwaZone = true) :
    (ftl.zmgmtSendOpenZone zid true).1 = ftl := by
  have hnone := ZoneDescriptor.holds_empty hs
  unfold ZnsFtl.zmgmtSendOpenZone
  rw [hs]
  dsimp only
  rw [h.not_full (hnone .activeZone) rfl, h.not_full (hnone .openZone) rfl,
    if_neg Bool.false_ne_true, if_neg Bool.false_ne_true, if_pos rfl, if_pos hfull]

/-- Opening takes the resources the zone lacks, or refuses. -/
theorem Tallied.openZone (h : Tallied leak ftl) (hz : zid < ftl.zp.nrZones)
    (hempty : (ftl.zoneDescs zid).state = .empty → (ftl.zoneDescs zid).zrwav = false) :
    Acted leak zid .openZone option ftl (ftl.zmgmtSendOpenZone zid option).1 := by
  have hc := h.charged hz
  by_cases hs : (ftl.zoneDescs zid).state = .empty
  · cases option with
    | true =>
      by_cases hfull : ftl.isZoneResourceFull .zrwaZone = true
      · rw [hc.openEmpty_refused hs hfull]
        exact .stay hc fun hreset => ZoneSendAction.noConfusion hreset
      · -- the ZRWA resource is not full, and so available
        have hne : (ftl.resInfos .zrwaZone).acquiredCnt ≠ (ftl.resInfos .zrwaZone).totalCnt :=
          fun he => hfull (beq_iff_eq.mpr he)
        have hle := hc.bounded .zrwaZone
        exact .of (.openZrwa hs) (hc.openEmpty hs (hempty hs) fun _ => by omega)
    | false =>
      have hend := @Charged.openEmpty _ _ _ false hc hs (hempty hs) nofun
      have hd : { ftl.zoneDescs zid with state := .openedExpl, zrwav := false } =
          { ftl.zoneDescs zid with state := ZoneState.openedExpl } := by rw [← hempty hs]
      rw [hd] at hend
      exact .of (.open (.inl ⟨hs, rfl⟩)) hend
  unfold ZnsFtl.zmgmtSendOpenZone
  cases hs : (ftl.zoneDescs zid).state with
  | empty => exact absurd hs ‹_›
  | closed =>
    apply Acted.of (.open (.inr (.inl hs)))
    apply hc.openExplicitly
    · simp [ZoneDescriptor.holds, ZoneState.isOpen, hs]
    · simp [ZoneDescriptor.holds, ZoneState.isActive, hs]
    · simp [ZoneDescriptor.holds, ZoneState.isActive, hs]
  | openedImpl =>
    apply Acted.of (.open (.inr (.inr hs)))
    constructor
    · exact .setZoneDesc ..
    · simp
    · apply (hc.changeZoneState .openedExpl).to
      intro k
      cases k <;> simp [ZoneDescriptor.holds, ZoneState.isOpen, ZoneState.isActive, hs]
  | openedExpl | full | readOnly | offline =>
    exact .stay hc fun hreset => ZoneSendAction.noConfusion hreset

end Actions

end NvmeVirt

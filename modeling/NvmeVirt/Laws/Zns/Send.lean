import Mathlib.Logic.Relation
import NvmeVirt.Laws.Zns.Moves

/-!
# Zone management commands

A command addresses one zone, or with `select_all` the zones its loop comes by. Every zone it
addresses makes at least one move of the action, and the others stay as they are (`Sent`).

`ZnsInv.sendOne` is about one zone and follows the switch over the actions, `ZnsInv.sendAll` is the
loop, and `ZnsInv.send` the command. The loop calls the first function with the address of each
zone, which gives the zone back only where `zone_to_slba` does not wrap; so a zone can be addressed
more than once, and a move more does no harm (`Sent.trans`).

An explicit flush can divide by zero and a zone number can lie past `nr_zones`; both are faults
here, and each lemma names the condition under which they happen.
-/

set_option autoImplicit false

namespace NvmeVirt

open Outcome

/-- What holds of the zoned FTL between commands, with `leak` units of the ZRWA resource lost. -/
structure ZnsInv (leak : Nat) (ftl : ZnsFtl) : Prop where
  tallied : Tallied leak ftl
  idle : ∀ z, z < ftl.zp.nrZones → (ftl.zoneDescs z).state = .empty → (ftl.zoneDescs z).zrwav = false
  timed : ftl.ssd.Timed

/-- The code of `__zmgmt_send_flush_explicit_zrwa` gets to the remainder by `lbas_per_zrwafg`. -/
def ZnsFtl.FlushDivides (ftl : ZnsFtl) (slba : Nat) : Prop :=
  (ftl.zoneDescs (ftl.lbaToZone slba)).zrwav = true ∧
    (ftl.zoneDescs (ftl.lbaToZone slba)).wp ≤ slba ∧ slba ≤ ftl.zrwaEnd (ftl.lbaToZone slba)

section Zone

variable {ftl ftl' : ZnsFtl} {leak zid slba : Nat} {action : ZoneSendAction} {option : Bool}
  {d d' : ZoneDescriptor} {E : Fault → Prop}

/-- An active zone with a valid ZRWA holds all it can hold besides the open resource. -/
theorem Charged.commit (h : Charged leak zid (ftl.zoneDescs zid).holds ftl)
    (hav : (ftl.zoneDescs zid).zrwav = true) (hactive : (ftl.zoneDescs zid).state.isActive = true)
    {isClosed : Bool} (hclosed : isClosed = !(ftl.zoneDescs zid).state.isOpen) :
    Acted leak zid .flushExplZrwa option ftl (ftl.commitZrwa zid slba isClosed) := by
  have hset := h.setZoneDesc { ftl.zoneDescs zid with wp := u64 (slba + 1) }
  have hzrwa : (ftl.zoneDescs zid).holds .zrwaZone = true := by
    show ((ftl.zoneDescs zid).zrwav && (ftl.zoneDescs zid).state.isActive) = true
    rw [hav, hactive]
    rfl
  unfold ZnsFtl.commitZrwa
  dsimp only
  split
  · apply Acted.of (@ZoneMove.commit _ _ (u64 (slba + 1)) _ hav hactive (.inr rfl))
    cases isClosed with
    | true =>
      have hopen : (ftl.zoneDescs zid).holds .openZone = false := by
        simpa [ZoneDescriptor.holds] using hclosed
      rw [if_pos rfl]
      have hact := hset.release (T := .activeZone) hactive
      have hall := hact.release (T := .zrwaZone) (by rw [Function.update_of_ne (by decide), hzrwa])
      constructor
      · exact (((Frame.setZoneDesc ..).trans (.release ..)).trans (.release ..)).trans (.setZoneDesc ..)
      · simp
      · apply (hall.changeZoneState .full).to
        intro k
        cases k with
        | activeZone => rfl
        | openZone => exact hopen
        | zrwaZone => exact (Bool.and_false _).symm
    | false =>
      have hopen : (ftl.zoneDescs zid).holds .openZone = true := by
        simpa [ZoneDescriptor.holds] using hclosed
      rw [if_neg Bool.false_ne_true]
      have hrel := hset.release hopen
      have hact := hrel.release (T := .activeZone) hactive
      have hall := hact.release (T := .zrwaZone)
        (by rw [Function.update_of_ne (by decide), Function.update_of_ne (by decide), hzrwa])
      constructor
      · exact ((((Frame.setZoneDesc ..).trans (.release ..)).trans (.release ..)).trans
          (.release ..)).trans (.setZoneDesc ..)
      · simp
      · apply (hall.changeZoneState .full).to
        intro k
        cases k with
        | activeZone => rfl
        | openZone => rfl
        | zrwaZone => exact (Bool.and_false _).symm
  · exact .of (@ZoneMove.commit _ _ (u64 (slba + 1)) _ hav hactive (.inl rfl))
      ⟨.setZoneDesc .., ZnsFtl.setZoneDesc_self .., hset⟩

/-- An explicit flush keeps the counters. -/
theorem Tallied.flushExplicitZrwa (h : Tallied leak ftl)
    (hz : ftl.lbaToZone slba < ftl.zp.nrZones)
    (hdiv : ftl.zp.lbasPerZrwafg = 0 → ftl.FlushDivides slba → E .divideByZero) :
    Ensures E (ftl.zmgmtSendFlushExplicitZrwa slba)
      (fun r => Acted leak (ftl.lbaToZone slba) .flushExplZrwa option ftl r.1) := by
  have hc := h.charged hz
  unfold ZnsFtl.zmgmtSendFlushExplicitZrwa
  apply Ensures.ite
  · intro _
    exact .pure (.stay hc nofun)
  intro hav
  apply Ensures.ite
  · intro _
    exact .pure (.stay hc nofun)
  intro hwindow
  apply Ensures.ite
  · intro hzero
    have hin := Decidable.not_not.mp hwindow
    exact .throw (hdiv hzero ⟨Bool.eq_true_of_not_eq_false hav, hin⟩)
  intro _
  apply Ensures.ite
  · intro _
    exact .pure (.stay hc nofun)
  intro _
  have hav' := Bool.eq_true_of_not_eq_false hav
  cases hs : (ftl.zoneDescs (ftl.lbaToZone slba)).state with
  | openedExpl => exact .pure (hc.commit hav' (by rw [hs]; rfl) (by rw [hs]; rfl))
  | openedImpl => exact .pure (hc.commit hav' (by rw [hs]; rfl) (by rw [hs]; rfl))
  | closed => exact .pure (hc.commit hav' (by rw [hs]; rfl) (by rw [hs]; rfl))
  | empty | full | readOnly | offline => exact .pure (.stay hc nofun)

/-- A zone that becomes or stays EMPTY has no ZRWA. -/
theorem ZoneMove.idle (h : ZoneMove action option d d')
    (hidle : d.state = .empty → d.zrwav = false) : d'.state = .empty → d'.zrwav = false := by
  cases h with
  | stay _ => exact hidle
  | reset _ => exact fun _ => rfl
  | commit _ hactive hstate =>
    intro hempty
    rcases hstate with rfl | rfl
    · exact hidle hempty
    · exact nomatch hempty
  | close _ | finish _ | «open» _ | openZrwa _ | offline _ => exact nofun

end Zone

/-! ## Commands -/

/-- The zones of `T` have moved, the others have not. -/
structure Sent (leak : Nat) (T : Nat → Prop) (action : ZoneSendAction) (option : Bool)
    (ftl ftl' : ZnsFtl) : Prop where
  inv : ZnsInv leak ftl'
  zp : ftl'.zp = ftl.zp
  ssd : ftl'.ssd = ftl.ssd
  moved : ∀ z, T z →
    Relation.TransGen (ZoneMove action option) (ftl.zoneDescs z) (ftl'.zoneDescs z)
  others : ∀ z, ¬ T z → ftl'.zoneDescs z = ftl.zoneDescs z

/-- The zones a command addresses. -/
def ZnsFtl.addressed (ftl : ZnsFtl) (cmd : ZoneMgmtSend) (z : Nat) : Prop :=
  if cmd.selectAll = true then ∃ j, j < ftl.zp.nrZones ∧ z = ftl.lbaToZone (ftl.zoneToSlba j)
  else z = ftl.lbaToZone cmd.slba

/-- A command gets to the remainder by `lbas_per_zrwafg` in the explicit flush. -/
def ZnsFtl.SendDivides (ftl : ZnsFtl) (cmd : ZoneMgmtSend) : Prop :=
  ftl.zp.lbasPerZrwafg = 0 ∧ cmd.zsa = .flushExplZrwa ∧
    if cmd.selectAll = true then ∃ j, j < ftl.zp.nrZones ∧ ftl.FlushDivides (ftl.zoneToSlba j)
    else ftl.FlushDivides cmd.slba

section Commands

variable {ftl ftl' : ZnsFtl} {leak slba : Nat} {action : ZoneSendAction} {option : Bool}
  {cmd : ZoneMgmtSend} {E : Fault → Prop}

/-- One zone has made a move. -/
theorem Acted.sent {zid : Nat} (h : Acted leak zid action option ftl ftl') (hinv : ZnsInv leak ftl) :
    Sent leak (fun z => z = zid) action option ftl ftl' := by
  obtain ⟨d, hmove, hend⟩ := h
  constructor
  · constructor
    · apply hend.charged.tallied
      intro k
      rw [hend.desc]
    · intro z hz
      rw [hend.frame.zp] at hz
      by_cases hzid : z = zid
      · rw [hzid, hend.desc]
        apply hmove.idle
        rw [← hzid]
        exact hinv.idle z hz
      · rw [hend.frame.others z hzid]
        exact hinv.idle z hz
    · rw [hend.frame.ssd]
      exact hinv.timed
  · exact hend.frame.zp
  · exact hend.frame.ssd
  · rintro z rfl
    rw [hend.desc]
    exact .single hmove
  · exact hend.frame.others

/-- An unknown action changes nothing, whatever zone it names. -/
theorem ZnsInv.sent_other (h : ZnsInv leak ftl) (T : Nat → Prop) :
    Sent leak T .other option ftl ftl :=
  ⟨h, rfl, rfl, fun _ _ => .single (.stay nofun), fun _ _ => rfl⟩

/-- A command for one zone. -/
theorem ZnsInv.sendOne (h : ZnsInv leak ftl)
    (hout : ftl.zp.nrZones ≤ ftl.lbaToZone slba → action ≠ .other → E .outOfBounds)
    (hdiv : ftl.zp.lbasPerZrwafg = 0 → action = .flushExplZrwa → ftl.FlushDivides slba →
      E .divideByZero) :
    Ensures E (ftl.zmgmtSendOne slba action option)
      (fun r => Sent leak (fun z => z = ftl.lbaToZone slba) action option ftl r.1) := by
  unfold ZnsFtl.zmgmtSendOne
  apply Ensures.ite
  · intro hpast
    exact .throw (hout hpast.1 hpast.2)
  intro hin
  have hz : action ≠ .other → ftl.lbaToZone slba < ftl.zp.nrZones := by
    intro hact
    exact Nat.lt_of_not_le fun hle => hin ⟨hle, hact⟩
  cases action with
  | closeZone => exact .pure ((h.tallied.closeZone (hz nofun)).sent h)
  | finishZone => exact .pure ((h.tallied.finishZone (hz nofun)).sent h)
  | openZone => exact .pure ((h.tallied.openZone (hz nofun) (h.idle _ (hz nofun))).sent h)
  | resetZone => exact .pure ((h.tallied.resetZone (hz nofun)).sent h)
  | offlineZone => exact .pure ((h.tallied.offlineZone (hz nofun)).sent h)
  | flushExplZrwa =>
    apply (h.tallied.flushExplicitZrwa (hz nofun) fun h0 => hdiv h0 rfl).mono
    intro r hr
    exact hr.sent h
  | other => exact getRandomU32_ensures.bind fun _ _ => .pure (h.sent_other _)

/-- No zone is addressed. -/
theorem Sent.refl (h : ZnsInv leak ftl) :
    Sent leak (fun _ => False) action option ftl ftl :=
  ⟨h, rfl, rfl, fun _ hz => hz.elim, fun _ _ => rfl⟩

/-- One command after the other. -/
theorem Sent.trans {T T' : Nat → Prop} {ftl'' : ZnsFtl} (h : Sent leak T action option ftl ftl')
    (h' : Sent leak T' action option ftl' ftl'') :
    Sent leak (fun z => T z ∨ T' z) action option ftl ftl'' := by
  constructor
  · exact h'.inv
  · exact h'.zp.trans h.zp
  · exact h'.ssd.trans h.ssd
  · intro z hz
    by_cases hT : T z
    · by_cases hT' : T' z
      · exact (h.moved z hT).trans (h'.moved z hT')
      · rw [h'.others z hT']
        exact h.moved z hT
    · have hmove := h'.moved z (hz.resolve_left hT)
      rw [h.others z hT] at hmove
      exact hmove
  · intro z hz
    rw [h'.others z fun hT' => hz (.inr hT'), h.others z fun hT => hz (.inl hT)]

/-- The zones addressed, in other words. -/
theorem Sent.congr {T T' : Nat → Prop} (h : Sent leak T action option ftl ftl')
    (hT : ∀ z, T z ↔ T' z) : Sent leak T' action option ftl ftl' := by
  rw [← funext fun z => propext (hT z)]
  exact h

/-- Without a flush granularity an explicit flush gets nowhere. -/
theorem ZnsFtl.sendOne_unchanged (hzero : ftl.zp.lbasPerZrwafg = 0) :
    Ensures (fun _ => True) (ftl.zmgmtSendOne slba .flushExplZrwa option) (fun r => r.1 = ftl) := by
  unfold ZnsFtl.zmgmtSendOne ZnsFtl.zmgmtSendFlushExplicitZrwa
  apply Ensures.ite
  · intro _
    exact .throw trivial
  intro _
  apply Ensures.ite
  · intro _
    exact .pure rfl
  intro _
  apply Ensures.ite
  · intro _
    exact .pure rfl
  intro _
  rw [if_pos hzero]
  exact .throw trivial

/-- `select_all` addresses no zone past the last: the address of a zone may wrap, but only
downwards. -/
theorem ZnsFtl.lbaToZone_zoneToSlba_le (ftl : ZnsFtl) (zid : Nat) :
    ftl.lbaToZone (ftl.zoneToSlba zid) ≤ zid := by
  unfold ZnsFtl.lbaToZone ZnsFtl.zoneToSlba u32
  calc zid * ftl.zoneLbas % 2 ^ 32 / ftl.zoneLbas % 2 ^ 32
      ≤ zid * ftl.zoneLbas % 2 ^ 32 / ftl.zoneLbas := Nat.mod_le _ _
    _ ≤ zid * ftl.zoneLbas / ftl.zoneLbas := Nat.div_le_div_right (Nat.mod_le _ _)
    _ ≤ zid := Nat.div_le_of_le_mul (Nat.le_of_eq (Nat.mul_comm _ _))

/-- The loop of `select_all`, pass by pass. -/
theorem ZnsInv.sendAll (h : ZnsInv leak ftl)
    (hdiv : ftl.zp.lbasPerZrwafg = 0 → action = .flushExplZrwa →
      (∃ j, j < ftl.zp.nrZones ∧ ftl.FlushDivides (ftl.zoneToSlba j)) → E .divideByZero) :
    Ensures E
      (forRange ftl.zp.nrZones ftl fun zid ftl => do
        let (ftl, _) ← ftl.zmgmtSendOne (ftl.zoneToSlba zid) action option
        pure ftl)
      (Sent leak (fun z => ∃ j, j < ftl.zp.nrZones ∧ z = ftl.lbaToZone (ftl.zoneToSlba j))
        action option ftl) := by
  have hloop : Ensures E
      (forRange ftl.zp.nrZones ftl fun zid ftl => do
        let (ftl, _) ← ftl.zmgmtSendOne (ftl.zoneToSlba zid) action option
        pure ftl)
      (fun ftl' =>
        Sent leak (fun z => ∃ j, j < ftl.zp.nrZones ∧ z = ftl.lbaToZone (ftl.zoneToSlba j))
          action option ftl ftl' ∧
        (ftl.zp.lbasPerZrwafg = 0 → action = .flushExplZrwa → ftl' = ftl)) := by
    apply Ensures.forRange (I := fun i ftl' =>
      Sent leak (fun z => ∃ j, j < i ∧ z = ftl.lbaToZone (ftl.zoneToSlba j)) action option ftl ftl' ∧
        (ftl.zp.lbasPerZrwafg = 0 → action = .flushExplZrwa → ftl' = ftl))
    · constructor
      · apply (Sent.refl h).congr
        intro z
        constructor
        · exact False.elim
        · rintro ⟨j, hj, _⟩
          exact absurd hj (Nat.not_lt_zero j)
      · exact fun _ _ => rfl
    · intro i hi ftl' ⟨hsent, hsame⟩
      have hslba : ftl'.zoneToSlba = ftl.zoneToSlba := by
        funext zid
        unfold ZnsFtl.zoneToSlba ZnsFtl.zoneLbas
        rw [hsent.zp, hsent.ssd]
      have hzone : ftl'.lbaToZone = ftl.lbaToZone := by
        funext lba
        unfold ZnsFtl.lbaToZone ZnsFtl.zoneLbas
        rw [hsent.zp, hsent.ssd]
      have hone : Ensures E (ftl'.zmgmtSendOne (ftl'.zoneToSlba i) action option) (fun r =>
          Sent leak (fun z => z = ftl'.lbaToZone (ftl'.zoneToSlba i)) action option ftl' r.1) := by
        have hbelow := ftl'.lbaToZone_zoneToSlba_le i
        rw [← hsent.zp] at hi
        apply hsent.inv.sendOne fun hpast _ => absurd hi (by omega)
        rw [hsent.zp] at hi
        intro hzero hact hdivides
        rw [hsent.zp] at hzero
        rw [hsame hzero hact] at hdivides
        exact hdiv hzero hact ⟨i, hi, hdivides⟩
      have hboth : Ensures E (ftl'.zmgmtSendOne (ftl'.zoneToSlba i) action option) (fun r =>
          Sent leak (fun z => z = ftl'.lbaToZone (ftl'.zoneToSlba i)) action option ftl' r.1 ∧
          (ftl.zp.lbasPerZrwafg = 0 → action = .flushExplZrwa → r.1 = ftl)) := by
        by_cases hflush : ftl.zp.lbasPerZrwafg = 0 ∧ action = .flushExplZrwa
        · obtain ⟨hzero, rfl⟩ := hflush
          have hzero' : ftl'.zp.lbasPerZrwafg = 0 := by rw [hsent.zp, hzero]
          apply (hone.and (ftl'.sendOne_unchanged hzero')).mono
          exact fun r hr => ⟨hr.1, fun _ _ => hr.2.trans (hsame hzero rfl)⟩
        · exact hone.mono fun r hr => ⟨hr, fun hzero hact => absurd ⟨hzero, hact⟩ hflush⟩
      apply hboth.bind
      intro r hr
      apply Ensures.pure
      apply And.intro _ hr.2
      apply (hsent.trans hr.1).congr
      intro z
      rw [hslba, hzone]
      constructor
      · rintro (⟨j, hj, rfl⟩ | rfl)
        · exact ⟨j, by omega, rfl⟩
        · exact ⟨i, by omega, rfl⟩
      · rintro ⟨j, hj, rfl⟩
        rcases Nat.lt_succ_iff_lt_or_eq.mp hj with hlt | rfl
        · exact .inl ⟨j, hlt, rfl⟩
        · exact .inr rfl
  exact hloop.mono fun _ hr => hr.1

/-- `zns_zmgmt_send` moves the zones the command addresses. -/
theorem ZnsInv.send (h : ZnsInv leak ftl) (nsecsStart : Nat)
    (hout : cmd.selectAll = false → ftl.zp.nrZones ≤ ftl.lbaToZone cmd.slba → cmd.zsa ≠ .other →
      E .outOfBounds)
    (hdiv : ftl.SendDivides cmd → E .divideByZero) :
    Ensures E (ftl.znsZmgmtSend cmd nsecsStart)
      (fun r => Sent leak (ftl.addressed cmd) cmd.zsa cmd.zsaso ftl r.1) := by
  unfold ZnsFtl.znsZmgmtSend
  apply Ensures.ite
  · intro hall
    have hT : ftl.addressed cmd =
        fun z => ∃ j, j < ftl.zp.nrZones ∧ z = ftl.lbaToZone (ftl.zoneToSlba j) := by
      funext z
      exact if_pos hall
    rw [hT]
    apply (h.sendAll _).bind
    · intro ftl' hsent
      exact .pure hsent
    · intro hzero hact hdivides
      exact hdiv ⟨hzero, hact, by rw [if_pos hall]; exact hdivides⟩
  · intro hone
    have hT : ftl.addressed cmd = fun z => z = ftl.lbaToZone cmd.slba := by
      funext z
      exact if_neg hone
    rw [hT]
    apply (h.sendOne (hout (Bool.eq_false_iff.mpr hone)) _).bind
    · intro r hsent
      exact .pure hsent
    · intro hzero hact hdivides
      exact hdiv ⟨hzero, hact, by rw [if_neg hone]; exact hdivides⟩

end Commands

end NvmeVirt

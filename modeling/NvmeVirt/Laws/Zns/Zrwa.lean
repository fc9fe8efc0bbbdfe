import NvmeVirt.Laws.Zns.Writes

/-!
# Writes to a zone with a random write area

`__zns_write_zrwa` opens a closed zone, and may move the write pointer to keep the window ahead of
the data. When that flush ends the zone, `__increase_write_ptr` makes it FULL without giving back
its ZRWA unit (`FlushEnds`); when the flush granularity is zero, the flush divides by it
(`WriteDivides`).

The function is followed in the order of the source: the checks (`AdmitsZrwa`), the zone that is
opened (`Tallied.switchZrwa`), the buffer, the flush (`Charged.flushImplicitly`) and the program
(`ZnsInv.programZrwa`). What the zone is charged for is known at each of these points, so that a
unit that is not given back is seen at the end (`ZnsInv.writeZrwa`).
-/

set_option autoImplicit false

namespace NvmeVirt

open Outcome

namespace ZnsFtl

/-- The last LBA of `cmd`. -/
def targetElba (_ftl : ZnsFtl) (cmd : ZnsRwCommand) : Nat := lastLba cmd.slba cmd.nrLba

/-- `nr_lbas_flush`, for a flush granularity other than zero. -/
def flushLbas (ftl : ZnsFtl) (zid elba wp : Nat) : Nat :=
  if ftl.zrwaImplStart wp ≤ elba then
    u64 (u64 (u64 (sub64 elba (ftl.zrwaImplStart wp) + 1) + ftl.zp.lbasPerZrwafg - 1) /
      ftl.zp.lbasPerZrwafg * ftl.zp.lbasPerZrwafg)
  else if elba = ftl.zoneToElba zid then u64 (sub64 elba wp + 1)
  else 0

/-- The ZRWA buffer exists and grants `size` bytes. -/
def ZrwaGrants (ftl : ZnsFtl) (buf : Buffer) (size : Nat) : Prop :=
  ftl.zp.zrwaBufferSize ≠ 0 ∧ size ≤ buf.size ∧ 0 < size ∧ size ≤ buf.remaining

/-- The ZRWA buffer of a zone once the zone is open. -/
def openedBuffer (ftl : ZnsFtl) (zid : Nat) : Buffer :=
  if (ftl.zoneDescs zid).state = .closed then
    { ftl.buffers (.zrwa zid) with
      remaining := (ftl.buffers (.zrwa zid)).remaining - ftl.zp.zrwaSize }
  else ftl.buffers (.zrwa zid)

/-- The command passes the checks of `__zns_write_zrwa`, and its zone is or gets open. -/
structure AdmitsZrwa (ftl : ZnsFtl) (cmd : ZnsRwCommand) : Prop where
  zrwav : (ftl.zoneDescs (ftl.target cmd)).zrwav = true
  checked : ftl.rejectsZrwa (ftl.target cmd) cmd.slba cmd.nrLba = nvmeScSuccess
  active : (ftl.zoneDescs (ftl.target cmd)).state.isActive = true
  granted : (ftl.zoneDescs (ftl.target cmd)).state = .closed →
    ftl.ZrwaGrants (ftl.buffers (.zrwa (ftl.target cmd))) ftl.zp.zrwaSize

/-- The command gets to the division by `lbas_per_zrwafg`, which is zero. -/
def WriteDivides (ftl : ZnsFtl) (cmd : ZnsRwCommand) : Prop :=
  ftl.AdmitsZrwa cmd ∧ ftl.zp.lbasPerZrwafg = 0 ∧
    ftl.zrwaImplStart (ftl.zoneDescs (ftl.target cmd)).wp ≤ ftl.targetElba cmd

/-- The LBAs the command flushes implicitly. -/
def targetFlush (ftl : ZnsFtl) (cmd : ZnsRwCommand) : Nat :=
  ftl.flushLbas (ftl.target cmd) (ftl.targetElba cmd) (ftl.zoneDescs (ftl.target cmd)).wp

/-- The implicit flush of the command takes the write pointer to the end of the zone. -/
def FlushEnds (ftl : ZnsFtl) (cmd : ZnsRwCommand) : Prop :=
  ftl.AdmitsZrwa cmd ∧ 0 < ftl.targetFlush cmd ∧
    ftl.ZrwaGrants (ftl.openedBuffer (ftl.target cmd)) (u64 (lbaToByte (ftl.targetFlush cmd))) ∧
    u64 ((ftl.zoneDescs (ftl.target cmd)).wp + u32 (ftl.targetFlush cmd)) =
      ftl.zoneLimit (ftl.target cmd)

end ZnsFtl

/-- What a write leaves of the FTL, whatever it did to its zone: the invariant, the parameters, and
no zone with a ZRWA unit it did not have. -/
structure Kept (leak : Nat) (ftl ftl' : ZnsFtl) : Prop where
  inv : ZnsInv leak ftl'
  zp : ftl'.zp = ftl.zp
  sp : ftl'.ssd.sp = ftl.ssd.sp
  zrwa : ∀ z, z < ftl.zp.nrZones → (ftl'.zoneDescs z).holds .zrwaZone = true →
    (ftl.zoneDescs z).holds .zrwaZone = true

section Zrwa

variable {E : Fault → Prop} {leak zid : Nat} {ftl ftl' : ZnsFtl} {req : ZnsRequest}

/-- Nothing has happened. -/
theorem Kept.refl (h : ZnsInv leak ftl) : Kept leak ftl ftl := ⟨h, rfl, rfl, fun _ _ hz => hz⟩

/-- A zone written without ZRWA holds no ZRWA unit afterwards either. -/
theorem Written.kept {cmd : ZnsRwCommand} {r : ZnsFtl × ZnsAnswer} (h : Written leak ftl cmd r)
    (hav : (ftl.zoneDescs (ftl.target cmd)).zrwav = false) : Kept leak ftl r.1 := by
  refine ⟨h.inv, h.zp, h.sp, fun z _ hheld => ?_⟩
  by_cases hzid : z = ftl.target cmd
  · rw [hzid, h.desc] at hheld
    have hnone : ((ftl.zoneDescs (ftl.target cmd)).advance (ftl.zoneLimit (ftl.target cmd))
        cmd.nrLba).zrwav = false := hav
    simp [ZoneDescriptor.holds, hnone] at hheld
  · rw [h.others z hzid] at hheld
    exact hheld

/-- The two outcomes of an allocation from an existing ZRWA buffer. -/
theorem ZnsFtl.zrwaBufferAllocate_ensures (ftl : ZnsFtl) (zid size : Nat) (hbug : E .bugOn)
    (hnull : E .nullPointer) :
    Ensures E (ftl.zrwaBufferAllocate zid size) (fun r => r = (ftl, 0) ∨
      ftl.zp.zrwaBufferSize ≠ 0 ∧ size ≤ (ftl.buffers (.zrwa zid)).size ∧
        size ≤ (ftl.buffers (.zrwa zid)).remaining ∧
        r = (ftl.setBuffer (.zrwa zid) { ftl.buffers (.zrwa zid) with
          remaining := (ftl.buffers (.zrwa zid)).remaining - size }, size)) := by
  unfold ZnsFtl.zrwaBufferAllocate
  apply Ensures.ite
  · intro _
    exact .throw hnull
  intro hbuffer
  by_cases hfits : size ≤ (ftl.buffers (.zrwa zid)).size
  · by_cases hroom : size ≤ (ftl.buffers (.zrwa zid)).remaining
    · rw [bufferAllocate_room hfits hroom, pure_bind]
      exact .pure (.inr ⟨hbuffer, hfits, hroom, rfl⟩)
    · rw [bufferAllocate_short hfits (Nat.lt_of_not_le hroom), pure_bind]
      have hsame : ftl.setBuffer (.zrwa zid) (ftl.buffers (.zrwa zid)) = ftl := by
        unfold ZnsFtl.setBuffer
        rw [Function.update_eq_self]
      exact .pure (.inl (by rw [hsame]))
  · rw [bufferAllocate_tooLarge (Nat.lt_of_not_le hfits)]
    exact .throw hbug

/-- The zone of a ZRWA write has passed the switch. -/
structure ZrwaOpened (leak zid : Nat) (ftl ftl' : ZnsFtl) : Prop where
  ended : Ended leak zid
    { ftl.zoneDescs zid with state := (ftl.zoneDescs zid).state.opened } ftl ftl'
  active : (ftl.zoneDescs zid).state.isActive = true
  granted : (ftl.zoneDescs zid).state = .closed →
    ftl.ZrwaGrants (ftl.buffers (.zrwa zid)) ftl.zp.zrwaSize
  buffer : ftl'.buffers (.zrwa zid) = ftl.openedBuffer zid

/-- The switch over the state of the zone. -/
theorem Tallied.switchZrwa (h : Tallied leak ftl) (hz : zid < ftl.zp.nrZones)
    (hbusy : (ftl.zoneDescs zid).state ≠ .empty) (hbug : E .bugOn) (hnull : E .nullPointer) :
    Ensures E (ftl.writeSwitchZrwa zid) (fun r => r.2 ≠ nvmeScSuccess ∧ r.1 = ftl ∨
      r.2 = nvmeScSuccess ∧ ZrwaOpened leak zid ftl r.1) := by
  have hc := h.charged hz
  have hopen : (ftl.zoneDescs zid).state.isOpen = true → ZrwaOpened leak zid ftl ftl := by
    intro hopen
    have hstate : (ftl.zoneDescs zid).state.opened = (ftl.zoneDescs zid).state := if_pos hopen
    have hnot : (ftl.zoneDescs zid).state ≠ .closed := by
      intro hclosed
      rw [hclosed] at hopen
      exact nomatch hopen
    constructor
    · rw [hstate]
      exact ⟨.refl .., rfl, hc⟩
    · cases hs : (ftl.zoneDescs zid).state <;> simp_all [ZoneState.isOpen, ZoneState.isActive]
    · exact fun hclosed => absurd hclosed hnot
    · exact (if_neg hnot).symm
  unfold ZnsFtl.writeSwitchZrwa
  cases hs : (ftl.zoneDescs zid).state with
  | empty => exact absurd hs hbusy
  | closed =>
    have hfree : (ftl.zoneDescs zid).holds .openZone = false := by
      simp [ZoneDescriptor.holds, ZoneState.isOpen, hs]
    obtain ⟨mid, hacq, hmid, info, rfl⟩ := hc.acquire hfree (hc.avail hfree rfl)
    dsimp only
    rw [hacq]
    dsimp only
    apply ((ftl.setResInfo .openZone info).zrwaBufferAllocate_ensures zid _ hbug hnull).bind
    rintro r (rfl | ⟨hexists, hfits, hroom, rfl⟩)
    · -- nothing granted: the assertion on the allocation fails
      dsimp only
      rw [nvmevAssert_fails (not_not_intro rfl)]
      exact .throw hbug
    · dsimp only
      by_cases hpos : (ftl.setResInfo .openZone info).zp.zrwaSize ≠ 0
      · apply (nvmevAssert_ensures hpos).bind
        intro _ _
        apply Ensures.pure
        apply Or.inr
        apply And.intro rfl
        constructor
        · constructor
          · exact ((Frame.setResInfo ..).trans (.setZrwaBuffer ..)).trans (.setZoneDesc ..)
          · rw [hs]
            exact ZnsFtl.changeZoneState_self ..
          · apply ((hmid.setBuffer _ _).changeZoneState .openedImpl).to
            intro k
            cases k <;> simp [ZoneDescriptor.holds, ZoneState.isOpen, ZoneState.isActive,
              ZoneState.opened, hs]
        · rw [hs]
          rfl
        · exact fun _ => ⟨hexists, hfits, Nat.pos_of_ne_zero hpos, hroom⟩
        · show Function.update _ _ _ _ = _
          rw [Function.update_self, ZnsFtl.openedBuffer, if_pos hs]
          rfl
      · rw [nvmevAssert_fails hpos]
        exact .throw hbug
  | openedImpl => exact .pure (.inr ⟨rfl, hopen (by rw [hs]; rfl)⟩)
  | openedExpl => exact .pure (.inr ⟨rfl, hopen (by rw [hs]; rfl)⟩)
  | full => exact .pure (.inl ⟨(by decide : nvmeScZnsErrFull ≠ nvmeScSuccess), rfl⟩)
  | readOnly => exact .pure (.inl ⟨(by decide : nvmeScZnsErrReadOnly ≠ nvmeScSuccess), rfl⟩)
  | offline => exact .pure (.inl ⟨(by decide : nvmeScZnsErrOffline ≠ nvmeScSuccess), rfl⟩)

/-- An implicit flush ends, or divides by zero. -/
theorem ZnsFtl.implicitFlush_ensures (ftl : ZnsFtl) (zid elba wp : Nat)
    (hdiv : ftl.zp.lbasPerZrwafg = 0 → ftl.zrwaImplStart wp ≤ elba → E .divideByZero) :
    Ensures E (ftl.implicitFlush zid elba wp) (fun n => n = ftl.flushLbas zid elba wp) := by
  unfold ZnsFtl.implicitFlush ZnsFtl.flushLbas
  split
  · rename_i hstart
    unfold ZnsFtl.roundUpZrwafg
    apply Ensures.ite
    · intro hzero
      exact .throw (hdiv hzero hstart)
    · intro _
      exact .pure rfl
  split
  · exact .pure rfl
  · exact .pure rfl

/-- The implicit flush of an open zone: nothing to do, no room, or the write pointer moves. -/
theorem Charged.flushImplicitly (h : Charged leak zid (ftl.zoneDescs zid).holds ftl)
    (hopen : (ftl.zoneDescs zid).state.isOpen = true) (lbas : Nat) (hbug : E .bugOn)
    (hnull : E .nullPointer) :
    Ensures E (ftl.flushImplicitly zid lbas) (fun r => r.1 = ftl ∨
      0 < lbas ∧ ftl.ZrwaGrants (ftl.buffers (.zrwa zid)) (u64 (lbaToByte lbas)) ∧
        Ended (leak + if (ftl.zoneDescs zid).zrwav = true ∧
          u64 ((ftl.zoneDescs zid).wp + u32 lbas) = ftl.zoneLimit zid then 1 else 0) zid
          ((ftl.zoneDescs zid).advance (ftl.zoneLimit zid) lbas) ftl r.1) := by
  unfold ZnsFtl.flushImplicitly
  apply Ensures.ite
  · intro hpos
    apply (ftl.zrwaBufferAllocate_ensures zid _ hbug hnull).bind
    rintro r (rfl | ⟨hexists, hfits, hroom, rfl⟩)
    · dsimp only
      rw [if_pos rfl]
      exact .pure (.inl rfl)
    · dsimp only
      split
      · rename_i hzero
        have hsame : ftl.setBuffer (.zrwa zid) { ftl.buffers (.zrwa zid) with
            remaining := (ftl.buffers (.zrwa zid)).remaining - u64 (lbaToByte lbas) } = ftl := by
          rw [hzero, Nat.sub_zero]
          unfold ZnsFtl.setBuffer
          rw [Function.update_eq_self]
        exact .pure (.inl hsame)
      · rename_i hbytes
        have hset := h.setBuffer (.zrwa zid) { ftl.buffers (.zrwa zid) with
          remaining := (ftl.buffers (.zrwa zid)).remaining - u64 (lbaToByte lbas) }
        have hend := @Charged.increaseWritePtr (ftl.setBuffer (.zrwa zid) _) _ _ hset hopen lbas
        exact .pure (.inr ⟨hpos, ⟨hexists, hfits, Nat.pos_of_ne_zero hbytes, hroom⟩,
          (Frame.setZrwaBuffer ..).trans hend.frame, hend.desc, hend.charged⟩)
  · intro _
    exact .pure (.inl rfl)

/-- A zone that was ended. -/
theorem Ended.kept {leak' : Nat} {d : ZoneDescriptor} (h : Ended leak' zid d ftl ftl')
    (hinv : ZnsInv leak ftl) (hbusy : d.state ≠ .empty)
    (hheld : d.holds .zrwaZone = true → (ftl.zoneDescs zid).holds .zrwaZone = true)
    {ssd : Ssd} (hsame : ftl.ssd.SameFlash ssd) : Kept leak' ftl { ftl' with ssd } := by
  constructor
  · exact h.inv hinv hbusy hsame.timed
  · exact h.frame.zp
  · exact hsame.sp
  · intro z hz
    show (ftl'.zoneDescs z).holds .zrwaZone = true → _
    by_cases hzid : z = zid
    · rw [hzid, h.desc]
      exact hheld
    · rw [h.frame.others z hzid]
      exact id

/-- A zone that had its ZRWA unit. -/
theorem ZoneDescriptor.holds_zrwa {d : ZoneDescriptor} (hav : d.zrwav = true)
    (hactive : d.state.isActive = true) : d.holds .zrwaZone = true := by
  show (d.zrwav && d.state.isActive) = true
  rw [hav, hactive]
  rfl

/-- What the flush of a ZRWA write has made of its zone: it may have lost the ZRWA unit. -/
def Flushed (leak : Nat) (ftl : ZnsFtl) (cmd : ZnsRwCommand) (ftl' : ZnsFtl) : Prop :=
  ∃ leak' d, (leak' = leak ∨ ftl.FlushEnds cmd ∧ leak' = leak + 1) ∧ d.state ≠ .empty ∧
    Ended leak' (ftl.target cmd) d ftl ftl'

/-- A zone whose write pointer was moved. -/
theorem Flushed.kept (h : Flushed leak ftl req.cmd ftl') (hinv : ZnsInv leak ftl)
    (hheld : (ftl.zoneDescs (ftl.target req.cmd)).holds .zrwaZone = true) {ssd : Ssd}
    (hsame : ftl.ssd.SameFlash ssd) :
    Kept leak ftl { ftl' with ssd } ∨
      ftl.FlushEnds req.cmd ∧ Kept (leak + 1) ftl { ftl' with ssd } := by
  obtain ⟨leak', d, hleak, hbusy, hend⟩ := h
  have hkept := hend.kept hinv hbusy (fun _ => hheld) hsame
  rcases hleak with rfl | ⟨hends, rfl⟩
  · exact .inl hkept
  · exact .inr ⟨hends, hkept⟩

/-- The flush of a ZRWA write, from a zone that is open by now. -/
theorem ZrwaOpened.flush {mid : ZnsFtl} (hadmits : ftl.AdmitsZrwa req.cmd)
    (hopened : ZrwaOpened leak (ftl.target req.cmd) ftl mid) (hbug : E .bugOn)
    (hnull : E .nullPointer) (hdiv : ftl.WriteDivides req.cmd → E .divideByZero) :
    Ensures E (do
      let nrLbasFlush ← mid.implicitFlush (ftl.target req.cmd) (ftl.targetElba req.cmd)
        (mid.zoneDescs (ftl.target req.cmd)).wp
      let r ← mid.flushImplicitly (ftl.target req.cmd) nrLbasFlush
      pure (nrLbasFlush, r)) (fun r => Flushed leak ftl req.cmd r.2.1) := by
  have hend := hopened.ended
  have g : SameGeometry ftl mid := ⟨hend.frame.zp, congrArg Ssd.sp hend.frame.ssd⟩
  have hwp : (mid.zoneDescs (ftl.target req.cmd)).wp = (ftl.zoneDescs (ftl.target req.cmd)).wp := by
    rw [hend.desc]
  have hflush : mid.flushLbas (ftl.target req.cmd) (ftl.targetElba req.cmd)
      (mid.zoneDescs (ftl.target req.cmd)).wp = ftl.targetFlush req.cmd := by
    rw [hwp]
    unfold ZnsFtl.targetFlush ZnsFtl.flushLbas ZnsFtl.zrwaImplStart ZnsFtl.zoneToElba
    rw [g.zp, g.zoneToSlba]
  have hcharged := hend.charged
  rw [← hend.desc] at hcharged
  have hopen : (mid.zoneDescs (ftl.target req.cmd)).state.isOpen = true := by
    rw [hend.desc]
    exact ZoneState.opened_isOpen _
  apply Ensures.bind (mid.implicitFlush_ensures _ _ _ _)
  · intro n hn
    rw [hflush] at hn
    apply (hcharged.flushImplicitly hopen n hbug hnull).bind
    rintro r (hsame | ⟨hpos, hgrants, hmoved⟩)
    · apply Ensures.pure
      refine ⟨leak, _, .inl rfl, ?_, hsame ▸ hend⟩
      cases (ftl.zoneDescs (ftl.target req.cmd)).state <;> exact nofun
    · apply Ensures.pure
      have hlimit : mid.zoneLimit (ftl.target req.cmd) = ftl.zoneLimit (ftl.target req.cmd) := by
        unfold ZnsFtl.zoneLimit
        rw [g.zoneToSlba, hend.desc]
      have hboth := hend.frame.trans hmoved.frame
      refine ⟨_, _, ?_, ZoneDescriptor.advance_busy _ _ _, hboth, hmoved.desc, hmoved.charged⟩
      split
      · rename_i hends
        apply Or.inr
        refine ⟨⟨hadmits, ?_, ?_, ?_⟩, rfl⟩
        · rw [← hn]
          exact hpos
        · unfold ZnsFtl.ZrwaGrants at hgrants ⊢
          rw [hend.frame.zp, hopened.buffer, hn] at hgrants
          exact hgrants
        · rw [← hn, ← hlimit, ← hwp]
          exact hends.2
      · exact .inl rfl
  · intro hzero hstart
    apply hdiv
    refine ⟨hadmits, ?_, ?_⟩
    · rw [← g.zp]
      exact hzero
    · unfold ZnsFtl.zrwaImplStart at hstart ⊢
      rw [hwp, g.zp] at hstart
      exact hstart

/-- Everything a ZRWA write does after its checks. -/
theorem ZnsInv.programZrwa {mid : ZnsFtl} (h : ZnsInv leak ftl) (hadmits : ftl.AdmitsZrwa req.cmd)
    (hopened : ZrwaOpened leak (ftl.target req.cmd) ftl mid) (hbug : E .bugOn)
    (hnull : E .nullPointer) (hdiv : ftl.WriteDivides req.cmd → E .divideByZero) :
    Ensures E (mid.programZrwa req (ftl.target req.cmd))
      (fun r => Kept leak ftl r.1 ∨ ftl.FlushEnds req.cmd ∧ Kept (leak + 1) ftl r.1) := by
  have hheld := ZoneDescriptor.holds_zrwa hadmits.zrwav hadmits.active
  have hfold : mid.programZrwa req (ftl.target req.cmd) = (do
      let (nrLbasFlush, ftl', room) ← (do
        let nrLbasFlush ← mid.implicitFlush (ftl.target req.cmd) (ftl.targetElba req.cmd)
          (mid.zoneDescs (ftl.target req.cmd)).wp
        let r ← mid.flushImplicitly (ftl.target req.cmd) nrLbasFlush
        pure (nrLbasFlush, r))
      ftl'.finishZrwa req (ftl.target req.cmd) (mid.zoneDescs (ftl.target req.cmd)).wp nrLbasFlush
        room) := by
    simp only [bind_assoc, pure_bind]
    rfl
  rw [hfold]
  apply (hopened.flush hadmits hbug hnull hdiv).bind
  rintro ⟨nrLbasFlush, ftl', room⟩ hflushed
  have hssd : ftl'.ssd = ftl.ssd := by
    obtain ⟨_, _, _, _, hend⟩ := hflushed
    exact hend.frame.ssd
  have htimed : ftl'.ssd.Timed := by
    rw [hssd]
    exact h.timed
  show Ensures E (ftl'.finishZrwa req _ _ nrLbasFlush room) _
  unfold ZnsFtl.finishZrwa
  apply Ensures.ite
  · intro _
    exact .pure (hflushed.kept h hheld ⟨congrArg Ssd.sp hssd, congrArg Ssd.blk hssd, htimed⟩)
  intro _
  apply (ssdAdvanceWriteBuffer_ensures htimed _ _).bind
  intro r hr
  have hacc : ({ ssd := r.1, nsecsLatest := r.2, internal := [] } : ZoneProgram).ssd.Timed := hr.timed
  apply (flushPages_ensures _ _ _ _ _ hacc).bind
  intro acc hprog
  apply Ensures.pure
  apply hflushed.kept h hheld
  rw [← hssd]
  exact hr.trans hprog

/-- `__zns_write_zrwa`. -/
theorem ZnsInv.writeZrwa (h : ZnsInv leak ftl) (hz : ftl.target req.cmd < ftl.zp.nrZones)
    (hav : (ftl.zoneDescs (ftl.target req.cmd)).zrwav = true) (hbug : E .bugOn)
    (hnull : E .nullPointer) (hdiv : ftl.WriteDivides req.cmd → E .divideByZero) :
    Ensures E (ftl.znsWriteZrwa req)
      (fun r => Kept leak ftl r.1 ∨ ftl.FlushEnds req.cmd ∧ Kept (leak + 1) ftl r.1) := by
  have hbusy : (ftl.zoneDescs (ftl.target req.cmd)).state ≠ .empty := by
    intro hempty
    rw [h.idle _ hz hempty] at hav
    exact nomatch hav
  unfold ZnsFtl.znsWriteZrwa ZnsFtl.checkWriteZrwa
  by_cases hchecked : ftl.rejectsZrwa (ftl.target req.cmd) req.cmd.slba req.cmd.nrLba ≠ nvmeScSuccess
  · dsimp only
    rw [← ZnsFtl.target, if_pos hchecked, pure_bind]
    dsimp only
    rw [if_pos hchecked]
    exact .pure (.inl (.refl h))
  · dsimp only
    rw [← ZnsFtl.target, if_neg hchecked]
    apply (h.tallied.switchZrwa hz hbusy hbug hnull).bind
    rintro ⟨mid, status⟩ (⟨hstatus, rfl⟩ | ⟨hstatus, hopened⟩)
    · dsimp only
      rw [if_pos hstatus]
      exact .pure (.inl (.refl h))
    · dsimp only
      rw [if_neg (not_not_intro hstatus)]
      exact h.programZrwa ⟨hav, Decidable.not_not.mp hchecked, hopened.active, hopened.granted⟩
        hopened hbug hnull hdiv

end Zrwa

end NvmeVirt

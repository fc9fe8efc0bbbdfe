import NvmeVirt.Zns.Cmd

/-!
# The checks of a write

A write or an append ends in success exactly when the range and the zone, as it finds them, pass the
checks of its handler. For want of room in the buffer it is answered `false`, before the checks in
`__zns_write` and after them in `__zns_write_zrwa`.

Each check has an equivalence of its own, and the two handlers follow from them in the order of the
source (`ZnsFtl.checkWrite_status_iff`, `ZnsFtl.writeSwitchZrwa_status_iff`). The resources a write
may need are asked for in the state it finds, in which the writes before it have taken theirs.

`WritePasses` is stated of the zone and the command alone, so that it can be a condition on a host.
-/

set_option autoImplicit false

namespace NvmeVirt

open Outcome

namespace ZnsFtl

variable (ftl : ZnsFtl)

/-- The `switch` of `__zns_write` lets a write at `slba` go on. -/
def Writable (zid slba : Nat) : Prop :=
  match (ftl.zoneDescs zid).state with
  | .empty =>
    slba = (ftl.zoneDescs zid).zslba ∧ ftl.isZoneResourceFull .activeZone = false ∧
      ftl.isZoneResourceFull .openZone = false ∧ ftl.isZoneResourceAvail .openZone = true
  | .closed => ftl.isZoneResourceAvail .openZone = true
  | .openedImpl | .openedExpl => True
  | .full | .readOnly | .offline => False

/-- The `switch` of `__zns_write_zrwa` lets a write go on. -/
def WritableZrwa (zid : Nat) : Prop :=
  match (ftl.zoneDescs zid).state with
  | .empty | .closed => ftl.isZoneResourceAvail .openZone = true
  | .openedImpl | .openedExpl => True
  | .full | .readOnly | .offline => False

/-- The range and the zone pass every check of `__zns_write`. -/
structure PassesSeq (zid slba nrLba : Nat) : Prop where
  unit : lbaToByte nrLba % ftl.ssd.sp.writeUnitSize = 0
  boundary : ftl.checkBoundaryError slba nrLba = true
  atWp : slba = (ftl.zoneDescs zid).wp
  writable : ftl.Writable zid slba

/-- The range and the zone pass every check of `__zns_write_zrwa`. -/
structure PassesZrwa (zid slba nrLba : Nat) : Prop where
  unit : lbaToByte nrLba % ftl.ssd.sp.writeUnitSize = 0
  boundary : ftl.checkBoundaryError slba nrLba = true
  window : (ftl.zoneDescs zid).wp ≤ slba ∧
    lastLba slba nrLba ≤ ftl.zrwaImplEnd (ftl.zoneDescs zid).wp
  writable : ftl.WritableZrwa zid

/-- The zone `cmd` is for has the write buffer to take it. -/
def RoomFor (cmd : ZnsRwCommand) : Prop :=
  lbaToByte cmd.nrLba ≤ (ftl.buffers (ftl.writeBuffer (ftl.lbaToZone cmd.slba))).remaining

/-- The write or append `cmd` passes the checks of its handler. -/
def WritePasses (cmd : ZnsRwCommand) : Prop :=
  let zid := ftl.lbaToZone cmd.slba
  if (ftl.zoneDescs (ftl.lpnToZone (ftl.lbaToLpn cmd.slba))).zrwav = false then
    ftl.RoomFor cmd → ftl.PassesSeq zid (ftl.effectiveSlba cmd zid) cmd.nrLba
  else ftl.PassesZrwa zid cmd.slba cmd.nrLba

end ZnsFtl

section Checks

variable {ftl : ZnsFtl} {zid slba nrLba : Nat}

theorem refused_iff {P : Prop} {status : Nat} (h : status ≠ nvmeScSuccess) (hP : ¬ P) :
    (ftl, status).2 = nvmeScSuccess ↔ P := iff_of_false h hP

/-- An implicit open needs an open resource. -/
theorem ZnsFtl.openImplicitly_status_iff :
    (ftl.openImplicitly zid).2 = nvmeScSuccess ↔ ftl.isZoneResourceAvail .openZone = true := by
  unfold ZnsFtl.openImplicitly ZnsFtl.acquireZoneResource
  cases ftl.isZoneResourceAvail .openZone with
  | true => exact iff_of_true rfl rfl
  | false => exact refused_iff (by decide) Bool.false_ne_true

/-- A unit of the active resource changes nothing about the open one. -/
theorem ZnsFtl.acquireActive_avail : (ftl.acquireZoneResource .activeZone).1.isZoneResourceAvail
    .openZone = ftl.isZoneResourceAvail .openZone := by
  unfold ZnsFtl.acquireZoneResource
  split
  · rfl
  · rfl

/-- The switch over the state of the zone. -/
theorem ZnsFtl.writeSwitch_status_iff :
    (ftl.writeSwitch zid slba).2 = nvmeScSuccess ↔ ftl.Writable zid slba := by
  unfold ZnsFtl.writeSwitch ZnsFtl.Writable
  cases (ftl.zoneDescs zid).state with
  | empty =>
    dsimp only
    by_cases hslba : slba = (ftl.zoneDescs zid).zslba
    · rw [if_neg (not_not_intro hslba)]
      cases hactive : ftl.isZoneResourceFull .activeZone with
      | true => exact refused_iff (by decide) fun h => Bool.noConfusion h.2.1
      | false =>
        cases hopen : ftl.isZoneResourceFull .openZone with
        | true => exact refused_iff (by decide) fun h => Bool.noConfusion h.2.2.1
        | false =>
          rw [if_neg Bool.false_ne_true, if_neg Bool.false_ne_true,
            ZnsFtl.openImplicitly_status_iff, ZnsFtl.acquireActive_avail]
          exact ⟨fun h => ⟨hslba, rfl, rfl, h⟩, fun h => h.2.2.2⟩
    · rw [if_pos hslba]
      exact refused_iff (by decide) fun h => hslba h.1
  | closed => exact ZnsFtl.openImplicitly_status_iff
  | openedImpl | openedExpl => exact iff_of_true rfl trivial
  | full | readOnly | offline => exact refused_iff (by decide) id

/-- All checks of a write. -/
theorem ZnsFtl.checkWrite_status_iff :
    (ftl.checkWrite zid slba nrLba).2 = nvmeScSuccess ↔ ftl.PassesSeq zid slba nrLba := by
  unfold ZnsFtl.checkWrite
  split
  · rename_i hunit
    exact refused_iff (by decide) fun h => hunit h.unit
  rename_i hunit
  split
  · rename_i hbound
    exact refused_iff (by decide) fun h => Bool.noConfusion (hbound.symm.trans h.boundary)
  rename_i hbound
  split
  · rename_i hwp
    exact refused_iff (by decide) fun h => hwp h.atWp
  rename_i hwp
  rw [ZnsFtl.writeSwitch_status_iff]
  exact ⟨fun h => ⟨Decidable.not_not.mp hunit, Bool.eq_true_of_not_eq_false hbound,
    Decidable.not_not.mp hwp, h⟩, fun h => h.writable⟩

/-- The buffer of the zone was charged. -/
theorem ZnsFtl.PassesSeq.setBuffer_iff (id : BufferId) (buf : Buffer) :
    (ftl.setBuffer id buf).PassesSeq zid slba nrLba ↔ ftl.PassesSeq zid slba nrLba :=
  ⟨fun h => ⟨h.unit, h.boundary, h.atWp, h.writable⟩,
    fun h => ⟨h.unit, h.boundary, h.atWp, h.writable⟩⟩

/-- The storage has no part in the checks. -/
theorem ZnsFtl.WritePasses.withStorage_iff (storage : Nat → Nat) (cmd : ZnsRwCommand) :
    ({ ftl with storage } : ZnsFtl).WritePasses cmd ↔ ftl.WritePasses cmd := by
  unfold ZnsFtl.WritePasses
  refine iff_of_eq (if_congr Iff.rfl (propext ?_) (propext ?_))
  · exact ⟨fun h hroom => ⟨(h hroom).unit, (h hroom).boundary, (h hroom).atWp, (h hroom).writable⟩,
      fun h hroom => ⟨(h hroom).unit, (h hroom).boundary, (h hroom).atWp, (h hroom).writable⟩⟩
  · exact ⟨fun h => ⟨h.unit, h.boundary, h.window, h.writable⟩,
      fun h => ⟨h.unit, h.boundary, h.window, h.writable⟩⟩

variable {req : ZnsRequest}

/-- The status of `__zns_write` behind the buffer is the one of its checks. -/
theorem ZnsFtl.writeCharged_status_iff : Ensures (fun _ => True) (ftl.writeCharged req zid slba)
    fun r => (r.2.result.status = nvmeScSuccess ↔ ftl.PassesSeq zid slba req.cmd.nrLba) := by
  rw [← ZnsFtl.checkWrite_status_iff]
  unfold ZnsFtl.writeCharged
  generalize ftl.checkWrite zid slba req.cmd.nrLba = checked
  obtain ⟨mid, status⟩ := checked
  dsimp only
  refine .ite (fun _ => .pure Iff.rfl) fun hstatus => ?_
  unfold ZnsFtl.programWrite
  exact Ensures.any.bind fun _ _ => Ensures.any.bind fun _ _ =>
    .pure (iff_of_true rfl (Decidable.not_not.mp hstatus))

/-- `__zns_write` and its buffer. -/
theorem ZnsFtl.znsWriteSeq_status_iff : Ensures (fun _ => True) (ftl.znsWriteSeq req) fun r =>
    (r.2.result.status = nvmeScSuccess ↔ (ftl.RoomFor req.cmd →
      ftl.PassesSeq (ftl.lbaToZone req.cmd.slba)
        (ftl.effectiveSlba req.cmd (ftl.lbaToZone req.cmd.slba)) req.cmd.nrLba)) := by
  have hpos : 0 < lbaToByte req.cmd.nrLba := Nat.mul_pos (Nat.succ_pos _) (by decide)
  unfold ZnsFtl.znsWriteSeq ZnsFtl.RoomFor
  dsimp only
  generalize ftl.lbaToZone req.cmd.slba = zid
  obtain hlarge | hfits :=
    Nat.lt_or_ge (ftl.buffers (ftl.writeBuffer zid)).size (lbaToByte req.cmd.nrLba)
  · rw [bufferAllocate_tooLarge hlarge]
    exact Ensures.bind (P := fun _ => False) (.throw trivial) fun _ h => h.elim
  obtain hshort | hroom :=
    Nat.lt_or_ge (ftl.buffers (ftl.writeBuffer zid)).remaining (lbaToByte req.cmd.nrLba)
  · rw [bufferAllocate_short hfits hshort, pure_bind]
    dsimp only
    rw [if_pos hpos]
    exact .pure (iff_of_true rfl fun hroom => absurd hroom (Nat.not_le.mpr hshort))
  · rw [bufferAllocate_room hfits hroom, pure_bind]
    dsimp only
    rw [if_neg (Nat.lt_irrefl _)]
    refine ZnsFtl.writeCharged_status_iff.mono fun r hr => hr.trans ?_
    rw [ZnsFtl.PassesSeq.setBuffer_iff]
    exact ⟨fun h _ => h, fun h => h hroom⟩

/-- The checks of a write to a zone with a window. -/
theorem ZnsFtl.rejectsZrwa_iff : ftl.rejectsZrwa zid slba nrLba = nvmeScSuccess ↔
    lbaToByte nrLba % ftl.ssd.sp.writeUnitSize = 0 ∧ ftl.checkBoundaryError slba nrLba = true ∧
      (ftl.zoneDescs zid).wp ≤ slba ∧
        lastLba slba nrLba ≤ ftl.zrwaImplEnd (ftl.zoneDescs zid).wp := by
  unfold ZnsFtl.rejectsZrwa
  dsimp only
  split
  · rename_i hunit
    exact iff_of_false (by decide) fun h => hunit h.1
  rename_i hunit
  split
  · rename_i hbound
    exact iff_of_false (by decide) fun h => Bool.noConfusion (hbound.symm.trans h.2.1)
  rename_i hbound
  split
  · rename_i hwindow
    exact iff_of_false (by decide) fun h => hwindow.elim (Nat.not_lt.mpr h.2.2.1)
      (Nat.not_lt.mpr h.2.2.2)
  rename_i hwindow
  rw [not_or, Nat.not_lt, Nat.not_lt] at hwindow
  exact iff_of_true rfl ⟨Decidable.not_not.mp hunit, Bool.eq_true_of_not_eq_false hbound, hwindow⟩

/-- The switch, with a window. -/
theorem ZnsFtl.writeSwitchZrwa_status_iff :
    Ensures (fun _ => True) (ftl.writeSwitchZrwa zid) fun r =>
      (r.2 = nvmeScSuccess ↔ ftl.WritableZrwa zid) := by
  unfold ZnsFtl.writeSwitchZrwa ZnsFtl.WritableZrwa
  cases (ftl.zoneDescs zid).state with
  | closed | empty =>
    dsimp only
    unfold ZnsFtl.acquireZoneResource
    cases ftl.isZoneResourceAvail .openZone with
    | true =>
      exact Ensures.any.bind fun _ _ => Ensures.any.bind fun _ _ => .pure (iff_of_true rfl rfl)
    | false => exact .pure (refused_iff (by decide) Bool.false_ne_true)
  | openedImpl | openedExpl => exact .pure (iff_of_true rfl trivial)
  | full | readOnly | offline => exact .pure (refused_iff (by decide) id)

/-- `__zns_write_zrwa` and its buffer. -/
theorem ZnsFtl.znsWriteZrwa_status_iff : Ensures (fun _ => True) (ftl.znsWriteZrwa req) fun r =>
    (r.2.result.status = nvmeScSuccess ↔
      ftl.PassesZrwa (ftl.lbaToZone req.cmd.slba) req.cmd.slba req.cmd.nrLba) := by
  have hcheck : Ensures (fun _ => True)
      (ftl.checkWriteZrwa (ftl.lbaToZone req.cmd.slba) req.cmd.slba req.cmd.nrLba) fun r =>
        (r.2 = nvmeScSuccess ↔
          ftl.PassesZrwa (ftl.lbaToZone req.cmd.slba) req.cmd.slba req.cmd.nrLba) := by
    unfold ZnsFtl.checkWriteZrwa
    refine .ite (fun hrejects => .pure ?_) fun hrejects => ?_
    · exact refused_iff hrejects fun h => hrejects
        (ZnsFtl.rejectsZrwa_iff.mpr ⟨h.unit, h.boundary, h.window⟩)
    · obtain ⟨hunit, hbound, hwindow⟩ := ZnsFtl.rejectsZrwa_iff.mp (Decidable.not_not.mp hrejects)
      exact ZnsFtl.writeSwitchZrwa_status_iff.mono fun r hr => hr.trans
        ⟨fun h => ⟨hunit, hbound, hwindow, h⟩, fun h => h.writable⟩
  unfold ZnsFtl.znsWriteZrwa
  refine hcheck.bind ?_
  rintro ⟨mid, status⟩ hstatus
  refine .ite (fun _ => .pure hstatus) fun hpassed => ?_
  have hpasses := hstatus.mp (Decidable.not_not.mp hpassed)
  unfold ZnsFtl.programZrwa ZnsFtl.finishZrwa
  refine Ensures.any.bind fun _ _ => Ensures.any.bind fun _ _ =>
    .ite (fun _ => .pure (iff_of_true rfl hpasses)) fun _ => ?_
  exact Ensures.any.bind fun _ _ => Ensures.any.bind fun _ _ => .pure (iff_of_true rfl hpasses)

/-- A write or an append ends in success, or is to be tried again, exactly when it passes the checks. -/
theorem ZnsFtl.znsWrite_status_iff : Ensures (fun _ => True) (ftl.znsWrite req) fun r =>
    (r.2.result.status = nvmeScSuccess ↔ ftl.WritePasses req.cmd) := by
  unfold ZnsFtl.znsWrite ZnsFtl.WritePasses
  dsimp only
  refine .ite (fun _ => .throw trivial) fun _ => .ite (fun hav => ?_) fun hav => ?_
  · rw [if_pos hav]
    exact ZnsFtl.znsWriteSeq_status_iff
  · rw [if_neg hav]
    exact ZnsFtl.znsWriteZrwa_status_iff

end Checks

end NvmeVirt

import NvmeVirt.Laws.Zns.Send

/-!
# Writes and appends to a zone without ZRWA

`SeqDone` lists the ways `__zns_write` ends: the buffer is short, the command is refused, or the
zone is written. The buffer is charged before the command is checked, so a refused command keeps the
charge.

The handler is cut where the code has its steps: the charge, the checks with the opening of the zone
(`Charged.checkWrite`), the programming loop, which changes the flash model and schedules releases
but no zone (`Programmed`), and the write pointer. The loop is by induction on its passes, with the
bytes released so far as an index.

What the flash model makes of the time of a program is a matter of `Ssd`; here only that it stays
well formed is used.
-/

set_option autoImplicit false

namespace NvmeVirt

open Outcome

/-- An EMPTY or CLOSED zone is opened by a write, an open one stays open. -/
def ZoneState.opened (state : ZoneState) : ZoneState :=
  if state.isOpen = true then state else .openedImpl

theorem ZoneState.opened_isOpen (state : ZoneState) : state.opened.isOpen = true := by
  cases state <;> rfl

/-- The descriptor after `lbas` more LBAs of a zone that ends at `limit`. -/
def ZoneDescriptor.advance (d : ZoneDescriptor) (limit lbas : Nat) : ZoneDescriptor :=
  { d with
    wp := u64 (d.wp + u32 lbas)
    state := if u64 (d.wp + u32 lbas) = limit then .full else d.state.opened }

namespace ZnsFtl

/-- Where `__increase_write_ptr` takes the zone to end. -/
def zoneLimit (ftl : ZnsFtl) (zid : Nat) : Nat :=
  u64 (ftl.zoneToSlba zid + (ftl.zoneDescs zid).zoneCapacity)

/-- The range and the zone pass every check of `__zns_write`. -/
structure Acceptable (ftl : ZnsFtl) (zid slba nrLba : Nat) : Prop where
  unit : lbaToByte nrLba % ftl.ssd.sp.writeUnitSize = 0
  boundary : ftl.checkBoundaryError slba nrLba = true
  atWp : slba = (ftl.zoneDescs zid).wp
  writable : (ftl.zoneDescs zid).state.isActive = true ∨
    (ftl.zoneDescs zid).state = .empty ∧ slba = (ftl.zoneDescs zid).zslba

/-- The bytes the loop of `__zns_write` schedules for release, from the page `lpn` on. -/
def releases (ftl : ZnsFtl) (zoneElpn elpn : Nat) : Nat → Nat → List Nat
  | 0, _ => []
  | passes + 1, lpn =>
    if lpn ≤ elpn then
      (if ftl.completes zoneElpn lpn (ftl.piecePgs lpn elpn) = true then
        [ftl.bufsToRelease zoneElpn (lpn + ftl.piecePgs lpn elpn - 1)] else []) ++
      ftl.releases zoneElpn elpn passes (lpn + ftl.piecePgs lpn elpn)
    else []

end ZnsFtl

section Checks

variable {ftl : ZnsFtl} {leak zid slba nrLba : Nat} {held : ZoneResourceType → Bool}

/-- A zone that has the active resource opens, if there is an open resource. -/
theorem Charged.openImplicitly (h : Charged leak zid held ftl) (hfree : held .openZone = false)
    (hactive : held .activeZone = true) (hzrwa : held .zrwaZone = (ftl.zoneDescs zid).zrwav) :
    ∃ ftl', ftl.openImplicitly zid = (ftl', nvmeScSuccess) ∧
      Ended leak zid { ftl.zoneDescs zid with state := .openedImpl } ftl ftl' := by
  obtain ⟨ftl', hacq, hc, info, rfl⟩ := h.acquire hfree (h.avail hfree rfl)
  unfold ZnsFtl.openImplicitly
  rw [hacq]
  apply Exists.intro
  apply And.intro rfl
  constructor
  · exact (Frame.setResInfo ..).trans (.setZoneDesc ..)
  · exact ZnsFtl.changeZoneState_self ..
  · apply (hc.changeZoneState .openedImpl).to
    intro k
    cases k with
    | activeZone => exact hactive
    | openZone => rfl
    | zrwaZone => exact hzrwa.trans (Bool.and_true _).symm

/-- A writable zone gets through the switch, and is open then. -/
theorem Charged.writeSwitch (h : Charged leak zid (ftl.zoneDescs zid).holds ftl)
    (hidle : (ftl.zoneDescs zid).state = .empty → (ftl.zoneDescs zid).zrwav = false)
    (hw : (ftl.zoneDescs zid).state.isActive = true ∨
      (ftl.zoneDescs zid).state = .empty ∧ slba = (ftl.zoneDescs zid).zslba) :
    ∃ ftl', ftl.writeSwitch zid slba = (ftl', nvmeScSuccess) ∧
      Ended leak zid { ftl.zoneDescs zid with state := (ftl.zoneDescs zid).state.opened } ftl ftl' := by
  unfold ZnsFtl.writeSwitch
  cases hs : (ftl.zoneDescs zid).state with
  | empty =>
    rw [hs] at hw
    have hslba := (hw.resolve_left Bool.false_ne_true).2
    have hnone := ZoneDescriptor.holds_empty hs
    dsimp only
    rw [if_neg (not_not_intro hslba), h.not_full (hnone .activeZone) rfl,
      h.not_full (hnone .openZone) rfl, if_neg Bool.false_ne_true, if_neg Bool.false_ne_true]
    obtain ⟨mid, hacq, hc, info, rfl⟩ :=
      h.acquire (hnone .activeZone) (h.avail (hnone .activeZone) rfl)
    rw [hacq]
    obtain ⟨ftl', hopen, hend⟩ := hc.openImplicitly (hnone .openZone) rfl
      ((hnone .zrwaZone).trans (hidle hs).symm)
    exact ⟨ftl', hopen, (Frame.setResInfo ..).trans hend.frame, hend.desc, hend.charged⟩
  | closed =>
    apply h.openImplicitly
    · simp [ZoneDescriptor.holds, ZoneState.isOpen, hs]
    · simp [ZoneDescriptor.holds, ZoneState.isActive, hs]
    · simp [ZoneDescriptor.holds, ZoneState.isActive, hs]
  | openedImpl =>
    have hd : { ftl.zoneDescs zid with state := ZoneState.openedImpl.opened } =
        ftl.zoneDescs zid := by
      show { ftl.zoneDescs zid with state := ZoneState.openedImpl } = _
      rw [← hs]
    rw [hd]
    exact ⟨ftl, rfl, .refl .., rfl, h⟩
  | openedExpl =>
    have hd : { ftl.zoneDescs zid with state := ZoneState.openedExpl.opened } =
        ftl.zoneDescs zid := by
      show { ftl.zoneDescs zid with state := ZoneState.openedExpl } = _
      rw [← hs]
    rw [hd]
    exact ⟨ftl, rfl, .refl .., rfl, h⟩
  | full | readOnly | offline =>
    rw [hs] at hw
    rcases hw with hactive | ⟨hempty, _⟩
    · exact absurd hactive Bool.false_ne_true
    · cases hempty

/-- A write that may go on finds its zone open. -/
theorem Charged.checkWrite (h : Charged leak zid (ftl.zoneDescs zid).holds ftl)
    (hidle : (ftl.zoneDescs zid).state = .empty → (ftl.zoneDescs zid).zrwav = false)
    (hacc : ftl.Acceptable zid slba nrLba) :
    ∃ ftl', ftl.checkWrite zid slba nrLba = (ftl', nvmeScSuccess) ∧
      Ended leak zid { ftl.zoneDescs zid with state := (ftl.zoneDescs zid).state.opened } ftl ftl' := by
  unfold ZnsFtl.checkWrite
  rw [if_neg (not_not_intro hacc.unit), hacc.boundary, if_neg nofun,
    if_neg (not_not_intro hacc.atWp)]
  exact h.writeSwitch hidle hacc.writable

/-- A command that fails a check leaves no trace besides its status. -/
theorem ZnsFtl.checkWrite_refused (hacc : ¬ ftl.Acceptable zid slba nrLba) :
    ∃ status, ftl.checkWrite zid slba nrLba = (ftl, status) ∧ status ≠ nvmeScSuccess := by
  unfold ZnsFtl.checkWrite
  split
  · exact ⟨_, rfl, by decide⟩
  rename_i hunit
  split
  · exact ⟨_, rfl, by decide⟩
  rename_i hbound
  split
  · exact ⟨_, rfl, by decide⟩
  rename_i hwp
  have hwritable : ¬ ((ftl.zoneDescs zid).state.isActive = true ∨
      (ftl.zoneDescs zid).state = .empty ∧ slba = (ftl.zoneDescs zid).zslba) := fun hw =>
    hacc ⟨Decidable.not_not.mp hunit, Bool.eq_true_of_not_eq_false hbound,
      Decidable.not_not.mp hwp, hw⟩
  unfold ZnsFtl.writeSwitch
  cases hs : (ftl.zoneDescs zid).state with
  | empty =>
    rw [hs] at hwritable
    have hslba : slba ≠ (ftl.zoneDescs zid).zslba := fun he => hwritable (.inr ⟨rfl, he⟩)
    rw [if_pos hslba]
    exact ⟨_, rfl, by decide⟩
  | closed | openedImpl | openedExpl =>
    rw [hs] at hwritable
    exact absurd (.inl rfl) hwritable
  | full | readOnly | offline => exact ⟨_, rfl, by decide⟩

/-- A zone that no longer holds the ZRWA unit it is charged for. -/
theorem Charged.lose (h : Charged leak zid held ftl) (hheld : held .zrwaZone = true) :
    Charged (leak + 1) zid (Function.update held .zrwaZone false) ftl := by
  constructor
  · exact h.zid_lt
  · intro k
    have hacq := h.acquired k
    cases k with
    | activeZone => exact hacq
    | openZone => exact hacq
    | zrwaZone =>
      rw [hheld, if_pos rfl] at hacq
      rw [Function.update_self, if_neg Bool.false_ne_true, hacq]
      show _ + 1 + leak = _ + 0 + (leak + 1)
      omega
  · exact h.bounded
  · exact h.total
  · exact h.underflows
  · exact h.nrZones_lt

/-- Moving the write pointer of an open zone loses the ZRWA unit when the zone becomes FULL. -/
theorem Charged.increaseWritePtr (h : Charged leak zid (ftl.zoneDescs zid).holds ftl)
    (hopen : (ftl.zoneDescs zid).state.isOpen = true) (lbas : Nat) :
    Ended (leak + if (ftl.zoneDescs zid).zrwav = true ∧
        u64 ((ftl.zoneDescs zid).wp + u32 lbas) = ftl.zoneLimit zid then 1 else 0) zid
      ((ftl.zoneDescs zid).advance (ftl.zoneLimit zid) lbas) ftl (ftl.increaseWritePtr zid lbas) := by
  have hactive : (ftl.zoneDescs zid).state.isActive = true := by
    cases hs : (ftl.zoneDescs zid).state <;> simp_all [ZoneState.isOpen, ZoneState.isActive]
  have hset := h.setZoneDesc
    { ftl.zoneDescs zid with wp := u64 ((ftl.zoneDescs zid).wp + u32 lbas) }
  unfold ZnsFtl.increaseWritePtr ZoneDescriptor.advance
  dsimp only
  have hlimit : (ftl.setZoneDesc zid
      { ftl.zoneDescs zid with wp := u64 ((ftl.zoneDescs zid).wp + u32 lbas) }).zoneToSlba zid =
      ftl.zoneToSlba zid := rfl
  rw [hlimit, ← ZnsFtl.zoneLimit]
  by_cases hfull : u64 ((ftl.zoneDescs zid).wp + u32 lbas) = ftl.zoneLimit zid
  · have hrel := (hset.release (T := .openZone) hopen).release (T := .activeZone) hactive
    rw [if_pos hfull, if_pos hfull]
    constructor
    · exact (((Frame.setZoneDesc ..).trans (.release ..)).trans (.release ..)).trans (.setZoneDesc ..)
    · simp
    · by_cases hav : (ftl.zoneDescs zid).zrwav = true
      · have hzrwa : (ftl.zoneDescs zid).holds .zrwaZone = true := by
          show ((ftl.zoneDescs zid).zrwav && (ftl.zoneDescs zid).state.isActive) = true
          rw [hav, hactive]
          rfl
        have hlost := hrel.lose
          (by rw [Function.update_of_ne (by decide), Function.update_of_ne (by decide), hzrwa])
        rw [if_pos ⟨hav, hfull⟩]
        apply (hlost.changeZoneState .full).to
        intro k
        cases k with
        | activeZone => rfl
        | openZone => rfl
        | zrwaZone => exact (Bool.and_false _).symm
      · rw [if_neg fun hboth => hav hboth.1]
        apply (hrel.changeZoneState .full).to
        intro k
        cases k with
        | activeZone => rfl
        | openZone => rfl
        | zrwaZone =>
          show ((ftl.zoneDescs zid).zrwav && (ftl.zoneDescs zid).state.isActive) =
            ((ftl.zoneDescs zid).zrwav && false)
          rw [Bool.eq_false_iff.mpr hav]
          rfl
  · have hstate : (ftl.zoneDescs zid).state.opened = (ftl.zoneDescs zid).state := if_pos hopen
    rw [if_neg hfull, if_neg hfull, if_neg fun hboth => hfull hboth.2, hstate]
    exact ⟨.setZoneDesc .., ZnsFtl.setZoneDesc_self .., hset⟩

end Checks

/-! ## Programming -/

section Program

variable {E : Fault → Prop} {ftl : ZnsFtl} {acc : ZoneProgram}

/-- What a programming loop adds to the releases: one of each of `bytes`, for `buffer`. -/
structure Programmed (acc : ZoneProgram) (buffer : BufferId) (bytes : List Nat)
    (acc' : ZoneProgram) : Prop where
  flash : acc.ssd.SameFlash acc'.ssd
  internal : ∃ more, acc'.internal = acc.internal ++ more ∧ more.map (·.bytes) = bytes ∧
    ∀ e ∈ more, e.buffer = buffer

theorem Programmed.none (h : acc.ssd.Timed) (buffer : BufferId) : Programmed acc buffer [] acc :=
  ⟨⟨rfl, rfl, h⟩, [], (List.append_nil _).symm, rfl, nofun⟩

/-- Two parts of the loop. -/
theorem Programmed.trans {acc' acc'' : ZoneProgram} {buffer : BufferId} {bytes bytes' : List Nat}
    (h : Programmed acc buffer bytes acc') (h' : Programmed acc' buffer bytes' acc'') :
    Programmed acc buffer (bytes ++ bytes') acc'' := by
  obtain ⟨more, hmore, hbytes, hbuf⟩ := h.internal
  obtain ⟨more', hmore', hbytes', hbuf'⟩ := h'.internal
  apply Programmed.mk (h.flash.trans h'.flash)
  apply Exists.intro (more ++ more')
  apply And.intro
  · rw [hmore', hmore, List.append_assoc]
  apply And.intro
  · rw [List.map_append, hbytes, hbytes']
  · intro e he
    rcases List.mem_append.mp he with hold | hnew
    · exact hbuf e hold
    · exact hbuf' e hnew

/-- One one-shot page is programmed, and its release scheduled. -/
theorem ZoneProgram.issue_ensures (h : acc.ssd.Timed) (ppa : Ppa) (stime xferSize : Nat)
    (buffer : BufferId) (bytes : Nat) :
    Ensures E (acc.issue ppa stime xferSize buffer bytes) (Programmed acc buffer [bytes]) := by
  apply (ssdAdvanceNand_ensures h _).bind
  intro r hr
  apply Ensures.pure
  apply Programmed.mk hr
  refine ⟨_, rfl, rfl, fun e he => ?_⟩
  rw [List.mem_singleton.mp he]

/-- A piece of the loop programs where it completes a one-shot page. -/
theorem ZnsFtl.programPiece_ensures (h : acc.ssd.Timed) (buffer : BufferId)
    (stime zoneElpn lpn pgs : Nat) :
    Ensures E (ftl.programPiece buffer stime zoneElpn lpn pgs acc)
      (Programmed acc buffer (if ftl.completes zoneElpn lpn pgs = true then
        [ftl.bufsToRelease zoneElpn (lpn + pgs - 1)] else [])) := by
  unfold ZnsFtl.programPiece
  split
  · exact acc.issue_ensures h _ _ _ _ _
  · exact .pure (.none h buffer)

/-- The whole loop releases what its pieces complete. -/
theorem programPages_ensures (buffer : BufferId) (stime zoneElpn elpn : Nat) :
    ∀ (passes lpn : Nat) {acc : ZoneProgram}, acc.ssd.Timed →
      Ensures E (ftl.programPages buffer stime zoneElpn elpn passes lpn acc)
        (Programmed acc buffer (ftl.releases zoneElpn elpn passes lpn)) := by
  intro passes
  induction passes with
  | zero => exact fun _ _ h => .pure (.none h buffer)
  | succ passes ih =>
    intro lpn acc h
    unfold ZnsFtl.programPages ZnsFtl.releases
    split
    · apply (ftl.programPiece_ensures h _ _ _ _ _).bind
      intro acc' hacc'
      apply (ih _ hacc'.flash.timed).mono
      exact fun _ hrest => hacc'.trans hrest
    · exact .pure (.none h buffer)

/-- A piece of the loop that flushes. -/
theorem ZnsFtl.flushPiece_ensures (h : acc.ssd.Timed) (buffer : BufferId) (stime lpn pgs : Nat) :
    Ensures E (ftl.flushPiece buffer stime lpn pgs acc) (fun acc' => acc.ssd.SameFlash acc'.ssd) := by
  unfold ZnsFtl.flushPiece
  split
  · exact (acc.issue_ensures h _ _ _ _ _).mono fun _ hi => hi.flash
  · exact .pure ⟨rfl, rfl, h⟩

/-- The whole loop that flushes. -/
theorem flushPages_ensures (buffer : BufferId) (stime : Nat) :
    ∀ (passes lpn remaining : Nat) {acc : ZoneProgram}, acc.ssd.Timed →
      Ensures E (ftl.flushPages buffer stime passes lpn remaining acc)
        (fun acc' => acc.ssd.SameFlash acc'.ssd) := by
  intro passes
  induction passes with
  | zero => exact fun _ _ _ h => .pure ⟨rfl, rfl, h⟩
  | succ passes ih =>
    intro lpn remaining acc h
    unfold ZnsFtl.flushPages
    apply Ensures.ite
    · intro _
      exact .pure ⟨rfl, rfl, h⟩
    intro _
    apply (ftl.flushPiece_ensures h _ _ _ _).bind
    intro acc' hacc'
    apply (ih _ _ hacc'.timed).mono
    exact fun _ hrest => hacc'.trans hrest

end Program

/-! ## `__zns_write` -/

/-- The write buffer of the zone of `cmd`, and the range the command is taken to mean. -/
def ZnsFtl.target (ftl : ZnsFtl) (cmd : ZnsRwCommand) : Nat := ftl.lbaToZone cmd.slba
def ZnsFtl.targetSlba (ftl : ZnsFtl) (cmd : ZnsRwCommand) : Nat :=
  ftl.effectiveSlba cmd (ftl.target cmd)
def ZnsFtl.targetBuffer (ftl : ZnsFtl) (cmd : ZnsRwCommand) : Buffer :=
  ftl.buffers (ftl.writeBuffer (ftl.target cmd))

/-- The bytes of a command. -/
def ZnsRwCommand.bytes (cmd : ZnsRwCommand) : Nat := lbaToByte cmd.nrLba

/-- The bytes of `cmd` are taken out of the write buffer. -/
def ZnsFtl.charge (ftl : ZnsFtl) (cmd : ZnsRwCommand) : ZnsFtl :=
  ftl.setBuffer (ftl.writeBuffer (ftl.target cmd))
    { ftl.targetBuffer cmd with remaining := (ftl.targetBuffer cmd).remaining - cmd.bytes }

/-- The command passes the checks of `__zns_write`. -/
def ZnsFtl.Accepts (ftl : ZnsFtl) (cmd : ZnsRwCommand) : Prop :=
  ftl.Acceptable (ftl.target cmd) (ftl.targetSlba cmd) cmd.nrLba

/-- The releases a write of `cmd` schedules. -/
def ZnsFtl.writeReleases (ftl : ZnsFtl) (cmd : ZnsRwCommand) : List Nat :=
  let slpn := ftl.lbaToLpn (ftl.targetSlba cmd)
  let elpn := ftl.lbaToLpn (lastLba (ftl.targetSlba cmd) cmd.nrLba)
  ftl.releases (ftl.zoneToElpn (ftl.target cmd)) elpn (elpn + 1 - slpn) slpn

/-- The zone of `cmd` has been written. -/
structure Written (leak : Nat) (ftl : ZnsFtl) (cmd : ZnsRwCommand) (r : ZnsFtl × ZnsAnswer) : Prop where
  accepted : r.2.accepted = true
  status : r.2.result.status = nvmeScSuccess
  slba : r.2.slba = ftl.targetSlba cmd
  inv : ZnsInv leak r.1
  zp : r.1.zp = ftl.zp
  sp : r.1.ssd.sp = ftl.ssd.sp
  desc : r.1.zoneDescs (ftl.target cmd) =
    (ftl.zoneDescs (ftl.target cmd)).advance (ftl.zoneLimit (ftl.target cmd)) cmd.nrLba
  others : ∀ z, z ≠ ftl.target cmd → r.1.zoneDescs z = ftl.zoneDescs z
  buffers : ∀ id, (∀ z, id ≠ .zrwa z) → r.1.buffers id = (ftl.charge cmd).buffers id
  internal : r.2.internal.map (·.bytes) = ftl.writeReleases cmd
  releasesTo : ∀ e ∈ r.2.internal, e.buffer = ftl.writeBuffer (ftl.target cmd)

/-- The ways `__zns_write` ends. -/
inductive SeqDone (leak : Nat) (ftl : ZnsFtl) (req : ZnsRequest) : ZnsFtl × ZnsAnswer → Prop where
  | short : (ftl.targetBuffer req.cmd).remaining < req.cmd.bytes →
    SeqDone leak ftl req (ftl, .retry req (ftl.targetSlba req.cmd))
  | refused {status : Nat} : req.cmd.bytes ≤ (ftl.targetBuffer req.cmd).remaining →
    ¬ ftl.Accepts req.cmd → status ≠ nvmeScSuccess →
    SeqDone leak ftl req (ftl.charge req.cmd, .done status req.nsecsStart (ftl.targetSlba req.cmd))
  | written {r : ZnsFtl × ZnsAnswer} : req.cmd.bytes ≤ (ftl.targetBuffer req.cmd).remaining →
    ftl.Accepts req.cmd → Written leak ftl req.cmd r → SeqDone leak ftl req r

section Write

variable {E : Fault → Prop} {leak : Nat} {ftl : ZnsFtl} {req : ZnsRequest}

theorem ZnsRwCommand.bytes_pos (cmd : ZnsRwCommand) : 0 < cmd.bytes := by
  unfold ZnsRwCommand.bytes lbaToByte ZnsRwCommand.nrLba lbaSize
  exact Nat.mul_pos (Nat.succ_pos _) (by decide)

/-- `ftl'` has the parameters of `ftl`, and so computes the same addresses. -/
structure SameGeometry (ftl ftl' : ZnsFtl) : Prop where
  zp : ftl'.zp = ftl.zp
  sp : ftl'.ssd.sp = ftl.ssd.sp

section Geometry

variable {ftl' : ZnsFtl} (g : SameGeometry ftl ftl')
include g

theorem SameGeometry.zoneToSlba : ftl'.zoneToSlba = ftl.zoneToSlba := by
  funext zid
  unfold ZnsFtl.zoneToSlba ZnsFtl.zoneLbas
  rw [g.zp, g.sp]

theorem SameGeometry.lbaToZone : ftl'.lbaToZone = ftl.lbaToZone := by
  funext lba
  unfold ZnsFtl.lbaToZone ZnsFtl.zoneLbas
  rw [g.zp, g.sp]

theorem SameGeometry.lbaToLpn : ftl'.lbaToLpn = ftl.lbaToLpn := by
  funext lba
  unfold ZnsFtl.lbaToLpn
  rw [g.sp]

theorem SameGeometry.zoneToElpn : ftl'.zoneToElpn = ftl.zoneToElpn := by
  funext zid
  unfold ZnsFtl.zoneToElpn ZnsFtl.zoneToElba
  rw [g.lbaToLpn, g.zoneToSlba]

theorem SameGeometry.pgOff : ftl'.pgOff = ftl.pgOff := by
  funext lpn
  unfold ZnsFtl.pgOff ZnsFtl.lpnToPpa ZnsFtl.lpnToZone ZnsFtl.zoneToSlpn ZnsFtl.zonePgs
  rw [g.zp, g.sp]

/-- What is released depends on the geometry alone. -/
theorem SameGeometry.releases (zoneElpn elpn : Nat) :
    ∀ passes lpn, ftl'.releases zoneElpn elpn passes lpn = ftl.releases zoneElpn elpn passes lpn := by
  intro passes
  induction passes with
  | zero => exact fun _ => rfl
  | succ passes ih =>
    intro lpn
    unfold ZnsFtl.releases ZnsFtl.completes ZnsFtl.piecePgs ZnsFtl.bufsToRelease
      ZnsFtl.unalignedSpace ZnsFtl.oneshotBytes
    rw [g.pgOff, g.zp, g.sp, ih]

end Geometry

/-- What is left of an FTL whose zone `zid` has come to the end of an operation on it. -/
theorem Ended.inv {zid : Nat} {d : ZoneDescriptor} {ftl' : ZnsFtl} {leak' : Nat}
    (h : Ended leak' zid d ftl ftl') (hinv : ZnsInv leak ftl) (hbusy : d.state ≠ .empty)
    {ssd : Ssd} (htimed : ssd.Timed) : ZnsInv leak' { ftl' with ssd } := by
  constructor
  · have hc : Charged leak' zid d.holds { ftl' with ssd } :=
      h.charged.congr rfl rfl fun _ _ => rfl
    apply hc.tallied
    intro k
    show _ = (ftl'.zoneDescs zid).holds k
    rw [h.desc]
  · intro z hz
    show (ftl'.zoneDescs z).state = .empty → (ftl'.zoneDescs z).zrwav = false
    by_cases hzid : z = zid
    · rw [hzid, h.desc]
      exact fun he => absurd he hbusy
    · rw [h.frame.others z hzid]
      apply hinv.idle z
      rw [← h.frame.zp]
      exact hz
  · exact htimed

/-- A zone that was written is no longer EMPTY. -/
theorem ZoneDescriptor.advance_busy (d : ZoneDescriptor) (limit lbas : Nat) :
    (d.advance limit lbas).state ≠ .empty := by
  unfold ZoneDescriptor.advance
  dsimp only
  split
  · exact nofun
  · cases d.state <;> exact nofun

/-- A charge is none of the zones' business. -/
theorem ZnsInv.charge (h : ZnsInv leak ftl) (cmd : ZnsRwCommand) : ZnsInv leak (ftl.charge cmd) :=
  ⟨⟨h.tallied.acquired, h.tallied.bounded, h.tallied.total, h.tallied.underflows,
    h.tallied.nrZones_lt⟩, h.idle, h.timed⟩

/-- Everything a write does after its checks, from a zone that is open by now. -/
theorem ZnsInv.programWrite {mid : ZnsFtl} (h : ZnsInv leak ftl)
    (hidle : (ftl.zoneDescs (ftl.target req.cmd)).zrwav = false)
    (hmid : Ended leak (ftl.target req.cmd)
      { ftl.zoneDescs (ftl.target req.cmd) with
        state := (ftl.zoneDescs (ftl.target req.cmd)).state.opened } (ftl.charge req.cmd) mid) :
    Ensures E (mid.programWrite req (ftl.target req.cmd) (ftl.targetSlba req.cmd))
      (Written leak ftl req.cmd) := by
  have hssd : mid.ssd = ftl.ssd := hmid.frame.ssd
  have hcharged := hmid.charged
  rw [← hmid.desc] at hcharged
  have hopen : (mid.zoneDescs (ftl.target req.cmd)).state.isOpen = true := by
    rw [hmid.desc]
    exact ZoneState.opened_isOpen _
  have hav : (mid.zoneDescs (ftl.target req.cmd)).zrwav = false := by
    rw [hmid.desc]
    exact hidle
  have hend := hcharged.increaseWritePtr hopen req.cmd.nrLba
  rw [if_neg fun hboth => by simp [hav] at hboth, Nat.add_zero] at hend
  have gmid : SameGeometry ftl mid := ⟨hmid.frame.zp, congrArg _ hssd⟩
  have hlimit : mid.zoneLimit (ftl.target req.cmd) = ftl.zoneLimit (ftl.target req.cmd) := by
    unfold ZnsFtl.zoneLimit
    rw [gmid.zoneToSlba, hmid.desc]
  have hdesc : (mid.zoneDescs (ftl.target req.cmd)).advance (mid.zoneLimit (ftl.target req.cmd))
      req.cmd.nrLba = (ftl.zoneDescs (ftl.target req.cmd)).advance
        (ftl.zoneLimit (ftl.target req.cmd)) req.cmd.nrLba := by
    rw [hlimit, hmid.desc]
    unfold ZoneDescriptor.advance
    have hidem := ZoneState.opened_isOpen (ftl.zoneDescs (ftl.target req.cmd)).state
    simp only [ZoneState.opened] at hidem ⊢
    simp only [hidem, if_true]
  rw [hdesc] at hend
  -- `hend` starts from `mid`; the invariant and the frame are those of `ftl`
  have hall : Ended leak (ftl.target req.cmd) ((ftl.zoneDescs (ftl.target req.cmd)).advance
      (ftl.zoneLimit (ftl.target req.cmd)) req.cmd.nrLba) (ftl.charge req.cmd)
      (mid.increaseWritePtr (ftl.target req.cmd) req.cmd.nrLba) :=
    ⟨hmid.frame.trans hend.frame, hend.desc, hend.charged⟩
  have htimed : (mid.increaseWritePtr (ftl.target req.cmd) req.cmd.nrLba).ssd.Timed := by
    rw [hall.frame.ssd]
    exact h.timed
  unfold ZnsFtl.programWrite
  apply (ssdAdvanceWriteBuffer_ensures htimed _ _).bind
  intro r hr
  have hacc : ({ ssd := r.1, nsecsLatest := r.2, internal := [] } : ZoneProgram).ssd.Timed := hr.timed
  apply (programPages_ensures _ _ _ _ _ _ hacc).bind
  intro acc hprog
  obtain ⟨more, hmore, hbytes, hbuf⟩ := hprog.internal
  have hinternal : acc.internal = more := hmore
  apply Ensures.pure
  constructor
  · rfl
  · rfl
  · rfl
  · exact hall.inv (h.charge req.cmd) (ZoneDescriptor.advance_busy _ _ _) hprog.flash.timed
  · exact hall.frame.zp
  · show acc.ssd.sp = _
    rw [hprog.flash.sp, hr.sp, hall.frame.ssd]
    rfl
  · exact hall.desc
  · exact hall.frame.others
  · exact fun id hid => hall.frame.buffers id (hid _)
  · show acc.internal.map (·.bytes) = _
    have gall : SameGeometry ftl (mid.increaseWritePtr (ftl.target req.cmd) req.cmd.nrLba) :=
      ⟨hall.frame.zp, congrArg Ssd.sp hall.frame.ssd⟩
    rw [hinternal, hbytes, gall.releases, gmid.lbaToLpn, gmid.zoneToElpn]
    rfl
  · intro e he
    show e.buffer = _
    have hbuffer : (mid.increaseWritePtr (ftl.target req.cmd) req.cmd.nrLba).writeBuffer
        (ftl.target req.cmd) = ftl.writeBuffer (ftl.target req.cmd) := by
      unfold ZnsFtl.writeBuffer
      rw [hall.frame.zp]
      rfl
    rw [← hbuffer]
    apply hbuf e
    rw [← hinternal]
    exact he

/-- The handler behind the charge, for a zone without ZRWA. -/
theorem ZnsInv.writeCharged (h : ZnsInv leak ftl) (hz : ftl.target req.cmd < ftl.zp.nrZones)
    (hav : (ftl.zoneDescs (ftl.target req.cmd)).zrwav = false)
    (hroom : req.cmd.bytes ≤ (ftl.targetBuffer req.cmd).remaining) :
    Ensures E ((ftl.charge req.cmd).writeCharged req (ftl.target req.cmd) (ftl.targetSlba req.cmd))
      (SeqDone leak ftl req) := by
  unfold ZnsFtl.writeCharged
  by_cases hacc : ftl.Accepts req.cmd
  · have hacc' : (ftl.charge req.cmd).Acceptable (ftl.target req.cmd) (ftl.targetSlba req.cmd)
        req.cmd.nrLba := ⟨hacc.unit, hacc.boundary, hacc.atWp, hacc.writable⟩
    obtain ⟨mid, hcheck, hend⟩ :=
      ((h.charge req.cmd).tallied.charged hz).checkWrite (fun _ => hav) hacc'
    rw [hcheck]
    dsimp only
    rw [if_neg (not_not_intro rfl)]
    exact (h.programWrite hav hend).mono fun r hr => .written hroom hacc hr
  · have hacc' : ¬ (ftl.charge req.cmd).Acceptable (ftl.target req.cmd) (ftl.targetSlba req.cmd)
        req.cmd.nrLba := fun ha => hacc ⟨ha.unit, ha.boundary, ha.atWp, ha.writable⟩
    obtain ⟨status, hcheck, hstatus⟩ := ZnsFtl.checkWrite_refused hacc'
    rw [hcheck]
    dsimp only
    rw [if_pos hstatus]
    exact .pure (.refused hroom hacc hstatus)

/-- `__zns_write` on a zone without ZRWA. -/
theorem ZnsInv.writeSeq (h : ZnsInv leak ftl) (hz : ftl.target req.cmd < ftl.zp.nrZones)
    (hav : (ftl.zoneDescs (ftl.target req.cmd)).zrwav = false)
    (hbug : (ftl.targetBuffer req.cmd).size < req.cmd.bytes → E .bugOn) :
    Ensures E (ftl.znsWriteSeq req) (SeqDone leak ftl req) := by
  have hfold : ftl.znsWriteSeq req =
      bufferAllocate (ftl.targetBuffer req.cmd) req.cmd.bytes >>= fun r =>
        let mid := ftl.setBuffer (ftl.writeBuffer (ftl.target req.cmd)) r.1
        if r.2 < req.cmd.bytes then pure (mid, .retry req (ftl.targetSlba req.cmd))
        else mid.writeCharged req (ftl.target req.cmd) (ftl.targetSlba req.cmd) := rfl
  rw [hfold]
  by_cases hfits : req.cmd.bytes ≤ (ftl.targetBuffer req.cmd).size
  · by_cases hroom : req.cmd.bytes ≤ (ftl.targetBuffer req.cmd).remaining
    · rw [bufferAllocate_room hfits hroom, pure_bind]
      dsimp only
      rw [if_neg (Nat.lt_irrefl _)]
      exact h.writeCharged hz hav hroom
    · have hshort := Nat.lt_of_not_le hroom
      rw [bufferAllocate_short hfits hshort, pure_bind]
      dsimp only
      have hsame : ftl.setBuffer (ftl.writeBuffer (ftl.target req.cmd)) (ftl.targetBuffer req.cmd) =
          ftl := by
        unfold ZnsFtl.setBuffer ZnsFtl.targetBuffer
        rw [Function.update_eq_self]
      rw [if_pos req.cmd.bytes_pos, hsame]
      exact .pure (.short hshort)
  · rw [bufferAllocate_tooLarge (Nat.lt_of_not_le hfits)]
    exact .throw (hbug (Nat.lt_of_not_le hfits))

end Write

end NvmeVirt

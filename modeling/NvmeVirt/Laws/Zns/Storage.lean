import NvmeVirt.Laws.Zns.Answers

/-!
# The storage of a zoned namespace

The dispatcher itself writes to the storage for one command only: a reset fills the bytes of its
zones with zeros. Everything else it does, whether it takes and releases resources, moves write
pointers, allocates buffer or programs flash, leaves the bytes of the namespace alone, and a command
that ends in an error leaves all of them alone.

The lemmas go from the small operations on descriptors and buffers (equations, in the simp set) up
to the handlers (`KeepsStorage`). The copies of the workers are a matter of the device runs, and are
not looked at here.
-/

set_option autoImplicit false

namespace NvmeVirt

open Outcome

section Storage

variable {ftl : ZnsFtl}

namespace ZnsFtl

@[simp] theorem setZoneDesc_storage (zid : Nat) (desc : ZoneDescriptor) :
    (ftl.setZoneDesc zid desc).storage = ftl.storage := rfl

@[simp] theorem setBuffer_storage (id : BufferId) (buf : Buffer) :
    (ftl.setBuffer id buf).storage = ftl.storage := rfl

@[simp] theorem changeZoneState_storage (zid : Nat) (state : ZoneState) :
    (ftl.changeZoneState zid state).storage = ftl.storage := rfl

@[simp] theorem releaseZoneResource_storage (type : ZoneResourceType) :
    (ftl.releaseZoneResource type).storage = ftl.storage := rfl

@[simp] theorem acquireZoneResource_storage (type : ZoneResourceType) :
    (ftl.acquireZoneResource type).1.storage = ftl.storage := by
  unfold acquireZoneResource
  split
  · rfl
  · rfl

@[simp] theorem releaseActive_storage (zid : Nat) :
    (ftl.releaseActive zid).storage = ftl.storage := by
  unfold releaseActive
  dsimp only
  split
  · rfl
  · rfl

@[simp] theorem increaseWritePtr_storage (zid nrLba : Nat) :
    (ftl.increaseWritePtr zid nrLba).storage = ftl.storage := by
  unfold increaseWritePtr
  dsimp only
  split
  · rfl
  · rfl

@[simp] theorem commitZrwa_storage (zid slba : Nat) (isClosed : Bool) :
    (ftl.commitZrwa zid slba isClosed).storage = ftl.storage := by
  unfold commitZrwa
  dsimp only
  split
  · cases isClosed <;> rfl
  · rfl

/-! ## Opening -/

@[simp] theorem openImplicitly_storage (zid : Nat) :
    (ftl.openImplicitly zid).1.storage = ftl.storage := by
  have hacq : (ftl.acquireZoneResource .openZone).1.storage = ftl.storage :=
    acquireZoneResource_storage .openZone
  unfold openImplicitly
  split
  · rename_i heq
    rw [heq] at hacq
    exact hacq
  · rename_i heq
    rw [heq] at hacq
    exact hacq

@[simp] theorem openExplicitly_storage (zid : Nat) :
    (ftl.openExplicitly zid).1.storage = ftl.storage := by
  have hacq : (ftl.acquireZoneResource .openZone).1.storage = ftl.storage :=
    acquireZoneResource_storage .openZone
  unfold openExplicitly
  split
  · rename_i heq
    rw [heq] at hacq
    exact hacq
  · rename_i heq
    rw [heq] at hacq
    exact hacq

theorem checkWrite_storage (zid slba nrLba : Nat) :
    (ftl.checkWrite zid slba nrLba).1.storage = ftl.storage := by
  unfold checkWrite writeSwitch
  cases (ftl.zoneDescs zid).state <;> simp [apply_ite Prod.fst, apply_ite ZnsFtl.storage]

theorem zmgmtSendOpenZone_storage (zid : Nat) (zrwa : Bool) :
    (ftl.zmgmtSendOpenZone zid zrwa).1.storage = ftl.storage := by
  unfold zmgmtSendOpenZone
  cases (ftl.zoneDescs zid).state <;> simp [apply_ite Prod.fst, apply_ite ZnsFtl.storage]

theorem zmgmtSendCloseZone_storage (zid : Nat) :
    (ftl.zmgmtSendCloseZone zid).1.storage = ftl.storage := by
  unfold zmgmtSendCloseZone
  cases (ftl.zoneDescs zid).state <;> rfl

theorem zmgmtSendFinishZone_storage (zid : Nat) :
    (ftl.zmgmtSendFinishZone zid).1.storage = ftl.storage := by
  unfold zmgmtSendFinishZone
  cases (ftl.zoneDescs zid).state <;> simp

theorem zmgmtSendOfflineZone_storage (zid : Nat) :
    (ftl.zmgmtSendOfflineZone zid).1.storage = ftl.storage := by
  unfold zmgmtSendOfflineZone
  cases (ftl.zoneDescs zid).state <;> rfl

/-! ## Writes and reads -/

/-- The program ends with the storage as it was. -/
def KeepsStorage {α : Type} (ftl : ZnsFtl) (m : FtlM (ZnsFtl × α)) : Prop :=
  Ensures (fun _ => True) m fun r => r.1.storage = ftl.storage

/-- The part of a sequential write that is charged and programmed. -/
theorem writeCharged_storage (req : ZnsRequest) (zid slba : Nat) :
    KeepsStorage ftl (ftl.writeCharged req zid slba) := by
  have hcheck := @checkWrite_storage ftl zid slba req.cmd.nrLba
  unfold writeCharged
  generalize ftl.checkWrite zid slba req.cmd.nrLba = checked at hcheck
  obtain ⟨mid, status⟩ := checked
  apply Ensures.ite
  · exact fun _ => .pure hcheck
  intro _
  unfold programWrite
  apply Ensures.any.bind
  rintro ⟨ssd, nsecsXfer⟩ _
  apply Ensures.any.bind
  intro acc _
  exact .pure ((increaseWritePtr_storage _ _).trans hcheck)

/-- `__zns_write` copies nothing itself. -/
theorem znsWriteSeq_storage (req : ZnsRequest) : KeepsStorage ftl (ftl.znsWriteSeq req) := by
  unfold znsWriteSeq
  apply Ensures.any.bind
  rintro ⟨buf, alloc⟩ _
  apply Ensures.ite
  · exact fun _ => .pure rfl
  · exact fun _ => writeCharged_storage req _ _

/-- The window's buffer is taken. -/
theorem zrwaBufferAllocate_storage (zid size : Nat) :
    KeepsStorage ftl (ftl.zrwaBufferAllocate zid size) := by
  unfold zrwaBufferAllocate
  apply Ensures.ite
  · exact fun _ => .throw trivial
  intro _
  apply Ensures.any.bind
  rintro ⟨buf, alloc⟩ _
  exact .pure rfl

theorem checkWriteZrwa_storage (zid slba nrLba : Nat) :
    KeepsStorage ftl (ftl.checkWriteZrwa zid slba nrLba) := by
  unfold checkWriteZrwa
  apply Ensures.ite
  · exact fun _ => .pure rfl
  intro _
  unfold writeSwitchZrwa
  cases (ftl.zoneDescs zid).state with
  | openedImpl | openedExpl | full | readOnly | offline => exact .pure rfl
  | closed | empty =>
    -- a zone that is opened gets its buffer
    have hacq := @acquireZoneResource_storage ftl .openZone
    dsimp only
    generalize ftl.acquireZoneResource .openZone = acquired at hacq ⊢
    obtain ⟨mid, got⟩ := acquired
    cases got with
    | false => exact .pure hacq
    | true =>
      apply (zrwaBufferAllocate_storage zid mid.zp.zrwaSize).bind
      rintro ⟨ftl', alloc⟩ hbuf
      apply Ensures.any.bind
      intro _ _
      exact .pure (hbuf.trans hacq)

/-- What the window flushes is programmed. -/
theorem programZrwa_storage (req : ZnsRequest) (zid : Nat) :
    KeepsStorage ftl (ftl.programZrwa req zid) := by
  unfold programZrwa
  apply Ensures.any.bind
  intro nrLbasFlush _
  have hflush : KeepsStorage ftl (ftl.flushImplicitly zid nrLbasFlush) := by
    unfold flushImplicitly
    apply Ensures.ite
    · intro _
      apply (zrwaBufferAllocate_storage zid _).bind
      rintro ⟨mid, alloc⟩ hmid
      apply Ensures.ite
      · exact fun _ => .pure hmid
      · exact fun _ => .pure ((increaseWritePtr_storage _ _).trans hmid)
    · exact fun _ => .pure rfl
  apply hflush.bind
  rintro ⟨mid, room⟩ hmid
  unfold finishZrwa
  apply Ensures.ite
  · exact fun _ => .pure hmid
  intro _
  apply Ensures.any.bind
  rintro ⟨ssd, nsecsXfer⟩ _
  apply Ensures.any.bind
  intro acc _
  exact .pure hmid

/-- Neither does `__zns_write_zrwa`. -/
theorem znsWriteZrwa_storage (req : ZnsRequest) : KeepsStorage ftl (ftl.znsWriteZrwa req) := by
  unfold znsWriteZrwa
  apply (checkWriteZrwa_storage _ _ _).bind
  rintro ⟨mid, status⟩ hmid
  apply Ensures.ite
  · exact fun _ => .pure hmid
  · exact fun _ => (programZrwa_storage req _).mono fun r hr => hr.trans hmid

/-- A write leaves the bytes to the worker. -/
theorem znsWrite_storage (req : ZnsRequest) : KeepsStorage ftl (ftl.znsWrite req) := by
  unfold znsWrite
  apply Ensures.ite
  · exact fun _ => .throw trivial
  intro _
  apply Ensures.ite
  · exact fun _ => znsWriteSeq_storage req
  · exact fun _ => znsWriteZrwa_storage req

/-- So does a read. -/
theorem znsRead_storage (req : ZnsRequest) : KeepsStorage ftl (ftl.znsRead req) := by
  unfold znsRead
  apply Ensures.ite
  · exact fun _ => .throw trivial
  intro _
  apply Ensures.any.bind
  rintro ⟨ssd, nsecsLatest⟩ _
  apply Ensures.any.bind
  rintro ⟨ssd', nsecsCompleted⟩ _
  exact .pure rfl

/-! ## Errors -/

/-- An explicit flush moves the write pointer only. -/
theorem flushExplicitZrwa_storage (slba : Nat) :
    KeepsStorage ftl (ftl.zmgmtSendFlushExplicitZrwa slba) := by
  unfold zmgmtSendFlushExplicitZrwa
  apply Ensures.ite
  · exact fun _ => .pure rfl
  intro _
  apply Ensures.ite
  · exact fun _ => .pure rfl
  intro _
  apply Ensures.ite
  · exact fun _ => .throw trivial
  intro _
  apply Ensures.ite
  · exact fun _ => .pure rfl
  intro _
  cases (ftl.zoneDescs (ftl.lbaToZone slba)).state with
  | openedExpl | openedImpl | closed => exact .pure (commitZrwa_storage ..)
  | empty | full | readOnly | offline => exact .pure rfl

/-- An action that ends in an error, be it one nobody assigned. -/
theorem zmgmtSendOne_failed (slba : Nat) (action : ZoneSendAction) (option : Bool) :
    Ensures (fun _ => True) (ftl.zmgmtSendOne slba action option) fun r =>
      r.2 ≠ nvmeScSuccess → r.1.storage = ftl.storage := by
  unfold zmgmtSendOne
  apply Ensures.ite
  · exact fun _ => .throw trivial
  intro _
  cases action with
  | closeZone => exact .pure fun _ => zmgmtSendCloseZone_storage _
  | finishZone => exact .pure fun _ => zmgmtSendFinishZone_storage _
  | openZone => exact .pure fun _ => zmgmtSendOpenZone_storage ..
  | resetZone =>
    exact .pure fun hfailed => congrArg ZnsFtl.storage ((ftl.resetZone_atomic _).2 hfailed)
  | offlineZone => exact .pure fun _ => zmgmtSendOfflineZone_storage _
  | flushExplZrwa => exact (flushExplicitZrwa_storage slba).mono fun _ hr _ => hr
  | other => exact Ensures.any.bind fun _ _ => .pure fun _ => rfl

/-- A command that ends in an error leaves the storage as it was. -/
theorem znsProcNvmeIoCmd_failed (cmd : ZnsCommand) (nsecsStart : Nat) :
    Ensures (fun _ => True) (ftl.znsProcNvmeIoCmd cmd nsecsStart) fun r =>
      r.2.result.status ≠ nvmeScSuccess → r.1.storage = ftl.storage := by
  unfold znsProcNvmeIoCmd
  cases cmd with
  | write cmd => exact (znsWrite_storage _).mono fun _ hr _ => hr
  | read cmd => exact (znsRead_storage _).mono fun _ hr _ => hr
  | flush => exact Ensures.any.bind fun _ _ => .pure fun _ => rfl
  | zoneMgmtSend cmd =>
    have hsend : Ensures (fun _ => True) (ftl.znsZmgmtSend cmd nsecsStart) fun r =>
        r.2.status ≠ nvmeScSuccess → r.1.storage = ftl.storage := by
      by_cases hall : cmd.selectAll = true
      · exact (ftl.sendAll_status nsecsStart hall).mono fun _ hr hfailed => absurd hr hfailed
      · unfold znsZmgmtSend
        rw [if_neg hall]
        apply (zmgmtSendOne_failed _ _ _).bind
        exact fun _ hr => .pure hr
    exact hsend.bind fun _ hr => .pure hr
  | zoneMgmtRecv cmd => exact .pure fun _ => rfl
  | other => exact .pure fun _ => rfl

end ZnsFtl

end Storage

end NvmeVirt

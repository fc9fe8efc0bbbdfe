import NvmeVirt.Nvme
import NvmeVirt.Zns.State

/-!
# Reads, writes and zone appends (`zns_read_write.c`)

`__zns_write` and `__zns_write_zrwa` first decide on a status and then move the write pointer and
program the flash. The first half is `checkWrite` and `checkWriteZrwa`; a status other than success
is the source's `goto out`. Wordlines whose buffer space is to be released later are returned in the
order the source schedules them.

A zone number comes from the address of the command and is used as it is: here one past `nr_zones`
stops the run in `outOfBounds`, and `Laws/Zns/Behind` has the runs in which it does not. An append
gets its address from the write pointer before the buffer is asked, and the entry keeps it.
-/

set_option autoImplicit false

namespace NvmeVirt

open Outcome

/-- `struct nvme_rw_command` as the zoned FTL reads it; `append` tells `nvme_cmd_zone_append` from
the other opcodes. -/
structure ZnsRwCommand where
  append : Bool
  slba : Nat
  length : Nat
  fua : Bool
  slba_lt : slba < 2 ^ 64
  length_lt : length < 2 ^ 16
  deriving Repr

structure ZnsRequest where
  cmd : ZnsRwCommand
  nsecsStart : Nat

/-- `__nr_lbas_from_rw_cmd`. -/
def ZnsRwCommand.nrLba (cmd : ZnsRwCommand) : Nat := cmd.length + 1

/-- The last LBA from `slba` on. -/
def lastLba (slba nrLba : Nat) : Nat := sub64 (slba + nrLba) 1

/-- A release given to `schedule_internal_operation`. -/
structure ScheduledRelease where
  nsecsTarget : Nat
  buffer : BufferId
  bytes : Nat
  deriving DecidableEq, Repr

/-- What the handler of a command answers: whether the command is consumed, its result, the releases
it scheduled, and the `slba` the submission entry holds afterwards. -/
structure ZnsAnswer where
  accepted : Bool
  result : NvmevResult
  internal : List ScheduledRelease
  slba : Nat

namespace ZnsFtl

/-- `__check_boundary_error`: true when the range stays in one zone. -/
def checkBoundaryError (ftl : ZnsFtl) (slba nrLba : Nat) : Bool :=
  ftl.lbaToZone slba == ftl.lbaToZone (lastLba slba (u32 nrLba))

/-- `__increase_write_ptr`; past the end of the zone the source only prints an error. -/
def increaseWritePtr (ftl : ZnsFtl) (zid nrLba : Nat) : ZnsFtl :=
  let curWritePtr := u64 ((ftl.zoneDescs zid).wp + u32 nrLba)
  let zoneCapacity := (ftl.zoneDescs zid).zoneCapacity
  let ftl := ftl.setZoneDesc zid { ftl.zoneDescs zid with wp := curWritePtr }
  if curWritePtr = u64 (ftl.zoneToSlba zid + zoneCapacity) then
    ((ftl.releaseZoneResource .openZone).releaseZoneResource .activeZone).changeZoneState zid .full
  else ftl

/-- `__lpn_to_ppa`. -/
def lpnToPpa (ftl : ZnsFtl) (lpn : Nat) : Ppa :=
  let spp := ftl.ssd.sp
  let zone := ftl.lpnToZone lpn
  let off := sub64 lpn (ftl.zoneToSlpn zone)
  let sdie := u32 (zone * ftl.zp.diesPerZone % spp.ttLuns)
  let die := u32 (sdie + off / spp.pgsPerOneshotpg % ftl.zp.diesPerZone)
  Ppa.ofFields (die % spp.nchs) (die / spp.nchs) 0 0 (off % spp.pgsPerOneshotpg)

/-- `pg_off` of the page `lpn`. -/
def pgOff (ftl : ZnsFtl) (lpn : Nat) : Nat := (ftl.lpnToPpa lpn).pg % ftl.ssd.sp.pgsPerOneshotpg

/-- The bytes of a one-shot page. -/
def oneshotBytes (ftl : ZnsFtl) : Nat := ftl.ssd.sp.pgsPerOneshotpg * ftl.ssd.sp.pgsz

end ZnsFtl

/-! ## Programming the flash -/

/-- What the programming loops thread. -/
structure ZoneProgram where
  ssd : Ssd
  nsecsLatest : Nat
  internal : List ScheduledRelease

/-- Program the one-shot page at `ppa` and schedule the release of `bytes` of a buffer. -/
def ZoneProgram.issue (acc : ZoneProgram) (ppa : Ppa) (stime xferSize : Nat) (buffer : BufferId)
    (bytes : Nat) : FtlM ZoneProgram := do
  let (ssd, nsecsCompleted) ← ssdAdvanceNand acc.ssd
    { type := .userIo, cmd := .write, xferSize, stime, interleavePciDma := false, ppa }
  pure
    { ssd
      nsecsLatest := max nsecsCompleted acc.nsecsLatest
      internal := acc.internal ++ [{ nsecsTarget := nsecsCompleted, buffer, bytes }] }

namespace ZnsFtl

/-- `unaligned_space`. -/
def unalignedSpace (ftl : ZnsFtl) : Nat := ftl.zp.zoneSize % ftl.oneshotBytes

/-- `bufs_to_release`, for a piece that ends with the page `last`. -/
def bufsToRelease (ftl : ZnsFtl) (zoneElpn last : Nat) : Nat :=
  if last = zoneElpn ∧ 0 < ftl.unalignedSpace then ftl.unalignedSpace else ftl.oneshotBytes

/-- `pgs`: the pages from `lpn` to `elpn` or to the end of the one-shot page. -/
def piecePgs (ftl : ZnsFtl) (lpn elpn : Nat) : Nat :=
  min (elpn - lpn + 1) (ftl.ssd.sp.pgsPerOneshotpg - ftl.pgOff lpn)

/-- A piece that ends with the page `last` completes its one-shot page, or the zone. -/
def completes (ftl : ZnsFtl) (zoneElpn lpn pgs : Nat) : Bool :=
  ftl.pgOff lpn + pgs = ftl.ssd.sp.pgsPerOneshotpg ∨ lpn + pgs - 1 = zoneElpn

/-- The `if` in the loop of `__zns_write`, for `pgs` pages from `lpn` on. -/
def programPiece (ftl : ZnsFtl) (buffer : BufferId) (stime zoneElpn lpn pgs : Nat)
    (acc : ZoneProgram) : FtlM ZoneProgram :=
  if ftl.completes zoneElpn lpn pgs = true then
    acc.issue (ftl.lpnToPpa lpn) stime ftl.oneshotBytes buffer
      (ftl.bufsToRelease zoneElpn (lpn + pgs - 1))
  else pure acc

/-- The loop of `__zns_write` from the page `lpn` on. A piece has at least one page, so
`elpn + 1 - lpn` passes are enough. -/
def programPages (ftl : ZnsFtl) (buffer : BufferId) (stime zoneElpn elpn : Nat) :
    Nat → (lpn : Nat) → ZoneProgram → FtlM ZoneProgram
  | 0, _, acc => pure acc
  | passes + 1, lpn, acc =>
    if lpn ≤ elpn then do
      let pgs := ftl.piecePgs lpn elpn
      let acc ← ftl.programPiece buffer stime zoneElpn lpn pgs acc
      ftl.programPages buffer stime zoneElpn elpn passes (lpn + pgs) acc
    else pure acc

/-- The `if` in the loop of `__zns_write_zrwa`. -/
def flushPiece (ftl : ZnsFtl) (buffer : BufferId) (stime lpn pgs : Nat) (acc : ZoneProgram) :
    FtlM ZoneProgram :=
  if ftl.pgOff lpn + pgs = ftl.ssd.sp.pgsPerOneshotpg then
    acc.issue (ftl.lpnToPpa lpn) stime ftl.oneshotBytes buffer ftl.oneshotBytes
  else pure acc

/-- The loop of `__zns_write_zrwa`; `remaining` passes are enough. -/
def flushPages (ftl : ZnsFtl) (buffer : BufferId) (stime : Nat) :
    Nat → (lpn remaining : Nat) → ZoneProgram → FtlM ZoneProgram
  | 0, _, _, acc => pure acc
  | passes + 1, lpn, remaining, acc =>
    if remaining = 0 then pure acc
    else do
      let pgs := min remaining (ftl.ssd.sp.pgsPerOneshotpg - ftl.pgOff lpn)
      let acc ← ftl.flushPiece buffer stime lpn pgs acc
      ftl.flushPages buffer stime passes (lpn + pgs) (remaining - pgs) acc

end ZnsFtl

/-- The result of a command that has gone through, from the completion time of its flash operations
and of its transfer. -/
def writeResult (spp : SsdParams) (fua : Bool) (nsecsLatest nsecsXfer : Nat) : NvmevResult :=
  { status := nvmeScSuccess
    nsecsTarget := if (fua || !spp.writeEarlyCompletion) = true then nsecsLatest else nsecsXfer }

/-- An answer `true` that did no flash work. -/
def ZnsAnswer.done (status nsecsTarget slba : Nat) : ZnsAnswer :=
  { accepted := true, result := { status, nsecsTarget }, internal := [], slba }

/-- An answer `false`: the result is the one the caller set. -/
def ZnsAnswer.retry (req : ZnsRequest) (slba : Nat) : ZnsAnswer :=
  { accepted := false
    result := { status := nvmeScSuccess, nsecsTarget := req.nsecsStart }
    internal := [], slba }

/-! ## `__zns_write` -/

namespace ZnsFtl

/-- The case `ZONE_STATE_CLOSED` of the switch, into which `ZONE_STATE_EMPTY` falls through. -/
def openImplicitly (ftl : ZnsFtl) (zid : Nat) : ZnsFtl × Nat :=
  match ftl.acquireZoneResource .openZone with
  | (ftl, false) => (ftl, nvmeScZnsNoOpenZone)
  | (ftl, true) => (ftl.changeZoneState zid .openedImpl, nvmeScSuccess)

/-- The `switch` of `__zns_write`. -/
def writeSwitch (ftl : ZnsFtl) (zid slba : Nat) : ZnsFtl × Nat :=
  match (ftl.zoneDescs zid).state with
  | .empty =>
    if slba ≠ (ftl.zoneDescs zid).zslba then (ftl, nvmeScZnsInvalidWrite)
    else if ftl.isZoneResourceFull .activeZone = true then (ftl, nvmeScZnsNoActiveZone)
    else if ftl.isZoneResourceFull .openZone = true then (ftl, nvmeScZnsNoOpenZone)
    else (ftl.acquireZoneResource .activeZone).1.openImplicitly zid
  | .closed => ftl.openImplicitly zid
  | .openedImpl | .openedExpl => (ftl, nvmeScSuccess)
  | .full => (ftl, nvmeScZnsErrFull)
  | .readOnly => (ftl, nvmeScZnsErrReadOnly)
  | .offline => (ftl, nvmeScZnsErrOffline)

/-- The checks of `__zns_write` and its switch. -/
def checkWrite (ftl : ZnsFtl) (zid slba nrLba : Nat) : ZnsFtl × Nat :=
  if lbaToByte nrLba % ftl.ssd.sp.writeUnitSize ≠ 0 then (ftl, nvmeScZnsInvalidWrite)
  else if ftl.checkBoundaryError slba nrLba = false then (ftl, nvmeScZnsErrBoundary)
  else if slba ≠ (ftl.zoneDescs zid).wp then (ftl, nvmeScZnsInvalidWrite)
  else ftl.writeSwitch zid slba

/-- `write_buffer` of the zone `zid`. -/
def writeBuffer (ftl : ZnsFtl) (zid : Nat) : BufferId :=
  if ftl.zp.zoneWbSize ≠ 0 then .zone zid else .global

/-- The start of the range: an append starts at the write pointer. -/
def effectiveSlba (ftl : ZnsFtl) (cmd : ZnsRwCommand) (zid : Nat) : Nat :=
  if cmd.append = true then (ftl.zoneDescs zid).wp else cmd.slba

/-- `__zns_write` once the state allows the write. -/
def programWrite (ftl : ZnsFtl) (req : ZnsRequest) (zid slba : Nat) : FtlM (ZnsFtl × ZnsAnswer) := do
  let slpn := ftl.lbaToLpn slba
  let elpn := ftl.lbaToLpn (lastLba slba req.cmd.nrLba)
  let zoneElpn := ftl.zoneToElpn zid
  let ftl := ftl.increaseWritePtr zid req.cmd.nrLba
  let (ssd, nsecsXfer) ← ssdAdvanceWriteBuffer ftl.ssd req.nsecsStart (lbaToByte req.cmd.nrLba)
  let acc ← ftl.programPages (ftl.writeBuffer zid) nsecsXfer zoneElpn elpn (elpn + 1 - slpn) slpn
    { ssd, nsecsLatest := nsecsXfer, internal := [] }
  pure ({ ftl with ssd := acc.ssd },
    { accepted := true
      result := writeResult ftl.ssd.sp req.cmd.fua acc.nsecsLatest nsecsXfer
      internal := acc.internal, slba })

/-- `__zns_write` once the buffer is charged. -/
def writeCharged (ftl : ZnsFtl) (req : ZnsRequest) (zid slba : Nat) : FtlM (ZnsFtl × ZnsAnswer) :=
  match ftl.checkWrite zid slba req.cmd.nrLba with
  | (ftl, status) =>
    if status ≠ nvmeScSuccess then pure (ftl, .done status req.nsecsStart slba)
    else ftl.programWrite req zid slba

/-- `__zns_write`. -/
def znsWriteSeq (ftl : ZnsFtl) (req : ZnsRequest) : FtlM (ZnsFtl × ZnsAnswer) := do
  let zid := ftl.lbaToZone req.cmd.slba
  let slba := ftl.effectiveSlba req.cmd zid
  let bytes := lbaToByte req.cmd.nrLba
  let (buf, alloc) ← bufferAllocate (ftl.buffers (ftl.writeBuffer zid)) bytes
  let ftl := ftl.setBuffer (ftl.writeBuffer zid) buf
  if alloc < bytes then pure (ftl, .retry req slba)
  else ftl.writeCharged req zid slba

/-! ## `__zns_write_zrwa` -/

/-- `buffer_allocate` on the ZRWA buffer of a zone, which exists when it has a size. -/
def zrwaBufferAllocate (ftl : ZnsFtl) (zid size : Nat) : FtlM (ZnsFtl × Nat) :=
  if ftl.zp.zrwaBufferSize = 0 then throw .nullPointer
  else do
    let (buf, alloc) ← bufferAllocate (ftl.buffers (.zrwa zid)) size
    pure (ftl.setBuffer (.zrwa zid) buf, alloc)

/-- The first and the last LBA behind the window, up to which a write flushes implicitly. -/
def zrwaImplStart (ftl : ZnsFtl) (wp : Nat) : Nat := u64 (wp + ftl.zp.lbasPerZrwa)
def zrwaImplEnd (ftl : ZnsFtl) (wp : Nat) : Nat := sub64 (wp + u32 (2 * ftl.zp.lbasPerZrwa)) 1

/-- The `switch` of `__zns_write_zrwa`. -/
def writeSwitchZrwa (ftl : ZnsFtl) (zid : Nat) : FtlM (ZnsFtl × Nat) :=
  match (ftl.zoneDescs zid).state with
  | .closed | .empty =>
    match ftl.acquireZoneResource .openZone with
    | (ftl, false) => pure (ftl, nvmeScZnsNoOpenZone)
    | (ftl, true) => do
      let (ftl, alloc) ← ftl.zrwaBufferAllocate zid ftl.zp.zrwaSize
      nvmevAssert (alloc ≠ 0)
      pure (ftl.changeZoneState zid .openedImpl, nvmeScSuccess)
  | .openedImpl | .openedExpl => pure (ftl, nvmeScSuccess)
  | .full => pure (ftl, nvmeScZnsErrFull)
  | .readOnly => pure (ftl, nvmeScZnsErrReadOnly)
  | .offline => pure (ftl, nvmeScZnsErrOffline)

/-- The checks of `__zns_write_zrwa` before its switch. -/
def rejectsZrwa (ftl : ZnsFtl) (zid slba nrLba : Nat) : Nat :=
  let wp := (ftl.zoneDescs zid).wp
  if lbaToByte nrLba % ftl.ssd.sp.writeUnitSize ≠ 0 then nvmeScZnsInvalidWrite
  else if ftl.checkBoundaryError slba nrLba = false then nvmeScZnsErrBoundary
  else if slba < wp ∨ ftl.zrwaImplEnd wp < lastLba slba nrLba then nvmeScZnsInvalidWrite
  else nvmeScSuccess

/-- The checks of `__zns_write_zrwa` and its switch. -/
def checkWriteZrwa (ftl : ZnsFtl) (zid slba nrLba : Nat) : FtlM (ZnsFtl × Nat) :=
  if ftl.rejectsZrwa zid slba nrLba ≠ nvmeScSuccess then
    pure (ftl, ftl.rejectsZrwa zid slba nrLba)
  else ftl.writeSwitchZrwa zid

/-- `DIV_ROUND_UP(lbas, lbas_per_zrwafg) * lbas_per_zrwafg`. -/
def roundUpZrwafg (ftl : ZnsFtl) (lbas : Nat) : FtlM Nat :=
  if ftl.zp.lbasPerZrwafg = 0 then throw .divideByZero
  else pure (u64 (u64 (lbas + ftl.zp.lbasPerZrwafg - 1) / ftl.zp.lbasPerZrwafg *
    ftl.zp.lbasPerZrwafg))

/-- `nr_lbas_flush`. -/
def implicitFlush (ftl : ZnsFtl) (zid elba wp : Nat) : FtlM Nat :=
  if ftl.zrwaImplStart wp ≤ elba then
    ftl.roundUpZrwafg (u64 (sub64 elba (ftl.zrwaImplStart wp) + 1))
  else if elba = ftl.zoneToElba zid then pure (u64 (sub64 elba wp + 1))
  else pure 0

/-- The part of `__zns_write_zrwa` that moves the write pointer: the FTL, and whether the ZRWA buffer
had room. -/
def flushImplicitly (ftl : ZnsFtl) (zid nrLbasFlush : Nat) : FtlM (ZnsFtl × Bool) :=
  if 0 < nrLbasFlush then do
    let (ftl, alloc) ← ftl.zrwaBufferAllocate zid (u64 (lbaToByte nrLbasFlush))
    if alloc = 0 then pure (ftl, false)
    else pure (ftl.increaseWritePtr zid nrLbasFlush, true)
  else pure (ftl, true)

/-- The end of `__zns_write_zrwa`, after the flush from the old write pointer `wp`. -/
def finishZrwa (ftl : ZnsFtl) (req : ZnsRequest) (zid wp nrLbasFlush : Nat) (room : Bool) :
    FtlM (ZnsFtl × ZnsAnswer) :=
  if room = false then pure (ftl, .retry req req.cmd.slba)
  else do
    let (ssd, nsecsXfer) ← ssdAdvanceWriteBuffer ftl.ssd req.nsecsStart (lbaToByte req.cmd.nrLba)
    let remaining := nrLbasFlush / ftl.ssd.sp.secsPerPg
    let acc ← ftl.flushPages (.zrwa zid) nsecsXfer remaining (ftl.lbaToLpn wp) remaining
      { ssd, nsecsLatest := nsecsXfer, internal := [] }
    pure ({ ftl with ssd := acc.ssd },
      { accepted := true
        result := writeResult ftl.ssd.sp req.cmd.fua acc.nsecsLatest nsecsXfer
        internal := acc.internal, slba := req.cmd.slba })

/-- `__zns_write_zrwa` once the state allows the write. -/
def programZrwa (ftl : ZnsFtl) (req : ZnsRequest) (zid : Nat) : FtlM (ZnsFtl × ZnsAnswer) := do
  let wp := (ftl.zoneDescs zid).wp
  let elba := lastLba req.cmd.slba req.cmd.nrLba
  let nrLbasFlush ← ftl.implicitFlush zid elba wp
  let (ftl, room) ← ftl.flushImplicitly zid nrLbasFlush
  ftl.finishZrwa req zid wp nrLbasFlush room

/-- `__zns_write_zrwa`. -/
def znsWriteZrwa (ftl : ZnsFtl) (req : ZnsRequest) : FtlM (ZnsFtl × ZnsAnswer) := do
  let zid := ftl.lbaToZone req.cmd.slba
  let (ftl, status) ← ftl.checkWriteZrwa zid req.cmd.slba req.cmd.nrLba
  if status ≠ nvmeScSuccess then pure (ftl, .done status req.nsecsStart req.cmd.slba)
  else ftl.programZrwa req zid

/-! ## `zns_write` and `zns_read` -/

/-- `zns_write`. -/
def znsWrite (ftl : ZnsFtl) (req : ZnsRequest) : FtlM (ZnsFtl × ZnsAnswer) :=
  let zid := ftl.lpnToZone (ftl.lbaToLpn req.cmd.slba)
  if ftl.zp.nrZones ≤ zid then throw .outOfBounds
  else if (ftl.zoneDescs zid).zrwav = false then ftl.znsWriteSeq req
  else ftl.znsWriteZrwa req

/-- The loop of `zns_read` from the page `lpn` on; `elpn + 1 - lpn` passes are enough. -/
def readPages (ftl : ZnsFtl) (stime elpn : Nat) :
    Nat → (lpn : Nat) → Ssd × Nat → FtlM (Ssd × Nat)
  | 0, _, acc => pure acc
  | passes + 1, lpn, acc =>
    if lpn ≤ elpn then do
      let ppa := ftl.lpnToPpa lpn
      let pgs := min (elpn - lpn + 1)
        (ftl.ssd.sp.pgsPerFlashpg - ppa.pg % ftl.ssd.sp.pgsPerFlashpg)
      let (ssd, nsecsCompleted) ← ssdAdvanceNand acc.1
        { type := .userIo, cmd := .read, xferSize := pgs * ftl.ssd.sp.pgsz, stime
          interleavePciDma := false, ppa }
      ftl.readPages stime elpn passes (lpn + pgs) (ssd, max nsecsCompleted acc.2)
    else pure acc

/-- The status of `zns_read`. -/
def readStatus (ftl : ZnsFtl) (zid slba nrLba : Nat) : Nat :=
  if (ftl.zoneDescs zid).state = .offline then nvmeScZnsErrOffline
  else if ftl.checkBoundaryError slba nrLba = false then nvmeScZnsErrBoundary
  else nvmeScSuccess

/-- `zns_read`; the flash is read whatever the status is. -/
def znsRead (ftl : ZnsFtl) (req : ZnsRequest) : FtlM (ZnsFtl × ZnsAnswer) := do
  let slba := req.cmd.slba
  let slpn := ftl.lbaToLpn slba
  let elpn := ftl.lbaToLpn (lastLba slba req.cmd.nrLba)
  let zid := ftl.lpnToZone slpn
  if ftl.zp.nrZones ≤ zid then throw .outOfBounds
  else do
    let bytes := lbaToByte req.cmd.nrLba
    let stime := u64 (req.nsecsStart +
      if bytes ≤ kb 4 then ftl.ssd.sp.fw4kbRdLat else ftl.ssd.sp.fwRdLat)
    let (ssd, nsecsLatest) ← ftl.readPages stime elpn (elpn + 1 - slpn) slpn (ftl.ssd, stime)
    let (ssd, nsecsCompleted) ← ssdAdvancePcie ssd nsecsLatest (req.cmd.nrLba * ftl.ssd.sp.secsz)
    pure ({ ftl with ssd },
      .done (ftl.readStatus zid slba req.cmd.nrLba) (max nsecsCompleted nsecsLatest) slba)

end ZnsFtl

end NvmeVirt

import NvmeVirt.Zns.ReadWrite

/-!
# Zone management (`zns_mgmt_send.c`)

Every action answers the FTL after it and its status. Where the source falls through from one `case`
to the next, the second case is a definition of its own.

`select_all` runs the action for one zone in a loop, with the address of each zone, and answers
success whatever they did. An action the switch does not name leaves the status uninitialised; it is
read from the environment.
-/

set_option autoImplicit false

namespace NvmeVirt

open Outcome

/-- `enum zone_send_action`; `other` is any value the switch of `__zmgmt_send` does not name. -/
inductive ZoneSendAction where
  | closeZone | finishZone | openZone | resetZone | offlineZone | flushExplZrwa | other
  deriving DecidableEq, Repr

/-- `struct nvme_zone_mgmt_send`. -/
structure ZoneMgmtSend where
  slba : Nat
  zsa : ZoneSendAction
  selectAll : Bool
  zsaso : Bool
  slba_lt : slba < 2 ^ 64
  deriving Repr

/-- `buffer_refill`. -/
def bufferRefill (buf : Buffer) : Buffer := { buf with remaining := buf.size }

namespace ZnsFtl

/-- `__zmgmt_send_close_zone`. -/
def zmgmtSendCloseZone (ftl : ZnsFtl) (zid : Nat) : ZnsFtl × Nat :=
  match (ftl.zoneDescs zid).state with
  | .openedImpl | .openedExpl =>
    ((ftl.changeZoneState zid .closed).releaseZoneResource .openZone, nvmeScSuccess)
  | .closed => (ftl, nvmeScSuccess)
  | _ => (ftl, nvmeScZnsInvalidTransition)

/-- The case `ZONE_STATE_CLOSED` of `__zmgmt_send_finish_zone` and of `__zmgmt_send_reset_zone`: what
an active zone holds is given back. -/
def releaseActive (ftl : ZnsFtl) (zid : Nat) : ZnsFtl :=
  let isZrwaZone := (ftl.zoneDescs zid).zrwav
  let ftl := ftl.releaseZoneResource .activeZone
  if isZrwaZone = true then ftl.releaseZoneResource .zrwaZone else ftl

/-- `__zmgmt_send_finish_zone`. -/
def zmgmtSendFinishZone (ftl : ZnsFtl) (zid : Nat) : ZnsFtl × Nat :=
  match (ftl.zoneDescs zid).state with
  | .openedImpl | .openedExpl =>
    (((ftl.releaseZoneResource .openZone).releaseActive zid).changeZoneState zid .full,
      nvmeScSuccess)
  | .closed => ((ftl.releaseActive zid).changeZoneState zid .full, nvmeScSuccess)
  | .empty => (ftl.changeZoneState zid .full, nvmeScSuccess)
  | .full => (ftl, nvmeScSuccess)
  | _ => (ftl, nvmeScZnsInvalidTransition)

/-- The case `ZONE_STATE_CLOSED` of `__zmgmt_send_open_zone`. -/
def openExplicitly (ftl : ZnsFtl) (zid : Nat) : ZnsFtl × Nat :=
  match ftl.acquireZoneResource .openZone with
  | (ftl, false) => (ftl, nvmeScZnsNoOpenZone)
  | (ftl, true) => (ftl.changeZoneState zid .openedExpl, nvmeScSuccess)

/-- `__zmgmt_send_open_zone`. -/
def zmgmtSendOpenZone (ftl : ZnsFtl) (zid : Nat) (zrwa : Bool) : ZnsFtl × Nat :=
  match (ftl.zoneDescs zid).state with
  | .empty =>
    if ftl.isZoneResourceFull .activeZone = true then (ftl, nvmeScZnsNoActiveZone)
    else if ftl.isZoneResourceFull .openZone = true then (ftl, nvmeScZnsNoOpenZone)
    else if zrwa = true then
      if ftl.isZoneResourceFull .zrwaZone = true then (ftl, nvmeScZnsZrwaRsrcUnavail)
      else
        let ftl := (ftl.acquireZoneResource .zrwaZone).1
        let ftl := ftl.setZoneDesc zid { ftl.zoneDescs zid with zrwav := true }
        (ftl.acquireZoneResource .activeZone).1.openExplicitly zid
    else (ftl.acquireZoneResource .activeZone).1.openExplicitly zid
  | .closed => ftl.openExplicitly zid
  | .openedImpl => (ftl.changeZoneState zid .openedExpl, nvmeScSuccess)
  | .openedExpl => (ftl, nvmeScSuccess)
  | _ => (ftl, nvmeScZnsInvalidTransition)

/-- `get_storage_addr_from_zid`, from the start of the storage. -/
def getStorageAddrFromZid (ftl : ZnsFtl) (zid : Nat) : Nat := zid * ftl.zp.zoneSize

/-- `__reset_zone`. -/
def resetZone (ftl : ZnsFtl) (zid : Nat) : ZnsFtl :=
  let start := ftl.getStorageAddrFromZid zid
  let ftl := { ftl with storage := memset ftl.storage start 0 ftl.zp.zoneSize }
  let ftl := ftl.setZoneDesc zid
    { ftl.zoneDescs zid with wp := (ftl.zoneDescs zid).zslba, zrwav := false }
  if ftl.zp.zrwaBufferSize ≠ 0 then
    ftl.setBuffer (.zrwa zid) (bufferRefill (ftl.buffers (.zrwa zid)))
  else ftl

/-- The cases `ZONE_STATE_FULL` and `ZONE_STATE_EMPTY` of `__zmgmt_send_reset_zone`. -/
def emptyZone (ftl : ZnsFtl) (zid : Nat) : ZnsFtl × Nat :=
  ((ftl.changeZoneState zid .empty).resetZone zid, nvmeScSuccess)

/-- `__zmgmt_send_reset_zone`. -/
def zmgmtSendResetZone (ftl : ZnsFtl) (zid : Nat) : ZnsFtl × Nat :=
  match (ftl.zoneDescs zid).state with
  | .openedImpl | .openedExpl =>
    ((ftl.releaseZoneResource .openZone).releaseActive zid).emptyZone zid
  | .closed => (ftl.releaseActive zid).emptyZone zid
  | .full | .empty => ftl.emptyZone zid
  | _ => (ftl, nvmeScZnsInvalidTransition)

/-- `__zmgmt_send_offline_zone`. -/
def zmgmtSendOfflineZone (ftl : ZnsFtl) (zid : Nat) : ZnsFtl × Nat :=
  match (ftl.zoneDescs zid).state with
  | .readOnly => (ftl.changeZoneState zid .offline, nvmeScSuccess)
  | .offline => (ftl, nvmeScSuccess)
  | _ => (ftl, nvmeScZnsInvalidTransition)

/-- `zrwa_end`. -/
def zrwaEnd (ftl : ZnsFtl) (zid : Nat) : Nat :=
  min (sub64 ((ftl.zoneDescs zid).wp + ftl.zp.lbasPerZrwa) 1)
    (sub64 (ftl.zoneToSlba zid + (ftl.zoneDescs zid).zoneCapacity) 1)

/-- The end of `__zmgmt_send_flush_explicit_zrwa`: the write pointer moves behind `slba`. `isClosed`
is `cur_state == ZONE_STATE_CLOSED`. -/
def commitZrwa (ftl : ZnsFtl) (zid slba : Nat) (isClosed : Bool) : ZnsFtl :=
  let ftl := ftl.setZoneDesc zid { ftl.zoneDescs zid with wp := u64 (slba + 1) }
  if u64 (slba + 1) = u64 (ftl.zoneToSlba zid + (ftl.zoneDescs zid).zoneCapacity) then
    let ftl := if isClosed = true then ftl else ftl.releaseZoneResource .openZone
    ((ftl.releaseZoneResource .activeZone).releaseZoneResource .zrwaZone).changeZoneState zid .full
  else ftl

/-- `__zmgmt_send_flush_explicit_zrwa`. -/
def zmgmtSendFlushExplicitZrwa (ftl : ZnsFtl) (slba : Nat) : FtlM (ZnsFtl × Nat) :=
  let zid := ftl.lbaToZone slba
  let wp := (ftl.zoneDescs zid).wp
  if (ftl.zoneDescs zid).zrwav = false then pure (ftl, nvmeScZnsInvalidZoneOperation)
  else if ¬ (wp ≤ slba ∧ slba ≤ ftl.zrwaEnd zid) then pure (ftl, nvmeScZnsInvalidZoneOperation)
  else if ftl.zp.lbasPerZrwafg = 0 then throw .divideByZero
  else if u64 (sub64 slba wp + 1) % ftl.zp.lbasPerZrwafg ≠ 0 then pure (ftl, nvmeScInvalidField)
  else
    match (ftl.zoneDescs zid).state with
    | .openedExpl | .openedImpl => pure (ftl.commitZrwa zid slba false, nvmeScSuccess)
    | .closed => pure (ftl.commitZrwa zid slba true, nvmeScSuccess)
    | _ => pure (ftl, nvmeScZnsInvalidZoneOperation)

/-- `__zmgmt_send`. An unknown action returns the status it never assigned: any value. -/
def zmgmtSendOne (ftl : ZnsFtl) (slba : Nat) (action : ZoneSendAction) (option : Bool) :
    FtlM (ZnsFtl × Nat) :=
  let zid := ftl.lbaToZone slba
  if ftl.zp.nrZones ≤ zid ∧ action ≠ .other then throw .outOfBounds
  else
    match action with
    | .closeZone => pure (ftl.zmgmtSendCloseZone zid)
    | .finishZone => pure (ftl.zmgmtSendFinishZone zid)
    | .openZone => pure (ftl.zmgmtSendOpenZone zid option)
    | .resetZone => pure (ftl.zmgmtSendResetZone zid)
    | .offlineZone => pure (ftl.zmgmtSendOfflineZone zid)
    | .flushExplZrwa => ftl.zmgmtSendFlushExplicitZrwa slba
    | .other => do
      let garbage ← getRandomU32
      pure (ftl, garbage)

/-- `zns_zmgmt_send`. -/
def znsZmgmtSend (ftl : ZnsFtl) (cmd : ZoneMgmtSend) (nsecsStart : Nat) :
    FtlM (ZnsFtl × NvmevResult) :=
  if cmd.selectAll = true then do
    let ftl ← forRange ftl.zp.nrZones ftl fun zid ftl => do
      let (ftl, _) ← ftl.zmgmtSendOne (ftl.zoneToSlba zid) cmd.zsa cmd.zsaso
      pure ftl
    pure (ftl, { status := nvmeScSuccess, nsecsTarget := nsecsStart })
  else do
    let (ftl, status) ← ftl.zmgmtSendOne cmd.slba cmd.zsa cmd.zsaso
    pure (ftl, { status, nsecsTarget := nsecsStart })

end ZnsFtl

end NvmeVirt

import NvmeVirt.Io.Prp
import NvmeVirt.Zns.Cmd

/-!
# Zone management receive (`zns_mgmt_recv.c`)

The report is filled in a buffer of the module that earlier reports have used: what is not filled is
what they, or the allocator, left there. `length` bytes of the buffer go to the host, as many as the
host asked for. `nr_dw + 1` is taken in 32 bits, and the byte counts made of it in 64.
-/

set_option autoImplicit false

namespace NvmeVirt

/-- `struct nvme_zone_mgmt_recv`. `zraSpecificFeatures` is one bit: a partial report. -/
structure ZoneReportCmd extends ZoneMgmtRecv where
  nrDw : Nat
  zraSpecificFeatures : Bool
  prp1 : Nat
  prp2 : Nat
  nrDw_lt : nrDw < 2 ^ 32

/-- `sizeof(struct zone_descriptor)`, and the part of `struct zone_report` before `zd`. -/
def zoneDescriptorSize : Nat := 64
def zoneReportHeaderSize : Nat := 64

/-- `struct zone_report`, as the buffer holds it. -/
structure ZoneReport where
  nrZones : Nat
  zd : Nat → ZoneDescriptor

/-- What one command leaves in the buffer, and what it has copied out of it. -/
structure ZoneReportAnswer where
  report : ZoneReport
  copies : List Copy
  status : Nat

/-- The bytes the host asks for: `bytes_transfer`, and `length` of `zns_zmgmt_recv`. -/
def ZoneReportCmd.bytesTransfer (cmd : ZoneReportCmd) : Nat := u64 (u32 (cmd.nrDw + 1) * 4)

namespace ZnsFtl

variable (ftl : ZnsFtl)

/-- The size `__init_descriptor` allocates `report_buffer` with. -/
def reportBufferSize : Nat :=
  zoneReportHeaderSize + zoneDescriptorSize + zoneDescriptorSize * ftl.zp.nrZones

/-- `nr_zone_to_report`. -/
def nrZoneToReport (cmd : ZoneReportCmd) : Nat :=
  let startZid := ftl.lbaToZone cmd.slba
  let nr :=
    if cmd.zraSpecificFeatures = false then sub64 ftl.zp.nrZones startZid
    else sub64 (cmd.bytesTransfer / zoneDescriptorSize) 1
  if sub64 ftl.zp.nrZones startZid < nr then sub64 ftl.zp.nrZones startZid else nr

/-- `__fill_zone_report`. -/
def fillZoneReport (cmd : ZoneReportCmd) (report : ZoneReport) : ZoneReport :=
  { nrZones := ftl.nrZoneToReport cmd
    zd := fun i =>
      if i < ftl.nrZoneToReport cmd then ftl.zoneDescs (ftl.lbaToZone cmd.slba + i)
      else report.zd i }

/-- `__check_zmgmt_rcv_option_supported`. -/
def checkZmgmtRcvOptionSupported (cmd : ZoneReportCmd) : Bool :=
  if ftl.zp.nrZones ≤ ftl.lbaToZone cmd.slba then false
  else if cmd.zra ≠ 0 then false
  else if cmd.zraSpecificField ≠ 0 then false
  else true

/-- `zns_zmgmt_recv`. -/
def znsZmgmtRecv (guest : GuestMemory) (cmd : ZoneReportCmd) (buffer : ZoneReport) :
    Except Fault ZoneReportAnswer :=
  if ftl.checkZmgmtRcvOptionSupported cmd = true then do
    let copies ← guest.transferPages cmd.prp1 cmd.prp2 cmd.bytesTransfer
    pure { report := ftl.fillZoneReport cmd buffer, copies, status := nvmeScSuccess }
  else pure { report := buffer, copies := [], status := nvmeScInvalidField }

end ZnsFtl

end NvmeVirt

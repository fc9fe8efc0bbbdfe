import NvmeVirt.Zns.MgmtSend

/-!
# The commands of a zoned namespace (`zns_proc_nvme_io_cmd`)
-/

set_option autoImplicit false

namespace NvmeVirt

/-- `struct nvme_zone_mgmt_recv`, without the addresses the report goes to. -/
structure ZoneMgmtRecv where
  slba : Nat
  zra : Nat
  zraSpecificField : Nat
  deriving DecidableEq, Repr

/-- A submission entry, by the handler its opcode selects. -/
inductive ZnsCommand where
  | write (cmd : ZnsRwCommand)
  | read (cmd : ZnsRwCommand)
  | flush
  | zoneMgmtSend (cmd : ZoneMgmtSend)
  | zoneMgmtRecv (cmd : ZoneMgmtRecv)
  | other

namespace ZnsFtl

/-- The status of `zns_zmgmt_recv`; the report goes to host memory. -/
def zmgmtRecvStatus (ftl : ZnsFtl) (cmd : ZoneMgmtRecv) : Nat :=
  if ftl.zp.nrZones ≤ ftl.lbaToZone cmd.slba ∨ cmd.zra ≠ 0 ∨ cmd.zraSpecificField ≠ 0 then
    nvmeScInvalidField
  else nvmeScSuccess

/-- `zns_flush`. -/
def znsFlush (ftl : ZnsFtl) : FtlM NvmevResult := do
  let start ← cpuClock
  let latest ← ssdNextIdleTime ftl.ssd
  pure { status := nvmeScSuccess, nsecsTarget := max start latest }

/-- `zns_proc_nvme_io_cmd`. An unknown opcode leaves the result the caller set. -/
def znsProcNvmeIoCmd (ftl : ZnsFtl) (cmd : ZnsCommand) (nsecsStart : Nat) :
    FtlM (ZnsFtl × ZnsAnswer) :=
  match cmd with
  | .write cmd => ftl.znsWrite { cmd, nsecsStart }
  | .read cmd => ftl.znsRead { cmd, nsecsStart }
  | .flush => do
    let result ← ftl.znsFlush
    pure (ftl, .done result.status result.nsecsTarget 0)
  | .zoneMgmtSend cmd => do
    let (ftl, result) ← ftl.znsZmgmtSend cmd nsecsStart
    pure (ftl, .done result.status result.nsecsTarget cmd.slba)
  | .zoneMgmtRecv cmd => pure (ftl, .done (ftl.zmgmtRecvStatus cmd) nsecsStart cmd.slba)
  | .other => pure (ftl, .done nvmeScSuccess nsecsStart 0)

end ZnsFtl

end NvmeVirt

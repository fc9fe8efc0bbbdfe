import NvmeVirt.Ssd.Nand
import NvmeVirt.Ssd.Buffer

/-!
# The state of the zoned FTL (`zns_ftl.h`, `nvme_zns.h`, `zns_ftl.c`)

A pointer to a buffer is its name, and `buffers` holds what the names point to. The arithmetic on
zone numbers is 32 bits wide where the source's is, so an address past 2³² LBAs wraps here as it
does there.

The descriptors of all zones are a function of the zone number; those past `nr_zones` mean nothing.
The attributes of a descriptor that only reports carry are left out, and there is no mapping table:
a page lies on the flash where its number says (`lpnToPpa`).
-/

set_option autoImplicit false

namespace NvmeVirt

/-! ## Configuration -/

/-- The macros a zoned `BASE_SSD` branch defines besides those of `SsdConfig`. -/
structure ZnsConfig extends SsdConfig where
  zoneSize : Nat
  diesPerZone : Nat
  zoneWbSize : Nat
  maxZrwaZones : Nat
  zrwafgSize : Nat
  zrwaSize : Nat
  zrwaBufferSize : Nat

/-- `BASE_SSD == WD_ZN540`. The branch defines none of the SLC macros, and no zoned function reads
what `ssd_init_params` makes of them. -/
def wdZn540 : ZnsConfig where
  cellMode := 3
  ssdPartitions := 1
  nandChannels := 8
  lunsPerNandCh := 4
  plnsPerLun := 1
  flashPageSize := kb 32
  oneshotPageSize := kb 32 * 3
  slcOneshotPageSize := 0
  blksPerPln := 0
  blkSize := mb 2048 / 32
  slcPortion := 0
  maxChXferSize := kb 32
  writeUnitSize := 512
  nandChannelBandwidth := 450
  pcieBandwidth := 3050
  nand4kbReadLatency := fun _ => 50000
  nandReadLatency := fun _ => 58000
  nandProgLatency := 561000
  nandEraseLatency := 0
  nand4kbReadLatencySlc := 0
  nandReadLatencySlc := 0
  nandProgLatencySlc := 0
  nandEraseLatencySlc := 0
  fw4kbReadLatency := 20000
  fwReadLatency := 13000
  fwWbufLatency0 := 5600
  fwWbufLatency1 := 600
  fwChXferLatency := 0
  opAreaPercent := 0
  globalWbSize := 0
  writeEarlyCompletion := true
  zoneSize := mb 2048
  diesPerZone := 8 * 4
  zoneWbSize := 10 * (kb 32 * 3)
  maxZrwaZones := 0
  zrwafgSize := 0
  zrwaSize := 0
  zrwaBufferSize := 0

/-- `BASE_SSD == ZNS_PROTOTYPE`. -/
def znsPrototype : ZnsConfig where
  cellMode := 3
  ssdPartitions := 1
  nandChannels := 8
  lunsPerNandCh := 16
  plnsPerLun := 1
  flashPageSize := kb 64
  oneshotPageSize := kb 64 * 2
  slcOneshotPageSize := 0
  blksPerPln := 0
  blkSize := mb 32
  slcPortion := 0
  maxChXferSize := kb 64
  writeUnitSize := kb 64 * 2
  nandChannelBandwidth := 800
  pcieBandwidth := 3200
  nand4kbReadLatency := fun _ => 25485
  nandReadLatency := fun _ => 40950
  nandProgLatency := 1913640
  nandEraseLatency := 0
  nand4kbReadLatencySlc := 0
  nandReadLatencySlc := 0
  nandProgLatencySlc := 0
  nandEraseLatencySlc := 0
  fw4kbReadLatency := 37540 - 7390 + 2000
  fwReadLatency := 37540 - 7390 + 2000
  fwWbufLatency0 := 0
  fwWbufLatency1 := 0
  fwChXferLatency := 413
  opAreaPercent := 0
  globalWbSize := 8 * 16 * (kb 64 * 2) * 2
  writeEarlyCompletion := false
  zoneSize := mb 32
  diesPerZone := 1
  zoneWbSize := 0
  maxZrwaZones := 0
  zrwafgSize := 0
  zrwaSize := 0
  zrwaBufferSize := 0

/-- `struct znsparams`. -/
structure ZnsParams where
  nrZones : Nat
  nrActiveZones : Nat
  nrOpenZones : Nat
  diesPerZone : Nat
  zoneSize : Nat
  zoneWbSize : Nat
  nrZrwaZones : Nat
  zrwafgSize : Nat
  zrwaSize : Nat
  zrwaBufferSize : Nat
  lbasPerZrwafg : Nat
  lbasPerZrwa : Nat
  deriving DecidableEq, Repr

/-! ## Status codes -/

def nvmeScInvalidField : Nat := 0x2
def nvmeScZnsInvalidZoneOperation : Nat := 0x1B6
def nvmeScZnsZrwaRsrcUnavail : Nat := 0x1B7
def nvmeScZnsErrBoundary : Nat := 0x1B8
def nvmeScZnsErrFull : Nat := 0x1B9
def nvmeScZnsErrReadOnly : Nat := 0x1BA
def nvmeScZnsErrOffline : Nat := 0x1BB
def nvmeScZnsInvalidWrite : Nat := 0x1BC
def nvmeScZnsNoActiveZone : Nat := 0x1BD
def nvmeScZnsNoOpenZone : Nat := 0x1BE
def nvmeScZnsInvalidTransition : Nat := 0x1BF

/-! ## Zones -/

/-- `enum zone_state`. -/
inductive ZoneState where
  | empty | openedImpl | openedExpl | closed | readOnly | full | offline
  deriving DecidableEq, Repr

/-- `enum zone_resource_type`. -/
inductive ZoneResourceType where
  | activeZone | openZone | zrwaZone
  deriving DecidableEq, Repr

/-- `struct zone_descriptor`. -/
structure ZoneDescriptor where
  state : ZoneState
  zrwav : Bool
  zoneCapacity : Nat
  zslba : Nat
  wp : Nat
  deriving DecidableEq, Repr

/-- `struct zone_resource_info`. `underflows` is not in the source: it counts the releases that met
a zero counter, which the `ASSERT` of `release_zone_resource` would report if it were compiled. -/
structure ZoneResourceInfo where
  acquiredCnt : Nat
  totalCnt : Nat
  underflows : Nat
  deriving DecidableEq, Repr

/-- The write buffer of the device, of a zone, and the ZRWA buffer of a zone. -/
inductive BufferId where
  | global
  | zone (zid : Nat)
  | zrwa (zid : Nat)
  deriving DecidableEq, Repr

/-- `struct zns_ftl`. `storage` is the memory behind `storage_base_addr`, byte by byte. -/
structure ZnsFtl where
  ssd : Ssd
  zp : ZnsParams
  resInfos : ZoneResourceType → ZoneResourceInfo
  zoneDescs : Nat → ZoneDescriptor
  buffers : BufferId → Buffer
  storage : Nat → Nat

namespace ZnsFtl

variable (ftl : ZnsFtl)

/-! ## Addresses -/

/-- The LBAs and the pages of a zone. -/
def zoneLbas : Nat := ftl.zp.zoneSize / ftl.ssd.sp.secsz
def zonePgs : Nat := ftl.zp.zoneSize / ftl.ssd.sp.pgsz

/-- `lpn_to_zone`. -/
def lpnToZone (lpn : Nat) : Nat := u32 (lpn / ftl.zonePgs)

/-- `zone_to_slpn`. -/
def zoneToSlpn (zid : Nat) : Nat := u32 (zid * ftl.zonePgs)

/-- `lba_to_zone`. -/
def lbaToZone (lba : Nat) : Nat := u32 (lba / ftl.zoneLbas)

/-- `zone_to_slba`. -/
def zoneToSlba (zid : Nat) : Nat := u32 (zid * ftl.zoneLbas)

/-- `zone_to_elba`. -/
def zoneToElba (zid : Nat) : Nat := sub64 (ftl.zoneToSlba (u32 (zid + 1))) 1

/-- `lba_to_lpn`. -/
def lbaToLpn (lba : Nat) : Nat := lba / ftl.ssd.sp.secsPerPg

/-- `zone_to_elpn`. -/
def zoneToElpn (zid : Nat) : Nat := ftl.lbaToLpn (ftl.zoneToElba zid)

/-! ## Resources -/

/-- `is_zone_resource_avail`. -/
def isZoneResourceAvail (type : ZoneResourceType) : Bool :=
  (ftl.resInfos type).acquiredCnt < (ftl.resInfos type).totalCnt

/-- `is_zone_resource_full`. -/
def isZoneResourceFull (type : ZoneResourceType) : Bool :=
  (ftl.resInfos type).acquiredCnt == (ftl.resInfos type).totalCnt

/-- Write `res_infos[type]`. -/
def setResInfo (type : ZoneResourceType) (info : ZoneResourceInfo) : ZnsFtl :=
  { ftl with resInfos := Function.update ftl.resInfos type info }

/-- `acquire_zone_resource`. -/
def acquireZoneResource (type : ZoneResourceType) : ZnsFtl × Bool :=
  if ftl.isZoneResourceAvail type then
    let info := ftl.resInfos type
    (ftl.setResInfo type { info with acquiredCnt := u32 (info.acquiredCnt + 1) }, true)
  else (ftl, false)

/-- `release_zone_resource`. -/
def releaseZoneResource (type : ZoneResourceType) : ZnsFtl :=
  let info := ftl.resInfos type
  ftl.setResInfo type
    { info with
      acquiredCnt := sub32 info.acquiredCnt 1
      underflows := if info.acquiredCnt = 0 then info.underflows + 1 else info.underflows }

/-! ## Writes to the state -/

/-- Write `zone_descs[zid]`. -/
def setZoneDesc (zid : Nat) (desc : ZoneDescriptor) : ZnsFtl :=
  { ftl with zoneDescs := Function.update ftl.zoneDescs zid desc }

/-- `change_zone_state`. -/
def changeZoneState (zid : Nat) (state : ZoneState) : ZnsFtl :=
  ftl.setZoneDesc zid { ftl.zoneDescs zid with state }

/-- Write through a pointer to a buffer. -/
def setBuffer (id : BufferId) (buf : Buffer) : ZnsFtl :=
  { ftl with buffers := Function.update ftl.buffers id buf }

end ZnsFtl

/-! ## Initialisation -/

/-- The fields `zns_init_params` sets. -/
def znsParams (cfg : ZnsConfig) (spp : SsdParams) (capacity : Nat) : ZnsParams where
  nrZones := u32 (capacity / cfg.zoneSize)
  nrActiveZones := u32 (capacity / cfg.zoneSize)
  nrOpenZones := u32 (capacity / cfg.zoneSize)
  diesPerZone := cfg.diesPerZone
  zoneSize := cfg.zoneSize
  zoneWbSize := cfg.zoneWbSize
  nrZrwaZones := cfg.maxZrwaZones
  zrwafgSize := cfg.zrwafgSize
  zrwaSize := cfg.zrwaSize
  zrwaBufferSize := cfg.zrwaBufferSize
  lbasPerZrwafg := cfg.zrwafgSize / spp.secsz
  lbasPerZrwa := cfg.zrwaSize / spp.secsz

/-- `zns_init_params`. -/
def znsInitParams (cfg : ZnsConfig) (spp : SsdParams) (capacity : Nat) : FtlM ZnsParams := do
  nvmevAssert (capacity % cfg.zoneSize = 0)
  nvmevAssert (cfg.zoneSize % spp.pgsz = 0)
  pure (znsParams cfg spp capacity)

/-- `__init_descriptor`: the descriptor of the zone `zid`. -/
def initDescriptor (zp : ZnsParams) (zid : Nat) : ZoneDescriptor where
  state := .empty
  zrwav := false
  zoneCapacity := zp.zoneSize / lbaSize
  zslba := zid * (zp.zoneSize / lbaSize)
  wp := zid * (zp.zoneSize / lbaSize)

/-- `__init_descriptor`: the buffers of the zones, and the buffer `ssd_init` makes. -/
def initBuffers (zp : ZnsParams) (spp : SsdParams) : BufferId → Buffer
  | .global => bufferInit spp.writeBufferSize
  | .zone _ => bufferInit zp.zoneWbSize
  | .zrwa _ => bufferInit zp.zrwaBufferSize

/-- `__init_resource`: every resource has as many units as there are zones. -/
def initResource (zp : ZnsParams) : ZoneResourceType → ZoneResourceInfo :=
  fun _ => { acquiredCnt := 0, totalCnt := zp.nrZones, underflows := 0 }

/-- `zns_init_ftl`, over the memory the namespace is mapped to. -/
def znsInitFtl (zp : ZnsParams) (ssd : Ssd) (storage : Nat → Nat) : ZnsFtl :=
  { ssd, zp, storage
    resInfos := initResource zp
    zoneDescs := initDescriptor zp
    buffers := initBuffers zp ssd.sp }

/-- `zns_init_namespace`. -/
def znsInitNamespace (cfg : ZnsConfig) (size : Nat) (storage : Nat → Nat) : FtlM ZnsFtl := do
  let spp := ssdInitParams cfg.toSsdConfig size 1
  let zp ← znsInitParams cfg spp size
  pure (znsInitFtl zp (ssdInit spp) storage)

end NvmeVirt

import NvmeVirt.Lib.Fields
import NvmeVirt.Lib.System
import NvmeVirt.Io.Interrupts

/-!
# The PCI configuration space (`pci.h`, `pci.c`)

`virtDev` is a page of memory, kept as one little-endian word; an access of some bytes is an access to
the field of these bits. The constants of the PCI headers of the kernel stand under their own names.
-/

set_option autoImplicit false

namespace NvmeVirt

/-! ## Offsets -/

def pciCommand : Nat := 0x04
def pciStatus : Nat := 0x06
def pciBist : Nat := 0x0f
def pciBaseAddress0 : Nat := 0x10
def pciInterruptLine : Nat := 0x3c
def pciMsixFlags : Nat := 2

def offsPciPmCap : Nat := 0x40
def offsPciMsixCap : Nat := 0x50
def offsPcieCap : Nat := 0x60

/-- `OFFS_PCI_EXT_CAP`, which is `PCI_CFG_SPACE_SIZE`. -/
def offsPciExtCap : Nat := 0x100

def pciCommandIntxDisable : Nat := 0x400
def pciBistStart : Nat := 0x40
def pciMsixFlagsMaskall : Nat := 0x4000
def pciMsixFlagsEnable : Nat := 0x8000

/-! ## The layout -/

/-- The bits `off`, …, of the structure member at the byte `byte`. -/
def cfgBits (byte off width : Nat) : BitField := ⟨8 * byte + off, width⟩

/-- `size` bytes from `offset` on. -/
def cfgBytes (offset size : Nat) : BitField := ⟨8 * offset, 8 * size⟩

/-- `pcihdr->cmd.id`. -/
def cmdId : BitField := cfgBits 0x04 10 1
/-- `pcihdr->sts.is`. -/
def stsIs : BitField := cfgBits 0x06 3 1
/-- `msixcap->mxc.mxe`. -/
def mxcMxe : BitField := cfgBits 0x52 15 1

/-- `PCI_HEADER_SETTINGS`. -/
def pciHeaderSettings (basePa : Nat) : List (BitField × Nat) :=
  [(cfgBits 0x02 0 16, 0x0110), (cfgBits 0x00 0 16, 0x0c51), (cfgBits 0x04 1 1, 1),
    (cfgBits 0x06 4 1, 1), (cfgBits 0x0e 7 1, 0), (cfgBits 0x0e 0 7, 0), (cfgBits 0x08 0 8, 0x01),
    (cfgBits 0x0b 0 8, 0x01), (cfgBits 0x0a 0 8, 0x08), (cfgBits 0x09 0 8, 0x02),
    (cfgBits 0x10 1 2, 0x04 / 2), (cfgBits 0x10 14 18, basePa % 2 ^ 32 / 2 ^ 14),
    (cfgBits 0x14 0 32, basePa / 2 ^ 32), (cfgBits 0x2e 0 16, 0x370d), (cfgBits 0x2c 0 16, 0x0c51),
    (cfgBits 0x30 0 32, 0), (cfgBits 0x34 0 8, offsPciPmCap), (cfgBits 0x3d 0 8, 0),
    (cfgBits 0x3c 0 8, 15)]

/-- `PCI_PMCAP_SETTINGS`. -/
def pciPmcapSettings : List (BitField × Nat) :=
  [(cfgBits 0x40 0 8, 0x01), (cfgBits 0x41 0 8, offsPciMsixCap), (cfgBits 0x42 0 3, 3),
    (cfgBits 0x44 3 1, 1), (cfgBits 0x44 0 2, 0)]

/-- `PCI_MSIXCAP_SETTINGS`. -/
def pciMsixcapSettings : List (BitField × Nat) :=
  [(cfgBits 0x50 0 8, 0x11), (cfgBits 0x51 0 8, offsPcieCap), (mxcMxe, 1), (cfgBits 0x52 0 11, 127),
    (cfgBits 0x54 0 3, 0), (cfgBits 0x54 3 29, 0x400), (cfgBits 0x58 3 29, 0x1000),
    (cfgBits 0x58 0 3, 0)]

/-- `PCI_PCIECAP_SETTINGS`. -/
def pciPciecapSettings : List (BitField × Nat) :=
  [(cfgBits 0x60 0 8, 0x10), (cfgBits 0x61 0 8, 0), (cfgBits 0x62 0 4, 2), (cfgBits 0x63 1 5, 0),
    (cfgBits 0x62 4 4, 0), (cfgBits 0x64 0 3, 1), (cfgBits 0x64 3 2, 0), (cfgBits 0x64 5 1, 1),
    (cfgBits 0x64 6 3, 6), (cfgBits 0x64 9 3, 2), (cfgBits 0x64 15 1, 1), (cfgBits 0x64 18 8, 0),
    (cfgBits 0x64 26 2, 0), (cfgBits 0x64 28 1, 1)]

/-- One `struct pci_ext_cap`. -/
def extCapSettings (offset cid next : Nat) : List (BitField × Nat) :=
  [(cfgBits (offsPciExtCap + offset) 0 16, cid), (cfgBits (offsPciExtCap + offset) 16 4, 1),
    (cfgBits (offsPciExtCap + offset) 20 12, next)]

/-- `PCI_EXTCAP_SETTINGS`. -/
def pciExtcapSettings : List (BitField × Nat) :=
  extCapSettings 0 0x01 0x150 ++ extCapSettings 0x50 0x02 0x180 ++ extCapSettings 0x80 0x04 0x190 ++
    extCapSettings 0x90 0x0e 0x270 ++ extCapSettings 0x170 0x03 0x2a0 ++ extCapSettings 0x1a0 0x19 0

/-- The settings of `NVMEV_PCI_INIT`, in their order. -/
def pciSettings (basePa : Nat) : List (BitField × Nat) :=
  pciHeaderSettings basePa ++ pciPmcapSettings ++ pciMsixcapSettings ++ pciPciecapSettings ++
    pciExtcapSettings

/-! ## Accesses -/

/-- The configuration space, and what the device and the kernel keep beside it: `intx_disabled`, and
`msix_enabled` of the `pdev` once there is one. -/
@[ext] structure PciConfig where
  virtDev : Nat
  intxDisabled : Bool
  msixEnabled : Option Bool
  deriving DecidableEq, Repr

/-- `VDEV_INIT` and the settings of `NVMEV_PCI_INIT`. -/
def nvmevPciInit (basePa : Nat) : PciConfig where
  virtDev := BitField.writeAll (pciSettings basePa) 0
  intxDisabled := false
  msixEnabled := none

/-- The `mask` of `nvmev_pci_write`. -/
def cfgMask (offset : Nat) : Nat :=
  if offset < offsPciPmCap then
    if offset = pciCommand then pciCommandIntxDisable
    else if offset = pciStatus then 0xF200
    else if offset = pciBist then pciBistStart
    else if offset = pciBaseAddress0 then 0xFFFFC000
    else if offset = pciInterruptLine then 0xFF
    else 0
  else if offset < offsPciMsixCap then 2 ^ 32 - 1
  else if offset < offsPcieCap then
    if offset - offsPciMsixCap = pciMsixFlags then pciMsixFlagsMaskall ||| pciMsixFlagsEnable else 0
  else 2 ^ 32 - 1

namespace PciConfig

variable (s : PciConfig)

/-- `nvmev_pci_read`: the return value, and what `*val` holds then. -/
def nvmevPciRead (devfn offset size val : Nat) : Nat × Nat :=
  if devfn ≠ 0 then (1, val)
  else (0, (cfgBytes 0 size).write ((cfgBytes offset size).read s.virtDev) val)

/-- The branch for `PCI_COMMAND`. -/
def changeIntx (val newVal : Nat) : PciConfig :=
  if (val ^^^ newVal) &&& pciCommandIntxDisable ≠ 0 then
    if newVal &&& pciCommandIntxDisable ≠ 0 then { s with intxDisabled := true }
    else { s with intxDisabled := false, virtDev := stsIs.write 0 s.virtDev }
  else s

/-- The branch for `PCI_MSIX_FLAGS`. -/
def changeMsix (val newVal : Nat) : PciConfig :=
  if s.msixEnabled ≠ none ∧ (val ^^^ newVal) &&& pciMsixFlagsEnable ≠ 0 then
    { s with msixEnabled := some (decide (newVal &&& pciMsixFlagsEnable ≠ 0)) }
  else s

/-- `nvmev_pci_write`. -/
def nvmevPciWrite (offset size newVal : Nat) : PciConfig :=
  let val := (cfgBytes offset size).read s.virtDev
  let s :=
    if offset = pciCommand then s.changeIntx val newVal
    else if offset = offsPciMsixCap + pciMsixFlags then s.changeMsix val newVal
    else s
  let mask := cfgMask offset
  let val := (val &&& ((2 ^ 32 - 1) ^^^ mask)) ||| (newVal &&& mask)
  { s with virtDev := (cfgBytes offset size).write val s.virtDev }

/-- What `nvmev_signal_irq` does to the configuration space. -/
def signalIrq : PciConfig :=
  if s.msixEnabled = some true then s else { s with virtDev := stsIs.write 1 s.virtDev }

end PciConfig

end NvmeVirt

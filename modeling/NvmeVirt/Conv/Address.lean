import NvmeVirt.Lib.Fields
import NvmeVirt.Conv.State

/-!
# Addresses as words, page numbers in their C types (`ssd.h`, `ssd_init_params`, `ppa2pgidx`)

`struct ppa` is one word with three views: the fields `g`, the block `h.blk_in_ssd` and the whole
word. The products of the geometry are taken here as the source types them: the pages of a plane are
a product of two `int`s before they become an `unsigned long`, and `int` arithmetic of the kernel
wraps.
-/

set_option autoImplicit false

namespace NvmeVirt

/-! ## The views of `struct ppa` -/

/-- `g.pg`, `g.blk`, `g.pl`, `g.lun`, `g.ch` and `h.blk_in_ssd`. -/
def pgField : BitField := ⟨0, 16⟩
def blkField : BitField := ⟨16, 16⟩
def plField : BitField := ⟨32, 8⟩
def lunField : BitField := ⟨40, 8⟩
def chField : BitField := ⟨48, 8⟩
def blkInSsdField : BitField := ⟨16, 40⟩

/-- The address a word stands for. -/
def ppaOfWord (w : Nat) : Ppa :=
  { ch := chField.read w, lun := lunField.read w, pl := plField.read w, blk := blkField.read w
    pg := pgField.read w }

/-- The word after the assignments of `get_new_page` to its five fields. -/
def setPpaFields (ch lun pl blk pg w : Nat) : Nat :=
  plField.write pl (blkField.write blk (pgField.write pg (lunField.write lun (chField.write ch w))))

/-! ## Page numbers -/

/-- The value of an `int` expression. -/
def cInt (z : Int) : Int := z.bmod (2 ^ 32)

/-- An `int` converted to `unsigned long`. -/
def intToUlong (z : Int) : Nat := (z % 2 ^ 64).toNat

namespace SsdParams

/-! `pgs_per_pl`, `pgs_per_lun`, `pgs_per_ch` and `tt_pgs` of `ssd_init_params`, from the
dimensions. -/

def countPl (spp : SsdParams) : Nat := intToUlong (cInt (spp.pgsPerBlk * spp.blksPerPl))

def countLun (spp : SsdParams) : Nat := u64 (spp.countPl * spp.plsPerLun)

def countCh (spp : SsdParams) : Nat := u64 (spp.countLun * spp.lunsPerCh)

def countTt (spp : SsdParams) : Nat := u64 (spp.countCh * spp.nchs)

/-- `idx` of `ppa2pgidx`: a sum of `uint64_t` terms, one of them an `int` product. -/
def pageIdx (spp : SsdParams) (ppa : Ppa) : Nat :=
  u64 (ppa.ch * spp.countCh + ppa.lun * spp.countLun + ppa.pl * spp.countPl +
    intToUlong (cInt (ppa.blk * spp.pgsPerBlk)) + ppa.pg)

/-- `ppa2pgidx` with its assertion. -/
def ppa2pgidx (spp : SsdParams) (ppa : Ppa) : Except Fault Nat :=
  if spp.pageIdx ppa < spp.countTt then .ok (spp.pageIdx ppa) else .error .bugOn

end SsdParams

end NvmeVirt

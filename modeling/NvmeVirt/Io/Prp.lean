import NvmeVirt.Io.Dispatch
import NvmeVirt.Lib.Copies

/-!
# The PRP walk (`__do_perform_io`, `__do_perform_io_using_dma` in `io.c`)

Both functions go through the pages that `prp1`, `prp2` and the PRP list name. The first copies page by
page, the second gathers the entries first and then submits one transfer for each run of pages that
follow each other. A copy is kept as what it moves: guest addresses against offsets in the storage
area. The PRP list is read from memory that the command leaves alone.
-/

set_option autoImplicit false

namespace NvmeVirt

/-- `PAGE_SIZE`. -/
def pageSize : Nat := 4096

/-- `struct nvme_rw_command`, with its PRP entries. -/
structure PrpCommand where
  opcode : IoOpcode
  slba : Nat
  length : Nat
  prp1 : Nat
  prp2 : Nat
  deriving DecidableEq, Repr

namespace PrpCommand

variable (cmd : PrpCommand)

/-- `__cmd_io_offset`. -/
def ioOffset : Nat := u64 (cmd.slba <<< lbaBits)

/-- `__cmd_io_size`. -/
def ioSize : Nat := (cmd.length + 1) <<< lbaBits

/-- The opcodes that move data. -/
def moves : Bool := cmd.opcode = .write ∨ cmd.opcode = .zoneAppend ∨ cmd.opcode = .read

end PrpCommand

/-- Guest memory: the pages the kernel knows, and the 64-bit word at an address. -/
structure GuestMemory where
  pfnValid : Nat → Bool
  word : Nat → Nat

namespace GuestMemory

variable (guest : GuestMemory)

/-- The address behind the pointer to a data page: `kmap_atomic_pfn` maps the page of `paddr`,
`memremap` maps from `paddr` on. -/
def mapPage (paddr : Nat) : Nat :=
  if guest.pfnValid (paddr / pageSize) = true then paddr / pageSize * pageSize else paddr

/-- The address behind `paddr_list`. The offset of the list is added to a pointer to bytes after
`kmap_atomic_pfn`, and to a pointer to words after `memremap`. -/
def mapList (paddr : Nat) : Nat :=
  if guest.pfnValid (paddr / pageSize) = true then paddr / pageSize * pageSize + paddr % pageSize
  else paddr + 8 * (paddr % pageSize)

/-- `paddr_list[i]`. -/
def listEntry (paddrList : Option Nat) (i : Nat) : Except Fault Nat :=
  match paddrList with
  | none => throw .nullPointer
  | some base => pure (u64 (guest.word (base + 8 * i)))

/-- The variables both walks keep. -/
structure PrpWalk where
  prpOffs : Nat
  prp2Offs : Nat
  paddrList : Option Nat
  deriving DecidableEq, Repr

/-- The next PRP entry, as both loops choose it. -/
def nextPrp (cmd : PrpCommand) (walk : PrpWalk) (remaining : Nat) : Except Fault (Nat × PrpWalk) :=
  let walk := { walk with prpOffs := walk.prpOffs + 1 }
  if walk.prpOffs = 1 then pure (u64 cmd.prp1, walk)
  else if walk.prpOffs = 2 then
    if pageSize < remaining then do
      let walk := { walk with paddrList := some (guest.mapList (u64 cmd.prp2)) }
      let paddr ← guest.listEntry walk.paddrList walk.prp2Offs
      pure (paddr, { walk with prp2Offs := walk.prp2Offs + 1 })
    else pure (u64 cmd.prp2, walk)
  else do
    let paddr ← guest.listEntry walk.paddrList walk.prp2Offs
    pure (paddr, { walk with prp2Offs := walk.prp2Offs + 1 })

end GuestMemory

open GuestMemory (PrpWalk)

/-- How much of `remaining` is in the page of an entry. -/
def prpIoSize (remaining paddr : Nat) : Nat :=
  if 0 < paddr % pageSize ∧ pageSize < min remaining pageSize + paddr % pageSize then
    pageSize - paddr % pageSize
  else min remaining pageSize

theorem prpIoSize_pos {remaining : Nat} (paddr : Nat) (h : 0 < remaining) :
    0 < prpIoSize remaining paddr := by
  have hpage : pageSize = 4096 := rfl
  have hmod := Nat.mod_lt paddr (show 0 < pageSize from Nat.succ_pos _)
  unfold prpIoSize
  split
  · omega
  · omega

theorem prpIoSize_le (remaining paddr : Nat) : prpIoSize remaining paddr ≤ remaining := by
  unfold prpIoSize
  split
  · omega
  · exact Nat.min_le_left ..

namespace GuestMemory

variable (guest : GuestMemory)

/-- The walk before the first entry. -/
def PrpWalk.start : PrpWalk := { prpOffs := 0, prp2Offs := 0, paddrList := none }

/-- The loop of `__do_perform_io`, with the copies it makes to or from `mapped + offset`. -/
def performPages (cmd : PrpCommand) (mapped : Nat) (walk : PrpWalk) (remaining offset : Nat) :
    Except Fault (List Copy) :=
  if 0 < remaining then do
    let (paddr, walk) ← guest.nextPrp cmd walk remaining
    let ioSize := prpIoSize remaining paddr
    let copies ← performPages cmd mapped walk (remaining - prpIoSize remaining paddr) (offset + ioSize)
    pure (if cmd.moves = true then
        ⟨guest.mapPage paddr + paddr % pageSize, mapped + offset, ioSize⟩ :: copies
      else copies)
  else pure []
termination_by remaining
decreasing_by
  have hpos := prpIoSize_pos paddr ‹0 < remaining›
  omega

/-- `__do_perform_io`: the length, and the copies. -/
def doPerformIoPages (cmd : PrpCommand) (mapped : Nat) : Except Fault (Nat × List Copy) := do
  let copies ← guest.performPages cmd mapped .start cmd.ioSize cmd.ioOffset
  pure (cmd.ioSize, copies)

/-- The first loop of `__do_perform_io_using_dma`: `paddr_list[513]` is filled from its index 1 on, and
`prp_offs` counts its entries. -/
def gatherPrps (cmd : PrpCommand) (walk : PrpWalk) (paddrs : Nat → Nat) (remaining : Nat) :
    Except Fault ((Nat → Nat) × Nat) :=
  if 0 < remaining then do
    let (paddr, walk) ← guest.nextPrp cmd walk remaining
    if 512 < walk.prpOffs then throw .outOfBounds
    else
      gatherPrps cmd walk (Function.update paddrs walk.prpOffs paddr)
        (remaining - prpIoSize remaining paddr)
  else pure (paddrs, walk.prpOffs)
termination_by remaining
decreasing_by
  have hpos := prpIoSize_pos paddr ‹0 < remaining›
  omega

/-- The loop over the entries that follow each other, from `prpOffs` on: the index of the first that
does not, and the size of the pages. -/
def joinPages (paddrs : Nat → Nat) (numPrps prpOffs size : Nat) : Nat × Nat :=
  if prpOffs ≤ numPrps then
    if paddrs prpOffs = u64 (paddrs (prpOffs - 1) + pageSize) then
      joinPages paddrs numPrps (prpOffs + 1) (size + pageSize)
    else (prpOffs, size)
  else (prpOffs, size)
termination_by numPrps + 1 - prpOffs

theorem le_joinPages (paddrs : Nat → Nat) (numPrps prpOffs size : Nat) :
    size ≤ (joinPages paddrs numPrps prpOffs size).2 := by
  fun_induction joinPages paddrs numPrps prpOffs size with
  | case1 prpOffs size _ _ ih => exact Nat.le_trans (Nat.le_add_right ..) ih
  | case2 => exact Nat.le_refl _
  | case3 => exact Nat.le_refl _

/-- The second loop: a transfer for each run of pages. -/
def submitRuns (cmd : PrpCommand) (paddrs : Nat → Nat) (numPrps prpOffs remaining offset : Nat) :
    List Copy :=
  if 0 < remaining then
    let run := joinPages paddrs numPrps (prpOffs + 1) (prpIoSize remaining (paddrs prpOffs))
    let copies := submitRuns cmd paddrs numPrps run.1 (remaining - min remaining run.2)
      (offset + min remaining run.2)
    if cmd.moves = true then ⟨paddrs prpOffs, offset, min remaining run.2⟩ :: copies else copies
  else []
termination_by remaining
decreasing_by
  have hpos := prpIoSize_pos (paddrs prpOffs) ‹0 < remaining›
  have hle := le_joinPages paddrs numPrps (prpOffs + 1) (prpIoSize remaining (paddrs prpOffs))
  omega

/-- `__do_perform_io_using_dma`: the length, and the transfers. -/
def doPerformIoUsingDma (cmd : PrpCommand) : Except Fault (Nat × List Copy) := do
  let (paddrs, numPrps) ← guest.gatherPrps cmd .start (fun _ => 0) cmd.ioSize
  pure (cmd.ioSize, submitRuns cmd paddrs numPrps 1 cmd.ioSize cmd.ioOffset)

/-! ## The other callers of the walk -/

/-- The transfer of `__prp_transfer_data` and of `kv_iter_read`, from a buffer of the module: the loop
of `__do_perform_io`, with every page mapped by `kmap_atomic_pfn`. -/
def transferPages (prp1 prp2 length : Nat) : Except Fault (List Copy) :=
  { guest with pfnValid := fun _ => true }.performPages
    { opcode := .read, slba := 0, length := 0, prp1, prp2 } 0 .start length 0

end GuestMemory

end NvmeVirt

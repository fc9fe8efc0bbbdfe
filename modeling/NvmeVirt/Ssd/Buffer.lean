import NvmeVirt.Kernel

/-!
# The write buffer (`ssd.c`)

The spinlock makes each of these one atomic step. A write that finds less room than it needs is
refused at once and changes nothing, unlike the comment above the function says; a release puts its
bytes back without a look at the size.
-/

set_option autoImplicit false

namespace NvmeVirt

open Outcome

structure Buffer where
  size : Nat
  remaining : Nat
  deriving DecidableEq, Repr

/-- `buffer_init`. -/
def bufferInit (size : Nat) : Buffer := { size, remaining := size }

/-- `buffer_allocate`: the buffer and the bytes granted, all of `size` or none. -/
def bufferAllocate (buf : Buffer) (size : Nat) : FtlM (Buffer × Nat) := do
  nvmevAssert (size ≤ buf.size)
  let size := if buf.remaining < size then 0 else size
  pure ({ buf with remaining := buf.remaining - size }, size)

/-- `buffer_release`. -/
def bufferRelease (buf : Buffer) (size : Nat) : Buffer :=
  { buf with remaining := buf.remaining + size }

/-! ## The three ways an allocation ends -/

theorem bufferAllocate_tooLarge {buf : Buffer} {size : Nat} (hlarge : buf.size < size) :
    bufferAllocate buf size = throw .bugOn := by
  unfold bufferAllocate nvmevAssert check
  rw [if_neg (Nat.not_le.mpr hlarge)]
  rfl

theorem bufferAllocate_short {buf : Buffer} {size : Nat} (hfits : size ≤ buf.size)
    (hshort : buf.remaining < size) : bufferAllocate buf size = pure (buf, 0) := by
  unfold bufferAllocate nvmevAssert check
  rw [if_pos hfits, if_pos hshort]
  rfl

theorem bufferAllocate_room {buf : Buffer} {size : Nat} (hfits : size ≤ buf.size)
    (hroom : size ≤ buf.remaining) :
    bufferAllocate buf size = pure ({ buf with remaining := buf.remaining - size }, size) := by
  unfold bufferAllocate nvmevAssert check
  rw [if_pos hfits, if_neg (Nat.not_lt.mpr hroom)]
  rfl

end NvmeVirt

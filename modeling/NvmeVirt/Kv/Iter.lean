import NvmeVirt.Io.Prp
import NvmeVirt.Kv.State

/-!
# Iterators over the keys (`kv_iter_open`, `kv_iter_close`, `kv_iter_read`)

A response is built in the buffer of the iterator, from its start at every read: a count, then a
length and sixteen bytes for each key. `pos` is an `int` in the source; the table the module maps has
fewer than `2^31` slots.
-/

set_option autoImplicit false

namespace NvmeVirt

/-- `struct kv_iter_context`, without the fields nothing reads; the buffer is refilled by each read. -/
structure KvIterContext where
  keyPrefix : Nat
  bitmask : Nat
  currentPos : Nat
  deriving DecidableEq, Repr

/-- `kv_ftl->iter_handle`. -/
abbrev KvIters := Nat → Option KvIterContext

/-- The answer to a command of an iterator. -/
structure KvIterAnswer where
  result : Nat
  status : Option Nat
  sent : List UInt8
  copies : List Copy

/-- The status that ends an iteration. -/
def kvIterEnd : Nat := 0x393

/-- The bytes of an `int`, and the `unsigned int` four bytes are. -/
def intBytes (n : Nat) : List UInt8 := (List.range 4).map fun i => UInt8.ofNat (n / 256 ^ i)
def uintOf (bytes : List UInt8) : Nat := bytes.foldr (fun b n => b.toNat + 256 * n) 0

/-- The first `n` bytes of `char key[18]`. -/
def MappingEntry.keyBytes (e : MappingEntry) (n : Nat) : List UInt8 :=
  (List.range n).map fun i => e.key.getD i 0

/-- `keylen` of `kv_iter_read`, the size of the responses, and how much a key takes of one. -/
def iterKeylen : Nat := 16
def iterBufSize : Nat := 1024
def iterRecordSize : Nat := 4 + (iterKeylen + 3) / 4 * 4

/-- What `kv_iter_read` appends for a key. -/
def MappingEntry.iterRecord (e : MappingEntry) : List UInt8 :=
  intBytes iterKeylen ++ e.keyBytes iterKeylen

/-- The variables of the loop of `kv_iter_read`; `buf` is the buffer from its fourth byte on. -/
structure IterScan where
  pos : Nat
  bufOffset : Nat
  nrKeys : Nat
  buf : List UInt8
  full : Bool
  ended : Bool

namespace KvFtl

variable (ftl : KvFtl)

/-- A live slot whose first four key bytes match. -/
def iterMatches (handle : KvIterContext) (pos : Nat) : Bool :=
  (ftl.kvMappingTable pos).memOffset.isSome &&
    (uintOf ((ftl.kvMappingTable pos).keyBytes 4) &&& handle.bitmask ==
      handle.keyPrefix &&& handle.bitmask)

/-- The loop of `kv_iter_read`. -/
def iterLoop (handle : KvIterContext) (s : IterScan) : IterScan :=
  if s.pos < ftl.hashSlots then
    if ftl.iterMatches handle s.pos = true ∧ iterBufSize < s.bufOffset + 4 + iterKeylen then
      { s with full := true }
    else
      let next :=
        if ftl.iterMatches handle s.pos = true then
          { s with
            bufOffset := s.bufOffset + iterRecordSize
            nrKeys := s.nrKeys + 1
            buf := s.buf ++ (ftl.kvMappingTable s.pos).iterRecord }
        else s
      if s.pos + 1 = ftl.hashSlots then { next with pos := s.pos + 1, ended := true }
      else iterLoop handle { next with pos := s.pos + 1 }
  else s
termination_by ftl.hashSlots - s.pos

/-- The loop from where the last read stopped. -/
def iterScan (handle : KvIterContext) : IterScan :=
  ftl.iterLoop handle
    { pos := handle.currentPos, bufOffset := 4, nrKeys := 0, buf := [], full := false
      ended := false }

/-- `kv_iter_read`. -/
def kvIterRead (guest : GuestMemory) (iters : KvIters) (iter prp1 prp2 : Nat) :
    Except Fault (KvIters × KvIterAnswer) :=
  if 17 ≤ iter then throw .outOfBounds
  else
    match iters iter with
    | none => pure (iters, { result := 0, status := none, sent := [], copies := [] })
    | some handle => do
      let scan := ftl.iterScan handle
      let copies ← guest.transferPages prp1 prp2 scan.bufOffset
      pure (Function.update iters iter (some { handle with currentPos := scan.pos }),
        { result := scan.bufOffset
          status := some (if scan.ended = true then kvIterEnd else 0)
          sent := intBytes scan.nrKeys ++ scan.buf
          copies })

end KvFtl

/-- `kv_iter_open`: the first of the handles 1 to 16 that is not in use. -/
def kvIterOpen (iters : KvIters) (bitmask keyPrefix : Nat) : KvIters × KvIterAnswer :=
  match (List.range' 1 16).find? (fun iter => (iters iter).isNone) with
  | none => (iters, { result := 1, status := none, sent := [], copies := [] })
  | some iter =>
    (Function.update iters iter (some { keyPrefix, bitmask, currentPos := 0 }),
      { result := iter, status := some 0, sent := [], copies := [] })

/-- `kv_iter_close`. -/
def kvIterClose (iters : KvIters) (iter : Nat) : Except Fault (KvIters × KvIterAnswer) :=
  if 17 ≤ iter then throw .outOfBounds
  else
    pure (Function.update iters iter none, { result := 0, status := some 0, sent := [], copies := [] })

end NvmeVirt

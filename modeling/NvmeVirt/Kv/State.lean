import NvmeVirt.Kernel
import NvmeVirt.Lib.Links

/-!
# The state of the key-value FTL (`kv_ftl.h`, `nvme_kv.h`, `append_only.c`)

A slot number or an offset of all ones is the source's "none", here `none`. Where a loop of the
source goes round for ever the program stops in `endlessLoop`.
-/

set_option autoImplicit false

namespace NvmeVirt

abbrev KvM (α : Type) := Except Fault α

section Sequencing

variable {α β : Type}

theorem KvM.ok_bind (a : α) (f : α → KvM β) : ((.ok a : KvM α) >>= f) = f a := rfl

/-- A program that answers has gone through its first part. -/
theorem KvM.of_bind {m : KvM α} {f : α → KvM β} {b : β} (h : m >>= f = .ok b) :
    ∃ a, m = .ok a ∧ f a = .ok b := by
  cases m with
  | error e => exact nomatch h
  | ok a => exact ⟨a, rfl, h⟩

end Sequencing

/-- The opcodes `__do_perform_kv_io` tells apart. -/
inductive KvOpcode where
  | store | retrieve | exist | delete | other
  deriving DecidableEq, Repr

/-- `struct nvme_kv_command`, with the `key_len + 1` bytes of its key; `valueLen` counts words. -/
structure KvCommand where
  opcode : KvOpcode
  key : List UInt8
  valueLen : Nat
  key_min : 4 ≤ key.length
  key_max : key.length ≤ 16
  valueLen_lt : valueLen < 2 ^ 32
  deriving DecidableEq, Repr

/-- `cmd_value_length`. -/
def KvCommand.valueLength (cmd : KvCommand) : Nat := u32 (cmd.valueLen * 4)

/-- `SMALL_LENGTH`. -/
def smallLength : Nat := 1024

def kvErrKeyNotExist : Nat := 0x310

/-- `hash_function`. -/
def hashFunction (key : List UInt8) : Nat :=
  key.foldl (fun h p => u32 (h * 16777619) ^^^ p.toNat) 2166136261

/-- `struct mapping_entry`. -/
structure MappingEntry where
  key : List UInt8
  memOffset : Option Nat
  length : Nat
  nextSlot : Option Nat
  deriving DecidableEq, Repr

/-- `struct kv_ftl` with the append-only allocator (`latest`) and the storage it gives out. -/
structure KvFtl where
  kvMappingTable : Nat → MappingEntry
  hashSlots : Nat
  storageSize : Nat
  latest : Nat
  storage : Nat → UInt8

/-- The answer to a command: the result, the status where it is set, and the bytes for the host. -/
structure KvAnswer where
  result : Nat
  status : Option Nat
  sent : List UInt8
  deriving DecidableEq, Repr

/-- An entry after `memset(…, -1, …)`. -/
def wipedEntry : MappingEntry :=
  { key := List.replicate 18 255, memOffset := none, length := 2 ^ 64 - 1, nextSlot := none }

/-- An entry after `kv_init_namespace`. -/
def unusedEntry : MappingEntry := { wipedEntry with key := List.replicate 18 0 }

/-! ## A table entry in memory -/

/-- `sizeof(struct mapping_entry)`. `key` and the padding behind it are its first 24 bytes, then come
`mem_offset` and `length` with 8 bytes each, and `next_slot` with 4. -/
def mappingEntrySize : Nat := 48

/-- The value of little-endian bytes. -/
def leValue : List UInt8 → Nat
  | [] => 0
  | b :: bytes => b.toNat + 256 * leValue bytes

/-- The `width` little-endian bytes of a value. -/
def leBytes : (width value : Nat) → List UInt8
  | 0, _ => []
  | width + 1, value => UInt8.ofNat value :: leBytes width (value / 256)

/-- A field of `width` bytes, the first of which are overwritten. -/
def overwriteField (width : Nat) (field : Option Nat) (bytes : List UInt8) : Option Nat :=
  if bytes = [] then field
  else
    let old := field.getD (2 ^ (8 * width) - 1)
    let value := leValue (bytes.take width ++ (leBytes width old).drop bytes.length)
    if value = 2 ^ (8 * width) - 1 then none else some value

/-- The entry after `memcpy` of `bytes` to its start. Bytes past the key field go to the padding, which
`key` keeps as well, and then to the fields behind it. -/
def MappingEntry.overwritten (entry : MappingEntry) (bytes : List UInt8) : MappingEntry where
  key := bytes.take 24 ++ entry.key.drop (bytes.take 24).length
  memOffset := overwriteField 8 entry.memOffset (bytes.drop 24)
  length := (overwriteField 8 (some entry.length) (bytes.drop 32)).getD (2 ^ 64 - 1)
  nextSlot := overwriteField 4 entry.nextSlot (bytes.drop 40)

/-- `memcpy` of `length` bytes to the address `start`. -/
def memcpyTo (storage : Nat → UInt8) (start length : Nat) (bytes : Nat → UInt8) : Nat → UInt8 :=
  fun a => if start ≤ a ∧ a < start + length then bytes (a - start) else storage a

namespace KvFtl

variable (ftl : KvFtl)

/-- Write `kv_mapping_table[slot]`. -/
def setEntry (slot : Nat) (entry : MappingEntry) : KvFtl :=
  { ftl with kvMappingTable := Function.update ftl.kvMappingTable slot entry }

/-- The chains of the table. -/
def links : Links Nat where
  live slot := (ftl.kvMappingTable slot).memOffset.isSome
  next slot := (ftl.kvMappingTable slot).nextSlot

/-! ## Allocation -/

/-- `append_only_allocate`. -/
def appendOnlyAllocate (length : Nat) : KvFtl × Nat :=
  ({ ftl with latest := u64 (ftl.latest + length) }, ftl.latest)

/-- `allocate_mem_offset` and `allocate_mem_offset_by_length`. -/
def allocateMemOffset (length : Nat) : KvFtl × Nat :=
  match ftl.appendOnlyAllocate length with
  | (ftl, offset) => (ftl, if offset = 2 ^ 64 - 1 then 0 else offset)

end KvFtl

/-- `kv_init_namespace`. -/
def kvInitNamespace (hashSlots storageSize : Nat) (storage : Nat → UInt8) : KvFtl where
  kvMappingTable := fun _ => unusedEntry
  hashSlots := hashSlots
  storageSize := storageSize
  latest := 0
  storage := storage

end NvmeVirt

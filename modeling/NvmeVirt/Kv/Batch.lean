import NvmeVirt.Kv.Io

/-!
# Batch commands (`__do_perform_kv_batch`)

A payload is the buffer the walk over the PRP entries has filled. A read past its end and a copy that
does not fit `key[20]` or the 4097 bytes of `value` are `outOfBounds`.
-/

set_option autoImplicit false

namespace NvmeVirt

/-- `ALIGN_LEN`. -/
def alignLen : Nat := 64

/-- `((len - 1) / ALIGN_LEN + 1) * ALIGN_LEN`; the division of `-1` truncates to 0. -/
def alignedLength (len : Nat) : Nat := ((len - 1) / alignLen + 1) * alignLen

/-- Where `sub_payload` starts: after the attributes and 384 reserved bytes. -/
def subPayloadStart : Nat := 512

/-- `nvme_cmd_kv_store`. -/
def nvmeCmdKvStore : UInt8 := 0x81

/-- `struct payload_format` in a buffer of `length` bytes. -/
structure PayloadFormat where
  length : Nat
  byte : Nat → UInt8

/-- `struct sub_cmd_attribute`, the fields a batch reads. -/
structure SubCmdAttribute where
  opcode : UInt8
  keySize : Nat
  valueSize : Nat

/-- The arguments of one `__do_perform_kv_batched_io`. -/
structure SubCmd where
  opcode : UInt8
  key : List UInt8
  valLen : Nat
  value : Nat → UInt8

/-- `sub_len`. -/
def SubCmd.subLen (sub : SubCmd) : Nat :=
  alignedLength sub.key.length + alignedLength sub.valLen + alignLen

namespace PayloadFormat

variable (payload : PayloadFormat)

/-- `batch_head.attr[i]`, 16 bytes each. -/
def attr (i : Nat) : KvM SubCmdAttribute :=
  if payload.length < 16 * i + 16 then throw .outOfBounds
  else pure
    { opcode := payload.byte (16 * i)
      keySize := (payload.byte (16 * i + 1)).toNat
      valueSize := (payload.byte (16 * i + 4)).toNat + (payload.byte (16 * i + 5)).toNat * 2 ^ 8 +
        (payload.byte (16 * i + 6)).toNat * 2 ^ 16 + (payload.byte (16 * i + 7)).toNat * 2 ^ 24 }

/-- The copies of the key and the value of one sub-command. -/
def subCmdAt (payloadOffset : Nat) (attr : SubCmdAttribute) : KvM SubCmd :=
  let start := subPayloadStart + payloadOffset
  let valueStart := start + alignedLength attr.keySize
  if 20 < attr.keySize ∨ 4097 < attr.valueSize ∨ payload.length < start + attr.keySize ∨
      (0 < attr.valueSize ∧ payload.length < valueStart + attr.valueSize) then
    throw .outOfBounds
  else pure
    { opcode := attr.opcode
      key := (List.range attr.keySize).map fun j => payload.byte (start + j)
      valLen := attr.valueSize
      value := fun j => if j < attr.valueSize then payload.byte (valueStart + j) else 0 }

/-- Sub-command `i`, whose key is at `payload_offset`. -/
def subCmd (i payloadOffset : Nat) : KvM SubCmd := do
  let attr ← payload.attr i
  payload.subCmdAt payloadOffset attr

end PayloadFormat

namespace KvFtl

/-- `__do_perform_kv_batched_io`: sub-commands that are no store look their key up and stop. -/
def performSubCmd (hash : List UInt8 → Nat) (ftl : KvFtl) (sub : SubCmd) : KvM KvFtl :=
  if sub.opcode = nvmeCmdKvStore then ftl.performKvBatchedIo hash sub.key sub.valLen sub.value
  else do
    let _ ← ftl.getMappingEntry hash sub.key
    pure ftl

/-- The loop over the sub-commands from `i` on. -/
def performSubCmds (hash : List UInt8 → Nat) (payload : PayloadFormat) :
    (count i payloadOffset : Nat) → KvFtl → KvM KvFtl
  | 0, _, _, ftl => pure ftl
  | count + 1, i, payloadOffset, ftl => do
    let sub ← payload.subCmd i payloadOffset
    let ftl ← ftl.performSubCmd hash sub
    performSubCmds hash payload count (i + 1) (payloadOffset + sub.subLen) ftl

/-- `__do_perform_kv_batch` of `sub_cmd_cnt` sub-commands. -/
def performKvBatch (hash : List UInt8 → Nat) (ftl : KvFtl) (subCmdCnt : Nat)
    (payload : PayloadFormat) : KvM KvFtl :=
  performSubCmds hash payload subCmdCnt 0 alignLen ftl

end KvFtl

end NvmeVirt

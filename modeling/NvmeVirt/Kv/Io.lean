import NvmeVirt.Kv.State

/-!
# The index and the commands of the key-value FTL (`kv_ftl.c`)

The hash function is a parameter. `get_mapping_entry`, `update_mapping_entry` and
`delete_mapping_entry`, and `get_mapping_entry_by_key`, walk the chain of the key in the same loop,
which is `findSlot`. The host's bytes are a function of their position: what the walk over the PRP
entries of the command reads.
-/

set_option autoImplicit false

namespace NvmeVirt

namespace KvFtl

/-! ## The index -/

/-- `get_hash_slot`. -/
def getHashSlot (hash : List UInt8 → Nat) (ftl : KvFtl) (key : List UInt8) : KvM Nat :=
  if ftl.hashSlots = 0 then throw .divideByZero else pure (hash key % ftl.hashSlots)

/-- `memcmp` of the key with the first bytes of the key field of the slot. -/
def holds (ftl : KvFtl) (key : List UInt8) (slot : Nat) : Bool :=
  (ftl.kvMappingTable slot).key.take key.length == key

/-- The search loop: the slot of the key. A walk of more than `hash_slots` slots comes back to a slot
it has passed. -/
def findSlot (hash : List UInt8 → Nat) (ftl : KvFtl) (key : List UInt8) : KvM (Option Nat) := do
  let slot ← ftl.getHashSlot hash key
  match ftl.links.seek (ftl.holds key) (ftl.hashSlots + 1) slot with
  | none => throw .endlessLoop
  | some r => pure r

/-- `get_mapping_entry` and `get_mapping_entry_by_key`. -/
def getMappingEntry (hash : List UInt8 → Nat) (ftl : KvFtl) (key : List UInt8) :
    KvM MappingEntry := do
  match ← ftl.findSlot hash key with
  | none => pure wipedEntry
  | some slot =>
    pure { ftl.kvMappingTable slot with
      key := (ftl.kvMappingTable slot).key.take key.length ++
        List.replicate (18 - key.length) 255 }

/-- The linear probe of `find_next_slot` from `slot` on. -/
def probe (ftl : KvFtl) : Nat → (slot : Nat) → Option Nat
  | 0, _ => none
  | passes + 1, slot =>
    if ftl.links.live slot = true then
      ftl.probe passes (if ftl.hashSlots ≤ slot + 1 then 0 else slot + 1)
    else some slot

/-- `find_next_slot`: the free slot and the last slot of the chain. -/
def findNextSlot (ftl : KvFtl) (originalSlot : Nat) : KvM (Nat × Nat) :=
  match ftl.links.last (ftl.hashSlots + 1) originalSlot originalSlot with
  | none => throw .endlessLoop
  | some prevSlot =>
    match ftl.probe (ftl.hashSlots + 1) prevSlot with
    | none => throw .endlessLoop
    | some slot => pure (slot, prevSlot)

/-- `chain_mapping`. -/
def chainMapping (ftl : KvFtl) (prev slot : Nat) : KvFtl :=
  ftl.setEntry prev { ftl.kvMappingTable prev with nextSlot := some slot }

/-- The `memcpy` of the key into `kv_mapping_table[slot].key`. Its length is not checked: a long key
goes on over the other fields of the slot, and over the slots behind it. -/
def copyKey (ftl : KvFtl) (slot : Nat) (key : List UInt8) : KvFtl :=
  { ftl with
    kvMappingTable := fun s =>
      if s < slot then ftl.kvMappingTable s
      else (ftl.kvMappingTable s).overwritten (key.drop (mappingEntrySize * (s - slot))) }

/-- The key, then the offset and the length are written to the slot. -/
def fillSlot (ftl : KvFtl) (slot : Nat) (key : List UInt8) (valLen valOffset : Nat) : KvFtl :=
  let ftl := ftl.copyKey slot key
  ftl.setEntry slot { ftl.kvMappingTable slot with memOffset := some valOffset, length := valLen }

/-- `new_mapping_entry_by_key`. -/
def newMappingEntryByKey (hash : List UInt8 → Nat) (ftl : KvFtl) (key : List UInt8)
    (valLen valOffset : Nat) : KvM KvFtl :=
  if ftl.storageSize ≤ valOffset then throw .bugOn
  else do
    let home ← ftl.getHashSlot hash key
    if ftl.links.live home = true then
      let (slot, prevSlot) ← ftl.findNextSlot home
      pure ((ftl.fillSlot slot key valLen valOffset).chainMapping prevSlot slot)
    else pure (ftl.fillSlot home key valLen valOffset)

/-- `new_mapping_entry`. -/
def newMappingEntry (hash : List UInt8 → Nat) (ftl : KvFtl) (cmd : KvCommand) (valOffset : Nat) :
    KvM KvFtl :=
  ftl.newMappingEntryByKey hash cmd.key cmd.valueLength valOffset

/-- `update_mapping_entry`. -/
def updateMappingEntry (hash : List UInt8 → Nat) (ftl : KvFtl) (cmd : KvCommand) : KvM KvFtl := do
  match ← ftl.findSlot hash cmd.key with
  | none => pure ftl
  | some slot =>
    pure (ftl.setEntry slot { ftl.kvMappingTable slot with length := cmd.valueLength })

/-- `delete_mapping_entry`. -/
def deleteMappingEntry (hash : List UInt8 → Nat) (ftl : KvFtl) (cmd : KvCommand) : KvM KvFtl := do
  match ← ftl.findSlot hash cmd.key with
  | none => pure ftl
  | some slot => pure (ftl.setEntry slot wipedEntry)

/-! ## Commands -/

/-- The copy loop of a store. -/
def copyIn (ftl : KvFtl) (offset length : Nat) (value : Nat → UInt8) : KvFtl :=
  { ftl with storage := memcpyTo ftl.storage offset length value }

/-- The copy loop of a retrieve. -/
def copyOut (ftl : KvFtl) (offset length : Nat) : List UInt8 :=
  (List.range length).map fun i => ftl.storage (offset + i)

/-- A store of a key that is not in the index. -/
def storeInsert (hash : List UInt8 → Nat) (ftl : KvFtl) (cmd : KvCommand) (value : Nat → UInt8) :
    KvM (KvFtl × KvAnswer) := do
  let (ftl, newOffset) := ftl.allocateMemOffset cmd.valueLength
  let ftl ← (ftl.copyIn newOffset cmd.valueLength value).newMappingEntry hash cmd newOffset
  pure (ftl, { result := 0, status := none, sent := [] })

/-- `is_insert == 2`: the length has changed, and is small before and after. -/
def changesLength (length entryLength : Nat) : Prop :=
  length ≠ entryLength ∧ length ≤ smallLength ∧ entryLength ≤ smallLength

instance (length entryLength : Nat) : Decidable (changesLength length entryLength) :=
  inferInstanceAs (Decidable (_ ∧ _ ∧ _))

/-- The end of a store of a known key; another change of length is only reported to the log. -/
def updateLength (hash : List UInt8 → Nat) (ftl : KvFtl) (cmd : KvCommand) (entryLength : Nat) :
    KvM KvFtl :=
  if changesLength cmd.valueLength entryLength then ftl.updateMappingEntry hash cmd else pure ftl

/-- A store of a key at `offset`. -/
def storeUpdate (hash : List UInt8 → Nat) (ftl : KvFtl) (cmd : KvCommand) (value : Nat → UInt8)
    (offset entryLength : Nat) : KvM (KvFtl × KvAnswer) := do
  let ftl ← (ftl.copyIn offset cmd.valueLength value).updateLength hash cmd entryLength
  pure (ftl, { result := 0, status := none, sent := [] })

/-- The answer to a command on a key that is not in the index. -/
def keyNotExist : KvAnswer := { result := 0, status := some kvErrKeyNotExist, sent := [] }

/-- `__do_perform_kv_io`. -/
def performKvIo (hash : List UInt8 → Nat) (ftl : KvFtl) (cmd : KvCommand) (value : Nat → UInt8) :
    KvM (KvFtl × KvAnswer) := do
  let entry ← ftl.getMappingEntry hash cmd.key
  match cmd.opcode, entry.memOffset with
  | .store, none => ftl.storeInsert hash cmd value
  | .store, some offset => ftl.storeUpdate hash cmd value offset entry.length
  | .retrieve, none => pure (ftl, keyNotExist)
  | .retrieve, some offset =>
    let length := min entry.length cmd.valueLength
    pure (ftl, { result := length, status := none, sent := ftl.copyOut offset length })
  | .exist, none => pure (ftl, keyNotExist)
  | .exist, some _ => pure (ftl, { result := 0, status := none, sent := [] })
  | .delete, none => pure (ftl, keyNotExist)
  | .delete, some _ => do
    let ftl ← ftl.deleteMappingEntry hash cmd
    pure (ftl, { result := 0, status := none, sent := [] })
  | .other, _ => pure (ftl, { result := 0, status := none, sent := [] })

/-- `__do_perform_kv_batched_io` for a store; the update of the length is commented out. -/
def performKvBatchedIo (hash : List UInt8 → Nat) (ftl : KvFtl) (key : List UInt8) (valLen : Nat)
    (value : Nat → UInt8) : KvM KvFtl := do
  let entry ← ftl.getMappingEntry hash key
  match entry.memOffset with
  | none =>
    let (ftl, newOffset) := ftl.allocateMemOffset valLen
    (ftl.copyIn newOffset valLen value).newMappingEntryByKey hash key valLen newOffset
  | some offset => pure (ftl.copyIn offset valLen value)

end KvFtl

end NvmeVirt

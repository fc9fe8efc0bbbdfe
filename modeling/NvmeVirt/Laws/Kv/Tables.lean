import NvmeVirt.Lib.System
import NvmeVirt.Laws.Kv.Walks

/-!
# Runs of the mapping table

A run inserts keys while a slot is free, changes lengths and deletes keys, in any order: nothing is
assumed of the hash function, and a key may be inserted twice or be the beginning of another. The
`memcmp` with a key longer than the key field goes on behind it; what it finds there is left open, so
an update or a delete with such a key may take any slot in use.

In every table of a run whose inserted keys end before `next_slot`, all walks and probes come to an
end. A longer key is copied over the link of its slot, and may close a chain.
-/

set_option autoImplicit false

namespace NvmeVirt

inductive KvTableOp where
  | insert (key : List UInt8) (valLen valOffset : Nat)
  | update (cmd : KvCommand)
  | delete (cmd : KvCommand)
  /-- An update or a delete with a longer key, which the search finds at `slot`. -/
  | updateAt (slot valLen : Nat)
  | deleteAt (slot : Nat)

/-- Some slot is free. -/
def KvFtl.HasRoom (ftl : KvFtl) : Prop := ∃ s, s < ftl.hashSlots ∧ ftl.links.live s = false

/-- An insert is made while a slot is free. -/
def KvTableOp.Allowed (ftl : KvFtl) : KvTableOp → Prop
  | .insert .. => ftl.HasRoom
  | .update _ | .delete _ => True
  | .updateAt slot _ | .deleteAt slot => ftl.links.live slot = true

def KvFtl.applyOp (hash : List UInt8 → Nat) (ftl : KvFtl) : KvTableOp → KvM KvFtl
  | .insert key valLen valOffset => ftl.newMappingEntryByKey hash key valLen valOffset
  | .update cmd => ftl.updateMappingEntry hash cmd
  | .delete cmd => ftl.deleteMappingEntry hash cmd
  | .updateAt slot valLen => .ok (ftl.setEntry slot { ftl.kvMappingTable slot with length := valLen })
  | .deleteAt slot => .ok (ftl.setEntry slot wipedEntry)

/-- Runs over a table of `hashSlots` slots. -/
def kvTables (hash : List UInt8 → Nat) (hashSlots storageSize : Nat) (storage : Nat → UInt8) :
    System KvFtl KvTableOp where
  init ftl := ftl = kvInitNamespace hashSlots storageSize storage
  step ftl op ftl' := op.Allowed ftl ∧ ftl.applyOp hash op = .ok ftl'

/-- The inserted key ends before `next_slot`, at byte 40 of its entry. -/
def KvTableOp.KeyFits (_ : KvFtl) : KvTableOp → Prop
  | .insert key _ _ => key.length ≤ 40
  | _ => True

section Tables

variable {hash : List UInt8 → Nat} {ftl ftl' : KvFtl} {born : Nat → Nat} {now hashSlots : Nat}
  {storageSize : Nat} {storage : Nat → UInt8} {op : KvTableOp}

/-- A table as the runs keep it. -/
def KvFtl.IsLinked (hashSlots : Nat) (ftl : KvFtl) : Prop :=
  ftl.hashSlots = hashSlots ∧ ∃ born now, Linked ftl born now

theorem Linked.init : Linked (kvInitNamespace hashSlots storageSize storage) (fun _ => 0) 0 :=
  ⟨fun _ h => absurd h Bool.false_ne_true, fun _ _ => rfl, fun _ _ h => absurd h Bool.false_ne_true,
    fun _ h => absurd h Bool.false_ne_true⟩

/-- What the search of an update or a delete comes to. -/
theorem KvFtl.of_findSlot {key : List UInt8} {found : Nat → KvFtl}
    (hok : (ftl.findSlot hash key >>= fun r =>
      match r with
      | none => pure ftl
      | some slot => pure (found slot)) = .ok ftl') :
    ftl' = ftl ∨ ∃ slot, ftl' = found slot := by
  obtain ⟨r, _, hr⟩ := KvM.of_bind hok
  cases r with
  | none => exact .inl (Except.ok.inj hr).symm
  | some slot => exact .inr ⟨slot, (Except.ok.inj hr).symm⟩

/-- Each operation keeps the table linked. -/
theorem Linked.applyOp (h : Linked ftl born now) (hfits : op.KeyFits ftl)
    (hok : ftl.applyOp hash op = .ok ftl') :
    ftl'.hashSlots = ftl.hashSlots ∧ ∃ born' now', Linked ftl' born' now' := by
  cases op with
  | insert key valLen valOffset =>
    obtain ⟨_, slot, link, hfree, hslot, hend, rfl⟩ := h.inserted hfits hok
    exact ⟨ftl.filled_hashSlots slot (key.take 24) valLen valOffset link, _, _,
      h.fill hfree hslot hend.loose⟩
  | update cmd =>
    rcases KvFtl.of_findSlot hok with rfl | ⟨slot, rfl⟩
    · exact ⟨rfl, born, now, h⟩
    · exact ⟨rfl, born, now, h.setLength slot cmd.valueLength⟩
  | delete cmd =>
    rcases KvFtl.of_findSlot hok with rfl | ⟨slot, rfl⟩
    · exact ⟨rfl, born, now, h⟩
    · exact ⟨rfl, born, now, h.wipe slot⟩
  | updateAt slot valLen =>
    obtain rfl := Except.ok.inj hok
    exact ⟨rfl, born, now, h.setLength slot valLen⟩
  | deleteAt slot =>
    obtain rfl := Except.ok.inj hok
    exact ⟨rfl, born, now, h.wipe slot⟩

theorem kvTables_linked :
    ((kvTables hash hashSlots storageSize storage).guarded KvTableOp.KeyFits).Invariant
      (KvFtl.IsLinked hashSlots) where
  init ftl h := by
    obtain rfl : ftl = _ := h
    exact ⟨rfl, _, _, Linked.init⟩
  step ftl op ftl' h hstep := by
    obtain ⟨hslots, born, now, hlinked⟩ := h
    obtain ⟨hfits, _, hok⟩ := hstep
    obtain ⟨hslots', hlinked'⟩ := hlinked.applyOp hfits hok
    exact ⟨hslots'.trans hslots, hlinked'⟩

/-- The search of an update or a delete does not go round for ever. -/
theorem Linked.findSlot_ends (h : Linked ftl born now) (key : List UInt8) {found : Nat → KvFtl} :
    (ftl.findSlot hash key >>= fun r =>
      match r with
      | none => pure ftl
      | some slot => pure (found slot)) ≠ .error .endlessLoop := by
  intro herr
  rcases Nat.eq_zero_or_pos ftl.hashSlots with hzero | hpos
  · unfold KvFtl.findSlot at herr
    rw [ftl.getHashSlot_of_zero hash key hzero] at herr
    cases herr
  · obtain ⟨r, hr⟩ : ∃ r, ftl.findSlot hash key = .ok r := h.findSlot hpos key
    rw [hr, KvM.ok_bind] at herr
    cases r with
    | none => cases herr
    | some slot => cases herr

theorem Linked.applyOp_ends (h : Linked ftl born now) (hop : op.Allowed ftl) :
    ftl.applyOp hash op ≠ .error .endlessLoop := by
  cases op with
  | insert key valLen valOffset =>
    obtain ⟨free, hlt, hfree⟩ := hop
    intro herr
    by_cases hsize : ftl.storageSize ≤ valOffset
    · have hbug : ftl.applyOp hash (.insert key valLen valOffset) = .error .bugOn := if_pos hsize
      rw [hbug] at herr
      cases herr
    · obtain ⟨ftl', hok⟩ : ∃ ftl', ftl.applyOp hash (.insert key valLen valOffset) = .ok ftl' :=
        h.insert_answers hfree hlt (Nat.lt_of_not_le hsize)
      rw [hok] at herr
      cases herr
  | update cmd => exact h.findSlot_ends cmd.key
  | delete cmd => exact h.findSlot_ends cmd.key
  | updateAt _ _ =>
    intro herr
    cases herr
  | deleteAt _ =>
    intro herr
    cases herr

end Tables

/-! ## The law -/

/-- In every table of a run whose inserted keys have at most 40 bytes: a free slot has no link and
no link leads back to its slot; a walk goes through at most `hash_slots` slots, and both walks of
the source end; while a slot is free, `find_next_slot` ends at a free slot other than the one it
links from; and no operation, with a key of any length, goes round for ever. A longer key is copied
over the fields behind it, the link of its slot among them, and such an insertion is no step of
these runs. The hash function and the number of slots are any. -/
theorem kv_walks_end (hash : List UInt8 → Nat) (hashSlots storageSize : Nat) (storage : Nat → UInt8)
    {ftl : KvFtl}
    (h : ((kvTables hash hashSlots storageSize storage).guarded KvTableOp.KeyFits).Reachable ftl) :
    (∀ s, ftl.links.live s = false → ftl.links.next s = none) ∧
      (∀ s, ¬ Relation.TransGen (fun a b => ftl.links.next a = some b) s s) ∧
      (∀ walk, ftl.IsWalk walk → walk.Nodup ∧ walk.length ≤ hashSlots) ∧
      (∀ found s, ∃ r, ftl.links.seek found (hashSlots + 1) s = some r) ∧
      (∀ s, ∃ r, ftl.links.last (hashSlots + 1) s s = some r) ∧
      (∀ start, ftl.links.live start = true → ftl.HasRoom →
        ∃ slot prev, ftl.findNextSlot start = .ok (slot, prev) ∧ ftl.links.live slot = false ∧
          slot < hashSlots ∧ slot ≠ prev ∧ ftl.links.Leads (fun _ => False) start prev) ∧
      ∀ op : KvTableOp, op.Allowed ftl → ftl.applyOp hash op ≠ .error .endlessLoop := by
  obtain ⟨rfl, born, now, hlinked⟩ := kvTables_linked.reachable h
  refine ⟨hlinked.unlinked, hlinked.acyclic, fun _ => hlinked.walk_bound, hlinked.seek_ends,
    hlinked.last_ends, ?_, fun _ => hlinked.applyOp_ends⟩
  rintro start hstart ⟨free, hlt, hfree⟩
  obtain ⟨slot, prev, hnext, hslot, hrange, hne, hleads, _⟩ :=
    hlinked.findNextSlot hstart hfree hlt
  exact ⟨slot, prev, hnext, hslot, hrange, hne, hleads⟩

/-- Three keys in four slots under a hash function that sends every key to the first, the second of
them as long as the guard allows, which is then deleted: its slot is still linked to. -/
theorem kv_walks_end_four : ∃ ftl : KvFtl,
    ((kvTables (fun _ => 0) 4 4096 fun _ => 0).guarded KvTableOp.KeyFits).Reachable ftl ∧
      ftl.links.next 0 = some 1 ∧ ftl.links.live 1 = false ∧
      ∃ slot prev, ftl.findNextSlot 0 = .ok (slot, prev) ∧ ftl.links.live slot = false ∧ slot < 4 ∧
        slot ≠ prev ∧ ftl.links.Leads (fun _ => False) 0 prev := by
  have hempty : ((kvTables (fun _ => 0) 4 4096 fun _ => 0).guarded KvTableOp.KeyFits).Reachable
      (kvInitNamespace 4 4096 fun _ => 0) := .init rfl
  have hone := hempty.step (l := KvTableOp.insert [1, 2, 3, 4] 8 0)
    ⟨Nat.le_of_ble_eq_true rfl, ⟨0, by decide, rfl⟩, rfl⟩
  have htwo := hone.step (l := KvTableOp.insert (List.replicate 40 7) 8 8)
    ⟨Nat.le_of_ble_eq_true rfl, ⟨1, by decide, rfl⟩, rfl⟩
  have hthree := htwo.step (l := KvTableOp.insert [5, 6, 7, 8] 8 16)
    ⟨Nat.le_of_ble_eq_true rfl, ⟨2, by decide, rfl⟩, rfl⟩
  have hfour := hthree.step (l := KvTableOp.deleteAt 1) ⟨trivial, rfl, rfl⟩
  obtain ⟨_, _, _, _, _, hprobe, _⟩ := kv_walks_end (fun _ => 0) 4 4096 (fun _ => 0) hfour
  exact ⟨_, hfour, rfl, rfl, hprobe 0 rfl ⟨1, by decide, rfl⟩⟩

/-! ## A key over the link of its slot -/

section Shipped

/-- A key of 44 bytes whose home in a 1 GiB table is slot 0, and whose bytes 40 to 43 read as slot 0. -/
def selfLinkingKey : List UInt8 :=
  List.replicate 34 0x61 ++ [0x63, 0x6a, 0x6b, 0x64, 0x62, 0x6f, 0, 0, 0, 0]

/-- Another key with that home. -/
def txtyrea : List UInt8 := [0x74, 0x78, 0x74, 0x79, 0x72, 0x65, 0x61]

/-- A walk that misses its key in a slot linked to itself uses up its passes. -/
theorem Links.seek_selfLink {α : Type} {l : Links α} {found : α → Bool} {a : α}
    (hlive : l.live a = true) (hfound : found a = false) (hnext : l.next a = some a) (passes : Nat) :
    l.seek found passes a = none := by
  induction passes with
  | zero => rfl
  | succ passes ih =>
    unfold Links.seek
    rw [hlive, hfound, hnext]
    exact ih

/-- The table of a 1 GiB hash table after the store of that key. -/
def selfLinked : KvFtl :=
  (kvInitNamespace 22369621 (2 ^ 30) fun _ => 0).fillSlot 0 selfLinkingKey 8 0

theorem selfLinked_entry : selfLinked.kvMappingTable 0 =
    { unusedEntry.overwritten selfLinkingKey with memOffset := some 0, length := 8 } := by
  unfold selfLinked KvFtl.fillSlot
  rw [KvFtl.setEntry_self]
  rfl

theorem selfLinked_inserted :
    (kvInitNamespace 22369621 (2 ^ 30) fun _ => 0).applyOp hashFunction
      (.insert selfLinkingKey 8 0) = .ok selfLinked := by
  have hsize : ¬ (kvInitNamespace 22369621 (2 ^ 30) fun _ => 0).storageSize ≤ 0 := by
    show ¬ 2 ^ 30 ≤ 0
    decide
  have hpos : 0 < (kvInitNamespace 22369621 (2 ^ 30) fun _ => 0).hashSlots := by
    show 0 < 22369621
    decide
  have hslot : (kvInitNamespace 22369621 (2 ^ 30) fun _ => 0).home hashFunction selfLinkingKey = 0 := by
    unfold KvFtl.home
    decide +kernel
  have hfree : ¬ (kvInitNamespace 22369621 (2 ^ 30) fun _ => 0).links.live 0 = true :=
    Bool.false_ne_true
  show KvFtl.newMappingEntryByKey _ _ _ _ _ = _
  unfold KvFtl.newMappingEntryByKey
  rw [if_neg hsize, KvFtl.getHashSlot_of_pos _ _ _ hpos, hslot, KvM.ok_bind, if_neg hfree]
  rfl

/-- After one store of that key every search that starts at its slot goes round for ever. -/
theorem kv_walk_goes_round :
    ∃ ftl, (kvTables hashFunction 22369621 (2 ^ 30) fun _ => 0).Reachable ftl ∧
      ftl.links.next 0 = some 0 ∧ ftl.findSlot hashFunction txtyrea = .error .endlessLoop := by
  have hempty : (kvTables hashFunction 22369621 (2 ^ 30) fun _ => 0).Reachable
      (kvInitNamespace 22369621 (2 ^ 30) fun _ => 0) := .init rfl
  have hone := hempty.step (l := KvTableOp.insert selfLinkingKey 8 0)
    ⟨⟨0, by decide, rfl⟩, selfLinked_inserted⟩
  have hlive : selfLinked.links.live 0 = true := by
    show (selfLinked.kvMappingTable 0).memOffset.isSome = true
    rw [selfLinked_entry]
    rfl
  have hnext : selfLinked.links.next 0 = some 0 := by
    show (selfLinked.kvMappingTable 0).nextSlot = some 0
    rw [selfLinked_entry]
    decide
  have hmiss : selfLinked.holds txtyrea 0 = false := by
    unfold KvFtl.holds
    rw [selfLinked_entry]
    decide
  refine ⟨selfLinked, hone, hnext, ?_⟩
  have hslot : selfLinked.home hashFunction txtyrea = 0 := by
    unfold KvFtl.home
    decide +kernel
  have hpos : 0 < selfLinked.hashSlots := by
    show 0 < 22369621
    decide
  unfold KvFtl.findSlot
  rw [KvFtl.getHashSlot_of_pos _ _ _ hpos, hslot, KvM.ok_bind, Links.seek_selfLink hlive hmiss hnext]
  rfl

end Shipped

end NvmeVirt

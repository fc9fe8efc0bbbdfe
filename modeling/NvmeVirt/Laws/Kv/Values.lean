import NvmeVirt.Lib.Extents
import NvmeVirt.Laws.Kv.Index

/-!
# Values do not overlap

The append-only allocator gives out extents one behind another and knows no end; a store of a known
key writes to the offset it has, whatever the length. A store is `HasRoom` when it writes no more
than the allocator gave for its key. In runs of such stores the values of distinct keys stay apart,
inside the storage, and only the key that is stored has its bytes changed.

`ValuesApart` relates the slots in use with extents: each has one, they are disjoint
(`Lib/Extents`), and the bytes in use lie in it. A new key takes the extent behind the last
(`ValuesApart.inserted`), a known one stays in its own (`ValuesApart.rewritten`). That the bytes of
the others stay follows once for both (`ValuesApart.bytes_kept`).

The size leaves the allocator a megabyte below 2⁶⁴, so that no offset wraps. There are no deletes in
these runs; `Laws/Kv/Dictionary` has them.
-/

set_option autoImplicit false

namespace NvmeVirt

/-- Where the value of the slot starts. -/
def KvFtl.startOf (ftl : KvFtl) (slot : Nat) : Nat := (ftl.kvMappingTable slot).memOffset.getD 0

/-- `length` bytes under a key that is not aliased: a new key gets them before the end of the storage,
and a known one has got them. -/
structure HasRoom (hash : List UInt8 → Nat) (s : KvRun) (key : List UInt8) (length : Nat) : Prop where
  notAliased : ¬ Aliased hash s.ftl s.owner key
  known : ∀ t, s.ftl.links.live t = true → s.owner t = key → length ≤ s.reserved t
  new : (∀ t, s.ftl.links.live t = true → s.owner t ≠ key) →
    s.ftl.latest + length ≤ s.ftl.storageSize

/-- The stores, batched or not, that stay inside what the allocator gave; there are no deletes. -/
def KeepsValues (hash : List UInt8 → Nat) (s : KvRun) : KvEvent → Prop
  | .io cmd _ => cmd.opcode ≠ .delete ∧ (cmd.opcode = .store → HasRoom hash s cmd.key cmd.valueLength)
  | .batched store => HasRoom hash s store.key store.valLen

/-- What holds in every state of such a run. -/
structure ValuesApart (hash : List UInt8 → Nat) (storageSize : Nat) (s : KvRun) : Prop where
  indexed : ∃ born now, Indexed hash s.ftl s.owner born now
  size : s.ftl.storageSize = storageSize
  latest : s.ftl.latest ≤ storageSize
  lengths : ∀ t, s.ftl.links.live t = true → (s.ftl.kvMappingTable t).length ≤ s.reserved t
  extents : Extents (fun t => s.ftl.links.live t = true) s.ftl.startOf s.reserved s.ftl.latest

/-- The value of the slot is what it was. -/
structure ValueKept (ftl ftl' : KvFtl) (slot : Nat) : Prop where
  entry : SameEntry (ftl.kvMappingTable slot) (ftl'.kvMappingTable slot)
  bytes : ∀ i < (ftl.kvMappingTable slot).length,
    ftl'.storage (ftl.startOf slot + i) = ftl.storage (ftl.startOf slot + i)

/-- Nothing has happened. -/
theorem ValueKept.refl (ftl : KvFtl) (slot : Nat) : ValueKept ftl ftl slot :=
  ⟨.refl _, fun _ _ => rfl⟩

section Runs

variable {hash : List UInt8 → Nat} {hashSlots storageSize length : Nat} {storage : Nat → UInt8}
  {s : KvRun} {ftl' : KvFtl} {key : List UInt8} {value : Nat → UInt8} {updates : Bool}
  {born : Nat → Nat} {now : Nat}

/-- Bytes outside the range that is written stay. -/
theorem memcpyTo_outside {start a : Nat} {bytes : Nat → UInt8}
    (h : a < start ∨ start + length ≤ a) : memcpyTo storage start length bytes a = storage a := by
  apply if_neg
  omega

theorem KvFtl.startOf_congr {ftl ftl' : KvFtl} {t t' : Nat}
    (h : (ftl'.kvMappingTable t').memOffset = (ftl.kvMappingTable t).memOffset) :
    ftl'.startOf t' = ftl.startOf t := congrArg (fun o => o.getD 0) h

theorem KvFtl.live_congr {ftl ftl' : KvFtl} {t t' : Nat}
    (h : (ftl'.kvMappingTable t').memOffset = (ftl.kvMappingTable t).memOffset) :
    ftl'.links.live t' = ftl.links.live t := congrArg Option.isSome h

/-- The allocator gives the bytes from `latest` on and moves on, as long as the storage has room. -/
theorem KvFtl.allocate_roomy {ftl : KvFtl} (hsize : ftl.storageSize + 2 ^ 20 < 2 ^ 64)
    (hroom : ftl.latest + length ≤ ftl.storageSize) :
    (ftl.allocateMemOffset length).2 = ftl.latest ∧
      (ftl.allocated length value).latest = ftl.latest + length := by
  constructor
  · apply if_neg
    omega
  · exact Nat.mod_eq_of_lt (by omega)

/-- Another key's value after a write that stays inside the extent of a slot. -/
theorem ValuesApart.bytes_kept (h : ValuesApart hash storageSize s) {t start : Nat}
    (ht : s.ftl.links.live t = true)
    (hapart : s.ftl.startOf t + s.reserved t ≤ start ∨ start + length ≤ s.ftl.startOf t)
    (i : Nat) (hi : i < (s.ftl.kvMappingTable t).length) :
    memcpyTo s.ftl.storage start length value (s.ftl.startOf t + i) =
      s.ftl.storage (s.ftl.startOf t + i) := by
  have hlength := h.lengths t ht
  apply memcpyTo_outside
  omega

/-! ## The steps of a run -/

/-- A roomy store of a new key. -/
theorem ValuesApart.inserted (h : ValuesApart hash storageSize s)
    (hsize : storageSize + 2 ^ 20 < 2 ^ 64) {slot : Nat} {link : Option Nat}
    (hroom : s.ftl.latest + length ≤ s.ftl.storageSize) (hfree : s.ftl.links.live slot = false)
    (hftl' : ftl' = (s.ftl.allocated length value).filled slot key length
      (s.ftl.allocateMemOffset length).2 link)
    (hindexed : Indexed hash ftl' (Function.update s.owner slot key) born now)
    (map : List UInt8 → Option (Nat × Nat)) :
    ValuesApart hash storageSize (s.after ftl' key length map) ∧
      ∀ t, s.ftl.links.live t = true → ValueKept s.ftl ftl' t := by
  obtain ⟨hoff, hnext⟩ := @KvFtl.allocate_roomy length value s.ftl (h.size ▸ hsize) hroom
  obtain ⟨howner, hreserved⟩ := KvRun.after_inserted hfree
    (show (s.ftl.allocated length value).links = s.ftl.links from rfl) hftl' map
  have hself := @KvFtl.filled_entry slot key link (s.ftl.allocated length value) length
    (s.ftl.allocateMemOffset length).2
  have hothers : ∀ t, t ≠ slot → SameEntry (s.ftl.kvMappingTable t) (ftl'.kvMappingTable t) := by
    intro t ht
    rw [hftl']
    exact (s.ftl.allocated length value).filled_other length _ ht
  rw [← hftl'] at hself
  have hdata : ftl'.storageSize = s.ftl.storageSize ∧ ftl'.latest = s.ftl.latest + length ∧
      ftl'.storage = memcpyTo s.ftl.storage s.ftl.latest length value := by
    rw [hftl', ← hnext, ← hoff]
    cases link <;> exact ⟨rfl, rfl, rfl⟩
  obtain ⟨hstorage, hlatest, hbytes⟩ := hdata
  have hlive : ∀ t, t ≠ slot → ftl'.links.live t = true → s.ftl.links.live t = true :=
    fun t hts ht => (KvFtl.live_congr (hothers t hts).memOffset) ▸ ht
  constructor
  · constructor
    · rw [howner]
      exact ⟨born, now, hindexed⟩
    · exact hstorage.trans h.size
    · show ftl'.latest ≤ storageSize
      rw [hlatest, ← h.size]
      exact hroom
    · intro t ht
      rw [hreserved]
      by_cases hts : t = slot
      · rw [hts, Function.update_self]
        exact Nat.le_of_eq hself.length
      · rw [Function.update_of_ne hts]
        show (ftl'.kvMappingTable t).length ≤ s.reserved t
        rw [(hothers t hts).length]
        exact h.lengths t (hlive t hts ht)
    · rw [hreserved]
      show Extents _ ftl'.startOf _ ftl'.latest
      rw [hlatest]
      apply h.extents.take
      · show (ftl'.kvMappingTable slot).memOffset.getD 0 = s.ftl.latest
        rw [hself.memOffset]
        exact hoff
      · exact Function.update_self ..
      · intro t hts ht
        exact ⟨hlive t hts ht, KvFtl.startOf_congr (hothers t hts).memOffset,
          Function.update_of_ne hts ..⟩
  · intro t ht
    have hts : t ≠ slot := by
      intro he
      rw [he, hfree] at ht
      exact nomatch ht
    apply ValueKept.mk (hothers t hts)
    rw [hbytes]
    exact h.bytes_kept ht (.inl (h.extents.below t ht))

/-- A roomy store of a known key. -/
theorem ValuesApart.rewritten (h : ValuesApart hash storageSize s) {slot offset length' : Nat}
    (hlive : s.ftl.links.live slot = true)
    (hoffset : (s.ftl.kvMappingTable slot).memOffset = some offset)
    (hroom : length ≤ s.reserved slot) (hlength : length' ≤ s.reserved slot)
    (hftl' : ftl' = (s.ftl.copyIn offset length value).setEntry slot
      { s.ftl.kvMappingTable slot with length := length' })
    (map : List UInt8 → Option (Nat × Nat)) :
    ValuesApart hash storageSize (s.after ftl' key length map) ∧
      ∀ t, s.ftl.links.live t = true → t ≠ slot → ValueKept s.ftl ftl' t := by
  have hself : ftl'.kvMappingTable slot =
      { s.ftl.kvMappingTable slot with length := length' } := by
    rw [hftl']
    exact KvFtl.setEntry_self ..
  have hothers : ∀ t, t ≠ slot → ftl'.kvMappingTable t = s.ftl.kvMappingTable t := by
    intro t ht
    rw [hftl']
    exact KvFtl.setEntry_other _ _ ht
  have hoffsets : ∀ t, (ftl'.kvMappingTable t).memOffset = (s.ftl.kvMappingTable t).memOffset := by
    intro t
    by_cases hts : t = slot
    · rw [hts, hself]
    · rw [hothers t hts]
  have hold : ∀ t, ftl'.links.live t = true → s.ftl.links.live t = true :=
    fun t ht => (KvFtl.live_congr (hoffsets t)) ▸ ht
  obtain ⟨howner, hreserved⟩ := s.after_kept ftl' hold key length map
  constructor
  · constructor
    · obtain ⟨born, now, hindexed⟩ := h.indexed
      have hcopied : Indexed hash (s.ftl.copyIn offset length value) s.owner born now :=
        hindexed.congr rfl rfl
      rw [howner]
      refine ⟨born, now, ?_⟩
      show Indexed hash ftl' s.owner born now
      rw [hftl']
      exact hcopied.setLength slot length'
    · show ftl'.storageSize = storageSize
      rw [hftl']
      exact h.size
    · show ftl'.latest ≤ storageSize
      rw [hftl']
      exact h.latest
    · intro t ht
      rw [hreserved]
      show (ftl'.kvMappingTable t).length ≤ s.reserved t
      by_cases hts : t = slot
      · rw [hts, hself]
        exact hlength
      · rw [hothers t hts]
        exact h.lengths t (hold t ht)
    · rw [hreserved]
      have hlatest : s.ftl.latest ≤ ftl'.latest := by
        rw [hftl']
        exact Nat.le_refl _
      exact h.extents.shrink
        (fun t ht => ⟨hold t ht, KvFtl.startOf_congr (hoffsets t), Nat.le_refl _⟩) hlatest
  · intro t ht hts
    constructor
    · rw [hothers t hts]
      exact .refl _
    · have hbytes : ftl'.storage = memcpyTo s.ftl.storage offset length value := by
        rw [hftl']
        rfl
      have hstart : s.ftl.startOf slot = offset := congrArg (fun o => o.getD 0) hoffset
      rw [hbytes]
      apply h.bytes_kept ht
      have hapart := h.extents.apart t slot ht hlive hts
      omega

/-- A roomy store keeps the values apart, and those of the other keys as they were. -/
theorem ValuesApart.stored (h : ValuesApart hash storageSize s)
    (hsize : storageSize + 2 ^ 20 < 2 ^ 64) (hfits : HasRoom hash s key length)
    (hstored : Stored hash s.ftl s.owner born now key length value updates ftl')
    (map : List UInt8 → Option (Nat × Nat)) :
    ValuesApart hash storageSize (s.after ftl' key length map) ∧
      ∀ t, s.ftl.links.live t = true → s.owner t ≠ key → ValueKept s.ftl ftl' t := by
  cases hstored with
  | inserted hnew hfree _ hftl' hindexed =>
    obtain ⟨hafter, hkept⟩ := h.inserted hsize (hfits.new hnew) hfree hftl' hindexed map
    exact ⟨hafter, fun t ht _ => hkept t ht⟩
  | @rewritten slot offset length' hlive howned hoffset hlength =>
    have hroom := hfits.known slot hlive howned
    have hlength' : length' ≤ s.reserved slot := by
      rw [hlength]
      split
      · exact hroom
      · exact h.lengths slot hlive
    obtain ⟨hafter, hkept⟩ := h.rewritten hlive hoffset hroom hlength' rfl map
    refine ⟨hafter, fun t ht hother => hkept t ht fun hts => hother ?_⟩
    rw [hts]
    exact howned

/-- A command that writes nothing. -/
theorem ValuesApart.unchanged (h : ValuesApart hash storageSize s) (key : List UInt8)
    (length : Nat) : ValuesApart hash storageSize (s.after s.ftl key length s.map) := by
  obtain ⟨howner, hreserved⟩ := s.after_kept s.ftl (fun _ ht => ht) key length s.map
  constructor
  · rw [howner]
    exact h.indexed
  · exact h.size
  · exact h.latest
  · rw [hreserved]
    exact h.lengths
  · rw [hreserved]
    exact h.extents

/-- Every step with room. -/
theorem ValuesApart.step {e : KvEvent} {s' : KvRun} (h : ValuesApart hash storageSize s)
    (hsize : storageSize + 2 ^ 20 < 2 ^ 64) (hkeeps : KeepsValues hash s e)
    (hstep : KvStep hash s e s') :
    ValuesApart hash storageSize s' ∧
      ∀ t, s.ftl.links.live t = true → s.owner t ≠ e.key → ValueKept s.ftl s'.ftl t := by
  obtain ⟨born, now, hindexed⟩ := h.indexed
  cases hstep with
  | @batched store ftl' hok =>
    have hfits : HasRoom hash s store.key store.valLen := hkeeps
    exact h.stored hsize hfits (hindexed.performKvBatchedIo hfits.notAliased
        (Nat.le_trans store.key_max (by decide)) hok) _
  | @io cmd value r hok =>
    obtain ⟨hdelete, hfits⟩ := hkeeps
    by_cases hop : cmd.opcode = .store
    · obtain ⟨hstored, _⟩ := hindexed.performStore hop (hfits hop).notAliased hok
      exact h.stored hsize (hfits hop) hstored _
    · have hsame := KvFtl.performKvIo_unchanged hop hdelete hok
      have hmap : s.mapAfter cmd = s.map := by
        unfold KvRun.mapAfter
        cases hcase : cmd.opcode with
        | store => exact absurd hcase hop
        | delete => exact absurd hcase hdelete
        | retrieve | exist | other => rfl
      rw [hsame, hmap]
      exact ⟨h.unchanged cmd.key cmd.valueLength, fun t _ _ => .refl s.ftl t⟩

/-- From the empty table on, stores with room keep the values apart; a run has no deletes. -/
theorem kvRuns_valuesApart (hslots : 0 < hashSlots) (hsize : storageSize + 2 ^ 20 < 2 ^ 64) :
    ((kvRuns hash hashSlots storageSize storage).guarded (KeepsValues hash)).Invariant
      (ValuesApart hash storageSize) where
  init s hs := by
    obtain ⟨hftl, _⟩ := hs
    constructor
    · rw [hftl]
      exact ⟨_, _, indexed_init hslots s.owner⟩
    · rw [hftl]
      rfl
    · rw [hftl]
      exact Nat.zero_le _
    · rw [hftl]
      exact nofun
    · rw [hftl]
      exact .none nofun
  step s e s' hs hstep := (hs.step hsize hstep.1 hstep.2).1

/-- In every run of roomy stores the values of distinct keys are apart and inside the storage, and a
command leaves the entry and the bytes of every other key as they are. The runs have no deletes, and
no store that is longer than the room its key was given, finds the storage full, or is for an
aliased key; keys have 4 to 16 bytes. -/
theorem kv_values_apart (hslots : 0 < hashSlots) (hsize : storageSize + 2 ^ 20 < 2 ^ 64)
    (h : ((kvRuns hash hashSlots storageSize storage).guarded (KeepsValues hash)).Reachable s) :
    (∀ a, s.ftl.links.live a = true →
      s.ftl.startOf a + (s.ftl.kvMappingTable a).length ≤ storageSize) ∧
    (∀ a b, s.ftl.links.live a = true → s.ftl.links.live b = true → s.owner a ≠ s.owner b →
      s.ftl.startOf a + (s.ftl.kvMappingTable a).length ≤ s.ftl.startOf b ∨
        s.ftl.startOf b + (s.ftl.kvMappingTable b).length ≤ s.ftl.startOf a) ∧
    ∀ e s', KeepsValues hash s e → KvStep hash s e s' → ∀ t, s.ftl.links.live t = true →
      s.owner t ≠ e.key → ValueKept s.ftl s'.ftl t := by
  have hs := (kvRuns_valuesApart hslots hsize).reachable h
  refine ⟨fun a ha => ?_, fun a b ha hb hab => ?_,
    fun e s' hkeeps hstep => (hs.step hsize hkeeps hstep).2⟩
  · have hbelow := hs.extents.below a ha
    have hlength := hs.lengths a ha
    have hlatest := hs.latest
    omega
  · have hapart := hs.extents.apart a b ha hb fun he => hab (he ▸ rfl)
    have hlength := hs.lengths a ha
    have hlength' := hs.lengths b hb
    omega

end Runs

section Shipped

/-- A second store of the key, with a longer value that is still small. -/
def storeAkclLonger : KvCommand := ⟨.store, akcl, 2, akcl_min, akcl_max, twoWords_lt⟩

/-- A value of four bytes. -/
theorem kv_values_apart_stored : ∃ s,
    (shippedRuns.guarded (KeepsValues hashFunction)).Reachable s ∧ s.map akcl = some (0, 4) ∧
      ∀ a, s.ftl.links.live a = true →
        s.ftl.startOf a + (s.ftl.kvMappingTable a).length ≤ 2 ^ 30 := by
  have hrun : ∃ r, shippedStart.ftl.performKvIo hashFunction storeAkcl (fun _ => 1) = .ok r :=
    ⟨_, rfl⟩
  obtain ⟨r, hr⟩ := hrun
  have hfits : HasRoom hashFunction shippedStart akcl storeAkcl.valueLength :=
    ⟨not_aliased_start _ _, nofun, fun _ => by decide⟩
  have hkeeps : KeepsValues hashFunction shippedStart (.io storeAkcl fun _ => 1) :=
    ⟨nofun, fun _ => hfits⟩
  have hreach : (shippedRuns.guarded (KeepsValues hashFunction)).Reachable
      (shippedStart.after r.1 akcl 4 (shippedStart.mapAfter storeAkcl)) :=
    .step (.init shippedStart_init) ⟨hkeeps, .io hr⟩
  exact ⟨_, hreach, rfl, (kv_values_apart (by decide) (by decide) hreach).1⟩

/-- The longer value is written over the first byte of the next key's value, and its length is
recorded. -/
theorem kv_values_overlap : ∃ s s', shippedRuns.Reachable s ∧
    KvStep hashFunction s (.io storeAkclLonger fun _ => 3) s' ∧
    ∃ first next, s'.ftl.getMappingEntry hashFunction akcl = .ok first ∧
      s'.ftl.getMappingEntry hashFunction imxa = .ok next ∧
      first.memOffset = some 0 ∧ first.length = 8 ∧ next.memOffset = some 4 ∧ next.length = 4 ∧
      s.ftl.storage 4 = 2 ∧ s'.ftl.storage 4 = 3 := by
  have hrun : (do
      let one ← shippedStart.ftl.performKvIo hashFunction storeAkcl fun _ => 1
      let two ← one.1.performKvIo hashFunction storeImxa fun _ => 2
      let three ← two.1.performKvIo hashFunction storeAkclLonger fun _ => 3
      let first ← three.1.getMappingEntry hashFunction akcl
      let next ← three.1.getMappingEntry hashFunction imxa
      pure (first.memOffset, first.length, next.memOffset, next.length, two.1.storage 4,
        three.1.storage 4) : KvM (Option Nat × Nat × Option Nat × Nat × UInt8 × UInt8)) =
      .ok (some 0, 8, some 4, 4, 2, 3) := rfl
  obtain ⟨one, hone, hrun⟩ := KvM.of_bind hrun
  obtain ⟨two, htwo, hrun⟩ := KvM.of_bind hrun
  obtain ⟨three, hthree, hrun⟩ := KvM.of_bind hrun
  obtain ⟨first, hfirst, hrun⟩ := KvM.of_bind hrun
  obtain ⟨next, hnext, hrun⟩ := KvM.of_bind hrun
  have hreach : shippedRuns.Reachable
      (shippedStart.after one.1 akcl 4 (shippedStart.mapAfter storeAkcl)) :=
    .step (.init shippedStart_init) (.io hone)
  have hvalues := Except.ok.inj hrun
  simp only [Prod.mk.injEq] at hvalues
  obtain ⟨hoff, hlen, hoff', hlen', hbefore, hafter⟩ := hvalues
  exact ⟨_, _, .step hreach (.io htwo), .io hthree, first, next, hfirst, hnext, hoff, hlen, hoff',
    hlen', hbefore, hafter⟩

end Shipped

end NvmeVirt

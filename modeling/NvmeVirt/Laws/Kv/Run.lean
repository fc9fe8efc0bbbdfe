import NvmeVirt.Lib.System
import NvmeVirt.Laws.Kv.Chains

/-!
# Runs of the key-value FTL

A run takes commands and the stores of batches. Beside the FTL it keeps the key each slot was filled
for, the bytes reserved when it was filled, and the map that the stores and deletes so far describe.
`Stored` says what a store does to the table of a key that is not aliased.
-/

set_option autoImplicit false

namespace NvmeVirt

/-- A store of a batch. -/
structure KvSubStore where
  key : List UInt8
  valLen : Nat
  value : Nat → UInt8
  key_min : 4 ≤ key.length
  key_max : key.length ≤ 16

/-- The FTL with its history. -/
structure KvRun where
  ftl : KvFtl
  owner : Nat → List UInt8
  reserved : Nat → Nat
  map : List UInt8 → Option (Nat × Nat)

inductive KvEvent where
  | io (cmd : KvCommand) (value : Nat → UInt8)
  | batched (store : KvSubStore)

/-- The key an event is about. -/
def KvEvent.key : KvEvent → List UInt8
  | .io cmd _ => cmd.key
  | .batched store => store.key

/-- The slot is filled in `ftl'` and was not before. -/
def KvRun.fills (s : KvRun) (ftl' : KvFtl) (slot : Nat) : Bool :=
  ftl'.links.live slot && !s.ftl.links.live slot

/-- What `length` bytes under `key` make of the map: the offset is that of the allocation the key was
inserted with. -/
def KvRun.mapStored (s : KvRun) (key : List UInt8) (length : Nat) :
    List UInt8 → Option (Nat × Nat) :=
  Function.update s.map key
    (some (((s.map key).map Prod.fst).getD (s.ftl.allocateMemOffset length).2, length))

def KvRun.mapAfter (s : KvRun) (cmd : KvCommand) : List UInt8 → Option (Nat × Nat) :=
  match cmd.opcode with
  | .store => s.mapStored cmd.key cmd.valueLength
  | .delete => Function.update s.map cmd.key none
  | .retrieve | .exist | .other => s.map

/-- The run with the FTL after a command on `key`. -/
def KvRun.after (s : KvRun) (ftl' : KvFtl) (key : List UInt8) (length : Nat)
    (map : List UInt8 → Option (Nat × Nat)) : KvRun :=
  { ftl := ftl', map
    owner := fun slot => if s.fills ftl' slot = true then key else s.owner slot
    reserved := fun slot => if s.fills ftl' slot = true then length else s.reserved slot }

inductive KvStep (hash : List UInt8 → Nat) : KvRun → KvEvent → KvRun → Prop where
  | io {s : KvRun} {cmd : KvCommand} {value : Nat → UInt8} {r : KvFtl × KvAnswer} :
    s.ftl.performKvIo hash cmd value = .ok r →
    KvStep hash s (.io cmd value) (s.after r.1 cmd.key cmd.valueLength (s.mapAfter cmd))
  | batched {s : KvRun} {store : KvSubStore} {ftl' : KvFtl} :
    s.ftl.performKvBatchedIo hash store.key store.valLen store.value = .ok ftl' →
    KvStep hash s (.batched store)
      (s.after ftl' store.key store.valLen (s.mapStored store.key store.valLen))

/-- Runs of a namespace with `hashSlots` slots over `storageSize` bytes. -/
def kvRuns (hash : List UInt8 → Nat) (hashSlots storageSize : Nat) (storage : Nat → UInt8) :
    System KvRun KvEvent where
  init s := s.ftl = kvInitNamespace hashSlots storageSize storage ∧ s.map = fun _ => none
  step := KvStep hash

section Runs

variable {hash : List UInt8 → Nat} {ftl ftl' : KvFtl} {owner : Nat → List UInt8} {born : Nat → Nat}
  {now length : Nat} {key : List UInt8} {value : Nat → UInt8} {updates : Bool} {s : KvRun}

/-- The FTL once the bytes of a new key are copied to the offset allocated for them. -/
def KvFtl.allocated (ftl : KvFtl) (length : Nat) (value : Nat → UInt8) : KvFtl :=
  (ftl.allocateMemOffset length).1.copyIn (ftl.allocateMemOffset length).2 length value

/-- A store of `length` bytes, where `updates` tells whether it may change the length of a slot. -/
inductive Stored (hash : List UInt8 → Nat) (ftl : KvFtl) (owner : Nat → List UInt8)
    (born : Nat → Nat) (now : Nat) (key : List UInt8) (length : Nat) (value : Nat → UInt8)
    (updates : Bool) : KvFtl → Prop where
  | inserted {ftl' : KvFtl} {slot : Nat} {link : Option Nat} :
    (∀ t, ftl.links.live t = true → owner t ≠ key) → ftl.links.live slot = false →
    (ftl.allocateMemOffset length).2 < ftl.storageSize →
    ftl' = (ftl.allocated length value).filled slot key length
      (ftl.allocateMemOffset length).2 link →
    Indexed hash ftl' (Function.update owner slot key) (Function.update born slot now) (now + 1) →
    Stored hash ftl owner born now key length value updates ftl'
  | rewritten {slot offset length' : Nat} :
    ftl.links.live slot = true → owner slot = key →
    (ftl.kvMappingTable slot).memOffset = some offset →
    (length' = if updates = true ∧ KvFtl.changesLength length (ftl.kvMappingTable slot).length
      then length else (ftl.kvMappingTable slot).length) →
    Stored hash ftl owner born now key length value updates
      ((ftl.copyIn offset length value).setEntry slot
        { ftl.kvMappingTable slot with length := length' })

theorem KvFtl.setEntry_same (ftl : KvFtl) (slot : Nat) :
    ftl.setEntry slot (ftl.kvMappingTable slot) = ftl := by
  unfold KvFtl.setEntry
  rw [Function.update_eq_self]

theorem Indexed.insert (h : Indexed hash ftl owner born now)
    (hnew : ∀ t, ftl.links.live t = true → owner t ≠ key) (hfits : key.length ≤ 24)
    (hok : (ftl.allocated length value).newMappingEntryByKey hash key length
      (ftl.allocateMemOffset length).2 = .ok ftl') :
    Stored hash ftl owner born now key length value updates ftl' := by
  have halloc : Indexed hash (ftl.allocated length value) owner born now := h.congr rfl rfl
  obtain ⟨hsize, slot, link, hfree, hftl', hindexed⟩ := halloc.newMappingEntryByKey hnew hfits hok
  exact .inserted hnew hfree hsize hftl' hindexed

theorem Indexed.performKvBatchedIo (h : Indexed hash ftl owner born now)
    (hkey : ¬ Aliased hash ftl owner key) (hfits : key.length ≤ 24)
    (hok : ftl.performKvBatchedIo hash key length value = .ok ftl') :
    Stored hash ftl owner born now key length value false ftl' := by
  obtain ⟨e, hget, he⟩ := h.getMappingEntry hkey
  unfold KvFtl.performKvBatchedIo at hok
  rw [hget, KvM.ok_bind] at hok
  rcases he with ⟨slot, _, hlive, howner, hoff, _⟩ | ⟨_, hnew, hnone⟩
  · obtain ⟨offset, hoffset⟩ := Option.isSome_iff_exists.mp hlive
    rw [hoff, hoffset] at hok
    obtain rfl : ftl.copyIn offset length value = ftl' := Except.ok.inj hok
    have hdone : Stored hash ftl owner born now key length value false _ :=
      .rewritten hlive howner hoffset rfl
    rw [if_neg fun hboth => Bool.false_ne_true hboth.1] at hdone
    have hsame := (ftl.copyIn offset length value).setEntry_same slot
    exact hsame ▸ hdone
  · rw [hnone] at hok
    exact h.insert hnew hfits hok

/-- A store through `__do_perform_kv_io`. -/
theorem Indexed.performStore (h : Indexed hash ftl owner born now) {cmd : KvCommand}
    {r : KvFtl × KvAnswer} (hop : cmd.opcode = .store) (hkey : ¬ Aliased hash ftl owner cmd.key)
    (hok : ftl.performKvIo hash cmd value = .ok r) :
    Stored hash ftl owner born now cmd.key cmd.valueLength value true r.1 ∧ r.2.status = none := by
  obtain ⟨e, hget, he⟩ := h.getMappingEntry hkey
  unfold KvFtl.performKvIo at hok
  rw [hget, KvM.ok_bind, hop] at hok
  rcases he with ⟨slot, hfind, hlive, howner, hoff, hlen⟩ | ⟨_, hnew, hnone⟩
  · obtain ⟨offset, hoffset⟩ := Option.isSome_iff_exists.mp hlive
    rw [hoff, hoffset, hlen] at hok
    have hstore : ftl.storeUpdate hash cmd value offset (ftl.kvMappingTable slot).length = .ok r :=
      hok
    obtain ⟨ftl', hupdate, hr⟩ := KvM.of_bind hstore
    obtain rfl := Except.ok.inj hr
    refine ⟨?_, rfl⟩
    unfold KvFtl.updateLength at hupdate
    have hdone : Stored hash ftl owner born now cmd.key cmd.valueLength value true _ :=
      .rewritten hlive howner hoffset rfl
    by_cases hchanges : KvFtl.changesLength cmd.valueLength (ftl.kvMappingTable slot).length
    · rw [if_pos ⟨rfl, hchanges⟩] at hdone
      rw [if_pos hchanges] at hupdate
      unfold KvFtl.updateMappingEntry at hupdate
      have hfind' : (ftl.copyIn offset cmd.valueLength value).findSlot hash cmd.key =
          .ok (some slot) := hfind
      rw [hfind', KvM.ok_bind] at hupdate
      exact Except.ok.inj hupdate ▸ hdone
    · rw [if_neg fun hboth => hchanges hboth.2] at hdone
      rw [if_neg hchanges] at hupdate
      have hsame := (ftl.copyIn offset cmd.valueLength value).setEntry_same slot
      have hcopy : (ftl.copyIn offset cmd.valueLength value).setEntry slot
          (ftl.kvMappingTable slot) = ftl' := hsame.trans (Except.ok.inj hupdate)
      exact hcopy ▸ hdone
  · rw [hnone] at hok
    have hstore : ftl.storeInsert hash cmd value = .ok r := hok
    obtain ⟨ftl', hnewEntry, hr⟩ := KvM.of_bind hstore
    obtain rfl := Except.ok.inj hr
    exact ⟨h.insert hnew (Nat.le_trans cmd.key_max (by decide)) hnewEntry, rfl⟩

/-- A delete through `__do_perform_kv_io` of a key that is not aliased. -/
theorem Indexed.performDelete (h : Indexed hash ftl owner born now) {cmd : KvCommand}
    {r : KvFtl × KvAnswer} (hop : cmd.opcode = .delete) (hkey : ¬ Aliased hash ftl owner cmd.key)
    (hok : ftl.performKvIo hash cmd value = .ok r) :
    (∃ slot, ftl.links.live slot = true ∧ owner slot = cmd.key ∧
        r.1 = ftl.setEntry slot wipedEntry) ∨
      (∀ slot, ftl.links.live slot = true → owner slot ≠ cmd.key) ∧ r.1 = ftl := by
  obtain ⟨e, hget, he⟩ := h.getMappingEntry hkey
  unfold KvFtl.performKvIo at hok
  rw [hget, KvM.ok_bind, hop] at hok
  rcases he with ⟨slot, hfind, hlive, howner, hoff, _⟩ | ⟨_, hnew, hnone⟩
  · obtain ⟨offset, hoffset⟩ := Option.isSome_iff_exists.mp hlive
    rw [hoff, hoffset] at hok
    dsimp only at hok
    obtain ⟨ftl', hdelete, hr⟩ := KvM.of_bind hok
    obtain rfl := Except.ok.inj hr
    unfold KvFtl.deleteMappingEntry at hdelete
    rw [hfind, KvM.ok_bind] at hdelete
    exact .inl ⟨slot, hlive, howner, (Except.ok.inj hdelete).symm⟩
  · rw [hnone] at hok
    exact .inr ⟨hnew, congrArg Prod.fst (Except.ok.inj hok).symm⟩

/-- The other commands leave the FTL as it is. -/
theorem KvFtl.performKvIo_unchanged {cmd : KvCommand} {r : KvFtl × KvAnswer}
    (hstore : cmd.opcode ≠ .store) (hdelete : cmd.opcode ≠ .delete)
    (hok : ftl.performKvIo hash cmd value = .ok r) : r.1 = ftl := by
  obtain ⟨e, _, hr⟩ := KvM.of_bind hok
  cases hop : cmd.opcode with
  | store => exact absurd hop hstore
  | delete => exact absurd hop hdelete
  | retrieve | exist =>
    rw [hop] at hr
    cases hoff : e.memOffset with
    | none =>
      rw [hoff] at hr
      exact congrArg Prod.fst (Except.ok.inj hr).symm
    | some offset =>
      rw [hoff] at hr
      exact congrArg Prod.fst (Except.ok.inj hr).symm
  | other =>
    rw [hop] at hr
    exact congrArg Prod.fst (Except.ok.inj hr).symm

/-- A key-value command sets a status other than success only for a key that is not in the index. -/
theorem KvFtl.performKvIo_failed {cmd : KvCommand} {r : KvFtl × KvAnswer}
    (hok : ftl.performKvIo hash cmd value = .ok r) (hfailed : r.2.status ≠ none) : r.1 = ftl := by
  obtain ⟨e, _, hr⟩ := KvM.of_bind hok
  cases hop : cmd.opcode with
  | store =>
    rw [hop] at hr
    cases hoff : e.memOffset with
    | none =>
      rw [hoff] at hr
      obtain ⟨ftl', _, hlast⟩ := KvM.of_bind (show ftl.storeInsert hash cmd value = .ok r from hr)
      rw [← Except.ok.inj hlast] at hfailed
      exact absurd rfl hfailed
    | some offset =>
      rw [hoff] at hr
      obtain ⟨ftl', _, hlast⟩ :=
        KvM.of_bind (show ftl.storeUpdate hash cmd value offset e.length = .ok r from hr)
      rw [← Except.ok.inj hlast] at hfailed
      exact absurd rfl hfailed
  | delete =>
    rw [hop] at hr
    cases hoff : e.memOffset with
    | none =>
      rw [hoff] at hr
      exact congrArg Prod.fst (Except.ok.inj hr).symm
    | some offset =>
      rw [hoff] at hr
      obtain ⟨ftl', _, hlast⟩ := KvM.of_bind hr
      rw [← Except.ok.inj hlast] at hfailed
      exact absurd rfl hfailed
  | retrieve | exist | other =>
    exact KvFtl.performKvIo_unchanged (by rw [hop]; decide) (by rw [hop]; decide) hok

/-! ## The history after a command -/

/-- A slot is filled by a store of a new key, and by nothing else. -/
theorem KvRun.fills_inserted {slot valOffset : Nat} {link : Option Nat}
    (hfree : s.ftl.links.live slot = false) {mid : KvFtl} (hmid : mid.links = s.ftl.links)
    (hftl' : ftl' = mid.filled slot key length valOffset link) (t : Nat) :
    s.fills ftl' t = true ↔ t = slot := by
  unfold KvRun.fills
  rw [hftl', mid.filled_live, hmid]
  by_cases ht : t = slot
  · subst ht
    simp [hfree]
  · simp [ht]

theorem KvRun.fills_none (hlive : ∀ t, ftl'.links.live t = true → s.ftl.links.live t = true)
    (t : Nat) : s.fills ftl' t = false := by
  unfold KvRun.fills
  cases ht : ftl'.links.live t with
  | false => rfl
  | true =>
    rw [hlive t ht]
    rfl

theorem KvRun.after_inserted {slot valOffset : Nat} {link : Option Nat}
    (hfree : s.ftl.links.live slot = false) {mid : KvFtl} (hmid : mid.links = s.ftl.links)
    (hftl' : ftl' = mid.filled slot key length valOffset link)
    (map : List UInt8 → Option (Nat × Nat)) :
    (s.after ftl' key length map).owner = Function.update s.owner slot key ∧
      (s.after ftl' key length map).reserved = Function.update s.reserved slot length := by
  have hfills := KvRun.fills_inserted hfree hmid hftl'
  constructor
  · funext t
    by_cases ht : t = slot
    · rw [ht, Function.update_self]
      exact if_pos ((hfills slot).mpr rfl)
    · rw [Function.update_of_ne ht]
      exact if_neg fun hf => ht ((hfills t).mp hf)
  · funext t
    by_cases ht : t = slot
    · rw [ht, Function.update_self]
      exact if_pos ((hfills slot).mpr rfl)
    · rw [Function.update_of_ne ht]
      exact if_neg fun hf => ht ((hfills t).mp hf)

/-- Writing to a live slot makes no other slot live. -/
theorem KvFtl.live_of_setEntry {slot t : Nat} (hslot : ftl.links.live slot = true)
    (entry : MappingEntry) (ht : (ftl.setEntry slot entry).links.live t = true) :
    ftl.links.live t = true := by
  by_cases hts : t = slot
  · rw [hts]
    exact hslot
  · rw [← ht]
    exact congrArg (fun e => e.memOffset.isSome) (ftl.setEntry_other entry hts).symm

theorem KvRun.after_kept (s : KvRun) (ftl' : KvFtl)
    (hlive : ∀ t, ftl'.links.live t = true → s.ftl.links.live t = true) (key : List UInt8) (length : Nat)
    (map : List UInt8 → Option (Nat × Nat)) :
    (s.after ftl' key length map).owner = s.owner ∧
      (s.after ftl' key length map).reserved = s.reserved := by
  have hfills := KvRun.fills_none hlive
  constructor
  · funext t
    exact if_neg (Bool.eq_false_iff.mp (hfills t))
  · funext t
    exact if_neg (Bool.eq_false_iff.mp (hfills t))

end Runs

end NvmeVirt

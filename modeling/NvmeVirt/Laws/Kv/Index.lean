import NvmeVirt.Laws.Kv.Run

/-!
# The index is a finite map

`KeepsIndex` lists what a command has to stay clear of: storing or deleting an aliased key, deleting
a slot another key's chain passes, and changing a length when one of the two is not small. In runs
of such commands the search finds of every key that is not aliased what the map has for it.

`Agrees` relates the table with the map through the owner of each slot, the key it was filled for: a
slot holds what the map has for its owner, and every key of the map owns a slot. An update of the
table is one of three (`Agrees.insert`, `Agrees.rewrite`, `Agrees.wipe`), and the two commands that
write make one of these (`KvSettled.store`, `KvSettled.delete`). That the search comes to the slot
is `Laws/Kv/Chains`.

The values are left to `Laws/Kv/Values`, and the hash function is any.
-/

set_option autoImplicit false

namespace NvmeVirt

/-- The commands of `__do_perform_kv_io` that keep the index a map. -/
def KeepsIndex (hash : List UInt8 → Nat) (s : KvRun) : KvEvent → Prop
  | .io cmd _ =>
    (cmd.opcode = .store → ¬ Aliased hash s.ftl s.owner cmd.key ∧
      ∀ offset length, s.map cmd.key = some (offset, length) →
        cmd.valueLength = length ∨ cmd.valueLength ≤ smallLength ∧ length ≤ smallLength) ∧
    (cmd.opcode = .delete → ¬ Aliased hash s.ftl s.owner cmd.key ∧
      ∀ slot, s.ftl.links.live slot = true → s.owner slot = cmd.key →
        Unneeded hash s.ftl s.owner slot)
  | .batched _ => False

/-- The map has for each key what its slot has. -/
structure Agrees (ftl : KvFtl) (owner : Nat → List UInt8) (map : List UInt8 → Option (Nat × Nat)) :
    Prop where
  slot : ∀ t, ftl.links.live t = true → ∃ offset, (ftl.kvMappingTable t).memOffset = some offset ∧
    map (owner t) = some (offset, (ftl.kvMappingTable t).length)
  key : ∀ key v, map key = some v → ∃ t, ftl.links.live t = true ∧ owner t = key

/-- What holds in every state of a run that keeps the index. -/
structure KvSettled (hash : List UInt8 → Nat) (s : KvRun) : Prop where
  indexed : ∃ born now, Indexed hash s.ftl s.owner born now
  agrees : Agrees s.ftl s.owner s.map

/-- The entry is what the map has for its key. -/
def MapsTo (e : MappingEntry) : Option (Nat × Nat) → Prop
  | none => e.memOffset = none
  | some (offset, length) => e.memOffset = some offset ∧ e.length = length

section Runs

variable {hash : List UInt8 → Nat} {hashSlots storageSize : Nat} {storage : Nat → UInt8} {s : KvRun}
  {key : List UInt8}

/-- The search finds what the map has. -/
theorem KvSettled.getMappingEntry (h : KvSettled hash s) (hkey : ¬ Aliased hash s.ftl s.owner key) :
    ∃ e, s.ftl.getMappingEntry hash key = .ok e ∧ MapsTo e (s.map key) := by
  obtain ⟨born, now, hindexed⟩ := h.indexed
  obtain ⟨e, hget, he⟩ := hindexed.getMappingEntry hkey
  refine ⟨e, hget, ?_⟩
  rcases he with ⟨slot, _, hlive, howner, hoff, hlen⟩ | ⟨_, hnew, hnone⟩
  · obtain ⟨offset, hoffset, hmap⟩ := h.agrees.slot slot hlive
    rw [howner] at hmap
    rw [hmap]
    exact ⟨hoff.trans hoffset, hlen⟩
  · cases hmap : s.map key with
    | none => exact hnone
    | some v =>
      obtain ⟨slot, hlive, howner⟩ := h.agrees.key key v hmap
      exact absurd howner (hnew slot hlive)

/-- A key without a slot is not in the map. -/
theorem Agrees.map_none {ftl : KvFtl} {owner : Nat → List UInt8}
    {map : List UInt8 → Option (Nat × Nat)} (h : Agrees ftl owner map)
    (hnew : ∀ t, ftl.links.live t = true → owner t ≠ key) : map key = none := by
  cases hmap : map key with
  | none => rfl
  | some v =>
    obtain ⟨slot, hlive, howner⟩ := h.key key v hmap
    exact absurd howner (hnew slot hlive)

/-- A store of a new key. -/
theorem Agrees.insert {ftl ftl' : KvFtl} {owner : Nat → List UInt8}
    {map : List UInt8 → Option (Nat × Nat)} (h : Agrees ftl owner map) {slot length offset : Nat}
    {link : Option Nat} (mid : KvFtl) (hmid : mid.kvMappingTable = ftl.kvMappingTable)
    (hnew : ∀ t, ftl.links.live t = true → owner t ≠ key) (hfree : ftl.links.live slot = false)
    (hftl' : ftl' = mid.filled slot key length offset link) :
    Agrees ftl' (Function.update owner slot key)
      (Function.update map key (some (offset, length))) := by
  have hlive : ∀ t, ftl'.links.live t = true → t = slot ∨ t ≠ slot ∧ ftl.links.live t = true := by
    intro t ht
    rw [hftl', mid.filled_live] at ht
    by_cases hts : t = slot
    · exact .inl hts
    · rw [if_neg hts] at ht
      refine .inr ⟨hts, ?_⟩
      rw [← ht]
      exact congrArg (fun e => e.memOffset.isSome) (congrFun hmid t).symm
  constructor
  · intro t ht
    rw [hftl']
    rcases hlive t ht with rfl | ⟨hts, hold⟩
    · have hentry := @KvFtl.filled_entry t key link mid length offset
      refine ⟨offset, hentry.memOffset, ?_⟩
      rw [Function.update_self, Function.update_self, hentry.length]
    · obtain ⟨offset', hoffset, hmap⟩ := h.slot t hold
      have hentry := @KvFtl.filled_other slot t key link mid length offset hts
      rw [hmid] at hentry
      refine ⟨offset', hentry.memOffset.trans hoffset, ?_⟩
      rw [Function.update_of_ne hts, Function.update_of_ne (hnew t hold), hentry.length]
      exact hmap
  · intro key' v hv
    by_cases hk : key' = key
    · refine ⟨slot, ?_, ?_⟩
      · rw [hftl', mid.filled_live, if_pos rfl]
      · rw [hk, Function.update_self]
    · rw [Function.update_of_ne hk] at hv
      obtain ⟨t, ht, howner⟩ := h.key key' v hv
      have hts : t ≠ slot := by
        intro he
        rw [he, hfree] at ht
        exact nomatch ht
      refine ⟨t, ?_, ?_⟩
      · rw [hftl', mid.filled_live, if_neg hts, ← ht]
        exact congrArg (fun e => e.memOffset.isSome) (congrFun hmid t)
      · rw [Function.update_of_ne hts]
        exact howner

/-- A slot whose offset stays. -/
theorem Agrees.rewrite {ftl ftl' : KvFtl} {owner : Nat → List UInt8}
    {map : List UInt8 → Option (Nat × Nat)} (h : Agrees ftl owner map)
    (hdistinct : ∀ a b, ftl.links.live a = true → ftl.links.live b = true →
      owner a = owner b → a = b) {slot length offset : Nat} (hlive : ftl.links.live slot = true)
    (hoffset : (ftl.kvMappingTable slot).memOffset = some offset)
    (hftl' : ftl'.kvMappingTable = Function.update ftl.kvMappingTable slot
      { ftl.kvMappingTable slot with length }) :
    Agrees ftl' owner (Function.update map (owner slot) (some (offset, length))) := by
  have hsame : ∀ t, ftl'.links.live t = ftl.links.live t := by
    intro t
    show (ftl'.kvMappingTable t).memOffset.isSome = (ftl.kvMappingTable t).memOffset.isSome
    rw [hftl']
    by_cases hts : t = slot
    · rw [hts, Function.update_self]
    · rw [Function.update_of_ne hts]
  constructor
  · intro t ht
    rw [hsame] at ht
    rw [hftl']
    by_cases hts : t = slot
    · rw [hts, Function.update_self, Function.update_self]
      exact ⟨offset, hoffset, rfl⟩
    · have hother : owner t ≠ owner slot := fun he => hts (hdistinct t slot ht hlive he)
      rw [Function.update_of_ne hts, Function.update_of_ne hother]
      exact h.slot t ht
  · intro key v hv
    by_cases hk : key = owner slot
    · exact ⟨slot, (hsame slot).trans hlive, hk.symm⟩
    · rw [Function.update_of_ne hk] at hv
      obtain ⟨t, ht, howner⟩ := h.key key v hv
      exact ⟨t, (hsame t).trans ht, howner⟩

/-- A slot is wiped. -/
theorem Agrees.wipe {ftl : KvFtl} {owner : Nat → List UInt8} {map : List UInt8 → Option (Nat × Nat)}
    (h : Agrees ftl owner map)
    (hdistinct : ∀ a b, ftl.links.live a = true → ftl.links.live b = true →
      owner a = owner b → a = b) {slot : Nat} (hlive : ftl.links.live slot = true) :
    Agrees (ftl.setEntry slot wipedEntry) owner (Function.update map (owner slot) none) := by
  have hdead : (ftl.setEntry slot wipedEntry).links.live slot = false :=
    congrArg (fun e => e.memOffset.isSome) (ftl.setEntry_self slot wipedEntry)
  have hsame : ∀ t, t ≠ slot →
      (ftl.setEntry slot wipedEntry).links.live t = ftl.links.live t := fun t ht =>
    congrArg (fun e => e.memOffset.isSome) (ftl.setEntry_other wipedEntry ht)
  constructor
  · intro t ht
    by_cases hts : t = slot
    · rw [hts, hdead] at ht
      exact nomatch ht
    · rw [hsame t hts] at ht
      have hother : owner t ≠ owner slot := fun he => hts (hdistinct t slot ht hlive he)
      rw [ftl.setEntry_other _ hts, Function.update_of_ne hother]
      exact h.slot t ht
  · intro key v hv
    by_cases hk : key = owner slot
    · rw [hk, Function.update_self] at hv
      exact nomatch hv
    · rw [Function.update_of_ne hk] at hv
      obtain ⟨t, ht, howner⟩ := h.key key v hv
      have hts : t ≠ slot := by
        intro he
        rw [he] at howner
        exact hk howner.symm
      exact ⟨t, (hsame t hts).trans ht, howner⟩

/-! ## The steps of a run -/

/-- A store of a key that is not aliased. -/
theorem KvSettled.store (h : KvSettled hash s) {cmd : KvCommand} {value : Nat → UInt8}
    {r : KvFtl × KvAnswer} (hop : cmd.opcode = .store)
    (hkey : ¬ Aliased hash s.ftl s.owner cmd.key)
    (hlen : ∀ offset length, s.map cmd.key = some (offset, length) →
      cmd.valueLength = length ∨ cmd.valueLength ≤ smallLength ∧ length ≤ smallLength)
    (hok : s.ftl.performKvIo hash cmd value = .ok r) :
    KvSettled hash (s.after r.1 cmd.key cmd.valueLength (s.mapStored cmd.key cmd.valueLength)) := by
  obtain ⟨born, now, hindexed⟩ := h.indexed
  obtain ⟨hstored, _⟩ := hindexed.performStore hop hkey hok
  generalize r.1 = ftl' at hstored
  unfold KvRun.mapStored
  cases hstored with
  | @inserted _ slot link hnew hfree _ hftl' hindexed' =>
    obtain ⟨howner, _⟩ := KvRun.after_inserted hfree
      (show (s.ftl.allocated cmd.valueLength value).links = s.ftl.links from rfl) hftl'
      (Function.update s.map cmd.key
        (some (((s.map cmd.key).map Prod.fst).getD
          (s.ftl.allocateMemOffset cmd.valueLength).2, cmd.valueLength)))
    constructor
    · rw [howner]
      exact ⟨_, _, hindexed'⟩
    · rw [howner, h.agrees.map_none hnew]
      exact h.agrees.insert (s.ftl.allocated cmd.valueLength value) rfl hnew hfree hftl'
  | @rewritten slot offset length' hlive howned hoffset hlength =>
    obtain ⟨offset', hoffset', hmap⟩ := h.agrees.slot slot hlive
    obtain rfl : offset = offset' := Option.some.inj (hoffset.symm.trans hoffset')
    rw [howned] at hmap
    have hupdated : length' = cmd.valueLength := by
      rcases hlen _ _ hmap with hsame | hsmall
      · rw [hlength]
        split
        · rfl
        · exact hsame.symm
      · rw [hlength]
        by_cases hsame : cmd.valueLength = (s.ftl.kvMappingTable slot).length
        · rw [← hsame]
          exact ite_self _
        · rw [if_pos ⟨rfl, hsame, hsmall⟩]
    subst hupdated
    have hindexed' : Indexed hash (s.ftl.copyIn offset cmd.valueLength value) s.owner born now :=
      hindexed.congr rfl rfl
    obtain ⟨howner, _⟩ := s.after_kept ((s.ftl.copyIn offset cmd.valueLength value).setEntry slot
        { s.ftl.kvMappingTable slot with length := cmd.valueLength })
      (fun t ht => KvFtl.live_of_setEntry
        (show (s.ftl.copyIn offset cmd.valueLength value).links.live slot = true from hlive) _ ht)
      cmd.key cmd.valueLength (Function.update s.map cmd.key
        (some (((s.map cmd.key).map Prod.fst).getD
          (s.ftl.allocateMemOffset cmd.valueLength).2, cmd.valueLength)))
    constructor
    · rw [howner]
      exact ⟨born, now, hindexed'.setLength slot cmd.valueLength⟩
    · rw [howner, hmap, ← howned]
      exact h.agrees.rewrite hindexed.distinct hlive hoffset rfl

/-- A delete of a key whose slot no other chain passes. -/
theorem KvSettled.delete (h : KvSettled hash s) {cmd : KvCommand} {value : Nat → UInt8}
    {r : KvFtl × KvAnswer} (hop : cmd.opcode = .delete)
    (hkey : ¬ Aliased hash s.ftl s.owner cmd.key)
    (hneed : ∀ slot, s.ftl.links.live slot = true → s.owner slot = cmd.key →
      Unneeded hash s.ftl s.owner slot)
    (hok : s.ftl.performKvIo hash cmd value = .ok r) :
    KvSettled hash (s.after r.1 cmd.key cmd.valueLength (Function.update s.map cmd.key none)) := by
  obtain ⟨born, now, hindexed⟩ := h.indexed
  rcases hindexed.performDelete hop hkey hok with ⟨slot, hlive, howned, hr⟩ | ⟨hnew, hr⟩
  · rw [hr]
    obtain ⟨howner, _⟩ := s.after_kept (s.ftl.setEntry slot wipedEntry)
      (fun _ ht => KvFtl.live_of_setEntry hlive _ ht) cmd.key cmd.valueLength
      (Function.update s.map cmd.key none)
    constructor
    · rw [howner]
      exact ⟨born, now, hindexed.wipe (hneed slot hlive howned)⟩
    · rw [howner, ← howned]
      exact h.agrees.wipe hindexed.distinct hlive
  · have hsame : Function.update s.map cmd.key none = s.map := by
      rw [← h.agrees.map_none hnew]
      exact Function.update_eq_self ..
    rw [hr, hsame]
    obtain ⟨howner, _⟩ := s.after_kept s.ftl (fun _ ht => ht) cmd.key
      cmd.valueLength s.map
    constructor
    · rw [howner]
      exact ⟨born, now, hindexed⟩
    · rw [howner]
      exact h.agrees

/-- A command that changes no slot and no mapping. -/
theorem KvSettled.unchanged (h : KvSettled hash s) (key : List UInt8) (length : Nat) :
    KvSettled hash (s.after s.ftl key length s.map) := by
  obtain ⟨howner, _⟩ := s.after_kept s.ftl (fun _ ht => ht) key length s.map
  constructor
  · rw [howner]
    exact h.indexed
  · rw [howner]
    exact h.agrees

/-- Every step that stays clear. -/
theorem KvSettled.step {e : KvEvent} {s' : KvRun} (h : KvSettled hash s) (hkeeps : KeepsIndex hash s e)
    (hstep : KvStep hash s e s') : KvSettled hash s' := by
  cases hstep with
  | batched _ => exact hkeeps.elim
  | @io cmd value r hok =>
    obtain ⟨hstore, hdelete⟩ := hkeeps
    cases hop : cmd.opcode with
    | store =>
      obtain ⟨hkey, hlen⟩ := hstore hop
      have hmap : s.mapAfter cmd = s.mapStored cmd.key cmd.valueLength := by
        unfold KvRun.mapAfter
        rw [hop]
      rw [hmap]
      exact h.store hop hkey hlen hok
    | delete =>
      obtain ⟨hkey, hneed⟩ := hdelete hop
      have hmap : s.mapAfter cmd = Function.update s.map cmd.key none := by
        unfold KvRun.mapAfter
        rw [hop]
      rw [hmap]
      exact h.delete hop hkey hneed hok
    | retrieve | exist | other =>
      have hsame := KvFtl.performKvIo_unchanged (by rw [hop]; exact nofun) (by rw [hop]; exact nofun)
        hok
      have hmap : s.mapAfter cmd = s.map := by
        unfold KvRun.mapAfter
        rw [hop]
      rw [hsame, hmap]
      exact h.unchanged cmd.key cmd.valueLength

/-- An empty table. -/
theorem indexed_init (hslots : 0 < hashSlots) (owner : Nat → List UInt8) :
    Indexed hash (kvInitNamespace hashSlots storageSize storage) owner (fun _ => 0) 0 := by
  refine ⟨hslots, ?_, ?_, fun _ _ => rfl, ?_, ?_, ?_, ?_⟩
  all_goals exact nofun

/-- From the empty table on, every run of such commands and batches keeps table and map together. -/
theorem kvRuns_settled (hslots : 0 < hashSlots) :
    ((kvRuns hash hashSlots storageSize storage).guarded (KeepsIndex hash)).Invariant
      (KvSettled hash) where
  init s hs := by
    obtain ⟨hftl, hmap⟩ := hs
    constructor
    · rw [hftl]
      exact ⟨_, _, indexed_init hslots s.owner⟩
    · rw [hftl, hmap]
      exact ⟨nofun, nofun⟩
  step s e s' hs hstep := hs.step hstep.1 hstep.2

/-- In every run of commands that keep the index, a key that is not aliased is found exactly when
its last store or delete was a store, with the offset it was inserted at and the length of its last
store; and a command on one key changes nothing that is found of another. The hash function and the
size of the table are any. The runs leave out batches and what could break the index: a store or a
delete of an aliased key, a delete of a slot that the chain of another key passes, and a store of
another length where one of the two is not small. A store that finds no free slot does not end, and
ends the run. -/
theorem kv_index_is_map (hslots : 0 < hashSlots)
    (h : ((kvRuns hash hashSlots storageSize storage).guarded (KeepsIndex hash)).Reachable s) :
    (∀ key, ¬ Aliased hash s.ftl s.owner key →
      ∃ e, s.ftl.getMappingEntry hash key = .ok e ∧ MapsTo e (s.map key)) ∧
    ∀ e s', KeepsIndex hash s e → KvStep hash s e s' → ∀ key, key ≠ e.key →
      ¬ Aliased hash s.ftl s.owner key → ¬ Aliased hash s'.ftl s'.owner key →
      ∃ found found', s.ftl.getMappingEntry hash key = .ok found ∧
        s'.ftl.getMappingEntry hash key = .ok found' ∧
        found'.memOffset = found.memOffset ∧
        (found.memOffset ≠ none → found'.length = found.length) := by
  have hs := (kvRuns_settled hslots).reachable h
  refine ⟨fun key hkey => hs.getMappingEntry hkey, fun e s' hkeeps hstep key hne hkey hkey' => ?_⟩
  obtain ⟨found, hget, hfound⟩ := hs.getMappingEntry hkey
  obtain ⟨found', hget', hfound'⟩ := (hs.step hkeeps hstep).getMappingEntry hkey'
  have hmap : s'.map key = s.map key := by
    cases hstep with
    | batched _ => exact hkeeps.elim
    | @io cmd value r hok =>
      show s.mapAfter cmd key = s.map key
      unfold KvRun.mapAfter
      cases cmd.opcode with
      | store => exact Function.update_of_ne hne ..
      | delete => exact Function.update_of_ne hne ..
      | retrieve | exist | other => rfl
  rw [hmap] at hfound'
  refine ⟨found, found', hget, hget', ?_⟩
  cases hv : s.map key with
  | none =>
    rw [hv] at hfound hfound'
    exact ⟨hfound'.trans hfound.symm, fun hnot => absurd hfound hnot⟩
  | some v =>
    rw [hv] at hfound hfound'
    exact ⟨hfound'.1.trans hfound.1.symm, fun _ => hfound'.2.trans hfound.2.symm⟩

end Runs

/-! ## The table of 1 GiB -/

section Shipped

/-- Two keys with one home slot among the 22369621 of a table of 1 GiB. -/
def akcl : List UInt8 := [0x61, 0x6b, 0x63, 0x6c]
def imxa : List UInt8 := [0x69, 0x6d, 0x78, 0x61]

theorem akcl_min : 4 ≤ akcl.length := by decide
theorem akcl_max : akcl.length ≤ 16 := by decide

theorem twoWords_lt : 2 < 2 ^ 32 := by decide

def storeAkcl : KvCommand := ⟨.store, akcl, 1, akcl_min, akcl_max, by decide⟩
def storeImxa : KvCommand := ⟨.store, imxa, 1, by decide, by decide, by decide⟩
def deleteAkcl : KvCommand := ⟨.delete, akcl, 0, akcl_min, akcl_max, by decide⟩

/-- The runs of a store of 1 GiB. -/
def shippedRuns : System KvRun KvEvent := kvRuns hashFunction 22369621 (2 ^ 30) fun _ => 0

/-- Before the first command. -/
def shippedStart : KvRun where
  ftl := kvInitNamespace 22369621 (2 ^ 30) fun _ => 0
  owner := fun _ => []
  reserved := fun _ => 0
  map := fun _ => none

theorem shippedStart_init : shippedRuns.init shippedStart := ⟨rfl, rfl⟩

/-- In an empty table no key is aliased. -/
theorem not_aliased_start (owner : Nat → List UInt8) (key : List UInt8) :
    ¬ Aliased hashFunction shippedStart.ftl owner key := by
  rintro ⟨slot, hleads, _⟩
  exact nomatch hleads.live_end

/-- After a store of the first key. -/
theorem kv_index_is_map_stored : ∃ s,
    (shippedRuns.guarded (KeepsIndex hashFunction)).Reachable s ∧ s.map akcl = some (0, 4) ∧
      ∃ e, s.ftl.getMappingEntry hashFunction akcl = .ok e ∧ MapsTo e (s.map akcl) := by
  have hrun : ∃ r, shippedStart.ftl.performKvIo hashFunction storeAkcl (fun _ => 1) = .ok r :=
    ⟨_, rfl⟩
  obtain ⟨r, hr⟩ := hrun
  have hkeeps : KeepsIndex hashFunction shippedStart (.io storeAkcl fun _ => 1) :=
    ⟨fun _ => ⟨not_aliased_start _ _, nofun⟩, nofun⟩
  have hreach : (shippedRuns.guarded (KeepsIndex hashFunction)).Reachable
      (shippedStart.after r.1 akcl 4 (shippedStart.mapAfter storeAkcl)) :=
    .step (.init shippedStart_init) ⟨hkeeps, .io hr⟩
  refine ⟨_, hreach, rfl, (kv_index_is_map (by decide) hreach).1 akcl ?_⟩
  -- every live slot was filled by this store
  rintro ⟨slot, hleads, _, hother⟩
  apply hother
  apply if_pos
  show (r.1.links.live slot && !shippedStart.ftl.links.live slot) = true
  have hlive : r.1.links.live slot = true := hleads.live_end
  rw [hlive]
  rfl

/-- Of two keys with one home the second is lost when the first is deleted. -/
theorem kv_index_loses_key : ∃ s, shippedRuns.Reachable s ∧ s.map imxa ≠ none ∧
    ∃ e, s.ftl.getMappingEntry hashFunction imxa = .ok e ∧ e.memOffset = none := by
  have hrun : (do
      let first ← shippedStart.ftl.performKvIo hashFunction storeAkcl fun _ => 1
      let second ← first.1.performKvIo hashFunction storeImxa fun _ => 2
      let third ← second.1.performKvIo hashFunction deleteAkcl fun _ => 0
      let entry ← third.1.getMappingEntry hashFunction imxa
      pure entry.memOffset : KvM (Option Nat)) = .ok none := rfl
  obtain ⟨first, hfirst, hrun⟩ := KvM.of_bind hrun
  obtain ⟨second, hsecond, hrun⟩ := KvM.of_bind hrun
  obtain ⟨third, hthird, hrun⟩ := KvM.of_bind hrun
  obtain ⟨entry, hentry, hnone⟩ := KvM.of_bind hrun
  have hone : shippedRuns.Reachable
      (shippedStart.after first.1 akcl 4 (shippedStart.mapAfter storeAkcl)) :=
    .step (.init shippedStart_init) (.io hfirst)
  have htwo := System.Reachable.step hone (.io hsecond)
  have hthree := System.Reachable.step htwo (.io hthird)
  exact ⟨_, hthree, nofun, entry, hentry, Except.ok.inj hnone⟩

end Shipped

end NvmeVirt

import NvmeVirt.Kv.Batch
import NvmeVirt.Laws.Kv.Index

/-!
# A batch against its stores, one command each

A store of a batch does to the FTL what the command does, but for one thing: it does not update the
length of a known key. `withLengths` is an FTL with other lengths in its slots. Searches, allocation
and chaining do not look at them, so the two runs go side by side; at the end they agree when the
last store on each slot has the length the batch has left there (`LengthsSettle`).

`storeBoth` is one store on both sides, with its three outcomes: the key is known, it is new, or the
search ends in a fault, which ends both. The batch is the fold of it, and the lengths of the
command's side are carried as the function they have become.

Deletes and reads in a batch are left out, as is the transport of the payload; keys are at most 24
bytes, so that none writes over its slot's own length.
-/

set_option autoImplicit false

namespace NvmeVirt

/-- A store of a batch that has a command of its own: small, and a whole number of words. -/
structure KvBatchStore extends KvSubStore where
  words : valLen % 4 = 0
  small : valLen ≤ smallLength

def KvBatchStore.subCmd (store : KvBatchStore) : SubCmd :=
  { opcode := nvmeCmdKvStore, key := store.key, valLen := store.valLen, value := store.value }

def KvBatchStore.command (store : KvBatchStore) : KvCommand where
  opcode := .store
  key := store.key
  valueLen := store.valLen / 4
  key_min := store.key_min
  key_max := store.key_max
  valueLen_lt := by
    have hsmall : store.valLen ≤ 1024 := store.small
    omega

/-- From sub-command `i` on the payload is these stores. -/
def PayloadFormat.Carries (payload : PayloadFormat) :
    (i payloadOffset : Nat) → List KvBatchStore → Prop
  | _, _, [] => True
  | i, payloadOffset, store :: rest =>
    payload.subCmd i payloadOffset = .ok store.subCmd ∧
      payload.Carries (i + 1) (payloadOffset + store.subCmd.subLen) rest

namespace KvFtl

/-- The store as a command. -/
def performStore (hash : List UInt8 → Nat) (ftl : KvFtl) (store : KvBatchStore) : KvM KvFtl := do
  let (ftl, _) ← ftl.performKvIo hash store.command store.value
  pure ftl

/-- The stores as commands, one after the other. -/
def performStores (hash : List UInt8 → Nat) (ftl : KvFtl) : List KvBatchStore → KvM KvFtl
  | [] => pure ftl
  | store :: rest => do
    let ftl ← ftl.performStore hash store
    ftl.performStores hash rest

/-- The store as a sub-command. -/
def performBatched (hash : List UInt8 → Nat) (ftl : KvFtl) (store : KvBatchStore) : KvM KvFtl :=
  ftl.performKvBatchedIo hash store.key store.valLen store.value

/-- The stores as sub-commands, one after the other. -/
def performBatchedStores (hash : List UInt8 → Nat) (ftl : KvFtl) : List KvBatchStore → KvM KvFtl
  | [] => pure ftl
  | store :: rest => do
    let ftl ← ftl.performBatched hash store
    ftl.performBatchedStores hash rest

/-- The states the batch has before each of its stores. -/
def batchTrace (hash : List UInt8 → Nat) (ftl : KvFtl) :
    List KvBatchStore → List (KvFtl × KvBatchStore)
  | [] => []
  | store :: rest => (ftl, store) ::
    match ftl.performBatched hash store with
    | .ok ftl' => ftl'.batchTrace hash rest
    | .error _ => []

end KvFtl

/-- A store of the trace finds the slot. -/
def RewrittenIn (hash : List UInt8 → Nat) (slot : Nat) (trace : List (KvFtl × KvBatchStore)) :
    Prop :=
  ∃ p ∈ trace, p.1.findSlot hash p.2.key = .ok (some slot)

/-- A store that would change the length of the slot it finds is not the last on that slot. -/
def LengthsSettle (hash : List UInt8 → Nat) : List (KvFtl × KvBatchStore) → Prop
  | [] => True
  | (ftl, store) :: rest =>
    (∀ slot, ftl.findSlot hash store.key = .ok (some slot) →
      KvFtl.changesLength store.valLen (ftl.kvMappingTable slot).length →
        RewrittenIn hash slot rest) ∧
    LengthsSettle hash rest

/-- The index is the same, and every retrieve is answered the same. -/
structure SameStore (hash : List UInt8 → Nat) (b s : KvFtl) : Prop where
  index : b.kvMappingTable = s.kvMappingTable
  retrieve : ∀ cmd value, cmd.opcode = .retrieve →
    (b.performKvIo hash cmd value).map Prod.snd = (s.performKvIo hash cmd value).map Prod.snd

section Lengths

variable {hash : List UInt8 → Nat} {ftl ftl' : KvFtl} {f : Nat → Nat} {slot : Nat}
  {key : List UInt8} {valLen valOffset : Nat} {store : KvBatchStore}

/-- The FTL with these lengths in its slots. -/
def KvFtl.withLengths (ftl : KvFtl) (f : Nat → Nat) : KvFtl :=
  { ftl with kvMappingTable := fun slot => { ftl.kvMappingTable slot with length := f slot } }

def KvFtl.lengthAt (ftl : KvFtl) (slot : Nat) : Nat := (ftl.kvMappingTable slot).length

theorem KvFtl.withLengths_self (ftl : KvFtl) : ftl.withLengths ftl.lengthAt = ftl := rfl

/-- A slot is filled under other lengths. -/
theorem KvFtl.setEntry_withLengths (ftl : KvFtl) (f : Nat → Nat) (slot : Nat)
    (entry : MappingEntry) : (ftl.withLengths f).setEntry slot entry =
      (ftl.setEntry slot entry).withLengths (Function.update f slot entry.length) := by
  unfold KvFtl.withLengths KvFtl.setEntry
  congr 1
  funext t
  by_cases ht : t = slot
  · subst ht
    simp only [Function.update_self]
  · simp only [Function.update_of_ne ht]

/-- Changing a length is one of the other lengths. -/
theorem KvFtl.setLength_eq (ftl : KvFtl) (slot length : Nat) :
    ftl.setEntry slot { ftl.kvMappingTable slot with length } =
      ftl.withLengths (Function.update ftl.lengthAt slot length) := by
  unfold KvFtl.withLengths KvFtl.setEntry
  congr 1
  funext t
  by_cases ht : t = slot
  · subst ht
    simp only [Function.update_self]
  · simp only [Function.update_of_ne ht, KvFtl.lengthAt]

/-- Links and lengths do not meet. -/
theorem KvFtl.chainMapping_withLengths (ftl : KvFtl) (f : Nat → Nat) (prev slot : Nat) :
    (ftl.withLengths f).chainMapping prev slot = (ftl.chainMapping prev slot).withLengths f := by
  unfold KvFtl.chainMapping
  rw [ftl.setEntry_withLengths]
  unfold KvFtl.withLengths KvFtl.setEntry
  congr 1
  funext t
  by_cases ht : t = prev
  · subst ht
    simp only [Function.update_self]
  · simp only [Function.update_of_ne ht]

/-- A filled slot has the length it was filled with, on both sides. -/
theorem KvFtl.filled_withLengths (ftl : KvFtl) (f : Nat → Nat) (link : Option Nat) :
    (ftl.withLengths f).filled slot key valLen valOffset link =
      (ftl.filled slot key valLen valOffset link).withLengths (Function.update f slot valLen) := by
  have hfill : (ftl.withLengths f).fillEntry slot key valLen valOffset =
      (ftl.fillEntry slot key valLen valOffset).withLengths (Function.update f slot valLen) :=
    ftl.setEntry_withLengths f slot _
  unfold KvFtl.filled
  rw [hfill]
  cases link with
  | none => rfl
  | some prev => exact KvFtl.chainMapping_withLengths _ _ prev slot

theorem KvFtl.filled_lengthAt (ftl : KvFtl) (link : Option Nat) :
    (ftl.filled slot key valLen valOffset link).lengthAt =
      Function.update ftl.lengthAt slot valLen := by
  funext t
  by_cases ht : t = slot
  · rw [ht, Function.update_self]
    exact (ftl.filled_entry valLen valOffset).length
  · rw [Function.update_of_ne ht]
    exact (ftl.filled_other valLen valOffset ht).length

/-! ## Where a new key goes -/

/-- The free slot for the key and the end of its chain, without a look at a length. -/
def KvFtl.placeFor (hash : List UInt8 → Nat) (ftl : KvFtl) (key : List UInt8) (valOffset : Nat) :
    KvM (Nat × Option Nat) :=
  if ftl.storageSize ≤ valOffset then throw .bugOn
  else do
    let home ← ftl.getHashSlot hash key
    if ftl.links.live home = true then do
      let (slot, prevSlot) ← ftl.findNextSlot home
      pure (slot, some prevSlot)
    else pure (home, none)

/-- A new key is placed, then filled in. -/
theorem KvFtl.newMappingEntryByKey_eq (ftl : KvFtl) (hfits : key.length ≤ 24) :
    ftl.newMappingEntryByKey hash key valLen valOffset =
      (ftl.placeFor hash key valOffset >>= fun place =>
        pure (ftl.filled place.1 key valLen valOffset place.2)) := by
  unfold KvFtl.newMappingEntryByKey KvFtl.placeFor
  by_cases hsize : ftl.storageSize ≤ valOffset
  · rw [if_pos hsize, if_pos hsize]
    rfl
  rw [if_neg hsize, if_neg hsize]
  have hfill : ∀ slot, ftl.fillSlot slot key valLen valOffset =
      ftl.fillEntry slot key valLen valOffset :=
    fun slot => ftl.fillSlot_fits slot valLen valOffset hfits
  simp only [hfill]
  cases ftl.getHashSlot hash key with
  | error fault => rfl
  | ok home =>
    rw [KvM.ok_bind, KvM.ok_bind]
    by_cases hlive : ftl.links.live home = true
    · rw [if_pos hlive, if_pos hlive]
      cases ftl.findNextSlot home with
      | error fault => rfl
      | ok place => rfl
    · rw [if_neg hlive, if_neg hlive]
      rfl

/-- The probe looks at keys only. -/
theorem KvFtl.probe_withLengths (ftl : KvFtl) (f : Nat → Nat) (passes a : Nat) :
    (ftl.withLengths f).probe passes a = ftl.probe passes a := by
  induction passes generalizing a with
  | zero => rfl
  | succ passes ih =>
    unfold KvFtl.probe
    rw [ih]
    rfl

/-- So does the choice of a slot. -/
theorem KvFtl.placeFor_withLengths (ftl : KvFtl) (f : Nat → Nat) :
    (ftl.withLengths f).placeFor hash key valOffset = ftl.placeFor hash key valOffset := by
  have hnext : ∀ home, (ftl.withLengths f).findNextSlot home = ftl.findNextSlot home := by
    intro home
    unfold KvFtl.findNextSlot
    simp only [KvFtl.probe_withLengths]
    rfl
  unfold KvFtl.placeFor
  simp only [hnext]
  rfl

/-- The slot chosen is free. -/
theorem KvFtl.placeFor_free {place : Nat × Option Nat}
    (h : ftl.placeFor hash key valOffset = .ok place) : ftl.links.live place.1 = false := by
  unfold KvFtl.placeFor at h
  by_cases hsize : ftl.storageSize ≤ valOffset
  · rw [if_pos hsize] at h
    exact nomatch h
  rw [if_neg hsize] at h
  obtain ⟨home, _, h⟩ := KvM.of_bind h
  by_cases hlive : ftl.links.live home = true
  · rw [if_pos hlive] at h
    obtain ⟨⟨slot, prevSlot⟩, hnext, hplace⟩ := KvM.of_bind h
    obtain rfl := Except.ok.inj hplace
    unfold KvFtl.findNextSlot at hnext
    split at hnext
    · exact nomatch hnext
    · split at hnext
      · exact nomatch hnext
      · rename_i slot' hprobe
        have hslot : slot' = slot := congrArg Prod.fst (Except.ok.inj hnext)
        rw [← hslot]
        exact KvFtl.probe_stops hprobe
  · rw [if_neg hlive] at h
    obtain rfl := Except.ok.inj h
    exact Bool.eq_false_iff.mpr hlive

/-! ## One store -/

/-- What the store makes of the FTL as a sub-command, and as a command of the FTL with other
lengths. -/
inductive StoreBoth (hash : List UInt8 → Nat) (ftl : KvFtl) (f : Nat → Nat) (store : KvBatchStore) :
    Prop where
  | faults {fault : Fault} : ftl.performBatched hash store = .error fault →
    (ftl.withLengths f).performStore hash store = .error fault → StoreBoth hash ftl f store
  | rewrites {slot : Nat} {ftl' : KvFtl} :
    ftl.findSlot hash store.key = .ok (some slot) → ftl.links.live slot = true →
    ftl.performBatched hash store = .ok ftl' → ftl'.kvMappingTable = ftl.kvMappingTable →
    (ftl.withLengths f).performStore hash store = .ok (ftl'.withLengths (Function.update f slot
      (if KvFtl.changesLength store.valLen (f slot) then store.valLen else f slot))) →
    StoreBoth hash ftl f store
  | inserts {slot : Nat} {ftl' : KvFtl} :
    ftl.findSlot hash store.key = .ok none → ftl.links.live slot = false →
    ftl.performBatched hash store = .ok ftl' →
    ftl'.lengthAt = Function.update ftl.lengthAt slot store.valLen →
    (∀ t, ftl.links.live t = true → ftl'.links.live t = true) →
    (ftl.withLengths f).performStore hash store =
      .ok (ftl'.withLengths (Function.update f slot store.valLen)) →
    StoreBoth hash ftl f store

theorem KvBatchStore.command_valueLength (store : KvBatchStore) :
    store.command.valueLength = store.valLen := by
  have hwords := store.words
  have hsmall : store.valLen ≤ 1024 := store.small
  show u32 (store.valLen / 4 * 4) = store.valLen
  unfold u32
  omega

/-- A slot that a search has found is live. -/
theorem KvFtl.findSlot_live (h : ftl.findSlot hash key = .ok (some slot)) :
    ftl.links.live slot = true := by
  obtain ⟨home, _, hseek⟩ := KvM.of_bind h
  split at hseek
  · exact nomatch hseek
  · rename_i r hr
    obtain rfl := Except.ok.inj hseek
    exact (Links.seek_found hr).2.live_end

/-- What a lookup returns of a known key. -/
theorem KvFtl.getMappingEntry_found (h : ftl.findSlot hash key = .ok (some slot)) :
    ∃ e, ftl.getMappingEntry hash key = .ok e ∧
      e.memOffset = (ftl.kvMappingTable slot).memOffset ∧ e.length = ftl.lengthAt slot := by
  unfold KvFtl.getMappingEntry
  rw [h]
  exact ⟨_, rfl, rfl, rfl⟩

/-- Of an unknown key it returns a wiped entry. -/
theorem KvFtl.getMappingEntry_none (h : ftl.findSlot hash key = .ok none) :
    ftl.getMappingEntry hash key = .ok wipedEntry := by
  unfold KvFtl.getMappingEntry
  rw [h]
  rfl

theorem KvFtl.getMappingEntry_error {fault : Fault} (h : ftl.findSlot hash key = .error fault) :
    ftl.getMappingEntry hash key = .error fault := by
  unfold KvFtl.getMappingEntry
  rw [h]
  rfl

/-- The command of a known key. -/
theorem KvFtl.performStore_found {offset : Nat}
    (hfind : ftl.findSlot hash store.key = .ok (some slot))
    (hoffset : (ftl.kvMappingTable slot).memOffset = some offset) :
    ftl.performStore hash store = .ok ((ftl.copyIn offset store.valLen store.value).withLengths
      (Function.update ftl.lengthAt slot
        (if KvFtl.changesLength store.valLen (ftl.lengthAt slot) then store.valLen
          else ftl.lengthAt slot))) := by
  obtain ⟨e, hget, hoff, hlength⟩ := KvFtl.getMappingEntry_found hfind
  have hfind' : (ftl.copyIn offset store.valLen store.value).findSlot hash store.command.key =
      .ok (some slot) := hfind
  have hget' : ftl.getMappingEntry hash store.command.key = .ok e := hget
  have hop : store.command.opcode = .store := rfl
  unfold KvFtl.performStore KvFtl.performKvIo
  rw [hget', KvM.ok_bind, hop, hoff, hoffset, hlength]
  dsimp only
  unfold KvFtl.storeUpdate KvFtl.updateLength
  rw [store.command_valueLength]
  split
  · unfold KvFtl.updateMappingEntry
    rw [hfind', KvM.ok_bind, store.command_valueLength]
    exact congrArg Except.ok (KvFtl.setLength_eq _ slot store.valLen)
  · rw [Function.update_eq_self]
    rfl

/-- The two stores of a known key. -/
theorem StoreBoth.of_found (hfind : ftl.findSlot hash store.key = .ok (some slot)) :
    StoreBoth hash ftl f store := by
  have hlive := KvFtl.findSlot_live hfind
  obtain ⟨offset, hoffset⟩ := Option.isSome_iff_exists.mp hlive
  obtain ⟨e, hget, hoff, _⟩ := KvFtl.getMappingEntry_found hfind
  have hbatched : ftl.performBatched hash store =
      .ok (ftl.copyIn offset store.valLen store.value) := by
    unfold KvFtl.performBatched KvFtl.performKvBatchedIo
    rw [hget, KvM.ok_bind, hoff, hoffset]
    rfl
  have hfind' : (ftl.withLengths f).findSlot hash store.key = .ok (some slot) := hfind
  exact .rewrites hfind hlive hbatched rfl (KvFtl.performStore_found hfind' hoffset)

/-- The two stores of a new key. -/
theorem StoreBoth.of_new (hfind : ftl.findSlot hash store.key = .ok none) :
    StoreBoth hash ftl f store := by
  have hbatched : ftl.performBatched hash store =
      (ftl.allocated store.valLen store.value).newMappingEntryByKey hash store.key store.valLen
        (ftl.allocateMemOffset store.valLen).2 := by
    unfold KvFtl.performBatched KvFtl.performKvBatchedIo
    rw [KvFtl.getMappingEntry_none hfind, KvM.ok_bind]
    rfl
  have hstore : (ftl.withLengths f).performStore hash store =
      ((ftl.allocated store.valLen store.value).withLengths f).newMappingEntryByKey hash store.key
        store.valLen (ftl.allocateMemOffset store.valLen).2 := by
    have hfind' : (ftl.withLengths f).findSlot hash store.command.key = .ok none := hfind
    have hop : store.command.opcode = .store := rfl
    unfold KvFtl.performStore KvFtl.performKvIo
    rw [KvFtl.getMappingEntry_none hfind', KvM.ok_bind, hop]
    dsimp only [wipedEntry]
    unfold KvFtl.storeInsert KvFtl.newMappingEntry
    rw [store.command_valueLength]
    show ((((ftl.allocated store.valLen store.value).withLengths f).newMappingEntryByKey hash
      store.key store.valLen (ftl.allocateMemOffset store.valLen).2) >>= _) >>= _ = _
    cases ((ftl.allocated store.valLen store.value).withLengths f).newMappingEntryByKey hash
        store.key store.valLen (ftl.allocateMemOffset store.valLen).2 with
    | error fault => rfl
    | ok ftl' => rfl
  have hfits : store.key.length ≤ 24 := Nat.le_trans store.key_max (by decide)
  rw [KvFtl.newMappingEntryByKey_eq _ hfits] at hbatched hstore
  rw [KvFtl.placeFor_withLengths] at hstore
  cases hplace : (ftl.allocated store.valLen store.value).placeFor hash store.key
      (ftl.allocateMemOffset store.valLen).2 with
  | error fault =>
    rw [hplace] at hbatched hstore
    exact .faults hbatched hstore
  | ok place =>
    rw [hplace] at hbatched hstore
    have hfree : (ftl.allocated store.valLen store.value).links.live place.1 = false :=
      KvFtl.placeFor_free hplace
    apply StoreBoth.inserts hfind hfree hbatched
    · exact KvFtl.filled_lengthAt _ place.2
    · intro t ht
      rw [KvFtl.filled_live]
      split
      · rfl
      · exact ht
    · rw [← KvFtl.filled_withLengths]
      exact hstore

/-- One store, by the command and by the batch. -/
theorem storeBoth (hash : List UInt8 → Nat) (ftl : KvFtl) (f : Nat → Nat) (store : KvBatchStore) :
    StoreBoth hash ftl f store := by
  cases hfind : ftl.findSlot hash store.key with
  | error fault =>
    have hfind' : (ftl.withLengths f).findSlot hash store.command.key = .error fault := hfind
    apply @StoreBoth.faults _ _ _ _ fault
    · unfold KvFtl.performBatched KvFtl.performKvBatchedIo
      rw [KvFtl.getMappingEntry_error hfind]
      rfl
    · unfold KvFtl.performStore KvFtl.performKvIo
      rw [KvFtl.getMappingEntry_error hfind']
      rfl
  | ok found =>
    cases found with
    | none => exact .of_new hfind
    | some slot => exact .of_found hfind

/-! ## The two runs -/

/-- Lengths that differ only where a live slot is small in both. -/
def LengthsClose (ftl : KvFtl) (f : Nat → Nat) : Prop :=
  ∀ slot, f slot = ftl.lengthAt slot ∨
    ftl.links.live slot = true ∧ ftl.lengthAt slot ≤ smallLength ∧ f slot ≤ smallLength

variable {trace : List (KvFtl × KvBatchStore)}

theorem rewrittenIn_cons : RewrittenIn hash slot ((ftl, store) :: trace) ↔
    ftl.findSlot hash store.key = .ok (some slot) ∨ RewrittenIn hash slot trace := by
  simp [RewrittenIn]

/-- The length a command leaves in a slot is the batch's when it does not change that one. -/
theorem LengthsClose.updated (h : LengthsClose ftl f) (store : KvBatchStore) (slot : Nat) :
    (if KvFtl.changesLength store.valLen (f slot) then store.valLen else f slot) =
        ftl.lengthAt slot ↔
      ¬ KvFtl.changesLength store.valLen (ftl.lengthAt slot) := by
  have hsmall := store.small
  have hslot := h slot
  by_cases hchanges : KvFtl.changesLength store.valLen (f slot)
  · rw [if_pos hchanges]
    unfold KvFtl.changesLength at hchanges ⊢
    omega
  · rw [if_neg hchanges]
    unfold KvFtl.changesLength at hchanges ⊢
    omega

/-- What is left to settle after a store of a known key. -/
theorem settle_rewrites (h : LengthsClose ftl f)
    (hfind : ftl.findSlot hash store.key = .ok (some slot)) :
    ((∀ t, ¬ RewrittenIn hash t trace → Function.update f slot
        (if KvFtl.changesLength store.valLen (f slot) then store.valLen else f slot) t =
          ftl.lengthAt t) ∧ LengthsSettle hash trace) ↔
      (∀ t, ¬ RewrittenIn hash t ((ftl, store) :: trace) → f t = ftl.lengthAt t) ∧
        LengthsSettle hash ((ftl, store) :: trace) := by
  have hupdated := h.updated store slot
  have hother : ∀ t, t ≠ slot →
      (RewrittenIn hash t ((ftl, store) :: trace) ↔ RewrittenIn hash t trace) := by
    intro t ht
    rw [rewrittenIn_cons, hfind]
    constructor
    · rintro (hslot | hlater)
      · exact absurd (Option.some.inj (Except.ok.inj hslot)).symm ht
      · exact hlater
    · exact .inr
  have hself : RewrittenIn hash slot ((ftl, store) :: trace) := rewrittenIn_cons.mpr (.inl hfind)
  constructor
  · rintro ⟨hrest, hsettle⟩
    refine ⟨fun t ht => ?_, fun t ht hchanges => ?_, hsettle⟩
    · have hts : t ≠ slot := fun he => ht (he ▸ hself)
      have hlength := hrest t (mt (hother t hts).mpr ht)
      rw [Function.update_of_ne hts] at hlength
      exact hlength
    · obtain rfl : slot = t := Option.some.inj (Except.ok.inj (hfind.symm.trans ht))
      by_contra hlater
      have hlength := hrest slot hlater
      rw [Function.update_self] at hlength
      exact hupdated.mp hlength hchanges
  · rintro ⟨hrest, hlast, hsettle⟩
    refine ⟨fun t ht => ?_, hsettle⟩
    by_cases hts : t = slot
    · subst hts
      rw [Function.update_self]
      exact hupdated.mpr fun hchanges => ht (hlast t hfind hchanges)
    · rw [Function.update_of_ne hts]
      exact hrest t (mt (hother t hts).mp ht)

/-- What is left to settle after a store of a new key. -/
theorem settle_inserts (h : LengthsClose ftl f) (hfind : ftl.findSlot hash store.key = .ok none)
    (hfree : ftl.links.live slot = false) :
    ((∀ t, ¬ RewrittenIn hash t trace → Function.update f slot store.valLen t =
        Function.update ftl.lengthAt slot store.valLen t) ∧ LengthsSettle hash trace) ↔
      (∀ t, ¬ RewrittenIn hash t ((ftl, store) :: trace) → f t = ftl.lengthAt t) ∧
        LengthsSettle hash ((ftl, store) :: trace) := by
  have hnone : ∀ t, ftl.findSlot hash store.key ≠ .ok (some t) := by
    intro t ht
    exact nomatch Except.ok.inj (hfind.symm.trans ht)
  have hcons : ∀ t, RewrittenIn hash t ((ftl, store) :: trace) ↔ RewrittenIn hash t trace :=
    fun t => rewrittenIn_cons.trans (or_iff_right (hnone t))
  constructor
  · rintro ⟨hrest, hsettle⟩
    refine ⟨fun t ht => ?_, fun t ht => absurd ht (hnone t), hsettle⟩
    by_cases hts : t = slot
    · rw [hts]
      rcases h slot with heq | ⟨hlive, _⟩
      · exact heq
      · exact absurd (hlive.symm.trans hfree) nofun
    · have hlength := hrest t (mt (hcons t).mpr ht)
      rw [Function.update_of_ne hts, Function.update_of_ne hts] at hlength
      exact hlength
  · rintro ⟨hrest, _, hsettle⟩
    refine ⟨fun t ht => ?_, hsettle⟩
    by_cases hts : t = slot
    · rw [hts, Function.update_self, Function.update_self]
    · rw [Function.update_of_ne hts, Function.update_of_ne hts]
      exact hrest t (mt (hcons t).mp ht)

/-- A known key is stored again: the command updates its length, the batch does not. -/
theorem LengthsClose.rewritten (h : LengthsClose ftl f) (hlive : ftl.links.live slot = true)
    (htable : ftl'.kvMappingTable = ftl.kvMappingTable) :
    LengthsClose ftl' (Function.update f slot
      (if KvFtl.changesLength store.valLen (f slot) then store.valLen else f slot)) := by
  have hlength : ∀ t, ftl'.lengthAt t = ftl.lengthAt t :=
    fun t => congrArg (fun table => (table t).length) htable
  have hlinks : ∀ t, ftl'.links.live t = ftl.links.live t :=
    fun t => congrArg (fun table => (table t).memOffset.isSome) htable
  intro t
  rw [hlength, hlinks]
  by_cases ht : t = slot
  · subst ht
    have hsmall := store.small
    have ht := h t
    rw [Function.update_self]
    split
    · rename_i hchanges
      rcases ht with heq | ⟨_, hclose, _⟩
      · rw [heq] at hchanges
        exact .inr ⟨hlive, hchanges.2.2, hsmall⟩
      · exact .inr ⟨hlive, hclose, hsmall⟩
    · exact ht
  · rw [Function.update_of_ne ht]
    exact h t

/-- A new key has its length on both sides. -/
theorem LengthsClose.inserted (h : LengthsClose ftl f) {valLen : Nat}
    (hlength : ftl'.lengthAt = Function.update ftl.lengthAt slot valLen)
    (hlive : ∀ t, ftl.links.live t = true → ftl'.links.live t = true) :
    LengthsClose ftl' (Function.update f slot valLen) := by
  intro t
  rw [hlength]
  by_cases ht : t = slot
  · rw [ht, Function.update_self, Function.update_self]
    exact .inl rfl
  · rw [Function.update_of_ne ht, Function.update_of_ne ht]
    rcases h t with heq | ⟨hold, hclose⟩
    · exact .inl heq
    · exact .inr ⟨hlive t hold, hclose⟩

/-- The batch and the commands fail alike, or end with tables that differ in nothing but lengths. -/
theorem performStores_sideBySide (stores : List KvBatchStore) (h : LengthsClose ftl f) :
    (∃ fault, ftl.performBatchedStores hash stores = .error fault ∧
      (ftl.withLengths f).performStores hash stores = .error fault) ∨
    ∃ b g, ftl.performBatchedStores hash stores = .ok b ∧
      (ftl.withLengths f).performStores hash stores = .ok (b.withLengths g) ∧
      (g = b.lengthAt ↔
        (∀ slot, ¬ RewrittenIn hash slot (ftl.batchTrace hash stores) →
          f slot = ftl.lengthAt slot) ∧
        LengthsSettle hash (ftl.batchTrace hash stores)) := by
  induction stores generalizing ftl f with
  | nil =>
    refine .inr ⟨ftl, f, rfl, rfl, ?_⟩
    constructor
    · intro hf
      exact ⟨fun slot _ => congrFun hf slot, trivial⟩
    · rintro ⟨hall, _⟩
      funext slot
      exact hall slot nofun
  | cons store rest ih =>
    -- both runs go on from the FTLs the two stores leave
    have hgoes : ∀ {ftl' : KvFtl} {f' : Nat → Nat},
        ftl.performBatched hash store = .ok ftl' →
        (ftl.withLengths f).performStore hash store = .ok (ftl'.withLengths f') →
        ftl.performBatchedStores hash (store :: rest) = ftl'.performBatchedStores hash rest ∧
        (ftl.withLengths f).performStores hash (store :: rest) =
          (ftl'.withLengths f').performStores hash rest ∧
        ftl.batchTrace hash (store :: rest) = (ftl, store) :: ftl'.batchTrace hash rest := by
      intro ftl' f' hbatched hstore
      refine ⟨?_, ?_, ?_⟩
      · rw [KvFtl.performBatchedStores, hbatched]
        rfl
      · rw [KvFtl.performStores, hstore]
        rfl
      · rw [KvFtl.batchTrace, hbatched]
    cases storeBoth hash ftl f store with
    | @faults fault hbatched hstore =>
      refine .inl ⟨fault, ?_, ?_⟩
      · unfold KvFtl.performBatchedStores
        rw [hbatched]
        rfl
      · unfold KvFtl.performStores
        rw [hstore]
        rfl
    | @rewrites slot ftl' hfind hlive hbatched htable hstore =>
      obtain ⟨hbatch, hsingles, htrace⟩ := hgoes hbatched hstore
      rw [hbatch, hsingles, htrace]
      have hlength : ftl'.lengthAt = ftl.lengthAt :=
        funext fun t => congrArg (fun table => (table t).length) htable
      rcases ih (h.rewritten hlive htable) with hfaults | ⟨b, g, hb, hs, hiff⟩
      · exact .inl hfaults
      · rw [hlength] at hiff
        exact .inr ⟨b, g, hb, hs, hiff.trans (settle_rewrites h hfind)⟩
    | @inserts slot ftl' hfind hfree hbatched hlength hold hstore =>
      obtain ⟨hbatch, hsingles, htrace⟩ := hgoes hbatched hstore
      rw [hbatch, hsingles, htrace]
      rcases ih (h.inserted hlength hold) with hfaults | ⟨b, g, hb, hs, hiff⟩
      · exact .inl hfaults
      · rw [hlength] at hiff
        exact .inr ⟨b, g, hb, hs, hiff.trans (settle_inserts h hfind hfree)⟩

/-! ## The payload -/

/-- The batch performs the stores its payload carries. -/
theorem performSubCmds_carried {payload : PayloadFormat} {stores : List KvBatchStore}
    {i payloadOffset : Nat} (h : payload.Carries i payloadOffset stores) (ftl : KvFtl) :
    KvFtl.performSubCmds hash payload stores.length i payloadOffset ftl =
      ftl.performBatchedStores hash stores := by
  induction stores generalizing i payloadOffset ftl with
  | nil => rfl
  | cons store rest ih =>
    obtain ⟨hsub, hrest⟩ := h
    have hperform : ftl.performSubCmd hash store.subCmd = ftl.performBatched hash store := if_pos rfl
    show (payload.subCmd i payloadOffset >>= fun sub => ftl.performSubCmd hash sub >>= fun ftl =>
      KvFtl.performSubCmds hash payload rest.length (i + 1) (payloadOffset + sub.subLen) ftl) = _
    rw [hsub, KvM.ok_bind, hperform]
    unfold KvFtl.performBatchedStores
    congr 1
    funext ftl'
    exact ih hrest ftl'

/-- A batch fails like its stores, and ends in the same store as they do when the last of them on
each slot does not change the length that the batch has for it. The stores are those the payload
carries, in order, each small and a whole number of words, for only these have a command of their
own. -/
theorem kv_batch_same_iff {payload : PayloadFormat} {stores : List KvBatchStore} (ftl : KvFtl)
    (h : payload.Carries 0 alignLen stores) :
    (∀ fault, ftl.performKvBatch hash stores.length payload = .error fault ↔
      ftl.performStores hash stores = .error fault) ∧
    ∀ b, ftl.performKvBatch hash stores.length payload = .ok b →
      ∃ s, ftl.performStores hash stores = .ok s ∧
        (SameStore hash b s ↔ LengthsSettle hash (ftl.batchTrace hash stores)) := by
  have hbatch : ftl.performKvBatch hash stores.length payload =
      ftl.performBatchedStores hash stores := performSubCmds_carried h ftl
  have hclose : LengthsClose ftl ftl.lengthAt := fun _ => .inl rfl
  rw [hbatch]
  rcases performStores_sideBySide stores hclose with ⟨fault, hb, hs⟩ | ⟨b, g, hb, hs, hiff⟩
  · rw [ftl.withLengths_self] at hs
    rw [hb, hs]
    exact ⟨fun _ => Iff.rfl, nofun⟩
  · rw [ftl.withLengths_self] at hs
    rw [hb, hs]
    refine ⟨fun _ => ⟨nofun, nofun⟩, fun b' hb' => ⟨_, rfl, ?_⟩⟩
    obtain rfl := Except.ok.inj hb'
    constructor
    · intro hsame
      have hg : g = b.lengthAt := by
        funext slot
        exact (congrArg (fun table => (table slot).length) hsame.index).symm
      exact (hiff.mp hg).2
    · intro hsettle
      have hg : g = b.lengthAt := hiff.mpr ⟨fun _ _ => rfl, hsettle⟩
      rw [hg, b.withLengths_self]
      exact ⟨rfl, fun _ _ _ => rfl⟩

end Lengths

section Shipped

/-- A payload of three stores of one key, of 4, of 8 and of 4 bytes. -/
def akclThrice : PayloadFormat where
  length := 1032
  byte a :=
    if a = 0 ∨ a = 16 ∨ a = 32 then nvmeCmdKvStore
    else if a = 1 ∨ a = 4 ∨ a = 17 ∨ a = 33 ∨ a = 36 then 4
    else if a = 20 then 8
    else if 576 ≤ a ∧ a < 580 then akcl.getD (a - 576) 0
    else if 768 ≤ a ∧ a < 772 then akcl.getD (a - 768) 0
    else if 960 ≤ a ∧ a < 964 then akcl.getD (a - 960) 0
    else if a < 512 then 0
    else 1

def akclFour : KvBatchStore where
  key := akcl
  valLen := 4
  value j := if j < 4 then akclThrice.byte (640 + j) else 0
  key_min := akcl_min
  key_max := akcl_max
  words := rfl
  small := by decide

def akclEight : KvBatchStore where
  key := akcl
  valLen := 8
  value j := if j < 8 then akclThrice.byte (832 + j) else 0
  key_min := akcl_min
  key_max := akcl_max
  words := rfl
  small := by decide

def akclLast : KvBatchStore :=
  { akclFour with value := fun j => if j < 4 then akclThrice.byte (1024 + j) else 0 }

theorem akclThrice_carries : akclThrice.Carries 0 alignLen [akclFour, akclEight, akclLast] := by
  have hattr : akclThrice.attr 0 = .ok ⟨nvmeCmdKvStore, 4, 4⟩ := rfl
  have hsub : akclThrice.subCmdAt alignLen ⟨nvmeCmdKvStore, 4, 4⟩ = .ok akclFour.subCmd := rfl
  have hattr' : akclThrice.attr 1 = .ok ⟨nvmeCmdKvStore, 4, 8⟩ := rfl
  have hsub' : akclThrice.subCmdAt 256 ⟨nvmeCmdKvStore, 4, 8⟩ = .ok akclEight.subCmd := rfl
  have hattr'' : akclThrice.attr 2 = .ok ⟨nvmeCmdKvStore, 4, 4⟩ := rfl
  have hsub'' : akclThrice.subCmdAt 448 ⟨nvmeCmdKvStore, 4, 4⟩ = .ok akclLast.subCmd := rfl
  refine ⟨?_, ?_, ?_, trivial⟩
  · rw [PayloadFormat.subCmd, hattr]
    exact hsub
  · rw [PayloadFormat.subCmd, hattr']
    exact hsub'
  · rw [PayloadFormat.subCmd, hattr'']
    exact hsub''

/-- The last store has the length the first one left. -/
theorem kv_batch_same_iff_thrice : ∃ b s,
    shippedStart.ftl.performKvBatch hashFunction 3 akclThrice = .ok b ∧
    shippedStart.ftl.performStores hashFunction [akclFour, akclEight, akclLast] = .ok s ∧
    SameStore hashFunction b s := by
  have hcarries := akclThrice_carries
  have hbatch : ∃ b, shippedStart.ftl.performKvBatch hashFunction 3 akclThrice = .ok b := ⟨_, rfl⟩
  obtain ⟨b, hb⟩ := hbatch
  obtain ⟨s, hs, hiff⟩ := (kv_batch_same_iff shippedStart.ftl hcarries).2 b hb
  have hrun : (do
      let first ← shippedStart.ftl.performBatched hashFunction akclFour
      let found ← first.findSlot hashFunction akcl
      let second ← first.performBatched hashFunction akclEight
      let again ← second.findSlot hashFunction akcl
      pure (found, again, (second.kvMappingTable 7846785).length) :
        KvM (Option Nat × Option Nat × Nat)) = .ok (some 7846785, some 7846785, 4) := rfl
  obtain ⟨first, hfirst, hrun⟩ := KvM.of_bind hrun
  obtain ⟨found, hfound, hrun⟩ := KvM.of_bind hrun
  obtain ⟨second, hsecond, hrun⟩ := KvM.of_bind hrun
  obtain ⟨again, hagain, hrun⟩ := KvM.of_bind hrun
  obtain ⟨rfl, hends⟩ := Prod.mk.inj (Except.ok.inj hrun)
  obtain ⟨rfl, hlength⟩ := Prod.mk.inj hends
  have hnone : shippedStart.ftl.findSlot hashFunction akcl = .ok none := rfl
  refine ⟨b, s, hb, hs, hiff.mpr ?_⟩
  rw [KvFtl.batchTrace, hfirst]
  dsimp only
  rw [KvFtl.batchTrace, hsecond]
  refine ⟨fun slot hslot => ?_, fun slot hslot _ => ?_, fun slot hslot hchanges => ?_, ?_⟩
  · exact nomatch Except.ok.inj (hnone.symm.trans hslot)
  · obtain rfl := Option.some.inj (Except.ok.inj (hfound.symm.trans hslot))
    exact ⟨(second, akclLast), List.mem_cons_self, hagain⟩
  · obtain rfl := Option.some.inj (Except.ok.inj (hagain.symm.trans hslot))
    rw [hlength] at hchanges
    exact absurd hchanges (by decide)
  · split <;> exact trivial

/-- A retrieve of up to 8 bytes of the key. -/
def retrieveAkcl : KvCommand := ⟨.retrieve, akcl, 2, akcl_min, akcl_max, twoWords_lt⟩

/-- The batch leaves the first length, the commands the last. -/
theorem kv_batch_keeps_length : ∃ b s,
    akclThrice.Carries 0 alignLen [akclFour, akclEight] ∧
    shippedStart.ftl.performKvBatch hashFunction 2 akclThrice = .ok b ∧
    shippedStart.ftl.performStores hashFunction [akclFour, akclEight] = .ok s ∧
    ∃ old new, b.performKvIo hashFunction retrieveAkcl (fun _ => 0) = .ok old ∧
      s.performKvIo hashFunction retrieveAkcl (fun _ => 0) = .ok new ∧
      old.2.result = 4 ∧ new.2.result = 8 := by
  have hrun : (do
      let b ← shippedStart.ftl.performKvBatch hashFunction 2 akclThrice
      let s ← shippedStart.ftl.performStores hashFunction [akclFour, akclEight]
      let old ← b.performKvIo hashFunction retrieveAkcl fun _ => 0
      let new ← s.performKvIo hashFunction retrieveAkcl fun _ => 0
      pure (old.2.result, new.2.result) : KvM (Nat × Nat)) = .ok (4, 8) := rfl
  obtain ⟨b, hb, hrun⟩ := KvM.of_bind hrun
  obtain ⟨s, hs, hrun⟩ := KvM.of_bind hrun
  obtain ⟨old, hold, hrun⟩ := KvM.of_bind hrun
  obtain ⟨new, hnew, hrun⟩ := KvM.of_bind hrun
  have hresults := Prod.mk.inj (Except.ok.inj hrun)
  have hcarries := akclThrice_carries
  exact ⟨b, s, ⟨hcarries.1, hcarries.2.1, trivial⟩, hb, hs, old, new, hold, hnew, hresults.1, hresults.2⟩

end Shipped

end NvmeVirt

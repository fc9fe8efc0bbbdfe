import NvmeVirt.Laws.Kv.Values

/-!
# The store as a dictionary

What the stores and deletes of a run say of each key is a dictionary from keys to values. In runs
that keep the index and the extents, deletes and batches included, the table and the storage
together represent it: every command on a key that is not aliased answers as the dictionary does.

`Represents` joins the invariants of `Laws/Kv/Index` and `Laws/Kv/Values`: a slot in use has the
value the dictionary gives for its owner, read from the storage at its offset. A store fills a slot
(`Represents.inserted`) or writes over the value it finds (`Represents.rewritten`), a delete wipes
one (`Represents.wiped`), and all else leaves table and dictionary alone (`Represents.unchanged`).
`represents_of_path` is the induction over the events of a run.

The dictionary is a fold over these events, which knows nothing of slots, chains or offsets. A key
that is aliased is out of its reach: the search may find another key's slot.
-/

set_option autoImplicit false

namespace NvmeVirt

/-! ## The dictionary -/

/-- The values of the keys. -/
abbrev KvDictionary := List UInt8 → Option (List UInt8)

/-- The bytes of a command. -/
def valueBytes (length : Nat) (value : Nat → UInt8) : List UInt8 := (List.range length).map value

/-- What an event makes of the dictionary. -/
def KvDictionary.after (dict : KvDictionary) : KvEvent → KvDictionary
  | .io cmd value =>
    match cmd.opcode with
    | .store => Function.update dict cmd.key (some (valueBytes cmd.valueLength value))
    | .delete => Function.update dict cmd.key none
    | .retrieve | .exist | .other => dict
  | .batched store => Function.update dict store.key (some (valueBytes store.valLen store.value))

/-- What some events make of the empty dictionary. -/
def dictionaryOf (events : List KvEvent) : KvDictionary :=
  events.foldl KvDictionary.after fun _ => none

/-- What the dictionary answers to a command. -/
def KvDictionary.answer (dict : KvDictionary) (cmd : KvCommand) : KvAnswer :=
  match cmd.opcode, dict cmd.key with
  | .retrieve, some value =>
    { result := min value.length cmd.valueLength, status := none, sent := value.take cmd.valueLength }
  | .retrieve, none | .exist, none | .delete, none => KvFtl.keyNotExist
  | .exist, some _ | .delete, some _ | .store, _ | .other, _ =>
    { result := 0, status := none, sent := [] }

section After

variable {dict : KvDictionary} {cmd : KvCommand} {value : Nat → UInt8}

/-- A store sets its key. -/
theorem KvDictionary.after_store (h : cmd.opcode = .store) : dict.after (.io cmd value) =
    Function.update dict cmd.key (some (valueBytes cmd.valueLength value)) := by
  simp only [KvDictionary.after, h]

/-- A delete removes it. -/
theorem KvDictionary.after_delete (h : cmd.opcode = .delete) :
    dict.after (.io cmd value) = Function.update dict cmd.key none := by
  simp only [KvDictionary.after, h]

theorem KvDictionary.after_other (hstore : cmd.opcode ≠ .store) (hdelete : cmd.opcode ≠ .delete) :
    dict.after (.io cmd value) = dict := by
  cases hop : cmd.opcode with
  | store => exact absurd hop hstore
  | delete => exact absurd hop hdelete
  | retrieve | exist | other => simp only [KvDictionary.after, hop]

end After

/-- One event more. -/
theorem dictionaryOf_concat (events : List KvEvent) (e : KvEvent) :
    dictionaryOf (events ++ [e]) = (dictionaryOf events).after e := by
  unfold dictionaryOf
  rw [List.foldl_append]
  rfl

/-! ## The table represents it -/

/-- The value in a slot. -/
def KvFtl.valueOf (ftl : KvFtl) (slot : Nat) : List UInt8 :=
  ftl.copyOut (ftl.startOf slot) (ftl.kvMappingTable slot).length

/-- The events that keep the table and the storage a dictionary: a store stays inside what was allocated
for its key and has its length recorded, and a delete disturbs no other chain. -/
def KeepsDictionary (hash : List UInt8 → Nat) (s : KvRun) : KvEvent → Prop
  | .io cmd _ =>
    (cmd.opcode = .store → HasRoom hash s cmd.key cmd.valueLength ∧
      ∀ slot, s.ftl.links.live slot = true → s.owner slot = cmd.key →
        cmd.valueLength = (s.ftl.kvMappingTable slot).length ∨
          cmd.valueLength ≤ smallLength ∧ (s.ftl.kvMappingTable slot).length ≤ smallLength) ∧
    (cmd.opcode = .delete → ¬ Aliased hash s.ftl s.owner cmd.key ∧
      ∀ slot, s.ftl.links.live slot = true → s.owner slot = cmd.key →
        Unneeded hash s.ftl s.owner slot)
  | .batched store => HasRoom hash s store.key store.valLen ∧
      ∀ slot, s.ftl.links.live slot = true → s.owner slot = store.key →
        store.valLen = (s.ftl.kvMappingTable slot).length

/-- The slots in use hold the values of the dictionary. -/
structure Represents (hash : List UInt8 → Nat) (storageSize : Nat) (s : KvRun) (dict : KvDictionary) :
    Prop where
  apart : ValuesApart hash storageSize s
  slot : ∀ t, s.ftl.links.live t = true → dict (s.owner t) = some (s.ftl.valueOf t)
  key : ∀ k v, dict k = some v → ∃ t, s.ftl.links.live t = true ∧ s.owner t = k

section Values

variable {ftl ftl' : KvFtl} {slot start length : Nat} {value : Nat → UInt8} {storage : Nat → UInt8}

/-- Bytes that were just copied in. -/
theorem KvFtl.copyOut_copied (h : ftl.storage = memcpyTo storage start length value) :
    ftl.copyOut start length = valueBytes length value := by
  unfold KvFtl.copyOut valueBytes
  apply List.map_congr_left
  intro i hi
  have hlt := List.mem_range.mp hi
  rw [h]
  unfold memcpyTo
  rw [if_pos ⟨Nat.le_add_right .., Nat.add_lt_add_left hlt _⟩, Nat.add_sub_cancel_left]

/-- The first bytes of a value. -/
theorem KvFtl.copyOut_min (ftl : KvFtl) (start length n : Nat) :
    ftl.copyOut start (min length n) = (ftl.copyOut start length).take n := by
  unfold KvFtl.copyOut
  rw [← List.map_take, List.take_range, Nat.min_comm]

theorem ValueKept.valueOf (h : ValueKept ftl ftl' slot) : ftl'.valueOf slot = ftl.valueOf slot := by
  unfold KvFtl.valueOf KvFtl.copyOut
  rw [h.entry.length, KvFtl.startOf_congr h.entry.memOffset]
  apply List.map_congr_left
  intro i hi
  exact h.bytes i (List.mem_range.mp hi)

end Values

section Runs

variable {hash : List UInt8 → Nat} {hashSlots storageSize length : Nat} {storage : Nat → UInt8}
  {s : KvRun} {dict : KvDictionary} {ftl' : KvFtl} {key : List UInt8} {value : Nat → UInt8}
  {updates : Bool} {born : Nat → Nat} {now : Nat}

theorem Represents.absent (h : Represents hash storageSize s dict)
    (hnew : ∀ t, s.ftl.links.live t = true → s.owner t ≠ key) : dict key = none := by
  cases hdict : dict key with
  | none => rfl
  | some v =>
    obtain ⟨t, hlive, howner⟩ := h.key key v hdict
    exact absurd howner (hnew t hlive)

/-- A store of a new key. -/
theorem Represents.inserted (h : Represents hash storageSize s dict)
    (hsize : storageSize + 2 ^ 20 < 2 ^ 64) {slot : Nat} {link : Option Nat}
    (hroom : s.ftl.latest + length ≤ s.ftl.storageSize) (hfree : s.ftl.links.live slot = false)
    (hnew : ∀ t, s.ftl.links.live t = true → s.owner t ≠ key)
    (hftl' : ftl' = (s.ftl.allocated length value).filled slot key length
      (s.ftl.allocateMemOffset length).2 link)
    (hindexed : Indexed hash ftl' (Function.update s.owner slot key) born now)
    (map : List UInt8 → Option (Nat × Nat)) :
    Represents hash storageSize (s.after ftl' key length map)
      (Function.update dict key (some (valueBytes length value))) := by
  obtain ⟨hafter, hkept⟩ := h.apart.inserted hsize hroom hfree hftl' hindexed map
  obtain ⟨howner, _⟩ := KvRun.after_inserted hfree
    (show (s.ftl.allocated length value).links = s.ftl.links from rfl) hftl' map
  have hself := @KvFtl.filled_entry slot key link (s.ftl.allocated length value) length
    (s.ftl.allocateMemOffset length).2
  rw [← hftl'] at hself
  have hlive : ftl'.links.live slot = true := by
    show (ftl'.kvMappingTable slot).memOffset.isSome = true
    rw [hself.memOffset]
    rfl
  have hvalue : ftl'.valueOf slot = valueBytes length value := by
    have hstart : ftl'.startOf slot = (s.ftl.allocateMemOffset length).2 :=
      congrArg (fun o => o.getD 0) hself.memOffset
    unfold KvFtl.valueOf
    rw [hself.length, hstart]
    refine @KvFtl.copyOut_copied ftl' _ _ value s.ftl.storage ?_
    rw [hftl']
    cases link <;> rfl
  have hold : ∀ t, t ≠ slot → ftl'.links.live t = true → s.ftl.links.live t = true := by
    intro t ht hlive'
    rw [hftl'] at hlive'
    have hother := @KvFtl.filled_other slot t key link (s.ftl.allocated length value) length
      (s.ftl.allocateMemOffset length).2 ht
    exact (KvFtl.live_congr hother.memOffset) ▸ hlive'
  refine ⟨hafter, ?_, ?_⟩
  · rw [howner]
    intro t ht
    by_cases hts : t = slot
    · rw [hts, Function.update_self, Function.update_self]
      exact congrArg some hvalue.symm
    · have hlive' := hold t hts ht
      rw [Function.update_of_ne hts, Function.update_of_ne (hnew t hlive'), h.slot t hlive']
      exact congrArg some (hkept t hlive').valueOf.symm
  · rw [howner]
    intro k v hv
    by_cases hk : k = key
    · exact ⟨slot, hlive, by rw [Function.update_self, hk]⟩
    · rw [Function.update_of_ne hk] at hv
      obtain ⟨t, ht, hown⟩ := h.key k v hv
      have hts : t ≠ slot := by
        intro he
        rw [he, hfree] at ht
        cases ht
      refine ⟨t, (KvFtl.live_congr (hkept t ht).entry.memOffset).trans ht, ?_⟩
      rw [Function.update_of_ne hts]
      exact hown

/-- A store of a known key, whose length is recorded. -/
theorem Represents.rewritten (h : Represents hash storageSize s dict) {slot offset : Nat}
    (hlive : s.ftl.links.live slot = true) (howned : s.owner slot = key)
    (hoffset : (s.ftl.kvMappingTable slot).memOffset = some offset)
    (hroom : length ≤ s.reserved slot)
    (hftl' : ftl' = (s.ftl.copyIn offset length value).setEntry slot
      { s.ftl.kvMappingTable slot with length := length })
    (map : List UInt8 → Option (Nat × Nat)) :
    Represents hash storageSize (s.after ftl' key length map)
      (Function.update dict key (some (valueBytes length value))) := by
  obtain ⟨hafter, hkept⟩ : ValuesApart hash storageSize (s.after ftl' key length map) ∧ _ :=
    h.apart.rewritten hlive hoffset hroom hroom hftl' map
  have hself : ftl'.kvMappingTable slot = { s.ftl.kvMappingTable slot with length := length } := by
    rw [hftl']
    exact KvFtl.setEntry_self ..
  have hsame : ∀ t, ftl'.links.live t = s.ftl.links.live t := by
    intro t
    apply KvFtl.live_congr
    by_cases hts : t = slot
    · rw [hts, hself]
    · rw [hftl', KvFtl.setEntry_other _ _ hts]
      rfl
  have hvalue : ftl'.valueOf slot = valueBytes length value := by
    have hstart : ftl'.startOf slot = offset := by
      unfold KvFtl.startOf
      rw [hself, hoffset]
      rfl
    unfold KvFtl.valueOf
    rw [hself, hstart]
    refine @KvFtl.copyOut_copied ftl' _ _ value s.ftl.storage ?_
    rw [hftl']
    rfl
  obtain ⟨_, _, hindexed⟩ := h.apart.indexed
  obtain ⟨howner, _⟩ := s.after_kept ftl' (fun t ht => (hsame t) ▸ ht) key length map
  refine ⟨hafter, ?_, ?_⟩
  · rw [howner]
    intro t ht
    have ht' : s.ftl.links.live t = true := (hsame t) ▸ ht
    by_cases hts : t = slot
    · rw [hts, howned, Function.update_self]
      exact congrArg some hvalue.symm
    · have hother : s.owner t ≠ key := fun he =>
        hts (hindexed.distinct t slot ht' hlive (he.trans howned.symm))
      rw [Function.update_of_ne hother, h.slot t ht']
      exact congrArg some (hkept t ht' hts).valueOf.symm
  · rw [howner]
    intro k v hv
    by_cases hk : k = key
    · exact ⟨slot, (hsame slot).trans hlive, howned.trans hk.symm⟩
    · rw [Function.update_of_ne hk] at hv
      obtain ⟨t, ht, hown⟩ := h.key k v hv
      exact ⟨t, (hsame t).trans ht, hown⟩

/-- A store whose length is recorded. -/
theorem Represents.stored (h : Represents hash storageSize s dict)
    (hsize : storageSize + 2 ^ 20 < 2 ^ 64) (hfits : HasRoom hash s key length)
    (hlength : ∀ slot, s.ftl.links.live slot = true → s.owner slot = key →
      (if updates = true ∧ KvFtl.changesLength length (s.ftl.kvMappingTable slot).length
        then length else (s.ftl.kvMappingTable slot).length) = length)
    (hstored : Stored hash s.ftl s.owner born now key length value updates ftl')
    (map : List UInt8 → Option (Nat × Nat)) :
    Represents hash storageSize (s.after ftl' key length map)
      (Function.update dict key (some (valueBytes length value))) := by
  cases hstored with
  | inserted hnew hfree _ hftl' hindexed =>
    exact h.inserted hsize (hfits.new hnew) hfree hnew hftl' hindexed map
  | @rewritten slot offset length' hlive howned hoffset hlength' =>
    rw [hlength slot hlive howned] at hlength'
    subst hlength'
    exact h.rewritten hlive howned hoffset (hfits.known slot hlive howned) rfl map

/-- A slot is wiped. -/
theorem Represents.wiped (h : Represents hash storageSize s dict) {slot : Nat}
    (hlive : s.ftl.links.live slot = true) (howned : s.owner slot = key)
    (hneed : Unneeded hash s.ftl s.owner slot) (map : List UInt8 → Option (Nat × Nat)) :
    Represents hash storageSize (s.after (s.ftl.setEntry slot wipedEntry) key length map)
      (Function.update dict key none) := by
  have hold : ∀ t, (s.ftl.setEntry slot wipedEntry).links.live t = true →
      t ≠ slot ∧ s.ftl.links.live t = true := by
    intro t ht
    refine ⟨?_, KvFtl.live_of_setEntry hlive _ ht⟩
    rintro rfl
    have hdead : (s.ftl.setEntry t wipedEntry).links.live t = false :=
      congrArg (fun e => e.memOffset.isSome) (s.ftl.setEntry_self t wipedEntry)
    exact Bool.false_ne_true (hdead.symm.trans ht)
  have hsame : ∀ t, t ≠ slot →
      (s.ftl.setEntry slot wipedEntry).kvMappingTable t = s.ftl.kvMappingTable t :=
    fun t ht => s.ftl.setEntry_other wipedEntry ht
  obtain ⟨born, now, hindexed⟩ := h.apart.indexed
  obtain ⟨howner, hreserved⟩ := s.after_kept (s.ftl.setEntry slot wipedEntry)
    (fun t ht => (hold t ht).2) key length map
  refine ⟨?_, ?_, ?_⟩
  · constructor
    · rw [howner]
      exact ⟨born, now, hindexed.wipe hneed⟩
    · exact h.apart.size
    · exact h.apart.latest
    · rw [hreserved]
      intro t ht
      obtain ⟨hts, ht'⟩ := hold t ht
      show ((s.ftl.setEntry slot wipedEntry).kvMappingTable t).length ≤ s.reserved t
      rw [hsame t hts]
      exact h.apart.lengths t ht'
    · rw [hreserved]
      refine h.apart.extents.shrink (fun t ht => ?_) (Nat.le_refl _)
      obtain ⟨hts, ht'⟩ := hold t ht
      exact ⟨ht', KvFtl.startOf_congr (congrArg MappingEntry.memOffset (hsame t hts)), Nat.le_refl _⟩
  · rw [howner]
    intro t ht
    obtain ⟨hts, ht'⟩ := hold t ht
    have hother : s.owner t ≠ key := fun he =>
      hts (hindexed.distinct t slot ht' hlive (he.trans howned.symm))
    have hentry := hsame t hts
    have hvalue : (s.ftl.setEntry slot wipedEntry).valueOf t = s.ftl.valueOf t := by
      unfold KvFtl.valueOf KvFtl.startOf
      rw [hentry]
      rfl
    rw [Function.update_of_ne hother, h.slot t ht']
    exact congrArg some hvalue.symm
  · rw [howner]
    intro k v hv
    by_cases hk : k = key
    · rw [hk, Function.update_self] at hv
      cases hv
    · rw [Function.update_of_ne hk] at hv
      obtain ⟨t, ht, hown⟩ := h.key k v hv
      have hts : t ≠ slot := by
        rintro rfl
        exact hk (hown.symm.trans howned)
      exact ⟨t, (KvFtl.live_congr (congrArg MappingEntry.memOffset (hsame t hts))).trans ht, hown⟩

/-- A command that changes nothing. -/
theorem Represents.unchanged (h : Represents hash storageSize s dict) (key : List UInt8)
    (length : Nat) (map : List UInt8 → Option (Nat × Nat)) :
    Represents hash storageSize (s.after s.ftl key length map) dict := by
  obtain ⟨howner, hreserved⟩ := s.after_kept s.ftl (fun _ ht => ht) key length map
  refine ⟨⟨?_, h.apart.size, h.apart.latest, ?_, ?_⟩, ?_, ?_⟩
  · rw [howner]
    exact h.apart.indexed
  · rw [hreserved]
    exact h.apart.lengths
  · rw [hreserved]
    exact h.apart.extents
  · rw [howner]
    exact h.slot
  · rw [howner]
    exact h.key

/-! ## Runs -/

/-- Every step that keeps index and extents. -/
theorem Represents.step {e : KvEvent} {s' : KvRun} (h : Represents hash storageSize s dict)
    (hsize : storageSize + 2 ^ 20 < 2 ^ 64) (hkeeps : KeepsDictionary hash s e)
    (hstep : KvStep hash s e s') : Represents hash storageSize s' (dict.after e) := by
  obtain ⟨born, now, hindexed⟩ := h.apart.indexed
  cases hstep with
  | @batched store ftl' hok =>
    obtain ⟨hfits, hlength⟩ := hkeeps
    refine h.stored hsize hfits (fun slot hlive howned => ?_)
      (hindexed.performKvBatchedIo hfits.notAliased
        (Nat.le_trans store.key_max (by decide)) hok) _
    rw [if_neg fun hboth => Bool.false_ne_true hboth.1]
    exact (hlength slot hlive howned).symm
  | @io cmd value r hok =>
    obtain ⟨hstore, hdelete⟩ := hkeeps
    cases hop : cmd.opcode with
    | store =>
      rw [KvDictionary.after_store hop]
      obtain ⟨hfits, hlength⟩ := hstore hop
      obtain ⟨hstored, _⟩ := hindexed.performStore hop hfits.notAliased hok
      refine h.stored hsize hfits (fun slot hlive howned => ?_) hstored _
      by_cases hsame : cmd.valueLength = (s.ftl.kvMappingTable slot).length
      · rw [← hsame]
        exact ite_self _
      · rcases hlength slot hlive howned with heq | hsmall
        · exact absurd heq hsame
        · exact if_pos ⟨rfl, hsame, hsmall⟩
    | delete =>
      rw [KvDictionary.after_delete hop]
      obtain ⟨hkey, hneed⟩ := hdelete hop
      rcases hindexed.performDelete hop hkey hok with ⟨slot, hlive, howned, hr⟩ | ⟨hnew, hr⟩
      · rw [hr]
        exact h.wiped hlive howned (hneed slot hlive howned) _
      · have hnone : Function.update dict cmd.key none = dict := by
          rw [← h.absent hnew]
          exact Function.update_eq_self ..
        rw [hr, hnone]
        exact h.unchanged cmd.key cmd.valueLength _
    | retrieve | exist | other =>
      have hstore' : cmd.opcode ≠ .store := by rw [hop]; decide
      have hdelete' : cmd.opcode ≠ .delete := by rw [hop]; decide
      rw [KvFtl.performKvIo_unchanged hstore' hdelete' hok,
        KvDictionary.after_other hstore' hdelete']
      exact h.unchanged cmd.key cmd.valueLength _

/-- An empty table has the empty dictionary. -/
theorem represents_init (hslots : 0 < hashSlots)
    (hs : (kvRuns hash hashSlots storageSize storage).init s) :
    Represents hash storageSize s fun _ => none := by
  obtain ⟨hftl, _⟩ := hs
  have hdead : ∀ t, s.ftl.links.live t ≠ true := by
    rw [hftl]
    exact fun _ => Bool.false_ne_true
  refine ⟨⟨?_, ?_, ?_, fun t ht => absurd ht (hdead t), Extents.none hdead⟩,
    fun t ht => absurd ht (hdead t), ?_⟩
  · rw [hftl]
    exact ⟨_, _, indexed_init hslots s.owner⟩
  · rw [hftl]
    rfl
  · rw [hftl]
    exact Nat.zero_le _
  · intro k v hv
    cases hv

theorem represents_of_path (hslots : 0 < hashSlots) (hsize : storageSize + 2 ^ 20 < 2 ^ 64)
    {events : List KvEvent}
    (h : ((kvRuns hash hashSlots storageSize storage).guarded (KeepsDictionary hash)).Path events s) :
    Represents hash storageSize s (dictionaryOf events) := by
  induction h with
  | init hs => exact represents_init hslots hs
  | step _ hstep ih =>
    rw [dictionaryOf_concat]
    exact ih.step hsize hstep.1 hstep.2

/-- The entry of a key that is not aliased has its value. -/
theorem Represents.getMappingEntry (h : Represents hash storageSize s dict)
    (hkey : ¬ Aliased hash s.ftl s.owner key) : ∃ e, s.ftl.getMappingEntry hash key = .ok e ∧
      ((∃ offset, e.memOffset = some offset ∧ dict key = some (s.ftl.copyOut offset e.length)) ∨
        e.memOffset = none ∧ dict key = none) := by
  obtain ⟨_, _, hindexed⟩ := h.apart.indexed
  obtain ⟨e, hget, ⟨t, _, hlive, howner, hoff, hlen⟩ | ⟨_, hnew, hnone⟩⟩ :=
    hindexed.getMappingEntry hkey
  · obtain ⟨offset, hoffset⟩ := Option.isSome_iff_exists.mp hlive
    have hstart : s.ftl.startOf t = offset := congrArg (fun o => o.getD 0) hoffset
    refine ⟨e, hget, .inl ⟨offset, hoff.trans hoffset, ?_⟩⟩
    rw [← howner, h.slot t hlive, hlen, ← hstart]
    rfl
  · exact ⟨e, hget, .inr ⟨hnone, h.absent hnew⟩⟩

/-- After any run of such events a command on a key that is not aliased answers as the dictionary of
the run does, and only a store can fail to answer. The events are the commands and batches that keep
the index and the values apart at once; the dictionary is a fold over them that knows nothing of
slots, chains or offsets. Keys have 4 to 16 bytes. -/
theorem kv_store_is_dictionary (hslots : 0 < hashSlots) (hsize : storageSize + 2 ^ 20 < 2 ^ 64)
    {events : List KvEvent}
    (h : ((kvRuns hash hashSlots storageSize storage).guarded (KeepsDictionary hash)).Path events s)
    {cmd : KvCommand} (hkey : ¬ Aliased hash s.ftl s.owner cmd.key) :
    (∀ r, s.ftl.performKvIo hash cmd value = .ok r → r.2 = (dictionaryOf events).answer cmd) ∧
      (cmd.opcode ≠ .store → ∃ r, s.ftl.performKvIo hash cmd value = .ok r) := by
  have hs := represents_of_path hslots hsize h
  generalize dictionaryOf events = dict at hs
  obtain ⟨e, hget, hvalue⟩ := hs.getMappingEntry hkey
  obtain ⟨found, hfind, _⟩ := KvM.of_bind hget
  unfold KvFtl.performKvIo KvDictionary.answer
  rw [hget, KvM.ok_bind]
  rcases hvalue with ⟨offset, hoffset, hdict⟩ | ⟨hoffset, hdict⟩
  · rw [hoffset, hdict]
    cases hop : cmd.opcode with
    | store =>
      refine ⟨fun r hok => ?_, fun hne => absurd rfl hne⟩
      obtain ⟨ftl', _, hr⟩ :=
        KvM.of_bind (show s.ftl.storeUpdate hash cmd value offset e.length = .ok r from hok)
      rw [← Except.ok.inj hr]
    | retrieve =>
      refine ⟨fun r hok => ?_, fun _ => ⟨_, rfl⟩⟩
      rw [← Except.ok.inj hok]
      dsimp only
      rw [s.ftl.copyOut_min, KvFtl.copyOut, List.length_map, List.length_range]
    | exist | other =>
      exact ⟨fun r hok => (congrArg Prod.snd (Except.ok.inj hok)).symm, fun _ => ⟨_, rfl⟩⟩
    | delete =>
      constructor
      · intro r hok
        obtain ⟨ftl', _, hr⟩ := KvM.of_bind
          (show (s.ftl.deleteMappingEntry hash cmd >>= fun ftl' => pure (ftl', _)) = .ok r from hok)
        rw [← Except.ok.inj hr]
      · intro _
        unfold KvFtl.deleteMappingEntry
        rw [hfind]
        cases found with
        | none => exact ⟨_, rfl⟩
        | some slot => exact ⟨_, rfl⟩
  · rw [hoffset, hdict]
    cases hop : cmd.opcode with
    | store =>
      refine ⟨fun r hok => ?_, fun hne => absurd rfl hne⟩
      obtain ⟨ftl', _, hr⟩ := KvM.of_bind (show s.ftl.storeInsert hash cmd value = .ok r from hok)
      rw [← Except.ok.inj hr]
    | retrieve | exist | delete | other =>
      exact ⟨fun r hok => (congrArg Prod.snd (Except.ok.inj hok)).symm, fun _ => ⟨_, rfl⟩⟩

end Runs

section Shipped

def readAkcl : KvCommand := ⟨.retrieve, akcl, 2, akcl_min, akcl_max, twoWords_lt⟩

/-- A value is read back. -/
theorem kv_store_is_dictionary_stored : ∃ s r,
    (shippedRuns.guarded (KeepsDictionary hashFunction)).Path [.io storeAkcl fun _ => 1] s ∧
      s.ftl.performKvIo hashFunction readAkcl (fun _ => 0) = .ok r ∧ r.2.sent = [1, 1, 1, 1] := by
  have hrun : ∃ r, shippedStart.ftl.performKvIo hashFunction storeAkcl (fun _ => 1) = .ok r :=
    ⟨_, rfl⟩
  obtain ⟨r, hr⟩ := hrun
  have hfits : HasRoom hashFunction shippedStart akcl storeAkcl.valueLength :=
    ⟨not_aliased_start _ _, fun t ht => absurd ht Bool.false_ne_true, fun _ => by decide⟩
  have hkeeps : KeepsDictionary hashFunction shippedStart (.io storeAkcl fun _ => 1) :=
    ⟨fun _ => ⟨hfits, fun t ht => absurd ht Bool.false_ne_true⟩, fun hop => KvOpcode.noConfusion hop⟩
  have hstart : (shippedRuns.guarded (KeepsDictionary hashFunction)).Path [] shippedStart :=
    .init shippedStart_init
  have hpath := hstart.step ⟨hkeeps, .io hr⟩
  -- every live slot was filled by this store
  have hkey : ¬ Aliased hashFunction r.1
      (shippedStart.after r.1 akcl 4 (shippedStart.mapAfter storeAkcl)).owner readAkcl.key := by
    rintro ⟨slot, hleads, _, hother⟩
    apply hother
    apply if_pos
    show (r.1.links.live slot && !shippedStart.ftl.links.live slot) = true
    have hlive : r.1.links.live slot = true := hleads.live_end
    rw [hlive]
    rfl
  obtain ⟨hanswer, hok⟩ := @kv_store_is_dictionary _ _ _ _ _ (fun _ => 0) (by decide) (by decide) _
    hpath readAkcl hkey
  obtain ⟨r', hr'⟩ := hok (by decide)
  exact ⟨_, r', hpath, hr', congrArg KvAnswer.sent (hanswer r' hr')⟩

end Shipped

end NvmeVirt

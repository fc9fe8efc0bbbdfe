import NvmeVirt.Laws.Kv.Walks

/-!
# The chains of the key-value index

`owner` names the key each live slot was filled for: the table itself does not keep the length of a
key. A table is `Indexed` when every live slot is on the chain of its key, no two belong to one key,
and every link between live slots leads to one that was filled later (`born`). Filling a free slot,
wiping one that no other key's chain passes, and changing a length keep this.

A search compares as many bytes as the key it looks for has. It goes wrong only on a key that is
`Aliased`: a slot of another key, before the key's own, begins with its bytes.
-/

set_option autoImplicit false

namespace NvmeVirt

/-- A slot of another key begins with the bytes of `key`, and none before it on the chain of `key`
belongs to `key`. -/
def Aliased (hash : List UInt8 → Nat) (ftl : KvFtl) (owner : Nat → List UInt8) (key : List UInt8) :
    Prop :=
  ∃ s, ftl.links.Leads (fun t => owner t = key) (ftl.home hash key) s ∧
    (ftl.kvMappingTable s).key.take key.length = key ∧ owner s ≠ key

structure Indexed (hash : List UInt8 → Nat) (ftl : KvFtl) (owner : Nat → List UInt8)
    (born : Nat → Nat) (now : Nat) : Prop where
  slots : 0 < ftl.hashSlots
  inRange : ∀ s, ftl.links.live s = true → s < ftl.hashSlots
  field : ∀ s, ftl.links.live s = true → ftl.holds (owner s) s = true
  unlinked : ∀ s, ftl.links.live s = false → ftl.links.next s = none
  younger : ∀ s t, ftl.links.live s = true → ftl.links.next s = some t → ftl.links.live t = true →
    born s < born t
  past : ∀ s, ftl.links.live s = true → born s < now
  reached : ∀ s, ftl.links.live s = true →
    ftl.links.Leads (fun _ => False) (ftl.home hash (owner s)) s
  distinct : ∀ s t, ftl.links.live s = true → ftl.links.live t = true → owner s = owner t → s = t

section Search

variable {hash : List UInt8 → Nat} {ftl : KvFtl} {owner : Nat → List UInt8} {born : Nat → Nat}
  {now s : Nat} {key : List UInt8}

theorem KvFtl.holds_iff : ftl.holds key s = true ↔
    (ftl.kvMappingTable s).key.take key.length = key := beq_iff_eq

theorem Indexed.linked (h : Indexed hash ftl owner born now) : Linked ftl born now :=
  ⟨h.inRange, h.unlinked, h.younger, h.past⟩

theorem Indexed.getHashSlot (h : Indexed hash ftl owner born now) (key : List UInt8) :
    ftl.getHashSlot hash key = .ok (ftl.home hash key) :=
  if_neg (Nat.pos_iff_ne_zero.mp h.slots)

/-- The search comes to an end. -/
theorem Indexed.exists_findSlot (h : Indexed hash ftl owner born now) (key : List UInt8) :
    ∃ r, ftl.links.seek (ftl.holds key) (ftl.hashSlots + 1) (ftl.home hash key) = some r ∧
      ftl.findSlot hash key = .ok r := by
  obtain ⟨r, hr⟩ := h.linked.seek_ends (ftl.holds key) (ftl.home hash key)
  refine ⟨r, hr, ?_⟩
  unfold KvFtl.findSlot
  rw [h.getHashSlot, KvM.ok_bind, hr]
  rfl

/-- The slot of the key, or none when there is no such slot. -/
def IsSlotOf (ftl : KvFtl) (owner : Nat → List UInt8) (key : List UInt8) : Option Nat → Prop
  | some s => ftl.links.live s = true ∧ owner s = key
  | none => ∀ s, ftl.links.live s = true → owner s ≠ key

/-- The search finds the slot of a key that is not aliased. -/
theorem Indexed.findSlot (h : Indexed hash ftl owner born now)
    (hkey : ¬ Aliased hash ftl owner key) :
    ∃ r, ftl.findSlot hash key = .ok r ∧ IsSlotOf ftl owner key r := by
  obtain ⟨r, hseek, hfind⟩ := h.exists_findSlot key
  refine ⟨r, hfind, ?_⟩
  cases r with
  | none =>
    intro s hlive howner
    have hleads := h.reached s hlive
    have hfield := h.field s hlive
    rw [howner] at hleads hfield
    rw [Links.seek_none hseek hleads] at hfield
    exact nomatch hfield
  | some s =>
    obtain ⟨hholds, hleads⟩ := Links.seek_found hseek
    refine ⟨hleads.live_end, Decidable.byContradiction fun hother => hkey ⟨s, ?_, ?_, hother⟩⟩
    · apply hleads.map hleads.live_end
      intro x y hx hout hnext _
      refine ⟨hx, fun howner => hout ?_, hnext⟩
      rw [← howner]
      exact h.field x hx
    · exact KvFtl.holds_iff.mp hholds

/-- What `get_mapping_entry` returns for a key that is not aliased. -/
theorem Indexed.getMappingEntry (h : Indexed hash ftl owner born now)
    (hkey : ¬ Aliased hash ftl owner key) :
    ∃ e, ftl.getMappingEntry hash key = .ok e ∧
      ((∃ s, ftl.findSlot hash key = .ok (some s) ∧ ftl.links.live s = true ∧ owner s = key ∧
          e.memOffset = (ftl.kvMappingTable s).memOffset ∧
          e.length = (ftl.kvMappingTable s).length) ∨
        ftl.findSlot hash key = .ok none ∧ (∀ s, ftl.links.live s = true → owner s ≠ key) ∧
          e.memOffset = none) := by
  obtain ⟨r, hfind, hr⟩ := h.findSlot hkey
  unfold KvFtl.getMappingEntry
  rw [hfind]
  cases r with
  | none => exact ⟨_, rfl, .inr ⟨rfl, hr, rfl⟩⟩
  | some s => exact ⟨_, rfl, .inl ⟨s, rfl, hr.1, hr.2, rfl, rfl⟩⟩

end Search

/-! ## Changes of the table -/

section Changes

variable {hash : List UInt8 → Nat} {ftl ftl' : KvFtl} {owner : Nat → List UInt8} {born : Nat → Nat}
  {now slot s : Nat} {key : List UInt8} {valLen valOffset : Nat}

/-- Other data of the FTL play no part. -/
theorem Indexed.congr (h : Indexed hash ftl owner born now)
    (htable : ftl'.kvMappingTable = ftl.kvMappingTable) (hslots : ftl'.hashSlots = ftl.hashSlots) :
    Indexed hash ftl' owner born now := by
  cases ftl
  cases ftl'
  dsimp only at htable hslots
  subst htable hslots
  exact ⟨h.slots, h.inRange, h.field, h.unlinked, h.younger, h.past, h.reached, h.distinct⟩

section Filled

variable {link : Option Nat}

/-- A free slot is filled for a new key. -/
theorem Indexed.fill (h : Indexed hash ftl owner born now) (hfree : ftl.links.live slot = false)
    (hslot : slot < ftl.hashSlots) (hnew : ∀ s, ftl.links.live s = true → owner s ≠ key)
    (hend : IsEndOf hash ftl key slot link) :
    Indexed hash (ftl.filled slot key valLen valOffset link) (Function.update owner slot key)
      (Function.update born slot now) (now + 1) := by
  have hne : ∀ s, ftl.links.live s = true → s ≠ slot := by
    intro s hs he
    rw [he, hfree] at hs
    exact nomatch hs
  have hslots := ftl.filled_hashSlots slot key valLen valOffset link
  have hhome : (ftl.filled slot key valLen valOffset link).home hash = ftl.home hash := by
    unfold KvFtl.home
    rw [hslots]
  have hlinked : Linked (ftl.filled slot key valLen valOffset link) (Function.update born slot now)
      (now + 1) := h.linked.fill hfree hslot hend.loose
  have hlive : ∀ s, ftl.links.live s = true →
      (ftl.filled slot key valLen valOffset link).links.live s = true := by
    intro s hs
    rw [ftl.filled_live, if_neg (hne s hs)]
    exact hs
  have hself : (ftl.filled slot key valLen valOffset link).links.live slot = true := by
    rw [ftl.filled_live, if_pos rfl]
  have hkept : ∀ x y, ftl.links.live x = true → ftl.links.next x = some y →
      ftl.links.live y = true →
      (ftl.filled slot key valLen valOffset link).links.next x = some y := by
    intro x y hx hnext hy
    rw [ftl.filled_next, if_neg]
    · exact hnext
    · intro hlink
      rw [hlink] at hend
      rw [hend.2 y hnext] at hy
      exact nomatch hy
  have hleads : ∀ a b, ftl.links.Leads (fun _ => False) a b →
      (ftl.filled slot key valLen valOffset link).links.Leads (fun _ => False) a b := by
    intro a b hab
    exact hab.map (hlive b hab.live_end) fun x y hx hout hnext hy =>
      ⟨hlive x hx, hout, hkept x y hx hnext hy⟩
  refine ⟨?_, hlinked.inRange, ?_, hlinked.unlinked, hlinked.younger, hlinked.past, ?_, ?_⟩
  · rw [hslots]
    exact h.slots
  · intro s hs
    apply KvFtl.holds_iff.mpr
    rcases KvFtl.filled_cases hs with rfl | ⟨hold, hs'⟩
    · rw [Function.update_self, (ftl.filled_entry valLen valOffset).key]
      exact List.take_left
    · rw [Function.update_of_ne hs', (ftl.filled_other valLen valOffset hs').key]
      exact KvFtl.holds_iff.mp (h.field s hold)
  · intro s hs
    rw [hhome]
    rcases KvFtl.filled_cases hs with rfl | ⟨hold, hs'⟩
    · rw [Function.update_self]
      cases link with
      | none =>
        have hstart : ftl.home hash key = s := hend
        rw [hstart]
        exact .here hself
      | some prev =>
        apply (hleads _ _ hend.1).snoc not_false _ hself
        rw [ftl.filled_next, if_pos rfl]
    · rw [Function.update_of_ne hs']
      exact hleads _ _ (h.reached s hold)
  · intro s t hs ht howner
    rcases KvFtl.filled_cases hs with rfl | ⟨hold, hs'⟩
    · rcases KvFtl.filled_cases ht with rfl | ⟨hold', ht'⟩
      · rfl
      · rw [Function.update_self, Function.update_of_ne ht'] at howner
        exact absurd howner.symm (hnew t hold')
    · rcases KvFtl.filled_cases ht with rfl | ⟨hold', ht'⟩
      · rw [Function.update_self, Function.update_of_ne hs'] at howner
        exact absurd howner (hnew s hold)
      · rw [Function.update_of_ne hs', Function.update_of_ne ht'] at howner
        exact h.distinct s t hold hold' howner

/-- A new key that gets into the table is in a slot that was free, at the end of its chain. -/
theorem Indexed.newMappingEntryByKey (h : Indexed hash ftl owner born now)
    (hnew : ∀ s, ftl.links.live s = true → owner s ≠ key) (hfits : key.length ≤ 24)
    (hok : ftl.newMappingEntryByKey hash key valLen valOffset = .ok ftl') :
    valOffset < ftl.storageSize ∧ ∃ slot link, ftl.links.live slot = false ∧
      ftl' = ftl.filled slot key valLen valOffset link ∧
      Indexed hash ftl' (Function.update owner slot key) (Function.update born slot now) (now + 1) := by
  obtain ⟨hsize, slot, link, hfree, hslot, hend, hftl'⟩ :=
    h.linked.inserted (Nat.le_trans hfits (by decide)) hok
  rw [List.take_of_length_le hfits] at hftl'
  refine ⟨hsize, slot, link, hfree, hftl', ?_⟩
  rw [hftl']
  exact h.fill hfree hslot hnew hend

end Filled

/-! ### Wiping a slot, changing a length -/

/-- No other key's chain passes the slot before its own. -/
def Unneeded (hash : List UInt8 → Nat) (ftl : KvFtl) (owner : Nat → List UInt8) (slot : Nat) : Prop :=
  ∀ s, ftl.links.live s = true → s ≠ slot →
    ftl.links.Leads (fun t => t = slot) (ftl.home hash (owner s)) s

theorem Indexed.wipe (h : Indexed hash ftl owner born now) (hslot : Unneeded hash ftl owner slot) :
    Indexed hash (ftl.setEntry slot wipedEntry) owner born now := by
  have hlinked := h.linked.wipe slot
  refine ⟨h.slots, hlinked.inRange, ?_, hlinked.unlinked, hlinked.younger, hlinked.past, ?_, ?_⟩
  · intro s hs
    obtain ⟨hne, hold⟩ := KvFtl.wiped_cases hs
    apply KvFtl.holds_iff.mpr
    rw [ftl.setEntry_other _ hne]
    exact KvFtl.holds_iff.mp (h.field s hold)
  · intro s hs
    obtain ⟨hne, hold⟩ := KvFtl.wiped_cases hs
    apply (hslot s hold hne).map hs
    intro x y hx hout hnext _
    refine ⟨?_, not_false, ?_⟩
    · rw [ftl.wiped_live, if_neg hout]
      exact hx
    · rw [ftl.wiped_next, if_neg hout]
      exact hnext
  · exact fun s t hs ht => h.distinct s t (KvFtl.wiped_cases hs).2 (KvFtl.wiped_cases ht).2

theorem Indexed.setLength (h : Indexed hash ftl owner born now) (slot length : Nat) :
    Indexed hash (ftl.setEntry slot { ftl.kvMappingTable slot with length }) owner born now := by
  have hlinks := ftl.setLength_links slot length
  have hholds : (ftl.setEntry slot { ftl.kvMappingTable slot with length }).holds = ftl.holds := by
    funext key s
    obtain ⟨_, he⟩ := ftl.setLength_entry slot length s
    unfold KvFtl.holds
    rw [he]
  constructor
  · exact h.slots
  · rw [hlinks]
    exact h.inRange
  · rw [hlinks, hholds]
    exact h.field
  · rw [hlinks]
    exact h.unlinked
  · rw [hlinks]
    exact h.younger
  · rw [hlinks]
    exact h.past
  · rw [hlinks]
    exact h.reached
  · rw [hlinks]
    exact h.distinct

end Changes

end NvmeVirt

import Mathlib.Data.List.Chain
import Mathlib.Logic.Relation
import NvmeVirt.Kv.Io

/-!
# Walks over the mapping table

Only three things write links or free a slot: filling a free slot and linking the end of a chain to
it, wiping a slot, and changing a length. They keep the table `Linked`: a free slot has no link, and
a link between slots in use leads to the one that was filled later (`born`). A wiped slot may still
be linked to; what comes to be filled there is again younger than whatever links to it.

So a walk only ever goes to younger slots, and there are no more than `hash_slots` of them: every
walk comes to an end within its fuel, which is why the fuel of the model is never used up
(`Linked.last_ends`). The operations are known by their equations on `live` and `next`, in the simp
set.

A key that reaches the link behind its field (41 bytes and more) is left out here; `Laws/Kv/Tables`
says where the runs with such keys differ.
-/

set_option autoImplicit false

namespace NvmeVirt

/-- Where the chain of the key starts. -/
def KvFtl.home (hash : List UInt8 → Nat) (ftl : KvFtl) (key : List UInt8) : Nat :=
  hash key % ftl.hashSlots

/-- Every slot in use is in the table and was filled before `now`, a free slot has no link, and a link
between two slots in use leads to the younger one. -/
structure Linked (ftl : KvFtl) (born : Nat → Nat) (now : Nat) : Prop where
  inRange : ∀ s, ftl.links.live s = true → s < ftl.hashSlots
  unlinked : ∀ s, ftl.links.live s = false → ftl.links.next s = none
  younger : ∀ s t, ftl.links.live s = true → ftl.links.next s = some t → ftl.links.live t = true →
    born s < born t
  past : ∀ s, ftl.links.live s = true → born s < now

/-! ## Writes to the table -/

section Entries

variable {ftl : KvFtl} {slot s : Nat} {entry : MappingEntry}

theorem KvFtl.setEntry_self (ftl : KvFtl) (slot : Nat) (entry : MappingEntry) :
    (ftl.setEntry slot entry).kvMappingTable slot = entry := Function.update_self ..

theorem KvFtl.setEntry_other (ftl : KvFtl) (entry : MappingEntry) (h : s ≠ slot) :
    (ftl.setEntry slot entry).kvMappingTable s = ftl.kvMappingTable s := Function.update_of_ne h ..

/-- A slot is as it was, but for its link. -/
structure SameEntry (e e' : MappingEntry) : Prop where
  key : e'.key = e.key
  memOffset : e'.memOffset = e.memOffset
  length : e'.length = e.length

theorem SameEntry.refl (e : MappingEntry) : SameEntry e e := ⟨rfl, rfl, rfl⟩

end Entries

/-- The slot with a key that fits the key field and its padding; its link stays. -/
def KvFtl.fillEntry (ftl : KvFtl) (slot : Nat) (key : List UInt8) (valLen valOffset : Nat) : KvFtl :=
  ftl.setEntry slot { ftl.kvMappingTable slot with
    key := key ++ (ftl.kvMappingTable slot).key.drop key.length
    memOffset := some valOffset
    length := valLen }

theorem MappingEntry.overwritten_nil (entry : MappingEntry) : entry.overwritten [] = entry := rfl

/-- A key of up to 40 bytes leaves the link of its slot, and the slots behind it, as they are: the two
fields it may spoil are written after it. -/
theorem KvFtl.fillSlot_eq (ftl : KvFtl) (slot : Nat) {key : List UInt8} (valLen valOffset : Nat)
    (h : key.length ≤ 40) :
    ftl.fillSlot slot key valLen valOffset = ftl.fillEntry slot (key.take 24) valLen valOffset := by
  have hbehind : ∀ s, s ≠ slot → (ftl.copyKey slot key).kvMappingTable s = ftl.kvMappingTable s := by
    intro s hs
    unfold KvFtl.copyKey
    dsimp only
    split
    · rfl
    · have hlen : key.length ≤ mappingEntrySize * (s - slot) := by
        have hone : mappingEntrySize * 1 ≤ mappingEntrySize * (s - slot) :=
          Nat.mul_le_mul_left _ (by omega)
        exact Nat.le_trans (Nat.le_trans h (by decide)) hone
      rw [List.drop_eq_nil_of_le hlen, MappingEntry.overwritten_nil]
  have hown : (ftl.copyKey slot key).kvMappingTable slot =
      (ftl.kvMappingTable slot).overwritten key := by
    unfold KvFtl.copyKey
    dsimp only
    rw [if_neg (Nat.lt_irrefl _), Nat.sub_self, Nat.mul_zero, List.drop_zero]
  have hnext : ((ftl.kvMappingTable slot).overwritten key).nextSlot =
      (ftl.kvMappingTable slot).nextSlot := by
    unfold MappingEntry.overwritten
    rw [List.drop_eq_nil_of_le h]
    rfl
  unfold KvFtl.fillSlot KvFtl.fillEntry KvFtl.setEntry
  dsimp only
  congr 1
  funext s
  by_cases hs : s = slot
  · rw [hs, Function.update_self, Function.update_self, hown, hnext]
    rfl
  · rw [Function.update_of_ne hs, Function.update_of_ne hs, hbehind s hs]

/-- A key that fits the key field and its padding is kept whole. -/
theorem KvFtl.fillSlot_fits (ftl : KvFtl) (slot : Nat) {key : List UInt8} (valLen valOffset : Nat)
    (h : key.length ≤ 24) :
    ftl.fillSlot slot key valLen valOffset = ftl.fillEntry slot key valLen valOffset := by
  rw [ftl.fillSlot_eq slot valLen valOffset (Nat.le_trans h (by decide)), List.take_of_length_le h]

/-- The link from the end of a chain to `slot`, if there is one. -/
def KvFtl.linkTo (ftl : KvFtl) (slot : Nat) : Option Nat → KvFtl
  | none => ftl
  | some prev => ftl.chainMapping prev slot

/-- The FTL with `slot` filled and linked. -/
def KvFtl.filled (ftl : KvFtl) (slot : Nat) (key : List UInt8) (valLen valOffset : Nat)
    (link : Option Nat) : KvFtl :=
  (ftl.fillEntry slot key valLen valOffset).linkTo slot link

section Writes

variable {ftl : KvFtl} {slot s : Nat} {key : List UInt8} {link : Option Nat}

/-- A chain is extended by a link, and no entry changes. -/
theorem KvFtl.chainMapping_entry (ftl : KvFtl) (prev slot s : Nat) :
    SameEntry (ftl.kvMappingTable s) ((ftl.chainMapping prev slot).kvMappingTable s) := by
  unfold KvFtl.chainMapping
  by_cases hs : s = prev
  · subst hs
    rw [KvFtl.setEntry_self]
    exact ⟨rfl, rfl, rfl⟩
  · rw [ftl.setEntry_other _ hs]
    exact .refl _

/-- So it is when the slot is the head of its chain. -/
theorem KvFtl.linkTo_entry (ftl : KvFtl) (slot s : Nat) (link : Option Nat) :
    SameEntry (ftl.kvMappingTable s) ((ftl.linkTo slot link).kvMappingTable s) := by
  cases link with
  | none => exact .refl _
  | some prev => exact ftl.chainMapping_entry prev slot s

/-- Links and lookups see the filled slot, and the others as they were. -/
theorem KvFtl.filled_entry (ftl : KvFtl) (valLen valOffset : Nat) :
    SameEntry { ftl.kvMappingTable slot with
        key := key ++ (ftl.kvMappingTable slot).key.drop key.length
        memOffset := some valOffset, length := valLen }
      ((ftl.filled slot key valLen valOffset link).kvMappingTable slot) := by
  have hlink := (ftl.fillEntry slot key valLen valOffset).linkTo_entry slot slot link
  rw [KvFtl.fillEntry, KvFtl.setEntry_self] at hlink
  exact hlink

/-- Filling a slot leaves the other entries. -/
theorem KvFtl.filled_other (ftl : KvFtl) (valLen valOffset : Nat) (hs : s ≠ slot) :
    SameEntry (ftl.kvMappingTable s)
      ((ftl.filled slot key valLen valOffset link).kvMappingTable s) := by
  have hlink := (ftl.fillEntry slot key valLen valOffset).linkTo_entry slot s link
  rw [KvFtl.fillEntry, ftl.setEntry_other _ hs] at hlink
  exact hlink

theorem KvFtl.filled_live (ftl : KvFtl) (valLen valOffset : Nat) :
    (ftl.filled slot key valLen valOffset link).links.live s =
      if s = slot then true else ftl.links.live s := by
  show ((ftl.filled slot key valLen valOffset link).kvMappingTable s).memOffset.isSome = _
  split
  · rename_i hs
    rw [hs, (ftl.filled_entry valLen valOffset).memOffset]
    rfl
  · rename_i hs
    rw [(ftl.filled_other valLen valOffset hs).memOffset]
    rfl

theorem KvFtl.filled_next (ftl : KvFtl) (valLen valOffset : Nat) :
    (ftl.filled slot key valLen valOffset link).links.next s =
      if link = some s then some slot else ftl.links.next s := by
  have hfill : ((ftl.fillEntry slot key valLen valOffset).kvMappingTable s).nextSlot =
      (ftl.kvMappingTable s).nextSlot := by
    unfold KvFtl.fillEntry
    by_cases hs : s = slot
    · rw [hs, KvFtl.setEntry_self]
    · rw [ftl.setEntry_other _ hs]
  show ((ftl.filled slot key valLen valOffset link).kvMappingTable s).nextSlot = _
  unfold KvFtl.filled
  cases link with
  | none =>
    rw [if_neg nofun]
    exact hfill
  | some prev =>
    by_cases hs : s = prev
    · rw [hs, if_pos rfl]
      exact congrArg MappingEntry.nextSlot (KvFtl.setEntry_self ..)
    · rw [if_neg fun he => hs (Option.some.inj he).symm]
      exact (congrArg MappingEntry.nextSlot (KvFtl.setEntry_other _ _ hs)).trans hfill

theorem KvFtl.filled_hashSlots (ftl : KvFtl) (slot : Nat) (key : List UInt8) (valLen valOffset : Nat)
    (link : Option Nat) : (ftl.filled slot key valLen valOffset link).hashSlots = ftl.hashSlots := by
  cases link <;> rfl

theorem KvFtl.wiped_live (ftl : KvFtl) (slot s : Nat) :
    (ftl.setEntry slot wipedEntry).links.live s = if s = slot then false else ftl.links.live s := by
  show ((ftl.setEntry slot wipedEntry).kvMappingTable s).memOffset.isSome = _
  by_cases hs : s = slot
  · rw [if_pos hs, hs, ftl.setEntry_self]
    rfl
  · rw [if_neg hs, ftl.setEntry_other _ hs]
    rfl

theorem KvFtl.wiped_next (ftl : KvFtl) (slot s : Nat) :
    (ftl.setEntry slot wipedEntry).links.next s = if s = slot then none else ftl.links.next s := by
  show ((ftl.setEntry slot wipedEntry).kvMappingTable s).nextSlot = _
  by_cases hs : s = slot
  · rw [if_pos hs, hs, ftl.setEntry_self]
    rfl
  · rw [if_neg hs, ftl.setEntry_other _ hs]
    rfl

/-- Changing a length changes one length. -/
theorem KvFtl.setLength_entry (ftl : KvFtl) (slot length s : Nat) : ∃ length',
    (ftl.setEntry slot { ftl.kvMappingTable slot with length }).kvMappingTable s =
      { ftl.kvMappingTable s with length := length' } := by
  by_cases hs : s = slot
  · rw [hs, ftl.setEntry_self]
    exact ⟨length, rfl⟩
  · rw [ftl.setEntry_other _ hs]
    exact ⟨_, rfl⟩

/-- A change of a length leaves the links as they are. -/
theorem KvFtl.setLength_links (ftl : KvFtl) (slot length : Nat) :
    (ftl.setEntry slot { ftl.kvMappingTable slot with length }).links = ftl.links := by
  unfold KvFtl.links
  congr 1
  · funext s
    obtain ⟨_, he⟩ := ftl.setLength_entry slot length s
    rw [he]
  · funext s
    obtain ⟨_, he⟩ := ftl.setLength_entry slot length s
    rw [he]

/-- A slot in use is the filled one or was in use before. -/
theorem KvFtl.filled_cases {valLen valOffset : Nat}
    (hs : (ftl.filled slot key valLen valOffset link).links.live s = true) :
    s = slot ∨ ftl.links.live s = true ∧ s ≠ slot := by
  rw [ftl.filled_live] at hs
  by_cases he : s = slot
  · exact .inl he
  · rw [if_neg he] at hs
    exact .inr ⟨hs, he⟩

/-- A slot in use after one was wiped is another and was in use before. -/
theorem KvFtl.wiped_cases (hs : (ftl.setEntry slot wipedEntry).links.live s = true) :
    s ≠ slot ∧ ftl.links.live s = true := by
  rw [ftl.wiped_live] at hs
  split at hs
  · cases hs
  · rename_i hne
    exact ⟨hne, hs⟩

end Writes

/-! ## What keeps the table linked -/

section Linked

variable {hash : List UInt8 → Nat} {ftl ftl' : KvFtl} {born : Nat → Nat} {now slot s t : Nat}
  {key : List UInt8} {valLen valOffset : Nat} {link : Option Nat}

/-- Other data of the FTL play no part. -/
theorem Linked.congr (h : Linked ftl born now) (hlinks : ftl'.links = ftl.links)
    (hslots : ftl'.hashSlots = ftl.hashSlots) : Linked ftl' born now := by
  constructor
  · rw [hlinks, hslots]
    exact h.inRange
  · rw [hlinks]
    exact h.unlinked
  · rw [hlinks]
    exact h.younger
  · rw [hlinks]
    exact h.past

/-- A slot with a link is in use. -/
theorem Linked.live_of_next (h : Linked ftl born now) (hnext : ftl.links.next s = some t) :
    ftl.links.live s = true := by
  cases hs : ftl.links.live s with
  | true => rfl
  | false =>
    rw [h.unlinked s hs] at hnext
    cases hnext

/-- The slot a new one is linked from: one in use, with no link to a slot in use. -/
def Loose (ftl : KvFtl) : Option Nat → Prop
  | none => True
  | some prev => ftl.links.live prev = true ∧
    ∀ t, ftl.links.next prev = some t → ftl.links.live t = false

/-- The end of the chain of `key`, to which a new slot is linked: the home of the key, when it is
free, needs no link. -/
def IsEndOf (hash : List UInt8 → Nat) (ftl : KvFtl) (key : List UInt8) (slot : Nat) :
    Option Nat → Prop
  | none => ftl.home hash key = slot
  | some prev => ftl.links.Leads (fun _ => False) (ftl.home hash key) prev ∧
    ∀ t, ftl.links.next prev = some t → ftl.links.live t = false

/-- The end of a chain has no link. -/
theorem IsEndOf.loose (h : IsEndOf hash ftl key slot link) : Loose ftl link := by
  cases link with
  | none => trivial
  | some prev => exact ⟨h.1.live_end, h.2⟩

/-- A free slot is filled, and linked from a slot without a successor: it is the youngest, and it has
no link itself. -/
theorem Linked.fill (h : Linked ftl born now) (hfree : ftl.links.live slot = false)
    (hslot : slot < ftl.hashSlots) (hlink : Loose ftl link) :
    Linked (ftl.filled slot key valLen valOffset link) (Function.update born slot now)
      (now + 1) := by
  have hprev : ∀ s, link = some s → ftl.links.live s = true := by
    intro s hs
    rw [hs] at hlink
    exact hlink.1
  constructor
  · intro s hs
    rw [ftl.filled_hashSlots]
    rcases KvFtl.filled_cases hs with rfl | ⟨hold, _⟩
    · exact hslot
    · exact h.inRange s hold
  · intro s hs
    rw [ftl.filled_live] at hs
    split at hs
    · cases hs
    · rw [ftl.filled_next, if_neg]
      · exact h.unlinked s hs
      · intro he
        rw [hprev s he] at hs
        cases hs
  · intro s t hs hnext ht
    rcases KvFtl.filled_cases hs with rfl | ⟨hold, hs'⟩
    · rw [ftl.filled_next, if_neg, h.unlinked s hfree] at hnext
      · cases hnext
      · intro he
        rw [hprev s he] at hfree
        cases hfree
    · rw [Function.update_of_ne hs']
      rcases KvFtl.filled_cases ht with rfl | ⟨hold', ht'⟩
      · rw [Function.update_self]
        exact h.past s hold
      · rw [Function.update_of_ne ht']
        rw [ftl.filled_next] at hnext
        split at hnext
        · exact absurd (Option.some.inj hnext).symm ht'
        · exact h.younger s t hold hnext hold'
  · intro s hs
    rcases KvFtl.filled_cases hs with rfl | ⟨hold, hs'⟩
    · rw [Function.update_self]
      exact Nat.lt_succ_self now
    · rw [Function.update_of_ne hs']
      exact Nat.lt_succ_of_lt (h.past s hold)

/-- Any slot may be wiped: links to it are left dangling. -/
theorem Linked.wipe (h : Linked ftl born now) (slot : Nat) :
    Linked (ftl.setEntry slot wipedEntry) born now := by
  constructor
  · exact fun s hs => h.inRange s (KvFtl.wiped_cases hs).2
  · intro s hs
    rw [ftl.wiped_next]
    split
    · rfl
    · rename_i hne
      rw [ftl.wiped_live, if_neg hne] at hs
      exact h.unlinked s hs
  · intro s t hs hnext ht
    obtain ⟨hne, hold⟩ := KvFtl.wiped_cases hs
    rw [ftl.wiped_next, if_neg hne] at hnext
    exact h.younger s t hold hnext (KvFtl.wiped_cases ht).2
  · exact fun s hs => h.past s (KvFtl.wiped_cases hs).2

/-- Lengths play no part in the links. -/
theorem Linked.setLength (h : Linked ftl born now) (slot length : Nat) :
    Linked (ftl.setEntry slot { ftl.kvMappingTable slot with length }) born now :=
  h.congr (ftl.setLength_links slot length) rfl

/-! ## Walks end -/

/-- Links lead to younger slots. -/
theorem Linked.ranked (h : Linked ftl born now) :
    ftl.links.Ranked (Finset.range ftl.hashSlots) born :=
  ⟨fun s hs => Finset.mem_range.mpr (h.inRange s hs), h.younger⟩

/-- There is fuel for as many slots as are younger. -/
theorem Linked.enough (h : Linked ftl born now) (s : Nat) :
    if ftl.links.live s = true then
      Links.youngerThan (Finset.range ftl.hashSlots) born s + 2 ≤ ftl.hashSlots + 1
    else 1 ≤ ftl.hashSlots + 1 :=
  h.ranked.enough s (by rw [Finset.card_range])

/-- The search loop comes to an end, wherever it starts. -/
theorem Linked.seek_ends (h : Linked ftl born now) (found : Nat → Bool) (s : Nat) :
    ∃ r, ftl.links.seek found (ftl.hashSlots + 1) s = some r :=
  h.ranked.seek_ends found (h.enough s)

/-- So the walk to the end of a chain ends. -/
theorem Linked.last_ends (h : Linked ftl born now) (s : Nat) :
    ∃ r, ftl.links.last (ftl.hashSlots + 1) s s = some r :=
  h.ranked.last_ends s (h.enough s)

/-- The order in which the slots were filled goes along with the links. -/
theorem Linked.born_lt (h : Linked ftl born now)
    (hpath : Relation.TransGen (fun a b => ftl.links.next a = some b) s t)
    (ht : ftl.links.live t = true) : born s < born t := by
  induction hpath with
  | single hnext => exact h.younger _ _ (h.live_of_next hnext) hnext ht
  | @tail b c _ hnext ih =>
    have hb : ftl.links.live b = true := h.live_of_next hnext
    exact Nat.lt_trans (ih hb) (h.younger b c hb hnext ht)

/-- No link leads back to a slot it comes from. -/
theorem Linked.acyclic (h : Linked ftl born now) (s : Nat) :
    ¬ Relation.TransGen (fun a b => ftl.links.next a = some b) s s := by
  intro hcycle
  obtain ⟨t, hnext, _⟩ := Relation.TransGen.head'_iff.mp hcycle
  exact Nat.lt_irrefl _ (h.born_lt hcycle (h.live_of_next hnext))

/-- The slots a walk goes through, one linked from the other. -/
def KvFtl.IsWalk (ftl : KvFtl) (walk : List Nat) : Prop :=
  walk.IsChain (fun a b => ftl.links.next a = some b) ∧ ∀ s ∈ walk, ftl.links.live s = true

/-- A walk goes through no slot twice, and through at most `hash_slots` of them. -/
theorem Linked.walk_bound (h : Linked ftl born now) {walk : List Nat} (hwalk : ftl.IsWalk walk) :
    walk.Nodup ∧ walk.length ≤ ftl.hashSlots := by
  obtain ⟨hchain, hlive⟩ := hwalk
  have hborn : walk.IsChain (fun a b => born a < born b) := by
    apply hchain.imp_of_mem_imp
    intro a b ha hb hnext
    exact h.younger a b (hlive a ha) hnext (hlive b hb)
  have hnodup : walk.Nodup := by
    have hpair : walk.Pairwise (fun a b => born a < born b) := by
      have : IsTrans Nat (fun a b => born a < born b) := ⟨fun _ _ _ => Nat.lt_trans⟩
      exact List.isChain_iff_pairwise.mp hborn
    apply hpair.imp
    intro a b hlt hab
    rw [hab] at hlt
    exact Nat.lt_irrefl _ hlt
  refine ⟨hnodup, ?_⟩
  rw [← List.toFinset_card_of_nodup hnodup, ← Finset.card_range ftl.hashSlots]
  apply Finset.card_le_card
  intro s hs
  exact Finset.mem_range.mpr (h.inRange s (hlive s (List.mem_toFinset.mp hs)))

/-! ## Probes end -/

/-- The probe stops at a free slot. -/
theorem KvFtl.probe_stops {passes a : Nat} (h : ftl.probe passes a = some slot) :
    ftl.links.live slot = false := by
  induction passes generalizing a with
  | zero => cases h
  | succ passes ih =>
    unfold KvFtl.probe at h
    split at h
    · exact ih h
    · rename_i hfree
      obtain rfl := Option.some.inj h
      exact Bool.eq_false_iff.mpr hfree

/-- The probe stays in the table. -/
theorem KvFtl.probe_lt {passes a : Nat} (ha : a < ftl.hashSlots)
    (h : ftl.probe passes a = some slot) : slot < ftl.hashSlots := by
  induction passes generalizing a with
  | zero => cases h
  | succ passes ih =>
    unfold KvFtl.probe at h
    split at h
    · apply ih _ h
      split <;> omega
    · obtain rfl := Option.some.inj h
      exact ha

/-- The probe comes past every slot, and so to a free one if there is any. -/
theorem KvFtl.probe_ends {passes a free : Nat} (hfree : ftl.links.live free = false)
    (hlt : free < ftl.hashSlots) (ha : a < ftl.hashSlots)
    (hpasses : (if a ≤ free then free - a else ftl.hashSlots - a + free) < passes) :
    ∃ slot, ftl.probe passes a = some slot := by
  induction passes generalizing a with
  | zero => omega
  | succ passes ih =>
    unfold KvFtl.probe
    by_cases hlive : ftl.links.live a = true
    · rw [if_pos hlive]
      have hne : a ≠ free := by
        intro he
        rw [he, hfree] at hlive
        cases hlive
      apply ih
      · split <;> omega
      · split at hpasses <;> split <;> split <;> omega
    · rw [if_neg hlive]
      exact ⟨a, rfl⟩

/-- `find_next_slot` from a slot in use, while a slot is free: a free slot, and the end of the chain. -/
theorem Linked.findNextSlot (h : Linked ftl born now) {start free : Nat}
    (hstart : ftl.links.live start = true) (hfree : ftl.links.live free = false)
    (hlt : free < ftl.hashSlots) :
    ∃ slot prev, ftl.findNextSlot start = .ok (slot, prev) ∧
      ftl.links.live slot = false ∧ slot < ftl.hashSlots ∧ slot ≠ prev ∧
      ftl.links.Leads (fun _ => False) start prev ∧
      ∀ t, ftl.links.next prev = some t → ftl.links.live t = false := by
  obtain ⟨prev, hlast⟩ := h.last_ends start
  obtain ⟨hleads, hdead⟩ := Links.last_spec hlast hstart
  have hprev := h.inRange prev hleads.live_end
  obtain ⟨slot, hprobe⟩ := KvFtl.probe_ends hfree hlt hprev
    (show _ < ftl.hashSlots + 1 by split <;> omega)
  have hslot := KvFtl.probe_stops hprobe
  refine ⟨slot, prev, ?_, hslot, KvFtl.probe_lt hprev hprobe, ?_, hleads, hdead⟩
  · unfold KvFtl.findNextSlot
    rw [hlast]
    dsimp only
    rw [hprobe]
    rfl
  · intro he
    rw [he, hleads.live_end] at hslot
    cases hslot

/-! ## The operations of the table -/

theorem KvFtl.getHashSlot_of_pos (hash : List UInt8 → Nat) (ftl : KvFtl) (key : List UInt8)
    (h : 0 < ftl.hashSlots) : ftl.getHashSlot hash key = .ok (ftl.home hash key) :=
  if_neg (Nat.pos_iff_ne_zero.mp h)

/-- Without slots the modulus is a division by zero. -/
theorem KvFtl.getHashSlot_of_zero (hash : List UInt8 → Nat) (ftl : KvFtl) (key : List UInt8)
    (h : ftl.hashSlots = 0) : ftl.getHashSlot hash key = .error .divideByZero := if_pos h

/-- The search of a key answers, but for a table without slots. -/
theorem Linked.findSlot (h : Linked ftl born now) (hpos : 0 < ftl.hashSlots) (key : List UInt8) :
    ∃ r, ftl.findSlot hash key = .ok r := by
  obtain ⟨r, hr⟩ := h.seek_ends (ftl.holds key) (ftl.home hash key)
  refine ⟨r, ?_⟩
  unfold KvFtl.findSlot
  rw [ftl.getHashSlot_of_pos hash key hpos, KvM.ok_bind, hr]
  rfl

/-- What an insert that answers has done: it filled a free slot and linked the end of the chain to
it. -/
theorem Linked.inserted (h : Linked ftl born now) (hkey : key.length ≤ 40)
    (hok : ftl.newMappingEntryByKey hash key valLen valOffset = .ok ftl') :
    valOffset < ftl.storageSize ∧ ∃ slot link, ftl.links.live slot = false ∧
      slot < ftl.hashSlots ∧ IsEndOf hash ftl key slot link ∧
      ftl' = ftl.filled slot (key.take 24) valLen valOffset link := by
  unfold KvFtl.newMappingEntryByKey at hok
  by_cases hsize : ftl.storageSize ≤ valOffset
  · rw [if_pos hsize] at hok
    cases hok
  rw [if_neg hsize] at hok
  refine ⟨Nat.lt_of_not_le hsize, ?_⟩
  rcases Nat.eq_zero_or_pos ftl.hashSlots with hzero | hpos
  · rw [ftl.getHashSlot_of_zero hash key hzero] at hok
    cases hok
  rw [ftl.getHashSlot_of_pos hash key hpos] at hok
  have hbind : (if ftl.links.live (ftl.home hash key) = true then
        ftl.findNextSlot (ftl.home hash key) >>= fun r =>
          pure ((ftl.fillSlot r.1 key valLen valOffset).chainMapping r.2 r.1)
      else pure (ftl.fillSlot (ftl.home hash key) key valLen valOffset) : KvM KvFtl) =
      .ok ftl' := hok
  by_cases hbusy : ftl.links.live (ftl.home hash key) = true
  · rw [if_pos hbusy] at hbind
    unfold KvFtl.findNextSlot at hbind
    cases hlast : ftl.links.last (ftl.hashSlots + 1) (ftl.home hash key) (ftl.home hash key) with
    | none =>
      rw [hlast] at hbind
      cases hbind
    | some prev =>
      rw [hlast] at hbind
      dsimp only at hbind
      obtain ⟨hleads, hdead⟩ := Links.last_spec hlast hbusy
      cases hprobe : ftl.probe (ftl.hashSlots + 1) prev with
      | none =>
        rw [hprobe] at hbind
        cases hbind
      | some slot =>
        rw [hprobe] at hbind
        have hslot := KvFtl.probe_lt (h.inRange prev hleads.live_end) hprobe
        have hftl' : (ftl.fillSlot slot key valLen valOffset).chainMapping prev slot = ftl' :=
          Except.ok.inj hbind
        rw [ftl.fillSlot_eq slot valLen valOffset hkey] at hftl'
        exact ⟨slot, some prev, KvFtl.probe_stops hprobe, hslot, ⟨hleads, hdead⟩, hftl'.symm⟩
  · rw [if_neg hbusy] at hbind
    have hfree := Bool.eq_false_iff.mpr hbusy
    have hftl' : ftl.fillSlot (ftl.home hash key) key valLen valOffset = ftl' := Except.ok.inj hbind
    rw [ftl.fillSlot_eq _ valLen valOffset hkey] at hftl'
    exact ⟨ftl.home hash key, none, hfree, Nat.mod_lt _ hpos, rfl, hftl'.symm⟩

/-- An insert answers while a slot is free and the offset lies in the storage. -/
theorem Linked.insert_answers (h : Linked ftl born now) {free : Nat}
    (hfree : ftl.links.live free = false) (hlt : free < ftl.hashSlots)
    (hsize : valOffset < ftl.storageSize) :
    ∃ ftl', ftl.newMappingEntryByKey hash key valLen valOffset = .ok ftl' := by
  unfold KvFtl.newMappingEntryByKey
  rw [if_neg (Nat.not_le_of_lt hsize),
    ftl.getHashSlot_of_pos hash key (Nat.lt_of_le_of_lt (Nat.zero_le _) hlt), KvM.ok_bind]
  by_cases hbusy : ftl.links.live (ftl.home hash key) = true
  · rw [if_pos hbusy]
    obtain ⟨slot, prev, hnext, _⟩ := h.findNextSlot hbusy hfree hlt
    rw [hnext]
    exact ⟨_, rfl⟩
  · rw [if_neg hbusy]
    exact ⟨_, rfl⟩

end Linked

end NvmeVirt

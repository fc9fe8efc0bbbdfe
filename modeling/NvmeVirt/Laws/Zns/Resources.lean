import NvmeVirt.Lib.Tally
import NvmeVirt.Zns.MgmtSend

/-!
# Zone resources

A zone holds units of the three resources according to its state. While an operation is under way on
one zone its descriptor and the counters are out of step, so the operations are specified by what
the zone is charged for (`Charged`): the counters are what the other zones hold, and these units.

An operation starts with the zone charged for what it holds (`Tallied.charged`) and ends where it
holds what it is charged for (`Charged.tallied`); in between units are taken and given back
(`Charged.acquire`, `Charged.release`). Units that are lost on the way are counted as a leak of the
ZRWA resource; the other two lose none.
-/

set_option autoImplicit false

namespace NvmeVirt

/-- `ZONE_STATE_OPENED_IMPL` and `ZONE_STATE_OPENED_EXPL`. -/
def ZoneState.isOpen : ZoneState → Bool
  | .openedImpl | .openedExpl => true
  | _ => false

/-- An open or a closed zone. -/
def ZoneState.isActive : ZoneState → Bool
  | .openedImpl | .openedExpl | .closed => true
  | _ => false

/-- The resources a zone holds a unit of. -/
def ZoneDescriptor.holds (d : ZoneDescriptor) : ZoneResourceType → Bool
  | .openZone => d.state.isOpen
  | .activeZone => d.state.isActive
  | .zrwaZone => d.zrwav && d.state.isActive

/-- An empty zone holds nothing. -/
theorem ZoneDescriptor.holds_empty {d : ZoneDescriptor} (h : d.state = .empty)
    (k : ZoneResourceType) : d.holds k = false := by
  cases k <;> simp [ZoneDescriptor.holds, ZoneState.isOpen, ZoneState.isActive, h]

namespace ZnsFtl

/-- The zones. -/
def zones (ftl : ZnsFtl) : Finset Nat := Finset.range ftl.zp.nrZones

/-- How many zones hold a unit of `type`. -/
def heldCnt (ftl : ZnsFtl) (type : ZoneResourceType) : Nat :=
  tally ftl.zones (fun z => (ftl.zoneDescs z).holds type) true

/-- How many zones besides `zid` do. -/
def heldElsewhere (ftl : ZnsFtl) (zid : Nat) (type : ZoneResourceType) : Nat :=
  tally (ftl.zones.erase zid) (fun z => (ftl.zoneDescs z).holds type) true

end ZnsFtl

/-- Units of the ZRWA resource that no zone holds. -/
def leaked (leak : Nat) : ZoneResourceType → Nat
  | .zrwaZone => leak
  | _ => 0

/-- The counters agree with the zones, but for `leak` units of the ZRWA resource. -/
structure Tallied (leak : Nat) (ftl : ZnsFtl) : Prop where
  acquired : ∀ k, (ftl.resInfos k).acquiredCnt = ftl.heldCnt k + leaked leak k
  bounded : ∀ k, (ftl.resInfos k).acquiredCnt ≤ (ftl.resInfos k).totalCnt
  total : ∀ k, (ftl.resInfos k).totalCnt = ftl.zp.nrZones
  underflows : ∀ k, (ftl.resInfos k).underflows = 0
  nrZones_lt : ftl.zp.nrZones < 2 ^ 32

/-- The counters agree with the other zones, with the units `zid` is charged for, and with the leak. -/
structure Charged (leak : Nat) (zid : Nat) (held : ZoneResourceType → Bool) (ftl : ZnsFtl) : Prop where
  zid_lt : zid < ftl.zp.nrZones
  acquired : ∀ k, (ftl.resInfos k).acquiredCnt =
    ftl.heldElsewhere zid k + (if held k = true then 1 else 0) + leaked leak k
  bounded : ∀ k, (ftl.resInfos k).acquiredCnt ≤ (ftl.resInfos k).totalCnt
  total : ∀ k, (ftl.resInfos k).totalCnt = ftl.zp.nrZones
  underflows : ∀ k, (ftl.resInfos k).underflows = 0
  nrZones_lt : ftl.zp.nrZones < 2 ^ 32

variable {ftl ftl' : ZnsFtl} {leak zid : Nat} {held : ZoneResourceType → Bool}
  {T : ZoneResourceType}

/-- What all zones hold, one of them apart. -/
theorem ZnsFtl.heldCnt_eq (hz : zid < ftl.zp.nrZones) (k : ZoneResourceType) :
    ftl.heldCnt k =
      ftl.heldElsewhere zid k + (if (ftl.zoneDescs zid).holds k = true then 1 else 0) :=
  tally_erase_add (Finset.mem_range.mpr hz) _ _

/-- Between operations every zone is charged for what it holds. -/
theorem Tallied.charged (h : Tallied leak ftl) (hz : zid < ftl.zp.nrZones) :
    Charged leak zid (ftl.zoneDescs zid).holds ftl where
  zid_lt := hz
  acquired k := by rw [h.acquired, ftl.heldCnt_eq hz]
  bounded := h.bounded
  total := h.total
  underflows := h.underflows
  nrZones_lt := h.nrZones_lt

/-- An operation may end when the zone holds what it is charged for. -/
theorem Charged.tallied (h : Charged leak zid held ftl)
    (hheld : ∀ k, held k = (ftl.zoneDescs zid).holds k) : Tallied leak ftl where
  acquired k := by rw [h.acquired, ftl.heldCnt_eq h.zid_lt, hheld]
  bounded := h.bounded
  total := h.total
  underflows := h.underflows
  nrZones_lt := h.nrZones_lt

/-- The charge only looks at the counters and at the other zones. -/
theorem Charged.congr (h : Charged leak zid held ftl) (hzp : ftl'.zp = ftl.zp)
    (hres : ftl'.resInfos = ftl.resInfos)
    (hdescs : ∀ z, z ≠ zid → ftl'.zoneDescs z = ftl.zoneDescs z) : Charged leak zid held ftl' := by
  have helse : ∀ k, ftl'.heldElsewhere zid k = ftl.heldElsewhere zid k := by
    intro k
    unfold ZnsFtl.heldElsewhere ZnsFtl.zones
    rw [hzp]
    apply tally_congr
    intro z hz
    rw [hdescs z (Finset.ne_of_mem_erase hz)]
  constructor
  · rw [hzp]
    exact h.zid_lt
  · intro k
    rw [hres, helse, h.acquired]
  · rw [hres]
    exact h.bounded
  · rw [hres, hzp]
    exact h.total
  · rw [hres]
    exact h.underflows
  · rw [hzp]
    exact h.nrZones_lt

/-- The descriptor may change while the zone is charged. -/
theorem Charged.setZoneDesc (h : Charged leak zid held ftl) (d : ZoneDescriptor) :
    Charged leak zid held (ftl.setZoneDesc zid d) :=
  h.congr rfl rfl fun _ hz => Function.update_of_ne hz ..

/-- So may its state. -/
theorem Charged.changeZoneState (h : Charged leak zid held ftl) (state : ZoneState) :
    Charged leak zid held (ftl.changeZoneState zid state) := h.setZoneDesc _

theorem Charged.setBuffer (h : Charged leak zid held ftl) (id : BufferId) (buf : Buffer) :
    Charged leak zid held (ftl.setBuffer id buf) := h.congr rfl rfl fun _ _ => rfl

/-- Write one counter. -/
theorem Charged.setResInfo (h : Charged leak zid held ftl) {n : Nat} {c : Bool}
    (hn : n = ftl.heldElsewhere zid T + (if c = true then 1 else 0) + leaked leak T)
    (hle : n ≤ (ftl.resInfos T).totalCnt) {info : ZoneResourceInfo}
    (hinfo : info = { ftl.resInfos T with acquiredCnt := n }) :
    Charged leak zid (Function.update held T c) (ftl.setResInfo T info) := by
  have hother : ∀ k, k ≠ T → (ftl.setResInfo T info).resInfos k = ftl.resInfos k :=
    fun k hk => Function.update_of_ne hk ..
  have hself : (ftl.setResInfo T info).resInfos T = { ftl.resInfos T with acquiredCnt := n } := by
    rw [← hinfo]
    exact Function.update_self ..
  have helse : (ftl.setResInfo T info).heldElsewhere zid = ftl.heldElsewhere zid := rfl
  constructor
  · exact h.zid_lt
  · intro k
    by_cases hk : k = T
    · rw [hk, hself, Function.update_self, helse]
      exact hn
    · rw [hother k hk, Function.update_of_ne hk, helse]
      exact h.acquired k
  · intro k
    by_cases hk : k = T
    · rw [hk, hself]
      exact hle
    · rw [hother k hk]
      exact h.bounded k
  · intro k
    by_cases hk : k = T
    · rw [hk, hself]
      exact h.total T
    · rw [hother k hk]
      exact h.total k
  · intro k
    by_cases hk : k = T
    · rw [hk, hself]
      exact h.underflows T
    · rw [hother k hk]
      exact h.underflows k
  · exact h.nrZones_lt

/-- The other zones are fewer than all. -/
theorem ZnsFtl.heldElsewhere_lt (hz : zid < ftl.zp.nrZones) (k : ZoneResourceType) :
    ftl.heldElsewhere zid k < ftl.zp.nrZones := by
  have hcard : (ftl.zones.erase zid).card = ftl.zp.nrZones - 1 := by
    have hmem : zid ∈ ftl.zones := Finset.mem_range.mpr hz
    rw [Finset.card_erase_of_mem hmem, ZnsFtl.zones, Finset.card_range]
  have hle : ftl.heldElsewhere zid k ≤ (ftl.zones.erase zid).card := tally_le_card ..
  omega

/-- A resource that does not leak and of which the zone holds no unit is available: there is a unit
for every zone. -/
theorem Charged.avail (h : Charged leak zid held ftl) (hfree : held T = false)
    (hleak : leaked leak T = 0) :
    (ftl.resInfos T).acquiredCnt < (ftl.resInfos T).totalCnt := by
  have hlt := ftl.heldElsewhere_lt h.zid_lt T
  rw [h.acquired, h.total, hfree, hleak]
  simpa using hlt

theorem Charged.not_full (h : Charged leak zid held ftl) (hfree : held T = false)
    (hleak : leaked leak T = 0) : ftl.isZoneResourceFull T = false := by
  have hlt := h.avail hfree hleak
  exact beq_false_of_ne (by omega)

/-- `acquire_zone_resource` for a zone without a unit, when there is one. -/
theorem Charged.acquire (h : Charged leak zid held ftl) (hfree : held T = false)
    (havail : (ftl.resInfos T).acquiredCnt < (ftl.resInfos T).totalCnt) :
    ∃ ftl', ftl.acquireZoneResource T = (ftl', true) ∧
      Charged leak zid (Function.update held T true) ftl' ∧ ∃ info,
      ftl' = ftl.setResInfo T info := by
  unfold ZnsFtl.acquireZoneResource ZnsFtl.isZoneResourceAvail
  rw [if_pos (decide_eq_true havail)]
  apply Exists.intro
  apply And.intro rfl
  apply And.intro
  · have hacq := h.acquired T
    have hlt : (ftl.resInfos T).acquiredCnt + 1 < 2 ^ 32 := by
      have htotal := h.total T
      have hn := h.nrZones_lt
      omega
    apply h.setResInfo (n := (ftl.resInfos T).acquiredCnt + 1)
    · rw [hacq, hfree, if_neg Bool.false_ne_true, if_pos rfl]
      omega
    · omega
    · rw [u32, Nat.mod_eq_of_lt hlt]
  · exact ⟨_, rfl⟩

/-- `release_zone_resource` for a zone with a unit: the counter is not zero. -/
theorem Charged.release (h : Charged leak zid held ftl) (hheld : held T = true) :
    Charged leak zid (Function.update held T false) (ftl.releaseZoneResource T) := by
  have hacq := h.acquired T
  rw [hheld, if_pos rfl] at hacq
  have hbound : (ftl.resInfos T).acquiredCnt < 2 ^ 32 := by
    have hle := h.bounded T
    have htotal := h.total T
    have hn := h.nrZones_lt
    omega
  have hsub : sub32 (ftl.resInfos T).acquiredCnt 1 = (ftl.resInfos T).acquiredCnt - 1 := by
    unfold sub32 u32
    omega
  have hle := h.bounded T
  apply h.setResInfo (n := (ftl.resInfos T).acquiredCnt - 1)
  · rw [if_neg Bool.false_ne_true]
    omega
  · omega
  · rw [hsub, if_neg (by omega)]

end NvmeVirt

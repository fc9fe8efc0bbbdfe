import NvmeVirt.Lib.Tiling
import NvmeVirt.Laws.Zns.ZrwaCount

/-!
# Zones are written sequentially

As long as no zone is opened with ZRWA, the ranges written to a zone since its last reset tile it up
to the write pointer. Each is checked against a zone number that comes from the address of the
command, not from the write pointer an append is moved to; the two agree because a zone that may be
written has its write pointer inside it (`SeqZone.room`). Addresses stay below 2³² LBAs.

`SeqZone` is the invariant of one zone, and has a lemma for each of its changes: a reset
(`SeqZone.reset`), a state change (`SeqZone.setState`), the moves of a zone management command
(`SeqZone.moves`) and a write (`SeqZone.advance`). `SeqSettled.command` is the step of a run, from
what a command can do to the zones (`Laws/Zns/Writes`, `Laws/Zns/Send`).

The addresses are in the types of the source: `zone_to_slba` multiplies in 32 bits, and
`Shaped.zone_end` is where the bound on the size goes in.
-/

set_option autoImplicit false

namespace NvmeVirt

open Outcome

/-- A zone of `lbas` LBAs at `zid`, and the ranges written to it. -/
structure SeqZone (lbas zid : Nat) (d : ZoneDescriptor) (log : List (Nat × Nat)) : Prop where
  zslba : d.zslba = zid * lbas
  capacity : d.zoneCapacity = lbas
  zrwav : d.zrwav = false
  empty : d.state = .empty → d.wp = d.zslba
  room : d.state.isActive = true ∨ d.state = .empty → d.wp < d.zslba + d.zoneCapacity
  upper : d.wp ≤ d.zslba + d.zoneCapacity
  tiles : Tiles log d.zslba d.wp

section Zone

variable {lbas zid : Nat} {d d' : ZoneDescriptor} {log : List (Nat × Nat)} {action : ZoneSendAction}
  {option : Bool}

/-- A reset zone has nothing written. -/
theorem SeqZone.reset (h : SeqZone lbas zid d log) (hpos : 0 < lbas) : SeqZone lbas zid d.reset [] := by
  have hcap : d.reset.zoneCapacity = lbas := h.capacity
  refine ⟨h.zslba, hcap, rfl, fun _ => rfl, fun _ => ?_, Nat.le_add_right _ _, rfl⟩
  rw [hcap]
  exact Nat.lt_add_of_pos_right hpos

/-- A change of state among the active ones. -/
theorem SeqZone.setState (h : SeqZone lbas zid d log) {state : ZoneState} (hbusy : state ≠ .empty)
    (hroom : state.isActive = true → d.state.isActive = true ∨ d.state = .empty) :
    SeqZone lbas zid { d with state } log := by
  refine ⟨h.zslba, h.capacity, h.zrwav, fun he => absurd he hbusy, fun hor => ?_, h.upper, h.tiles⟩
  exact h.room (hroom (hor.resolve_right hbusy))

/-- One move of a zone that is not opened with ZRWA. -/
theorem SeqZone.move (h : SeqZone lbas zid d log) (hpos : 0 < lbas)
    (hmove : ZoneMove action option d d')
    (hno : action = .openZone → option = true → d.state ≠ .empty) :
    SeqZone lbas zid d' (if action = .resetZone ∧ d.state.canReset = true then [] else log) := by
  cases hmove with
  | stay hstay =>
    rw [if_neg fun hboth => by simp [hstay hboth.1] at hboth]
    exact h
  | close hopen =>
    rw [if_neg fun hboth => ZoneSendAction.noConfusion hboth.1]
    apply h.setState (by decide : ZoneState.closed ≠ .empty)
    intro _
    apply Or.inl
    cases hs : d.state <;> simp_all [ZoneState.isOpen, ZoneState.isActive]
  | finish _ =>
    rw [if_neg fun hboth => ZoneSendAction.noConfusion hboth.1]
    exact h.setState (by decide) fun hactive => absurd hactive Bool.false_ne_true
  | «open» hstate =>
    rw [if_neg fun hboth => ZoneSendAction.noConfusion hboth.1]
    apply h.setState (by decide : ZoneState.openedExpl ≠ .empty)
    intro _
    rcases hstate with ⟨hempty, _⟩ | hclosed | himpl
    · exact .inr hempty
    · exact .inl (by rw [hclosed]; rfl)
    · exact .inl (by rw [himpl]; rfl)
  | openZrwa hempty => exact absurd hempty (hno rfl rfl)
  | reset hcan =>
    rw [if_pos ⟨rfl, hcan⟩]
    exact h.reset hpos
  | offline _ =>
    rw [if_neg fun hboth => ZoneSendAction.noConfusion hboth.1]
    exact h.setState (by decide) fun hactive => absurd hactive Bool.false_ne_true
  | commit hav _ _ =>
    rw [h.zrwav] at hav
    exact absurd hav Bool.false_ne_true

/-- Any number of moves of one action. -/
theorem SeqZone.moves (h : SeqZone lbas zid d log) (hpos : 0 < lbas)
    (hmoves : Relation.TransGen (ZoneMove action option) d d')
    (hno : action = .openZone → option = true → d.state ≠ .empty) :
    SeqZone lbas zid d' (if action = .resetZone ∧ d.state.canReset = true then [] else log) := by
  have hall : SeqZone lbas zid d'
      (if action = .resetZone ∧ d.state.canReset = true then [] else log) ∧
      (action = .openZone → d'.state = .empty → d.state = .empty) ∧
      (action = .resetZone → d'.state.canReset = true → d.state.canReset = true) := by
    induction hmoves with
    | single hmove =>
      refine ⟨h.move hpos hmove hno, hmove.empty_of_open, ?_⟩
      intro hact hcan
      cases hmove with
      | stay _ => exact hcan
      | reset hcan' => exact hcan'
      | close _ | finish _ | «open» _ | openZrwa _ | offline _ | commit _ _ _ => exact nomatch hact
    | tail _ hmove ih =>
      obtain ⟨hmid, hback, hcanback⟩ := ih
      refine ⟨?_, fun hact he => hback hact (hmove.empty_of_open hact he), ?_⟩
      · have hnext := hmid.move hpos hmove fun hact hopt he => hno hact hopt (hback hact he)
        by_cases hreset : action = .resetZone ∧ d.state.canReset = true
        · rw [if_pos hreset] at hnext ⊢
          simpa using hnext
        · rw [if_neg hreset] at hnext ⊢
          rw [if_neg fun hboth => hreset ⟨hboth.1, hcanback hboth.1 hboth.2⟩] at hnext
          exact hnext
      · intro hact hcan
        apply hcanback hact
        cases hmove with
        | stay _ => exact hcan
        | reset hcan' => exact hcan'
        | close _ | finish _ | «open» _ | openZrwa _ | offline _ | commit _ _ _ => exact nomatch hact
  exact hall.1

end Zone

/-! ## Addresses -/

section Addresses

variable {cfg : ZnsConfig} {size : Nat} {ftl : ZnsFtl}

/-- The LBAs of a zone. -/
def ZnsConfig.lbas (cfg : ZnsConfig) : Nat := cfg.zoneSize / lbaSize

/-- The LBAs of a zone. -/
theorem Shaped.zoneLbas (h : Shaped cfg size ftl) : ftl.zoneLbas = cfg.lbas := by
  unfold ZnsFtl.zoneLbas
  rw [h.zp, h.sp]
  rfl

/-- A zone is a positive number of whole pages. -/
theorem Shaped.zoneSize_eq (h : Shaped cfg size ftl) (hz : 0 < ftl.zp.nrZones) :
    cfg.zoneSize = cfg.lbas * lbaSize ∧ 8 ≤ cfg.lbas := by
  have halign : cfg.zoneSize % 4096 = 0 := h.aligned
  have hpos : cfg.zoneSize ≠ 0 := by
    intro h0
    rw [h.zp] at hz
    have hnone : u32 (size / cfg.zoneSize) = 0 := by
      rw [h0, Nat.div_zero]
      rfl
    exact absurd hnone (Nat.pos_iff_ne_zero.mp hz)
  unfold ZnsConfig.lbas
  show cfg.zoneSize = cfg.zoneSize / 512 * 512 ∧ 8 ≤ cfg.zoneSize / 512
  omega

/-- Every zone ends at or below 2³² LBAs. -/
theorem Shaped.zone_end (h : Shaped cfg size ftl) (hsmall : size ≤ 2 ^ 32 * lbaSize) {z : Nat}
    (hz : z < ftl.zp.nrZones) : z * cfg.lbas + cfg.lbas ≤ 2 ^ 32 := by
  obtain ⟨hsize, _⟩ := h.zoneSize_eq (Nat.lt_of_le_of_lt (Nat.zero_le z) hz)
  have hle : z + 1 ≤ size / cfg.zoneSize := by
    rw [h.zp] at hz
    exact Nat.le_trans hz (Nat.mod_le _ _)
  have hbytes : (z + 1) * (cfg.lbas * lbaSize) ≤ 2 ^ 32 * lbaSize := by
    rw [← hsize]
    exact Nat.le_trans (Nat.le_trans (Nat.mul_le_mul_right _ hle) (Nat.div_mul_le_self _ _)) hsmall
  rw [← Nat.mul_assoc] at hbytes
  have hlbas := Nat.le_of_mul_le_mul_right hbytes (by decide)
  rw [Nat.add_mul, Nat.one_mul] at hlbas
  exact hlbas

/-- Below 2³² the product does not wrap. -/
theorem Shaped.zoneToSlba (h : Shaped cfg size ftl) {z : Nat} (hz : z < ftl.zp.nrZones)
    (hend : z * cfg.lbas + cfg.lbas ≤ 2 ^ 32) : ftl.zoneToSlba z = z * cfg.lbas := by
  obtain ⟨_, hpos⟩ := h.zoneSize_eq (Nat.lt_of_le_of_lt (Nat.zero_le z) hz)
  unfold ZnsFtl.zoneToSlba
  rw [h.zoneLbas]
  exact Nat.mod_eq_of_lt (by omega)

/-- Below 2³⁴ LBAs the zone number does not wrap. -/
theorem Shaped.lbaToZone (h : Shaped cfg size ftl) (hz : 0 < ftl.zp.nrZones) {lba : Nat}
    (hlba : lba < 2 ^ 34) : ftl.lbaToZone lba = lba / cfg.lbas := by
  obtain ⟨_, hpos⟩ := h.zoneSize_eq hz
  unfold ZnsFtl.lbaToZone
  rw [h.zoneLbas]
  have hle : lba / cfg.lbas ≤ lba / 8 := Nat.div_le_div_left hpos (by decide)
  exact Nat.mod_eq_of_lt (by omega)

/-- An accepted range lies in the zone of its command, and the arithmetic on it does not wrap. -/
theorem ZnsFtl.Acceptable.inZone {zid slba nrLba : Nat} {log : List (Nat × Nat)}
    (h : ftl.Acceptable zid slba nrLba) (hs : Shaped cfg size ftl) (hz : zid < ftl.zp.nrZones)
    (hend : zid * cfg.lbas + cfg.lbas ≤ 2 ^ 32)
    (hzone : SeqZone cfg.lbas zid (ftl.zoneDescs zid) log) (hnr : nrLba ≤ 2 ^ 16) (hnr0 : 0 < nrLba) :
    slba + nrLba ≤ (ftl.zoneDescs zid).zslba + (ftl.zoneDescs zid).zoneCapacity := by
  have hzones := Nat.lt_of_le_of_lt (Nat.zero_le zid) hz
  obtain ⟨_, hpos⟩ := hs.zoneSize_eq hzones
  have hwp := h.atWp
  have hroom := hzone.room (h.writable.imp id And.left)
  have hlow := hzone.tiles.le
  have hbound := h.boundary
  rw [hzone.zslba, hzone.capacity] at hroom ⊢
  rw [hzone.zslba] at hlow
  have hlast : lastLba slba (u32 nrLba) = slba + nrLba - 1 := by
    unfold lastLba sub64 u64 u32
    omega
  unfold ZnsFtl.checkBoundaryError at hbound
  rw [hlast, hs.lbaToZone hzones (by omega), hs.lbaToZone hzones (by omega)] at hbound
  have hsame : slba / cfg.lbas = (slba + nrLba - 1) / cfg.lbas := beq_iff_eq.mp hbound
  have hslba : slba / cfg.lbas = zid := by
    apply (Nat.div_eq_iff (by omega)).mpr
    omega
  rw [hslba] at hsame
  have hlt := Nat.lt_mul_div_succ (slba + nrLba - 1) (show 0 < cfg.lbas by omega)
  rw [← hsame, Nat.mul_add, Nat.mul_one, Nat.mul_comm] at hlt
  omega

theorem Shaped.zoneLimit (h : Shaped cfg size ftl) {z : Nat} (hz : z < ftl.zp.nrZones)
    (hend : z * cfg.lbas + cfg.lbas ≤ 2 ^ 32) {log : List (Nat × Nat)}
    (hzone : SeqZone cfg.lbas z (ftl.zoneDescs z) log) :
    ftl.zoneLimit z = (ftl.zoneDescs z).zslba + (ftl.zoneDescs z).zoneCapacity := by
  unfold ZnsFtl.zoneLimit
  rw [h.zoneToSlba hz hend, hzone.zslba, hzone.capacity]
  exact Nat.mod_eq_of_lt (by omega)

/-- Where an accepted write leaves the write pointer. -/
theorem ZoneDescriptor.advance_wp {d : ZoneDescriptor} {limit nrLba : Nat}
    (hwp : d.wp + nrLba ≤ 2 ^ 32) (hnr : nrLba ≤ 2 ^ 16) :
    (d.advance limit nrLba).wp = d.wp + nrLba := by
  show u64 (d.wp + u32 nrLba) = _
  unfold u64 u32
  omega

theorem ZoneDescriptor.advance_full {d : ZoneDescriptor} {limit nrLba : Nat} :
    (d.advance limit nrLba).state = .full ↔ (d.advance limit nrLba).wp = limit := by
  unfold ZoneDescriptor.advance
  dsimp only
  by_cases hlimit : u64 (d.wp + u32 nrLba) = limit
  · rw [if_pos hlimit]
    exact iff_of_true rfl hlimit
  · rw [if_neg hlimit]
    have hopen := d.state.opened_isOpen
    apply iff_of_false _ hlimit
    intro hfull
    rw [hfull] at hopen
    exact nomatch hopen

/-- An accepted write adds its range to those of its zone. -/
theorem SeqZone.advance {zid nrLba : Nat} {log : List (Nat × Nat)}
    (h : SeqZone cfg.lbas zid (ftl.zoneDescs zid) log) (hs : Shaped cfg size ftl)
    (hz : zid < ftl.zp.nrZones) (hend : zid * cfg.lbas + cfg.lbas ≤ 2 ^ 32)
    (hacc : ftl.Acceptable zid (ftl.zoneDescs zid).wp nrLba) (hnr : nrLba ≤ 2 ^ 16)
    (hnr0 : 0 < nrLba) :
    SeqZone cfg.lbas zid ((ftl.zoneDescs zid).advance (ftl.zoneLimit zid) nrLba)
      (log ++ [((ftl.zoneDescs zid).wp, nrLba)]) := by
  have hin := hacc.inZone hs hz hend h hnr hnr0
  have hlimit := hs.zoneLimit hz hend h
  have hwp : ((ftl.zoneDescs zid).advance (ftl.zoneLimit zid) nrLba).wp =
      (ftl.zoneDescs zid).wp + nrLba := by
    apply ZoneDescriptor.advance_wp _ hnr
    rw [h.zslba, h.capacity] at hin
    exact Nat.le_trans hin hend
  constructor
  · exact h.zslba
  · exact h.capacity
  · exact h.zrwav
  · exact fun he => absurd he (ZoneDescriptor.advance_busy _ _ _)
  · intro hor
    have hactive := hor.resolve_right (ZoneDescriptor.advance_busy _ _ _)
    have hbelow : ((ftl.zoneDescs zid).advance (ftl.zoneLimit zid) nrLba).wp ≠ ftl.zoneLimit zid := by
      intro heq
      rw [ZoneDescriptor.advance_full.mpr heq] at hactive
      exact nomatch hactive
    rw [hwp, hlimit] at hbelow
    rw [hwp]
    exact Nat.lt_of_le_of_ne hin hbelow
  · rw [hwp]
    exact hin
  · rw [hwp]
    exact h.tiles.snoc hnr0

end Addresses

/-! ## Runs -/

/-- The command opens no zone with ZRWA. -/
def NoZrwaOpen (s : ZnsRun) : ZnsEvent → Prop
  | .command (.zoneMgmtSend cmd) _ => cmd.zsa = .openZone → cmd.zsaso = true →
    ∀ z, z < s.ftl.zp.nrZones → s.ftl.addressed cmd z → (s.ftl.zoneDescs z).state ≠ .empty
  | _ => True

/-- What holds in every state of a run without ZRWA. -/
structure SeqSettled (cfg : ZnsConfig) (size : Nat) (s : ZnsRun) : Prop where
  shaped : Shaped cfg size s.ftl
  inv : ∃ leak, ZnsInv leak s.ftl
  zones : ∀ z, z < s.ftl.zp.nrZones → SeqZone cfg.lbas z (s.ftl.zoneDescs z) (s.log z)

section Runs

variable {cfg : ZnsConfig} {size : Nat} {storage : Nat → Nat}

/-- A zone as it is initialised. -/
theorem FreshZns.seqZone {ftl : ZnsFtl} (h : FreshZns cfg size ftl) {z : Nat}
    (hz : z < ftl.zp.nrZones) : SeqZone cfg.lbas z (ftl.zoneDescs z) [] := by
  obtain ⟨_, hpos⟩ := h.zoneSize_eq (Nat.lt_of_le_of_lt (Nat.zero_le z) hz)
  have hnone : 0 < cfg.lbas := by omega
  have hlbas : ftl.zp.zoneSize / lbaSize = cfg.lbas := by
    rw [h.zp]
    rfl
  rw [h.zoneDescs]
  unfold initDescriptor
  rw [hlbas]
  exact ⟨rfl, rfl, rfl, fun _ => rfl, fun _ => Nat.lt_add_of_pos_right hnone,
    Nat.le_add_right _ _, rfl⟩

/-- A command that passes the checks starts at the write pointer of its zone. -/
theorem ZnsFtl.Accepts.atWp {ftl : ZnsFtl} {cmd : ZnsRwCommand} (h : ftl.Accepts cmd) :
    ftl.targetSlba cmd = (ftl.zoneDescs (ftl.target cmd)).wp := Acceptable.atWp h

/-- What a written command does to the zones. -/
theorem Written.seqZone {leak z : Nat} {ftl : ZnsFtl} {cmd : ZnsRwCommand} {r : ZnsFtl × ZnsAnswer}
    {log : Nat → List (Nat × Nat)} (hw : Written leak ftl cmd r) (hs : Shaped cfg size ftl)
    (hz : z < ftl.zp.nrZones) (hend : z = ftl.target cmd → z * cfg.lbas + cfg.lbas ≤ 2 ^ 32)
    (hacc : ftl.Accepts cmd) (hzone : SeqZone cfg.lbas z (ftl.zoneDescs z) (log z)) :
    SeqZone cfg.lbas z (r.1.zoneDescs z)
      (Function.update log (ftl.target cmd) (log (ftl.target cmd) ++ [(r.2.slba, cmd.nrLba)]) z) := by
  by_cases hzt : z = ftl.target cmd
  · subst hzt
    have hacc' : ftl.Acceptable (ftl.target cmd) (ftl.zoneDescs (ftl.target cmd)).wp cmd.nrLba := by
      rw [← hacc.atWp]
      exact hacc
    rw [Function.update_self, hw.desc, hw.slba, hacc.atWp]
    exact hzone.advance hs hz (hend rfl) hacc' cmd.length_lt (Nat.succ_pos _)
  · rw [Function.update_of_ne hzt, hw.others z hzt]
    exact hzone

/-- A command that opens no zone with ZRWA. -/
theorem SeqSettled.command {s : ZnsRun} (hs : SeqSettled cfg size s)
    (hsmall : size ≤ 2 ^ 32 * lbaSize) {cmd : ZnsCommand} {nsecsStart leak : Nat}
    (hno : NoZrwaOpen s (.command cmd nsecsStart)) {r : ZnsFtl × ZnsAnswer}
    {log : Nat → List (Nat × Nat)} (hdone : CommandDone leak s.ftl cmd r)
    (hlog : Logged s.ftl s.log cmd r.2 log) {z : Nat} (hz : z < s.ftl.zp.nrZones) :
    SeqZone cfg.lbas z (r.1.zoneDescs z) (log z) := by
  have hzone := hs.zones z hz
  obtain ⟨_, hpos⟩ := hs.shaped.zoneSize_eq (Nat.lt_of_le_of_lt (Nat.zero_le z) hz)
  cases hdone with
  | seqWrite hin hav hdone =>
    cases hlog with
    | written hok hstatus =>
      cases hdone with
      | short _ => exact nomatch hok
      | refused _ _ hbad => exact absurd hstatus hbad
      | written _ hacc hw =>
        exact hw.seqZone hs.shaped hz (fun _ => hs.shaped.zone_end hsmall hz) hacc hzone
    | unwritten hnot =>
      cases hdone with
      | short _ => exact hzone
      | refused _ _ _ => exact hzone
      | written _ _ hw => exact absurd ⟨hw.accepted, hw.status⟩ hnot
    | quiet hnw _ => exact absurd rfl (hnw _)
  | zrwaWrite hin hav _ =>
    rw [(hs.zones _ hin).zrwav] at hav
    exact nomatch hav
  | @sent cmd _ hsent _ =>
    cases hlog with
    | sent hreset hkeep =>
      by_cases hT : s.ftl.addressed cmd z
      · have hmoved := hzone.moves (by omega) (hsent.moved z hT) fun hact hopt =>
          hno hact hopt z hz hT
        by_cases hcan : cmd.zsa = .resetZone ∧ (s.ftl.zoneDescs z).state.canReset = true
        · rw [if_pos hcan] at hmoved
          rw [hreset z ⟨hcan.1, hT, hcan.2⟩]
          exact hmoved
        · rw [if_neg hcan] at hmoved
          rw [hkeep z fun hr => hcan ⟨hr.1, hr.2.2⟩]
          exact hmoved
      · rw [hkeep z fun hr => hT hr.2.1, hsent.others z hT]
        exact hzone
    | quiet _ hnm => exact absurd rfl (hnm _)
  | clocks hnw hnm _ _ =>
    cases hlog with
    | written _ _ => exact absurd rfl (hnw _)
    | unwritten _ => exact absurd rfl (hnw _)
    | sent _ _ => exact absurd rfl (hnm _)
    | quiet _ _ => exact hzone

/-- By induction over commands that open no zone with ZRWA, and over the releases, which touch no
zone. -/
theorem znsRuns_seqSettled (hsmall : size ≤ 2 ^ 32 * lbaSize) :
    ((znsRuns cfg size storage).guarded NoZrwaOpen).Invariant (SeqSettled cfg size) where
  init s hs := by
    obtain ⟨⟨env, env', hrun⟩, _, _, hlog⟩ := hs
    have hfresh := (znsInitNamespace_ensures cfg size storage).of_run hrun
    refine ⟨hfresh.toShaped, ⟨0, hfresh.inv⟩, fun z hz => ?_⟩
    rw [hlog]
    exact hfresh.seqZone hz
  step s e s' hs hstep := by
    obtain ⟨hno, hstep⟩ := hstep
    obtain ⟨leak, hinv⟩ := hs.inv
    cases hstep with
    | command hrun hlog =>
      have hdone := hinv.ran hs.shaped hrun
      obtain ⟨hinv', hzp, hsp⟩ := hdone.inv hinv
      refine ⟨hs.shaped.congr hzp hsp, hinv', fun z hz => ?_⟩
      rw [hzp] at hz
      exact hs.command hsmall hno hdone hlog hz
    | release _ => exact ⟨hs.shaped.congr rfl rfl, ⟨leak, hinv.performRelease _⟩, hs.zones⟩

/-- The zone `z` has been written from its start, without gap or overlap, by the ranges of `log`. -/
structure WrittenInOrder (ftl : ZnsFtl) (z : Nat) (log : List (Nat × Nat)) : Prop where
  lower : (ftl.zoneDescs z).zslba ≤ (ftl.zoneDescs z).wp
  upper : (ftl.zoneDescs z).wp ≤ (ftl.zoneDescs z).zslba + (ftl.zoneDescs z).zoneCapacity
  empty : (ftl.zoneDescs z).state = .empty → (ftl.zoneDescs z).wp = (ftl.zoneDescs z).zslba
  tiles : Tiles log (ftl.zoneDescs z).zslba (ftl.zoneDescs z).wp
  inZone : ∀ r ∈ log, ∀ lba, r.1 ≤ lba → lba < r.1 + r.2 → ftl.lbaToZone lba = z

/-- The zone of `cmd` took the write, and is FULL if it ended there. -/
structure WriteTaken (ftl ftl' : ZnsFtl) (cmd : ZnsRwCommand) : Prop where
  full : (ftl.zoneDescs (ftl.target cmd)).state ≠ .full
  readOnly : (ftl.zoneDescs (ftl.target cmd)).state ≠ .readOnly
  offline : (ftl.zoneDescs (ftl.target cmd)).state ≠ .offline
  wp : (ftl'.zoneDescs (ftl.target cmd)).wp =
    (ftl.zoneDescs (ftl.target cmd)).wp + cmd.nrLba
  ends : (ftl'.zoneDescs (ftl.target cmd)).wp = (ftl.zoneDescs (ftl.target cmd)).zslba +
    (ftl.zoneDescs (ftl.target cmd)).zoneCapacity →
    (ftl'.zoneDescs (ftl.target cmd)).state = .full

/-- What the invariant says of a zone. -/
theorem SeqSettled.writtenInOrder {s : ZnsRun} (hs : SeqSettled cfg size s)
    (hsmall : size ≤ 2 ^ 32 * lbaSize) {z : Nat} (hz : z < s.ftl.zp.nrZones) :
    WrittenInOrder s.ftl z (s.log z) := by
  have hzone := hs.zones z hz
  have hzones := Nat.lt_of_le_of_lt (Nat.zero_le z) hz
  obtain ⟨_, hpos⟩ := hs.shaped.zoneSize_eq hzones
  have hend := hs.shaped.zone_end hsmall hz
  refine ⟨hzone.tiles.le, hzone.upper, hzone.empty, hzone.tiles, fun r hr lba hlo hhi => ?_⟩
  obtain ⟨hstart, hstop⟩ := hzone.tiles.within r hr
  have hupper := hzone.upper
  rw [hzone.capacity, hzone.zslba] at hupper
  rw [hzone.zslba] at hstart
  rw [hs.shaped.lbaToZone hzones (by omega)]
  apply (Nat.div_eq_iff (by omega)).mpr
  omega

/-- A write that succeeds was at the write pointer of a zone that takes writes. -/
theorem SeqSettled.writeTaken {s : ZnsRun} (hs : SeqSettled cfg size s)
    (hsmall : size ≤ 2 ^ 32 * lbaSize) {cmd : ZnsRwCommand} {leak : Nat} {r : ZnsFtl × ZnsAnswer}
    (hdone : CommandDone leak s.ftl (.write cmd) r) (hok : r.2.accepted = true)
    (hstatus : r.2.result.status = nvmeScSuccess) : WriteTaken s.ftl r.1 cmd := by
  obtain ⟨hin, _, hdone⟩ := hdone.seq fun z hz => (hs.zones z hz).zrwav
  cases hdone with
  | short _ => exact nomatch hok
  | refused _ _ hbad => exact absurd hstatus hbad
  | written _ hacc hw =>
    have hzone := hs.zones _ hin
    have hacc' := hacc
    unfold ZnsFtl.Accepts at hacc'
    rw [hacc.atWp] at hacc'
    have hend := hs.shaped.zone_end hsmall hin
    have hroom := hacc'.inZone hs.shaped hin hend hzone cmd.length_lt (Nat.succ_pos _)
    have hwritable := hacc.writable
    refine ⟨?_, ?_, ?_, ?_, ?_⟩
    · intro hfull
      rw [hfull] at hwritable
      exact hwritable.elim nofun fun hb => nomatch hb.1
    · intro hro
      rw [hro] at hwritable
      exact hwritable.elim nofun fun hb => nomatch hb.1
    · intro hoff
      rw [hoff] at hwritable
      exact hwritable.elim nofun fun hb => nomatch hb.1
    · rw [hw.desc]
      apply ZoneDescriptor.advance_wp _ cmd.length_lt
      rw [hzone.zslba, hzone.capacity] at hroom
      exact Nat.le_trans hroom hend
    · rw [hw.desc, ← hs.shaped.zoneLimit hin hend hzone]
      exact ZoneDescriptor.advance_full.mpr

end Runs

end NvmeVirt

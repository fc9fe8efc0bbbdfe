import NvmeVirt.Lib.Chunks
import NvmeVirt.Lib.Ledger
import NvmeVirt.Laws.Zns.Sequential

/-!
# The write buffers of the zones

A write is charged its LBAs before it is checked, and a refused one keeps the charge. What an
accepted one gives back is a whole one-shot page for each it completes, where the page its last LBA
lies in counts as complete; so a write that ends inside such a page gives back more than was
charged, and the next one gives it back again. In a run without such writes (`ConservesBuffer`) the
releases scheduled for a zone are the one-shot pages below its write pointer
(`ZoneLedger.scheduled`).

The account of a buffer: what is free, and what the zones that share it were charged and have not
given back, make up its size (`BufferSettled`). A write charges and schedules what it will give back
(`BufferSettled.wrote`), a release gives it back (`BufferSettled.release`).

The buffers of the ZRWA windows are left out; what goes on behind the last zone is in
`Laws/Zns/Behind`.
-/

set_option autoImplicit false

namespace NvmeVirt

open Outcome

namespace ZnsFtl

/-- The last LBA of the command lies inside the last page of a one-shot page, or of the zone. -/
def EndsInside (ftl : ZnsFtl) (cmd : ZnsRwCommand) : Prop :=
  (ftl.targetSlba cmd + cmd.nrLba) % ftl.ssd.sp.secsPerPg ≠ 0 ∧
    ftl.completes (ftl.zoneToElpn (ftl.target cmd))
      (ftl.lbaToLpn (lastLba (ftl.targetSlba cmd) cmd.nrLba)) 1 = true

/-- The zone of the command ends below 2³² LBAs, or at 2³², where `zone_to_elba` wraps, and the command
does not come to its last page. -/
def EndsBelow (ftl : ZnsFtl) (cmd : ZnsRwCommand) : Prop :=
  (ftl.target cmd + 1) * ftl.zoneLbas < 2 ^ 32 ∨
    (ftl.target cmd + 1) * ftl.zoneLbas = 2 ^ 32 ∧
      (ftl.lbaToLpn (lastLba (ftl.targetSlba cmd) cmd.nrLba) + 1) * ftl.ssd.sp.secsPerPg < 2 ^ 32

end ZnsFtl

/-- Writes of whole write units, and releases. A write the buffer has room for passes the checks, does
not end inside a page that completes a one-shot page, and stays below the last page under 2³² LBAs. -/
def ConservesBuffer (s : ZnsRun) : ZnsEvent → Prop
  | .command (.write cmd) _ => cmd.bytes % s.ftl.ssd.sp.writeUnitSize = 0 ∧
    (cmd.bytes ≤ (s.ftl.targetBuffer cmd).remaining →
      s.ftl.Accepts cmd ∧ ¬ s.ftl.EndsInside cmd ∧ s.ftl.EndsBelow cmd)
  | .command _ _ => False
  | .release _ => True

/-! ## The pages of a zone -/

section Pages

variable {cfg : ZnsConfig} {size z : Nat} {ftl : ZnsFtl}

/-- The pages of a one-shot page, and of a zone. -/
def ZnsConfig.cap (cfg : ZnsConfig) (size : Nat) : Nat := (cfg.params size).pgsPerOneshotpg
def ZnsConfig.pgs (cfg : ZnsConfig) : Nat := cfg.zoneSize / 4096

theorem Shaped.zonePgs (h : Shaped cfg size ftl) : ftl.zonePgs = cfg.pgs := by
  unfold ZnsFtl.zonePgs
  rw [h.zp, h.sp]
  rfl

theorem Shaped.lbas_pgs (h : Shaped cfg size ftl) (hz : 0 < ftl.zp.nrZones) :
    cfg.lbas = 8 * cfg.pgs ∧ cfg.zoneSize = 4096 * cfg.pgs ∧ 0 < cfg.pgs := by
  obtain ⟨hsize, hpos⟩ := h.zoneSize_eq hz
  have halign : cfg.zoneSize % 4096 = 0 := h.aligned
  have hbytes : cfg.zoneSize = cfg.lbas * 512 := hsize
  unfold ZnsConfig.pgs
  omega

/-- The place in its one-shot page of the page `a` of the zone `z`. -/
theorem Shaped.pgOff (h : Shaped cfg size ftl) (hz : z < ftl.zp.nrZones)
    (hend : z * cfg.lbas + cfg.lbas ≤ 2 ^ 32) (hcap : 0 < cfg.cap size ∧ cfg.cap size ≤ 2 ^ 16)
    {a : Nat} (ha : a < cfg.pgs) : ftl.pgOff (z * cfg.pgs + a) = a % cfg.cap size := by
  obtain ⟨hlbas, _, hpgs⟩ := h.lbas_pgs (Nat.lt_of_le_of_lt (Nat.zero_le z) hz)
  have hmul : z * cfg.lbas = 8 * (z * cfg.pgs) := by
    rw [hlbas]
    exact Nat.mul_left_comm _ _ _
  have hzone : ftl.lpnToZone (z * cfg.pgs + a) = z := by
    unfold ZnsFtl.lpnToZone
    rw [h.zonePgs]
    have hquot : (z * cfg.pgs + a) / cfg.pgs = z := by
      apply Nat.div_eq_of_lt_le
      · exact Nat.le_add_right _ _
      · rw [Nat.succ_mul]
        omega
    rw [hquot]
    have hle : z ≤ z * cfg.pgs := Nat.le_mul_of_pos_right z hpgs
    exact Nat.mod_eq_of_lt (by omega)
  have hslpn : ftl.zoneToSlpn z = z * cfg.pgs := by
    unfold ZnsFtl.zoneToSlpn
    rw [h.zonePgs]
    exact Nat.mod_eq_of_lt (by omega)
  have hoff : sub64 (z * cfg.pgs + a) (z * cfg.pgs) = a := by
    unfold sub64 u64
    omega
  have hsp : ftl.ssd.sp.pgsPerOneshotpg = cfg.cap size := by
    rw [h.sp]
    rfl
  have hlt := Nat.mod_lt a hcap.1
  unfold ZnsFtl.pgOff ZnsFtl.lpnToPpa
  dsimp only
  rw [hzone, hslpn, hoff, hsp]
  show a % cfg.cap size % 2 ^ 16 % cfg.cap size = _
  rw [Nat.mod_eq_of_lt (by omega : a % cfg.cap size < 2 ^ 16), Nat.mod_mod]

/-- `zone_to_elpn` of a zone that ends at or below 2³² LBAs. -/
theorem Shaped.zoneToElpn (h : Shaped cfg size ftl) (hz : z < ftl.zp.nrZones)
    (hend : z * cfg.lbas + cfg.lbas ≤ 2 ^ 32) :
    ftl.zoneToElpn z = if (z + 1) * cfg.lbas < 2 ^ 32 then z * cfg.pgs + cfg.pgs - 1 else 2 ^ 61 - 1 := by
  obtain ⟨hlbas, _, hpgs⟩ := h.lbas_pgs (Nat.lt_of_le_of_lt (Nat.zero_le z) hz)
  have hmul : (z + 1) * cfg.lbas = 8 * (z * cfg.pgs + cfg.pgs) := by
    rw [hlbas, Nat.mul_left_comm, Nat.add_mul, Nat.one_mul]
  have hsum : (z + 1) * cfg.lbas = z * cfg.lbas + cfg.lbas := Nat.succ_mul ..
  have hle : (z + 1) * 8 ≤ (z + 1) * cfg.lbas := Nat.mul_le_mul_left _ (by omega)
  have hnext : u32 (z + 1) = z + 1 := Nat.mod_eq_of_lt (by omega)
  have hsecs : ftl.ssd.sp.secsPerPg = 8 := by
    rw [h.sp]
    rfl
  unfold ZnsFtl.zoneToElpn ZnsFtl.zoneToElba ZnsFtl.lbaToLpn ZnsFtl.zoneToSlba
  rw [hnext, h.zoneLbas, hsecs]
  split
  · unfold sub64 u64 u32
    omega
  · have hfull : (z + 1) * cfg.lbas = 2 ^ 32 := by omega
    rw [hfull]
    decide

/-- Among the pages of a zone up to `e`, `zone_to_elpn` is the last one, where it does not wrap or `e` is
not the last one. -/
theorem Shaped.zoneToElpn_iff (h : Shaped cfg size ftl) (hz : z < ftl.zp.nrZones)
    (hend : z * cfg.lbas + cfg.lbas ≤ 2 ^ 32) {e b : Nat}
    (hbelow : (z + 1) * cfg.lbas < 2 ^ 32 ∨ e + 1 < cfg.pgs) (hb : b ≤ e) :
    z * cfg.pgs + b = ftl.zoneToElpn z ↔ b + 1 = cfg.pgs := by
  obtain ⟨hlbas, _, hpgs⟩ := h.lbas_pgs (Nat.lt_of_le_of_lt (Nat.zero_le z) hz)
  have hmul : z * cfg.lbas = 8 * (z * cfg.pgs) := by
    rw [hlbas]
    exact Nat.mul_left_comm _ _ _
  rw [h.zoneToElpn hz hend]
  split <;> omega

/-- The releases of the pages `a`, …, `e` of the zone `z` are the one-shot pages they complete. -/
theorem Shaped.releases_sum (h : Shaped cfg size ftl) (hz : z < ftl.zp.nrZones)
    (hend : z * cfg.lbas + cfg.lbas ≤ 2 ^ 32) (hcap : 0 < cfg.cap size ∧ cfg.cap size ≤ 2 ^ 16)
    {e : Nat} (he : e < cfg.pgs) (hbelow : (z + 1) * cfg.lbas < 2 ^ 32 ∨ e + 1 < cfg.pgs) :
    ∀ passes a, e + 1 ≤ a + passes → a ≤ e + 1 →
      (ftl.releases (ftl.zoneToElpn z) (z * cfg.pgs + e) passes (z * cfg.pgs + a)).sum +
        4096 * completed (cfg.cap size) cfg.pgs a =
      4096 * completed (cfg.cap size) cfg.pgs (e + 1) := by
  obtain ⟨_, hsize, hpgs⟩ := h.lbas_pgs (Nat.lt_of_le_of_lt (Nat.zero_le z) hz)
  have hsp : ftl.ssd.sp.pgsPerOneshotpg = cfg.cap size := by
    rw [h.sp]
    rfl
  have hbytes : ftl.oneshotBytes = 4096 * cfg.cap size := by
    unfold ZnsFtl.oneshotBytes
    rw [hsp, h.sp, Nat.mul_comm]
    rfl
  have hunaligned : ftl.unalignedSpace = 4096 * (cfg.pgs % cfg.cap size) := by
    unfold ZnsFtl.unalignedSpace
    rw [hbytes, h.zp]
    show cfg.zoneSize % _ = _
    rw [hsize, Nat.mul_mod_mul_left]
  intro passes
  induction passes with
  | zero =>
    intro a hpass ha
    obtain rfl : a = e + 1 := by omega
    exact Nat.zero_add _
  | succ passes ih =>
    intro a hpass ha
    rcases Nat.lt_or_eq_of_le ha with hlt | rfl
    · have hoff := h.pgOff hz hend hcap (show a < cfg.pgs by omega)
      have hmod := Nat.mod_lt a hcap.1
      obtain ⟨k, hk, hpos, hchunk, hin⟩ : ∃ k,
          ftl.piecePgs (z * cfg.pgs + a) (z * cfg.pgs + e) = k ∧ 0 < k ∧
            a % cfg.cap size + k ≤ cfg.cap size ∧ a + k ≤ e + 1 := by
        refine ⟨_, rfl, ?_⟩
        unfold ZnsFtl.piecePgs
        rw [hoff, hsp]
        omega
      have hstep := completed_add hcap.1 hpos hchunk (show a + k ≤ cfg.pgs by omega)
      have hrest := ih (a + k) (by omega) hin
      rw [hstep, Nat.mul_add, ← Nat.add_assoc, ← Nat.add_assoc] at hrest
      unfold ZnsFtl.releases
      rw [if_pos (by omega), hk, List.sum_append, ← hrest]
      have hlastPage := @Shaped.zoneToElpn_iff _ _ _ _ h hz hend e (a + k - 1) hbelow (by omega)
      have hpiece : z * cfg.pgs + a + k - 1 = z * cfg.pgs + (a + k - 1) := by omega
      have hcompletes : ftl.completes (ftl.zoneToElpn z) (z * cfg.pgs + a) k = true ↔
          a % cfg.cap size + k = cfg.cap size ∨ a + k = cfg.pgs := by
        unfold ZnsFtl.completes
        rw [decide_eq_true_iff, hoff, hsp, hpiece, hlastPage]
        omega
      have hreleased : ((if ftl.completes (ftl.zoneToElpn z) (z * cfg.pgs + a) k = true then
          [ftl.bufsToRelease (ftl.zoneToElpn z) (z * cfg.pgs + a + k - 1)] else []) : List Nat).sum =
          4096 * if a % cfg.cap size + k = cfg.cap size ∨ a + k = cfg.pgs then
            chunkAt (cfg.cap size) cfg.pgs (a + k) else 0 := by
        by_cases hdone : a % cfg.cap size + k = cfg.cap size ∨ a + k = cfg.pgs
        · rw [if_pos (hcompletes.mpr hdone), if_pos hdone, List.sum_singleton]
          unfold ZnsFtl.bufsToRelease chunkAt
          rw [hunaligned, hbytes, hpiece]
          have hboth : (z * cfg.pgs + (a + k - 1) = ftl.zoneToElpn z ∧
              0 < 4096 * (cfg.pgs % cfg.cap size)) ↔ a + k = cfg.pgs ∧ 0 < cfg.pgs % cfg.cap size :=
            and_congr (hlastPage.trans (by omega)) (by omega)
          by_cases hlast : a + k = cfg.pgs ∧ 0 < cfg.pgs % cfg.cap size
          · rw [if_pos hlast, if_pos (hboth.mpr hlast)]
          · rw [if_neg hlast, if_neg (mt hboth.mp hlast)]
        · rw [if_neg fun hc => hdone (hcompletes.mp hc), if_neg hdone]
          rfl
      rw [hreleased, Nat.add_assoc, Nat.add_comm]
    · unfold ZnsFtl.releases
      rw [if_neg (by omega)]
      exact Nat.zero_add _

end Pages

/-! ## Runs -/

/-- The bytes the accepted writes since its last reset took for the zone `z`. -/
def ZnsRun.allocated (s : ZnsRun) (z : Nat) : Nat := lbaToByte ((s.log z).map Prod.snd).sum

/-- The releases still to come, zone and bytes. -/
def ZnsRun.scheduled (s : ZnsRun) : List (Nat × Nat) := s.pending.map fun p => (p.1, p.2.bytes)

/-- The zones that write to the buffer `id`. -/
def ZnsFtl.usersOf (ftl : ZnsFtl) (id : BufferId) : Finset Nat :=
  ftl.zones.filter fun z => ftl.writeBuffer z = id

/-- A zone and its releases: those made and those to come are the one-shot pages below the write
pointer. -/
structure ZoneLedger (cfg : ZnsConfig) (size : Nat) (s : ZnsRun) (z : Nat) : Prop where
  seq : SeqZone cfg.lbas z (s.ftl.zoneDescs z) (s.log z)
  full : (s.ftl.zoneDescs z).state = .full →
    (s.ftl.zoneDescs z).wp = (s.ftl.zoneDescs z).zslba + (s.ftl.zoneDescs z).zoneCapacity
  scheduled : s.released z + Ledger.owed s.scheduled z =
    4096 * completed (cfg.cap size) cfg.pgs (((s.log z).map Prod.snd).sum / 8)

/-- What holds in every state of a run that conserves the buffers. -/
structure BufferSettled (cfg : ZnsConfig) (size : Nat) (s : ZnsRun) : Prop where
  shaped : Shaped cfg size s.ftl
  inv : ∃ leak, ZnsInv leak s.ftl
  zones : ∀ z, z < s.ftl.zp.nrZones → ZoneLedger cfg size s z
  pendingTo : ∀ p ∈ s.pending, p.1 < s.ftl.zp.nrZones ∧ p.2.buffer = s.ftl.writeBuffer p.1
  balanced : ∀ id, (∀ z, id ≠ .zrwa z) → Ledger.Balanced (s.ftl.usersOf id) s.allocated s.released
    (s.ftl.buffers id).remaining (s.ftl.buffers id).size

section Runs

variable {cfg : ZnsConfig} {size : Nat} {storage : Nat → Nat} {s : ZnsRun}

theorem ZnsRun.allocated_eq (s : ZnsRun) (z : Nat) :
    s.allocated z = ((s.log z).map Prod.snd).sum * 512 := rfl

/-- The zones that use a buffer. -/
theorem ZnsFtl.mem_usersOf {ftl : ZnsFtl} {z : Nat} (hz : z < ftl.zp.nrZones) (id : BufferId) :
    z ∈ ftl.usersOf id ↔ ftl.writeBuffer z = id := by
  unfold ZnsFtl.usersOf ZnsFtl.zones
  rw [Finset.mem_filter, Finset.mem_range]
  exact and_iff_right hz

/-- No zone has released more than it was charged. -/
theorem ZoneLedger.released_le {z : Nat} (h : ZoneLedger cfg size s z) :
    s.released z ≤ s.allocated z := by
  have hsched := h.scheduled
  have hle := completed_le (cfg.cap size) cfg.pgs (((s.log z).map Prod.snd).sum / 8)
  rw [s.allocated_eq]
  omega

/-- A FULL zone whose releases have all run has released what it was charged. -/
theorem ZoneLedger.released_eq {z : Nat} (h : ZoneLedger cfg size s z) (hs : Shaped cfg size s.ftl)
    (hz : z < s.ftl.zp.nrZones) (hfull : (s.ftl.zoneDescs z).state = .full)
    (hdone : ∀ p ∈ s.pending, p.1 ≠ z) : s.released z = s.allocated z := by
  obtain ⟨hlbas, _, _⟩ := hs.lbas_pgs (Nat.lt_of_le_of_lt (Nat.zero_le z) hz)
  have hsched := h.scheduled
  have hnone : Ledger.owed s.scheduled z = 0 := by
    apply Ledger.owed_eq_zero
    intro p hp
    obtain ⟨q, hq, rfl⟩ := List.mem_map.mp hp
    exact hdone q hq
  have hsum : ((s.log z).map Prod.snd).sum = cfg.lbas := by
    have htiles := h.seq.tiles.sum_eq
    have hwp := h.full hfull
    rw [h.seq.capacity] at hwp
    omega
  have hpgs : cfg.lbas / 8 = cfg.pgs := by
    rw [hlbas]
    exact Nat.mul_div_cancel_left _ (by decide)
  rw [hsum, hpgs, completed_self, hnone] at hsched
  rw [s.allocated_eq, hsum]
  omega

/-- Where the account balances no more is free than there is. -/
theorem BufferSettled.le_size (h : BufferSettled cfg size s) (id : BufferId)
    (hid : ∀ z, id ≠ .zrwa z) : (s.ftl.buffers id).remaining ≤ (s.ftl.buffers id).size := by
  apply (h.balanced id hid).le_size
  intro z hz
  exact (h.zones z (Finset.mem_range.mp (Finset.mem_filter.mp hz).1)).released_le

/-- Every write of the run that ends with an error keeps its charge; a run that conserves the buffers
has none. -/
theorem BufferSettled.no_error (h : BufferSettled cfg size s) {cmd : ZnsRwCommand} {leak : Nat}
    {r : ZnsFtl × ZnsAnswer} (hdone : CommandDone leak s.ftl (.write cmd) r)
    (hok : r.2.accepted = true) (hbad : r.2.result.status ≠ nvmeScSuccess) :
    ¬ s.ftl.Accepts cmd ∧ cmd.bytes ≤ (s.ftl.targetBuffer cmd).remaining ∧
      (r.1.targetBuffer cmd).remaining = (s.ftl.targetBuffer cmd).remaining - cmd.bytes := by
  obtain ⟨_, _, hdone⟩ := hdone.seq fun z hz => (h.zones z hz).seq.zrwav
  cases hdone with
  | short _ => exact nomatch hok
  | refused hroom hnot _ =>
    refine ⟨hnot, hroom, ?_⟩
    have hself : (s.ftl.charge cmd).targetBuffer cmd = { s.ftl.targetBuffer cmd with
        remaining := (s.ftl.targetBuffer cmd).remaining - cmd.bytes } := Function.update_self ..
    exact congrArg Buffer.remaining hself
  | written _ _ hw => exact absurd hw.status hbad

/-! ### A write -/

/-- The run after the write `cmd`. -/
def ZnsRun.wrote (s : ZnsRun) (cmd : ZnsRwCommand) (r : ZnsFtl × ZnsAnswer) : ZnsRun :=
  { ftl := r.1, released := s.released
    pending := s.pending ++ r.2.internal.map fun op => (s.ftl.target cmd, op)
    log := Function.update s.log (s.ftl.target cmd)
      (s.log (s.ftl.target cmd) ++ [(r.2.slba, cmd.nrLba)]) }

theorem ZnsRun.wrote_allocated (s : ZnsRun) (cmd : ZnsRwCommand) (r : ZnsFtl × ZnsAnswer) :
    (s.wrote cmd r).allocated = Function.update s.allocated (s.ftl.target cmd)
      (s.allocated (s.ftl.target cmd) + cmd.bytes) := by
  funext z
  rw [ZnsRun.allocated_eq]
  by_cases hz : z = s.ftl.target cmd
  · subst hz
    rw [Function.update_self, s.allocated_eq]
    show ((Function.update s.log _ _ _).map Prod.snd).sum * 512 = _ + cmd.nrLba * 512
    rw [Function.update_self, List.map_append, List.sum_append, Nat.add_mul]
    simp
  · rw [Function.update_of_ne hz, s.allocated_eq]
    show ((Function.update s.log _ _ _).map Prod.snd).sum * 512 = _
    rw [Function.update_of_ne hz]

/-- A write owes what it schedules, for its own zone. -/
theorem Written.owed {leak : Nat} {cmd : ZnsRwCommand} {r : ZnsFtl × ZnsAnswer}
    (hw : Written leak s.ftl cmd r) (z : Nat) :
    Ledger.owed (s.wrote cmd r).scheduled z = Ledger.owed s.scheduled z +
      if s.ftl.target cmd = z then (s.ftl.writeReleases cmd).sum else 0 := by
  have hnew : (r.2.internal.map fun op => (s.ftl.target cmd, op.bytes)) =
      (s.ftl.writeReleases cmd).map fun n => (s.ftl.target cmd, n) := by
    rw [← hw.internal, List.map_map]
    rfl
  unfold ZnsRun.scheduled ZnsRun.wrote
  rw [List.map_append, Ledger.owed_append, List.map_map]
  show _ + Ledger.owed (r.2.internal.map fun op => (s.ftl.target cmd, op.bytes)) z = _
  rw [hnew, Ledger.owed_for]

/-- A write that ends below the end of its zone ends below the wrap of `zone_to_elba`. -/
theorem Shaped.endsBelow_le {ftl : ZnsFtl} {cmd : ZnsRwCommand} (h : Shaped cfg size ftl)
    (hbelow : ftl.EndsBelow cmd) : ftl.target cmd * cfg.lbas + cfg.lbas ≤ 2 ^ 32 := by
  rw [← Nat.succ_mul, ← h.zoneLbas]
  rcases hbelow with hlt | ⟨heq, _⟩
  · exact Nat.le_of_lt hlt
  · exact heq.le

/-- The releases of an accepted write that does not end inside a completing page. -/
theorem ZoneLedger.writeReleases {cmd : ZnsRwCommand} (h : ZoneLedger cfg size s (s.ftl.target cmd))
    (hs : Shaped cfg size s.ftl) (hcap : 0 < cfg.cap size ∧ cfg.cap size ≤ 2 ^ 16)
    (hz : s.ftl.target cmd < s.ftl.zp.nrZones) (hacc : s.ftl.Accepts cmd)
    (hnot : ¬ s.ftl.EndsInside cmd) (hbelow : s.ftl.EndsBelow cmd) :
    (s.ftl.writeReleases cmd).sum + 4096 * completed (cfg.cap size) cfg.pgs
        (((s.log (s.ftl.target cmd)).map Prod.snd).sum / 8) =
      4096 * completed (cfg.cap size) cfg.pgs
        ((((s.log (s.ftl.target cmd)).map Prod.snd).sum + cmd.nrLba) / 8) := by
  obtain ⟨hlbas, _, hpgs⟩ := hs.lbas_pgs (Nat.lt_of_le_of_lt (Nat.zero_le _) hz)
  have hend := hs.endsBelow_le hbelow
  unfold ZnsFtl.EndsBelow at hbelow
  rw [hs.zoneLbas] at hbelow
  have hacc' := hacc
  unfold ZnsFtl.Accepts at hacc'
  rw [hacc.atWp] at hacc'
  have hin := hacc'.inZone hs hz hend h.seq cmd.length_lt (Nat.succ_pos _)
  have htiles := h.seq.tiles.sum_eq
  have hpos : 0 < cmd.nrLba := Nat.succ_pos _
  have hsecs : s.ftl.ssd.sp.secsPerPg = 8 := by
    rw [hs.sp]
    rfl
  have hsp : s.ftl.ssd.sp.pgsPerOneshotpg = cfg.cap size := by
    rw [hs.sp]
    rfl
  have hmul : s.ftl.target cmd * cfg.lbas = 8 * (s.ftl.target cmd * cfg.pgs) := by
    rw [hlbas]
    exact Nat.mul_left_comm _ _ _
  rw [h.seq.zslba, h.seq.capacity, hmul] at hin
  rw [h.seq.zslba, hmul] at htiles
  rw [hmul] at hend
  -- `o` LBAs of the zone are written; the command adds `n`
  generalize ho : ((s.log (s.ftl.target cmd)).map Prod.snd).sum = o at htiles ⊢
  have hslba : s.ftl.targetSlba cmd = 8 * (s.ftl.target cmd * cfg.pgs) + o :=
    hacc.atWp.trans htiles.symm
  have hlast : lastLba (s.ftl.targetSlba cmd) cmd.nrLba =
      8 * (s.ftl.target cmd * cfg.pgs) + (o + cmd.nrLba - 1) := by
    rw [hslba]
    unfold lastLba sub64 u64
    omega
  have hslpn : s.ftl.lbaToLpn (s.ftl.targetSlba cmd) = s.ftl.target cmd * cfg.pgs + o / 8 := by
    unfold ZnsFtl.lbaToLpn
    rw [hsecs, hslba]
    omega
  have helpn : s.ftl.lbaToLpn (lastLba (s.ftl.targetSlba cmd) cmd.nrLba) =
      s.ftl.target cmd * cfg.pgs + (o + cmd.nrLba - 1) / 8 := by
    unfold ZnsFtl.lbaToLpn
    rw [hsecs, hlast]
    omega
  have hbelow' : (s.ftl.target cmd + 1) * cfg.lbas < 2 ^ 32 ∨ (o + cmd.nrLba - 1) / 8 + 1 < cfg.pgs := by
    refine hbelow.imp_right fun ⟨heq, hlt⟩ => ?_
    rw [helpn, hsecs] at hlt
    rw [Nat.succ_mul, hmul] at heq
    omega
  have hsum := hs.releases_sum hz (hmul ▸ hend) hcap (show (o + cmd.nrLba - 1) / 8 < cfg.pgs by omega)
    hbelow' (s.ftl.target cmd * cfg.pgs + (o + cmd.nrLba - 1) / 8 + 1 -
      (s.ftl.target cmd * cfg.pgs + o / 8)) (o / 8) (by omega) (by omega)
  unfold ZnsFtl.writeReleases
  dsimp only
  rw [hslpn, helpn, hsum]
  apply congrArg (4096 * ·)
  unfold ZnsFtl.EndsInside ZnsFtl.completes at hnot
  have hlastPage := @Shaped.zoneToElpn_iff _ _ _ _ hs hz (hmul ▸ hend) _ _ hbelow' (Nat.le_refl _)
  rw [decide_eq_true_iff, helpn, hsecs, hslba, Nat.add_sub_cancel, hlastPage, hsp] at hnot
  by_cases haligned : (o + cmd.nrLba) % 8 = 0
  · apply congrArg
    omega
  · have hsame : (o + cmd.nrLba - 1) / 8 = (o + cmd.nrLba) / 8 := by omega
    have hend' : s.ftl.target cmd * cfg.lbas + cfg.lbas ≤ 2 ^ 32 := by
      rw [hmul]
      exact hend
    have hoff := hs.pgOff hz hend' hcap (show (o + cmd.nrLba - 1) / 8 < cfg.pgs by omega)
    rw [hoff] at hnot
    have hmod := Nat.mod_lt ((o + cmd.nrLba - 1) / 8) hcap.1
    rw [completed_add hcap.1 Nat.one_pos (by omega) (by omega), if_neg, Nat.add_zero, hsame]
    intro hdone
    apply hnot
    omega

/-- An accepted write keeps the balance. -/
theorem BufferSettled.wrote (h : BufferSettled cfg size s) {leak : Nat} {cmd : ZnsRwCommand}
    {r : ZnsFtl × ZnsAnswer} (hw : Written leak s.ftl cmd r)
    (hcap : 0 < cfg.cap size ∧ cfg.cap size ≤ 2 ^ 16) (hz : s.ftl.target cmd < s.ftl.zp.nrZones)
    (hroom : cmd.bytes ≤ (s.ftl.targetBuffer cmd).remaining) (hacc : s.ftl.Accepts cmd)
    (hnot : ¬ s.ftl.EndsInside cmd) (hbelow : s.ftl.EndsBelow cmd) :
    BufferSettled cfg size (s.wrote cmd r) := by
  have hend := h.shaped.endsBelow_le hbelow
  have hzp : (s.wrote cmd r).ftl.zp = s.ftl.zp := hw.zp
  have hbuffer : (s.wrote cmd r).ftl.writeBuffer = s.ftl.writeBuffer := by
    funext z
    unfold ZnsFtl.writeBuffer
    rw [hzp]
  constructor
  · exact h.shaped.congr hw.zp hw.sp
  · exact ⟨leak, hw.inv⟩
  · intro z hzone
    rw [hzp] at hzone
    have hold := h.zones z hzone
    constructor
    · exact hw.seqZone h.shaped hzone (fun he => he ▸ hend) hacc hold.seq
    · intro hfull
      by_cases hzt : z = s.ftl.target cmd
      · subst hzt
        have hdesc : (s.wrote cmd r).ftl.zoneDescs (s.ftl.target cmd) = _ := hw.desc
        rw [hdesc] at hfull ⊢
        exact (ZoneDescriptor.advance_full.mp hfull).trans (h.shaped.zoneLimit hz hend hold.seq)
      · have hdesc : (s.wrote cmd r).ftl.zoneDescs z = s.ftl.zoneDescs z := hw.others z hzt
        rw [hdesc] at hfull ⊢
        exact hold.full hfull
    · have hsched := hold.scheduled
      have hreleased : (s.wrote cmd r).released z = s.released z := rfl
      rw [hw.owed, hreleased, ← Nat.add_assoc]
      by_cases hzt : z = s.ftl.target cmd
      · subst hzt
        have hlog : (s.wrote cmd r).log (s.ftl.target cmd) =
            s.log (s.ftl.target cmd) ++ [(r.2.slba, cmd.nrLba)] := Function.update_self ..
        rw [if_pos rfl, hlog, List.map_append, List.sum_append, hsched, Nat.add_comm,
          hold.writeReleases h.shaped hcap hz hacc hnot hbelow]
        rfl
      · have hlog : (s.wrote cmd r).log z = s.log z := Function.update_of_ne hzt ..
        rw [if_neg fun he => hzt he.symm, hlog, Nat.add_zero]
        exact hsched
  · intro p hp
    rw [hzp, hbuffer]
    rcases List.mem_append.mp hp with hold | hnew
    · exact h.pendingTo p hold
    · obtain ⟨op, hop, rfl⟩ := List.mem_map.mp hnew
      exact ⟨hz, hw.releasesTo op hop⟩
  · intro id hid
    have husers : (s.wrote cmd r).ftl.usersOf id = s.ftl.usersOf id := by
      unfold ZnsFtl.usersOf ZnsFtl.zones
      rw [hzp, hbuffer]
    have hbuf : (s.wrote cmd r).ftl.buffers id = (s.ftl.charge cmd).buffers id := hw.buffers id hid
    have hold := h.balanced id hid
    rw [husers, hbuf, s.wrote_allocated]
    by_cases huser : s.ftl.writeBuffer (s.ftl.target cmd) = id
    · subst huser
      have hcharged : (s.ftl.charge cmd).buffers (s.ftl.writeBuffer (s.ftl.target cmd)) =
          { s.ftl.targetBuffer cmd with
            remaining := (s.ftl.targetBuffer cmd).remaining - cmd.bytes } := Function.update_self ..
      rw [hcharged]
      exact hold.take ((ZnsFtl.mem_usersOf hz _).mpr rfl) hroom
    · have hother : (s.ftl.charge cmd).buffers id = s.ftl.buffers id :=
        Function.update_of_ne (fun he => huser he.symm) ..
      rw [hother]
      exact hold.take_other (fun hmem => huser ((ZnsFtl.mem_usersOf hz _).mp hmem)) _

/-! ### A release -/

/-- The run after the release of `op` for the zone `zid`, the pending one at `k`. -/
def ZnsRun.afterRelease (s : ZnsRun) (k zid : Nat) (op : ScheduledRelease) : ZnsRun :=
  { s with
    ftl := s.ftl.performRelease op
    pending := s.pending.eraseIdx k
    released := Function.update s.released zid (s.released zid + op.bytes) }

/-- So does a release that is carried out. -/
theorem BufferSettled.release (h : BufferSettled cfg size s) {k zid : Nat} {op : ScheduledRelease}
    (hop : s.pending[k]? = some (zid, op)) : BufferSettled cfg size (s.afterRelease k zid op) := by
  obtain ⟨hz, hto⟩ := h.pendingTo _ (List.mem_of_getElem? hop)
  have hsched : s.scheduled[k]? = some (zid, op.bytes) := by
    unfold ZnsRun.scheduled
    rw [List.getElem?_map, hop]
    rfl
  have herase : (s.afterRelease k zid op).scheduled = s.scheduled.eraseIdx k :=
    (List.eraseIdx_map ..).symm
  obtain ⟨leak, hinv⟩ := h.inv
  constructor
  · exact h.shaped.congr rfl rfl
  · exact ⟨leak, hinv.performRelease op⟩
  · intro z hzone
    have hold := h.zones z hzone
    refine ⟨hold.seq, hold.full, ?_⟩
    have hsum := hold.scheduled
    have howed := Ledger.owed_eraseIdx hsched z
    rw [herase]
    show Function.update s.released zid (s.released zid + op.bytes) z + _ = _
    by_cases hzid : z = zid
    · subst hzid
      rw [if_pos rfl] at howed
      rw [Function.update_self]
      show _ = 4096 * completed (cfg.cap size) cfg.pgs (((s.log z).map Prod.snd).sum / 8)
      omega
    · rw [if_neg fun he => hzid he.symm, Nat.add_zero] at howed
      rw [Function.update_of_ne hzid, howed]
      exact hsum
  · intro p hp
    exact h.pendingTo p (List.mem_of_mem_eraseIdx hp)
  · intro id hid
    have hold := h.balanced id hid
    show Ledger.Balanced (s.ftl.usersOf id) s.allocated
      (Function.update s.released zid (s.released zid + op.bytes))
      ((s.ftl.performRelease op).buffers id).remaining ((s.ftl.performRelease op).buffers id).size
    by_cases huser : s.ftl.writeBuffer zid = id
    · have hbuf : (s.ftl.performRelease op).buffers id = bufferRelease (s.ftl.buffers id) op.bytes := by
        rw [← huser, ← hto]
        exact Function.update_self ..
      rw [hbuf]
      exact hold.give ((ZnsFtl.mem_usersOf hz _).mpr huser) op.bytes
    · have hbuf : (s.ftl.performRelease op).buffers id = s.ftl.buffers id := by
        apply Function.update_of_ne
        intro he
        exact huser (hto.symm.trans he.symm)
      rw [hbuf]
      exact hold.give_other (fun hmem => huser ((ZnsFtl.mem_usersOf hz _).mp hmem)) _

/-! ### All runs -/

/-- A fresh buffer is all free. -/
theorem initBuffers_unused (zp : ZnsParams) (spp : SsdParams) (id : BufferId) :
    (initBuffers zp spp id).remaining = (initBuffers zp spp id).size := by
  cases id <;> rfl

/-- At boot everything balances. -/
theorem FreshZns.bufferSettled (hfresh : FreshZns cfg size s.ftl) (hpending : s.pending = [])
    (hreleased : s.released = fun _ => 0) (hlog : s.log = fun _ => []) : BufferSettled cfg size s := by
  constructor
  · exact hfresh.toShaped
  · exact ⟨0, hfresh.inv⟩
  · intro z hz
    have hseq := hfresh.seqZone hz
    constructor
    · rw [hlog]
      exact hseq
    · rw [hfresh.zoneDescs]
      exact nofun
    · have hnone : Ledger.owed s.scheduled z = 0 := by
        unfold ZnsRun.scheduled
        rw [hpending]
        rfl
      have hzero : completed (cfg.cap size) cfg.pgs 0 = 0 := Nat.le_zero.mp (completed_le ..)
      rw [hnone, hreleased, hlog]
      simp [hzero]
  · rw [hpending]
    exact nofun
  · intro id hid
    have hout : s.allocated = fun _ => 0 := by
      funext z
      rw [s.allocated_eq, hlog]
      exact Nat.zero_mul 512
    have hfull : (s.ftl.buffers id).remaining = (s.ftl.buffers id).size := by
      have hunused := initBuffers_unused s.ftl.zp s.ftl.ssd.sp id
      rw [← hfresh.buffers] at hunused
      exact hunused
    unfold Ledger.Balanced
    rw [hout, hreleased, hfull]

/-- A run takes its steps to the states `wrote` and `afterRelease`, or stays. -/
theorem znsRuns_bufferSettled (hcap : 0 < cfg.cap size ∧ cfg.cap size ≤ 2 ^ 16) :
    ((znsRuns cfg size storage).guarded ConservesBuffer).Invariant (BufferSettled cfg size) where
  init s hs := by
    obtain ⟨⟨env, env', hrun⟩, hpending, hreleased, hlog⟩ := hs
    exact ((znsInitNamespace_ensures cfg size storage).of_run hrun).bufferSettled hpending hreleased
      hlog
  step s e s' hs hstep := by
    obtain ⟨hguard, hstep⟩ := hstep
    obtain ⟨leak, hinv⟩ := hs.inv
    cases hstep with
    | release hop => exact hs.release hop
    | @command cmd _ _ _ _ _ _ hrun hlog =>
      cases cmd with
      | write cmd =>
        obtain ⟨hin, _, hdone⟩ :=
          (hinv.ran hs.shaped hrun).seq fun z hz => (hs.zones z hz).seq.zrwav
        cases hlog with
        | quiet hnw _ => exact absurd rfl (hnw cmd)
        | written hok hstatus =>
          cases hdone with
          | short _ => exact nomatch hok
          | refused _ _ hbad => exact absurd hstatus hbad
          | written hroom hacc hw =>
            obtain ⟨_, hnot, hbelow⟩ := hguard.2 hroom
            exact hs.wrote hw hcap hin hroom hacc hnot hbelow
        | unwritten hnot =>
          cases hdone with
          | short _ =>
            rw [ZnsAnswer.retry, List.map_nil, List.append_nil]
            exact hs
          | refused hroom hrefused _ => exact absurd (hguard.2 hroom).1 hrefused
          | written _ _ hw => exact absurd ⟨hw.accepted, hw.status⟩ hnot
      | read _ | flush | zoneMgmtSend _ | zoneMgmtRecv _ | other => exact hguard.elim

/-- In every run that conserves the buffers, no buffer is over its size, and a FULL zone whose
releases have run has released what was allocated for it. A write that ends with an error is none of
these runs' steps: it has lost its bytes. The runs are of writes, appends and releases, in any
order; reads and zone commands are none of their steps, nor are writes past the last zone. -/
theorem zone_buffers_conserved (hcap : 0 < cfg.cap size ∧ cfg.cap size ≤ 2 ^ 16) {s : ZnsRun}
    (h : ((znsRuns cfg size storage).guarded ConservesBuffer).Reachable s) :
    (∀ id, (∀ z, id ≠ .zrwa z) → (s.ftl.buffers id).remaining ≤ (s.ftl.buffers id).size) ∧
      (∀ z, z < s.ftl.zp.nrZones → (s.ftl.zoneDescs z).state = .full →
        (∀ p ∈ s.pending, p.1 ≠ z) → s.released z = s.allocated z) ∧
      ∀ cmd nsecsStart env r env',
        (s.ftl.znsProcNvmeIoCmd (.write cmd) nsecsStart).run env = .ok (r, env') →
        r.2.accepted = true → r.2.result.status ≠ nvmeScSuccess →
        ¬ ConservesBuffer s (.command (.write cmd) nsecsStart) ∧
          (r.1.targetBuffer cmd).remaining + cmd.bytes = (s.ftl.targetBuffer cmd).remaining := by
  have hs := (znsRuns_bufferSettled hcap).reachable h
  obtain ⟨leak, hinv⟩ := hs.inv
  refine ⟨hs.le_size, fun z hz hfull hdone => (hs.zones z hz).released_eq hs.shaped hz hfull hdone, ?_⟩
  intro cmd nsecsStart env r env' hrun hok hbad
  obtain ⟨hnot, hroom, hlost⟩ := hs.no_error (hinv.ran hs.shaped hrun) hok hbad
  constructor
  · exact fun hguard => hnot (hguard.2 hroom).1
  · rw [hlost]
    exact Nat.sub_add_cancel hroom

/-- A write to a zone without ZRWA comes to an end, unless the buffer is too small for it. -/
theorem ZnsInv.write_ends {ftl : ZnsFtl} {leak nsecsStart : Nat} {cmd : ZnsRwCommand}
    (h : ZnsInv leak ftl) (hs : Shaped cfg size ftl) (hz : ftl.target cmd < ftl.zp.nrZones)
    (hav : (ftl.zoneDescs (ftl.target cmd)).zrwav = false)
    (hfits : cmd.bytes ≤ (ftl.targetBuffer cmd).size) :
    Ensures (fun _ => False) (ftl.znsProcNvmeIoCmd (.write cmd) nsecsStart)
      (SeqDone leak ftl { cmd, nsecsStart }) := by
  have hfold : ftl.znsProcNvmeIoCmd (.write cmd) nsecsStart =
      ftl.znsWriteSeq { cmd, nsecsStart } := by
    unfold ZnsFtl.znsProcNvmeIoCmd ZnsFtl.znsWrite
    dsimp only
    rw [hs.lpnToZone, ← ZnsFtl.target, if_neg (Nat.not_le.mpr hz), if_pos hav]
  rw [hfold]
  exact @ZnsInv.writeSeq _ _ _ { cmd, nsecsStart } h hz hav (Nat.not_lt.mpr hfits)

/-- A write that is accepted and fits comes to its end. -/
theorem ZnsInv.exists_write {ftl : ZnsFtl} {leak nsecsStart : Nat} {cmd : ZnsRwCommand}
    (h : ZnsInv leak ftl) (hs : Shaped cfg size ftl) (hz : ftl.target cmd < ftl.zp.nrZones)
    (hav : (ftl.zoneDescs (ftl.target cmd)).zrwav = false)
    (hfits : cmd.bytes ≤ (ftl.targetBuffer cmd).size) (env : Env) :
    ∃ r env', (ftl.znsProcNvmeIoCmd (.write cmd) nsecsStart).run env = .ok (r, env') ∧
      SeqDone leak ftl { cmd, nsecsStart } r := by
  obtain ⟨r, env', hrun, hr⟩ := (@ZnsInv.write_ends _ _ _ _ nsecsStart _ h hs hz hav hfits).total env
  exact ⟨r, env', hrun, hr⟩

end Runs

/-! ## Writes to a fresh ZN540 -/

section Fresh

/-- The write of the LBAs from 0 to 184, which ends in the last page of the first one-shot page. -/
def insideLastPage : ZnsRwCommand :=
  { append := false, slba := 0, length := 184, fua := false
    slba_lt := zero_lt_u64, length_lt := by decide }

/-- The write of the second page. -/
def secondPage : ZnsRwCommand :=
  { append := false, slba := 8, length := 7, fua := false, slba_lt := by decide, length_lt := seven_lt_u16 }

variable {s : ZnsRun} {cmd : ZnsRwCommand}

/-- A write, unlike an append, is taken at its address. -/
theorem ZnsFtl.targetSlba_write (ftl : ZnsFtl) (happ : cmd.append = false) :
    ftl.targetSlba cmd = cmd.slba :=
  if_neg (Bool.eq_false_iff.mp happ)

theorem FreshZns.wp_zero (h : FreshZns wdZn540 twoZones s.ftl) : (s.ftl.zoneDescs 0).wp = 0 := by
  rw [h.zoneDescs]
  exact Nat.zero_mul _

theorem Shaped.zoneLbas_two {ftl : ZnsFtl} (h : Shaped wdZn540 twoZones ftl) :
    ftl.zoneLbas = 4194304 := by
  rw [h.zoneLbas]
  rfl

theorem FreshZns.target_two (h : FreshZns wdZn540 twoZones s.ftl) (hslba : cmd.slba < 4194304) :
    s.ftl.target cmd = 0 := by
  unfold ZnsFtl.target ZnsFtl.lbaToZone
  rw [h.zoneLbas_two, Nat.div_eq_of_lt hslba]
  rfl

theorem FreshZns.buffer_two (h : FreshZns wdZn540 twoZones s.ftl) :
    s.ftl.buffers (.zone 0) = bufferInit 983040 := by
  rw [h.buffers, h.zp]
  rfl

theorem FreshZns.targetBuffer_two (h : FreshZns wdZn540 twoZones s.ftl) (hslba : cmd.slba < 4194304) :
    s.ftl.writeBuffer (s.ftl.target cmd) = .zone 0 ∧
      s.ftl.targetBuffer cmd = bufferInit 983040 := by
  have hbuffer : s.ftl.writeBuffer (s.ftl.target cmd) = .zone 0 := by
    unfold ZnsFtl.writeBuffer
    rw [h.target_two hslba, h.zp]
    rfl
  refine ⟨hbuffer, ?_⟩
  unfold ZnsFtl.targetBuffer
  rw [hbuffer, h.buffer_two]

theorem FreshZns.accepts_two (h : FreshZns wdZn540 twoZones s.ftl) (hslba : cmd.slba = 0)
    (happ : cmd.append = false) : s.ftl.Accepts cmd := by
  have htarget := h.target_two (hslba.trans_lt (by decide))
  have hstart := (s.ftl.targetSlba_write happ).trans hslba
  have hlen := cmd.length_lt
  unfold ZnsFtl.Accepts
  rw [htarget, hstart]
  constructor
  · rw [h.sp]
    exact Nat.mul_mod_left _ _
  · have hlast : lastLba 0 (u32 cmd.nrLba) < 4194304 := by
      unfold lastLba sub64 u64 u32 ZnsRwCommand.nrLba
      omega
    unfold ZnsFtl.checkBoundaryError ZnsFtl.lbaToZone
    rw [h.zoneLbas_two, Nat.div_eq_of_lt hlast, Nat.zero_div]
    rfl
  · exact h.wp_zero.symm
  · rw [h.zoneDescs]
    exact .inr ⟨rfl, (Nat.zero_mul _).symm⟩

/-- The 185 LBAs count as a whole one-shot page. -/
theorem FreshZns.releases_two (h : FreshZns wdZn540 twoZones s.ftl) :
    s.ftl.writeReleases insideLastPage = [98304] := by
  have htarget := @FreshZns.target_two s insideLastPage h (by decide)
  have hzones : 0 < s.ftl.zp.nrZones := by
    rw [h.zp]
    decide
  have hoff : s.ftl.pgOff 0 = 0 := by
    have hpage := @Shaped.pgOff wdZn540 twoZones 0 s.ftl h.toShaped hzones (by decide) (by decide) 0
      (by decide)
    rw [Nat.zero_mul] at hpage
    exact hpage
  have helpn : s.ftl.zoneToElpn 0 = 524287 := h.zoneToElpn hzones (by decide)
  have hcap : s.ftl.ssd.sp.pgsPerOneshotpg = 24 := by
    rw [h.sp]
    rfl
  have hslpn : s.ftl.lbaToLpn 0 = 0 := Nat.zero_div _
  have hlast : s.ftl.lbaToLpn (lastLba 0 185) = 23 := by
    unfold ZnsFtl.lbaToLpn
    rw [h.sp]
    rfl
  have honeshot : s.ftl.oneshotBytes = 98304 := by
    unfold ZnsFtl.oneshotBytes
    rw [h.sp]
    rfl
  have hpiece : s.ftl.piecePgs 0 23 = 24 := by
    unfold ZnsFtl.piecePgs
    rw [hoff, hcap]
    rfl
  have hdone : s.ftl.completes 524287 0 24 = true := by
    unfold ZnsFtl.completes
    rw [hoff, hcap]
    rfl
  unfold ZnsFtl.writeReleases
  dsimp only
  rw [htarget, s.ftl.targetSlba_write rfl, helpn]
  show s.ftl.releases 524287 (s.ftl.lbaToLpn (lastLba 0 185))
    (s.ftl.lbaToLpn (lastLba 0 185) + 1 - s.ftl.lbaToLpn 0) (s.ftl.lbaToLpn 0) = _
  rw [hlast, hslpn]
  show s.ftl.releases 524287 23 (23 + 1) 0 = _
  unfold ZnsFtl.releases
  rw [if_pos (by decide), hpiece, if_pos hdone]
  unfold ZnsFtl.releases ZnsFtl.bufsToRelease
  rw [honeshot]
  rfl

/-- A write to a fresh zone comes to an end. -/
theorem FreshZns.exists_write_two (h : FreshZns wdZn540 twoZones s.ftl) (hslba : cmd.slba < 4194304)
    (hfits : cmd.bytes ≤ 983040) :
    ∃ r env', (s.ftl.znsProcNvmeIoCmd (.write cmd) 0).run Env.zero = .ok (r, env') ∧
      SeqDone 0 s.ftl { cmd, nsecsStart := 0 } r := by
  have htarget := h.target_two hslba
  apply h.inv.exists_write h.toShaped
  · rw [htarget, h.zp]
    decide
  · rw [htarget, h.zoneDescs]
    rfl
  · rw [(h.targetBuffer_two hslba).2]
    exact hfits

theorem FreshZns.exists_wrote_two (h : FreshZns wdZn540 twoZones s.ftl) (hslba : cmd.slba = 0)
    (happ : cmd.append = false) (hfits : cmd.bytes ≤ 983040) :
    ∃ r, ZnsStep s (.command (.write cmd) 0) (s.wrote cmd r) ∧ Written 0 s.ftl cmd r := by
  have hbelow : cmd.slba < 4194304 := hslba.trans_lt (by decide)
  obtain ⟨r, env', hrun, hdone⟩ := h.exists_write_two hbelow hfits
  have hbuffer := (h.targetBuffer_two hbelow).2
  cases hdone with
  | short hshort =>
    rw [hbuffer] at hshort
    exact absurd hshort (Nat.not_lt.mpr hfits)
  | refused _ hnot _ => exact absurd (h.accepts_two hslba happ) hnot
  | written _ _ hw => exact ⟨r, .command hrun (.written hw.accepted hw.status), hw⟩

end Fresh

/-- The state after a write that is taken, or after a release; the clock says 0. -/
def ZnsRun.nextWrite (s : ZnsRun) : ZnsEvent → Option ZnsRun
  | .command (.write cmd) nsecsStart =>
    match (s.ftl.znsProcNvmeIoCmd (.write cmd) nsecsStart).run .zero with
    | .ok (r, _) =>
      if r.2.accepted = true ∧ r.2.result.status = nvmeScSuccess then some (s.wrote cmd r) else none
    | .error _ => none
  | .command _ _ => none
  | .release k =>
    match s.pending[k]? with
    | some (zid, op) =>
      some { s with
        ftl := s.ftl.performRelease op
        pending := s.pending.eraseIdx k
        released := Function.update s.released zid (s.released zid + op.bytes) }
    | none => none

/-- The write ends at the end of a page, in a zone that ends below 2³² LBAs. -/
def endsWhole (s : ZnsRun) : ZnsEvent → Bool
  | .command (.write cmd) _ =>
    cmd.bytes % s.ftl.ssd.sp.writeUnitSize = 0 ∧
      (s.ftl.targetSlba cmd + cmd.nrLba) % s.ftl.ssd.sp.secsPerPg = 0 ∧
      (s.ftl.target cmd + 1) * s.ftl.zoneLbas < 2 ^ 32
  | .command _ _ => false
  | .release _ => true

/-- Such writes conserve the buffers when they are taken. -/
theorem BufferSettled.nextWrite {cfg : ZnsConfig} {size : Nat} {s s' : ZnsRun} {e : ZnsEvent}
    (hs : BufferSettled cfg size s) (hwhole : endsWhole s e = true) (h : s.nextWrite e = some s') :
    ConservesBuffer s e ∧ ZnsStep s e s' := by
  unfold ZnsRun.nextWrite at h
  cases e with
  | release k =>
    dsimp only at h
    split at h
    · rename_i hop
      obtain rfl := Option.some.inj h
      exact ⟨trivial, .release hop⟩
    · cases h
  | command cmd nsecsStart =>
    cases cmd with
    | read _ | flush | zoneMgmtSend _ | zoneMgmtRecv _ | other => cases h
    | write cmd =>
      dsimp only at h
      split at h
      · rename_i hrun
        split at h
        · rename_i htaken
          obtain rfl := Option.some.inj h
          obtain ⟨hunits, hend, hbelow⟩ := of_decide_eq_true hwhole
          obtain ⟨leak, hinv⟩ := hs.inv
          obtain ⟨_, _, hdone⟩ := (hinv.ran hs.shaped hrun).seq fun z hz => (hs.zones z hz).seq.zrwav
          refine ⟨⟨hunits, fun _ => ?_⟩, .command hrun (.written htaken.1 htaken.2)⟩
          cases hdone with
          | short _ => exact nomatch htaken.1
          | refused _ _ hbad => exact absurd htaken.2 hbad
          | written _ hacc _ => exact ⟨hacc, fun hinside => hinside.1 hend, .inl hbelow⟩
        · cases h
      · cases h

/-- A fresh ZN540 of two zones after some writes and releases. -/
def wroteTwo (es : List ZnsEvent) : Option ZnsRun :=
  match (znsInitNamespace wdZn540 twoZones fun _ => 0).run .zero with
  | .ok (ftl, _) =>
    System.follow (fun s e => if endsWhole s e = true then s.nextWrite e else none)
      ⟨ftl, [], fun _ => 0, fun _ => []⟩ es
  | .error _ => none

/-- A whole one-shot page of a zone, and the page after it. -/
def firstOneshot : ZnsRwCommand := { firstPage with length := 191, length_lt := by decide }
def afterOneshot : ZnsRwCommand := { firstPage with slba := 192, slba_lt := by decide }

/-- A one-shot page is written and released, and the next page written. -/
theorem zone_buffers_conserved_oneshot :
    ∃ s, ((znsRuns wdZn540 twoZones fun _ => 0).guarded ConservesBuffer).Reachable s ∧
      s.allocated 0 = 102400 ∧ s.released 0 = 98304 ∧
      (s.ftl.buffers (.zone 0)).remaining = 983040 - 4096 ∧
      (s.ftl.buffers (.zone 0)).remaining ≤ (s.ftl.buffers (.zone 0)).size := by
  have hrun : (wroteTwo [.command (.write firstOneshot) 0, .release 0,
      .command (.write afterOneshot) 0]).any (fun s => s.allocated 0 = 102400 ∧
        s.released 0 = 98304 ∧ (s.ftl.buffers (.zone 0)).remaining = 983040 - 4096) = true := by
    decide +kernel
  obtain ⟨s, hs, hends⟩ := (Option.any_eq_true _ _).mp hrun
  obtain ⟨hallocated, hreleased, hremaining⟩ := of_decide_eq_true hends
  have hcap : 0 < wdZn540.cap twoZones ∧ wdZn540.cap twoZones ≤ 2 ^ 16 := by decide
  have hreach : ((znsRuns wdZn540 twoZones fun _ => 0).guarded ConservesBuffer).Reachable s := by
    unfold wroteTwo at hs
    split at hs
    · rename_i ftl env' hinit
      refine System.Reachable.follow (fun t e t' ht hnext => ?_) _
        (.init ⟨⟨.zero, env', hinit⟩, rfl, rfl, rfl⟩) hs
      split at hnext
      · rename_i hwhole
        exact ((znsRuns_bufferSettled hcap).reachable ht).nextWrite hwhole hnext
      · cases hnext
    · cases hs
  exact ⟨s, hreach, hallocated, hreleased, hremaining,
    (zone_buffers_conserved hcap hreach).1 (.zone 0) nofun⟩

/-- On a fresh ZN540 a write that is refused loses its bytes, and a write that ends inside the last
page of a one-shot page gives back more than it took. -/
theorem zone_buffers_leak_two : ∃ s, (znsRuns wdZn540 twoZones fun _ => 0).init s ∧
    (∃ r env', (s.ftl.znsProcNvmeIoCmd (.write secondPage) 0).run Env.zero = .ok (r, env') ∧
      r.2.accepted = true ∧ r.2.result.status ≠ nvmeScSuccess ∧
      (r.1.buffers (.zone 0)).remaining + 4096 = (s.ftl.buffers (.zone 0)).remaining) ∧
    ∃ s' s'', ZnsStep s (.command (.write insideLastPage) 0) s' ∧ ZnsStep s' (.release 0) s'' ∧
      (s''.ftl.buffers (.zone 0)).size < (s''.ftl.buffers (.zone 0)).remaining := by
  obtain ⟨s, hinit, hfresh⟩ := @exists_freshZns wdZn540 twoZones (fun _ => 0) (by decide) (by decide)
  refine ⟨s, hinit, ?_, ?_⟩
  · obtain ⟨r, env', hrun, hdone⟩ := @FreshZns.exists_write_two s secondPage hfresh (by decide)
      (by decide)
    have htarget := @FreshZns.target_two s secondPage hfresh (by decide)
    obtain ⟨hto, hbuffer⟩ := @FreshZns.targetBuffer_two s secondPage hfresh (by decide)
    cases hdone with
    | short hshort =>
      rw [hbuffer] at hshort
      exact absurd hshort (by decide)
    | refused _ _ hbad =>
      refine ⟨_, env', hrun, rfl, hbad, ?_⟩
      have hcharged : (s.ftl.charge secondPage).buffers (.zone 0) =
          ({ size := 983040, remaining := 983040 - 4096 } : Buffer) := by
        unfold ZnsFtl.charge
        rw [hto, hbuffer, ZnsFtl.setBuffer_self]
        rfl
      rw [hcharged, hfresh.buffer_two]
      rfl
    | written _ hacc _ =>
      have hwp := hacc.atWp
      rw [htarget, hfresh.wp_zero, s.ftl.targetSlba_write rfl] at hwp
      exact absurd hwp (by decide : ¬ secondPage.slba = 0)
  · obtain ⟨r, hstep, hw⟩ := @FreshZns.exists_wrote_two s insideLastPage hfresh rfl rfl (by decide)
    have htarget := @FreshZns.target_two s insideLastPage hfresh (by decide)
    obtain ⟨hto, hbuffer⟩ := @FreshZns.targetBuffer_two s insideLastPage hfresh (by decide)
    have hreleases := hfresh.releases_two
    rw [← hw.internal] at hreleases
    obtain ⟨op, hop, hbytes⟩ := List.map_eq_singleton_iff.mp hreleases
    have hpending : (s.wrote insideLastPage r).pending[0]? = some (0, op) := by
      obtain ⟨_, hnone, _⟩ := hinit
      unfold ZnsRun.wrote
      rw [hop, hnone, htarget]
      rfl
    refine ⟨_, _, hstep, .release hpending, ?_⟩
    have hcharged : r.1.buffers (.zone 0) =
        ({ size := 983040, remaining := 983040 - 94720 } : Buffer) := by
      rw [hw.buffers (.zone 0) nofun]
      unfold ZnsFtl.charge
      rw [hto, hbuffer, ZnsFtl.setBuffer_self]
      rfl
    have hopTo : op.buffer = .zone 0 := by
      rw [← hto]
      apply hw.releasesTo
      rw [hop]
      exact List.mem_singleton_self op
    have hreleased : ((s.wrote insideLastPage r).ftl.performRelease op).buffers (.zone 0) =
        bufferRelease (r.1.buffers (.zone 0)) 98304 := by
      unfold ZnsFtl.performRelease
      rw [hopTo, hbytes, ZnsFtl.setBuffer_self]
      rfl
    show (((s.wrote insideLastPage r).ftl.performRelease op).buffers (.zone 0)).size < _
    rw [hreleased, hcharged]
    decide

end NvmeVirt

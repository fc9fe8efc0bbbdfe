import Mathlib.Tactic.Ring
import NvmeVirt.Conv.Init

/-!
# The derived geometry is coherent

`Coherent` says of the parameters `ssd_init_params` derives that every total is the product its name
says, that the SLC and TLC parts add up, and that the pages hold what the namespace exports. All of
it holds for every capacity but the number of sectors: `secs_per_ch` ends up with the SLC value. The
two agree when the blocks are filled with whole SLC wordlines (`WholeSlcWordlines`).
-/

set_option autoImplicit false

namespace NvmeVirt

/-- The parameters of a partition of a device of `capacity` bytes and `nparts` partitions fit each
other, and the partitions hold every sector of the namespace. -/
structure SsdParams.Coherent (spp : SsdParams) (cfg : SsdConfig) (capacity nparts : Nat) : Prop where
  pgsPerBlk : spp.flashpgsPerBlk * spp.pgsPerFlashpg = spp.pgsPerBlk
  ttPgs_blks : spp.ttPgs = spp.ttBlks * spp.pgsPerBlk
  ttPgs_lines : spp.ttPgs = spp.ttLines * spp.pgsPerLine
  ttSecs : spp.ttSecs = spp.ttPgs * spp.secsPerPg
  secs_parts : spp.slcTtSecs + spp.tlcTtSecs = spp.ttSecs
  pgs_parts : spp.slcTtPgs + spp.tlcTtPgs = spp.ttPgs
  lines_parts : spp.slcTtLines + spp.tlcTtLines = spp.ttLines
  holds_share : capacity / nparts ≤ spp.ttPgs * spp.pgsz
  lpns : ∀ lba, lba < convNsSize cfg spp capacity / lbaSize →
    lba / spp.secsPerPg / nparts < spp.ttPgs

/-! ## The 970PRO constants -/

/-- The partition counts the assertion of `ssd_init_params` lets through. -/
theorem partitions_cases {nparts : Nat} (h : nparts ∣ samsung970Pro.nandChannels) :
    nparts = 1 ∨ nparts = 2 ∨ nparts = 4 := by
  have hle : nparts ≤ 4 := Nat.le_of_dvd (by decide) h
  obtain ⟨k, hk⟩ : nparts ∣ 4 := h
  have hcases : nparts = 0 ∨ nparts = 1 ∨ nparts = 2 ∨ nparts = 3 ∨ nparts = 4 := by omega
  obtain rfl | rfl | rfl | rfl | rfl := hcases
  · omega
  · exact .inl rfl
  · exact .inr (.inl rfl)
  · omega
  · exact .inr (.inr rfl)

/-- The bytes of the capacity each block has to hold: a partition has 2048 lines, and a line a block
in each of the two LUNs of each of its channels. -/
def blockShare (capacity nparts : Nat) : Nat :=
  divRoundUp (capacity / nparts) (4096 * (4 / nparts))

/-- The blocks hold a multiple of 48 MiB, up to their last one-shot page: then 1024 one-shot pages
of 48 KiB fill three of the 16 MiB that count as an SLC one-shot page. -/
def WholeSlcWordlines (capacity nparts : Nat) : Prop :=
  1024 ∣ divRoundUp (blockShare capacity nparts) 49152

/-- The totals that do not depend on how a block is divided. -/
structure SsdParams.Of970Pro (spp : SsdParams) (capacity nparts : Nat) : Prop where
  secsPerPg : spp.secsPerPg = 8
  pgsz : spp.pgsz = 4096
  pgsPerBlk : spp.pgsPerBlk = 12 * divRoundUp (blockShare capacity nparts) 49152
  slcPgsPerBlk : spp.slcPgsPerBlk = 4096 * divRoundUp (blockShare capacity nparts) 16777216
  ttPgs : spp.ttPgs = spp.pgsPerBlk * (4096 * (4 / nparts))
  ttSecs : spp.ttSecs = 8 * spp.slcPgsPerBlk * (4096 * (4 / nparts))

theorem ssdInitParams_of970Pro {nparts : Nat} (h : nparts = 1 ∨ nparts = 2 ∨ nparts = 4)
    (capacity : Nat) : (ssdInitParams samsung970Pro capacity nparts).Of970Pro capacity nparts := by
  obtain rfl | rfl | rfl := h
  all_goals
    constructor
    all_goals simp [ssdInitParams, samsung970Pro, lbaSize, lbaBits, kb, blockShare]
    all_goals omega

theorem divRoundUp_bounds (n : Nat) {d : Nat} (hd : 0 < d) :
    n ≤ divRoundUp n d * d ∧ divRoundUp n d * d < n + d := by
  have hdiv : (n + d - 1) % d + d * ((n + d - 1) / d) = n + d - 1 := Nat.mod_add_div ..
  have hmod := Nat.mod_lt (n + d - 1) hd
  unfold divRoundUp
  rw [Nat.mul_comm]
  omega

/-- The SLC and the TLC pages of a block are as many in the case of whole SLC wordlines only. -/
theorem slcPgs_eq_iff (share : Nat) :
    4096 * divRoundUp share 16777216 = 12 * divRoundUp share 49152 ↔
      1024 ∣ divRoundUp share 49152 := by
  obtain ⟨hslc, hslc'⟩ := divRoundUp_bounds share (show 0 < 16777216 by decide)
  obtain ⟨hwordline, hwordline'⟩ := divRoundUp_bounds share (show 0 < 49152 by decide)
  -- the round-ups enter by their bounds only, which keeps the proof term small
  generalize divRoundUp share 16777216 = slc at hslc hslc' ⊢
  generalize divRoundUp share 49152 = wordlines at hwordline hwordline' ⊢
  omega

/-! ## What holds of every capacity -/

section Totals

variable (cfg : SsdConfig) (capacity nparts : Nat)

theorem ssdInitParams_blks : (ssdInitParams cfg capacity nparts).ttPgs =
    (ssdInitParams cfg capacity nparts).ttBlks * (ssdInitParams cfg capacity nparts).pgsPerBlk := by
  simp only [ssdInitParams]
  ring

theorem ssdInitParams_lines : (ssdInitParams cfg capacity nparts).ttPgs =
    (ssdInitParams cfg capacity nparts).ttLines *
      (ssdInitParams cfg capacity nparts).pgsPerLine := by
  simp only [ssdInitParams]
  ring

/-- A portion of at most all, and the rest. -/
theorem portion_add (total : Nat) {portion : Nat} (h : portion ≤ 100) :
    total * portion / 100 + (total - total * portion / 100) = total := by
  have hle : total * portion ≤ total * 100 := Nat.mul_le_mul_left total h
  omega

end Totals

section Capacity

variable {capacity nparts : Nat}

/-- The pages of a partition hold its part of the capacity. -/
theorem SsdParams.Of970Pro.holds {spp : SsdParams} (h : spp.Of970Pro capacity nparts)
    (hn : nparts = 1 ∨ nparts = 2 ∨ nparts = 4) : capacity / nparts ≤ spp.ttPgs * spp.pgsz := by
  have hshare : blockShare capacity nparts ≤ spp.pgsPerBlk * 4096 := by
    rw [h.pgsPerBlk]
    unfold divRoundUp
    omega
  rw [h.ttPgs, h.pgsz]
  unfold blockShare divRoundUp at hshare
  obtain rfl | rfl | rfl := hn
  all_goals omega

/-- Every sector of the namespace is in a page its partition has. -/
theorem SsdParams.Of970Pro.lpn_lt {spp : SsdParams} (h : spp.Of970Pro capacity nparts)
    (hn : nparts = 1 ∨ nparts = 2 ∨ nparts = 4) {lba : Nat}
    (hlba : lba < convNsSize samsung970Pro spp capacity / lbaSize) :
    lba / spp.secsPerPg / nparts < spp.ttPgs := by
  have hsize : convNsSize samsung970Pro spp capacity ≤ capacity * 100 / 128 :=
    Nat.div_le_div_right (Nat.mod_le ..)
  have hlba' : lba < convNsSize samsung970Pro spp capacity / 512 := hlba
  have hholds := h.holds hn
  rw [h.pgsz] at hholds
  rw [h.secsPerPg]
  obtain rfl | rfl | rfl := hn
  all_goals omega

/-- The geometry of every capacity is coherent exactly when its blocks hold whole SLC wordlines. The
number of partitions is any that divides the channels. Only the number of sectors can be amiss, for
it is worked out from the SLC pages of a block. -/
theorem geometry_coherent_iff (h : nparts ∣ samsung970Pro.nandChannels) :
    (ssdInitParams samsung970Pro capacity nparts).Coherent samsung970Pro capacity nparts ↔
      WholeSlcWordlines capacity nparts := by
  have hn := partitions_cases h
  have hspp := ssdInitParams_of970Pro hn capacity
  have hsecs : (ssdInitParams samsung970Pro capacity nparts).ttSecs =
      (ssdInitParams samsung970Pro capacity nparts).ttPgs *
        (ssdInitParams samsung970Pro capacity nparts).secsPerPg ↔
      WholeSlcWordlines capacity nparts := by
    unfold WholeSlcWordlines
    rw [hspp.ttSecs, hspp.ttPgs, hspp.secsPerPg, hspp.slcPgsPerBlk, hspp.pgsPerBlk,
      ← slcPgs_eq_iff]
    generalize divRoundUp (blockShare capacity nparts) 16777216 = slc
    generalize divRoundUp (blockShare capacity nparts) 49152 = wordlines
    obtain rfl | rfl | rfl := hn
    all_goals omega
  constructor
  · exact fun hc => hsecs.mp hc.ttSecs
  · intro hw
    refine {
      pgsPerBlk := ?_
      ttPgs_blks := ssdInitParams_blks ..
      ttPgs_lines := ssdInitParams_lines ..
      ttSecs := hsecs.mpr hw
      secs_parts := portion_add _ (by decide)
      pgs_parts := portion_add _ (by decide)
      lines_parts := portion_add _ (by decide)
      holds_share := hspp.holds hn
      lpns := fun _ hlba => hspp.lpn_lt hn hlba }
    simp [ssdInitParams, samsung970Pro, lbaSize, lbaBits, kb]
    omega

end Capacity

/-- Four partitions of a device of 3 TiB fill their blocks with 192 MiB each. -/
theorem geometry_coherent_filled :
    (ssdInitParams samsung970Pro (3 * 2 ^ 40) 4).Coherent samsung970Pro (3 * 2 ^ 40) 4 :=
  (geometry_coherent_iff (by decide)).mpr (by unfold WholeSlcWordlines blockShare; decide)

/-- On a device of 1 GiB the number of sectors is that of 16 MiB blocks. -/
theorem geometry_sectors_gib :
    ¬ (ssdInitParams samsung970Pro (2 ^ 30) 4).Coherent samsung970Pro (2 ^ 30) 4 := by
  intro h
  have hsecs : (ssdInitParams samsung970Pro (2 ^ 30) 4).ttSecs ≠
      (ssdInitParams samsung970Pro (2 ^ 30) 4).ttPgs *
        (ssdInitParams samsung970Pro (2 ^ 30) 4).secsPerPg := by decide
  exact hsecs h.ttSecs

end NvmeVirt

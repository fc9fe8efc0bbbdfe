import Mathlib.Data.List.Nodup
import NvmeVirt.Laws.Conv.Geometry

/-!
# The order a line is written in

`lineOrder spp l` lists the pages of the line `l` as a write pointer comes to them: `pageAt` is the
inverse of `writeIdx`. The pages of one wordline stand together in it, and the last of them is the one
`last_pg_in_wordline` picks out.
-/

set_option autoImplicit false

namespace NvmeVirt

namespace SsdParams

variable {spp : SsdParams} {l i : Nat} {p q : Ppa}

/-- The page of the line `l` that is written after `i` others. -/
def pageAt (spp : SsdParams) (l i : Nat) : Ppa where
  ch := i / spp.pgsPerOneshotpg % spp.nchs
  lun := i / spp.pgsPerOneshotpg / spp.nchs % spp.lunsPerCh
  pl := 0
  blk := l
  pg := spp.pgsPerOneshotpg * (i / spp.pgsPerOneshotpg / spp.nchs / spp.lunsPerCh) +
    i % spp.pgsPerOneshotpg

/-- The pages of the line `l` in the order they are written. -/
def lineOrder (spp : SsdParams) (l : Nat) : List Ppa :=
  (List.range spp.pgsPerLine).map (spp.pageAt l)

/-- Two pages of one wordline. -/
def SameWordline (spp : SsdParams) (p q : Ppa) : Prop :=
  p.toBlkId = q.toBlkId ∧ p.pg / spp.pgsPerOneshotpg = q.pg / spp.pgsPerOneshotpg

/-! ## Positions -/

theorem WellFormed.lunsPerLine_pos (w : spp.WellFormed) : 0 < spp.nchs * spp.lunsPerCh :=
  Nat.mul_pos w.nchs_pos w.lunsPerCh_pos

/-- The wordline of a position is one of the block. -/
theorem WellFormed.wordline_lt (w : spp.WellFormed) (hi : i < spp.pgsPerLine) :
    i / spp.pgsPerOneshotpg / spp.nchs / spp.lunsPerCh < spp.oneshotpgsPerBlk := by
  rw [← w.prod_writeBases] at hi
  simp only [writeBases, List.prod_cons, List.prod_nil, Nat.mul_one] at hi
  exact Nat.div_lt_of_lt_mul (Nat.div_lt_of_lt_mul (Nat.div_lt_of_lt_mul hi))

/-- The pages of the order are valid. -/
theorem WellFormed.valid_pageAt (w : spp.WellFormed) (hl : l < spp.blksPerPl)
    (hi : i < spp.pgsPerLine) : validPpa spp (spp.pageAt l i) = true := by
  have hpg : (spp.pageAt l i).pg < spp.pgsPerBlk := by
    have hmod := Nat.mod_lt i w.pgsPerOneshotpg_pos
    rw [w.pgsPerBlk_oneshot]
    calc (spp.pageAt l i).pg
        < spp.pgsPerOneshotpg * (i / spp.pgsPerOneshotpg / spp.nchs / spp.lunsPerCh) +
          spp.pgsPerOneshotpg := Nat.add_lt_add_left hmod _
      _ = spp.pgsPerOneshotpg * (i / spp.pgsPerOneshotpg / spp.nchs / spp.lunsPerCh + 1) :=
          (Nat.mul_succ ..).symm
      _ ≤ spp.pgsPerOneshotpg * spp.oneshotpgsPerBlk := Nat.mul_le_mul_left _ (w.wordline_lt hi)
  exact validPpa_iff.mpr ⟨Nat.mod_lt _ w.nchs_pos, Nat.mod_lt _ w.lunsPerCh_pos,
    by rw [w.plsPerLun_one]; exact Nat.zero_lt_one, hl, hpg⟩

/-- The page at a position has the digits of the position. -/
theorem WellFormed.digits_pageAt (w : spp.WellFormed) (hi : i < spp.pgsPerLine) :
    spp.writeDigits (spp.pageAt l i).ch (spp.pageAt l i).lun (spp.pageAt l i).pg =
      Radix.digits i spp.writeBases := by
  have hos := w.pgsPerOneshotpg_pos
  have hmod := Nat.mod_lt i hos
  have hoffset : (spp.pageAt l i).pg % spp.pgsPerOneshotpg = i % spp.pgsPerOneshotpg := by
    show (spp.pgsPerOneshotpg * _ + i % spp.pgsPerOneshotpg) % spp.pgsPerOneshotpg = _
    rw [Nat.mul_add_mod, Nat.mod_mod]
  have hwordline : (spp.pageAt l i).pg / spp.pgsPerOneshotpg =
      i / spp.pgsPerOneshotpg / spp.nchs / spp.lunsPerCh := by
    show (spp.pgsPerOneshotpg * _ + i % spp.pgsPerOneshotpg) / spp.pgsPerOneshotpg = _
    rw [Nat.mul_add_div hos, Nat.div_eq_of_lt hmod, Nat.add_zero]
  unfold writeDigits writeBases
  rw [hoffset, hwordline]
  simp only [Radix.digits]
  rw [Nat.mod_eq_of_lt (w.wordline_lt hi)]
  rfl

/-- The page at a position has that position. -/
theorem WellFormed.writeIdx_pageAt (w : spp.WellFormed) (hi : i < spp.pgsPerLine) :
    spp.writeIdx (spp.pageAt l i).ch (spp.pageAt l i).lun (spp.pageAt l i).pg = i := by
  unfold writeIdx
  rw [w.digits_pageAt hi]
  exact Radix.value_digits (w.prod_writeBases.symm ▸ hi)

/-- Every page of the line is at its position. -/
theorem WellFormed.pageAt_writeIdx (w : spp.WellFormed) (hp : validPpa spp p = true) :
    spp.pageAt p.blk (spp.writeIdx p.ch p.lun p.pg) = p := by
  have hlt := w.writeIdx_lt hp
  have hblk := (validPpa_iff.mp hp).2.2.2.1
  exact w.writeIdx_inj (w.valid_pageAt hblk hlt) hp rfl (w.writeIdx_pageAt hlt)

/-- The position of a page in terms of its number in the block. -/
theorem WellFormed.exists_writeIdx (w : spp.WellFormed) (ch lun : Nat) : ∃ k start, ∀ pg,
    spp.writeIdx ch lun pg = pg + (k * (pg / spp.pgsPerOneshotpg) + start) := by
  obtain ⟨n, hn⟩ := Nat.exists_eq_succ_of_ne_zero w.lunsPerLine_pos.ne'
  refine ⟨spp.pgsPerOneshotpg * n, spp.pgsPerOneshotpg * (ch + spp.nchs * lun), fun pg => ?_⟩
  have hdiv := Nat.div_add_mod pg spp.pgsPerOneshotpg
  unfold writeIdx writeDigits writeBases
  simp only [Radix.value]
  generalize pg / spp.pgsPerOneshotpg = q at hdiv ⊢
  calc pg % spp.pgsPerOneshotpg + spp.pgsPerOneshotpg * (ch + spp.nchs * (lun + spp.lunsPerCh *
        (q + spp.oneshotpgsPerBlk * 0)))
      = pg % spp.pgsPerOneshotpg + spp.pgsPerOneshotpg * (ch + spp.nchs * lun) +
          spp.pgsPerOneshotpg * (spp.nchs * spp.lunsPerCh * q) := by ring
    _ = spp.pgsPerOneshotpg * q + pg % spp.pgsPerOneshotpg +
          (spp.pgsPerOneshotpg * n * q + spp.pgsPerOneshotpg * (ch + spp.nchs * lun)) := by
        rw [hn, Nat.succ_eq_add_one]
        ring
    _ = _ := by rw [hdiv]

/-- In one block the pages come in the order of their numbers. -/
theorem WellFormed.writeIdx_lt_iff (w : spp.WellFormed) (ch lun : Nat) {a b : Nat} :
    spp.writeIdx ch lun a < spp.writeIdx ch lun b ↔ a < b := by
  obtain ⟨k, start, heq⟩ := w.exists_writeIdx ch lun
  have hmono : StrictMono (spp.writeIdx ch lun) := by
    intro a b hab
    have hdiv := Nat.mul_le_mul_left k (Nat.div_le_div_right (c := spp.pgsPerOneshotpg) hab.le)
    rw [heq a, heq b]
    omega
  exact hmono.lt_iff_lt

/-! ## The list -/

/-- The order is as long as the line. -/
theorem length_lineOrder (spp : SsdParams) (l : Nat) : (spp.lineOrder l).length = spp.pgsPerLine := by
  rw [lineOrder, List.length_map, List.length_range]

/-- The first `k` pages of a line. -/
theorem take_lineOrder (l : Nat) {k : Nat} (hk : k ≤ spp.pgsPerLine) :
    (spp.lineOrder l).take k = (List.range k).map (spp.pageAt l) := by
  rw [lineOrder, ← List.map_take, List.take_range, Nat.min_eq_left hk]

/-- One more page of a line. -/
theorem take_succ_lineOrder (l : Nat) {k : Nat} (hk : k < spp.pgsPerLine) :
    (spp.lineOrder l).take (k + 1) = (spp.lineOrder l).take k ++ [spp.pageAt l k] := by
  rw [take_lineOrder l hk, take_lineOrder l hk.le, List.range_succ, List.map_append]
  rfl

/-- A line is written page by page, each page once. -/
theorem WellFormed.nodup_lineOrder (w : spp.WellFormed) (l : Nat) : (spp.lineOrder l).Nodup := by
  apply List.nodup_range.map_on
  intro i hi j hj heq
  rw [← w.writeIdx_pageAt (l := l) (List.mem_range.mp hi), heq,
    w.writeIdx_pageAt (List.mem_range.mp hj)]

/-- It goes over the pages of the line, and no others. -/
theorem WellFormed.mem_lineOrder (w : spp.WellFormed) (hl : l < spp.blksPerPl) :
    p ∈ spp.lineOrder l ↔ validPpa spp p = true ∧ p.blk = l := by
  rw [lineOrder, List.mem_map]
  constructor
  · rintro ⟨i, hi, rfl⟩
    exact ⟨w.valid_pageAt hl (List.mem_range.mp hi), rfl⟩
  · rintro ⟨hp, rfl⟩
    exact ⟨_, List.mem_range.mpr (w.writeIdx_lt hp), w.pageAt_writeIdx hp⟩

/-- The pages of a block come in increasing order. -/
theorem WellFormed.lineOrder_increasing (w : spp.WellFormed) (l : Nat) :
    (spp.lineOrder l).Pairwise fun p q => p.toBlkId = q.toBlkId → p.pg < q.pg := by
  rw [lineOrder, List.pairwise_map]
  refine List.Pairwise.imp_of_mem ?_ List.pairwise_lt_range
  intro i j hi hj hij hblk
  have hch := congrArg BlkId.ch hblk
  have hlun := congrArg BlkId.lun hblk
  rw [← w.writeIdx_pageAt (l := l) (List.mem_range.mp hi),
    ← w.writeIdx_pageAt (l := l) (List.mem_range.mp hj), hch, hlun, w.writeIdx_lt_iff] at hij
  exact hij

/-! ## Wordlines -/

/-- Each wordline has one last page, and `last_pg_in_wordline` holds of that one alone. -/
theorem WellFormed.exists_lastPg (w : spp.WellFormed) (hp : validPpa spp p = true) :
    ∃ q, validPpa spp q = true ∧ spp.SameWordline p q ∧
      ∀ r, spp.SameWordline p r → r.pg ≤ q.pg ∧ (lastPgInWordline spp r = true ↔ r = q) := by
  have hos := w.pgsPerOneshotpg_pos
  have hend : spp.pgsPerOneshotpg - 1 < spp.pgsPerOneshotpg := Nat.sub_lt hos Nat.zero_lt_one
  set k := p.pg / spp.pgsPerOneshotpg with hk
  obtain ⟨hch, hlun, hpl, hblk, hpg⟩ := validPpa_iff.mp hp
  have hklt : k + 1 ≤ spp.oneshotpgsPerBlk := by
    rw [w.pgsPerBlk_oneshot] at hpg
    exact Nat.div_lt_of_lt_mul hpg
  have hlast : spp.pgsPerOneshotpg * k + (spp.pgsPerOneshotpg - 1) < spp.pgsPerBlk := by
    have hle := Nat.mul_le_mul_left spp.pgsPerOneshotpg hklt
    rw [Nat.mul_succ, ← w.pgsPerBlk_oneshot] at hle
    omega
  refine ⟨⟨p.toBlkId, spp.pgsPerOneshotpg * k + (spp.pgsPerOneshotpg - 1)⟩,
    validPpa_iff.mpr ⟨hch, hlun, hpl, hblk, hlast⟩, ⟨rfl, ?_⟩, ?_⟩
  · show _ = (spp.pgsPerOneshotpg * k + (spp.pgsPerOneshotpg - 1)) / spp.pgsPerOneshotpg
    rw [Nat.mul_add_div hos, Nat.div_eq_of_lt hend, Nat.add_zero]
  · rintro r ⟨hrblk, hrk⟩
    have hdiv := Nat.div_add_mod r.pg spp.pgsPerOneshotpg
    have hmod := Nat.mod_lt r.pg hos
    have hrk : k = r.pg / spp.pgsPerOneshotpg := hrk
    rw [← hrk] at hdiv
    refine ⟨?_, ?_⟩
    · show r.pg ≤ spp.pgsPerOneshotpg * k + (spp.pgsPerOneshotpg - 1)
      omega
    · unfold lastPgInWordline
      rw [beq_iff_eq]
      constructor
      · intro hoffset
        refine Ppa.ext_blk hrblk.symm ?_
        show r.pg = spp.pgsPerOneshotpg * k + (spp.pgsPerOneshotpg - 1)
        rw [← hdiv, hoffset]
      · intro heq
        have hrpg : r.pg = spp.pgsPerOneshotpg * k + (spp.pgsPerOneshotpg - 1) := by rw [heq]
        rw [hrpg, Nat.mul_add_mod, Nat.mod_eq_of_lt hend]

end SsdParams

end NvmeVirt

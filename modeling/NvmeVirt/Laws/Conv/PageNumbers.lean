import Mathlib.Data.Set.Function
import NvmeVirt.Conv.Address
import NvmeVirt.Laws.Conv.Geometry

/-!
# Page numbering in the types of the source

The fields of an address word read back and tell addresses apart at every geometry that fits them.
The page numbers are one to one while the pages of a plane fit an `int`: from `2^31` pages on, the
product wraps before it is widened, `tt_pgs` is zero or near `2^64`, and no longer the number of
pages.

Where no product wraps (`Exact`) the page number is the value of the address in a mixed radix, and
`Lib/Radix` gives the bijection (`Exact.bijOn`). Where one wraps, `ttPgs_wrapped` says what it
becomes; a bijection onto that many numbers would need more pages than there are
(`countTt_le_of_onto`), or leave the first page without one (`valid_zero`). A geometry without
planes has no pages at all, and numbers them (`bijOn_of_no_planes`).
-/

set_option autoImplicit false

namespace NvmeVirt

/-! ## The fields of an address -/

section Fields

variable {ch lun pl blk pg w w' : Nat}

/-- The five fields read back what was written to them. -/
theorem ppaOfWord_setPpaFields (ch lun pl blk pg w : Nat) :
    ppaOfWord (setPpaFields ch lun pl blk pg w) = Ppa.ofFields ch lun pl blk pg := by
  unfold ppaOfWord setPpaFields
  -- of two different fields one lies below the other
  simp (disch := decide) only [BitField.read_write, BitField.read_write_below,
    BitField.read_write_above]
  rfl

/-- `h.blk_in_ssd` holds the block, the plane, the LUN and the channel. -/
theorem blkInSsd_value (w : Nat) : blkInSsdField.read w = Radix.value
    [blkField.read w, plField.read w, lunField.read w, chField.read w]
    [2 ^ 16, 2 ^ 8, 2 ^ 8, 2 ^ 8] := by
  have hlow : blkInSsdField.read w = blkField.read w + 2 ^ 16 * BitField.read ⟨32, 24⟩ w :=
    BitField.read_append 16 16 24 w
  have hmid : BitField.read ⟨32, 24⟩ w = plField.read w + 2 ^ 8 * BitField.read ⟨40, 16⟩ w :=
    BitField.read_append 32 8 16 w
  have hhigh : BitField.read ⟨40, 16⟩ w = lunField.read w + 2 ^ 8 * chField.read w :=
    BitField.read_append 40 8 8 w
  rw [hlow, hmid, hhigh]
  simp only [Radix.value, Nat.mul_zero, Nat.add_zero]

/-- Two words agree in `h.blk_in_ssd` if and only if they agree in channel, LUN, plane and block. -/
theorem blkInSsd_eq_iff (w w' : Nat) : blkInSsdField.read w = blkInSsdField.read w' ↔
    (ppaOfWord w).toBlkId = (ppaOfWord w').toBlkId := by
  have hdigits : ∀ w, Radix.Digits
      [blkField.read w, plField.read w, lunField.read w, chField.read w]
      [2 ^ 16, 2 ^ 8, 2 ^ 8, 2 ^ 8] := fun w =>
    .cons (blkField.read_lt w) (.cons (plField.read_lt w)
      (.cons (lunField.read_lt w) (.cons (chField.read_lt w) .nil)))
  rw [blkInSsd_value, blkInSsd_value]
  constructor
  · intro h
    have hd := Radix.value_inj (hdigits w) (hdigits w') h
    simp only [List.cons.injEq, and_true] at hd
    obtain ⟨hblk, hpl, hlun, hch⟩ := hd
    simp only [ppaOfWord, hblk, hpl, hlun, hch]
  · intro h
    simp only [ppaOfWord, BlkId.mk.injEq] at h
    obtain ⟨hch, hlun, hpl, hblk⟩ := h
    rw [hblk, hpl, hlun, hch]

end Fields

/-! ## Products of the geometry -/

/-- The dimensions fit the fields of `struct ppa`. -/
structure SsdParams.FitsPpa (spp : SsdParams) : Prop where
  nchs : spp.nchs ≤ 2 ^ 8
  lunsPerCh : spp.lunsPerCh ≤ 2 ^ 8
  plsPerLun : spp.plsPerLun ≤ 2 ^ 8
  blksPerPl : spp.blksPerPl ≤ 2 ^ 16
  pgsPerBlk : spp.pgsPerBlk ≤ 2 ^ 16

/-- The number of planes of the device. -/
def SsdParams.planes (spp : SsdParams) : Nat := spp.plsPerLun * spp.lunsPerCh * spp.nchs

section Products

variable {spp : SsdParams} {p : Ppa}

/-- Below `2^31` an `int` is what was stored in it. -/
theorem intToUlong_cInt {n : Nat} (h : n < 2 ^ 31) : intToUlong (cInt n) = n := by
  have hself : cInt n = n := by
    unfold cInt
    rw [Int.bmod_def]
    omega
  unfold intToUlong
  rw [hself]
  omega

/-- An `int` product from `2^31` on is negative, and a large `unsigned long`. -/
theorem intToUlong_cInt_wrapped {n : Nat} (hlow : 2 ^ 31 ≤ n) (hhigh : n < 2 ^ 32) :
    intToUlong (cInt n) = 2 ^ 64 - (2 ^ 32 - n) := by
  have hself : cInt n = n - 2 ^ 32 := by
    unfold cInt
    rw [Int.bmod_def]
    omega
  unfold intToUlong
  rw [hself]
  omega

/-- The counts of a LUN, a channel and the device as one product. -/
theorem SsdParams.countTt_eq (spp : SsdParams) : spp.countTt = u64 (spp.countPl * spp.planes) := by
  simp only [countTt, countCh, countLun, planes, u64, Nat.mod_mul_mod, Nat.mul_assoc]

/-- Below `2^64` nothing wraps. -/
theorem u64_eq_of_lt {n : Nat} (h : n < 2 ^ 64) : u64 n = n := Nat.mod_eq_of_lt h

/-- The fields leave room for `2^24` planes. -/
theorem SsdParams.FitsPpa.planes_le (fits : spp.FitsPpa) : spp.planes ≤ 2 ^ 24 := by
  calc spp.planes ≤ 2 ^ 8 * 2 ^ 8 * 2 ^ 8 :=
        Nat.mul_le_mul (Nat.mul_le_mul fits.plsPerLun fits.lunsPerCh) fits.nchs
    _ = 2 ^ 24 := by norm_num

/-- While the pages of a plane fit an `int`, the counts are the products of the dimensions. -/
structure SsdParams.Exact (spp : SsdParams) : Prop where
  pl : spp.countPl = spp.pgsPerBlk * spp.blksPerPl
  lun : spp.countLun = spp.countPl * spp.plsPerLun
  ch : spp.countCh = spp.countLun * spp.lunsPerCh
  tt : spp.countTt = spp.countCh * spp.nchs

/-- No product wraps while the pages of a plane fit an `int`. -/
theorem SsdParams.FitsPpa.exact (fits : spp.FitsPpa) (h : spp.pgsPerBlk * spp.blksPerPl < 2 ^ 31) :
    spp.Exact := by
  have hpl : spp.countPl = spp.pgsPerBlk * spp.blksPerPl := by
    unfold countPl
    rw [← Nat.cast_mul, intToUlong_cInt h]
  have hlun : spp.countPl * spp.plsPerLun < 2 ^ 39 := by
    have hle := Nat.mul_le_mul_left spp.countPl fits.plsPerLun
    omega
  have hlun_eq : spp.countLun = spp.countPl * spp.plsPerLun := u64_eq_of_lt (by omega)
  have hch : spp.countLun * spp.lunsPerCh < 2 ^ 47 := by
    have hle := Nat.mul_le_mul_left spp.countLun fits.lunsPerCh
    omega
  have hch_eq : spp.countCh = spp.countLun * spp.lunsPerCh := u64_eq_of_lt (by omega)
  have htt : spp.countCh * spp.nchs < 2 ^ 55 := by
    have hle := Nat.mul_le_mul_left spp.countCh fits.nchs
    omega
  exact ⟨hpl, hlun_eq, hch_eq, u64_eq_of_lt (by omega)⟩

/-- `tt_pgs` is the product of the bases. -/
theorem SsdParams.Exact.countTt (e : spp.Exact) : spp.countTt = spp.pgBases.prod := by
  simp only [pgBases, List.prod_cons, List.prod_nil, e.tt, e.ch, e.lun, e.pl]
  ring

/-- The sum of `ppa2pgidx` does not wrap either. -/
theorem SsdParams.Exact.pageIdx (e : spp.Exact) (h : spp.pgsPerBlk * spp.blksPerPl < 2 ^ 31)
    (hp : validPpa spp p = true) :
    spp.pageIdx p = Radix.value (pgDigits p) spp.pgBases := by
  have hblk : p.blk * spp.pgsPerBlk < 2 ^ 31 := by
    obtain ⟨_, _, _, hblk, _⟩ := validPpa_iff.mp hp
    have hle := Nat.mul_le_mul_left spp.pgsPerBlk (Nat.le_of_lt hblk)
    rw [Nat.mul_comm]
    exact Nat.lt_of_le_of_lt hle h
  have hsum : p.ch * spp.countCh + p.lun * spp.countLun + p.pl * spp.countPl +
      intToUlong (cInt (p.blk * spp.pgsPerBlk)) + p.pg =
      Radix.value (pgDigits p) spp.pgBases := by
    rw [← Nat.cast_mul, intToUlong_cInt hblk]
    simp only [e.ch, e.lun, e.pl, pgDigits, pgBases, Radix.value]
    ring
  have hlt : Radix.value (pgDigits p) spp.pgBases < spp.countTt := by
    rw [e.countTt]
    exact Radix.value_lt (digits_pgidx hp)
  unfold SsdParams.pageIdx
  rw [hsum]
  exact u64_eq_of_lt (Nat.lt_trans hlt (u64_lt _))

/-- From `2^31` pages in a plane on, `tt_pgs` is not the number of pages. -/
theorem SsdParams.FitsPpa.ttPgs_wrapped (fits : spp.FitsPpa)
    (h : 2 ^ 31 ≤ spp.pgsPerBlk * spp.blksPerPl) (hpl : 0 < spp.planes) :
    spp.countTt = 0 ∨ spp.pgsPerBlk * spp.blksPerPl * spp.planes < spp.countTt := by
  have hle := fits.planes_le
  have hprod : spp.pgsPerBlk * spp.blksPerPl ≤ 2 ^ 16 * 2 ^ 16 :=
    Nat.mul_le_mul fits.pgsPerBlk fits.blksPerPl
  rw [← pow_add] at hprod
  have hpgs : spp.countPl = intToUlong (cInt (spp.pgsPerBlk * spp.blksPerPl : Nat)) := by
    unfold countPl
    rw [Nat.cast_mul]
  rw [spp.countTt_eq, hpgs]
  generalize spp.pgsPerBlk * spp.blksPerPl = n at h hprod
  generalize spp.planes = planes at hpl hle
  rcases Nat.lt_or_eq_of_le hprod with hlt | rfl
  · right
    rw [intToUlong_cInt_wrapped h hlt]
    -- the product is `planes * (2^32 - n)` below a multiple of `2^64`
    obtain ⟨k, hk, rfl⟩ : ∃ k, 0 < k ∧ n = 2 ^ 32 - k := ⟨2 ^ 32 - n, by omega, by omega⟩
    have hback : k * planes ≤ 2 ^ 31 * 2 ^ 24 := Nat.mul_le_mul (by omega) hle
    have hcount : (2 ^ 32 - k) * planes ≤ 2 ^ 32 * 2 ^ 24 := Nat.mul_le_mul (by omega) hle
    have hpos : 0 < k * planes := Nat.mul_pos hk hpl
    have hfull : (2 ^ 64 - (2 ^ 32 - (2 ^ 32 - k))) * planes =
        (2 ^ 64 - k * planes) + 2 ^ 64 * (planes - 1) := by
      have hsub : 2 ^ 32 - (2 ^ 32 - k) = k := by omega
      obtain ⟨m, rfl⟩ : ∃ m, planes = m + 1 := ⟨planes - 1, by omega⟩
      rw [hsub, Nat.sub_mul, Nat.add_sub_cancel]
      omega
    have hmod : u64 ((2 ^ 64 - (2 ^ 32 - (2 ^ 32 - k))) * planes) = 2 ^ 64 - k * planes := by
      unfold u64
      rw [hfull, Nat.add_mul_mod_self_left]
      exact Nat.mod_eq_of_lt (by omega)
    rw [hmod]
    omega
  · left
    have hzero : intToUlong (cInt ((2 ^ 32 : Nat) : Int)) = 0 := by decide
    rw [hzero, Nat.zero_mul]
    rfl

/-- There are no more pages than the geometry says. -/
theorem SsdParams.card_pages_le (spp : SsdParams) :
    spp.pages.card ≤ spp.pgsPerBlk * spp.blksPerPl * spp.planes := by
  refine Finset.card_image_le.trans_eq ?_
  simp only [Finset.card_product, Finset.card_range, planes]
  ring

/-- Where every number below `tt_pgs` is that of a valid address, there are as many addresses. -/
theorem SsdParams.countTt_le_of_onto
    (h : Set.SurjOn spp.pageIdx {p | validPpa spp p = true} (Set.Iio spp.countTt)) :
    spp.countTt ≤ spp.pgsPerBlk * spp.blksPerPl * spp.planes := by
  have hsub : Finset.range spp.countTt ⊆ spp.pages.image spp.pageIdx := by
    intro n hn
    obtain ⟨p, hp, rfl⟩ := h (Finset.mem_range.mp hn)
    exact Finset.mem_image_of_mem _ (mem_pages.mpr hp)
  calc spp.countTt = (Finset.range spp.countTt).card := (Finset.card_range _).symm
    _ ≤ (spp.pages.image spp.pageIdx).card := Finset.card_le_card hsub
    _ ≤ spp.pages.card := Finset.card_image_le
    _ ≤ _ := spp.card_pages_le

/-- A device without planes has no address. -/
theorem SsdParams.not_valid (h : spp.planes = 0) (p : Ppa) : ¬ validPpa spp p = true := by
  intro hp
  obtain ⟨h1, h2, h3, _, _⟩ := validPpa_iff.mp hp
  have hpos : 0 < spp.plsPerLun * spp.lunsPerCh * spp.nchs :=
    Nat.mul_pos (Nat.mul_pos (Nat.zero_lt_of_lt h3) (Nat.zero_lt_of_lt h2)) (Nat.zero_lt_of_lt h1)
  exact Nat.ne_of_gt hpos h

/-- The first page is valid, if there is any. -/
theorem SsdParams.valid_zero (hpl : 0 < spp.planes) (hpgs : 0 < spp.pgsPerBlk * spp.blksPerPl) :
    validPpa spp ⟨⟨0, 0, 0, 0⟩, 0⟩ = true := by
  have hlow : 0 < spp.plsPerLun * spp.lunsPerCh := Nat.pos_of_mul_pos_right hpl
  exact validPpa_iff.mpr ⟨Nat.pos_of_mul_pos_left hpl, Nat.pos_of_mul_pos_left hlow,
    Nat.pos_of_mul_pos_right hlow, Nat.pos_of_mul_pos_left hpgs, Nat.pos_of_mul_pos_right hpgs⟩

end Products

/-! ## The law -/

/-- What addresses and page numbers promise: `ppa2pgidx` passes its assertion on every valid address
and maps them one to one onto the numbers below `tt_pgs`; the five fields of a valid address read
back; and `h.blk_in_ssd` tells apart the words that differ in channel, LUN, plane or block. -/
structure SsdParams.NumbersPages (spp : SsdParams) : Prop where
  passes : ∀ p, validPpa spp p = true → spp.ppa2pgidx p = .ok (spp.pageIdx p)
  bijOn : Set.BijOn spp.pageIdx {p | validPpa spp p = true} (Set.Iio spp.countTt)
  fields : ∀ p w, validPpa spp p = true →
    ppaOfWord (setPpaFields p.ch p.lun p.pl p.blk p.pg w) = p
  blocks : ∀ w w', blkInSsdField.read w = blkInSsdField.read w' ↔
    chField.read w = chField.read w' ∧ lunField.read w = lunField.read w' ∧
      plField.read w = plField.read w' ∧ blkField.read w = blkField.read w'

section Law

variable {spp : SsdParams}

/-- A valid address of a geometry that fits survives the fields. -/
theorem SsdParams.FitsPpa.fields (fits : spp.FitsPpa) {p : Ppa} (hp : validPpa spp p = true)
    (w : Nat) : ppaOfWord (setPpaFields p.ch p.lun p.pl p.blk p.pg w) = p := by
  obtain ⟨h1, h2, h3, h4, h5⟩ := validPpa_iff.mp hp
  have := fits.nchs
  have := fits.lunsPerCh
  have := fits.plsPerLun
  have := fits.blksPerPl
  have := fits.pgsPerBlk
  rw [ppaOfWord_setPpaFields]
  unfold Ppa.ofFields
  rw [Nat.mod_eq_of_lt (by omega : p.ch < 2 ^ 8), Nat.mod_eq_of_lt (by omega : p.lun < 2 ^ 8),
    Nat.mod_eq_of_lt (by omega : p.pl < 2 ^ 8), Nat.mod_eq_of_lt (by omega : p.blk < 2 ^ 16),
    Nat.mod_eq_of_lt (by omega : p.pg < 2 ^ 16)]

/-- Two addresses are in the same block if the four fields above the page agree. -/
theorem blkInSsd_iff_fields (w w' : Nat) : blkInSsdField.read w = blkInSsdField.read w' ↔
    chField.read w = chField.read w' ∧ lunField.read w = lunField.read w' ∧
      plField.read w = plField.read w' ∧ blkField.read w = blkField.read w' := by
  rw [blkInSsd_eq_iff]
  simp only [ppaOfWord, BlkId.mk.injEq]

/-- Page numbers one to one with the valid addresses pass the assertion. -/
theorem SsdParams.ppa2pgidx_of_bijOn {p : Ppa}
    (h : Set.BijOn spp.pageIdx {p | validPpa spp p = true} (Set.Iio spp.countTt))
    (hp : validPpa spp p = true) : spp.ppa2pgidx p = .ok (spp.pageIdx p) :=
  if_pos (h.mapsTo hp)

/-- Without a wrap pages and numbers correspond. -/
theorem SsdParams.Exact.bijOn (e : spp.Exact) (h : spp.pgsPerBlk * spp.blksPerPl < 2 ^ 31) :
    Set.BijOn spp.pageIdx {p | validPpa spp p = true} (Set.Iio spp.countTt) := by
  refine ⟨?_, ?_, ?_⟩
  · intro p hp
    rw [Set.mem_Iio, e.pageIdx h hp, e.countTt]
    exact Radix.value_lt (digits_pgidx hp)
  · intro p hp q hq heq
    rw [e.pageIdx h hp, e.pageIdx h hq] at heq
    exact pgDigits_inj hp hq heq
  · intro n hn
    rw [Set.mem_Iio, e.countTt] at hn
    obtain ⟨p, hp, hvalue⟩ := exists_pgDigits hn
    exact ⟨p, hp, (e.pageIdx h hp).trans hvalue⟩

/-- Without planes there is nothing to number. -/
theorem SsdParams.bijOn_of_no_planes (h : spp.planes = 0) :
    Set.BijOn spp.pageIdx {p | validPpa spp p = true} (Set.Iio spp.countTt) := by
  have htt : spp.countTt = 0 := by
    rw [spp.countTt_eq, h, Nat.mul_zero]
    exact u64_eq_of_lt zero_lt_u64
  refine ⟨fun p hp => absurd hp (spp.not_valid h p), fun p hp => absurd hp (spp.not_valid h p), ?_⟩
  intro n hn
  rw [Set.mem_Iio, htt] at hn
  exact absurd hn (Nat.not_lt_zero n)

end Law

/-- In a geometry that fits the fields of `struct ppa` the page numbers are as promised if and only
if the pages of a plane fit an `int`, or there is no plane. The number of a page is computed in
`int` from its block on; the dimensions are any that the fields hold. -/
theorem numbersPages_iff {spp : SsdParams} (fits : spp.FitsPpa) : spp.NumbersPages ↔
    spp.pgsPerBlk * spp.blksPerPl < 2 ^ 31 ∨ spp.planes = 0 := by
  constructor
  · intro h
    by_contra hneither
    obtain ⟨hlarge, hpl⟩ := not_or.mp hneither
    have hlarge' : 2 ^ 31 ≤ spp.pgsPerBlk * spp.blksPerPl := Nat.le_of_not_lt hlarge
    have hpl' : 0 < spp.planes := Nat.pos_of_ne_zero hpl
    rcases fits.ttPgs_wrapped hlarge' hpl' with hzero | hmany
    · have hvalid := spp.valid_zero hpl' (Nat.lt_of_lt_of_le (Nat.two_pow_pos 31) hlarge')
      have hmem := h.bijOn.mapsTo hvalid
      rw [Set.mem_Iio, hzero] at hmem
      exact Nat.not_lt_zero _ hmem
    · exact Nat.not_lt_of_le (spp.countTt_le_of_onto h.bijOn.surjOn) hmany
  · intro h
    have hbij : Set.BijOn spp.pageIdx {p | validPpa spp p = true} (Set.Iio spp.countTt) := by
      rcases h with hsmall | hnone
      · exact (fits.exact hsmall).bijOn hsmall
      · exact spp.bijOn_of_no_planes hnone
    exact ⟨fun _ hp => spp.ppa2pgidx_of_bijOn hbij hp, hbij, fun _ w hp => fits.fields hp w,
      blkInSsd_iff_fields⟩

/-- The 970PRO geometry with 65536 blocks in a plane, at a size that gives each 65532 pages. -/
def widePlanes : SsdParams :=
  ssdInitParams { samsung970Pro with blksPerPln := 65536 } (4 * (2 * 65536 * 65532 * 4096)) 4

/-- It fits the fields of an address. -/
theorem widePlanes_fits : widePlanes.FitsPpa := by
  constructor <;> decide

/-- A 970PRO of 4 GiB. -/
theorem numbersPages_970Pro : (params970Pro (4 * 2 ^ 30)).NumbersPages :=
  (numbersPages_iff (by constructor <;> decide)).mpr (.inl (by decide))

/-- The assertion of `ppa2pgidx` fails on the first page of the second LUN. -/
theorem not_numbersPages_wide : widePlanes.FitsPpa ∧ ¬ widePlanes.NumbersPages := by
  refine ⟨widePlanes_fits, fun h => ?_⟩
  have hpass := h.passes ⟨⟨0, 1, 0, 0⟩, 0⟩ (by decide)
  have hfail : widePlanes.ppa2pgidx ⟨⟨0, 1, 0, 0⟩, 0⟩ = .error .bugOn := by decide
  rw [hfail] at hpass
  cases hpass

end NvmeVirt

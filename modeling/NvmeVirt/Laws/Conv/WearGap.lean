import Mathlib.Tactic.Linarith
import Mathlib.Tactic.NormNum
import NvmeVirt.Conv.Stats

/-!
# The printed wear gap

`conv_flush` prints the rate `per_gc` as its whole part and three digits. The digits have no sign of
their own, so a rate between −1 and 0 reads as its opposite; every other rate reads as itself.
-/

set_option autoImplicit false

namespace NvmeVirt

/-! ## The field as a number -/

/-- The digits behind the point are those of the magnitude. -/
theorem perGcField_eq (p : Int) : perGcField p =
    Decimal.ofInt (p.tdiv 1000) ++ '.' :: Decimal.padded 3 ((p.natAbs % 1000 : Nat) : Int) := by
  have hfrac : (if p.tmod 1000 < 0 then -p.tmod 1000 else p.tmod 1000) =
      ((p.natAbs % 1000 : Nat) : Int) := by
    have habs : (p.tmod 1000).natAbs = p.natAbs % 1000 := Int.natAbs_tmod p 1000
    split
    all_goals omega
  unfold perGcField
  dsimp only
  rw [hfrac]

/-- The field reads as the magnitude of the rate under the sign of its whole part. -/
theorem read_perGcField (p : Int) : Decimal.read (perGcField p) =
    Decimal.signOf (p.tdiv 1000) * (p.natAbs / 1000) := by
  have hdigits : p.natAbs % 1000 < 10 ^ 3 := Nat.mod_lt _ (by decide)
  have hwhole : (p.tdiv 1000).natAbs = p.natAbs / 1000 := Int.natAbs_tdiv p 1000
  have hparts : ((p.natAbs / 1000 : Nat) : ℚ) + ((p.natAbs % 1000 : Nat) : ℚ) / 10 ^ 3 =
      p.natAbs / 1000 := by
    have hsum : ((1000 * (p.natAbs / 1000) + p.natAbs % 1000 : Nat) : ℚ) = (p.natAbs : ℚ) :=
      congrArg Nat.cast (Nat.div_add_mod p.natAbs 1000)
    push_cast at hsum
    linarith
  rw [perGcField_eq, Decimal.read_fixed _ (by decide) hdigits, hwhole, hparts]

/-- The whole part is negative from −1 down. -/
theorem tdiv_neg_iff (p : Int) : p.tdiv 1000 < 0 ↔ p ≤ -1000 := by
  obtain hp | hp := Int.le_total 0 p
  · have hnonneg : 0 ≤ p.tdiv 1000 := Int.tdiv_nonneg hp (by decide)
    omega
  · have hneg : p.tdiv 1000 = -((-p) / 1000) := by
      rw [← Int.tdiv_eq_ediv_of_nonneg (by omega), Int.neg_tdiv, neg_neg]
    omega

/-- A quotient has the sign of the product. -/
theorem tdiv_nonneg {a n : Int} (hne : n ≠ 0) (hprod : 0 ≤ a * n) : 0 ≤ a.tdiv n := by
  obtain hn | hn := Int.lt_or_gt_of_ne hne
  · have ha : a ≤ 0 := by nlinarith
    rw [← neg_neg n, Int.tdiv_neg, ← Int.neg_tdiv]
    exact Int.tdiv_nonneg (by omega) (by omega)
  · have ha : 0 ≤ a := by nlinarith
    exact Int.tdiv_nonneg ha (by omega)

theorem tdiv_nonpos {a n : Int} (hne : n ≠ 0) (hprod : a * n ≤ 0) : a.tdiv n ≤ 0 := by
  have hneg : 0 ≤ (-a).tdiv n := tdiv_nonneg hne (by rw [Int.neg_mul]; omega)
  rw [Int.neg_tdiv] at hneg
  omega

theorem read_perGcField_iff (p : Int) :
    Decimal.read (perGcField p) = p / 1000 ↔ ¬ (-1000 < p ∧ p < 0) := by
  have hwhole : p.tdiv 1000 < 0 ↔ p ≤ -1000 := tdiv_neg_iff p
  rw [read_perGcField]
  unfold Decimal.signOf
  obtain hp | hp := Int.le_total 0 p
  · have habs : ((p.natAbs : Nat) : ℚ) = (p : ℚ) := by
      rw [← Int.cast_natCast, Int.natAbs_of_nonneg hp]
    rw [if_neg (by omega), one_mul, habs]
    exact iff_of_true rfl (by omega)
  · have habs : ((p.natAbs : Nat) : ℚ) = -(p : ℚ) := by
      rw [← Int.cast_natCast, Int.ofNat_natAbs_of_nonpos hp, Int.cast_neg]
    by_cases hlow : p ≤ -1000
    · rw [if_pos (hwhole.mpr hlow), habs]
      exact iff_of_true (by ring) (by omega)
    · rw [if_neg (mt hwhole.mp hlow), one_mul, habs]
      constructor
      · intro hread hband
        have hpos : (p : ℚ) < 0 := by exact_mod_cast hband.2
        linarith
      · intro hband
        have hzero : p = 0 := by omega
        rw [hzero]
        norm_num

/-! ## The rate -/

/-- The sums `conv_flush` divides: any total and any positive number of samples whose product with
1000 is an `int64_t`. -/
structure WearGapTotals where
  total : Int
  samples : Nat
  samples_pos : 0 < samples
  samples_lt : samples < 2 ^ 64
  fits : i64 (total * 1000) = total * 1000

namespace WearGapTotals

variable (t : WearGapTotals)

def perGc : Int := perGcX1000 t.total t.samples

/-- The total and the samples have opposite signs, and the total is smaller than the samples but not
by a factor of 1000. -/
def JustBelowZero : Prop :=
  t.total * i64 t.samples < 0 ∧ (i64 t.samples).natAbs ≤ 1000 * t.total.natAbs ∧
    t.total.natAbs < (i64 t.samples).natAbs

theorem i64_samples_ne_zero : i64 t.samples ≠ 0 := by
  have hpos := t.samples_pos
  have hlt := t.samples_lt
  unfold i64 Int.bmod
  dsimp only
  split
  all_goals omega

theorem perGc_eq : t.perGc = (t.total * 1000).tdiv (i64 t.samples) := by
  unfold perGc perGcX1000
  rw [if_pos t.samples_pos, t.fits]

/-- The rate lies between −1 and 0 for such sums only. -/
theorem perGc_band_iff : -1000 < t.perGc ∧ t.perGc < 0 ↔ t.JustBelowZero := by
  have hne := t.i64_samples_ne_zero
  have hperGc := t.perGc_eq
  unfold JustBelowZero
  generalize i64 t.samples = n at hne hperGc ⊢
  generalize t.total = total at hperGc ⊢
  have hmag : t.perGc.natAbs = 1000 * total.natAbs / n.natAbs := by
    rw [hperGc, Int.natAbs_tdiv, Int.natAbs_mul, Nat.mul_comm]
    rfl
  have hn : 0 < n.natAbs := Int.natAbs_pos.mpr hne
  have hsmall : t.perGc.natAbs < 1000 ↔ total.natAbs < n.natAbs := by
    rw [hmag, Nat.div_lt_iff_lt_mul hn]
    exact Nat.mul_lt_mul_left (by decide)
  have hlarge : 0 < t.perGc.natAbs ↔ n.natAbs ≤ 1000 * total.natAbs := by
    rw [hmag, Nat.div_pos_iff]
    exact and_iff_right hn
  have hprod : total * n < 0 → t.perGc ≤ 0 := fun hneg =>
    hperGc ▸ tdiv_nonpos hne (by nlinarith)
  have hprod' : 0 ≤ total * n → 0 ≤ t.perGc := fun hnonneg =>
    hperGc ▸ tdiv_nonneg hne (by nlinarith)
  rw [← hlarge, ← hsmall]
  omega

/-! ## The printed rate -/

/-- The printed field reads as the rate, unless the rate lies just below zero. -/
theorem read_perGc_iff :
    Decimal.read (perGcField t.perGc) = t.perGc / 1000 ↔ ¬ t.JustBelowZero := by
  rw [read_perGcField_iff, perGc_band_iff]

/-- Away from the band below zero the field tells two rates apart. -/
theorem perGc_of_field {a b : WearGapTotals} (ha : ¬ a.JustBelowZero) (hb : ¬ b.JustBelowZero)
    (hfield : perGcField a.perGc = perGcField b.perGc) : a.perGc = b.perGc := by
  have hread : (a.perGc : ℚ) / 1000 = b.perGc / 1000 := by
    rw [← a.read_perGc_iff.mpr ha, ← b.read_perGc_iff.mpr hb, hfield]
  have hcast : (a.perGc : ℚ) = b.perGc := by linarith
  exact_mod_cast hcast

end WearGapTotals

/-- **The printed wear gap.** The field reads as the rate exactly when the sums are not just below
zero, and two such rates with one field are equal. Just below zero the integer part is 0 and its
sign is lost. The sums are any. -/
theorem perGc_printed (t : WearGapTotals) :
    (Decimal.read (perGcField t.perGc) = t.perGc / 1000 ↔ ¬ t.JustBelowZero) ∧
      ∀ u : WearGapTotals, ¬ t.JustBelowZero → ¬ u.JustBelowZero →
        perGcField t.perGc = perGcField u.perGc → t.perGc = u.perGc :=
  ⟨t.read_perGc_iff, fun _ ht hu hfield => WearGapTotals.perGc_of_field ht hu hfield⟩

/-- A gap that shrank by one over two collections prints as one that grew by one. -/
def shrunkByOne : WearGapTotals := ⟨-1, 2, Nat.two_pos, by decide, by decide +kernel⟩

def grownByOne : WearGapTotals := ⟨1, 2, Nat.two_pos, by decide, by decide +kernel⟩

theorem perGc_printed_grown :
    Decimal.read (perGcField grownByOne.perGc) = (grownByOne.perGc : ℚ) / 1000 ∧
      (perGcField grownByOne.perGc = perGcField grownByOne.perGc →
        grownByOne.perGc = grownByOne.perGc) := by
  have hgrown : ¬ grownByOne.JustBelowZero := by
    unfold WearGapTotals.JustBelowZero
    decide +kernel
  obtain ⟨hread, hinj⟩ := perGc_printed grownByOne
  exact ⟨hread.mpr hgrown, hinj grownByOne hgrown hgrown⟩

theorem perGc_sign_lost :
    shrunkByOne.perGc = -500 ∧ grownByOne.perGc = 500 ∧
      perGcField shrunkByOne.perGc = perGcField grownByOne.perGc ∧
      Decimal.read (perGcField shrunkByOne.perGc) ≠ (shrunkByOne.perGc : ℚ) / 1000 := by
  have hshrunk : shrunkByOne.perGc = -500 := by decide +kernel
  have hgrown : grownByOne.perGc = 500 := by decide +kernel
  refine ⟨hshrunk, hgrown, ?_, ?_⟩
  · rw [hshrunk, hgrown]
    decide +kernel
  · rw [hshrunk]
    intro hread
    exact (read_perGcField_iff (-500)).mp hread (by decide)

end NvmeVirt

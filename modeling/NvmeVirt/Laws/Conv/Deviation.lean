import NvmeVirt.Lib.Dispersion
import NvmeVirt.Laws.Conv.Scores
import NvmeVirt.Laws.Conv.Accounting

/-!
# The reported wear deviation

`conv_flush` takes the variance of the erase counts as the mean square less the squared mean, both
rounded down. The rounded mean alone can make the deviation arbitrarily large: it loses almost twice
the mean.
-/

set_option autoImplicit false

namespace NvmeVirt

namespace ConvNs

variable (ns : ConvNs)

/-- The lines of all instances. -/
def lineSet : Finset (Σ _ : Nat, Nat) :=
  (Finset.range ns.nrParts).sigma fun i => Finset.range (ns.ftls i).lm.ttLines

/-- The erase count of the line `k.2` of instance `k.1`. -/
def eraseCounts (k : Σ _ : Nat, Nat) : Nat := ((ns.ftls k.1).lm.lines k.2).eraseCnt

/-- There is a line, and no sum reaches 2^64. -/
structure CountsFit : Prop where
  lines_pos : 0 < ns.lineSet.card
  lines : ns.lineSet.card < 2 ^ 64
  sum : total ns.lineSet ns.eraseCounts < 2 ^ 64
  sqsum : squares ns.lineSet ns.eraseCounts < 2 ^ 64

/-- What flooring the mean takes off its square stays below the gap from the variance to the square of
the deviation plus two. -/
def MeanRoundsLittle : Prop :=
  spread ns.lineSet ns.eraseCounts + meanLoss ns.lineSet ns.eraseCounts <
    ns.lineSet.card ^ 2 * (deviation ns.lineSet ns.eraseCounts + 2) ^ 2 +
      ns.lineSet.card * (squares ns.lineSet ns.eraseCounts % ns.lineSet.card)

/-! ## The sums -/

variable {ns}

/-- A sum over the instances of sums over their lines, each a `uint64_t`. -/
theorem sum64_sum64_of_lt {f : Nat → Nat → Nat}
    (hlt : ∑ k ∈ ns.lineSet, f k.1 k.2 < 2 ^ 64) :
    sum64 ns.nrParts (fun i => sum64 (ns.ftls i).lm.ttLines (f i)) =
      ∑ k ∈ ns.lineSet, f k.1 k.2 := by
  have hsum : ∑ k ∈ ns.lineSet, f k.1 k.2 =
      ∑ i ∈ Finset.range ns.nrParts, ∑ j ∈ Finset.range (ns.ftls i).lm.ttLines, f i j :=
    Finset.sum_sigma ..
  rw [hsum] at hlt ⊢
  have hline : ∀ i ∈ Finset.range ns.nrParts, sum64 (ns.ftls i).lm.ttLines (f i) =
      ∑ j ∈ Finset.range (ns.ftls i).lm.ttLines, f i j := by
    intro i hi
    apply sum64_of_lt
    exact (Finset.single_le_sum
      (f := fun i => ∑ j ∈ Finset.range (ns.ftls i).lm.ttLines, f i j)
      (fun _ _ => Nat.zero_le _) hi).trans_lt hlt
  rw [sum64_eq, Finset.sum_congr rfl hline]
  exact Nat.mod_eq_of_lt hlt

namespace CountsFit

variable (h : ns.CountsFit)

include h

theorem totalLines_eq : ns.totalLines = ns.lineSet.card := by
  have hcard : ns.lineSet.card = ∑ i ∈ Finset.range ns.nrParts, (ns.ftls i).lm.ttLines := by
    unfold lineSet
    rw [Finset.card_sigma]
    simp only [Finset.card_range]
  rw [hcard]
  exact sum64_of_lt (hcard ▸ h.lines)

theorem ecSum_eq : ns.ecSum = total ns.lineSet ns.eraseCounts := sum64_sum64_of_lt h.sum

theorem ecSqsum_eq : ns.ecSqsum = squares ns.lineSet ns.eraseCounts := by
  have hsquare : ∀ i j, ((ns.ftls i).lm.lines j).eraseCnt * ((ns.ftls i).lm.lines j).eraseCnt =
      ns.eraseCounts ⟨i, j⟩ ^ 2 := fun i j => (Nat.pow_two _).symm
  have hlt := h.sqsum
  unfold squares at hlt ⊢
  unfold ecSqsum
  simp only [hsquare]
  have hterm : ∀ k ∈ ns.lineSet, u64 (ns.eraseCounts k ^ 2) = ns.eraseCounts k ^ 2 := fun k hk =>
    Nat.mod_eq_of_lt ((Finset.single_le_sum (f := fun k => ns.eraseCounts k ^ 2)
      (fun _ _ => Nat.zero_le _) hk).trans_lt hlt)
  have hsum : ∑ k ∈ ns.lineSet, u64 (ns.eraseCounts k ^ 2) =
      ∑ k ∈ ns.lineSet, ns.eraseCounts k ^ 2 := Finset.sum_congr rfl hterm
  rw [← hsum] at hlt ⊢
  exact sum64_sum64_of_lt (f := fun i j => u64 (ns.eraseCounts ⟨i, j⟩ ^ 2)) hlt

/-- `ec_std` is the root of the split variance. -/
theorem ecStd_eq : ns.ecStd = (splitVariance ns.lineSet ns.eraseCounts).sqrt := by
  have hpos : 0 < ns.totalLines := h.totalLines_eq ▸ h.lines_pos
  have hsqlt := h.sqsum
  have hmean := mean_sq_le (x := ns.eraseCounts) h.lines_pos
  have hhalf := splitVariance_le (x := ns.eraseCounts) h.lines_pos
  have hle := Nat.div_le_self (squares ns.lineSet ns.eraseCounts) ns.lineSet.card
  have havg : ns.ecAvg = total ns.lineSet ns.eraseCounts / ns.lineSet.card := by
    unfold ecAvg
    rw [if_pos hpos, h.ecSum_eq, h.totalLines_eq]
  have hmeansq : u64 (ns.ecAvg * ns.ecAvg) =
      (total ns.lineSet ns.eraseCounts / ns.lineSet.card) ^ 2 := by
    rw [havg, ← Nat.pow_two]
    exact Nat.mod_eq_of_lt (by omega)
  have hvar : (if u64 (ns.ecAvg * ns.ecAvg) < ns.ecSqsum / ns.totalLines then
      ns.ecSqsum / ns.totalLines - u64 (ns.ecAvg * ns.ecAvg) else 0) =
        splitVariance ns.lineSet ns.eraseCounts := by
    unfold splitVariance
    rw [hmeansq, h.ecSqsum_eq, h.totalLines_eq]
    split
    all_goals omega
  unfold ecStd
  dsimp only
  rw [if_pos hpos, hvar]
  exact isqrtU64_eq (by omega)

end CountsFit

end ConvNs

/-! ## The deviation -/

/-- **Wear deviation.** The reported deviation is within one of the integer square root of the
population variance exactly when the mean rounds little. `ec_std` takes the difference of two
quotients, each rounded down; `MeanRoundsLittle` is a bound on what the rounded mean loses. The
erase counts are any whose sums fit 64 bits. -/
theorem ecStd_near_iff {ns : ConvNs} (h : ns.CountsFit) :
    (ns.ecStd ≤ deviation ns.lineSet ns.eraseCounts + 1 ∧
      deviation ns.lineSet ns.eraseCounts ≤ ns.ecStd + 1) ↔ ns.MeanRoundsLittle := by
  have hle := deviation_le_splitVariance (x := ns.eraseCounts) h.lines_pos
  rw [h.ecStd_eq]
  unfold ConvNs.MeanRoundsLittle
  rw [← sqrt_splitVariance_le_iff h.lines_pos]
  constructor
  · exact fun hnear => hnear.1
  · exact fun hnear => ⟨hnear, by omega⟩

/-- A namespace of one partition whose two lines were erased `a` and `b` times. -/
def wornLines (a b : Nat) : ConvNs :=
  let blank := convFtlTables (cp970Pro (2 ^ 30)) (ssdInit (params970Pro (2 ^ 30)))
  let line (j : Nat) : Line := { blank.lm.lines j with eraseCnt := if j = 0 then a else b }
  { nrParts := 1, size := 0
    ftls := fun _ => { blank with lm := { blank.lm with lines := line, ttLines := 2 } }
    pcie := chmodelInit 0, writeBuffer := bufferInit 0 }

theorem wornLines_fit : (wornLines 8 10).CountsFit :=
  ⟨by decide +kernel, by decide +kernel, by decide +kernel, by decide +kernel⟩

/-- Erase counts of 8 and 10 have a whole mean, and their deviation is reported as it is. -/
theorem ecStd_near_whole_mean :
    (wornLines 8 10).ecStd ≤
        deviation (wornLines 8 10).lineSet (wornLines 8 10).eraseCounts + 1 ∧
      deviation (wornLines 8 10).lineSet (wornLines 8 10).eraseCounts ≤
        (wornLines 8 10).ecStd + 1 := by
  refine (ecStd_near_iff wornLines_fit).mpr ?_
  unfold ConvNs.MeanRoundsLittle
  decide +kernel

/-- Erase counts of 8 and 9 deviate by half an erase and are reported to deviate by two. -/
theorem ecStd_half_mean :
    (wornLines 8 9).CountsFit ∧ (wornLines 8 9).ecStd = 2 ∧
      deviation (wornLines 8 9).lineSet (wornLines 8 9).eraseCounts = 0 := by
  refine ⟨⟨by decide +kernel, by decide +kernel, by decide +kernel, by decide +kernel⟩, ?_, ?_⟩
  · decide +kernel
  · decide +kernel

end NvmeVirt

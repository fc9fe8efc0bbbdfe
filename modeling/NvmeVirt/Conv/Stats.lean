import NvmeVirt.Lib.Decimal
import NvmeVirt.Conv.Cmd

/-!
# The statistics `conv_flush` prints

The sums are `uint64_t` and run over all instances, and for the erase counts over all lines of each.

A value in thousandths is printed as its quotient and its remainder by 1000, with the C operators,
so that the sign of a small negative value is lost; the text of that field is modelled whole
(`ConvNs.perGcField`), the other lines by their numbers.
-/

set_option autoImplicit false

namespace NvmeVirt

/-- A `uint64_t` sum accumulated in a loop. -/
def sum64 (n : Nat) (f : Nat → Nat) : Nat :=
  (List.range n).foldl (fun sum i => u64 (sum + f i)) 0

namespace ConvNs

variable (ns : ConvNs)

/-- `total_gc`. -/
def totalGc : Nat := sum64 ns.nrParts fun i => (ns.ftls i).gcCount

/-- `total_cp`. -/
def totalCp : Nat := sum64 ns.nrParts fun i => (ns.ftls i).gcCopiedPages

/-- `total_host`. -/
def totalHost : Nat := sum64 ns.nrParts fun i => (ns.ftls i).hostWrittenPages

/-- `total_erases`. -/
def totalErases : Nat :=
  sum64 ns.nrParts fun i =>
    sum64 (ns.ftls i).lm.ttLines fun j => ((ns.ftls i).lm.lines j).eraseCnt

/-- `waf_x1000`. -/
def wafX1000 : Nat :=
  if 0 < ns.totalHost then u64 (u64 (ns.totalHost + ns.totalCp) * 1000) / ns.totalHost else 1000

/-- `copy_ratio_x1000`. -/
def copyRatioX1000 : Nat :=
  let erasedPgs := u64 (ns.totalErases * ns.sp.pgsPerLine)
  if 0 < erasedPgs then u64 (ns.totalCp * 1000) / erasedPgs else 0

/-! ## Wear -/

/-- `ec_sum`. -/
def ecSum : Nat :=
  sum64 ns.nrParts fun i =>
    sum64 (ns.ftls i).lm.ttLines fun j => ((ns.ftls i).lm.lines j).eraseCnt

/-- `ec_sqsum`. -/
def ecSqsum : Nat :=
  sum64 ns.nrParts fun i =>
    sum64 (ns.ftls i).lm.ttLines fun j =>
      u64 (((ns.ftls i).lm.lines j).eraseCnt * ((ns.ftls i).lm.lines j).eraseCnt)

/-- `total_lines`. -/
def totalLines : Nat := sum64 ns.nrParts fun i => (ns.ftls i).lm.ttLines

/-- `ec_avg`. -/
def ecAvg : Nat := if 0 < ns.totalLines then ns.ecSum / ns.totalLines else 0

/-- `ec_std`. -/
def ecStd : Nat :=
  if 0 < ns.totalLines then
    let avgSq := ns.ecSqsum / ns.totalLines
    let meanSq := u64 (ns.ecAvg * ns.ecAvg)
    isqrtU64 (if meanSq < avgSq then avgSq - meanSq else 0)
  else 0

/-- `ec_cov_x1000`. -/
def ecCovX1000 : Nat :=
  if 0 < ns.totalLines ∧ 0 < ns.ecAvg then u64 (ns.ecStd * 1000) / ns.ecAvg else 0

end ConvNs

/-! ## Wear gap -/

/-- The value of `int64_t` arithmetic, and of a cast to `int64_t`. -/
def i64 (n : Int) : Int := n.bmod (2 ^ 64)

namespace ConvNs

variable (ns : ConvNs)

/-- `wg_accum`. -/
def wgAccum : Int :=
  (List.range ns.nrParts).foldl (fun sum i => i64 (sum + (ns.ftls i).wgs.accumDiff)) 0

/-- `wg_samples`. -/
def wgSamples : Nat := sum64 ns.nrParts fun i => (ns.ftls i).wgs.samples

end ConvNs

/-- `per_gc_x1000`. -/
def perGcX1000 (wgAccum : Int) (wgSamples : Nat) : Int :=
  if 0 < wgSamples then (i64 (wgAccum * 1000)).tdiv (i64 wgSamples) else 0

/-- The field `per_gc` of the `[WearGap]` line, `%lld.%03lld`. -/
def perGcField (perGcX1000 : Int) : List Char :=
  let whole := perGcX1000.tdiv 1000
  let frac := perGcX1000.tmod 1000
  let frac := if frac < 0 then -frac else frac
  Decimal.ofInt whole ++ '.' :: Decimal.padded 3 frac

/-- The field `conv_flush` prints. -/
def ConvNs.perGcField (ns : ConvNs) : List Char :=
  NvmeVirt.perGcField (perGcX1000 ns.wgAccum ns.wgSamples)

end NvmeVirt

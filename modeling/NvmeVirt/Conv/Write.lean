import NvmeVirt.Conv.Init

/-!
# One page of a write (`conv_write`, the body of its loop)

`convWritePageBody` is the body up to `consume_write_credit`; `convWritePage` adds the refill, which
is where garbage collection runs.
-/

set_option autoImplicit false

namespace NvmeVirt

/-- The overwritten page, if the logical page has one, becomes invalid. -/
def invalidateOld (ftl : ConvFtl) (localLpn : Nat) : FtlM ConvFtl :=
  match ftl.getMaptblEnt localLpn with
  | none => pure ftl
  | some ppa => do
    let ftl ← markPageInvalid ftl ppa
    ftl.setRmapEnt invalidLpn ppa

/-- A write that counts as hot for the learner: repeated, and soon after the last one. -/
def PageMeta.rewrittenSoon (pm : PageMeta) (curTime : Nat) : Bool :=
  0 < pm.updateCnt && (pm.lastWriteTime < curTime && curTime - pm.lastWriteTime < thHot)

/-- The window counters of the learner after one write. -/
def RlConfig.countWrite (rl : RlConfig) (spp : SsdParams) (hot : Bool) : RlConfig :=
  let windowHot := if hot = true then u32 (rl.windowHot + 1) else rl.windowHot
  let windowTotal := u32 (rl.windowTotal + 1)
  if spp.pgsPerLine ≤ windowTotal then
    { rl with prevHotPct := u32 (windowHot * 100) / windowTotal, windowHot := 0, windowTotal := 0 }
  else { rl with windowHot, windowTotal }

/-- The hot write statistics, kept under `GC_MODE_RL` only. -/
def countHotWrite (ftl : ConvFtl) (localLpn : Nat) : FtlM ConvFtl := do
  let mode ← readGcMode
  if GcMode.ofInt mode = .rl then do
    let curTime ← ktimeGetNs
    let hot := (ftl.pageMeta localLpn).rewrittenSoon curTime
    pure { ftl with rl := ftl.rl.countWrite ftl.ssd.sp hot }
  else pure ftl

/-- The page's metadata at time `now`, and the moving average of the hot degree. -/
def ConvFtl.touchMeta (ftl : ConvFtl) (localLpn now : Nat) : ConvFtl :=
  let pm : PageMeta :=
    { updateCnt := u32 ((ftl.pageMeta localLpn).updateCnt + 1), lastWriteTime := now }
  { ftl with
    pageMeta := Function.update ftl.pageMeta localLpn pm
    avgHotDegree :=
      u64 (u64 (ftl.avgHotDegree * 15) + u64 (calcHotDegree pm now * 16)) / 16 }

/-- `swr`: the program of the wordline that `ppa` completes. -/
def userWriteCmd (spp : SsdParams) (stime : Nat) (ppa : Ppa) : NandCmd :=
  { type := .userIo, cmd := .write, xferSize := spp.pgsz * spp.pgsPerOneshotpg, stime
    interleavePciDma := false, ppa }

/-- Program the wordline if `ppa` is its last page; `some` time is when the program ends. -/
def programWordline (ftl : ConvFtl) (stime : Nat) (ppa : Ppa) : FtlM (ConvFtl × Option Nat) :=
  if lastPgInWordline ftl.ssd.sp ppa = true then do
    let swr := userWriteCmd ftl.ssd.sp stime ppa
    let (ssd, nsecsDone) ← ssdAdvanceNand ftl.ssd swr
    pure ({ ftl.record swr.events with ssd }, some nsecsDone)
  else pure (ftl, none)

/-- The body of the loop of `conv_write` for one local page, up to `consume_write_credit`. -/
def convWritePageBody (ftl : ConvFtl) (localLpn stime : Nat) : FtlM (ConvFtl × Option Nat) := do
  let ftl ← invalidateOld ftl localLpn
  let (ftl, ppa) ← getNewPage ftl .userIo
  let ftl ← ftl.setMaptblEnt localLpn ppa
  let ftl ← ftl.setRmapEnt localLpn ppa
  let ftl ← markPageValid ftl ppa
  let ftl :=
    { ftl.record [.host localLpn ppa] with hostWrittenPages := ftl.hostWrittenPages + 1 }
  let ftl ← countHotWrite ftl localLpn
  let now ← ktimeGetNs
  let ftl ← advanceWritePointer (ftl.touchMeta localLpn now) .userIo
  let (ftl, nsecsDone) ← programWordline ftl stime ppa
  pure (consumeWriteCredit ftl, nsecsDone)

/-- The body of the loop of `conv_write` for one local page: the instance, and the time the program
of a completed wordline ends. -/
def convWritePage (ftl : ConvFtl) (localLpn stime : Nat) : FtlM (ConvFtl × Option Nat) := do
  let (ftl, nsecsDone) ← convWritePageBody ftl localLpn stime
  let ftl ← checkAndRefillWriteCredit ftl
  pure (ftl, nsecsDone)

end NvmeVirt

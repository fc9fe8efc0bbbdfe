import NvmeVirt.Conv.State

/-!
# Victim scores and victim selection

CB, CAT and RL are one score with two exponent levels,

  `AgeWeight^α * IPC / ((VPC + 1) * (EraseCnt + 1)^δ)`,

kept as a numerator and a denominator and compared by cross products in `uint64_t`. Greedy takes the
root of the queue.
-/

set_option autoImplicit false

namespace NvmeVirt

/-! ## Arithmetic -/

/-- The Newton loop of `isqrt_u64`. It runs while `y` decreases. -/
def isqrtLoop (n x y : Nat) : Nat :=
  if y < x then isqrtLoop n y (u64 (y + n / y) / 2) else x
termination_by x

/-- `isqrt_u64`. -/
def isqrtU64 (n : Nat) : Nat :=
  if n ≤ 1 then u32 n else u32 (isqrtLoop n n (u64 (n + 1) / 2))

/-- `TH_VERY_HOT`, `TH_HOT`, `TH_WARM`, in nanoseconds. -/
def thVeryHot : Nat := 100 * 1000000
def thHot : Nat := 5 * 1000000000
def thWarm : Nat := 60 * 1000000000

/-- `get_age_weight`. -/
def getAgeWeight (ageNs : Nat) : Nat :=
  if ageNs < thVeryHot then 1
  else if ageNs < thHot then 5
  else if ageNs < thWarm then 20
  else 100

/-- `elapsed_since`. -/
def elapsedSince (now past : Nat) : Nat := if past < now then now - past else 0

/-! ## Hot and cold pages -/

/-- `HD_SCALE`. -/
def hdScale : Nat := 1000

/-- `calc_hot_degree`. -/
def calcHotDegree (pm : PageMeta) (now : Nat) : Nat :=
  if pm.updateCnt = 0 then 0
  else u64 (pm.updateCnt * hdScale) / getAgeWeight (elapsedSince now pm.lastWriteTime)

/-- `page_is_hot`. -/
def ConvFtl.pageIsHot (ftl : ConvFtl) (lpn now : Nat) : Bool :=
  ftl.avgHotDegree ≤ u64 (calcHotDegree (ftl.pageMeta lpn) now * 16)

/-! ## Scores -/

/-- `apply_alpha`. -/
def applyAlpha (aw : Nat) : Nat → Nat
  | 0 => isqrtU64 aw
  | 1 => aw
  | 2 => u64 (aw * isqrtU64 aw)
  | _ => u64 (aw * aw)

/-- `apply_delta`. -/
def applyDelta (ec1 : Nat) : Nat → Nat
  | 0 => 1
  | 1 => isqrtU64 ec1
  | 2 => ec1
  | 3 => u64 (ec1 * isqrtU64 ec1)
  | _ => u64 (ec1 * ec1)

/-- `compute_victim_score`: the numerator and the denominator. -/
def computeVictimScore (c : Line) (now alphaLevel deltaLevel : Nat) : Nat × Nat :=
  let aw := getAgeWeight (elapsedSince now c.lastModifiedTime)
  let num := u64 (applyAlpha aw alphaLevel * c.ipc)
  let den := u64 ((c.vpc + 1) * applyDelta (c.eraseCnt + 1) deltaLevel)
  (num, if den = 0 then 1 else den)

/-! ## Selection -/

/-- The lines of the victim queue, `q->d[1]` to `q->d[size - 1]`. -/
def Pqueue.items {ι : Type} (q : Pqueue ι) : List ι :=
  (List.range (q.size - 1)).map fun i => q.d (i + 1)

/-- The scan of `select_victim_scored`: the best line so far with its score. -/
def scanBest (lines : Lines) (now alphaLevel deltaLevel : Nat) :
    List Nat → Option (Nat × Nat × Nat) → Option (Nat × Nat × Nat)
  | [], best => best
  | c :: rest, best =>
    let score := computeVictimScore (lines c) now alphaLevel deltaLevel
    let best := match best with
      | none => some (c, score)
      | some (b, num, den) =>
        if u64 (num * score.2) < u64 (score.1 * den) then some (c, score) else some (b, num, den)
    scanBest lines now alphaLevel deltaLevel rest best

namespace LineMgmt

/-- A selected line leaves the queue: `pos = 0` and `victim_line_cnt--`. -/
def takeVictim (lm : LineMgmt) (r : Pqueue Nat × Lines) (v : Nat) : LineMgmt :=
  { lm with
    victimLinePq := r.1
    lines := Function.update r.2 v { r.2 v with pos := 0 }
    victimLineCnt := lm.victimLineCnt - 1 }

/-- `select_victim_greedy`. -/
def selectVictimGreedy (lm : LineMgmt) (spp : SsdParams) (force : Bool) : LineMgmt × Option Nat :=
  match lm.victimLinePq.peek with
  | none => (lm, none)
  | some v =>
    if force = false ∧ spp.pgsPerLine / 8 < (lm.lines v).vpc then (lm, none)
    else (lm.takeVictim (lm.victimLinePq.pop victimLine lm.lines).2 v, some v)

/-- The part of `select_victim_scored` after the clock was read. -/
def selectBest (lm : LineMgmt) (now alphaLevel deltaLevel : Nat) : LineMgmt × Option Nat :=
  match scanBest lm.lines now alphaLevel deltaLevel lm.victimLinePq.items none with
  | none => (lm, none)
  | some (v, _) => (lm.takeVictim (lm.victimLinePq.remove victimLine lm.lines v) v, some v)

end LineMgmt

/-- `victim_select_fn`. -/
abbrev VictimSelectFn := ConvFtl → Bool → FtlM (ConvFtl × Option Nat)

def selectVictimGreedy : VictimSelectFn := fun ftl force =>
  let r := ftl.lm.selectVictimGreedy ftl.ssd.sp force
  pure ({ ftl with lm := r.1 }, r.2)

def selectVictimScored (ftl : ConvFtl) (alphaLevel deltaLevel : Nat) :
    FtlM (ConvFtl × Option Nat) := do
  let now ← ktimeGetNs
  let r := ftl.lm.selectBest now alphaLevel deltaLevel
  pure ({ ftl with lm := r.1 }, r.2)

/-- `select_victim_cb`: α = 1, δ = 0. -/
def selectVictimCb : VictimSelectFn := fun ftl _ => selectVictimScored ftl 1 0

/-- `select_victim_cat`: level 2 of δ, which is δ = 1. -/
def selectVictimCat : VictimSelectFn := fun ftl _ => selectVictimScored ftl 1 2

end NvmeVirt

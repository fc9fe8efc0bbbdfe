import NvmeVirt.Conv.Score

/-!
# The learner and the wear statistics

`rl_get_state` numbers six discretised readings of the victim queue and of the recent writes;
`rl_update` is one step of Q-learning in fixed point. Signed C division truncates (`Int.tdiv`).
-/

set_option autoImplicit false

namespace NvmeVirt

/-- `RL_NUM_A2` and `RL_NUM_ACTIONS`. -/
def rlNumA2 : Nat := 5
def rlNumActions : Nat := 4 * rlNumA2

/-- The cast of an unsigned 32-bit value to `int32_t`. -/
def i32 (n : Nat) : Int := (n : Int).bmod (2 ^ 32)

/-- `UINT_MAX`. -/
def uintMax : Nat := 2 ^ 32 - 1

/-! ## Wear -/

/-- Maximum, minimum and sum of erase counts, as `collect_erase_stats` accumulates them. -/
structure EraseStats where
  max : Nat
  min : Nat
  sum : Nat
  deriving DecidableEq, Repr

/-- `collect_erase_stats`. -/
def collectEraseStats (lm : LineMgmt) : EraseStats :=
  let st := (List.range lm.ttLines).foldl (fun (st : EraseStats) i =>
    let ec := (lm.lines i).eraseCnt
    { max := if st.max < ec then ec else st.max
      min := if ec < st.min then ec else st.min
      sum := st.sum + ec }) { max := 0, min := uintMax, sum := 0 }
  { st with min := if lm.ttLines = 0 then 0 else st.min }

/-- `update_wear_gap`. -/
def updateWearGap (ftl : ConvFtl) : ConvFtl :=
  let st := collectEraseStats ftl.lm
  let curRange := sub32 st.max st.min
  if ftl.wgs.initialized = false then
    { ftl with wgs := { ftl.wgs with prevRange := curRange, initialized := true } }
  else
    { ftl with wgs :=
      { ftl.wgs with
        accumDiff := ftl.wgs.accumDiff + ((curRange : Int) - (ftl.wgs.prevRange : Int))
        samples := ftl.wgs.samples + 1
        prevRange := curRange } }

/-! ## State -/

/-- A candidate of the scan with the key it was chosen by. -/
structure Best where
  line : Option Nat
  key : Nat
  deriving DecidableEq, Repr

/-- What the scan of the victim queue in `rl_get_state` accumulates. -/
structure VictimScan where
  greedy : Best
  cb : Best
  cat : Best
  ecMax : Nat
  ecMin : Nat
  ecSum : Nat
  count : Nat
  deriving DecidableEq, Repr

/-- One line of the scan. -/
def VictimScan.visit (lines : Lines) (now : Nat) (s : VictimScan) (c : Nat) : VictimScan :=
  let line := lines c
  let cb := computeVictimScore line now 1 0
  let cat := computeVictimScore line now 1 2
  { greedy := if line.vpc < s.greedy.key then { line := some c, key := line.vpc } else s.greedy
    cb := if s.cb.key < cb.1 / cb.2 then { line := some c, key := cb.1 / cb.2 } else s.cb
    cat := if s.cat.key < cat.1 / cat.2 then { line := some c, key := cat.1 / cat.2 } else s.cat
    ecMax := if s.ecMax < line.eraseCnt then line.eraseCnt else s.ecMax
    ecMin := if line.eraseCnt < s.ecMin then line.eraseCnt else s.ecMin
    ecSum := u64 (s.ecSum + line.eraseCnt)
    count := u32 (s.count + 1) }

def scanVictims (lm : LineMgmt) (now : Nat) : VictimScan :=
  lm.victimLinePq.items.foldl (VictimScan.visit lm.lines now)
    { greedy := { line := none, key := uintMax }, cb := { line := none, key := 0 }
      cat := { line := none, key := 0 }, ecMax := 0, ecMin := uintMax, ecSum := 0, count := 0 }

/-- `s1_gap` and `s2_gap`: by how many percent of a line the second pick keeps more valid pages. -/
def vpcGap (lines : Lines) (spp : SsdParams) : Option Nat → Option Nat → Nat
  | some base, some other =>
    if base ≠ other ∧ (lines base).vpc < (lines other).vpc then
      u32 (((lines other).vpc - (lines base).vpc) * 100 / spp.pgsPerLine)
    else 0
  | _, _ => 0

/-- S1 and S2. -/
def gapLevel (gap : Nat) : Nat :=
  if gap < 3 then 0 else if gap < 8 then 1 else if gap < 18 then 2 else 3

/-- S3. -/
def hotLevel (hotPct : Nat) : Nat :=
  if hotPct < 10 then 0 else if hotPct < 30 then 1 else if hotPct < 55 then 2 else 3

/-- S4. -/
def trendLevel (diff : Int) : Nat := if diff < -8 then 0 else if 8 < diff then 2 else 1

/-- S5. -/
def victimLevel (lastVictimEc mean : Nat) : Nat :=
  if lastVictimEc ≤ mean then 0
  else if lastVictimEc ≤ u32 (mean + mean / 2) then 1
  else 2

/-- S6. -/
def wearLevel (wearRel : Nat) : Nat := if wearRel < 5 then 0 else if wearRel < 20 then 1 else 2

/-- The hot share of the window, in percent. -/
def RlConfig.hotPct (rl : RlConfig) : Nat :=
  if 0 < rl.windowTotal then u32 (rl.windowHot * 100) / rl.windowTotal else 0

/-- The state index computed at time `now`. -/
def rlStateAt (ftl : ConvFtl) (now : Nat) : Nat :=
  let lm := ftl.lm
  let scan := scanVictims lm now
  let mean := if 0 < scan.count then u32 (scan.ecSum / scan.count) else 0
  let wearRel := if 0 < scan.count ∧ 0 < mean then
      u32 (sub32 scan.ecMax scan.ecMin * 100) / u32 (mean + 1)
    else 0
  let hotPct := ftl.rl.hotPct
  let s1 := gapLevel (vpcGap lm.lines ftl.ssd.sp scan.greedy.line scan.cb.line)
  let s2 := gapLevel (vpcGap lm.lines ftl.ssd.sp scan.cb.line scan.cat.line)
  let s3 := hotLevel hotPct
  let s4 := trendLevel (i32 hotPct - i32 ftl.rl.prevHotPct)
  let s5 := victimLevel ftl.rl.lastVictimEc mean
  let s6 := wearLevel wearRel
  s1 * (4 * 4 * 3 * 3 * 3) + s2 * (4 * 3 * 3 * 3) + s3 * (3 * 3 * 3) + s4 * (3 * 3) + s5 * 3 + s6

/-- `rl_get_state`. -/
def rlGetState (ftl : ConvFtl) : FtlM Nat := do
  let now ← ktimeGetNs
  pure (rlStateAt ftl now)

/-! ## Action -/

/-- `rl_decode_action`. -/
def rlDecodeAction (rl : RlConfig) (action : Nat) : RlConfig :=
  { rl with curAction := action, alphaLevel := action / rlNumA2, deltaLevel := action % rlNumA2 }

/-- The action of greatest value, the first of equals. -/
def bestAction (q : Nat → Int) : Nat :=
  (List.range (rlNumActions - 1)).foldl (fun best a => if q best < q (a + 1) then a + 1 else best) 0

/-- The greatest value of a state. -/
def maxQ (q : Nat → Int) : Int :=
  (List.range (rlNumActions - 1)).foldl (fun m a => if m < q (a + 1) then q (a + 1) else m) (q 0)

/-- `rl_select_action`. -/
def rlSelectAction (rl : RlConfig) (state : Nat) : FtlM Nat := do
  let explore ← getRandomU32
  if explore % 1000 < rl.epsilon then
    let action ← getRandomU32
    pure (action % rlNumActions)
  else
    pure (bestAction (rl.qTable state))

/-! ## Learning -/

/-- The `E` term of the reward, clamped to ±2000. -/
def wearPenalty (curRange prevRange eraseMean : Nat) : Int :=
  let wearDelta := i32 curRange - i32 prevRange
  let perMean : Int := u32 (eraseMean + 1)
  let penalty := (wearDelta * 1000).tdiv perMean + (((curRange : Int) * 1000).tdiv perMean).tdiv 4
  let penalty := if 2000 < penalty then 2000 else penalty
  if penalty < -2000 then -2000 else penalty

/-- `rl_update`, with `RL_ALPHA` = 100, `RL_GAMMA` = 950, `RL_LAMBDA` = 500, `RL_Q_SCALE` = 1000. -/
def rlUpdate (ftl : ConvFtl) (newState : Nat) : ConvFtl :=
  let rl := ftl.rl
  let ppl := u32 ftl.ssd.sp.pgsPerLine
  let copied := sub64 ftl.gcCopiedPages rl.prevCopiedPages
  let wafPenalty : Int := if 0 < ppl then ((copied : Int) * 1000).tdiv ppl else 0
  let st := collectEraseStats ftl.lm
  let eraseMean := if 0 < ftl.lm.ttLines then u32 (st.sum / ftl.lm.ttLines) else 1
  let curRange := sub32 st.max st.min
  let prevRange := if rl.prevEraseMin ≤ rl.prevEraseMax then rl.prevEraseMax - rl.prevEraseMin else 0
  let reward := -wafPenalty - (500 * wearPenalty curRange prevRange eraseMean).tdiv 1000
  let oldQ := rl.qTable rl.curState rl.curAction
  let newQ := oldQ +
    (100 * (reward + (950 * maxQ (rl.qTable newState)).tdiv 1000 - oldQ)).tdiv 1000
  let epsilon := u32 (rl.epsilon * 999) / 1000
  { ftl with rl :=
    { rl with
      qTable := Function.update rl.qTable rl.curState
        (Function.update (rl.qTable rl.curState) rl.curAction newQ)
      epsilon := if epsilon < 50 then 50 else epsilon
      totalEpisodes := rl.totalEpisodes + 1
      totalReward := rl.totalReward + reward
      prevCopiedPages := ftl.gcCopiedPages
      prevEraseMax := st.max
      prevEraseMin := st.min } }

end NvmeVirt

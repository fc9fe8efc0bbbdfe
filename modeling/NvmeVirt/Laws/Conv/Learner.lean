import NvmeVirt.Lib.FixedPoint
import NvmeVirt.Laws.Conv.Phases

/-!
# The learner stays in bounds

A state index is a number in mixed radix and an action is a remainder, so both stay below their
bounds whatever they are computed from. The values are kept by the fixed-point step of `rl_update`:
rewards lie in `[-2000, 1000]` because one collection copies less than a line, and `[-40000, 20000]`
is the interval the discount 0.95 contracts to. That a reward counts the pages of one collection
only is what `gc_mode = RL` throughout is needed for.

`LearnerInBounds` is the invariant, `RewardInBounds` what a step of the learner needs besides.
Outside `rl_update` a write or a collection touches only the counters of the learner; the lemmas
named `_rl` say so for each function, so that the run lemma has one interesting step.

All quotients are those of C, rounded towards zero, and all products are shown to fit `int64_t`
before they are used; nothing is said about how well the learner learns.
-/

set_option autoImplicit false

namespace NvmeVirt

open Outcome

/-- `RL_NUM_STATES`. -/
def rlNumStates : Nat := 4 * 4 * 4 * 3 * 3 * 3

/-! ## The parts of `rl_update` -/

/-- `copied`. -/
def rlCopied (ftl : ConvFtl) : Nat := sub64 ftl.gcCopiedPages ftl.rl.prevCopiedPages

/-- `waf_penalty`. -/
def rlWafPenalty (ftl : ConvFtl) : Int :=
  if 0 < u32 ftl.ssd.sp.pgsPerLine then
    ((rlCopied ftl : Int) * 1000).tdiv (u32 ftl.ssd.sp.pgsPerLine)
  else 0

/-- `erase_mean`. -/
def rlEraseMean (ftl : ConvFtl) : Nat :=
  if 0 < ftl.lm.ttLines then u32 ((collectEraseStats ftl.lm).sum / ftl.lm.ttLines) else 1

/-- `cur_range`. -/
def rlCurRange (ftl : ConvFtl) : Nat :=
  sub32 (collectEraseStats ftl.lm).max (collectEraseStats ftl.lm).min

/-- `prev_range`. -/
def RlConfig.prevRange (rl : RlConfig) : Nat :=
  if rl.prevEraseMin ≤ rl.prevEraseMax then rl.prevEraseMax - rl.prevEraseMin else 0

/-- `reward`. -/
def rlReward (ftl : ConvFtl) : Int :=
  -rlWafPenalty ftl -
    (500 * wearPenalty (rlCurRange ftl) ftl.rl.prevRange (rlEraseMean ftl)).tdiv 1000

/-- What the value of the last state and action moves towards. -/
def rlTarget (ftl : ConvFtl) (newState : Nat) : Int :=
  rlReward ftl + (950 * maxQ (ftl.rl.qTable newState)).tdiv 1000

/-- The new value of the last state and action. -/
def rlNewQ (ftl : ConvFtl) (newState : Nat) : Int :=
  FixedPoint.step 100 1000 (ftl.rl.qTable ftl.rl.curState ftl.rl.curAction) (rlTarget ftl newState)

/-- The table after an update. -/
theorem rlUpdate_qTable (ftl : ConvFtl) (newState : Nat) :
    (rlUpdate ftl newState).rl.qTable = Function.update ftl.rl.qTable ftl.rl.curState
      (Function.update (ftl.rl.qTable ftl.rl.curState) ftl.rl.curAction (rlNewQ ftl newState)) := rfl

/-- The reward is added to the total. -/
theorem rlUpdate_totalReward (ftl : ConvFtl) (newState : Nat) :
    (rlUpdate ftl newState).rl.totalReward = ftl.rl.totalReward + rlReward ftl := rfl

/-- The signed 64-bit values `rl_update` computes from what it read, in order. -/
def updateSteps (copied perMean : Nat)
    (waf wearDelta range wear reward maxQNext target oldQ newQ : Int) :
    List Int :=
  [(copied : Int) * 1000, waf, wearDelta * 1000, (wearDelta * 1000).tdiv perMean,
    range * 1000, (range * 1000).tdiv perMean, ((range * 1000).tdiv perMean).tdiv 4,
    (wearDelta * 1000).tdiv perMean + ((range * 1000).tdiv perMean).tdiv 4,
    500 * wear, (500 * wear).tdiv 1000, reward, 950 * maxQNext, (950 * maxQNext).tdiv 1000, target,
    target - oldQ, 100 * (target - oldQ), (100 * (target - oldQ)).tdiv 1000, newQ]

/-- The signed 64-bit values of the update at `newState`. -/
def rlSteps (ftl : ConvFtl) (newState : Nat) : List Int :=
  updateSteps (rlCopied ftl) (u32 (rlEraseMean ftl + 1)) (rlWafPenalty ftl)
    (i32 (rlCurRange ftl) - i32 ftl.rl.prevRange) (rlCurRange ftl)
    (wearPenalty (rlCurRange ftl) ftl.rl.prevRange (rlEraseMean ftl)) (rlReward ftl)
    (maxQ (ftl.rl.qTable newState)) (rlTarget ftl newState)
    (ftl.rl.qTable ftl.rl.curState ftl.rl.curAction) (rlNewQ ftl newState)

/-! ## Indices -/

/-- Every state index `rl_get_state` computes is an index of the table. -/
theorem rlStateAt_lt (ftl : ConvFtl) (now : Nat) : rlStateAt ftl now < rlNumStates := by
  have hgap : ∀ gap, gapLevel gap ≤ 3 := fun gap => by unfold gapLevel; split_ifs <;> omega
  have hhot : ∀ pct, hotLevel pct ≤ 3 := fun pct => by unfold hotLevel; split_ifs <;> omega
  have htrend : ∀ diff, trendLevel diff ≤ 2 := fun diff => by unfold trendLevel; split_ifs <;> omega
  have hvictim : ∀ ec mean, victimLevel ec mean ≤ 2 := fun ec mean => by
    unfold victimLevel
    split_ifs <;> omega
  have hwear : ∀ rel, wearLevel rel ≤ 2 := fun rel => by unfold wearLevel; split_ifs <;> omega
  -- the digits of the index in mixed radix
  have hdigits : ∀ s1 s2 s3 s4 s5 s6 : Nat, s1 ≤ 3 → s2 ≤ 3 → s3 ≤ 3 → s4 ≤ 2 → s5 ≤ 2 → s6 ≤ 2 →
      s1 * (4 * 4 * 3 * 3 * 3) + s2 * (4 * 3 * 3 * 3) + s3 * (3 * 3 * 3) + s4 * (3 * 3) + s5 * 3 + s6 <
        rlNumStates := by
    unfold rlNumStates
    omega
  exact hdigits _ _ _ _ _ _ (hgap _) (hgap _) (hhot _) (htrend _) (hvictim _ _) (hwear _)

/-- The state is below the number of states. -/
theorem rlGetState_lt {E : Fault → Prop} (ftl : ConvFtl) :
    Ensures E (rlGetState ftl) fun state => state < rlNumStates :=
  ktimeGetNs_ensures.bind fun now _ => .pure (rlStateAt_lt ftl now)

/-- The greedy action is one of the actions. -/
theorem bestAction_lt (q : Nat → Int) : bestAction q < rlNumActions := by
  unfold bestAction
  refine List.foldlRecOn (motive := fun best => best < rlNumActions) _ _ (by decide) ?_
  intro best hbest a ha
  have := List.mem_range.mp ha
  unfold rlNumActions rlNumA2 at *
  split_ifs <;> omega

/-- So is the one selected, greedy or explored. -/
theorem rlSelectAction_lt {E : Fault → Prop} (rl : RlConfig) (state : Nat) :
    Ensures E (rlSelectAction rl state) fun action => action < rlNumActions := by
  refine getRandomU32_ensures.bind fun explore _ => .ite (fun _ => ?_) fun _ => .pure (bestAction_lt _)
  exact getRandomU32_ensures.bind fun action _ => .pure (Nat.mod_lt _ (by decide))

/-- The two levels an action stands for. -/
theorem action_levels {action : Nat} (h : action < rlNumActions) :
    action / rlNumA2 ≤ 3 ∧ action % rlNumA2 ≤ 4 := by
  unfold rlNumActions rlNumA2 at *
  omega

/-! ## Values -/

/-- The greatest value of a state lies where all its values lie. -/
theorem maxQ_mem {q : Nat → Int} {lo hi : Int} (h : ∀ a, lo ≤ q a ∧ q a ≤ hi) :
    lo ≤ maxQ q ∧ maxQ q ≤ hi := by
  unfold maxQ
  refine List.foldlRecOn (motive := fun m => lo ≤ m ∧ m ≤ hi) _ _ (h 0) fun m hm a _ => ?_
  split_ifs
  · exact h (a + 1)
  · exact hm

/-- What the learner owes its table: indices and levels in range, values in `[-40000, 20000]`, and a
total that is that of as many rewards as there were episodes. -/
structure LearnerInBounds (rl : RlConfig) : Prop where
  qTable : ∀ state action, -40000 ≤ rl.qTable state action ∧ rl.qTable state action ≤ 20000
  curState : rl.curState < rlNumStates
  curAction : rl.curAction < rlNumActions
  alphaLevel : rl.alphaLevel ≤ 3
  deltaLevel : rl.deltaLevel ≤ 4
  totalReward : -2000 * (rl.totalEpisodes : Int) ≤ rl.totalReward ∧
    rl.totalReward ≤ 1000 * (rl.totalEpisodes : Int)

theorem LearnerInBounds.start : LearnerInBounds initRl where
  qTable _ _ := ⟨(by decide : (-40000 : Int) ≤ 0), (by decide : (0 : Int) ≤ 20000)⟩
  curState := by decide
  curAction := by decide
  alphaLevel := by decide
  deltaLevel := by decide
  totalReward := ⟨by decide, by decide⟩

/-- The penalty for wear is clamped. -/
theorem wearPenalty_mem (curRange prevRange eraseMean : Nat) :
    -2000 ≤ wearPenalty curRange prevRange eraseMean ∧
      wearPenalty curRange prevRange eraseMean ≤ 2000 := by
  unfold wearPenalty
  dsimp only
  split_ifs <;> omega

/-- The write amplification of a collection that copied less than a line is below one. -/
theorem rlWafPenalty_mem {ftl : ConvFtl} (hle : ftl.ssd.sp.pgsPerLine ≤ 2 ^ 32)
    (hcopied : rlCopied ftl < ftl.ssd.sp.pgsPerLine) :
    0 ≤ rlWafPenalty ftl ∧ rlWafPenalty ftl ≤ 1000 := by
  unfold rlWafPenalty
  split_ifs with hpos
  · -- the cast of `pgs_per_line` keeps it, unless it is 2 ^ 32 and becomes 0
    have hppl : u32 ftl.ssd.sp.pgsPerLine = ftl.ssd.sp.pgsPerLine := by
      unfold u32 at *
      omega
    have hline : (0 : Int) ≤ ftl.ssd.sp.pgsPerLine := Int.natCast_nonneg _
    have hscaled : (rlCopied ftl : Int) * 1000 ≤ 1000 * ftl.ssd.sp.pgsPerLine := by omega
    rw [hppl]
    refine ⟨Int.tdiv_nonneg (by omega) hline, ?_⟩
    calc ((rlCopied ftl : Int) * 1000).tdiv ftl.ssd.sp.pgsPerLine
        ≤ (1000 * (ftl.ssd.sp.pgsPerLine : Int)).tdiv ftl.ssd.sp.pgsPerLine :=
          Int.tdiv_le_tdiv (by omega) hscaled
      _ = 1000 := Int.mul_tdiv_cancel _ (by omega)
  · exact ⟨le_refl _, by decide⟩

/-- The reward of a collection that copies less than a line. -/
theorem rlReward_mem {ftl : ConvFtl} (hle : ftl.ssd.sp.pgsPerLine ≤ 2 ^ 32)
    (hcopied : rlCopied ftl < ftl.ssd.sp.pgsPerLine) :
    -2000 ≤ rlReward ftl ∧ rlReward ftl ≤ 1000 := by
  have hwaf := rlWafPenalty_mem hle hcopied
  have hwear := wearPenalty_mem (rlCurRange ftl) ftl.rl.prevRange (rlEraseMean ftl)
  have h1 := Int.tdiv_le_tdiv (c := 1000) (by decide) (Int.mul_le_mul_of_nonneg_left hwear.1
    (by decide : (0 : Int) ≤ 500))
  have h2 := Int.tdiv_le_tdiv (c := 1000) (by decide) (Int.mul_le_mul_of_nonneg_left hwear.2
    (by decide : (0 : Int) ≤ 500))
  have hlow : (500 * -2000 : Int).tdiv 1000 = -1000 := by decide
  have hhigh : (500 * 2000 : Int).tdiv 1000 = 1000 := by decide
  unfold rlReward
  omega

/-- The new value stays in the interval. -/
theorem rlNewQ_mem {ftl : ConvFtl} (h : LearnerInBounds ftl.rl)
    (hr : -2000 ≤ rlReward ftl ∧ rlReward ftl ≤ 1000) (newState : Nat) :
    -40000 ≤ rlNewQ ftl newState ∧ rlNewQ ftl newState ≤ 20000 :=
  FixedPoint.discounted_mem (by decide) (by decide) (by decide) (by decide) hr
    (maxQ_mem (h.qTable newState)) (h.qTable _ _) (by decide) (by decide)

/-- An update keeps the learner in bounds. -/
theorem LearnerInBounds.update {ftl : ConvFtl} (h : LearnerInBounds ftl.rl)
    (hr : -2000 ≤ rlReward ftl ∧ rlReward ftl ≤ 1000) (newState : Nat) :
    LearnerInBounds (rlUpdate ftl newState).rl where
  qTable state action := by
    rw [rlUpdate_qTable]
    by_cases hs : state = ftl.rl.curState
    · subst hs
      rw [Function.update_self]
      by_cases ha : action = ftl.rl.curAction
      · rw [ha, Function.update_self]
        exact rlNewQ_mem h hr newState
      · rw [Function.update_of_ne ha]
        exact h.qTable _ _
    · rw [Function.update_of_ne hs]
      exact h.qTable _ _
  curState := h.curState
  curAction := h.curAction
  alphaLevel := h.alphaLevel
  deltaLevel := h.deltaLevel
  totalReward := by
    have htotal := h.totalReward
    have hepisodes : (rlUpdate ftl newState).rl.totalEpisodes = ftl.rl.totalEpisodes + 1 := rfl
    rw [rlUpdate_totalReward, hepisodes]
    omega

/-- What the value moves towards. -/
theorem rlTarget_mem {ftl : ConvFtl} (h : LearnerInBounds ftl.rl)
    (hr : -2000 ≤ rlReward ftl ∧ rlReward ftl ≤ 1000) (newState : Nat) :
    -40000 ≤ rlTarget ftl newState ∧ rlTarget ftl newState ≤ 20000 := by
  have hmax := maxQ_mem (h.qTable newState)
  have h1 := Int.tdiv_le_tdiv (c := 1000) (by decide)
    (Int.mul_le_mul_of_nonneg_left hmax.1 (by decide : (0 : Int) ≤ 950))
  have h2 := Int.tdiv_le_tdiv (c := 1000) (by decide)
    (Int.mul_le_mul_of_nonneg_left hmax.2 (by decide : (0 : Int) ≤ 950))
  have hlow : (950 * -40000 : Int).tdiv 1000 = -38000 := by decide
  have hhigh : (950 * 20000 : Int).tdiv 1000 = 19000 := by decide
  unfold rlTarget
  omega

/-! ## No overflow -/

/-- A value of `int64_t`. -/
def InI64 (x : Int) : Prop := -2 ^ 63 ≤ x ∧ x < 2 ^ 63

/-- The operands of an update are below 2 ^ 33, and no product is longer than 43 bits. -/
def Far (x : Int) : Prop := -8796093022208 ≤ x ∧ x ≤ 8796093022208

theorem Far.inI64 {x : Int} (h : Far x) : InI64 x :=
  ⟨(by norm_num : (-2 ^ 63 : Int) ≤ -8796093022208).trans h.1,
    h.2.trans_lt (by norm_num : (8796093022208 : Int) < 2 ^ 63)⟩

/-- Small numbers are far from the ends of `int64_t`. -/
theorem Far.of_mem {x n : Int} (h : -n ≤ x ∧ x ≤ n) (hn : n ≤ 8796093022208) : Far x :=
  ⟨by omega, by omega⟩

theorem Far.tdiv {x : Int} (h : Far x) (y : Int) : Far (x.tdiv y) := FixedPoint.tdiv_bound h

theorem i32_mem (n : Nat) : -2147483648 ≤ i32 n ∧ i32 n ≤ 2147483648 := by
  unfold i32
  have h1 := Int.le_bmod (x := (n : Int)) (m := 2 ^ 32) (by decide)
  have h2 := Int.bmod_lt (x := (n : Int)) (m := 2 ^ 32) (by decide)
  omega

theorem rlCurRange_lt (ftl : ConvFtl) : rlCurRange ftl < 4294967296 := Nat.mod_lt _ (by decide)

/-- No step is far out when the operands are not. -/
theorem updateSteps_far {copied perMean : Nat}
    {waf wearDelta range wear reward maxQNext target oldQ newQ : Int} (hcopied : copied < 4294967296)
    (hwaf : 0 ≤ waf ∧ waf ≤ 1000) (hdelta : -4294967296 ≤ wearDelta ∧ wearDelta ≤ 4294967296)
    (hrange : 0 ≤ range ∧ range < 4294967296) (hwear : -2000 ≤ wear ∧ wear ≤ 2000)
    (hreward : -2000 ≤ reward ∧ reward ≤ 1000) (hmax : -40000 ≤ maxQNext ∧ maxQNext ≤ 20000)
    (htarget : -40000 ≤ target ∧ target ≤ 20000) (hold : -40000 ≤ oldQ ∧ oldQ ≤ 20000)
    (hnew : -40000 ≤ newQ ∧ newQ ≤ 20000) :
    ∀ x ∈ updateSteps copied perMean waf wearDelta range wear reward maxQNext target oldQ newQ,
      Far x := by
  have hd : -4294967296000 ≤ wearDelta * 1000 ∧ wearDelta * 1000 ≤ 4294967296000 := by omega
  have hl : -4294967296000 ≤ range * 1000 ∧ range * 1000 ≤ 4294967296000 := by omega
  have hdq := FixedPoint.tdiv_bound (y := perMean) hd
  have hlq := FixedPoint.tdiv_bound (y := 4) (FixedPoint.tdiv_bound (y := perMean) hl)
  have hpenalty : Far (500 * wear) := ⟨by omega, by omega⟩
  have hgreatest : Far (950 * maxQNext) := ⟨by omega, by omega⟩
  have hmove : Far (100 * (target - oldQ)) := ⟨by omega, by omega⟩
  have hfd : Far (wearDelta * 1000) := .of_mem hd (by decide)
  have hfl : Far (range * 1000) := .of_mem hl (by decide)
  unfold updateSteps
  simp only [List.mem_cons, List.not_mem_nil, or_false]
  rintro x (rfl | rfl | rfl | rfl | rfl | rfl | rfl | rfl | rfl | rfl | rfl | rfl | rfl | rfl |
    rfl | rfl | rfl | rfl)
  · exact ⟨by omega, by omega⟩
  · exact ⟨by omega, by omega⟩
  · exact hfd
  · exact hfd.tdiv _
  · exact hfl
  · exact hfl.tdiv _
  · exact (hfl.tdiv _).tdiv _
  · exact ⟨by omega, by omega⟩
  · exact hpenalty
  · exact hpenalty.tdiv _
  · exact ⟨by omega, by omega⟩
  · exact hgreatest
  · exact hgreatest.tdiv _
  · exact ⟨by omega, by omega⟩
  · exact ⟨by omega, by omega⟩
  · exact hmove
  · exact hmove.tdiv _
  · exact ⟨by omega, by omega⟩

/-- No 64-bit step of an update overflows. -/
theorem rlSteps_inI64 {ftl : ConvFtl} (h : LearnerInBounds ftl.rl)
    (hle : ftl.ssd.sp.pgsPerLine ≤ 2 ^ 32) (hcopied : rlCopied ftl < ftl.ssd.sp.pgsPerLine)
    (newState : Nat) : ∀ x ∈ rlSteps ftl newState, InI64 x := by
  have hreward := rlReward_mem hle hcopied
  have hcur := i32_mem (rlCurRange ftl)
  have hprev := i32_mem ftl.rl.prevRange
  have hrange : ((rlCurRange ftl : Nat) : Int) < 4294967296 := Int.ofNat_lt.mpr (rlCurRange_lt ftl)
  have hdelta : -4294967296 ≤ i32 (rlCurRange ftl) - i32 ftl.rl.prevRange ∧
      i32 (rlCurRange ftl) - i32 ftl.rl.prevRange ≤ 4294967296 := ⟨by omega, by omega⟩
  have hfar := @updateSteps_far _ (u32 (rlEraseMean ftl + 1)) _ _ _ _ _ _ _ _ _
    (hcopied.trans_le hle) (rlWafPenalty_mem hle hcopied) hdelta ⟨Int.natCast_nonneg _, hrange⟩
    (wearPenalty_mem (rlCurRange ftl) ftl.rl.prevRange (rlEraseMean ftl)) hreward
    (maxQ_mem (h.qTable newState)) (rlTarget_mem h hreward newState)
    (h.qTable ftl.rl.curState ftl.rl.curAction) (rlNewQ_mem h hreward newState)
  exact fun x hx => (hfar x hx).inI64

/-! ## What a page write and a selection leave of the learner -/

/-- A page write only counts itself. -/
def RlConfig.Counts (rl rl' : RlConfig) : Prop :=
  ∃ windowHot windowTotal prevHotPct, rl' = { rl with windowHot, windowTotal, prevHotPct }

section Ensures

variable {E : Fault → Prop} {ftl : ConvFtl}

/-- Any fault may stop a run here: a stopped run learns nothing. -/
abbrev AnyFault (_ : Fault) : Prop := True

/-- The mapping is none of the learner's business. -/
theorem setRmapEnt_rl (ftl : ConvFtl) (lpn : Nat) (ppa : Ppa) :
    Ensures AnyFault (ftl.setRmapEnt lpn ppa) fun r => r.rl = ftl.rl :=
  Ensures.any.bind fun _ _ => .pure rfl

theorem invalidateOld_rl (ftl : ConvFtl) (lpn : Nat) :
    Ensures AnyFault (invalidateOld ftl lpn) fun r => r.rl = ftl.rl := by
  unfold invalidateOld
  cases ftl.getMaptblEnt lpn with
  | none => exact .pure rfl
  | some ppa =>
    have hinv : Ensures AnyFault (markPageInvalid ftl ppa) fun r => r.rl = ftl.rl :=
      Ensures.any.bind fun _ _ => ktimeGetNs_ensures.bind fun _ _ => .pure rfl
    exact hinv.bind fun ftl₁ h => (setRmapEnt_rl ftl₁ _ _).mono fun _ h' => h'.trans h

/-- A host write is counted as hot or cold. -/
theorem countHotWrite_rl (ftl : ConvFtl) (lpn : Nat) :
    Ensures E (countHotWrite ftl lpn) fun r => ftl.rl.Counts r.rl := by
  refine readGcMode_ensures.bind fun _ _ => .ite (fun _ => ktimeGetNs_ensures.bind fun _ _ =>
    .pure ?_) fun _ => .pure ⟨_, _, _, rfl⟩
  unfold RlConfig.countWrite
  dsimp only
  split
  · exact ⟨_, _, _, rfl⟩
  · exact ⟨_, _, _, rfl⟩

/-- Nor are the write pointers. -/
theorem advanceWritePointer_rl (ftl : ConvFtl) (s : Stream) :
    Ensures AnyFault (advanceWritePointer ftl s) fun r => r.rl = ftl.rl := by
  have hopen : ∀ wpp, Ensures AnyFault (openNextLine ftl s wpp) fun r => r.rl = ftl.rl := by
    intro wpp
    unfold openNextLine
    refine Ensures.any.bind fun lm _ => Ensures.any.bind fun _ _ => ?_
    cases lm.getNextFreeLine with
    | none => exact .throw trivial
    | some r => exact Ensures.any.bind fun _ _ => Ensures.any.bind fun _ _ => .pure rfl
  have hset : ∀ wpp, Ensures AnyFault (pure (ftl.setWp s wpp) : FtlM ConvFtl)
      fun r => r.rl = ftl.rl :=
    fun _ => .pure rfl
  unfold advanceWritePointer
  refine Ensures.any.bind fun _ _ => .ite (fun _ => hset _) fun _ => ?_
  refine Ensures.any.bind fun _ _ => .ite (fun _ => hset _) fun _ => ?_
  refine Ensures.any.bind fun _ _ => .ite (fun _ => hset _) fun _ => ?_
  exact .ite (fun _ => hset _) fun _ => hopen _

-- By cases on the instance: comparing the instances would unfold their wide arithmetic.
theorem touchMeta_rl (ftl : ConvFtl) (lpn now : Nat) : (ftl.touchMeta lpn now).rl = ftl.rl := by
  cases ftl
  rfl

theorem consumeWriteCredit_rl (ftl : ConvFtl) : (consumeWriteCredit ftl).rl = ftl.rl := by
  cases ftl
  rfl

/-- The body of the loop of `conv_write` changes only the counts of the learner. -/
theorem convWritePageBody_rl (ftl : ConvFtl) (lpn stime : Nat) :
    Ensures AnyFault (convWritePageBody ftl lpn stime) fun r => ftl.rl.Counts r.1.rl := by
  unfold convWritePageBody
  refine (invalidateOld_rl ftl lpn).bind fun ftl₁ h₁ => ?_
  rw [← h₁]
  have hpage : Ensures AnyFault (getNewPage ftl₁ .userIo) fun r => r.1.rl = ftl₁.rl :=
    Ensures.any.bind fun _ _ => .pure rfl
  refine hpage.bind ?_
  rintro ⟨ftl₁', ppa⟩ h₁'
  dsimp only at h₁' ⊢
  rw [← h₁']
  clear h₁ h₁'
  have hmap : Ensures AnyFault (ftl₁'.setMaptblEnt lpn ppa) fun r => r.rl = ftl₁'.rl :=
    Ensures.any.bind fun _ _ => .pure rfl
  refine hmap.bind fun ftl₂ h₂ => (setRmapEnt_rl ftl₂ lpn ppa).bind fun ftl₃ h₃ => ?_
  have hvalid : Ensures AnyFault (markPageValid ftl₃ ppa) fun r => r.rl = ftl₃.rl :=
    Ensures.any.bind fun _ _ => .pure rfl
  refine hvalid.bind fun ftl₄ h₄ => ?_
  refine Ensures.bind (countHotWrite_rl { ftl₄.record [.host lpn ppa] with
    hostWrittenPages := ftl₄.hostWrittenPages + 1 } lpn)
    fun ftl₅ h₅ => ktimeGetNs_ensures.bind fun now _ => ?_
  have h₅ : ftl₁'.rl.Counts ftl₅.rl := by
    rw [← h₂, ← h₃, ← h₄]
    exact h₅
  refine (advanceWritePointer_rl (ftl₅.touchMeta lpn now) .userIo).bind fun ftl₆ h₆ => ?_
  rw [touchMeta_rl] at h₆
  have hprog : Ensures AnyFault (programWordline ftl₆ stime ppa) fun r => r.1.rl = ftl₆.rl :=
    .ite (fun _ => Ensures.any.bind fun _ _ => .pure rfl) fun _ => .pure rfl
  refine hprog.bind ?_
  rintro ⟨ftl₇, nsecsDone⟩ h₇
  refine .pure ?_
  dsimp only at h₇ ⊢
  rw [consumeWriteCredit_rl, h₇, h₆]
  exact h₅

/-- Under RL the selection stores a state and an action that are in range. -/
theorem gcSelect_rl (ftl : ConvFtl) (force : Bool) (selectFn : Option VictimSelectFn) :
    Ensures E (gcSelect ftl .rl force selectFn) fun r => ∃ state action, state < rlNumStates ∧
      action < rlNumActions ∧
        r.1.rl = rlDecodeAction { ftl.rl with curState := state } action := by
  refine .ite (fun _ => ?_) fun hne => absurd rfl hne
  refine (rlGetState_lt ftl).bind fun state hs => (rlSelectAction_lt ftl.rl state).bind
    fun action ha => ktimeGetNs_ensures.bind fun _ _ => .pure ⟨state, action, hs, ha, rfl⟩

end Ensures

/-- The counts of a page write do not touch what is in bounds. -/
theorem LearnerInBounds.counts {rl rl' : RlConfig} (h : LearnerInBounds rl) (hc : rl.Counts rl') :
    LearnerInBounds rl' := by
  obtain ⟨_, _, _, rfl⟩ := hc
  exact ⟨h.qTable, h.curState, h.curAction, h.alphaLevel, h.deltaLevel, h.totalReward⟩

/-- A choice in range keeps the learner in bounds. -/
theorem LearnerInBounds.choose {rl : RlConfig} (h : LearnerInBounds rl) {state action : Nat}
    (hs : state < rlNumStates) (ha : action < rlNumActions) :
    LearnerInBounds (rlDecodeAction { rl with curState := state } action) where
  qTable := h.qTable
  curState := hs
  curAction := ha
  alphaLevel := (action_levels ha).1
  deltaLevel := (action_levels ha).2
  totalReward := h.totalReward

/-- A choice keeps the learner in bounds and what it has seen. -/
theorem LearnerInBounds.gcSelect {ftl : ConvFtl} (h : LearnerInBounds ftl.rl) (hset : Settled ftl) :
    Ensures AnyFault (gcSelect ftl .rl true GcMode.rl.selectFn) fun r => LearnerInBounds r.1.rl ∧
      r.1.rl.prevCopiedPages = ftl.rl.prevCopiedPages ∧ r.1.gcCopiedPages = ftl.gcCopiedPages := by
  refine ((gcSelect_rl ftl true _).and (gcSelect_inHand (E := AnyFault) hset .rl)).mono ?_
  rintro r ⟨⟨state, action, hs, ha, hrl⟩, _, hcopied, _⟩
  have hprev := congrArg RlConfig.prevCopiedPages hrl
  refine ⟨?_, hprev, hcopied⟩
  rw [hrl]
  exact h.choose hs ha

/-! ## Runs under RL -/

/-- Every collection reads `gc_mode = RL`. -/
def RlThroughout (_ : Moment) (step : LoopStep) : Prop := ∀ mode, step = .select mode → mode = .rl

/-- The learner has seen every copy, but for those of the collection it is about to learn from. -/
def Moment.RlSeen (m : Moment) : Prop :=
  match m.phase with
  | .finish mode => mode = .rl ∧ rlCopied m.ftl < m.ftl.ssd.sp.pgsPerLine
  | .clean mode _ => mode = .rl ∧ m.ftl.rl.prevCopiedPages = m.ftl.gcCopiedPages
  | _ => m.ftl.rl.prevCopiedPages = m.ftl.gcCopiedPages

theorem SsdParams.WellFormed.pgsPerLine_le {spp : SsdParams} (w : spp.WellFormed) :
    spp.pgsPerLine ≤ 2 ^ 32 := by
  calc spp.pgsPerLine = spp.lunsPerCh * spp.nchs * spp.pgsPerBlk := w.pgsPerLine_eq
    _ ≤ 2 ^ 8 * 2 ^ 8 * 2 ^ 16 :=
      Nat.mul_le_mul (Nat.mul_le_mul w.lunsPerCh_le w.nchs_le) w.pgsPerBlk_le
    _ = 2 ^ 32 := by norm_num

/-- The copies of one collection, as `rl_update` subtracts them. -/
theorem sub64_add (a n : Nat) (hn : n < 2 ^ 64) : sub64 (a + n) a = n := by
  unfold sub64 u64
  omega

/-- What the learner has to learn from next is in bounds: the reward, every 64-bit step, and the
values afterwards. -/
structure RewardInBounds (ftl : ConvFtl) : Prop where
  reward : -2000 ≤ rlReward ftl ∧ rlReward ftl ≤ 1000
  steps : ∀ newState, ∀ x ∈ rlSteps ftl newState, InI64 x
  learner : ∀ newState, LearnerInBounds (rlUpdate ftl newState).rl

/-- What a step of the learner needs, from what a collection has copied. -/
theorem RewardInBounds.of_copied {ftl : ConvFtl} (w : ftl.ssd.sp.WellFormed)
    (h : LearnerInBounds ftl.rl) (hcopied : rlCopied ftl < ftl.ssd.sp.pgsPerLine) :
    RewardInBounds ftl where
  reward := rlReward_mem w.pgsPerLine_le hcopied
  steps := rlSteps_inI64 h w.pgsPerLine_le hcopied
  learner := h.update (rlReward_mem w.pgsPerLine_le hcopied)

/-- Opening a line leaves the learner and the copied pages. -/
theorem prepareWritePointer_learner (ftl : ConvFtl) (s : Stream) :
    Ensures AnyFault (prepareWritePointer ftl s) fun r =>
      r.rl = ftl.rl ∧ r.gcCopiedPages = ftl.gcCopiedPages := by
  unfold prepareWritePointer
  cases ftl.lm.getNextFreeLine with
  | none => exact .throw trivial
  | some r => exact .pure ⟨rfl, rfl⟩

/-- The learner starts as `init_rl` leaves it, and nothing was copied. -/
theorem convInitFtl_learner (cp : ConvParams) (ssd : Ssd) :
    Ensures AnyFault (convInitFtl cp ssd) fun r => r.rl = initRl ∧ r.gcCopiedPages = 0 := by
  refine (prepareWritePointer_learner _ _).bind fun ftl₁ ⟨hrl₁, hgc₁⟩ => ?_
  refine (prepareWritePointer_learner ftl₁ _).bind fun ftl₂ ⟨hrl₂, hgc₂⟩ => ?_
  refine (prepareWritePointer_learner ftl₂ _).mono fun ftl₃ ⟨hrl₃, hgc₃⟩ => ?_
  exact ⟨hrl₃.trans (hrl₂.trans hrl₁), hgc₃.trans (hgc₂.trans hgc₁)⟩

section Runs

variable {cp : ConvParams} {spp : SsdParams} {inside : Nat → Prop}

/-- In every run under RL the learner is in bounds, and what it has not seen yet is one collection. -/
theorem phases_learner (w : spp.WellFormed) (hinside : ∀ lpn, inside lpn → spp.LocalLpn lpn) :
    ((phases cp spp inside).guarded RlThroughout).Invariant fun m =>
      (m.Ordered ∧ m.ftl.ssd.sp = spp) ∧ LearnerInBounds m.ftl.rl ∧ m.RlSeen := by
  refine (phases_ordered w hinside).guarded.of_rel (fun m hm => ?_) fun m l m' ho hj hstep => ?_
  · obtain ⟨env, env', hrun, hphase, _⟩ := hm
    obtain ⟨hrl, hgc⟩ := (convInitFtl_learner cp _).of_run hrun
    unfold Moment.RlSeen
    rw [hphase, hrl, hgc]
    exact ⟨.start, rfl⟩
  obtain ⟨hordered, hsp⟩ := ho
  obtain ⟨hbounds, hseen⟩ := hj
  obtain ⟨hmode, hstep⟩ := hstep
  cases hstep with
  | write hin hrun =>
    have hset : Settled _ := hordered
    obtain ⟨_, hw, _⟩ := (convWritePageBody_ensures (E := AnyFault) hset
      (hsp ▸ hinside _ hin) _ (.inl trivial)).of_run hrun
    have hcounts := (convWritePageBody_rl _ _ _).of_run hrun
    refine ⟨hbounds.counts hcounts, ?_⟩
    obtain ⟨_, _, _, hrl⟩ := hcounts
    have hprev : _ = _ := congrArg RlConfig.prevCopiedPages hrl
    exact hprev.trans (hseen.trans hw.wear.gcCopiedPages.symm)
  | kept _ => exact ⟨hbounds, hseen⟩
  | skipped _ _ => exact ⟨hbounds, hseen⟩
  | @selected ftl ftl' history mode v env env' _ _ hrun =>
    obtain rfl := hmode mode rfl
    obtain ⟨hlearner, hprev, hcopied⟩ := (hbounds.gcSelect hordered).of_run hrun
    exact ⟨hlearner, rfl, hprev.trans (hseen.trans hcopied.symm)⟩
  | @noVictim ftl ftl' history mode env env' _ _ hrun =>
    obtain rfl := hmode mode rfl
    obtain ⟨hlearner, hprev, hcopied⟩ := (hbounds.gcSelect hordered).of_run hrun
    exact ⟨hlearner, hprev.trans (hseen.trans hcopied.symm)⟩
  | @cleaned ftl ftl' history mode v env env' hrun =>
    obtain ⟨rfl, hprev⟩ := hseen
    have hhand : InHand ftl v := hordered
    obtain ⟨_, hsp', hcopied, lastVictimEc, hrl⟩ := (gcReclaim_inHand hhand .rl).of_run hrun
    have hlt := hhand.vpc_lt
    have hlt' : (ftl.lm.lines v).vpc < 2 ^ 64 := by
      have hle : ftl.ssd.sp.pgsPerLine ≤ 2 ^ 32 := hsp ▸ w.pgsPerLine_le
      omega
    refine ⟨?_, rfl, ?_⟩
    · show LearnerInBounds ftl'.rl
      rw [hrl]
      exact ⟨hbounds.qTable, hbounds.curState, hbounds.curAction, hbounds.alphaLevel,
        hbounds.deltaLevel, hbounds.totalReward⟩
    · show sub64 ftl'.gcCopiedPages ftl'.rl.prevCopiedPages < ftl'.ssd.sp.pgsPerLine
      have hprev' : ftl'.rl.prevCopiedPages = ftl.gcCopiedPages :=
        (congrArg RlConfig.prevCopiedPages hrl).trans hprev
      rw [hprev', hcopied, sub64_add _ _ hlt', hsp']
      exact hlt
  | @finished ftl ftl' history mode env env' hrun =>
    obtain ⟨rfl, hcopied⟩ := hseen
    have hwf : ftl.ssd.sp.WellFormed := hsp ▸ w
    have hreward := RewardInBounds.of_copied hwf hbounds hcopied
    have hfinish : Ensures AnyFault (rlFinish ftl .rl) fun r => ∃ newState, r = rlUpdate ftl newState :=
      .ite (fun _ => (rlGetState_ensures ftl).bind fun _ _ => .pure ⟨_, rfl⟩)
        fun hne => absurd rfl hne
    obtain ⟨newState, rfl⟩ := hfinish.of_run hrun
    exact ⟨hreward.learner newState, rfl⟩

/-- In every run whose collections all read `gc_mode = RL`, at every moment: the learner is in
bounds, every state index and every action it may draw next is in range, and whenever it is about to
learn, the reward is in `[-2000, 1000]`, no 64-bit step overflows and the table stays in bounds. The
random numbers and the clock are any. A collection under another policy may be charged to the next
reward under RL, so `RlThroughout` leaves these out. -/
theorem rl_in_bounds (w : spp.WellFormed) {m : Moment}
    (h : ((phases cp spp spp.LocalLpn).guarded RlThroughout).Reachable m) :
    LearnerInBounds m.ftl.rl ∧
    (∀ env state env', (rlGetState m.ftl).run env = .ok (state, env') → state < rlNumStates) ∧
    (∀ state env action env', (rlSelectAction m.ftl.rl state).run env = .ok (action, env') →
      action < rlNumActions ∧ action / rlNumA2 ≤ 3 ∧ action % rlNumA2 ≤ 4) ∧
    ∀ mode, m.phase = .finish mode → mode = .rl ∧ RewardInBounds m.ftl := by
  obtain ⟨⟨_, hsp⟩, hbounds, hseen⟩ := (phases_learner w fun _ => id).reachable h
  refine ⟨hbounds, fun env state env' hrun => ?_, fun state env action env' hrun => ?_,
    fun mode hmode => ?_⟩
  · exact (rlGetState_lt (E := AnyFault) m.ftl).of_run hrun
  · have hlt := (rlSelectAction_lt (E := AnyFault) m.ftl.rl state).of_run hrun
    exact ⟨hlt, action_levels hlt⟩
  · unfold Moment.RlSeen at hseen
    rw [hmode] at hseen
    have hwf : m.ftl.ssd.sp.WellFormed := hsp ▸ w
    exact ⟨hseen.1, .of_copied hwf hbounds hseen.2⟩

end Runs

/-- The first collection on the small device, which copied one page. -/
theorem rl_in_bounds_small : ∃ m,
    ((phases smallConv smallParams smallParams.LocalLpn).guarded RlThroughout).Reachable m ∧
      m.phase = .finish .rl ∧ m.ftl.gcCopiedPages = 1 ∧ LearnerInBounds m.ftl.rl ∧
        RewardInBounds m.ftl := by
  have hselect : ∀ ftl ftl₀, RlThroughout ⟨ftl, .credit, .start ftl₀⟩ (.select .rl) := by
    rintro _ _ mode hm
    cases hm
    rfl
  obtain ⟨m, hreach, hphase, hcopied⟩ := firstCollection_reachable (fun _ _ => nofun)
    (fun _ => nofun) (fun _ => nofun) hselect
  obtain ⟨hbounds, _, _, hreward⟩ := rl_in_bounds smallParams_wellFormed hreach
  exact ⟨m, hreach, hphase, hcopied, hbounds, (hreward .rl hphase).2⟩

end NvmeVirt

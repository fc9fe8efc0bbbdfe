import NvmeVirt.Laws.Conv.Run

/-!
# The phases of a page write

A page write that spends the last credit runs `do_gc`: it selects a victim, reclaims it, and under
`GC_MODE_RL` the learner learns from it. `phases` is the loop of `conv_write` cut at these points,
so that a fact about every collection of every run is a fact about a reachable moment. A moment also
carries what the collections before it did. Every completed page write is a path of phases
(`pageWrites_phases`).

`phases_ordered` says what holds of the instance at each of the points, with the victim in hand in
between (`InHand`). The laws about victims, rewards and wear are invariants of these runs.

The last part makes runs of a small device: page writes without a collection, and then the first
one.
-/

set_option autoImplicit false

namespace NvmeVirt

open Outcome

/-- Where the loop of `conv_write` stands. -/
inductive Phase where
  /-- Between two page writes. -/
  | write
  /-- A page is written, and `check_and_refill_write_credit` comes next. -/
  | credit
  /-- `do_gc` has taken the victim `v` out of the queue. -/
  | clean (mode : GcMode) (v : Nat)
  /-- The victim is free again, and the learner comes next. -/
  | finish (mode : GcMode)

/-- What the collections so far did. -/
structure GcHistory where
  /-- The pages copied by the collections after the last one the learner saw. -/
  copiedSince : Nat
  /-- The erase counts at the end of the last collection the learner saw. -/
  learned : EraseStats
  /-- The erase counts at the end of the last collection. -/
  last : EraseStats
  /-- `gc_copied_pages` at the start of the last collection. -/
  startCopied : Nat

/-- A point of a run. -/
structure Moment where
  ftl : ConvFtl
  phase : Phase
  history : GcHistory

/-- Before the first collection. -/
def GcHistory.start (ftl : ConvFtl) : GcHistory where
  copiedSince := 0
  learned := collectEraseStats ftl.lm
  last := collectEraseStats ftl.lm
  startCopied := ftl.gcCopiedPages

/-- The history after a collection under `mode` that ended in `ftl`. -/
def GcHistory.after (history : GcHistory) (mode : GcMode) (ftl : ConvFtl) : GcHistory :=
  { history with
    copiedSince :=
      if mode = .rl then 0 else history.copiedSince + (ftl.gcCopiedPages - history.startCopied)
    learned := if mode = .rl then collectEraseStats ftl.lm else history.learned
    last := collectEraseStats ftl.lm }

/-- The steps from one phase to the next. -/
inductive LoopStep where
  | write (lpn : Nat)
  | resume
  | select (mode : GcMode)
  | clean
  | finish

/-- One step of the loop, from any environment. -/
inductive PhaseStep (inside : Nat → Prop) : Moment → LoopStep → Moment → Prop where
  | write {ftl ftl' : ConvFtl} {history : GcHistory} {lpn stime : Nat} {nsecsDone : Option Nat}
      {env env' : Env} : inside lpn →
      (convWritePageBody ftl lpn stime).run env = .ok ((ftl', nsecsDone), env') →
      PhaseStep inside ⟨ftl, .write, history⟩ (.write lpn) ⟨ftl', .credit, history⟩
  | kept {ftl : ConvFtl} {history : GcHistory} : ftl.wfc.writeCredits ≠ 0 →
      PhaseStep inside ⟨ftl, .credit, history⟩ .resume ⟨ftl, .write, history⟩
  | skipped {ftl : ConvFtl} {history : GcHistory} : ftl.wfc.writeCredits = 0 →
      ftl.shouldGcHigh = false →
      PhaseStep inside ⟨ftl, .credit, history⟩ .resume
        ⟨{ ftl with wfc := ftl.wfc.refill }, .write, history⟩
  | selected {ftl ftl' : ConvFtl} {history : GcHistory} {mode : GcMode} {v : Nat} {env env' : Env} :
      ftl.wfc.writeCredits = 0 → ftl.shouldGcHigh = true →
      (gcSelect ftl mode true mode.selectFn).run env = .ok ((ftl', some v), env') →
      PhaseStep inside ⟨ftl, .credit, history⟩ (.select mode)
        ⟨ftl', .clean mode v, { history with startCopied := ftl.gcCopiedPages }⟩
  | noVictim {ftl ftl' : ConvFtl} {history : GcHistory} {mode : GcMode} {env env' : Env} :
      ftl.wfc.writeCredits = 0 → ftl.shouldGcHigh = true →
      (gcSelect ftl mode true mode.selectFn).run env = .ok ((ftl', none), env') →
      PhaseStep inside ⟨ftl, .credit, history⟩ (.select mode)
        ⟨{ ftl' with wfc := { ftl'.wfc with creditsToRefill := 0 }.refill }, .write, history⟩
  | cleaned {ftl ftl' : ConvFtl} {history : GcHistory} {mode : GcMode} {v : Nat} {env env' : Env} :
      (gcReclaim ftl mode v).run env = .ok (ftl', env') →
      PhaseStep inside ⟨ftl, .clean mode v, history⟩ .clean ⟨ftl', .finish mode, history⟩
  | finished {ftl ftl' : ConvFtl} {history : GcHistory} {mode : GcMode} {env env' : Env} :
      (rlFinish ftl mode).run env = .ok (ftl', env') →
      PhaseStep inside ⟨ftl, .finish mode, history⟩ .finish
        ⟨{ ftl' with wfc := ftl'.wfc.refill }, .write, history.after mode ftl'⟩

/-- Runs of the loop of `conv_write`, phase by phase. -/
def phases (cp : ConvParams) (spp : SsdParams) (inside : Nat → Prop) : System Moment LoopStep where
  init m := ∃ env env', (convInitFtl cp (ssdInit spp)).run env = .ok (m.ftl, env') ∧
    m.phase = .write ∧ m.history = .start m.ftl
  step := PhaseStep inside

/-! ## A page write is a path of phases -/

section Paths

variable {cp : ConvParams} {spp : SsdParams} {inside : Nat → Prop} {ftl ftl' : ConvFtl}
  {history : GcHistory} {env env' : Env}

/-- A collection leads from the credit check to the next page write. -/
theorem doGc_phases (h : (phases cp spp inside).Reachable ⟨ftl, .credit, history⟩)
    (hz : ftl.wfc.writeCredits = 0) (hgc : ftl.shouldGcHigh = true) {mode : GcMode} {res : Int}
    (hrun : (doGc ftl mode true mode.selectFn).run env = .ok ((ftl', res), env')) :
    ∃ history', (phases cp spp inside).Reachable
      ⟨{ ftl' with wfc := ftl'.wfc.refill }, .write, history'⟩ := by
  obtain ⟨⟨ftl₁, victim⟩, env₁, hsel, hrest⟩ := run_bind hrun
  cases victim with
  | none =>
    cases run_pure hrest
    exact ⟨history, .step h (@PhaseStep.noVictim _ _ ftl₁ _ _ _ _ hz hgc hsel)⟩
  | some v =>
    obtain ⟨ftl₂, env₂, hcol, hlast⟩ := run_bind hrest
    cases run_pure hlast
    rw [gcCollect_eq] at hcol
    obtain ⟨ftl₃, env₃, hclean, hfin⟩ := run_bind hcol
    have hselected := System.Reachable.step h (.selected hz hgc hsel)
    have hcleaned := System.Reachable.step hselected (.cleaned hclean)
    exact ⟨_, .step hcleaned (.finished hfin)⟩

/-- A page write is a path of phases. -/
theorem convWritePage_phases (h : (phases cp spp inside).Reachable ⟨ftl, .write, history⟩)
    {lpn stime : Nat} {nsecsDone : Option Nat} (hin : inside lpn)
    (hrun : (convWritePage ftl lpn stime).run env = .ok ((ftl', nsecsDone), env')) :
    ∃ history', (phases cp spp inside).Reachable ⟨ftl', .write, history'⟩ := by
  obtain ⟨⟨ftl₁, t⟩, env₁, hbody, hrest⟩ := run_bind hrun
  obtain ⟨ftl₂, env₂, hcredit, hlast⟩ := run_bind hrest
  cases run_pure hlast
  have hwritten := System.Reachable.step h (.write hin hbody)
  unfold checkAndRefillWriteCredit at hcredit
  split at hcredit
  · rename_i hz
    obtain ⟨ftl₃, env₃, hfg, hpure⟩ := run_bind hcredit
    cases run_pure hpure
    unfold foregroundGc at hfg
    split at hfg
    · rename_i hgc
      obtain ⟨mode, env₄, _, hgcrun⟩ := run_bind hfg
      obtain ⟨⟨ftl₄, res⟩, env₅, hdo, hres⟩ := run_bind hgcrun
      cases run_pure hres
      exact doGc_phases hwritten hz hgc hdo
    · rename_i hgc
      cases run_pure hfg
      exact ⟨history, .step hwritten (.skipped hz (Bool.eq_false_iff.mpr hgc))⟩
  · rename_i hnz
    cases run_pure hcredit
    exact ⟨history, .step hwritten (.kept hnz)⟩

/-- Every state between two page writes is a moment of a run of phases. -/
theorem pageWrites_phases (h : (pageWrites cp spp inside).Reachable ftl) :
    ∃ history, (phases cp spp inside).Reachable ⟨ftl, .write, history⟩ := by
  induction h with
  | init hinit =>
    obtain ⟨env, env', hrun⟩ := hinit
    exact ⟨.start _, .init ⟨env, env', hrun, rfl, rfl⟩⟩
  | step _ hstep ih =>
    obtain ⟨history, hreach⟩ := ih
    obtain ⟨hin, stime, nsecsDone, env, env', hrun⟩ := hstep
    exact convWritePage_phases hreach hin hrun

end Paths

/-! ## The invariant -/

/-- `do_gc` has taken the line `v` out of the queue of a settled instance. -/
def InHand (ftl : ConvFtl) (v : Nat) : Prop :=
  ∃ (ftl₀ : ConvFtl) (place : Nat → Place) (lm : LineMgmt) (rl : RlConfig),
    Settled ftl₀ ∧ Core ftl₀.flash none place ∧ (∀ l, place l ≠ .held) ∧
      LineMgmt.Selected ftl₀.lm lm (fun s => some (ftl₀.wp s).curline) place v ∧
        ftl = { ftl₀ with lm, rl }

/-- The instance is in order: settled, or settled but for the victim in hand. -/
def Moment.Ordered (m : Moment) : Prop :=
  match m.phase with
  | .clean _ v => InHand m.ftl v
  | _ => Settled m.ftl

section Ensures

variable {E : Fault → Prop} {ftl : ConvFtl}

/-- Neither the learner nor the credits matter. -/
theorem Settled.withRl (h : Settled ftl) (rl : RlConfig) (wfc : WriteFlowControl) :
    Settled { ftl with rl, wfc } :=
  ⟨h.wf, h.core, h.mapped, h.timed⟩

/-- The selection of `do_gc` takes a victim in hand, or leaves the instance settled. -/
theorem gcSelect_inHand (h : Settled ftl) (mode : GcMode) :
    Ensures E (gcSelect ftl mode true mode.selectFn) fun r => r.1.ssd = ftl.ssd ∧
      r.1.gcCopiedPages = ftl.gcCopiedPages ∧ ftl.rl.Chose r.1.rl ∧
        match r.2 with
        | none => Settled r.1
        | some v => InHand r.1 v := by
  obtain ⟨place, c, hheld⟩ := h.core
  refine (gcSelect_ensures c mode true mode.selectFn_selects).mono ?_
  rintro ⟨ftl', victim⟩ ⟨⟨rl, hchose, heq⟩, hspec⟩
  dsimp only at heq hspec ⊢
  refine ⟨by rw [heq], by rw [heq], by rw [heq]; exact hchose, ?_⟩
  cases victim with
  | none =>
    have hlm : ftl'.lm = ftl.lm := hspec.1
    rw [hlm] at heq
    rw [heq]
    exact h.withRl rl ftl.wfc
  | some v => exact ⟨ftl, place, ftl'.lm, rl, h, c, hheld, hspec, heq⟩

/-- The victim in hand is closed and has an invalid page. -/
theorem InHand.vpc_lt {v : Nat} (h : InHand ftl v) :
    (ftl.lm.lines v).vpc < ftl.ssd.sp.pgsPerLine := by
  obtain ⟨ftl₀, place, lm, rl, _, c, _, hs, rfl⟩ := h
  have hline := c.lineOk v hs.lt
  rw [hs.victim] at hline
  obtain ⟨hipc, hsum⟩ := hline
  have hipc' : 0 < (ftl₀.lm.lines v).ipc := hipc
  have hsum' : (ftl₀.lm.lines v).vpc + (ftl₀.lm.lines v).ipc = ftl₀.ssd.sp.pgsPerLine := hsum
  show (lm.lines v).vpc < ftl₀.ssd.sp.pgsPerLine
  rw [hs.kept.vpc v]
  omega

/-- The reclaim of the victim in hand copies its valid pages, and the learner only notes the
victim's wear. -/
theorem gcReclaim_inHand {v : Nat} (h : InHand ftl v) (mode : GcMode) :
    Ensures (fun _ => True) (gcReclaim ftl mode v) fun r => Settled r ∧ r.ssd.sp = ftl.ssd.sp ∧
      r.gcCopiedPages = ftl.gcCopiedPages + (ftl.lm.lines v).vpc ∧
        ∃ lastVictimEc, r.rl = { ftl.rl with lastVictimEc } := by
  obtain ⟨ftl₀, place, lm, rl, hset, c, hheld, hs, rfl⟩ := h
  refine (gcReclaim_ensures hset c hheld hs rl mode (.inl trivial)).mono ?_
  rintro r ⟨hset', hc, _, hrl, _⟩
  refine ⟨hset', hc.sp, ?_, ?_⟩
  · rw [hc.copied]
    exact congrArg (ftl₀.gcCopiedPages + ·) (hs.kept.vpc v).symm
  · rw [hrl]
    unfold gcStart
    by_cases hm : mode = .rl
    · rw [if_pos hm]
      exact ⟨_, rfl⟩
    · rw [if_neg hm]
      exact ⟨rl.lastVictimEc, rfl⟩

end Ensures

/-- Every moment of a run is in order. -/
theorem phases_ordered {cp : ConvParams} {spp : SsdParams} (w : spp.WellFormed)
    {inside : Nat → Prop} (hinside : ∀ lpn, inside lpn → spp.LocalLpn lpn) :
    (phases cp spp inside).Invariant fun m => m.Ordered ∧ m.ftl.ssd.sp = spp where
  init m := by
    rintro ⟨env, env', hrun, hphase, _⟩
    have hf := (convInitFtl_ensures (E := fun _ => True) w cp (.inl trivial)).of_run hrun
    refine ⟨?_, hf.sp⟩
    unfold Moment.Ordered
    rw [hphase]
    exact hf.settled
  step m l m' := by
    rintro ⟨h, hsp⟩ hstep
    cases hstep with
    | write hin hrun =>
      have hset : Settled _ := h
      obtain ⟨hset', hw, _⟩ := (convWritePageBody_ensures (E := fun _ => True) hset
        (hsp ▸ hinside _ hin) _ (.inl trivial)).of_run hrun
      exact ⟨hset', hw.sp.trans hsp⟩
    | kept _ => exact ⟨h, hsp⟩
    | skipped _ _ => exact ⟨Settled.withRl h _ _, hsp⟩
    | selected _ _ hrun =>
      have hset : Settled _ := h
      obtain ⟨hssd, _, _, hv⟩ := (gcSelect_inHand (E := fun _ => True) hset _).of_run hrun
      exact ⟨hv, (congrArg Ssd.sp hssd).trans hsp⟩
    | noVictim _ _ hrun =>
      have hset : Settled _ := h
      obtain ⟨hssd, _, _, hset'⟩ := (gcSelect_inHand (E := fun _ => True) hset _).of_run hrun
      exact ⟨Settled.withRl hset' _ _, (congrArg Ssd.sp hssd).trans hsp⟩
    | cleaned hrun =>
      have hhand : InHand _ _ := h
      obtain ⟨hset', hsp', _⟩ := (gcReclaim_inHand hhand _).of_run hrun
      exact ⟨hset', hsp'.trans hsp⟩
    | finished hrun =>
      have hset : Settled _ := h
      obtain ⟨rl, rfl⟩ := (rlFinish_ensures (E := fun _ => True) _ _).of_run hrun
      exact ⟨Settled.withRl hset _ _, hsp⟩

/-! ## Runs on the small device -/

/-- A page write that must not need a collection. -/
def quietWrite (ftl : ConvFtl) (lpn : Nat) : FtlM ConvFtl :=
  convWritePageBody ftl lpn 0 >>= fun r =>
    if r.1.wfc.writeCredits ≠ 0 then pure r.1
    else if r.1.shouldGcHigh = false then pure { r.1 with wfc := r.1.wfc.refill }
    else throw .bugOn

/-- Initialise the instance and write the local pages `lpns` without a collection. -/
def quietWrites (cp : ConvParams) (spp : SsdParams) (lpns : List Nat) : FtlM ConvFtl :=
  convInitFtl cp (ssdInit spp) >>= fun ftl => lpns.foldlM quietWrite ftl

/-- Quiet writes are runs under any condition on the collections. -/
theorem quietWrites_reachable {cp : ConvParams} {spp : SsdParams} {inside : Nat → Prop}
    {P : Moment → LoopStep → Prop} (hwrite : ∀ m lpn, P m (.write lpn)) (hresume : ∀ m, P m .resume)
    {lpns : List Nat} (hin : ∀ lpn ∈ lpns, inside lpn) {ftl : ConvFtl} {env env' : Env}
    (h : (quietWrites cp spp lpns).run env = .ok (ftl, env')) :
    ∃ ftl₀, ((phases cp spp inside).guarded P).Reachable ⟨ftl, .write, .start ftl₀⟩ := by
  obtain ⟨ftl₀, env₀, hinit, hwrites⟩ := run_bind h
  have hreach : ((phases cp spp inside).guarded P).Reachable ⟨ftl₀, .write, .start ftl₀⟩ :=
    .init ⟨env, env₀, hinit, rfl, rfl⟩
  refine ⟨ftl₀, ?_⟩
  generalize GcHistory.start ftl₀ = history at hreach ⊢
  clear h hinit
  induction lpns generalizing ftl₀ env₀ with
  | nil =>
    cases run_pure hwrites
    exact hreach
  | cons lpn lpns ih =>
    rw [List.foldlM_cons] at hwrites
    obtain ⟨ftl₁, env₁, hone, hrest⟩ := run_bind hwrites
    obtain ⟨⟨ftl₂, t⟩, env₂, hbody, hcredit⟩ := run_bind hone
    have hwritten := hreach.guarded_step (.write (hin lpn List.mem_cons_self) hbody) (hwrite _ _)
    refine ih (fun l hl => hin l (List.mem_cons_of_mem _ hl)) _ _ hrest ?_
    dsimp only at hcredit
    split_ifs at hcredit with hnz hgc
    · cases run_pure hcredit
      exact hwritten.guarded_step (.kept hnz) (hresume _)
    · cases run_pure hcredit
      exact hwritten.guarded_step (.skipped (not_not.mp hnz) hgc) (hresume _)
    · cases hcredit

/-- Six page writes on the small device, the last of which collects a line under RL: the instance at
the credit check and the one the learner is about to learn from. -/
def firstCollection : FtlM (ConvFtl × ConvFtl) :=
  quietWrites smallConv smallParams [0, 1, 0, 2, 3] >>= fun ftl =>
    convWritePageBody ftl 0 0 >>= fun r =>
      gcSelect r.1 .rl true GcMode.rl.selectFn >>= fun s =>
        match s.2 with
        | none => throw .bugOn
        | some v => gcReclaim s.1 .rl v >>= fun ftl' => pure (r.1, ftl')

/-- The first collection happens under any condition that lets the learner choose its victim. -/
theorem firstCollection_reachable {P : Moment → LoopStep → Prop}
    (hwrite : ∀ m lpn, P m (.write lpn)) (hresume : ∀ m, P m .resume) (hclean : ∀ m, P m .clean)
    (hselect : ∀ ftl ftl₀, P ⟨ftl, .credit, .start ftl₀⟩ (.select .rl)) :
    ∃ m, ((phases smallConv smallParams smallParams.LocalLpn).guarded P).Reachable m ∧
      m.phase = .finish .rl ∧ m.ftl.gcCopiedPages = 1 := by
  have hrun : tests firstCollection .zero (fun r => r.1.wfc.writeCredits == 0 &&
      r.1.shouldGcHigh && r.2.gcCopiedPages == 1) = true := by decide +kernel
  obtain ⟨⟨ftl₁, ftl₃⟩, env', hrun, htest⟩ := exists_of_tests hrun
  rw [Bool.and_eq_true, Bool.and_eq_true] at htest
  obtain ⟨⟨hz, hgc⟩, hcopied⟩ := htest
  obtain ⟨ftl, env₀, hquiet, hrun⟩ := run_bind hrun
  obtain ⟨⟨ftl₁', t⟩, env₁, hbody, hrun⟩ := run_bind hrun
  obtain ⟨⟨ftl₂, victim⟩, env₂, hsel, hrun⟩ := run_bind hrun
  cases victim with
  | none => cases hrun
  | some v =>
    obtain ⟨ftl₃', env₃, hreclaim, hrun⟩ := run_bind hrun
    cases run_pure hrun
    have hin : ∀ lpn ∈ [0, 1, 0, 2, 3], lpn < smallParams.ttPgs := by decide
    obtain ⟨ftl₀, hreach⟩ := @quietWrites_reachable _ _ smallParams.LocalLpn _ hwrite hresume
      _ hin _ _ _ hquiet
    have hwritten := hreach.guarded_step (.write (show 0 < smallParams.ttPgs by decide) hbody)
      (hwrite _ _)
    have hselected := hwritten.guarded_step (.selected (eq_of_beq hz) hgc hsel) (hselect _ _)
    have hcleaned := hselected.guarded_step (.cleaned hreclaim) (hclean _)
    exact ⟨_, hcleaned, rfl, eq_of_beq hcopied⟩

end NvmeVirt

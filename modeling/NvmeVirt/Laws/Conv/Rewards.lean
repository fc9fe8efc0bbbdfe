import NvmeVirt.Laws.Conv.Learner

/-!
# What a reward charges

`rl_update` computes a reward from snapshots it took itself: `prev_copied_pages` and the two
`prev_erase` counts. Collections in the other modes move the counters and leave the snapshots, so
the first reward after them charges their copies too. A reward is that of its own collection exactly
when nothing was copied, and the wear did not spread, since the learner last looked.

`phases_snapshots` says in every run what the snapshots are: the counters as the learner last saw
them. What has happened since is kept beside the run (`GcHistory`), and `phases_seen` is about runs
in which the learner misses nothing.

The differences are taken in 64 bits; how a reward enters the table is left to `Laws/Conv/Learner`.
-/

set_option autoImplicit false

namespace NvmeVirt

open Outcome

/-- The difference of the extreme erase counts, as the learner takes it from a snapshot. -/
def EraseStats.range (st : EraseStats) : Nat := if st.min ≤ st.max then st.max - st.min else 0

/-- The reward the learner is about to compute charges the copies of this collection, and compares
its wear with that after the previous collection. -/
structure Moment.ChargesOwnGc (m : Moment) : Prop where
  copied : rlCopied m.ftl = m.ftl.gcCopiedPages - m.history.startCopied
  range : m.ftl.rl.prevRange = m.history.last.range

/-- Nothing happened that the learner did not see: since its last update no page was copied (none a
`uint64_t` could tell from none), and the last collection left the range of the erase counts as the
learner saw it. -/
structure GcHistory.Seen (history : GcHistory) : Prop where
  copied : history.copiedSince % 2 ^ 64 = 0
  range : history.learned.range = history.last.range

/-- Before the first collection there was nothing to see. -/
theorem GcHistory.seen_start (ftl : ConvFtl) : (GcHistory.start ftl).Seen := ⟨rfl, rfl⟩

/-! ## The snapshots and the history -/

/-- The snapshots of the learner are those of its last update, and `copiedSince` pages were copied
since. -/
structure Moment.Snapshots (m : Moment) : Prop where
  copied : match m.phase with
    | .finish _ => m.ftl.rl.prevCopiedPages + m.history.copiedSince = m.history.startCopied ∧
        m.history.startCopied ≤ m.ftl.gcCopiedPages ∧
          m.ftl.gcCopiedPages < m.history.startCopied + 2 ^ 64
    | .clean _ _ => m.ftl.rl.prevCopiedPages + m.history.copiedSince = m.history.startCopied ∧
        m.history.startCopied = m.ftl.gcCopiedPages
    | _ => m.ftl.rl.prevCopiedPages + m.history.copiedSince = m.ftl.gcCopiedPages
  eraseMax : m.ftl.rl.prevEraseMax = m.history.learned.max
  eraseMin : m.ftl.rl.prevEraseMin = m.history.learned.min

/-- One line of `collect_erase_stats`. -/
def EraseStats.visit (lm : LineMgmt) (st : EraseStats) (i : Nat) : EraseStats where
  max := if st.max < (lm.lines i).eraseCnt then (lm.lines i).eraseCnt else st.max
  min := if (lm.lines i).eraseCnt < st.min then (lm.lines i).eraseCnt else st.min
  sum := st.sum + (lm.lines i).eraseCnt

/-- A scan of lines that were never erased. -/
theorem foldl_visit_unerased {lm : LineMgmt} (h : ∀ l, (lm.lines l).eraseCnt = 0) (n : Nat) :
    (List.range n).foldl (EraseStats.visit lm) { max := 0, min := uintMax, sum := 0 } =
      { max := 0, min := if n = 0 then uintMax else 0, sum := 0 } := by
  induction n with
  | zero => rfl
  | succ n ih =>
    rw [List.range_succ, List.foldl_append, ih, List.foldl_cons, List.foldl_nil]
    unfold EraseStats.visit
    rw [h n, if_neg (Nat.succ_ne_zero n)]
    by_cases hn : n = 0
    · rw [if_pos hn]
      rfl
    · rw [if_neg hn]
      rfl

/-- Lines that were never erased have the extremes 0 and 0. -/
theorem collectEraseStats_unerased {lm : LineMgmt} (h : ∀ l, (lm.lines l).eraseCnt = 0) :
    (collectEraseStats lm).max = 0 ∧ (collectEraseStats lm).min = 0 := by
  have hfold := foldl_visit_unerased h lm.ttLines
  constructor
  · exact congrArg EraseStats.max hfold
  · show (if lm.ttLines = 0 then 0 else EraseStats.min _) = 0
    by_cases hz : lm.ttLines = 0
    · rw [if_pos hz]
    · rw [if_neg hz]
      rw [if_neg hz] at hfold
      exact congrArg EraseStats.min hfold

/-- Counting writes takes no snapshot. -/
theorem RlConfig.Counts.snapshots {rl rl' : RlConfig} (h : rl.Counts rl') :
    rl'.prevCopiedPages = rl.prevCopiedPages ∧ rl'.prevEraseMax = rl.prevEraseMax ∧
      rl'.prevEraseMin = rl.prevEraseMin := by
  obtain ⟨_, _, _, rfl⟩ := h
  exact ⟨rfl, rfl, rfl⟩

/-- Neither does choosing an action. -/
theorem RlConfig.Chose.snapshots {rl rl' : RlConfig} (h : rl.Chose rl') :
    rl'.prevCopiedPages = rl.prevCopiedPages ∧ rl'.prevEraseMax = rl.prevEraseMax ∧
      rl'.prevEraseMin = rl.prevEraseMin := by
  obtain ⟨_, _, _, _, rfl⟩ := h
  exact ⟨rfl, rfl, rfl⟩

section Runs

variable {cp : ConvParams} {spp : SsdParams} {inside : Nat → Prop}

/-- The snapshots are right in every run, whatever the modes. -/
theorem phases_snapshots (w : spp.WellFormed) (hinside : ∀ lpn, inside lpn → spp.LocalLpn lpn) :
    (phases cp spp inside).Invariant fun m => (m.Ordered ∧ m.ftl.ssd.sp = spp) ∧ m.Snapshots := by
  refine (phases_ordered w hinside).of_rel (fun m hm => ?_) fun m l m' ho hj hstep => ?_
  · obtain ⟨env, env', hrun, hphase, hhistory⟩ := hm
    obtain ⟨hrl, hgc⟩ := (convInitFtl_learner cp _).of_run hrun
    have hfresh := (convInitFtl_ensures (E := AnyFault) w cp (.inl trivial)).of_run hrun
    obtain ⟨hmax, hmin⟩ := collectEraseStats_unerased hfresh.lineErase
    refine ⟨?_, ?_, ?_⟩
    · rw [hphase, hrl, hgc, hhistory]
      rfl
    · rw [hrl, hhistory]
      exact hmax.symm
    · rw [hrl, hhistory]
      exact hmin.symm
  obtain ⟨hordered, hsp⟩ := ho
  obtain ⟨hcopied, hmax, hmin⟩ := hj
  cases hstep with
  | @write ftl ftl' history lpn stime nsecsDone env env' hin hrun =>
    have hset : Settled ftl := hordered
    obtain ⟨_, hw, _⟩ := (convWritePageBody_ensures (E := AnyFault) hset
      (hsp ▸ hinside _ hin) _ (.inl trivial)).of_run hrun
    obtain ⟨h1, h2, h3⟩ := ((convWritePageBody_rl _ _ _).of_run hrun).snapshots
    have hsame : ftl'.gcCopiedPages = ftl.gcCopiedPages := hw.wear.gcCopiedPages
    have hcopied : ftl.rl.prevCopiedPages + history.copiedSince = ftl.gcCopiedPages := hcopied
    refine ⟨?_, h2.trans hmax, h3.trans hmin⟩
    show ftl'.rl.prevCopiedPages + history.copiedSince = ftl'.gcCopiedPages
    rw [h1, hsame, hcopied]
  | kept _ => exact ⟨hcopied, hmax, hmin⟩
  | skipped _ _ => exact ⟨hcopied, hmax, hmin⟩
  | @selected ftl ftl' history mode v env env' _ _ hrun =>
    have hset : Settled ftl := hordered
    obtain ⟨_, hsame, hchose, _⟩ := (gcSelect_inHand (E := AnyFault) hset mode).of_run hrun
    obtain ⟨h1, h2, h3⟩ := hchose.snapshots
    have hcopied : ftl.rl.prevCopiedPages + history.copiedSince = ftl.gcCopiedPages := hcopied
    refine ⟨⟨?_, hsame.symm⟩, h2.trans hmax, h3.trans hmin⟩
    show ftl'.rl.prevCopiedPages + history.copiedSince = ftl.gcCopiedPages
    rw [h1, hcopied]
  | @noVictim ftl ftl' history mode env env' _ _ hrun =>
    have hset : Settled ftl := hordered
    obtain ⟨_, hsame, hchose, _⟩ := (gcSelect_inHand (E := AnyFault) hset mode).of_run hrun
    obtain ⟨h1, h2, h3⟩ := hchose.snapshots
    have hcopied : ftl.rl.prevCopiedPages + history.copiedSince = ftl.gcCopiedPages := hcopied
    refine ⟨?_, h2.trans hmax, h3.trans hmin⟩
    show ftl'.rl.prevCopiedPages + history.copiedSince = ftl'.gcCopiedPages
    have hsame : ftl'.gcCopiedPages = ftl.gcCopiedPages := hsame
    rw [h1, hsame, hcopied]
  | @cleaned ftl ftl' history mode v env env' hrun =>
    obtain ⟨hprev, hstart⟩ := hcopied
    have hhand : InHand ftl v := hordered
    obtain ⟨_, _, hnow, lastVictimEc, hrl⟩ := (gcReclaim_inHand hhand mode).of_run hrun
    have hlt := hhand.vpc_lt
    have hle : ftl.ssd.sp.pgsPerLine ≤ 2 ^ 32 := hsp ▸ w.pgsPerLine_le
    have hstart : history.startCopied = ftl.gcCopiedPages := hstart
    refine ⟨⟨?_, ?_, ?_⟩, (congrArg RlConfig.prevEraseMax hrl).trans hmax,
      (congrArg RlConfig.prevEraseMin hrl).trans hmin⟩
    · exact (congrArg (fun rl => rl.prevCopiedPages + history.copiedSince) hrl).trans hprev
    · show history.startCopied ≤ ftl'.gcCopiedPages
      omega
    · show ftl'.gcCopiedPages < history.startCopied + 2 ^ 64
      omega
  | @finished ftl ftl' history mode env env' hrun =>
    obtain ⟨hprev, hle, _⟩ := hcopied
    have hprev : ftl.rl.prevCopiedPages + history.copiedSince = history.startCopied := hprev
    have hle : history.startCopied ≤ ftl.gcCopiedPages := hle
    by_cases hmode : mode = .rl
    · -- the learner takes its snapshots
      subst hmode
      have hfinish : Ensures AnyFault (rlFinish ftl .rl)
        fun r => ∃ newState, r = rlUpdate ftl newState :=
        .ite (fun _ => (rlGetState_ensures ftl).bind fun _ _ => .pure ⟨_, rfl⟩)
          fun hne => absurd rfl hne
      obtain ⟨newState, rfl⟩ := hfinish.of_run hrun
      exact ⟨rfl, rfl, rfl⟩
    · unfold rlFinish at hrun
      rw [if_neg hmode] at hrun
      cases run_pure hrun
      unfold GcHistory.after
      rw [if_neg hmode, if_neg hmode]
      refine ⟨?_, hmax, hmin⟩
      show ftl.rl.prevCopiedPages +
        (history.copiedSince + (ftl.gcCopiedPages - history.startCopied)) = ftl.gcCopiedPages
      omega

/-- The pages the learner charges are those copied since its last update, in `uint64_t`. -/
theorem sub64_since (prev since now : Nat) (hle : prev + since ≤ now)
    (hlt : now < prev + since + 2 ^ 64) :
    sub64 now prev = now - (prev + since) ↔ since % 2 ^ 64 = 0 := by
  unfold sub64 u64
  omega

/-- The learner selects a victim only when it has seen everything. -/
def LearnsWhatItSaw (m : Moment) (step : LoopStep) : Prop := step = .select .rl → m.history.Seen

/-- In a run whose collections under RL meet the condition, the learner has seen everything when it is
about to learn. -/
theorem phases_seen : ((phases cp spp inside).guarded LearnsWhatItSaw).Invariant fun m =>
    match m.phase with
    | .clean mode _ | .finish mode => mode = .rl → m.history.Seen
    | _ => True where
  init m := by
    rintro ⟨_, _, _, hphase, _⟩
    rw [hphase]
    trivial
  step m l m' hseen hstep := by
    obtain ⟨hguard, hstep⟩ := hstep
    cases hstep with
    | selected _ _ _ =>
      rintro rfl
      exact ⟨(hguard rfl).copied, (hguard rfl).range⟩
    | cleaned _ => exact hseen
    | write _ _ => trivial
    | kept _ => trivial
    | skipped _ _ => trivial
    | noVictim _ _ _ => trivial
    | finished _ => trivial

/-- In every run, whatever `gc_mode` is at each collection, the reward the learner is about to
compute is that of its own collection exactly when the learner has seen every copy before it and the
range of the erase counts. So it is in every run all of whose collections under RL meet that
condition. A run is cut between the parts of a page write and of its collections, so the moment
before `rl_update` is one of its states; `history` remembers what the counters were when the learner
looked. -/
theorem reward_own_gc_iff (w : spp.WellFormed) :
    (∀ m, (phases cp spp spp.LocalLpn).Reachable m → m.phase = .finish .rl →
      (m.ChargesOwnGc ↔ m.history.Seen)) ∧
    ∀ m, ((phases cp spp spp.LocalLpn).guarded LearnsWhatItSaw).Reachable m →
      m.phase = .finish .rl → m.ChargesOwnGc := by
  have hiff : ∀ m, (phases cp spp spp.LocalLpn).Reachable m → m.phase = .finish .rl →
      (m.ChargesOwnGc ↔ m.history.Seen) := by
    intro m hreach hphase
    obtain ⟨_, hcopied, hmax, hmin⟩ := (phases_snapshots w fun _ => id).reachable hreach
    rw [hphase] at hcopied
    obtain ⟨hprev, hle, hlt⟩ := hcopied
    rw [← hprev] at hle hlt
    have hcharge := sub64_since _ _ _ hle hlt
    rw [hprev] at hcharge
    have hrange : m.ftl.rl.prevRange = m.history.learned.range := by
      unfold RlConfig.prevRange EraseStats.range
      rw [hmax, hmin]
    constructor
    · exact fun h => ⟨hcharge.mp h.copied, hrange.symm.trans h.range⟩
    · exact fun h => ⟨hcharge.mpr h.copied, hrange.trans h.range⟩
  refine ⟨hiff, fun m hreach hphase => (hiff m hreach.of_guarded hphase).mpr ?_⟩
  have hseen := phases_seen.reachable hreach
  rw [hphase] at hseen
  exact hseen rfl

end Runs

/-- The first collection on the small device charges what it copied: one page. -/
theorem reward_own_gc_small : ∃ m,
    ((phases smallConv smallParams smallParams.LocalLpn).guarded LearnsWhatItSaw).Reachable m ∧
      m.phase = .finish .rl ∧ m.ftl.gcCopiedPages = 1 ∧ m.ChargesOwnGc := by
  obtain ⟨m, hreach, hphase, hcopied⟩ := firstCollection_reachable (P := LearnsWhatItSaw)
    (fun _ _ => nofun) (fun _ => nofun) (fun _ => nofun) fun _ ftl₀ _ => GcHistory.seen_start ftl₀
  exact ⟨m, hreach, hphase, hcopied,
    (reward_own_gc_iff smallParams_wellFormed).2 m hreach hphase⟩

/-- Eight page writes on the small device: greedy collects with the sixth, the learner with the
eighth. -/
def secondCollection : FtlM (ConvFtl × ConvFtl) :=
  writeAll smallConv smallParams [0, 1, 0, 2, 3, 0, 4] >>= fun ftl =>
    convWritePageBody ftl 5 0 >>= fun r =>
      gcSelect r.1 .rl true GcMode.rl.selectFn >>= fun s =>
        match s.2 with
        | none => throw .bugOn
        | some v => gcReclaim s.1 .rl v >>= fun ftl' => pure (r.1, ftl')

/-- The first reward after a greedy collection charges the pages greedy copied. -/
theorem reward_charges_greedy : ¬ ∀ m,
    (phases smallConv smallParams smallParams.LocalLpn).Reachable m → m.phase = .finish .rl →
      m.ChargesOwnGc := by
  intro hall
  have hrun : tests secondCollection .zero (fun r => r.1.wfc.writeCredits == 0 &&
      r.1.shouldGcHigh && rlCopied r.2 == 2 && r.2.gcCopiedPages - r.1.gcCopiedPages == 1) = true := by
    decide +kernel
  obtain ⟨⟨ftl₁, ftl₃⟩, env', hrun, htest⟩ := exists_of_tests hrun
  rw [Bool.and_eq_true, Bool.and_eq_true, Bool.and_eq_true] at htest
  obtain ⟨⟨⟨hz, hgc⟩, hcharged⟩, hown⟩ := htest
  obtain ⟨ftl, env₀, hwrites, hrun⟩ := run_bind hrun
  obtain ⟨⟨ftl₁', t⟩, env₁, hbody, hrun⟩ := run_bind hrun
  obtain ⟨⟨ftl₂, victim⟩, env₂, hsel, hrun⟩ := run_bind hrun
  cases victim with
  | none => cases hrun
  | some v =>
    obtain ⟨ftl₃', env₃, hreclaim, hrun⟩ := run_bind hrun
    cases run_pure hrun
    have hin : ∀ lpn ∈ [0, 1, 0, 2, 3, 0, 4], lpn < smallParams.ttPgs := by decide
    obtain ⟨history, hreach⟩ := pageWrites_phases
      (@writeAll_path _ _ smallParams.LocalLpn _ hin _ _ _ hwrites).reachable
    have hwritten := System.Reachable.step hreach
      (.write (show 5 < smallParams.ttPgs by decide) hbody)
    have hselected := System.Reachable.step hwritten (.selected (eq_of_beq hz) hgc hsel)
    have hcleaned := System.Reachable.step hselected (.cleaned hreclaim)
    have howned := (hall _ hcleaned rfl).copied
    have hcharged : rlCopied ftl₃ = 2 := eq_of_beq hcharged
    have hown : ftl₃.gcCopiedPages - ftl₁'.gcCopiedPages = 1 := eq_of_beq hown
    have howned : rlCopied ftl₃ = ftl₃.gcCopiedPages - ftl₁'.gcCopiedPages := howned
    omega

end NvmeVirt

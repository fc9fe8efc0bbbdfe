import Mathlib.Data.Finset.Lattice.Fold
import Mathlib.Order.Lattice.Nat
import NvmeVirt.Laws.Conv.Accounting
import NvmeVirt.Laws.Conv.Phases

/-!
# The wear gap telescopes

`update_wear_gap` runs once in every collection that has a victim, right after the erase count of
the victim went up. The first collection gives the baseline; from then on the differences of
successive ranges add up to the difference of the last and the first.

The range is read by a scan of all lines (`scannedLines`), and is the difference of the greatest and
the least erase count as long as these fit their width (`LineMgmt.scannedRange_eq`). `wearRuns` are
the runs with the ranges after each collection beside them; `WearTracked.collected` is the step that
adds one, and every other step keeps the erase counts (`ConvFtl.SameWear`, `gcSelect_wear`).

That the sums have not passed 64 bits, and the number of collections neither, is taken for granted
here.
-/

set_option autoImplicit false

namespace NvmeVirt

open Outcome

/-! ## The range -/

/-- `max - min` of the erase counts: the largest difference between two lines. -/
def LineMgmt.eraseRange (lm : LineMgmt) : Nat :=
  (Finset.range lm.ttLines).sup fun i =>
    (Finset.range lm.ttLines).sup fun j => (lm.lines i).eraseCnt - (lm.lines j).eraseCnt

/-- The erase counts are `uint32_t` values. -/
def LineMgmt.CountsInWidth (lm : LineMgmt) : Prop :=
  ∀ l, l < lm.ttLines → (lm.lines l).eraseCnt ≤ uintMax

/-- What the scan knows after `n` lines. -/
structure ScannedLines (lm : LineMgmt) (n : Nat) (st : EraseStats) : Prop where
  le_max : ∀ i, i < n → (lm.lines i).eraseCnt ≤ st.max
  max_eq : st.max = 0 ∨ ∃ i, i < n ∧ st.max = (lm.lines i).eraseCnt
  min_le : ∀ i, i < n → st.min ≤ (lm.lines i).eraseCnt
  min_eq : st.min = uintMax ∨ ∃ i, i < n ∧ st.min = (lm.lines i).eraseCnt

/-- The scan finds the extremes. -/
theorem scannedLines (lm : LineMgmt) (n : Nat) : ScannedLines lm n
    ((List.range n).foldl (fun (st : EraseStats) i =>
      let ec := (lm.lines i).eraseCnt
      { max := if st.max < ec then ec else st.max
        min := if ec < st.min then ec else st.min
        sum := st.sum + ec }) { max := 0, min := uintMax, sum := 0 }) := by
  induction n with
  | zero => exact ⟨nofun, .inl rfl, nofun, .inl rfl⟩
  | succ n ih =>
    rw [List.range_succ, List.foldl_append]
    generalize (List.range n).foldl _ _ = st at ih ⊢
    obtain ⟨hmax, hmaxEq, hmin, hminEq⟩ := ih
    have hearlier : ∀ c, (∃ i, i < n ∧ c = (lm.lines i).eraseCnt) →
        ∃ i, i < n + 1 ∧ c = (lm.lines i).eraseCnt := fun c ⟨i, hi, hc⟩ =>
      ⟨i, Nat.lt_succ_of_lt hi, hc⟩
    refine ⟨fun i hi => ?_, ?_, fun i hi => ?_, ?_⟩
    · show _ ≤ ite _ _ _
      obtain hlt | rfl := Nat.lt_succ_iff_lt_or_eq.mp hi
      · have hle := hmax i hlt
        split
        all_goals omega
      · split
        all_goals omega
    · show ite _ _ _ = 0 ∨ ∃ i, _ ∧ ite _ _ _ = _
      split
      · exact .inr ⟨n, Nat.lt_succ_self n, rfl⟩
      · exact hmaxEq.imp_right (hearlier _)
    · show ite _ _ _ ≤ _
      obtain hlt | rfl := Nat.lt_succ_iff_lt_or_eq.mp hi
      · have hle := hmin i hlt
        split
        all_goals omega
      · split
        all_goals omega
    · show ite _ _ _ = uintMax ∨ ∃ i, _ ∧ ite _ _ _ = _
      split
      · exact .inr ⟨n, Nat.lt_succ_self n, rfl⟩
      · exact hminEq.imp_right (hearlier _)

/-- The difference of two counts in order. -/
theorem sub32_of_le {a b : Nat} (hle : b ≤ a) (hlt : a < 2 ^ 32) : sub32 a b = a - b := by
  unfold sub32 u32
  omega

/-- The scan finds the range of counts that fit their width. -/
theorem LineMgmt.scannedRange_eq {lm : LineMgmt} (hw : lm.CountsInWidth) :
    lm.scannedRange = lm.eraseRange := by
  have hscan := scannedLines lm lm.ttLines
  unfold LineMgmt.scannedRange collectEraseStats LineMgmt.eraseRange
  dsimp only at hscan ⊢
  generalize (List.range lm.ttLines).foldl _ _ = st at hscan ⊢
  obtain hz | hpos := Nat.eq_zero_or_pos lm.ttLines
  · rw [if_pos hz, hz]
    obtain hmax | ⟨i, hi, _⟩ := hscan.max_eq
    · rw [hmax, Finset.range_zero, Finset.sup_empty]
      exact sub32_of_le (Nat.le_refl 0) (by decide)
    · omega
  rw [if_neg hpos.ne']
  -- the greatest and the least count are counts of lines
  obtain ⟨i, hi, hmax⟩ : ∃ i, i < lm.ttLines ∧ st.max = (lm.lines i).eraseCnt := by
    refine hscan.max_eq.elim (fun hzero => ⟨0, hpos, ?_⟩) id
    have hle := hscan.le_max 0 hpos
    omega
  obtain ⟨j, hj, hmin⟩ : ∃ j, j < lm.ttLines ∧ st.min = (lm.lines j).eraseCnt := by
    refine hscan.min_eq.elim (fun hinit => ⟨0, hpos, ?_⟩) id
    have hle := hscan.min_le 0 hpos
    have hlt := hw 0 hpos
    omega
  have hlt : st.max ≤ uintMax := hmax ▸ hw i hi
  have hle : st.min ≤ st.max := hmin ▸ hscan.le_max j hj
  rw [sub32_of_le hle (Nat.lt_succ_of_le hlt)]
  apply Nat.le_antisymm
  · rw [hmax, hmin]
    exact (Finset.le_sup (f := fun j => (lm.lines i).eraseCnt - (lm.lines j).eraseCnt)
      (Finset.mem_range.mpr hj)).trans (Finset.le_sup (f := fun i => Finset.sup _ fun j =>
        (lm.lines i).eraseCnt - (lm.lines j).eraseCnt) (Finset.mem_range.mpr hi))
  · refine Finset.sup_le fun a ha => Finset.sup_le fun b hb => ?_
    have hamax := hscan.le_max a (Finset.mem_range.mp ha)
    have hbmin := hscan.min_le b (Finset.mem_range.mp hb)
    omega

/-! ## Runs with the ranges after each collection -/

/-- The range of the erase counts joins the list when a victim was erased. -/
def rangesAfter (m : Moment) (ranges : List Nat) : LoopStep → List Nat
  | .clean => m.ftl.lm.eraseRange :: ranges
  | _ => ranges

/-- Runs of the loop of `conv_write` with the ranges right after their collections, the last first. -/
def wearRuns (cp : ConvParams) (spp : SsdParams) (inside : Nat → Prop) :
    System (Moment × List Nat) LoopStep where
  init s := (phases cp spp inside).init s.1 ∧ s.2 = []
  step s l s' := (phases cp spp inside).step s.1 l s'.1 ∧ s'.2 = rangesAfter s'.1 s.2 l

/-- What the statistics are after the collections that left the given ranges. -/
structure WearTracked (ftl : ConvFtl) (ranges : List Nat) : Prop where
  gcCount : ftl.gcCount = ranges.length
  samples : ftl.wgs.samples = ranges.length - 1
  started : ftl.wgs.initialized = true ↔ ranges ≠ []
  prevRange : ranges ≠ [] → ftl.lm.CountsInWidth → ftl.wgs.prevRange = ftl.lm.eraseRange
  accumDiff : ∀ first, ranges.getLast? = some first → ftl.lm.CountsInWidth →
    ftl.wgs.accumDiff = (ftl.lm.eraseRange : Int) - (first : Int)
  untouched : ranges = [] → ftl.wgs = initWearGap

section Runs

variable {cp : ConvParams} {spp : SsdParams} {inside : Nat → Prop} {ftl ftl' : ConvFtl}
  {ranges : List Nat}

/-- Every run of the loop has its ranges. -/
theorem wearRuns_of_phases {m : Moment} (h : (phases cp spp inside).Reachable m) :
    ∃ ranges, (wearRuns cp spp inside).Reachable (m, ranges) := by
  induction h with
  | init hinit => exact ⟨[], .init ⟨hinit, rfl⟩⟩
  | step _ hstep ih =>
    obtain ⟨ranges, hreach⟩ := ih
    exact ⟨rangesAfter _ ranges _, .step hreach ⟨hstep, rfl⟩⟩

/-- The range depends on the erase counts only. -/
theorem LineMgmt.eraseRange_congr {lm lm' : LineMgmt} (htt : lm'.ttLines = lm.ttLines)
    (h : ∀ l, (lm'.lines l).eraseCnt = (lm.lines l).eraseCnt) : lm'.eraseRange = lm.eraseRange := by
  unfold LineMgmt.eraseRange
  simp only [htt, h]

/-- Where no count changes and nothing is collected, the statistics stay right. -/
theorem WearTracked.congr (h : WearTracked ftl ranges) (hsame : ftl.SameWear ftl')
    (htt : ftl'.lm.ttLines = ftl.lm.ttLines) : WearTracked ftl' ranges := by
  have hrange := LineMgmt.eraseRange_congr htt hsame.lineErase
  have hwidth : ftl'.lm.CountsInWidth → ftl.lm.CountsInWidth := fun hw l hl =>
    hsame.lineErase l ▸ hw l (htt ▸ hl)
  have hwgs := hsame.wgs
  constructor
  · exact hsame.gcCount.trans h.gcCount
  · rw [hwgs, h.samples]
  · rw [hwgs, h.started]
  · intro hne hw
    rw [hwgs, hrange, h.prevRange hne (hwidth hw)]
  · intro first hfirst hw
    rw [hwgs, hrange, h.accumDiff first hfirst (hwidth hw)]
  · exact fun hnil => hwgs.trans (h.untouched hnil)

/-- A collection takes one sample, or gives the baseline. -/
theorem WearTracked.collected (h : WearTracked ftl ranges) (hgc : ftl'.gcCount = ftl.gcCount + 1)
    (hwgs : ftl'.wgs = ftl.wgs.record ftl'.lm.scannedRange) (htt : ftl'.lm.ttLines = ftl.lm.ttLines)
    (hgrow : ∀ l, (ftl.lm.lines l).eraseCnt ≤ (ftl'.lm.lines l).eraseCnt) :
    WearTracked ftl' (ftl'.lm.eraseRange :: ranges) := by
  have hwidth : ftl'.lm.CountsInWidth → ftl.lm.CountsInWidth := fun hw l hl =>
    (hgrow l).trans (hw l (htt ▸ hl))
  have hsamples := h.samples
  by_cases hnil : ranges = []
  · -- the first collection
    have hnew : ftl'.wgs =
        { prevRange := ftl'.lm.scannedRange, accumDiff := 0, samples := 0, initialized := true } := by
      rw [hwgs, h.untouched hnil]
      rfl
    subst hnil
    constructor
    · rw [hgc, h.gcCount]
      rfl
    · rw [hnew]
      rfl
    · rw [hnew]
      exact iff_of_true rfl (List.cons_ne_nil _ _)
    · intro _ hw
      rw [hnew, ← LineMgmt.scannedRange_eq hw]
    · intro first hfirst hw
      have hfirst : ftl'.lm.eraseRange = first := Option.some.inj hfirst
      rw [hnew, ← hfirst]
      exact (Int.sub_self _).symm
    · exact fun hcons => absurd hcons (List.cons_ne_nil _ _)
  · have hlast : (ftl'.lm.eraseRange :: ranges).getLast? = ranges.getLast? := by
      obtain ⟨r, rest, rfl⟩ := List.exists_cons_of_ne_nil hnil
      rfl
    have hnew : ftl'.wgs =
        { prevRange := ftl'.lm.scannedRange
          accumDiff := ftl.wgs.accumDiff + ((ftl'.lm.scannedRange : Int) - (ftl.wgs.prevRange : Int))
          samples := ftl.wgs.samples + 1
          initialized := ftl.wgs.initialized } := by
      rw [hwgs]
      unfold WearGapStats.record
      rw [if_neg (by rw [h.started.mpr hnil]; decide)]
    have hpos := List.length_pos_iff.mpr hnil
    constructor
    · rw [hgc, h.gcCount]
      rfl
    · rw [hnew, List.length_cons]
      show ftl.wgs.samples + 1 = _
      omega
    · rw [hnew]
      exact iff_of_true (h.started.mpr hnil) (List.cons_ne_nil _ _)
    · intro _ hw
      rw [hnew, ← LineMgmt.scannedRange_eq hw]
    · intro first hfirst hw
      rw [hlast] at hfirst
      have hacc := h.accumDiff first hfirst (hwidth hw)
      have hprev := h.prevRange hnil (hwidth hw)
      rw [hnew, ← LineMgmt.scannedRange_eq hw]
      show ftl.wgs.accumDiff + _ = _
      rw [hacc, hprev]
      omega
    · exact fun hcons => absurd hcons (List.cons_ne_nil _ _)

/-- A selection leaves the counts and the statistics alone. -/
theorem gcSelect_wear (h : Settled ftl) (mode : GcMode) :
    Ensures (fun _ => True) (gcSelect ftl mode true mode.selectFn) fun r =>
      ftl.SameWear r.1 ∧ r.1.lm.ttLines = ftl.lm.ttLines := by
  obtain ⟨place, c, _⟩ := h.core
  refine (gcSelect_ensures c mode true mode.selectFn_selects).mono ?_
  rintro ⟨ftl', victim⟩ ⟨⟨rl, _, heq⟩, hspec⟩
  dsimp only at heq hspec ⊢
  cases victim with
  | none =>
    have hlm : ftl'.lm = ftl.lm := hspec.1
    rw [hlm] at heq
    rw [heq]
    exact ⟨⟨rfl, rfl, fun _ => rfl, fun _ => rfl, rfl⟩, rfl⟩
  | some v =>
    have hs : LineMgmt.Selected ftl.lm ftl'.lm (fun s => some (ftl.wp s).curline) place v := hspec
    rw [heq]
    exact ⟨⟨rfl, rfl, hs.kept.eraseCnt, fun _ => rfl, rfl⟩, hs.ttLines⟩

/-- The reclaim of the victim in hand counts as one collection and records the range it leaves. -/
theorem gcReclaim_wear {v : Nat} (h : InHand ftl v) (mode : GcMode) :
    Ensures (fun _ => True) (gcReclaim ftl mode v) fun r => r.gcCount = ftl.gcCount + 1 ∧
      r.wgs = ftl.wgs.record r.lm.scannedRange ∧ r.lm.ttLines = ftl.lm.ttLines ∧
        ∀ l, (ftl.lm.lines l).eraseCnt ≤ (r.lm.lines l).eraseCnt := by
  obtain ⟨ftl₀, place, lm, rl, hset, c, hheld, hs, rfl⟩ := h
  refine (gcReclaim_ensures hset c hheld hs rl mode (.inl trivial)).mono ?_
  rintro r ⟨hset', hc, hcounted, _, hwgs⟩
  have htt : r.lm.ttLines = lm.ttLines := by
    rw [hset'.ttLines_eq, hs.ttLines, hset.ttLines_eq, hc.sp]
  refine ⟨hcounted.gcCount, hwgs, htt, fun l => ?_⟩
  show (lm.lines l).eraseCnt ≤ _
  rw [hs.kept.eraseCnt l]
  by_cases hl : l = v
  · rw [hl, hc.lineErase]
    exact Nat.le_succ _
  · rw [hc.otherLineErase l hl]

/-- The statistics are right at every point of every run, whatever the modes. -/
theorem wearRuns_tracked (w : spp.WellFormed) (hinside : ∀ lpn, inside lpn → spp.LocalLpn lpn) :
    (wearRuns cp spp inside).Invariant fun s =>
      (s.1.Ordered ∧ s.1.ftl.ssd.sp = spp) ∧ WearTracked s.1.ftl s.2 where
  init := by
    rintro ⟨m, ranges⟩ ⟨hinit, rfl⟩
    refine ⟨(phases_ordered w hinside).init m hinit, ?_⟩
    obtain ⟨env, env', hrun, _, _⟩ := hinit
    have hfresh := (convInitFtl_ensures (E := fun _ => True) w cp (.inl trivial)).of_run hrun
    constructor
    · exact hfresh.gcCount
    · rw [hfresh.wgs]
      rfl
    · rw [hfresh.wgs]
      exact iff_of_false nofun fun hne => hne rfl
    · exact fun hne => absurd rfl hne
    · exact nofun
    · exact fun _ => hfresh.wgs
  step := by
    rintro ⟨m, ranges⟩ l ⟨m', ranges'⟩ ⟨ho, ht⟩ ⟨hstep, hranges⟩
    have ho' := (phases_ordered w hinside).step m l m' ho hstep
    refine ⟨ho', ?_⟩
    obtain ⟨hordered, hsp⟩ := ho
    dsimp only at hranges ht ho' ⊢
    subst hranges
    cases hstep with
    | @write ftl ftl' history lpn stime nsecsDone env env' hin hrun =>
      have hset : Settled ftl := hordered
      obtain ⟨hset', hw, _⟩ := (convWritePageBody_ensures (E := fun _ => True) hset
        (hsp ▸ hinside _ hin) _ (.inl trivial)).of_run hrun
      exact ht.congr hw.wear (by rw [hset'.ttLines_eq, hset.ttLines_eq, hw.sp])
    | kept _ => exact ht
    | skipped _ _ => exact ht.congr ⟨rfl, rfl, fun _ => rfl, fun _ => rfl, rfl⟩ rfl
    | selected _ _ hrun =>
      obtain ⟨hsame, htt⟩ := (gcSelect_wear hordered _).of_run hrun
      exact ht.congr hsame htt
    | noVictim _ _ hrun =>
      obtain ⟨hsame, htt⟩ := (gcSelect_wear hordered _).of_run hrun
      exact (ht.congr hsame htt).congr ⟨rfl, rfl, fun _ => rfl, fun _ => rfl, rfl⟩ rfl
    | cleaned hrun =>
      have hhand : InHand _ _ := hordered
      obtain ⟨hgc, hwgs, htt, hgrow⟩ := (gcReclaim_wear hhand _).of_run hrun
      exact ht.collected hgc hwgs htt hgrow
    | finished hrun =>
      obtain ⟨rl, rfl⟩ := (rlFinish_ensures (E := fun _ => True) _ _).of_run hrun
      exact ht.congr ⟨rfl, rfl, fun _ => rfl, fun _ => rfl, rfl⟩ rfl

end Runs

/-- **The wear gap.** After the `g`-th collection `gc_count` is `g`, there are `g - 1` samples, the
previous range is the present one, and the accumulated difference is the present range less the one
right after the first collection; an attempt without a victim changes none of it. The ranges after
the collections are kept beside the run, newest first. The counters are as large as they need to be
here; the ranges agree with the source as long as the erase counts fit their width. -/
theorem wear_gap_telescopes {cp : ConvParams} {spp : SsdParams} (w : spp.WellFormed) :
    (∀ m ranges, (wearRuns cp spp spp.LocalLpn).Reachable (m, ranges) → ranges ≠ [] →
      m.ftl.gcCount = ranges.length ∧ m.ftl.wgs.samples = ranges.length - 1 ∧
        (m.ftl.lm.CountsInWidth → m.ftl.wgs.prevRange = m.ftl.lm.eraseRange ∧
          ∀ first, ranges.getLast? = some first →
            m.ftl.wgs.accumDiff = (m.ftl.lm.eraseRange : Int) - (first : Int))) ∧
    (∀ ftl, (pageWrites cp spp spp.LocalLpn).Reachable ftl → ∃ history ranges,
      (wearRuns cp spp spp.LocalLpn).Reachable (⟨ftl, .write, history⟩, ranges)) ∧
    ∀ ftl history ranges mode ftl' env env',
      (wearRuns cp spp spp.LocalLpn).Reachable (⟨ftl, .credit, history⟩, ranges) →
      (doGc ftl mode true mode.selectFn).run env = .ok ((ftl', -1), env') →
      ftl'.gcCount = ftl.gcCount ∧ ftl'.wgs = ftl.wgs ∧ ftl'.lm.eraseRange = ftl.lm.eraseRange := by
  have hinv : (wearRuns cp spp spp.LocalLpn).Invariant fun s =>
      (s.1.Ordered ∧ s.1.ftl.ssd.sp = spp) ∧ WearTracked s.1.ftl s.2 :=
    wearRuns_tracked w fun _ h => h
  refine ⟨fun m ranges hreach hne => ?_, fun ftl hreach => ?_, ?_⟩
  · have ht := (hinv.reachable hreach).2
    exact ⟨ht.gcCount, ht.samples, fun hw =>
      ⟨ht.prevRange hne hw, fun first hfirst => ht.accumDiff first hfirst hw⟩⟩
  · obtain ⟨history, hphases⟩ := pageWrites_phases hreach
    obtain ⟨ranges, hwear⟩ := wearRuns_of_phases hphases
    exact ⟨history, ranges, hwear⟩
  · intro ftl history ranges mode ftl' env env' hreach hrun
    have hset : Settled ftl := (hinv.reachable hreach).1.1
    obtain ⟨_, hcollected | ⟨_, hnone, _⟩⟩ := (doGc_ensures (E := fun _ => True) hset mode true
      mode.selectFn_selects (.inl trivial)).of_run hrun
    · obtain ⟨_, hres, _⟩ := hcollected
      exact absurd hres (show ¬ (-1 : Int) = 0 by decide)
    · obtain ⟨rl, _, heq⟩ := hnone
      have heq : ftl' = _ := heq
      rw [heq]
      exact ⟨rfl, rfl, rfl⟩

/-- On the small device: the first collection gives the baseline, and the two after it one sample each. -/
theorem wear_gap_small : ∃ m ranges,
    (wearRuns smallConv smallParams smallParams.LocalLpn).Reachable (m, ranges) ∧
      ranges.length = 3 ∧ m.ftl.wgs.samples = 2 := by
  obtain ⟨ftl, hpath, hcount, _⟩ := exists_collected
  obtain ⟨hcollections, hruns, _⟩ := @wear_gap_telescopes smallConv _ smallParams_wellFormed
  obtain ⟨history, ranges, hwear⟩ := hruns ftl hpath.reachable
  have hne : ranges ≠ [] := by
    rintro rfl
    have hnone := ((wearRuns_tracked smallParams_wellFormed fun _ h => h).reachable hwear).2.gcCount
    rw [hcount] at hnone
    cases hnone
  obtain ⟨hlength, hsamples, _⟩ := hcollections _ ranges hwear hne
  have hthree : ranges.length = 3 := hlength.symm.trans hcount
  refine ⟨_, ranges, hwear, hthree, ?_⟩
  rw [hsamples, hthree]

end NvmeVirt

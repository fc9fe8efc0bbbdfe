import Mathlib.Algebra.Order.Floor.Semifield
import Mathlib.Data.Rat.Floor
import NvmeVirt.Laws.Conv.Scores

/-!
# The victims the learner looks at

`rl_get_state` ranks the lines of the queue by the integer part of their score, against an initial
0. It ends on the first line of greatest integer part, when that is not 0. The policies take the
first line of greatest score; the two agree when no line before that one has the same integer part
(`FloorsDecide`).

The first part is about first maxima of any list: a scan that replaces its best only by something
greater ends on the first maximum, if that beats the initial value (`Best.foldl_line`), and rounding
down keeps the first maximum exactly where the floors decide (`floorsDecide_iff`). The second part
reads the two scans of the source as such scans (`scanVictims_best`) and their keys as floors of the
exact scores (`quotient_eq`).

The products in a score of CAT can wrap; `ScanFits` says that they do not. For CB they never do
(`scanFits_cb`).
-/

set_option autoImplicit false

namespace NvmeVirt

/-! ## The first maximum -/

section FirstMax

variable {β : Type} [LinearOrder β] {k : Nat → β} {items : List Nat} {v : Nat}

/-- `argmax` is the element of greatest key before which all keys are smaller. -/
theorem mem_argmax_iff_split : v ∈ items.argmax k ↔ ∃ before after,
    items = before ++ v :: after ∧ (∀ c ∈ items, k c ≤ k v) ∧ ∀ c ∈ before, k c < k v := by
  constructor
  · intro hv
    obtain ⟨hmem, hmax, hfirst⟩ := List.mem_argmax_iff.mp hv
    obtain ⟨before, after, hitems, hout⟩ := List.eq_append_cons_of_mem hmem
    refine ⟨before, after, hitems, hmax, fun c hc => ?_⟩
    by_contra hge
    have hmem' : c ∈ items := by
      rw [hitems]
      exact List.mem_append_left _ hc
    have hindex := hfirst c hmem' (le_of_not_gt hge)
    rw [hitems, List.idxOf_append_of_notMem hout, List.idxOf_append_of_mem hc] at hindex
    have hlt := List.idxOf_lt_length_of_mem hc
    omega
  · rintro ⟨before, after, hitems, hmax, hbefore⟩
    apply List.mem_argmax_iff.mpr
    have hout : v ∉ before := fun hv => lt_irrefl _ (hbefore v hv)
    refine ⟨?_, hmax, fun a _ ha => ?_⟩
    · rw [hitems]
      exact List.mem_append_right _ List.mem_cons_self
    · have hnot : a ∉ before := fun hmem => not_lt_of_ge ha (hbefore a hmem)
      rw [hitems, List.idxOf_append_of_notMem hout, List.idxOf_append_of_notMem hnot,
        List.idxOf_cons_self]
      omega

end FirstMax

/-- The greatest of the values is at least 1, and of those before the first such, none has the same
integer part. -/
def FloorsDecide (f : Nat → ℚ) (items : List Nat) : Prop :=
  ∃ before w after, items = before ++ w :: after ∧ 1 ≤ f w ∧ (∀ c ∈ items, f c ≤ f w) ∧
    ∀ c ∈ before, ⌊f c⌋₊ < ⌊f w⌋₊

/-- Where the first greatest integer part belongs to a greatest value. -/
theorem floorsDecide_iff {f : Nat → ℚ} {items : List Nat} {s : Nat} (hs : s ∈ items.argmax f) :
    (∃ v, (v ∈ items.argmax (fun c => ⌊f c⌋₊) ∧ 0 < ⌊f v⌋₊) ∧ f v = f s) ↔
      FloorsDecide f items := by
  constructor
  · rintro ⟨v, ⟨hv, hpos⟩, hequal⟩
    obtain ⟨before, after, hitems, _, hbefore⟩ := mem_argmax_iff_split.mp hv
    refine ⟨before, v, after, hitems, Nat.floor_pos.mp hpos, fun c hc => ?_, hbefore⟩
    rw [hequal]
    exact List.le_of_mem_argmax hc hs
  · rintro ⟨before, w, after, hitems, hone, hmax, hbefore⟩
    have hw : w ∈ items.argmax (fun c => ⌊f c⌋₊) := mem_argmax_iff_split.mpr
      ⟨before, after, hitems, fun c hc => Nat.floor_mono (hmax c hc), hbefore⟩
    refine ⟨w, ⟨hw, Nat.floor_pos.mpr hone⟩, le_antisymm ?_ (hmax s (List.argmax_mem hs))⟩
    exact List.le_of_mem_argmax (List.argmax_mem hw) hs

/-! ## Scans against an initial 0 -/

section Best

variable {k : Nat → Nat} {items : List Nat}

/-- The best line so far against `c`, by the key `k`. -/
def Best.against (k : Nat → Nat) (best : Best) (c : Nat) : Best :=
  if best.key < k c then { line := some c, key := k c } else best

/-- What the scan has after some lines: the first of greatest key, if that is not 0. -/
def Best.ofFirst (k : Nat → Nat) : Option Nat → Best
  | none => { line := none, key := 0 }
  | some b => if 0 < k b then { line := some b, key := k b } else { line := none, key := 0 }

/-- A scan from 0 ends on the first maximum, or on nothing. -/
theorem Best.foldl_against (k : Nat → Nat) (items : List Nat) :
    items.foldl (Best.against k) { line := none, key := 0 } = Best.ofFirst k (items.argmax k) := by
  induction items using List.reverseRecOn with
  | nil => rfl
  | append_singleton before c ih =>
    rw [List.foldl_append, List.foldl_cons, List.foldl_nil, ih, List.argmax_concat]
    cases before.argmax k with
    | none => rfl
    | some b =>
      show Best.against k (if 0 < k b then _ else _) c = Best.ofFirst k (if k b < k c then _ else _)
      by_cases hb : 0 < k b
      · rw [if_pos hb]
        by_cases hlt : k b < k c
        · rw [if_pos hlt]
          unfold Best.against Best.ofFirst
          dsimp only
          rw [if_pos hlt, if_pos (Nat.lt_trans hb hlt)]
        · rw [if_neg hlt]
          unfold Best.against Best.ofFirst
          dsimp only
          rw [if_neg hlt, if_pos hb]
      · rw [if_neg hb]
        have hzero : k b = 0 := Nat.eq_zero_of_not_pos hb
        unfold Best.against
        dsimp only
        by_cases hlt : 0 < k c
        · rw [if_pos hlt, if_pos (by omega)]
          exact (if_pos hlt).symm
        · rw [if_neg hlt, if_neg (by omega)]
          exact (if_neg hb).symm

/-- What it ends on. -/
theorem Best.foldl_line (k : Nat → Nat) (items : List Nat) (v : Nat) :
    (items.foldl (Best.against k) { line := none, key := 0 }).line = some v ↔
      v ∈ items.argmax k ∧ 0 < k v := by
  rw [Best.foldl_against]
  cases items.argmax k with
  | none => exact ⟨nofun, fun h => nomatch h.1⟩
  | some b =>
    unfold Best.ofFirst
    dsimp only
    split
    · rename_i hb
      constructor
      · intro h
        obtain rfl := Option.some.inj h
        exact ⟨rfl, hb⟩
      · exact fun h => h.1
    · rename_i hb
      constructor
      · exact nofun
      · rintro ⟨hv, hpos⟩
        obtain rfl := Option.some.inj hv
        exact absurd hpos hb

end Best

/-! ## The two scans of `rl_get_state` -/

/-- The integer part of the score, as the code divides. -/
def quotient (lines : Lines) (now α δ c : Nat) : Nat :=
  (computeVictimScore (lines c) now α δ).1 / (computeVictimScore (lines c) now α δ).2

/-- The two scans of the loop do not meet. -/
theorem scanVictims_best (lines : Lines) (now : Nat) (items : List Nat) (s : VictimScan) :
    (items.foldl (VictimScan.visit lines now) s).cb =
        items.foldl (Best.against (quotient lines now 1 0)) s.cb ∧
      (items.foldl (VictimScan.visit lines now) s).cat =
        items.foldl (Best.against (quotient lines now 1 2)) s.cat := by
  induction items generalizing s with
  | nil => exact ⟨rfl, rfl⟩
  | cons c rest ih => exact ih (VictimScan.visit lines now s c)

/-- The scan for CB. -/
theorem scanVictims_cb (lm : LineMgmt) (now : Nat) : (scanVictims lm now).cb =
    lm.victimLinePq.items.foldl (Best.against (quotient lm.lines now 1 0))
      { line := none, key := 0 } := (scanVictims_best ..).1

/-- The scan for CAT. -/
theorem scanVictims_cat (lm : LineMgmt) (now : Nat) : (scanVictims lm now).cat =
    lm.victimLinePq.items.foldl (Best.against (quotient lm.lines now 1 2))
      { line := none, key := 0 } := (scanVictims_best ..).2

section Observed

variable {lm : LineMgmt} {lines : Lines} {pgs now α δ c : Nat}

/-- The key of a scan is the integer part of the score. -/
theorem quotient_eq (h : ClosedLine pgs (lines c)) (hden : scoreDen (lines c) δ < 2 ^ 64) :
    quotient lines now α δ c = ⌊exactScore lines now α δ c⌋₊ := by
  have hkept : wrappedDen (lines c) δ = scoreDen (lines c) δ := by
    unfold wrappedDen u64
    rw [Nat.mod_eq_of_lt hden, if_neg (Nat.pos_iff_ne_zero.mp (scoreDen_pos _ _))]
  unfold quotient exactScore
  rw [computeVictimScore_eq h, hkept, Nat.floor_div_eq_div]

/-- A score has an integer part when the numerator is not below the denominator. -/
theorem one_le_exactScore_iff :
    1 ≤ exactScore lines now α δ c ↔ scoreDen (lines c) δ ≤ scoreNum (lines c) now α := by
  unfold exactScore
  rw [one_le_div₀ (Nat.cast_pos.mpr (scoreDen_pos _ _))]
  exact Nat.cast_le

/-- The denominators of both scores fit 64 bits. -/
theorem ClosedLine.scoreDen_lt {line : Line} (h : ClosedLine pgs line) (hδ : δ = 0 ∨ δ = 2) :
    scoreDen line δ < 2 ^ 64 := by
  have hvpc : line.vpc + 1 ≤ 2 ^ 17 + 1 := Nat.succ_le_succ h.vpc_le
  have hec : line.eraseCnt + 1 ≤ 2 ^ 32 := h.worn
  have hpower : deltaPower (line.eraseCnt + 1) δ ≤ 2 ^ 32 := by
    rcases hδ with rfl | rfl
    · exact Nat.one_le_two_pow
    · exact hec
  exact Nat.lt_of_le_of_lt (Nat.mul_le_mul hvpc hpower) (by decide)

/-- The first maximum depends on the keys of the list only. -/
theorem mem_argmax_congr {β : Type} [LinearOrder β] {k k' : Nat → β} {items : List Nat} {v : Nat}
    (h : ∀ c ∈ items, k c = k' c) (hv : v ∈ items.argmax k) : v ∈ items.argmax k' := by
  obtain ⟨before, after, hitems, hmax, hbefore⟩ := mem_argmax_iff_split.mp hv
  have hv' := h v (List.argmax_mem hv)
  refine mem_argmax_iff_split.mpr ⟨before, after, hitems, fun c hc => ?_, fun c hc => ?_⟩
  · rw [← h c hc, ← hv']
    exact hmax c hc
  · have hmem : c ∈ items := by
      rw [hitems]
      exact List.mem_append_left _ hc
    rw [← h c hmem, ← hv']
    exact hbefore c hc

/-- At the level of CB no product wraps. -/
theorem scanFits_cb {items : List Nat} (hlines : ∀ c ∈ items, ClosedLine pgs (lines c)) :
    ScanFits lines now 1 0 items := by
  apply scanFits_of_le (fun c hc => (hlines c hc).scoreNum_le) (fun c hc => ?_)
    (show 10000 * 2 ^ 17 * ((2 ^ 17 + 1) * 1) < 2 ^ 64 by decide)
  exact Nat.mul_le_mul_right 1 (Nat.succ_le_succ (hlines c hc).vpc_le)

/-- The line the learner observes has the score of the line the selection takes. -/
def SameVictim (lm : LineMgmt) (now α δ : Nat) (observed : Option Nat) : Prop :=
  ∃ v s, observed = some v ∧ (lm.selectBest now α δ).2 = some s ∧
    exactScore lm.lines now α δ v = exactScore lm.lines now α δ s

/-- When a scan ends on a line of greatest score. -/
theorem sameVictim_iff {observed : Option Nat}
    (hvalid : Pqueue.Valid victimLine lm.victimLinePq lm.lines)
    (hne : lm.victimLinePq.items ≠ [])
    (hlines : ∀ c ∈ lm.victimLinePq.items, ClosedLine pgs (lm.lines c)) (hδ : δ = 0 ∨ δ = 2)
    (hfits : ScanFits lm.lines now α δ lm.victimLinePq.items)
    (hobserved : observed = (lm.victimLinePq.items.foldl
      (Best.against (quotient lm.lines now α δ)) { line := none, key := 0 }).line) :
    SameVictim lm now α δ observed ↔
      FloorsDecide (exactScore lm.lines now α δ) lm.victimLinePq.items := by
  obtain ⟨lm', s, hselect, hbest, _, _⟩ := LineMgmt.selectBest_exact hvalid hne hlines hfits
  have hkey : ∀ c ∈ lm.victimLinePq.items,
      quotient lm.lines now α δ c = ⌊exactScore lm.lines now α δ c⌋₊ :=
    fun c hc => quotient_eq (hlines c hc) ((hlines c hc).scoreDen_lt hδ)
  rw [← floorsDecide_iff hbest]
  constructor
  · rintro ⟨v, s', hv, hs', hequal⟩
    rw [hselect] at hs'
    obtain rfl : s = s' := Option.some.inj hs'
    rw [hobserved, Best.foldl_line] at hv
    refine ⟨v, ⟨mem_argmax_congr hkey hv.1, ?_⟩, hequal⟩
    rw [← hkey v (List.argmax_mem hv.1)]
    exact hv.2
  · rintro ⟨v, ⟨hv, hpos⟩, hequal⟩
    have hv' := mem_argmax_congr (fun c hc => (hkey c hc).symm) hv
    refine ⟨v, s, ?_, by rw [hselect], hequal⟩
    rw [hobserved, Best.foldl_line]
    refine ⟨hv', ?_⟩
    rw [hkey v (List.argmax_mem hv')]
    exact hpos

/-- For CB, and for CAT where its products fit: `rl_get_state` observes the victim the policy would
take exactly when some score is at least 1 and no line before the first of greatest score has the
same integer part. The scan of the state compares integer parts from 0 upwards, the policy the
scores themselves. The queue is any valid one with closed lines, at any time. -/
theorem observed_victims_iff (hvalid : Pqueue.Valid victimLine lm.victimLinePq lm.lines)
    (hne : lm.victimLinePq.items ≠ [])
    (hlines : ∀ c ∈ lm.victimLinePq.items, ClosedLine pgs (lm.lines c)) :
    (SameVictim lm now 1 0 (scanVictims lm now).cb.line ↔
      FloorsDecide (exactScore lm.lines now 1 0) lm.victimLinePq.items) ∧
    (ScanFits lm.lines now 1 2 lm.victimLinePq.items →
      (SameVictim lm now 1 2 (scanVictims lm now).cat.line ↔
        FloorsDecide (exactScore lm.lines now 1 2) lm.victimLinePq.items)) := by
  constructor
  · exact sameVictim_iff hvalid hne hlines (.inl rfl) (scanFits_cb hlines)
      (congrArg Best.line (scanVictims_cb lm now))
  · intro hfits
    exact sameVictim_iff hvalid hne hlines (.inr rfl) hfits
      (congrArg Best.line (scanVictims_cat lm now))

end Observed

section Examples

/-- Of the two lines the first one is far ahead, at both levels. -/
theorem twoLines_decide {δ : Nat} (hone : scoreDen (twoLines 326 0) δ ≤ scoreNum (twoLines 326 0) 0 1)
    (hlt : exactScore (twoLines 326) 0 1 δ 1 < exactScore (twoLines 326) 0 1 δ 0) :
    FloorsDecide (exactScore (twoLines 326) 0 1 δ) [0, 1] := by
  refine ⟨[], 0, [1], rfl, one_le_exactScore_iff.mpr hone, fun c hc => ?_, nofun⟩
  rcases List.mem_cons.mp hc with rfl | hc
  · exact le_rfl
  · obtain rfl := List.mem_singleton.mp hc
    exact hlt.le

/-- Two lines whose scores differ in the integer part. -/
theorem observed_victims_two : ∃ lm : LineMgmt,
    SameVictim lm 0 1 0 (scanVictims lm 0).cb.line ∧
      SameVictim lm 0 1 2 (scanVictims lm 0).cat.line := by
  obtain ⟨ftl⟩ := nonempty_convFtl
  have hclosed : ∀ c, ClosedLine (2 ^ 17) (twoLines 326 c) := twoLines_closed (by decide)
  have hiff := @observed_victims_iff (ftl.withTwoLines 326).lm (2 ^ 17) 0 (twoQueue_valid 326)
    (show twoQueue.items ≠ [] from nofun) (fun c _ => hclosed c)
  have hfits : ScanFits (twoLines 326) 0 1 2 twoQueue.items :=
    scanFits_of_young (fun c _ => hclosed c) (fun _ _ => Nat.le_refl 326) _ 1 2
  refine ⟨(ftl.withTwoLines 326).lm, hiff.1.mpr ?_, (hiff.2 hfits).mpr ?_⟩
  · exact twoLines_decide (by decide) (exactScore_lt_iff.mpr (by decide))
  · exact twoLines_decide (by decide) (exactScore_lt_iff.mpr (by decide))

/-- One closed line of 24 pages, 23 of them valid. -/
def oneLine : Lines := fun i =>
  { id := i, ipc := 1, vpc := 23, pos := if i = 0 then 1 else 0, lastModifiedTime := 0
    eraseCnt := 0 }

/-- The queue that holds it. -/
def oneQueue : Pqueue Nat where
  size := 2
  avail := 2
  d _ := 0

/-- A queue with a single line. -/
theorem oneQueue_valid : Pqueue.Valid victimLine oneQueue oneLine where
  size_pos := by decide
  pos_d i hi0 hi := by
    have hi2 : i < 2 := hi
    show 1 = i
    omega
  stays := fun _ _ _ h => h
  d_pos x _ hx := by
    have hpos : (if x = 0 then 1 else 0) ≠ 0 := hx
    have hzero : x = 0 := by
      by_contra hne
      exact hpos (if_neg hne)
    subst hzero
    exact ⟨by decide, rfl⟩
  heap i hi1 hi := by
    have hi2 : i < 2 := hi
    omega

/-- The line's score is 1/24 while it is young: the learner sees no victim, CB takes the line. -/
theorem observed_victim_missing : ∃ lm : LineMgmt,
    Pqueue.Valid victimLine lm.victimLinePq lm.lines ∧ lm.victimLinePq.items = [0] ∧
    (∀ c, ClosedLine 24 (lm.lines c)) ∧ (scanVictims lm 0).cb.line = none ∧
    (lm.selectBest 0 1 0).2 = some 0 := by
  obtain ⟨ftl⟩ := nonempty_convFtl
  have hscan : oneQueue.items.foldl (Best.against (quotient oneLine 0 1 0))
      { line := none, key := 0 } = { line := none, key := 0 } := by decide
  refine ⟨{ ftl.lm with lines := oneLine, victimLinePq := oneQueue, victimLineCnt := 1 },
    oneQueue_valid, rfl, fun _ => ⟨rfl, by decide, Nat.two_pow_pos 32⟩, ?_, ?_⟩
  · rw [scanVictims_cb]
    exact congrArg Best.line hscan
  · rfl

end Examples

end NvmeVirt

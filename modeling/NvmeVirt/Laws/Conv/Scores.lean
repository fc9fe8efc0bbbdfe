import Mathlib.Algebra.Order.Field.Rat
import Mathlib.Data.List.MinMax
import NvmeVirt.Laws.Conv.Isqrt
import NvmeVirt.Laws.Conv.Run

/-!
# The scored selection is exact where its products fit

`exactScore` is the score as a fraction, its powers taken without overflow. The scan compares two
fractions by their cross products in `uint64_t`; where those fit (`ScanFits`), the line it ends on
is `List.argmax`, the first of the lines of greatest score.

The counters of a closed line are bounded by the pages of a line (`ClosedLine`), so the numerator
always fits and only the denominator, a power of the erase count, can wrap. The scan is a fold:
`scanBest_argmax` carries the line found so far as the argmax of those already seen, and one
comparison is `ProductsFit.betterOf`.

Nothing is claimed where a product wraps.
-/

set_option autoImplicit false

namespace NvmeVirt

/-! ## Exact scores -/

/-- The power `apply_alpha` stands for. -/
def alphaPower (aw : Nat) : Nat → Nat
  | 0 => aw.sqrt
  | 1 => aw
  | 2 => aw * aw.sqrt
  | _ => aw * aw

/-- The power `apply_delta` stands for. -/
def deltaPower (ec1 : Nat) : Nat → Nat
  | 0 => 1
  | 1 => ec1.sqrt
  | 2 => ec1
  | 3 => ec1 * ec1.sqrt
  | _ => ec1 * ec1

def scoreNum (line : Line) (now α : Nat) : Nat :=
  alphaPower (getAgeWeight (elapsedSince now line.lastModifiedTime)) α * line.ipc

def scoreDen (line : Line) (δ : Nat) : Nat := (line.vpc + 1) * deltaPower (line.eraseCnt + 1) δ

/-- The score of a line as a fraction. -/
def exactScore (lines : Lines) (now α δ c : Nat) : ℚ :=
  (scoreNum (lines c) now α : ℚ) / scoreDen (lines c) δ

/-- A line whose pages are all written: `pgs` of them, and an erase count of 32 bits. -/
structure ClosedLine (pgs : Nat) (line : Line) : Prop where
  total : line.vpc + line.ipc = pgs
  small : pgs ≤ 2 ^ 17
  worn : line.eraseCnt < 2 ^ 32

section Scores

variable {lines : Lines} {line : Line} {pgs now α δ : Nat} {b c : Nat}

theorem deltaPower_pos {ec1 : Nat} (h : 0 < ec1) (δ : Nat) : 0 < deltaPower ec1 δ := by
  have hroot : 0 < ec1.sqrt := Nat.sqrt_pos.mpr h
  match δ with
  | 0 => exact Nat.one_pos
  | 1 => exact hroot
  | 2 => exact h
  | 3 => exact Nat.mul_pos h hroot
  | _ + 4 => exact Nat.mul_pos h h

theorem scoreDen_pos (line : Line) (δ : Nat) : 0 < scoreDen line δ :=
  Nat.mul_pos (Nat.succ_pos _) (deltaPower_pos (Nat.succ_pos _) δ)

/-- The age weight is a percentage. -/
theorem getAgeWeight_le (age : Nat) : getAgeWeight age ≤ 100 := by
  unfold getAgeWeight
  split
  · omega
  split
  · omega
  split <;> omega

theorem alphaPower_le {aw : Nat} (h : aw ≤ 100) (α : Nat) : alphaPower aw α ≤ 10000 := by
  have hroot : aw.sqrt ≤ aw := Nat.sqrt_le_self aw
  match α with
  | 0 => exact (hroot.trans h).trans (by omega)
  | 1 => exact h.trans (by omega)
  | 2 => exact Nat.mul_le_mul h (hroot.trans h)
  | _ + 3 => exact Nat.mul_le_mul h h

/-- The exponent 1.5 is a root of a product that fits. -/
theorem applyAlpha_eq {aw : Nat} (h : aw ≤ 100) (α : Nat) : applyAlpha aw α = alphaPower aw α := by
  have hbound := alphaPower_le h α
  match α with
  | 0 => exact isqrtU64_eq (by omega)
  | 1 => rfl
  | 2 =>
    unfold applyAlpha
    rw [isqrtU64_eq (by omega)]
    have hfits : aw * aw.sqrt ≤ 10000 := hbound
    exact Nat.mod_eq_of_lt (by omega)
  | _ + 3 =>
    have hfits : aw * aw ≤ 10000 := hbound
    exact Nat.mod_eq_of_lt (by omega)

/-- `apply_delta` may wrap; as a factor it is the power. -/
theorem u64_mul_applyDelta {ec1 : Nat} (h : ec1 ≤ 2 ^ 32) (m δ : Nat) :
    u64 (m * applyDelta ec1 δ) = u64 (m * deltaPower ec1 δ) := by
  have hroot : isqrtU64 ec1 = ec1.sqrt := isqrtU64_eq (by omega)
  unfold u64
  match δ with
  | 0 => rfl
  | 1 => rw [applyDelta, hroot, deltaPower]
  | 2 => rfl
  | 3 =>
    rw [applyDelta, hroot, deltaPower]
    exact Nat.mul_mod_mod m _ _
  | _ + 4 => exact Nat.mul_mod_mod m _ _

/-- The denominator as the code keeps it. -/
def wrappedDen (line : Line) (δ : Nat) : Nat :=
  if u64 (scoreDen line δ) = 0 then 1 else u64 (scoreDen line δ)

/-- The computed fraction is the exact one, but for the wrap of its denominator. -/
theorem computeVictimScore_eq (h : ClosedLine pgs line) :
    computeVictimScore line now α δ = (scoreNum line now α, wrappedDen line δ) := by
  have hage := getAgeWeight_le (elapsedSince now line.lastModifiedTime)
  have hpower := alphaPower_le hage α
  have hipc : line.ipc ≤ 2 ^ 17 := by
    have htotal := h.total
    have hsmall := h.small
    omega
  have hnum : scoreNum line now α < 2 ^ 64 :=
    Nat.lt_of_le_of_lt (Nat.mul_le_mul hpower hipc) (by decide)
  have hec : line.eraseCnt + 1 ≤ 2 ^ 32 := h.worn
  unfold computeVictimScore
  dsimp only
  rw [applyAlpha_eq hage, u64_mul_applyDelta hec]
  congr 1
  exact Nat.mod_eq_of_lt hnum

/-- A product that fits is computed exactly, whatever became of the denominator. -/
theorem u64_mul_wrappedDen {num : Nat} (h : num * scoreDen line δ < 2 ^ 64) :
    u64 (num * wrappedDen line δ) = num * scoreDen line δ := by
  have hpos := scoreDen_pos line δ
  rcases Nat.eq_zero_or_pos num with rfl | hnum
  · rw [Nat.zero_mul, Nat.zero_mul]
    rfl
  · have hden : scoreDen line δ < 2 ^ 64 := by
      calc scoreDen line δ = 1 * scoreDen line δ := (Nat.one_mul _).symm
        _ ≤ num * scoreDen line δ := Nat.mul_le_mul_right _ hnum
        _ < 2 ^ 64 := h
    have hkept : wrappedDen line δ = scoreDen line δ := by
      unfold wrappedDen u64
      rw [Nat.mod_eq_of_lt hden, if_neg (Nat.pos_iff_ne_zero.mp hpos)]
    rw [hkept]
    exact Nat.mod_eq_of_lt h

/-- Fractions are compared by cross products. -/
theorem exactScore_lt_iff : exactScore lines now α δ b < exactScore lines now α δ c ↔
    scoreNum (lines b) now α * scoreDen (lines c) δ <
      scoreNum (lines c) now α * scoreDen (lines b) δ := by
  have hb : (0 : ℚ) < scoreDen (lines b) δ := Nat.cast_pos.mpr (scoreDen_pos _ _)
  have hc : (0 : ℚ) < scoreDen (lines c) δ := Nat.cast_pos.mpr (scoreDen_pos _ _)
  unfold exactScore
  rw [div_lt_div_iff₀ hb hc]
  exact_mod_cast Iff.rfl

/-! ## The scan -/

/-- The two products that compare `c` with `b` fit in 64 bits. -/
def ProductsFit (lines : Lines) (now α δ b c : Nat) : Prop :=
  scoreNum (lines c) now α * scoreDen (lines b) δ < 2 ^ 64 ∧
    scoreNum (lines b) now α * scoreDen (lines c) δ < 2 ^ 64

/-- They fit for each line of the scan and the first best line before it. -/
def ScanFits (lines : Lines) (now α δ : Nat) (items : List Nat) : Prop :=
  ∀ before c after b, items = before ++ c :: after →
    b ∈ before.argmax (exactScore lines now α δ) → ProductsFit lines now α δ b c

/-- A line with its score, as the scan keeps it. -/
def scored (lines : Lines) (now α δ c : Nat) : Nat × Nat × Nat :=
  (c, computeVictimScore (lines c) now α δ)

/-- The better of the best line so far and `c`, as the code compares them. -/
def betterOf (lines : Lines) (now α δ c : Nat) : Option (Nat × Nat × Nat) → Nat × Nat × Nat
  | none => scored lines now α δ c
  | some (b, num, den) =>
    if u64 (num * (computeVictimScore (lines c) now α δ).2) <
        u64 ((computeVictimScore (lines c) now α δ).1 * den) then scored lines now α δ c
    else (b, num, den)

theorem scanBest_cons (rest : List Nat) (best : Option (Nat × Nat × Nat)) :
    scanBest lines now α δ (c :: rest) best =
      scanBest lines now α δ rest (some (betterOf lines now α δ c best)) := by
  rw [scanBest.eq_def]
  cases best with
  | none => rfl
  | some b =>
    unfold betterOf
    dsimp only
    split
    · rfl
    · rfl

/-- Where the products fit, a comparison of the scan is one of fractions. -/
theorem ProductsFit.betterOf (h : ProductsFit lines now α δ b c) (hb : ClosedLine pgs (lines b))
    (hc : ClosedLine pgs (lines c)) :
    betterOf lines now α δ c (some (scored lines now α δ b)) = scored lines now α δ
      (if exactScore lines now α δ b < exactScore lines now α δ c then c else b) := by
  have hdecides : u64 ((computeVictimScore (lines b) now α δ).1 *
        (computeVictimScore (lines c) now α δ).2) <
      u64 ((computeVictimScore (lines c) now α δ).1 * (computeVictimScore (lines b) now α δ).2) ↔
      exactScore lines now α δ b < exactScore lines now α δ c := by
    rw [computeVictimScore_eq hb, computeVictimScore_eq hc, exactScore_lt_iff]
    dsimp only
    rw [u64_mul_wrappedDen h.1, u64_mul_wrappedDen h.2]
  show (if u64 ((computeVictimScore (lines b) now α δ).1 *
        (computeVictimScore (lines c) now α δ).2) <
      u64 ((computeVictimScore (lines c) now α δ).1 * (computeVictimScore (lines b) now α δ).2)
    then scored lines now α δ c else scored lines now α δ b) = _
  by_cases hlt : exactScore lines now α δ b < exactScore lines now α δ c
  · rw [if_pos hlt, if_pos (hdecides.mpr hlt)]
  · rw [if_neg hlt, if_neg (mt hdecides.mp hlt)]

/-- The scan from the lines seen so far. -/
theorem scanBest_argmax {before rest : List Nat}
    (hlines : ∀ c ∈ before ++ rest, ClosedLine pgs (lines c))
    (hfits : ScanFits lines now α δ (before ++ rest)) :
    scanBest lines now α δ rest
        ((before.argmax (exactScore lines now α δ)).map (scored lines now α δ)) =
      ((before ++ rest).argmax (exactScore lines now α δ)).map (scored lines now α δ) := by
  induction rest generalizing before with
  | nil => rw [List.append_nil]; rfl
  | cons c rest ih =>
    have happend : before ++ c :: rest = (before ++ [c]) ++ rest := by simp
    rw [happend] at hlines ⊢
    rw [← ih hlines (happend ▸ hfits), List.argmax_concat, scanBest_cons]
    congr 1
    cases hbest : before.argmax (exactScore lines now α δ) with
    | none => rfl
    | some b =>
      have hb : ClosedLine pgs (lines b) :=
        hlines b (List.mem_append_left _ (List.mem_append_left _ (List.argmax_mem hbest)))
      have hc : ClosedLine pgs (lines c) :=
        hlines c (List.mem_append_left _ (List.mem_append_right _ List.mem_cons_self))
      have hbetter := (hfits before c rest b rfl hbest).betterOf hb hc
      show some (betterOf lines now α δ c (some (scored lines now α δ b))) =
        Option.map _ (if _ then _ else _)
      rw [hbetter]
      split <;> rfl

/-- The whole scan. -/
theorem scanBest_eq_argmax {items : List Nat} (hlines : ∀ c ∈ items, ClosedLine pgs (lines c))
    (hfits : ScanFits lines now α δ items) :
    scanBest lines now α δ items none =
      (items.argmax (exactScore lines now α δ)).map (scored lines now α δ) :=
  @scanBest_argmax lines pgs now α δ [] items hlines hfits

/-! ## Where the products fit -/

/-- Bounds of numerator and denominator are enough for a scan. -/
theorem scanFits_of_le {items : List Nat} {num den : Nat}
    (hnum : ∀ c ∈ items, scoreNum (lines c) now α ≤ num)
    (hden : ∀ c ∈ items, scoreDen (lines c) δ ≤ den) (hfits : num * den < 2 ^ 64) :
    ScanFits lines now α δ items := by
  intro before c after b hitems hbest
  have hc : c ∈ items := by
    rw [hitems]
    exact List.mem_append_right _ List.mem_cons_self
  have hb : b ∈ items := by
    rw [hitems]
    exact List.mem_append_left _ (List.argmax_mem hbest)
  constructor
  · exact Nat.lt_of_le_of_lt (Nat.mul_le_mul (hnum c hc) (hden b hb)) hfits
  · exact Nat.lt_of_le_of_lt (Nat.mul_le_mul (hnum b hb) (hden c hc)) hfits

theorem ClosedLine.ipc_le (h : ClosedLine pgs line) : line.ipc ≤ 2 ^ 17 := by
  have htotal := h.total
  have hsmall := h.small
  omega

theorem ClosedLine.vpc_le (h : ClosedLine pgs line) : line.vpc ≤ 2 ^ 17 := by
  have htotal := h.total
  have hsmall := h.small
  omega

/-- The numerator is bounded by the pages of a line. -/
theorem ClosedLine.scoreNum_le (h : ClosedLine pgs line) :
    scoreNum line now α ≤ 10000 * 2 ^ 17 :=
  Nat.mul_le_mul (alphaPower_le (getAgeWeight_le _) α) h.ipc_le

/-- No power is above the square. -/
theorem deltaPower_le {ec1 : Nat} (h : 0 < ec1) (δ : Nat) : deltaPower ec1 δ ≤ ec1 * ec1 := by
  have hself : ec1 ≤ ec1 * ec1 := Nat.le_mul_of_pos_left ec1 h
  have hroot : ec1.sqrt ≤ ec1 := Nat.sqrt_le_self ec1
  match δ with
  | 0 => exact Nat.le_trans h hself
  | 1 => exact hroot.trans hself
  | 2 => exact hself
  | 3 => exact Nat.mul_le_mul_left ec1 hroot
  | _ + 4 => exact Nat.le_refl _

/-- Whatever the levels, nothing wraps before a line of the queue has been erased 327 times. -/
theorem scanFits_of_young {items : List Nat} (hlines : ∀ c ∈ items, ClosedLine pgs (lines c))
    (hyoung : ∀ c ∈ items, (lines c).eraseCnt ≤ 326) (now α δ : Nat) :
    ScanFits lines now α δ items := by
  apply scanFits_of_le (fun c hc => (hlines c hc).scoreNum_le)
    (fun c hc => ?_) (show 10000 * 2 ^ 17 * ((2 ^ 17 + 1) * (327 * 327)) < 2 ^ 64 by decide)
  have hec : (lines c).eraseCnt + 1 ≤ 327 := Nat.succ_le_succ (hyoung c hc)
  have hpower : deltaPower ((lines c).eraseCnt + 1) δ ≤ 327 * 327 :=
    (deltaPower_le (Nat.succ_pos _) δ).trans (Nat.mul_le_mul hec hec)
  exact Nat.mul_le_mul (Nat.succ_le_succ (hlines c hc).vpc_le) hpower

end Scores

/-! ## The selected line -/

section Selection

variable {σ ι : Type} {cb : Callbacks σ ι} {q : Pqueue ι} {m : σ} {x : ι}

/-- A valid queue holds what records a slot of it. -/
theorem Pqueue.Valid.mem_items_iff (h : Pqueue.Valid cb q m) :
    x ∈ q.items ↔ Pqueue.Queued cb m x := by
  constructor
  · intro hx
    obtain ⟨i, hi0, hi, rfl⟩ := Pqueue.mem_items.mp hx
    unfold Pqueue.Queued
    rw [h.pos_d i hi0 hi]
    exact Nat.pos_iff_ne_zero.mp hi0
  · intro hx
    obtain ⟨hlt, hd⟩ := h.d_pos x id hx
    exact Pqueue.mem_items.mpr ⟨_, Nat.pos_of_ne_zero hx, hlt, hd⟩

/-- What is left in the queue once `v` is taken out of it. -/
theorem LineMgmt.takeVictim_items {lm : LineMgmt} {v : Nat} {r : Pqueue Nat × Lines}
    (h : Pqueue.Valid victimLine lm.victimLinePq lm.lines)
    (hr : Pqueue.Removed victimLine lm.victimLinePq lm.lines v r) :
    Pqueue.Valid victimLine (lm.takeVictim r v).victimLinePq (lm.takeVictim r v).lines ∧
      (lm.takeVictim r v).victimLinePq.items.Perm (lm.victimLinePq.items.erase v) := by
  have hvalid : Pqueue.Valid victimLine (lm.takeVictim r v).victimLinePq
      (lm.takeVictim r v).lines := hr.valid
  refine ⟨hvalid, ?_⟩
  apply (List.perm_ext_iff_of_nodup hvalid.items_nodup (h.items_nodup.erase v)).mpr
  intro y
  rw [hvalid.mem_items_iff, h.items_nodup.mem_erase_iff, h.mem_items_iff]
  have hpos : (lm.takeVictim r v).lines = victimLine.setpos r.2 v 0 := rfl
  by_cases hy : y = v
  · subst hy
    unfold Pqueue.Queued
    rw [hpos, victimLine_lawful.getpos_setpos, if_pos rfl]
    simp
  · have hold := hr.queued y hy
    unfold Pqueue.Queued at hold ⊢
    rw [hpos, victimLine_lawful.getpos_setpos, if_neg hy]
    exact hold.trans (and_iff_right hy).symm

end Selection

/-- Where the products of its scan fit, the scan takes the first of the lines of greatest score. -/
theorem LineMgmt.selectBest_exact {lm : LineMgmt} {pgs now α δ : Nat}
    (hvalid : Pqueue.Valid victimLine lm.victimLinePq lm.lines)
    (hne : lm.victimLinePq.items ≠ [])
    (hlines : ∀ c ∈ lm.victimLinePq.items, ClosedLine pgs (lm.lines c))
    (hfits : ScanFits lm.lines now α δ lm.victimLinePq.items) :
    ∃ lm' v, lm.selectBest now α δ = (lm', some v) ∧
      lm.victimLinePq.items.argmax (exactScore lm.lines now α δ) = some v ∧
      Pqueue.Valid victimLine lm'.victimLinePq lm'.lines ∧
      lm'.victimLinePq.items.Perm (lm.victimLinePq.items.erase v) := by
  have hscan := scanBest_eq_argmax hlines hfits
  cases hbest : lm.victimLinePq.items.argmax (exactScore lm.lines now α δ) with
  | none => exact absurd (List.argmax_eq_none.mp hbest) hne
  | some v =>
    rw [hbest] at hscan
    have hselect : lm.selectBest now α δ =
        (lm.takeVictim (lm.victimLinePq.remove victimLine lm.lines v) v, some v) := by
      unfold LineMgmt.selectBest
      rw [hscan]
      rfl
    have hqueued := hvalid.mem_items_iff.mp (List.argmax_mem hbest)
    have hremoved := Pqueue.remove_valid victimLine_lawful hvalid hqueued
    obtain ⟨hvalid', hitems⟩ := LineMgmt.takeVictim_items hvalid hremoved
    exact ⟨_, v, hselect, rfl, hvalid', hitems⟩

/-- The selection is the scan, with the clock read once. -/
theorem selectVictimScored_run (ftl : ConvFtl) (α δ : Nat) (env : Env) :
    (selectVictimScored ftl α δ).run env =
      .ok (({ ftl with lm := (ftl.lm.selectBest (u64 (env.ktime env.tick)) α δ).1 },
        (ftl.lm.selectBest (u64 (env.ktime env.tick)) α δ).2),
        { env with tick := env.tick + 1 }) := rfl

/-- Where the products of its scan fit, the scored selection answers a line of greatest score and
takes it out of the queue. The queue is any valid one that is not empty, with closed lines in it, at
any time and for any exponents; where a product does not fit, the comparison is of what is left of
it. -/
theorem scored_victim_exact {ftl : ConvFtl} {pgs α δ : Nat} {env : Env}
    (hvalid : Pqueue.Valid victimLine ftl.lm.victimLinePq ftl.lm.lines)
    (hne : ftl.lm.victimLinePq.items ≠ [])
    (hlines : ∀ c ∈ ftl.lm.victimLinePq.items, ClosedLine pgs (ftl.lm.lines c))
    (hfits : ScanFits ftl.lm.lines (u64 (env.ktime env.tick)) α δ ftl.lm.victimLinePq.items) :
    ∃ ftl' v env', (selectVictimScored ftl α δ).run env = .ok ((ftl', some v), env') ∧
      v ∈ ftl.lm.victimLinePq.items ∧
      (∀ c ∈ ftl.lm.victimLinePq.items,
        exactScore ftl.lm.lines (u64 (env.ktime env.tick)) α δ c ≤
          exactScore ftl.lm.lines (u64 (env.ktime env.tick)) α δ v) ∧
      Pqueue.Valid victimLine ftl'.lm.victimLinePq ftl'.lm.lines ∧
      ftl'.lm.victimLinePq.items.Perm (ftl.lm.victimLinePq.items.erase v) := by
  obtain ⟨lm', v, hselect, hbest, hvalid', hitems⟩ :=
    LineMgmt.selectBest_exact hvalid hne hlines hfits
  have hrun := selectVictimScored_run ftl α δ env
  rw [hselect] at hrun
  exact ⟨_, v, _, hrun, List.argmax_mem hbest, fun c hc => List.le_of_mem_argmax hc hbest, hvalid',
    hitems⟩

section TwoLines

/-- Two closed lines of 2^17 pages: line 0 has no valid page, line 1 one invalid page; both were
erased `eraseCnt` times. -/
def twoLines (eraseCnt : Nat) : Lines := fun i =>
  { id := i, ipc := if i = 0 then 2 ^ 17 else 1, vpc := if i = 0 then 0 else 2 ^ 17 - 1
    pos := if i < 2 then i + 1 else 0, lastModifiedTime := 0, eraseCnt }

/-- The queue that holds the two. -/
def twoQueue : Pqueue Nat where
  size := 3
  avail := 3
  d i := i - 1

theorem twoQueue_valid (eraseCnt : Nat) :
    Pqueue.Valid victimLine twoQueue (twoLines eraseCnt) where
  size_pos := by decide
  pos_d i hi0 hi := by
    have hi3 : i < 3 := hi
    show (if i - 1 < 2 then i - 1 + 1 else 0) = i
    rw [if_pos (by omega)]
    omega
  stays := fun _ _ _ h => h
  d_pos x _ hx := by
    have hpos : (if x < 2 then x + 1 else 0) ≠ 0 := hx
    have hlt : x < 2 := by
      by_contra hge
      exact hpos (if_neg hge)
    have hget : victimLine.getpos (twoLines eraseCnt) x = x + 1 := if_pos hlt
    rw [hget]
    exact ⟨Nat.succ_lt_succ hlt, rfl⟩
  heap i hi1 hi := by
    have hi2 : i = 2 := by
      have hi3 : i < 3 := hi
      omega
    subst hi2
    exact Nat.zero_le _

theorem twoLines_closed {eraseCnt : Nat} (h : eraseCnt < 2 ^ 32) (c : Nat) :
    ClosedLine (2 ^ 17) (twoLines eraseCnt c) where
  total := by
    show (if c = 0 then 0 else 2 ^ 17 - 1) + (if c = 0 then 2 ^ 17 else 1) = 2 ^ 17
    split <;> rfl
  small := Nat.le_refl _
  worn := h

/-- The FTL with the two lines in its queue. -/
def ConvFtl.withTwoLines (ftl : ConvFtl) (eraseCnt : Nat) : ConvFtl :=
  { ftl with lm := { ftl.lm with
    lines := twoLines eraseCnt, victimLinePq := twoQueue, victimLineCnt := 2 } }

theorem nonempty_convFtl : Nonempty ConvFtl := by
  obtain ⟨ftl, _, _, _⟩ :=
    answers (convInitFtl_ensures (E := NoFault) gib_wellFormed (cp970Pro gib)
      (.inr (by have := gib_ttLines; omega))) .zero
  exact ⟨ftl⟩

/-- All clocks stand at one minute. -/
def oneMinute : Env := { Env.zero with ktime := fun _ => 60 * 10 ^ 9 }

/-- With two queued lines. -/
theorem scored_victim_exact_two : ∃ ftl ftl' v env',
    (selectVictimScored (ftl : ConvFtl) 3 4).run oneMinute = .ok ((ftl', some v), env') ∧
      exactScore ftl.lm.lines (u64 (60 * 10 ^ 9)) 3 4 1 ≤
        exactScore ftl.lm.lines (u64 (60 * 10 ^ 9)) 3 4 v := by
  obtain ⟨ftl⟩ := nonempty_convFtl
  have hclosed : ∀ c, ClosedLine (2 ^ 17) (twoLines 326 c) := twoLines_closed (by decide)
  have hyoung : ScanFits (twoLines 326) (u64 (60 * 10 ^ 9)) 3 4 twoQueue.items :=
    scanFits_of_young (fun c _ => hclosed c) (fun _ _ => Nat.le_refl 326) _ 3 4
  obtain ⟨ftl', v, env', hrun, _, hmax, _⟩ :=
    @scored_victim_exact (ftl.withTwoLines 326) (2 ^ 17) 3 4 oneMinute (twoQueue_valid 326)
      (show twoQueue.items ≠ [] from nofun) (fun c _ => hclosed c) hyoung
  exact ⟨_, ftl', v, env', hrun, hmax 1 (show 1 ∈ twoQueue.items by decide)⟩

theorem twoLines_scan : scanBest (twoLines 8191) (u64 (60 * 10 ^ 9)) 3 4 [0, 1] none =
    some (1, 10000, 2 ^ 43) := by
  have hzero : computeVictimScore (twoLines 8191 0) (u64 (60 * 10 ^ 9)) 3 4 =
      (10000 * 2 ^ 17, 2 ^ 26) := by decide
  have hone : computeVictimScore (twoLines 8191 1) (u64 (60 * 10 ^ 9)) 3 4 = (10000, 2 ^ 43) := by
    decide
  rw [scanBest_cons, scanBest_cons]
  unfold betterOf scored
  rw [hzero, hone]
  decide

/-- After 8191 erases of each, the product that should decide for line 0 is a multiple of 2^64. -/
theorem scored_victim_wraps : ∃ ftl ftl' env',
    Pqueue.Valid victimLine (ftl : ConvFtl).lm.victimLinePq ftl.lm.lines ∧
    (∀ c, ClosedLine (2 ^ 17) (ftl.lm.lines c)) ∧ 0 ∈ ftl.lm.victimLinePq.items ∧
    (selectVictimScored ftl 3 4).run oneMinute = .ok ((ftl', some 1), env') ∧
    exactScore ftl.lm.lines (u64 (60 * 10 ^ 9)) 3 4 1 <
      exactScore ftl.lm.lines (u64 (60 * 10 ^ 9)) 3 4 0 := by
  obtain ⟨ftl⟩ := nonempty_convFtl
  have hselect : ((ftl.withTwoLines 8191).lm.selectBest (u64 (60 * 10 ^ 9)) 3 4).2 = some 1 := by
    unfold LineMgmt.selectBest
    rw [show scanBest (ftl.withTwoLines 8191).lm.lines (u64 (60 * 10 ^ 9)) 3 4
      (ftl.withTwoLines 8191).lm.victimLinePq.items none = _ from twoLines_scan]
  have hrun := selectVictimScored_run (ftl.withTwoLines 8191) 3 4 oneMinute
  rw [show ((ftl.withTwoLines 8191).lm.selectBest (u64 (oneMinute.ktime oneMinute.tick)) 3 4).2 =
    some 1 from hselect] at hrun
  have hlt : exactScore (twoLines 8191) (u64 (60 * 10 ^ 9)) 3 4 1 <
      exactScore (twoLines 8191) (u64 (60 * 10 ^ 9)) 3 4 0 := exactScore_lt_iff.mpr (by decide)
  exact ⟨ftl.withTwoLines 8191, _, _, twoQueue_valid 8191, twoLines_closed (by decide),
    show 0 ∈ twoQueue.items by decide, hrun, hlt⟩

end TwoLines

end NvmeVirt

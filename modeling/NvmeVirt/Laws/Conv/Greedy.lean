import NvmeVirt.Laws.Conv.Phases

/-!
# Greedy selection

`select_victim_greedy` looks at the root of the queue only. The queue holds exactly the lines a
collection may take (`Settled.mem_items_iff`), and it is a heap by `vpc`, so the root keeps the fewest
valid pages of them all. Both rest on every earlier write and collection having moved the counts
through the queue, which is what `Settled` says of a reachable moment.
-/

set_option autoImplicit false

namespace NvmeVirt

open Outcome

/-! ## The lines a collection may take -/

/-- The valid pages of a line, by the page statuses. -/
def ConvFtl.validPages (ftl : ConvFtl) (l : Nat) : Nat :=
  tally (ftl.ssd.sp.linePages l) ftl.ssd.getPg .valid

/-- A closed line with an invalid page: neither free nor open for a write pointer. -/
structure ConvFtl.Reclaimable (ftl : ConvFtl) (l : Nat) : Prop where
  lt : l < ftl.lm.ttLines
  written : l ∉ ftl.lm.freeLineList
  closed : ∀ s, (ftl.wp s).curline ≠ l
  stale : ∃ p ∈ ftl.ssd.sp.linePages l, ftl.ssd.getPg p = .invalid

/-- Of all lines a collection may take, `v` keeps the fewest valid pages and the most invalid ones. -/
structure FewestValid (ftl : ConvFtl) (v : Nat) : Prop where
  reclaimable : ftl.Reclaimable v
  vpc_le : ∀ l, ftl.Reclaimable l → (ftl.lm.lines v).vpc ≤ (ftl.lm.lines l).vpc
  le_ipc : ∀ l, ftl.Reclaimable l → (ftl.lm.lines l).ipc ≤ (ftl.lm.lines v).ipc
  copies_le : ∀ l, ftl.Reclaimable l → ftl.validPages v ≤ ftl.validPages l

namespace Settled

variable {ftl : ConvFtl}

/-- A line in the queue is closed, and its counts are those of its pages. -/
theorem of_item (h : Settled ftl) {l : Nat} (hl : l ∈ ftl.lm.victimLinePq.items) :
    ftl.Reclaimable l ∧ (ftl.lm.lines l).vpc = ftl.validPages l ∧
      (ftl.lm.lines l).vpc + (ftl.lm.lines l).ipc = ftl.ssd.sp.pgsPerLine := by
  obtain ⟨place, c, hheld⟩ := h.core
  obtain ⟨hlt, hplace⟩ := c.placed.of_item hl
  have hline := c.lineOk l hlt
  rw [hplace] at hline
  have hcount := c.lineCount l (hheld l) hlt
  refine ⟨⟨hlt, fun hfree => ?_, fun s hs => ?_, ?_⟩, hcount.vpc, hline.2⟩
  · have hf := (c.placed.mem_free.mp hfree).2
    rw [hplace] at hf
    cases hf
  · have hopen := (c.curline_place s).2
    rw [hs, hplace] at hopen
    cases hopen
  · have hipc : 0 < tally (ftl.ssd.sp.linePages l) (pgStatus ftl.ssd.blk) .invalid :=
      hcount.ipc ▸ hline.1
    obtain ⟨p, hp⟩ := Finset.card_pos.mp hipc
    obtain ⟨hmem, hinv⟩ := Finset.mem_filter.mp hp
    exact ⟨p, hmem, hinv⟩

/-- A closed line with an invalid page is in the queue. -/
theorem item_of (h : Settled ftl) {l : Nat} (hl : ftl.Reclaimable l) :
    l ∈ ftl.lm.victimLinePq.items := by
  obtain ⟨place, c, hheld⟩ := h.core
  refine c.placed.mem_items.mpr (c.placed.queued.mpr ⟨hl.lt, ?_⟩)
  cases hplace : place l with
  | victim => rfl
  | free => exact absurd (c.placed.mem_free.mpr ⟨hl.lt, hplace⟩) hl.written
  | opened s =>
    have hcur := c.placed.cur_eq.mpr ⟨hl.lt, hplace⟩
    exact absurd (Option.some.inj hcur) (hl.closed s)
  | held => exact absurd hplace (hheld l)
  | full =>
    -- a full line has no invalid page
    have hline := c.lineOk l hl.lt
    rw [hplace] at hline
    have hcount := (c.lineCount l (hheld l) hl.lt).ipc
    obtain ⟨p, hmem, hinv⟩ := hl.stale
    have hpos : 0 < tally (ftl.ssd.sp.linePages l) (pgStatus ftl.ssd.blk) .invalid :=
      Finset.card_pos.mpr ⟨p, Finset.mem_filter.mpr ⟨hmem, hinv⟩⟩
    have hzero : (ftl.lm.lines l).ipc = 0 := hline.2
    exact absurd (hcount.symm.trans hzero) hpos.ne'

/-- The queue holds the lines a collection may take. -/
theorem mem_items_iff (h : Settled ftl) (l : Nat) :
    l ∈ ftl.lm.victimLinePq.items ↔ ftl.Reclaimable l :=
  ⟨fun hl => (h.of_item hl).1, h.item_of⟩

/-- The root of the queue keeps the fewest valid pages. -/
theorem fewestValid_root (h : Settled ftl) (hne : ftl.lm.victimLinePq.size ≠ 1) :
    FewestValid ftl (ftl.lm.victimLinePq.d 1) := by
  obtain ⟨place, c, _⟩ := h.core
  have hsize : 0 < ftl.lm.victimLinePq.size := c.placed.queue.size_pos
  have hroot : ftl.lm.victimLinePq.d 1 ∈ ftl.lm.victimLinePq.items :=
    Pqueue.mem_items.mpr ⟨1, Nat.one_pos, by omega, rfl⟩
  obtain ⟨hrec, hvalid, hsum⟩ := h.of_item hroot
  have hmin : ∀ l, ftl.Reclaimable l →
      (ftl.lm.lines (ftl.lm.victimLinePq.d 1)).vpc ≤ (ftl.lm.lines l).vpc := by
    intro l hl
    obtain ⟨i, hi0, hi, rfl⟩ := Pqueue.mem_items.mp (h.item_of hl)
    exact c.placed.queue.root_le i hi0 hi
  refine ⟨hrec, hmin, fun l hl => ?_, fun l hl => ?_⟩
  · have hle := hmin l hl
    have hsum' := (h.of_item (h.item_of hl)).2.2
    omega
  · rw [← hvalid, ← (h.of_item (h.item_of hl)).2.1]
    exact hmin l hl

end Settled

/-! ## The selection -/

/-- The answer of `select_victim_greedy`: a line with the fewest valid pages, or nothing when it was
not forced and every candidate keeps more than an eighth of its pages. -/
structure GreedyAnswer (ftl : ConvFtl) (force : Bool) (ftl' : ConvFtl) (victim : Option Nat) :
    Prop where
  none_iff : victim = none ↔
    force = false ∧ ∀ l, ftl.Reclaimable l → ftl.ssd.sp.pgsPerLine / 8 < (ftl.lm.lines l).vpc
  unchanged : victim = none → ftl' = ftl
  fewest : ∀ v, victim = some v → FewestValid ftl v

/-- On a settled instance with a queued line, greedy answers the root or nothing. -/
theorem Settled.greedyAnswer {ftl : ConvFtl} (h : Settled ftl)
    (hne : ftl.lm.victimLinePq.size ≠ 1) (force : Bool) :
    ∃ ftl' victim, selectVictimGreedy ftl force = pure (ftl', victim) ∧
      GreedyAnswer ftl force ftl' victim := by
  have hroot := h.fewestValid_root hne
  have hpeek : ftl.lm.victimLinePq.peek = some (ftl.lm.victimLinePq.d 1) := if_neg hne
  refine ⟨_, _, rfl, ?_⟩
  unfold LineMgmt.selectVictimGreedy
  rw [hpeek]
  dsimp only
  split
  · rename_i hsparse
    refine ⟨iff_of_true rfl ⟨hsparse.1, fun l hl => ?_⟩, fun _ => rfl, nofun⟩
    exact hsparse.2.trans_le (hroot.vpc_le l hl)
  · rename_i hdense
    refine ⟨iff_of_false nofun fun hh => hdense ⟨hh.1, hh.2 _ hroot.reclaimable⟩, nofun, ?_⟩
    rintro v hv
    cases hv
    exact hroot

/-- A collection with greedy copies as few pages as a collection of any line would. -/
theorem Settled.greedy_copies {ftl : ConvFtl} (h : Settled ftl)
    (hne : ftl.lm.victimLinePq.size ≠ 1) {mode : GcMode} (hmode : mode ≠ .rl) (force : Bool) :
    Ensures (fun _ => True) (doGc ftl mode force (some selectVictimGreedy)) fun r =>
      ∀ l, ftl.Reclaimable l → r.1.gcCopiedPages ≤ ftl.gcCopiedPages + ftl.validPages l := by
  obtain ⟨place, c, hheld⟩ := h.core
  obtain ⟨ftl', victim, hrun, hanswer⟩ := h.greedyAnswer hne force
  obtain ⟨hkept, hspec⟩ := (selectVictimGreedy_selects (fun _ => True) ftl force _ place
    c.placed).of_run (s := .zero) (a := (ftl', victim)) (by rw [hrun]; rfl)
  unfold doGc gcSelect
  rw [if_neg hmode]
  dsimp only
  rw [hrun, pure_bind]
  dsimp only at hkept ⊢
  cases victim with
  | none =>
    refine .pure fun l _ => ?_
    rw [hanswer.unchanged rfl]
    exact Nat.le_add_right ..
  | some v =>
    have hfewest := hanswer.fewest v rfl
    have hhand : InHand ftl' v := ⟨ftl, place, ftl'.lm, ftl.rl, h, c, hheld, hspec, hkept⟩
    have hvpc : (ftl'.lm.lines v).vpc = ftl.validPages v := by
      have hs : LineMgmt.Selected ftl.lm ftl'.lm (fun s => some (ftl.wp s).curline) place v := hspec
      rw [hs.kept.vpc v]
      exact (h.of_item (h.item_of hfewest.reclaimable)).2.1
    dsimp only
    rw [gcCollect_eq]
    refine Ensures.bind ((gcReclaim_inHand hhand mode).bind fun ftl₁ ⟨_, _, hcopied, _⟩ =>
      (rlFinish_ensures ftl₁ mode).mono fun ftl₂ ⟨rl, hrl⟩ => ?_) fun ftl₂ hle => .pure hle
    intro l hl
    have hle := hfewest.copies_le l hl
    have hsame : ftl'.gcCopiedPages = ftl.gcCopiedPages := by rw [hkept]
    rw [hrl]
    show ftl₁.gcCopiedPages ≤ _
    omega

/-- At every moment of a run but those at which `do_gc` already has its victim in hand, a non-empty
queue makes greedy answer a line with the fewest valid pages of all closed lines that have an
invalid one; unforced, it answers nothing exactly when that fewest exceeds an eighth of a line. A
collection with greedy then copies the fewest pages. Lines that are open, and full lines without an
invalid page, are not in the queue. While the victim is in hand it has left the queue and nothing is
selected. -/
theorem greedy_optimal {cp : ConvParams} {spp : SsdParams} (w : spp.WellFormed) {m : Moment}
    (h : (phases cp spp spp.LocalLpn).Reachable m) (hidle : ∀ mode v, m.phase ≠ .clean mode v)
    (hne : m.ftl.lm.victimLinePq.size ≠ 1) (force : Bool) :
    (∃ ftl' victim, selectVictimGreedy m.ftl force = pure (ftl', victim) ∧
      GreedyAnswer m.ftl force ftl' victim) ∧
    ∀ mode, mode ≠ .rl →
      Ensures (fun _ => True) (doGc m.ftl mode force (some selectVictimGreedy)) fun r =>
        ∀ l, m.ftl.Reclaimable l →
          r.1.gcCopiedPages ≤ m.ftl.gcCopiedPages + m.ftl.validPages l := by
  have hset : Settled m.ftl := by
    have hordered := ((phases_ordered w fun _ => id).reachable h).1
    unfold Moment.Ordered at hordered
    cases hphase : m.phase with
    | clean mode v => exact absurd hphase (hidle mode v)
    | _ =>
      rw [hphase] at hordered
      exact hordered
  exact ⟨hset.greedyAnswer hne force, fun mode hmode => hset.greedy_copies hne hmode force⟩

/-- The victim of greedy is the one the line management selects. -/
theorem selectVictimGreedy_eq {ftl ftl' : ConvFtl} {force : Bool} {victim : Option Nat}
    (h : selectVictimGreedy ftl force = pure (ftl', victim)) :
    victim = (ftl.lm.selectVictimGreedy ftl.ssd.sp force).2 := by
  have hrun : ((ftl', victim), Env.zero) =
      (({ ftl with lm := (ftl.lm.selectVictimGreedy ftl.ssd.sp force).1 },
        (ftl.lm.selectVictimGreedy ftl.ssd.sp force).2), Env.zero) :=
    (Except.ok.inj (congrArg (fun m : FtlM (ConvFtl × Option Nat) => m.run Env.zero) h)).symm
  obtain ⟨heq, _⟩ := Prod.mk.inj hrun
  exact (Prod.mk.inj heq).2

/-- Two pages and the first of them again: the full line 0 has gone to the queue with one valid page of
two, which is more than an eighth, so greedy takes it only when it is forced to. -/
theorem greedy_optimal_small : ∃ m, (phases smallConv smallParams smallParams.LocalLpn).Reachable m ∧
    m.ftl.lm.victimLinePq.size = 2 ∧
      (∃ ftl', selectVictimGreedy m.ftl true = pure (ftl', some 0) ∧ FewestValid m.ftl 0) ∧
      selectVictimGreedy m.ftl false = pure (m.ftl, none) := by
  have hrun : tests (writeAll smallConv smallParams [0, 1, 0]) .zero (fun ftl =>
      ftl.lm.victimLinePq.size == 2 && ((ftl.lm.selectVictimGreedy ftl.ssd.sp true).2 == some 0 &&
        (ftl.lm.selectVictimGreedy ftl.ssd.sp false).2 == none)) = true := by decide +kernel
  obtain ⟨ftl, env', hrun, htest⟩ := exists_of_tests hrun
  obtain ⟨hsize, htest⟩ := Bool.and_eq_true_iff.mp htest
  obtain ⟨hforced, hrefused⟩ := Bool.and_eq_true_iff.mp htest
  have hsize : ftl.lm.victimLinePq.size = 2 := eq_of_beq hsize
  have hin : ∀ lpn ∈ [0, 1, 0], lpn < smallParams.ttPgs := by decide
  obtain ⟨history, hreach⟩ := pageWrites_phases (writeAll_path hin hrun).reachable
  have hlaw := fun force =>
    (greedy_optimal smallParams_wellFormed hreach nofun (by rw [hsize]; decide) force).1
  refine ⟨_, hreach, hsize, ?_, ?_⟩
  · obtain ⟨ftl', victim, hselect, hanswer⟩ := hlaw true
    obtain rfl := selectVictimGreedy_eq hselect
    rw [eq_of_beq hforced] at hanswer hselect
    exact ⟨ftl', hselect, hanswer.fewest 0 rfl⟩
  · obtain ⟨ftl', victim, hselect, hanswer⟩ := hlaw false
    obtain rfl := selectVictimGreedy_eq hselect
    rw [hselect, hanswer.unchanged (eq_of_beq hrefused), eq_of_beq hrefused]

end NvmeVirt

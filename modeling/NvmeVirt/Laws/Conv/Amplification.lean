import NvmeVirt.Laws.Conv.Accounting
import NvmeVirt.Laws.Conv.Capacity
import NvmeVirt.Laws.Conv.Greedy

/-!
# Write amplification

A collection erases a line and copies what is valid in it, so that what the collections copied so
far is at most so much for each line they erased (`Billed`); and every erased line was filled by
page writes of the host or by copies. The greedy victim keeps no more than the average of the closed
lines, which share what the host has mapped. The two bounds on the copies follow.

`Billed` is an invariant of `phases`, for any price of a victim (`phases_billed`); `Cheap` says what
a price is, and there are two: all but one of the pages of a line (`cheap_any`), and for a greedy
victim the share of a closed line (`cheap_greedy`, from `fewest_share`). `copies_of_part` solves the
inequality for the copies.

Nothing is said of the other policies beyond the first bound, which holds of any.
-/

set_option autoImplicit false

namespace NvmeVirt

open Outcome

/-! ## The share of a victim -/

namespace ConvFtl

/-- The lines the write pointers stand in. -/
def openLines (ftl : ConvFtl) : Finset Nat :=
  {(ftl.wp .userIo).curline, (ftl.wp .gcIoHot).curline, (ftl.wp .gcIoCold).curline}

/-- A write pointer is on an open line. -/
theorem mem_openLines (ftl : ConvFtl) (s : Stream) : (ftl.wp s).curline ∈ ftl.openLines := by
  cases s <;> simp [openLines]

/-- The closed lines: neither free nor open for a write pointer. -/
def closedLines (ftl : ConvFtl) : Finset Nat :=
  Finset.range ftl.lm.ttLines \ (ftl.lm.freeLineList.toFinset ∪ ftl.openLines)

end ConvFtl

namespace Settled

variable {ftl : ConvFtl}

/-- All lines but the free and three others are closed. -/
theorem ttLines_le_closed (h : Settled ftl) :
    ftl.lm.ttLines ≤ ftl.lm.freeLineCnt + ftl.closedLines.card + 3 := by
  obtain ⟨place, c, _⟩ := h.core
  have hfree : ftl.lm.freeLineCnt = ftl.lm.freeLineList.length := c.placed.freeCnt
  have hopen : (ftl.lm.freeLineList.toFinset ∪ ftl.openLines).card ≤ ftl.lm.freeLineCnt + 3 :=
    (Finset.card_union_le _ _).trans
      (Nat.add_le_add (hfree ▸ List.toFinset_card_le _) Finset.card_le_three)
  have hrest := Finset.le_card_sdiff (ftl.lm.freeLineList.toFinset ∪ ftl.openLines)
    (Finset.range ftl.lm.ttLines)
  rw [Finset.card_range] at hrest
  have hclosed : ftl.lm.ttLines - _ ≤ ftl.closedLines.card := hrest
  omega

/-- The line with the fewest valid pages keeps no more than any closed line has mapped. -/
theorem fewest_le (h : Settled ftl) {v l : Nat} (hv : FewestValid ftl v) (hl : l ∈ ftl.closedLines) :
    (ftl.lm.lines v).vpc ≤ ftl.mappedInto l := by
  obtain ⟨place, c, hheld⟩ := h.core
  obtain ⟨hlt, hnot⟩ := Finset.mem_sdiff.mp hl
  have hlt := Finset.mem_range.mp hlt
  rw [← h.vpc_eq_mappedInto c hlt (hheld l)]
  by_cases hq : l ∈ ftl.lm.victimLinePq.items
  · exact hv.vpc_le l ((h.mem_items_iff l).mp hq)
  · -- a closed line outside the queue is full
    have hline := c.lineOk l hlt
    cases hplace : place l with
    | full =>
      rw [hplace] at hline
      have hfull : (ftl.lm.lines l).vpc = ftl.ssd.sp.pgsPerLine := hline.1
      have hsum := (h.of_item (h.item_of hv.reclaimable)).2.2
      omega
    | victim => exact absurd (c.placed.mem_items.mpr (c.placed.queued.mpr ⟨hlt, hplace⟩)) hq
    | free =>
      have hfree := List.mem_toFinset.mpr (c.placed.mem_free.mpr ⟨hlt, hplace⟩)
      exact absurd (Finset.mem_union_left _ hfree) hnot
    | opened s =>
      have hcur : (ftl.wp s).curline = l := Option.some.inj (c.placed.cur_eq.mpr ⟨hlt, hplace⟩)
      exact absurd (Finset.mem_union_right _ (hcur ▸ ftl.mem_openLines s)) hnot
    | held => exact absurd hplace (hheld l)

/-- The closed lines share the mapped pages, and the greedy victim has no more than its share. -/
theorem fewest_share (h : Settled ftl) {v n free : Nat} (hv : FewestValid ftl v)
    (hn : ∀ lpn, (ftl.maptbl lpn).isSome → lpn < n) (hfree : ftl.lm.freeLineCnt ≤ free) :
    (ftl.lm.lines v).vpc * (ftl.lm.ttLines - free - 3) ≤ n := by
  have hclosed := h.ttLines_le_closed
  calc (ftl.lm.lines v).vpc * (ftl.lm.ttLines - free - 3)
      ≤ (ftl.lm.lines v).vpc * ftl.closedLines.card := Nat.mul_le_mul_left _ (by omega)
    _ = ∑ _l ∈ ftl.closedLines, (ftl.lm.lines v).vpc := by
        rw [Finset.sum_const_nat fun _ _ => rfl, Nat.mul_comm]
    _ ≤ ∑ l ∈ ftl.closedLines, ftl.mappedInto l := Finset.sum_le_sum fun l hl => h.fewest_le hv hl
    _ ≤ n := ftl.sum_mappedInto_le _ hn

/-- A greedy selection that finds a victim finds one with the fewest valid pages. -/
theorem gcSelect_fewest (h : Settled ftl) {mode : GcMode} (hmode : mode ≠ .rl)
    (hselect : mode.selectFn = some selectVictimGreedy) {ftl' : ConvFtl} {v : Nat} {env env' : Env}
    (hrun : (gcSelect ftl mode true mode.selectFn).run env = .ok ((ftl', some v), env')) :
    FewestValid ftl v := by
  have hne : ftl.lm.victimLinePq.size ≠ 1 := by
    obtain ⟨place, c, _⟩ := h.core
    have hspec := ((gcSelect_ensures (E := fun _ => True) c mode true mode.selectFn_selects).of_run
      hrun).2
    have hs : LineMgmt.Selected ftl.lm ftl'.lm (fun s => some (ftl.wp s).curline) place v := hspec
    have hitem : v ∈ ftl.lm.victimLinePq.items :=
      c.placed.mem_items.mpr (c.placed.queued.mpr ⟨hs.lt, hs.victim⟩)
    obtain ⟨i, hi0, hi, _⟩ := Pqueue.mem_items.mp hitem
    omega
  obtain ⟨ftl₁, victim, hpure, hanswer⟩ := h.greedyAnswer hne true
  unfold gcSelect at hrun
  rw [if_neg hmode, hselect] at hrun
  dsimp only at hrun
  rw [hpure] at hrun
  cases run_pure hrun
  exact hanswer.fewest v rfl

end Settled

/-! ## The bill of the collections -/

/-- What the collections copied is at most `share / lines` pages for each line they erased, and so is
what the one under way has to copy. The counters agree with the page states, and only pages below `n`
are mapped. -/
structure Billed (cp : ConvParams) (n lines share : Nat) (m : Moment) : Prop where
  cp : m.ftl.cp = cp
  accounted : Accounted m.ftl
  mapped : ∀ lpn, (m.ftl.maptbl lpn).isSome → lpn < n
  paid : m.ftl.gcCopiedPages * lines ≤ m.ftl.gcCount * share
  due : ∀ mode v, m.phase = .clean mode v → (m.ftl.lm.lines v).vpc * lines ≤ share

theorem SameAccount.refl (ftl : ConvFtl) : SameAccount ftl ftl :=
  ⟨rfl, rfl, fun _ => rfl, rfl, ⟨rfl, rfl, fun _ => rfl, fun _ => rfl, rfl⟩⟩

theorem SameAccount.symm {ftl ftl' : ConvFtl} (h : SameAccount ftl ftl') : SameAccount ftl' ftl where
  sp := h.sp.symm
  ttLines := h.ttLines.symm
  status p := (h.status p).symm
  hostWrittenPages := h.hostWrittenPages.symm
  wear := ⟨h.wear.gcCount.symm, h.wear.gcCopiedPages.symm, fun l => (h.wear.lineErase l).symm,
    fun b => (h.wear.blkErase b).symm, h.wear.wgs.symm⟩

/-- Neither the order of the queue nor the learner nor the credits matter to the account. -/
theorem sameAccount_lm (ftl : ConvFtl) {lm : LineMgmt} (hk : LineMgmt.Kept ftl.lm.lines lm.lines)
    (htt : lm.ttLines = ftl.lm.ttLines) (rl : RlConfig) (wfc : WriteFlowControl) :
    SameAccount ftl { ftl with lm, rl, wfc } :=
  ⟨rfl, htt, fun _ => rfl, rfl, ⟨rfl, rfl, hk.eraseCnt, fun _ => rfl, rfl⟩⟩

/-- Under `P`, a victim keeps at most `share / lines` valid pages. -/
def Cheap (P : Moment → LoopStep → Prop) (cp : ConvParams) (spp : SsdParams) (n lines share : Nat) :
    Prop :=
  ∀ (ftl : ConvFtl) (history : GcHistory) (mode : GcMode) (ftl' : ConvFtl) (v : Nat) (env env' : Env),
    P ⟨ftl, .credit, history⟩ (.select mode) → Settled ftl → ftl.ssd.sp = spp → ftl.cp = cp →
    (∀ lpn, (ftl.maptbl lpn).isSome → lpn < n) → ftl.shouldGcHigh = true →
    (gcSelect ftl mode true mode.selectFn).run env = .ok ((ftl', some v), env') →
    (ftl'.lm.lines v).vpc * lines ≤ share

section Steps

variable {cp : ConvParams} {spp : SsdParams} {inside : Nat → Prop} {n lines share : Nat}
  {ftl ftl' : ConvFtl} {history history' : GcHistory}

/-- A step that leaves the account alone. -/
theorem Billed.aside {phase phase' : Phase} (h : Billed cp n lines share ⟨ftl, phase, history⟩)
    (hs : SameAccount ftl ftl') (hcp : ftl'.cp = ftl.cp) (hmaptbl : ftl'.maptbl = ftl.maptbl)
    (hidle : ∀ mode v, phase' ≠ .clean mode v) :
    Billed cp n lines share ⟨ftl', phase', history'⟩ where
  cp := hcp.trans h.cp
  accounted := h.accounted.congr hs
  mapped lpn hl := h.mapped lpn (hmaptbl ▸ hl)
  paid := by
    show ftl'.gcCopiedPages * lines ≤ ftl'.gcCount * share
    rw [hs.wear.gcCopiedPages, hs.wear.gcCount]
    exact h.paid
  due mode v hphase := absurd hphase (hidle mode v)

/-- A page write pays nothing and fills a page. -/
theorem Billed.pageWritten (h : Billed cp n lines share ⟨ftl, .write, history⟩) (h₀ : Settled ftl)
    (h₁ : Settled ftl') {lpn : Nat} (hlt : lpn < n) (hw : PageWritten ftl lpn ftl') :
    Billed cp n lines share ⟨ftl', .credit, history⟩ where
  cp := hw.cp.trans h.cp
  accounted := h.accounted.pageWritten h₀ h₁ hw
  mapped l hl := by
    by_cases hll : l = lpn
    · exact hll ▸ hlt
    · have hl : (ftl'.maptbl l).isSome := hl
      rw [hw.others l hll] at hl
      exact h.mapped l hl
  paid := by
    show ftl'.gcCopiedPages * lines ≤ ftl'.gcCount * share
    rw [hw.wear.gcCopiedPages, hw.wear.gcCount]
    exact h.paid
  due _ _ hphase := Phase.noConfusion hphase

/-- The victim in hand is cheap. -/
theorem Billed.selected (h : Billed cp n lines share ⟨ftl, .credit, history⟩) {mode : GcMode}
    {v : Nat} {lm : LineMgmt} (hk : LineMgmt.Kept ftl.lm.lines lm.lines)
    (htt : lm.ttLines = ftl.lm.ttLines) (rl : RlConfig) (hcheap : (lm.lines v).vpc * lines ≤ share) :
    Billed cp n lines share ⟨{ ftl with lm, rl }, .clean mode v, history'⟩ where
  cp := h.cp
  accounted := h.accounted.congr (sameAccount_lm ftl hk htt rl ftl.wfc)
  mapped := h.mapped
  paid := h.paid
  due mode' v' hphase := by
    cases hphase
    exact hcheap

/-- The bill is paid. -/
theorem Billed.collected {mode : GcMode} {v : Nat} (hhand : InHand ftl v)
    (h : Billed cp n lines share ⟨ftl, .clean mode v, history⟩) :
    Ensures (fun _ => True) (gcReclaim ftl mode v) fun r =>
      Billed cp n lines share ⟨r, .finish mode, history⟩ := by
  obtain ⟨ftl₀, place, lm, rl, hset, c, hheld, hs, rfl⟩ := hhand
  refine (gcReclaim_ensures hset c hheld hs rl mode (.inl trivial)).mono ?_
  rintro r ⟨hset', hc, hcounted, _⟩
  have hsame := sameAccount_lm ftl₀ hs.kept hs.ttLines rl ftl₀.wfc
  have hacc : Accounted ftl₀ := h.accounted.congr hsame.symm
  refine ⟨hc.cp.trans h.cp, hacc.collected hset hset' hc hcounted, fun lpn hl => ?_, ?_, ?_⟩
  · exact h.mapped lpn ((hc.mapped lpn).mp hl)
  · have hpaid : ftl₀.gcCopiedPages * lines ≤ ftl₀.gcCount * share := h.paid
    have hdue : (lm.lines v).vpc * lines ≤ share := h.due mode v rfl
    rw [hs.kept.vpc v] at hdue
    show r.gcCopiedPages * lines ≤ r.gcCount * share
    rw [hc.copied, hcounted.gcCount, Nat.add_mul, Nat.add_mul, Nat.one_mul]
    exact Nat.add_le_add hpaid hdue
  · exact fun _ _ hphase => Phase.noConfusion hphase

end Steps

/-- Where victims are cheap, the collections are. -/
theorem phases_billed {cp : ConvParams} {spp : SsdParams} (w : spp.WellFormed) {inside : Nat → Prop}
    (hinside : ∀ lpn, inside lpn → spp.LocalLpn lpn) {n lines share : Nat}
    (hn : ∀ lpn, inside lpn → lpn < n) {P : Moment → LoopStep → Prop}
    (hcheap : Cheap P cp spp n lines share) :
    ((phases cp spp inside).guarded P).Invariant fun m =>
      (m.Ordered ∧ m.ftl.ssd.sp = spp) ∧ Billed cp n lines share m := by
  refine (phases_ordered w hinside).guarded.of_rel ?_ ?_
  · rintro ⟨ftl, phase, history⟩ ⟨env, env', hrun, hphase, _⟩
    have hf := (convInitFtl_ensures (E := fun _ => True) w cp (.inl trivial)).of_run hrun
    dsimp only at hphase hrun hf
    subst hphase
    refine ⟨hf.cp, hf.accounted, fun lpn hl => ?_, ?_, fun _ _ hphase => Phase.noConfusion hphase⟩
    · have hl : (ftl.maptbl lpn).isSome := hl
      rw [hf.maptbl] at hl
      cases hl
    · show ftl.gcCopiedPages * lines ≤ _
      rw [hf.gcCopiedPages, Nat.zero_mul]
      exact Nat.zero_le _
  · rintro m l m' ⟨hord, hsp⟩ h ⟨hP, hstep⟩
    cases hstep with
    | write hin hrun =>
      have hset : Settled _ := hord
      obtain ⟨hset', hw, _⟩ := (convWritePageBody_ensures (E := fun _ => True) hset
        (hsp ▸ hinside _ hin) _ (.inl trivial)).of_run hrun
      exact h.pageWritten hset hset' (hn _ hin) hw
    | kept _ =>
      exact h.aside (.refl _) rfl rfl fun _ _ => Phase.noConfusion
    | skipped _ _ =>
      exact h.aside (sameAccount_lm _ (.of_offQueue rfl) rfl _ _) rfl rfl fun _ _ => Phase.noConfusion
    | selected _ hgc hrun =>
      have hset : Settled _ := hord
      have hle := hcheap _ _ _ _ _ _ _ hP hset hsp h.cp h.mapped hgc hrun
      obtain ⟨place, c, _⟩ := hset.core
      obtain ⟨⟨rl, _, heq⟩, hspec⟩ := (gcSelect_ensures (E := fun _ => True) c _ true
        (GcMode.selectFn_selects _)).of_run hrun
      have hs : LineMgmt.Selected _ _ _ place _ := hspec
      dsimp only at heq
      rw [heq]
      exact h.selected hs.kept hs.ttLines rl hle
    | noVictim _ _ hrun =>
      have hset : Settled _ := hord
      obtain ⟨place, c, _⟩ := hset.core
      obtain ⟨⟨rl, _, heq⟩, hspec⟩ := (gcSelect_ensures (E := fun _ => True) c _ true
        (GcMode.selectFn_selects _)).of_run hrun
      dsimp only at heq
      obtain ⟨hlm, _⟩ := hspec
      dsimp only at hlm
      rw [hlm] at heq
      rw [heq]
      exact h.aside (sameAccount_lm _ (.of_offQueue rfl) rfl _ _) rfl rfl fun _ _ => Phase.noConfusion
    | cleaned hrun => exact (Billed.collected hord h).of_run hrun
    | finished hrun =>
      obtain ⟨rl, rfl⟩ := (rlFinish_ensures (E := fun _ => True) _ _).of_run hrun
      exact h.aside (sameAccount_lm _ (.of_offQueue rfl) rfl _ _) rfl rfl fun _ _ => Phase.noConfusion

/-! ## What victims cost -/

section Cost

variable {cp : ConvParams} {spp : SsdParams} {n : Nat}

/-- Any policy answers a line with an invalid page. -/
theorem cheap_any : Cheap (fun _ _ => True) cp spp n 1 (spp.pgsPerLine - 1) := by
  intro ftl history mode ftl' v env env' _ hset hsp _ _ _ hrun
  obtain ⟨hssd, _, _, hhand⟩ := (gcSelect_inHand (E := fun _ => True) hset mode).of_run hrun
  have hlt := InHand.vpc_lt (v := v) hhand
  have hsp' : ftl'.ssd.sp = spp := (congrArg Ssd.sp hssd).trans hsp
  rw [hsp'] at hlt
  rw [Nat.mul_one]
  exact Nat.le_sub_one_of_lt hlt

/-- Every collection so far was greedy. -/
def GreedyOnly (_ : Moment) (l : LoopStep) : Prop :=
  ∀ mode, l = .select mode → mode.selectFn = some selectVictimGreedy

/-- What a greedy victim costs. -/
theorem cheap_greedy :
    Cheap GreedyOnly cp spp n (spp.ttLines - cp.gcThresLinesHigh - 3) n := by
  intro ftl history mode ftl' v env env' hP hset hsp hcp hn hgc hrun
  have hselect := hP mode rfl
  have hmode : mode ≠ .rl := by
    rintro rfl
    cases hselect
  have hfewest := hset.gcSelect_fewest hmode hselect hrun
  have hfree : ftl.lm.freeLineCnt ≤ cp.gcThresLinesHigh := hcp ▸ of_decide_eq_true hgc
  have hshare := hset.fewest_share hfewest hn hfree
  obtain ⟨place, c, _⟩ := hset.core
  obtain ⟨_, hspec⟩ := (gcSelect_ensures (E := fun _ => True) c mode true
    mode.selectFn_selects).of_run hrun
  have hs : LineMgmt.Selected ftl.lm ftl'.lm (fun s => some (ftl.wp s).curline) place v := hspec
  rw [hs.kept.vpc v, ← hsp, ← hset.ttLines_eq]
  exact hshare

end Cost

/-! ## The law -/

/-- Every erased line was filled by page writes of the host and by copies. -/
theorem Accounted.gcCount_le {ftl : ConvFtl} (h : Accounted ftl) :
    ftl.gcCount * ftl.ssd.sp.pgsPerLine ≤ ftl.hostWrittenPages + ftl.gcCopiedPages := by
  rw [h.pages, h.gcCount, Nat.mul_comm]
  exact Nat.le_add_left ..

/-- The copies so far against all pages programmed. -/
theorem Billed.copied_le {cp : ConvParams} {n lines share : Nat} {m : Moment}
    (h : Billed cp n lines share m) :
    m.ftl.gcCopiedPages * (lines * m.ftl.ssd.sp.pgsPerLine) ≤
      (m.ftl.hostWrittenPages + m.ftl.gcCopiedPages) * share :=
  calc m.ftl.gcCopiedPages * (lines * m.ftl.ssd.sp.pgsPerLine)
      = m.ftl.gcCopiedPages * lines * m.ftl.ssd.sp.pgsPerLine := (Nat.mul_assoc ..).symm
    _ ≤ m.ftl.gcCount * share * m.ftl.ssd.sp.pgsPerLine := Nat.mul_le_mul_right _ h.paid
    _ = m.ftl.gcCount * m.ftl.ssd.sp.pgsPerLine * share := Nat.mul_right_comm ..
    _ ≤ _ := Nat.mul_le_mul_right _ h.accounted.gcCount_le

/-- The copies for each page the host wrote, when copies are a part of all pages programmed. -/
theorem copies_of_part {copied host whole share : Nat}
    (h : copied * whole ≤ (host + copied) * share) : copied * (whole - share) ≤ host * share := by
  rw [Nat.add_mul] at h
  rw [Nat.mul_sub]
  omega

section Law

variable {cp : ConvParams} {spp : SsdParams} {inside : Nat → Prop} {m : Moment}

/-- The bound for any victims. -/
theorem copies_any (w : spp.WellFormed) (hinside : ∀ lpn, inside lpn → spp.LocalLpn lpn)
    (h : (phases cp spp inside).Reachable m) :
    m.ftl.gcCopiedPages ≤ m.ftl.hostWrittenPages * (spp.pgsPerLine - 1) := by
  have hall : ((phases cp spp inside).guarded fun _ _ => True).Reachable m := by
    induction h with
    | init h₀ => exact .init h₀
    | step _ hstep ih => exact ih.guarded_step hstep trivial
  obtain ⟨⟨_, hsp⟩, hbilled⟩ := (phases_billed w hinside hinside cheap_any).reachable hall
  have hle := copies_of_part hbilled.copied_le
  rw [hsp, Nat.one_mul] at hle
  have hpos := w.pgsPerLine_pos
  have hone : spp.pgsPerLine - (spp.pgsPerLine - 1) = 1 := by omega
  rwa [hone, Nat.mul_one] at hle

/-- The bound for greedy ones. -/
theorem copies_greedy (w : spp.WellFormed) (hinside : ∀ lpn, inside lpn → spp.LocalLpn lpn) {n : Nat}
    (hn : ∀ lpn, inside lpn → lpn < n)
    (h : ((phases cp spp inside).guarded GreedyOnly).Reachable m) :
    m.ftl.gcCopiedPages * ((spp.ttLines - cp.gcThresLinesHigh - 3) * spp.pgsPerLine - n) ≤
      m.ftl.hostWrittenPages * n := by
  obtain ⟨⟨_, hsp⟩, hbilled⟩ := (phases_billed w hinside hn cheap_greedy).reachable h
  have hle := copies_of_part hbilled.copied_le
  rwa [hsp] at hle

/-- On a 970PRO device greedy copies less than ten pages for each page of the host. -/
theorem copies_970Pro {size : Nat} (hpos : 1 ≤ (params970Pro size).pgsPerBlk)
    (hle : (params970Pro size).pgsPerBlk ≤ 65536) {part : Nat}
    (h : ((phases (cp970Pro size) (params970Pro size) (InNamespace size part)).guarded
      GreedyOnly).Reachable m) :
    m.ftl.gcCopiedPages * 169 ≤ m.ftl.hostWrittenPages * 1600 := by
  have w := params970Pro_wellFormed hpos hle
  have hp := params970Pro_is size
  have hgreedy := copies_greedy w (fun _ => inNamespace_local) (fun _ => inNamespace_lt) h
  have hthres : (cp970Pro size).gcThresLinesHigh = 276 := (ample_970Pro hpos hle).threshold
  rw [hthres, hp.ttLines, ← Nat.sub_mul] at hgreedy
  have hppl := w.pgsPerLine_pos
  refine Nat.le_of_mul_le_mul_right ?_ hppl
  rw [Nat.mul_assoc, Nat.mul_assoc]
  exact hgreedy

/-- In every run the collections copied at most the pages of a line but one for each page the host
wrote. When all were greedy, and the host writes `n` logical pages at most, the lines that are
closed whenever a collection starts share these `n`: with `L` such lines of `k` pages, at most `n /
(L * k - n)` pages were copied for each page of the host. On a 970PRO device that is less than ten.
The counters of pages are as large as they need to be, where the source has 64 bits. -/
theorem write_amplification_bounded (w : spp.WellFormed)
    (hinside : ∀ lpn, inside lpn → spp.LocalLpn lpn) :
    (∀ m, (phases cp spp inside).Reachable m →
      m.ftl.gcCopiedPages ≤ m.ftl.hostWrittenPages * (spp.pgsPerLine - 1)) ∧
    (∀ n m, (∀ lpn, inside lpn → lpn < n) →
      ((phases cp spp inside).guarded GreedyOnly).Reachable m →
        m.ftl.gcCopiedPages *
            ((spp.ttLines - cp.gcThresLinesHigh - 3) * spp.pgsPerLine - n) ≤
          m.ftl.hostWrittenPages * n) ∧
    ∀ size part m, 1 ≤ (params970Pro size).pgsPerBlk → (params970Pro size).pgsPerBlk ≤ 65536 →
      ((phases (cp970Pro size) (params970Pro size) (InNamespace size part)).guarded
        GreedyOnly).Reachable m →
        m.ftl.gcCopiedPages * 169 ≤ m.ftl.hostWrittenPages * 1600 :=
  ⟨fun _ => copies_any w hinside, fun _ _ => copies_greedy w hinside,
    fun _ _ _ hpos hle => copies_970Pro hpos hle⟩

/-- On the small device, after collections that copied pages. -/
theorem write_amplification_bounded_small : ∃ m,
    (phases smallConv smallParams smallParams.LocalLpn).Reachable m ∧ m.ftl.gcCopiedPages = 3 ∧
      m.ftl.gcCopiedPages ≤ m.ftl.hostWrittenPages * (smallParams.pgsPerLine - 1) := by
  obtain ⟨ftl, hpath, _, hcopied⟩ := exists_collected
  obtain ⟨history, hmoment⟩ := pageWrites_phases hpath.reachable
  exact ⟨_, hmoment, hcopied, (@write_amplification_bounded smallConv _ _ smallParams_wellFormed
    fun _ => id).1 _ hmoment⟩

end Law

end NvmeVirt

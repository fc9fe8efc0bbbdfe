import Mathlib.Algebra.BigOperators.Ring.Finset
import NvmeVirt.Conv.Stats
import NvmeVirt.Laws.Conv.Commands

/-!
# Flash accounting

Every page is free or was programmed, and the free pages are the writable ones. A page write
programs one page; a collection programs its copies and erases a line all of whose pages were
programmed. So the pages programmed so far are those in use and those of the erased lines
(`Accounted`), and the ratios `conv_flush` prints are ratios of such pages.

The sums over all pages are sums over lines (`SsdParams.pages_eq_biUnion`), so that a page write and
a collection each change one term. What is printed is computed in `uint64_t`; as long as the
counters have not wrapped (`NotWrapped`) it is the ratio rounded down.
-/

set_option autoImplicit false

namespace NvmeVirt

open Outcome

/-! ## Free pages are writable pages -/

/-- Pages are counted line by line. -/
theorem SsdParams.pages_eq_biUnion (spp : SsdParams) (f : Ppa → PgStatus) (k : PgStatus) :
    tally spp.pages f k = ∑ l ∈ Finset.range spp.blksPerPl, tally (spp.linePages l) f k := by
  have hmem : ∀ p ∈ spp.pages.filter (f · = k), p.blk ∈ Finset.range spp.blksPerPl := by
    intro p hp
    have hvalid := SsdParams.mem_pages.mp (Finset.mem_filter.mp hp).1
    exact Finset.mem_range.mpr (validPpa_iff.mp hvalid).2.2.2.1
  refine (Finset.card_eq_sum_card_fiberwise hmem).trans (Finset.sum_congr rfl fun l _ => ?_)
  refine congrArg Finset.card ?_
  ext p
  simp only [SsdParams.linePages, Finset.mem_filter]
  tauto

theorem SsdParams.WellFormed.card_pages {spp : SsdParams} (w : spp.WellFormed) :
    spp.pages.card = spp.ttLines * spp.pgsPerLine := by
  have hmem : ∀ p ∈ spp.pages, p.blk ∈ Finset.range spp.blksPerPl := by
    intro p hp
    exact Finset.mem_range.mpr (validPpa_iff.mp (SsdParams.mem_pages.mp hp)).2.2.2.1
  rw [Finset.card_eq_sum_card_fiberwise hmem, w.ttLines_eq]
  refine (Finset.sum_const_nat fun l hl => ?_).trans (by rw [Finset.card_range])
  exact w.card_linePages (Finset.mem_range.mp hl)

namespace Core

variable {f : Flash} {place : Nat → Place}

/-- The free pages of a line, by its container. -/
def freeIn (f : Flash) : Place → Nat
  | .free => f.sp.pgsPerLine
  | .opened s => f.unwritten s
  | _ => 0

/-- The free pages of a line, by the place of the line. -/
theorem free_eq_freeIn (c : Core f none place) (w : f.sp.WellFormed) {l : Nat}
    (hl : l < f.lm.ttLines) (hheld : place l ≠ .held) :
    tally (f.sp.linePages l) (pgStatus f.blk) .free = freeIn f (place l) := by
  have hclosed : place l = .full ∨ place l = .victim →
      tally (f.sp.linePages l) (pgStatus f.blk) .free = 0 := fun hp =>
    tally_eq_zero fun p hp' => by
      obtain ⟨hvalid, rfl⟩ := SsdParams.mem_linePages.mp hp'
      exact c.not_free w hvalid hp
  cases hp : place l with
  | free =>
    refine (tally_eq_card fun p hp' => ?_).trans (w.card_linePages (c.ttLines ▸ hl))
    obtain ⟨hvalid, rfl⟩ := SsdParams.mem_linePages.mp hp'
    exact c.free_of_free hvalid hp
  | opened s =>
    have hcur : (f.wp s).curline = l := Option.some.inj (c.placed.cur_eq.mpr ⟨hl, hp⟩)
    show _ = f.unwritten s
    rw [Flash.unwritten, hcur]
  | full => exact hclosed (.inl hp)
  | victim => exact hclosed (.inr hp)
  | held => exact absurd hp hheld

/-- The lines in one container contribute alike. -/
theorem sum_place (S : Finset Nat) (d : Place) (n : Nat) :
    ∑ l ∈ S, (if place l = d then n else 0) = (S.filter fun l => place l = d).card * n := by
  rw [← Finset.sum_filter]
  exact Finset.sum_const_nat fun _ _ => rfl

/-- The free pages of all lines are those that can be written. -/
theorem sum_free (c : Core f none place) (w : f.sp.WellFormed) (hheld : ∀ l, place l ≠ .held) :
    ∑ l ∈ Finset.range f.lm.ttLines, tally (f.sp.linePages l) (pgStatus f.blk) .free =
      f.writable := by
  classical
  have hsplit : ∀ l ∈ Finset.range f.lm.ttLines,
      tally (f.sp.linePages l) (pgStatus f.blk) .free =
        (if place l = .free then f.sp.pgsPerLine else 0) +
          ((if place l = .opened .userIo then f.unwritten .userIo else 0) +
            (if place l = .opened .gcIoHot then f.unwritten .gcIoHot else 0) +
            (if place l = .opened .gcIoCold then f.unwritten .gcIoCold else 0)) := by
    intro l hl
    rw [c.free_eq_freeIn w (Finset.mem_range.mp hl) (hheld l)]
    cases hp : place l with
    | opened s => cases s <;> simp [freeIn]
    | _ => simp [freeIn]
  have hfree : ((Finset.range f.lm.ttLines).filter fun l => place l = .free) =
      f.lm.freeLineList.toFinset := by
    ext l
    rw [Finset.mem_filter, Finset.mem_range, List.mem_toFinset, c.placed.mem_free]
  have hopen : ∀ s, ((Finset.range f.lm.ttLines).filter fun l => place l = .opened s) =
      {(f.wp s).curline} := by
    intro s
    ext l
    rw [Finset.mem_filter, Finset.mem_range, Finset.mem_singleton, ← c.placed.cur_eq,
      Option.some_inj]
    exact eq_comm
  rw [Finset.sum_congr rfl hsplit, Finset.sum_add_distrib, Finset.sum_add_distrib,
    Finset.sum_add_distrib, sum_place, sum_place, sum_place, sum_place, hfree, hopen, hopen, hopen,
    List.toFinset_card_of_nodup c.placed.freeNodup, Finset.card_singleton, Finset.card_singleton,
    Finset.card_singleton, Nat.one_mul, Nat.one_mul, Nat.one_mul]
  rfl

end Core

/-! ## The account of an instance -/

open Classical in
/-- The pages in use: valid or invalid. -/
noncomputable def ConvFtl.usedPages (ftl : ConvFtl) : Nat :=
  (ftl.ssd.sp.pages.filter fun p => ftl.ssd.getPg p = .valid ∨ ftl.ssd.getPg p = .invalid).card

/-- The sum of the erase counts of the lines. -/
def ConvFtl.lineErases (ftl : ConvFtl) : Nat :=
  ∑ l ∈ Finset.range ftl.lm.ttLines, (ftl.lm.lines l).eraseCnt

/-- Every page is used or writable. -/
theorem Settled.used_add_writable {ftl : ConvFtl} (h : Settled ftl) :
    ftl.usedPages + ftl.flash.writable = ftl.ssd.sp.ttLines * ftl.ssd.sp.pgsPerLine := by
  classical
  obtain ⟨place, c, hheld⟩ := h.core
  have hfree : tally ftl.ssd.sp.pages (pgStatus ftl.ssd.blk) .free = ftl.flash.writable := by
    rw [ftl.ssd.sp.pages_eq_biUnion, ← c.sum_free h.wf hheld, c.ttLines]
  have hsplit := Finset.card_filter_add_card_filter_not (s := ftl.ssd.sp.pages)
    fun p => pgStatus ftl.ssd.blk p = .free
  have hused : ftl.usedPages =
      (ftl.ssd.sp.pages.filter fun p => ¬ pgStatus ftl.ssd.blk p = .free).card := by
    unfold ConvFtl.usedPages
    congr 1
    ext p
    simp only [Finset.mem_filter]
    apply and_congr_right
    intro _
    show pgStatus ftl.ssd.blk p = .valid ∨ pgStatus ftl.ssd.blk p = .invalid ↔ _
    cases pgStatus ftl.ssd.blk p <;> simp
  have hcard := h.wf.card_pages
  unfold tally at hfree
  omega

/-- The counters agree with the page states. -/
structure Accounted (ftl : ConvFtl) : Prop where
  pages : ftl.hostWrittenPages + ftl.gcCopiedPages =
    ftl.usedPages + ftl.ssd.sp.pgsPerLine * ftl.lineErases
  gcCount : ftl.gcCount = ftl.lineErases
  blocks : ∀ b, ftl.ssd.sp.Visited b → b.blk < ftl.lm.ttLines →
    (ftl.ssd.blk b).eraseCnt = (ftl.lm.lines b.blk).eraseCnt

/-- Nothing the account is about has changed. -/
structure SameAccount (ftl₀ ftl : ConvFtl) : Prop where
  sp : ftl.ssd.sp = ftl₀.ssd.sp
  ttLines : ftl.lm.ttLines = ftl₀.lm.ttLines
  status : ∀ p, ftl.ssd.getPg p = ftl₀.ssd.getPg p
  hostWrittenPages : ftl.hostWrittenPages = ftl₀.hostWrittenPages
  wear : ftl₀.SameWear ftl

/-- The number of lines does not change while the parameters stay. -/
theorem Settled.ttLines_eq {ftl : ConvFtl} (h : Settled ftl) : ftl.lm.ttLines = ftl.ssd.sp.ttLines := by
  obtain ⟨place, c, _⟩ := h.core
  exact c.ttLines.trans h.wf.ttLines_eq.symm

theorem lineErases_congr {ftl₀ ftl : ConvFtl} (htt : ftl.lm.ttLines = ftl₀.lm.ttLines)
    (h : ∀ l, (ftl.lm.lines l).eraseCnt = (ftl₀.lm.lines l).eraseCnt) :
    ftl.lineErases = ftl₀.lineErases := by
  unfold ConvFtl.lineErases
  rw [htt]
  exact Finset.sum_congr rfl fun l _ => h l

/-- Only the counters, the page states and the number of lines matter. -/
theorem Accounted.congr {ftl₀ ftl : ConvFtl} (h : Accounted ftl₀) (hs : SameAccount ftl₀ ftl) :
    Accounted ftl where
  pages := by
    have hused : ftl.usedPages = ftl₀.usedPages := by
      unfold ConvFtl.usedPages
      rw [hs.sp]
      simp only [hs.status]
    rw [hs.hostWrittenPages, hs.wear.gcCopiedPages, hused, hs.sp,
      lineErases_congr hs.ttLines hs.wear.lineErase]
    exact h.pages
  gcCount := by
    rw [hs.wear.gcCount, lineErases_congr hs.ttLines hs.wear.lineErase]
    exact h.gcCount
  blocks b hb hlt := by
    rw [hs.wear.blkErase, hs.wear.lineErase]
    exact h.blocks b (hs.sp ▸ hb) (hs.ttLines ▸ hlt)

/-- One page write programs one page. -/
theorem Accounted.pageWritten {ftl₀ ftl : ConvFtl} {lpn : Nat} (h : Accounted ftl₀)
    (h₀ : Settled ftl₀) (h₁ : Settled ftl) (hw : PageWritten ftl₀ lpn ftl) : Accounted ftl := by
  have htt : ftl.lm.ttLines = ftl₀.lm.ttLines := by
    rw [h₁.ttLines_eq, h₀.ttLines_eq, hw.sp]
  have herases := lineErases_congr htt hw.wear.lineErase
  constructor
  · have hused₀ := h₀.used_add_writable
    have hused := h₁.used_add_writable
    have hold := h.pages
    have hone := hw.writable
    rw [hw.sp] at hused ⊢
    rw [hw.hostWrittenPages, hw.wear.gcCopiedPages, herases]
    omega
  · rw [hw.wear.gcCount, herases]
    exact h.gcCount
  · intro b hb hlt
    rw [hw.wear.blkErase, hw.wear.lineErase]
    exact h.blocks b (hw.sp ▸ hb) (htt ▸ hlt)

/-- One more erase of the line `v`. -/
theorem lineErases_succ {ftl₀ ftl : ConvFtl} {v : Nat} (htt : ftl.lm.ttLines = ftl₀.lm.ttLines)
    (hv : v < ftl₀.lm.ttLines)
    (hline : (ftl.lm.lines v).eraseCnt = (ftl₀.lm.lines v).eraseCnt + 1)
    (hothers : ∀ l, l ≠ v → (ftl.lm.lines l).eraseCnt = (ftl₀.lm.lines l).eraseCnt) :
    ftl.lineErases = ftl₀.lineErases + 1 := by
  unfold ConvFtl.lineErases
  rw [htt, ← Finset.add_sum_erase _ _ (Finset.mem_range.mpr hv), hline,
    ← Finset.add_sum_erase (Finset.range ftl₀.lm.ttLines) _ (Finset.mem_range.mpr hv)]
  have hrest : ∑ l ∈ (Finset.range ftl₀.lm.ttLines).erase v, (ftl.lm.lines l).eraseCnt =
      ∑ l ∈ (Finset.range ftl₀.lm.ttLines).erase v, (ftl₀.lm.lines l).eraseCnt :=
    Finset.sum_congr rfl fun l hl => hothers l (Finset.ne_of_mem_erase hl)
  rw [hrest]
  omega

/-- A collection programs its copies and erases one line. -/
theorem Accounted.collected {ftl₀ ftl : ConvFtl} {v : Nat} (h : Accounted ftl₀) (h₀ : Settled ftl₀)
    (h₁ : Settled ftl) (hc : Collected ftl₀ v ftl) (hcounted : CountedGc ftl₀ ftl) :
    Accounted ftl := by
  have htt : ftl.lm.ttLines = ftl₀.lm.ttLines := by
    rw [h₁.ttLines_eq, h₀.ttLines_eq, hc.sp]
  obtain ⟨place, c, _⟩ := h₀.core
  obtain ⟨hlt, hplace⟩ := c.placed.queued.mp hc.queued
  have herases := lineErases_succ htt hlt hc.lineErase hc.otherLineErase
  -- the victim was written to its end
  have hfull : (ftl₀.lm.lines v).vpc + (ftl₀.lm.lines v).ipc = ftl₀.ssd.sp.pgsPerLine := by
    have hok := c.lineOk v hlt
    rw [hplace] at hok
    exact hok.2
  constructor
  · have hused₀ := h₀.used_add_writable
    have hused := h₁.used_add_writable
    have hold := h.pages
    have hwrit := hc.writable
    rw [hc.sp] at hused ⊢
    rw [hcounted.hostWrittenPages, hc.copied, herases, Nat.mul_succ]
    omega
  · rw [hcounted.gcCount, herases, h.gcCount]
  · intro b hb hblt
    rw [hc.sp] at hb
    rw [htt] at hblt
    have hold := h.blocks b hb hblt
    by_cases hbv : b.blk = v
    · rw [hc.blkErase b hb hbv, hold, hbv, hc.lineErase]
    · rw [hc.otherBlkErase b hbv, hold, hc.otherLineErase _ hbv]

/-- The refill of the credits, with the collection it may start. -/
theorem Accounted.refilled {ftl₀ ftl : ConvFtl} (h : Accounted ftl₀) (h₀ : Settled ftl₀)
    (h₁ : Settled ftl) (hr : Refilled ftl₀ ftl) : Accounted ftl := by
  cases hr with
  | kept _ => exact h
  | @refilled ftl' _ hf =>
    have h' : Settled ftl' := ⟨h₁.wf, h₁.core, h₁.mapped, h₁.timed⟩
    have hsame : ∀ wfc, SameAccount ftl' { ftl' with wfc } := fun _ =>
      ⟨rfl, rfl, fun _ => rfl, rfl, rfl, rfl, fun _ => rfl, fun _ => rfl, rfl⟩
    apply Accounted.congr _ (hsame _)
    cases hf with
    | skipped _ => exact h
    | collected _ hc hcounted => exact h.collected h₀ h' hc hcounted
    | noVictim _ _ hn =>
      obtain ⟨rl, _, rfl⟩ := hn
      exact h.congr ⟨rfl, rfl, fun _ => rfl, rfl, rfl, rfl, fun _ => rfl, fun _ => rfl, rfl⟩

/-- A fresh instance has programmed nothing. -/
theorem Fresh.accounted {cp : ConvParams} {spp : SsdParams} {ftl : ConvFtl} (h : Fresh cp spp ftl) :
    Accounted ftl := by
  have herases : ftl.lineErases = 0 := Finset.sum_eq_zero fun l _ => h.lineErase l
  constructor
  · have hused := h.settled.used_add_writable
    rw [h.writable, h.sp] at hused
    rw [h.hostWrittenPages, h.gcCopiedPages, herases, Nat.mul_zero]
    omega
  · rw [h.gcCount, herases]
  · intro b _ _
    rw [h.blkErase, h.lineErase]

/-! ## Runs -/

/-- The bookkeeping and the account of an instance with the given parameters. -/
def AccountedWith (spp : SsdParams) (ftl : ConvFtl) : Prop := SettledWith spp ftl ∧ Accounted ftl

/-- The clocks of the flash play no part. -/
theorem Accounted.withSsd {ftl : ConvFtl} (h : Accounted ftl) {ssd : Ssd}
    (hs : ftl.ssd.SameFlash ssd) : Accounted { ftl with ssd } := by
  apply h.congr
  refine ⟨hs.sp, rfl, fun p => ?_, rfl, rfl, rfl, fun _ => rfl, fun b => ?_, rfl⟩
  · show pgStatus ssd.blk p = pgStatus ftl.ssd.blk p
    rw [hs.blk]
  · show (ssd.blk b).eraseCnt = _
    rw [hs.blk]

/-- One page write of an instance keeps the account. -/
theorem accounted_pageRule {E : Fault → Prop} (spp : SsdParams) (hE : E .nullCurline) :
    PageRule E spp spp.LocalLpn (AccountedWith spp) where
  settled _ h := h.1.1
  sp _ h := h.1.2
  local_lt _ h := h
  withSsd _ _ h hs := ⟨⟨h.1.1.withSsd hs _ _, hs.sp.trans h.1.2⟩, h.2.withSsd hs⟩
  write ftl lpn stime h hin := by
    obtain ⟨⟨hset, rfl⟩, hacc⟩ := h
    unfold convWritePage
    apply (convWritePageBody_ensures hset hin stime (.inl hE)).bind
    intro r hr
    obtain ⟨h₁, hw, -⟩ := hr
    apply (checkAndRefillWriteCredit_ensures h₁ (.inl hE)).bind
    intro ftl₂ hftl₂
    obtain ⟨h₂, hrefill⟩ := hftl₂
    have hacc₁ := hacc.pageWritten hset h₁ hw
    exact .pure ⟨⟨h₂, hrefill.params.1.trans hw.sp⟩, hacc₁.refilled h₁ h₂ hrefill⟩

/-- Over the runs of an instance. -/
theorem pageWrites_accounted {cp : ConvParams} {spp : SsdParams} (w : spp.WellFormed) :
    (pageWrites cp spp spp.LocalLpn).Invariant (AccountedWith spp) where
  init ftl hinit := by
    obtain ⟨env, env', hrun⟩ := hinit
    have hf := (convInitFtl_ensures (E := fun _ => True) w cp (.inl trivial)).of_run hrun
    exact ⟨⟨hf.settled, hf.sp⟩, hf.accounted⟩
  step ftl lpn ftl' h hstep := by
    obtain ⟨hin, stime, nsecsDone, env, env', hrun⟩ := hstep
    exact ((accounted_pageRule (E := fun _ => True) spp trivial).write ftl lpn stime h hin).of_run hrun

/-- Over the runs of a namespace. -/
theorem nsRuns_accounted {cfg : SsdConfig} {bytes : Nat} (w : (cfg.partParams bytes).WellFormed)
    (hparts : 0 < cfg.ssdPartitions) :
    (nsRuns cfg bytes).Invariant fun s => NsInv (AccountedWith (cfg.partParams bytes)) s.ns where
  init s hs := by
    obtain ⟨-, env, env', hrun⟩ := hs
    have hinit := (convInitFtl_ensures (E := fun _ => True) w
      (convInitParams cfg (cfg.partParams bytes)) (.inl trivial)).mono
        (Q := AccountedWith (cfg.partParams bytes)) fun ftl hf =>
          ⟨⟨hf.settled, hf.sp⟩, hf.accounted⟩
    exact ((convInitNamespace_ensures (accounted_pageRule (E := fun _ => True) _ trivial) w hparts
      hinit).of_run hrun).1
  step s l s' h hstep := by
    cases l with
    | command req =>
      obtain ⟨ans, ⟨env, env', hrun⟩, -⟩ := hstep
      exact (convProcNvmeIoCmd_inv (accounted_pageRule _ trivial) h hrun).1
    | release k =>
      obtain ⟨b, _, rfl⟩ := hstep
      exact h.withBuffer _

/-! ## What `conv_flush` prints -/

theorem sum64_eq (n : Nat) (f : Nat → Nat) : sum64 n f = u64 (∑ i ∈ Finset.range n, f i) := by
  unfold sum64
  induction n with
  | zero => rfl
  | succ n ih =>
    rw [List.range_succ, List.foldl_append, ih, Finset.sum_range_succ]
    exact Nat.mod_add_mod ..

/-- A sum that fits is the sum. -/
theorem sum64_of_lt {n : Nat} {f : Nat → Nat} (h : ∑ i ∈ Finset.range n, f i < 2 ^ 64) :
    sum64 n f = ∑ i ∈ Finset.range n, f i :=
  (sum64_eq n f).trans (Nat.mod_eq_of_lt h)

namespace ConvNs

variable (ns : ConvNs)

/-- The pages the host wrote. -/
def hostPages : Nat := ∑ i ∈ Finset.range ns.nrParts, (ns.ftls i).hostWrittenPages

/-- The pages collections copied. -/
def copiedPages : Nat := ∑ i ∈ Finset.range ns.nrParts, (ns.ftls i).gcCopiedPages

/-- The pages of the lines erased so far. -/
def erasedPages : Nat := ∑ i ∈ Finset.range ns.nrParts, ns.sp.pgsPerLine * (ns.ftls i).lineErases

/-- The pages programmed so far: those in use and those of the lines erased so far. -/
noncomputable def programmedPages : Nat :=
  ∑ i ∈ Finset.range ns.nrParts,
    ((ns.ftls i).usedPages + ns.sp.pgsPerLine * (ns.ftls i).lineErases)

/-- The printed ratios are those of programmed to host pages and of copied to erased pages. -/
structure TrueRatios : Prop where
  waf : ns.wafX1000 =
    if 0 < ns.hostPages then ns.programmedPages * 1000 / ns.hostPages else 1000
  copyRatio : ns.copyRatioX1000 =
    if 0 < ns.erasedPages then ns.copiedPages * 1000 / ns.erasedPages else 0

/-- The counters and their thousandfold have not wrapped. -/
structure NotWrapped : Prop where
  host : (ns.hostPages + ns.copiedPages) * 1000 < 2 ^ 64
  erased : ns.erasedPages < 2 ^ 64

variable {ns} {spp : SsdParams}

/-- The erases of all instances. -/
theorem NotWrapped.totalErases (h : ns.NotWrapped) (hpos : 0 < ns.sp.pgsPerLine) :
    ns.totalErases = ∑ i ∈ Finset.range ns.nrParts, (ns.ftls i).lineErases := by
  have hsum : ∑ i ∈ Finset.range ns.nrParts, (ns.ftls i).lineErases < 2 ^ 64 := by
    have herased := h.erased
    unfold ConvNs.erasedPages at herased
    rw [← Finset.mul_sum] at herased
    exact (Nat.le_mul_of_pos_left _ hpos).trans_lt herased
  have hline : ∀ i ∈ Finset.range ns.nrParts,
      sum64 (ns.ftls i).lm.ttLines (fun j => ((ns.ftls i).lm.lines j).eraseCnt) =
        (ns.ftls i).lineErases := by
    intro i hi
    apply sum64_of_lt
    exact (Finset.single_le_sum (f := fun i => (ns.ftls i).lineErases)
      (fun _ _ => Nat.zero_le _) hi).trans_lt hsum
  unfold ConvNs.totalErases
  rw [sum64_eq, Finset.sum_congr rfl hline]
  exact Nat.mod_eq_of_lt hsum

/-- The programmed pages are those the host wrote and the copies. -/
theorem programmedPages_eq (h : NsInv (AccountedWith spp) ns) :
    ns.programmedPages = ns.hostPages + ns.copiedPages := by
  have hsp : ∀ i, i < ns.nrParts → (ns.ftls i).ssd.sp = spp := fun i hi => (h.part i hi).1.2
  unfold ConvNs.programmedPages ConvNs.hostPages ConvNs.copiedPages
  rw [← Finset.sum_add_distrib]
  apply Finset.sum_congr rfl
  intro i hi
  have hlt := Finset.mem_range.mp hi
  have hpages : (ns.ftls i).hostWrittenPages + (ns.ftls i).gcCopiedPages =
      (ns.ftls i).usedPages + (ns.ftls i).ssd.sp.pgsPerLine * (ns.ftls i).lineErases :=
    (h.part i hlt).2.pages
  rw [hpages, hsp i hlt, ConvNs.sp, hsp 0 h.parts_pos]

/-- What is printed, from the accounts. -/
theorem trueRatios (h : NsInv (AccountedWith spp) ns) (hw : ns.NotWrapped) : ns.TrueRatios := by
  have hset := (h.part 0 h.parts_pos).1.1
  have hpos : 0 < ns.sp.pgsPerLine := hset.wf.pgsPerLine_pos
  have hlt := hw.host
  have hhost : ns.totalHost = ns.hostPages := by
    apply sum64_of_lt
    show ns.hostPages < _
    omega
  have hcp : ns.totalCp = ns.copiedPages := by
    apply sum64_of_lt
    show ns.copiedPages < _
    omega
  have herased : ns.totalErases * ns.sp.pgsPerLine = ns.erasedPages := by
    rw [hw.totalErases hpos, Nat.mul_comm]
    exact Finset.mul_sum ..
  constructor
  · unfold ConvNs.wafX1000
    rw [hhost, hcp, programmedPages_eq h]
    have hsum : u64 (ns.hostPages + ns.copiedPages) = ns.hostPages + ns.copiedPages :=
      Nat.mod_eq_of_lt (by omega)
    have hmul : u64 ((ns.hostPages + ns.copiedPages) * 1000) =
        (ns.hostPages + ns.copiedPages) * 1000 := Nat.mod_eq_of_lt hlt
    rw [hsum, hmul]
  · unfold ConvNs.copyRatioX1000
    rw [Nat.add_mul] at hlt
    have hmul : u64 (ns.copiedPages * 1000) = ns.copiedPages * 1000 :=
      Nat.mod_eq_of_lt ((Nat.le_add_left _ _).trans_lt hlt)
    have hpages : u64 ns.erasedPages = ns.erasedPages := Nat.mod_eq_of_lt hw.erased
    rw [herased, hcp, hmul, hpages]

end ConvNs

/-- In every state of an instance between page writes the counters agree with the page states, and
in every state of a namespace what `conv_flush` prints are true ratios. The counters are 64 bits
wide in the source and as large as needed here; the printed ratios are claimed only while no product
of one has wrapped (`NotWrapped`). -/
theorem flash_accounting {cfg : SsdConfig} {bytes : Nat} (w : (cfg.partParams bytes).WellFormed)
    (hparts : 0 < cfg.ssdPartitions) :
    (∀ cp ftl, (pageWrites cp (cfg.partParams bytes) (cfg.partParams bytes).LocalLpn).Reachable ftl →
      Accounted ftl) ∧
    ∀ s, (nsRuns cfg bytes).Reachable s → (∀ i, i < s.ns.nrParts → Accounted (s.ns.part i)) ∧
      (s.ns.NotWrapped → s.ns.TrueRatios) := by
  constructor
  · intro cp ftl hreach
    exact ((pageWrites_accounted w).reachable hreach).2
  · intro s hreach
    have hinv := (nsRuns_accounted w hparts).reachable hreach
    exact ⟨fun i hi => (hinv.part i hi).2, ConvNs.trueRatios hinv⟩

/-- After a page write on a device of a gibibyte. -/
theorem flash_accounting_gib : ∃ ftl,
    (pageWrites (cp970Pro gib) (params970Pro gib) (params970Pro gib).LocalLpn).Reachable ftl ∧
      (ftl.maptbl 0).isSome ∧ Accounted ftl := by
  obtain ⟨ftl, hreach, hmap⟩ := exists_written (cp970Pro gib) gib_wellFormed gib_ttLines gib_localLpn
  exact ⟨ftl, hreach, hmap, (flash_accounting gib_wellFormed (by decide)).1 _ ftl hreach⟩

end NvmeVirt

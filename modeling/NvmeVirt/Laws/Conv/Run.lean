import NvmeVirt.Lib.System
import NvmeVirt.Laws.Conv.Init
import NvmeVirt.Laws.Conv.PageWrite

/-!
# Runs of one instance

`pageWrites` is `conv_init_ftl` followed by any number of completed page writes, each from any
environment: any clock, any random numbers, any `gc_mode`, set anew between two writes. `Settled` is
an invariant of it; what it says of the mapping tables, of the lines and of a collection in any
reachable state is spelled out here.

Inside a page write the bookkeeping is weaker while a line is held in hand or a page is mapped
twice, and the step lemmas of `Laws/Conv/PageWrite` and `Laws/Conv/DoGc` carry it through. A
collection runs between two page writes, or inside one once the page is written (`GcMayRun`).

Parameters are those of `WellFormed`: the derived fields are the products their names say, and every
field of an address fits its bits.
-/

set_option autoImplicit false

namespace NvmeVirt

open Outcome

/-- Runs of the page writes of `conv_write` to local pages `inside` admits. -/
def pageWrites (cp : ConvParams) (spp : SsdParams) (inside : Nat → Prop) : System ConvFtl Nat where
  init ftl := ∃ env env', (convInitFtl cp (ssdInit spp)).run env = .ok (ftl, env')
  step ftl lpn ftl' := inside lpn ∧ ∃ stime nsecsDone env env',
    (convWritePage ftl lpn stime).run env = .ok ((ftl', nsecsDone), env')

/-- The local pages the range check of `conv_write` lets through. -/
def SsdParams.LocalLpn (spp : SsdParams) (lpn : Nat) : Prop := lpn < spp.ttPgs

/-- A collection leaves the parameters, the user write pointer and the page metadata. -/
theorem Foreground.params {ftl₀ ftl : ConvFtl} (h : Foreground ftl₀ ftl) :
    ftl.ssd.sp = ftl₀.ssd.sp ∧ ftl.cp = ftl₀.cp ∧ ftl.wp .userIo = ftl₀.wp .userIo ∧
      ftl.pageMeta = ftl₀.pageMeta := by
  cases h with
  | skipped => exact ⟨rfl, rfl, rfl, rfl⟩
  | collected _ hc _ => exact ⟨hc.sp, hc.cp, hc.userWp, hc.pageMeta⟩
  | noVictim _ _ hn =>
    obtain ⟨rl, _, rfl⟩ := hn
    exact ⟨rfl, rfl, rfl, rfl⟩

/-- A refill of the write credits leaves the parameters. -/
theorem Refilled.params {ftl₀ ftl : ConvFtl} (h : Refilled ftl₀ ftl) :
    ftl.ssd.sp = ftl₀.ssd.sp ∧ ftl.cp = ftl₀.cp ∧ ftl.wp .userIo = ftl₀.wp .userIo ∧
      ftl.pageMeta = ftl₀.pageMeta := by
  cases h with
  | kept => exact ⟨rfl, rfl, rfl, rfl⟩
  | refilled _ hf => exact hf.params

/-- Page writes keep the bookkeeping, whichever pages they are for and whatever the collections on
the way do. -/
theorem pageWrites_settled {cp : ConvParams} {spp : SsdParams} (w : spp.WellFormed)
    {inside : Nat → Prop} (hinside : ∀ lpn, inside lpn → spp.LocalLpn lpn) :
    (pageWrites cp spp inside).Invariant fun ftl => Settled ftl ∧ ftl.ssd.sp = spp where
  init ftl := by
    rintro ⟨env, env', hrun⟩
    have hf := (convInitFtl_ensures (E := fun _ => True) w cp (.inl trivial)).of_run hrun
    exact ⟨hf.settled, hf.sp⟩
  step ftl lpn ftl' := by
    rintro ⟨h, rfl⟩ ⟨hin, stime, nsecsDone, env, env', hrun⟩
    obtain ⟨h', ⟨ftl₁, hw, hr⟩, _⟩ := (convWritePage_ensures (E := fun _ => True) h
      (hinside lpn hin) stime (.inl trivial)).of_run hrun
    exact ⟨h', hr.params.1.trans hw.sp⟩

/-! ## A small device -/

/-- One LUN with seven lines of two pages, which one wordline holds. -/
def smallConfig : SsdConfig :=
  { samsung970Pro with
    ssdPartitions := 1, nandChannels := 1, lunsPerNandCh := 1
    flashPageSize := kb 4, oneshotPageSize := kb 8, blksPerPln := 7 }

def smallParams : SsdParams := ssdInitParams smallConfig (kb 56) 1

def smallConv : ConvParams := convInitParams smallConfig smallParams

theorem smallParams_wellFormed : smallParams.WellFormed := by
  constructor
  all_goals decide

/-- Initialise the instance and write the local pages `lpns`, one after another. -/
def writeAll (cp : ConvParams) (spp : SsdParams) (lpns : List Nat) : FtlM ConvFtl :=
  convInitFtl cp (ssdInit spp) >>= fun ftl =>
    lpns.foldlM (fun ftl lpn => convWritePage ftl lpn 0 >>= fun r => pure r.1) ftl

/-- Pages written one after the other are such a run. -/
theorem writeAll_path {cp : ConvParams} {spp : SsdParams} {inside : Nat → Prop}
    {lpns : List Nat} (hin : ∀ lpn ∈ lpns, inside lpn) {ftl : ConvFtl} {env env' : Env}
    (h : (writeAll cp spp lpns).run env = .ok (ftl, env')) :
    (pageWrites cp spp inside).Path lpns ftl := by
  obtain ⟨ftl₀, env₀, hinit, hwrites⟩ := run_bind h
  have hpath : (pageWrites cp spp inside).Path [] ftl₀ := .init ⟨env, env₀, hinit⟩
  rw [← List.nil_append lpns]
  generalize ([] : List Nat) = before at hpath ⊢
  clear h hinit
  induction lpns generalizing ftl₀ env₀ before with
  | nil =>
    cases run_pure hwrites
    rw [List.append_nil]
    exact hpath
  | cons lpn lpns ih =>
    rw [List.foldlM_cons] at hwrites
    obtain ⟨ftl₁, env₁, hone, hrest⟩ := run_bind hwrites
    obtain ⟨⟨ftl₂, t⟩, env₂, hwrite, hpure⟩ := run_bind hone
    cases run_pure hpure
    rw [← List.singleton_append, ← List.append_assoc]
    refine ih (fun l hl => hin l (List.mem_cons_of_mem _ hl)) _ _ hrest _ ?_
    exact .step hpath ⟨hin lpn List.mem_cons_self, 0, t, _, _, hwrite⟩

/-- Nine page writes on the small device: three of them call for a collection. -/
def collectedWrites : List Nat := [0, 1, 0, 2, 3, 0, 4, 5, 0]

/-- Some writes of a small device, in which lines are collected. -/
theorem exists_collected : ∃ ftl,
    (pageWrites smallConv smallParams smallParams.LocalLpn).Path collectedWrites ftl ∧
      ftl.gcCount = 3 ∧ ftl.gcCopiedPages = 3 := by
  have hrun : tests (writeAll smallConv smallParams collectedWrites) .zero (fun ftl =>
      ftl.gcCount == 3 && ftl.gcCopiedPages == 3) = true := by decide +kernel
  obtain ⟨ftl, env', hrun, htest⟩ := exists_of_tests hrun
  rw [Bool.and_eq_true] at htest
  have hin : ∀ lpn ∈ collectedWrites, lpn < smallParams.ttPgs := by decide
  exact ⟨ftl, writeAll_path hin hrun, eq_of_beq htest.1, eq_of_beq htest.2⟩

/-! ## A run on a device of 1 GiB -/

/-- A collection maps no page and unmaps none. -/
theorem Foreground.isSome {ftl₀ ftl : ConvFtl} (h : Foreground ftl₀ ftl) (lpn : Nat) :
    (ftl.maptbl lpn).isSome ↔ (ftl₀.maptbl lpn).isSome := by
  cases h with
  | skipped => exact Iff.rfl
  | collected _ hc _ => exact hc.mapped lpn
  | noVictim _ _ hn =>
    obtain ⟨rl, _, rfl⟩ := hn
    exact Iff.rfl

/-- Nor does a refill. -/
theorem Refilled.isSome {ftl₀ ftl : ConvFtl} (h : Refilled ftl₀ ftl) (lpn : Nat) :
    (ftl.maptbl lpn).isSome ↔ (ftl₀.maptbl lpn).isSome := by
  cases h with
  | kept => exact Iff.rfl
  | refilled _ hf => exact hf.isSome lpn

/-- Page 0 can be written on a fresh device. -/
theorem exists_written (cp : ConvParams) {spp : SsdParams} (w : spp.WellFormed)
    (hlines : 4 ≤ spp.ttLines) {inside : Nat → Prop} (hin : inside 0) :
    ∃ ftl, (pageWrites cp spp inside).Reachable ftl ∧ (ftl.maptbl 0).isSome := by
  obtain ⟨ftl, env', hinit, hf⟩ :=
    answers (convInitFtl_ensures (E := NoFault) w cp (.inr (by omega))) .zero
  have hlt : 0 < ftl.ssd.sp.ttPgs := by
    rw [hf.sp, w.ttPgs_eq, w.pgsPerCh_eq, w.pgsPerLun_eq, w.pgsPerPl_eq, w.plsPerLun_one]
    have hblks : 0 < spp.blksPerPl := by
      rw [← w.ttLines_eq]
      omega
    have := Nat.mul_pos w.pgsPerBlk_pos hblks
    exact Nat.mul_pos (Nat.mul_pos (by omega) w.lunsPerCh_pos) w.nchs_pos
  have hroom : 3 * ftl.ssd.sp.pgsPerLine < ftl.flash.writable := by
    rw [hf.writable, hf.sp]
    exact Nat.mul_lt_mul_of_pos_right (by omega) w.pgsPerLine_pos
  obtain ⟨⟨ftl', t⟩, env'', hrun, _, ⟨ftl₁, hw, hr⟩, _⟩ :=
    answers (convWritePage_ensures (E := NoFault) hf.settled hlt 0 (.inr hroom)) env'
  exact ⟨ftl', .step (.init ⟨.zero, env', hinit⟩) ⟨hin, 0, t, env', env'', hrun⟩,
    (hr.isSome 0).mpr hw.mapped⟩

/-- 1 GiB. -/
def gib : Nat := 2 ^ 30

theorem gib_pgsPerBlk : (params970Pro gib).pgsPerBlk = 24 := by
  rw [(params970Pro_is gib).pgsPerBlk, (params970Pro_is gib).oneshotpgsPerBlk]
  rfl

theorem gib_wellFormed : (params970Pro gib).WellFormed :=
  params970Pro_wellFormed (by rw [gib_pgsPerBlk]; omega) (by rw [gib_pgsPerBlk]; omega)

theorem gib_ttLines : 4 ≤ (params970Pro gib).ttLines := by
  rw [(params970Pro_is gib).ttLines]
  omega

/-! ## The mapping tables -/

open Classical in
/-- `maptbl`, `rmap` and the page statuses agree. -/
structure LogicalToPhysical (ftl : ConvFtl) : Prop where
  lt : ∀ lpn p, ftl.maptbl lpn = some p → lpn < ftl.ssd.sp.ttPgs
  forward : ∀ lpn p, ftl.maptbl lpn = some p →
    validPpa ftl.ssd.sp p = true ∧ ftl.ssd.getPg p = .valid ∧ ftl.rmap (ftl.ssd.sp.pgidx p) = lpn
  backward : ∀ p, validPpa ftl.ssd.sp p = true → ftl.ssd.getPg p = .valid →
    ftl.rmap (ftl.ssd.sp.pgidx p) < ftl.ssd.sp.ttPgs ∧
      ftl.maptbl (ftl.rmap (ftl.ssd.sp.pgidx p)) = some p
  injective : ∀ lpn lpn' p, ftl.maptbl lpn = some p → ftl.maptbl lpn' = some p → lpn = lpn'
  card : (ftl.ssd.sp.pages.filter fun p => ftl.ssd.getPg p = .valid).card =
    ((Finset.range ftl.ssd.sp.ttPgs).filter fun lpn => (ftl.maptbl lpn).isSome).card

/-- The two tables are inverse to each other on the mapped pages. -/
theorem Settled.logicalToPhysical {ftl : ConvFtl} (h : Settled ftl) : LogicalToPhysical ftl where
  lt := h.mapped.lt
  forward lpn p hl := ⟨h.mapped.valid hl, h.mapped.status hl, h.mapped.paired.back lpn p hl⟩
  backward p hp hst := by
    have hfwd := h.mapped.paired.to_fwd p ⟨hp, hst, id⟩
    exact ⟨h.mapped.lt _ p hfwd, hfwd⟩
  injective _ _ _ hl hl' := h.mapped.paired.injective hl hl'
  card := by
    classical
    have hcard := h.mapped.card_mapped fun _ => True
    refine Eq.trans (congrArg Finset.card ?_) (hcard.symm.trans (congrArg Finset.card ?_))
    · ext p
      simp only [Finset.mem_filter, SsdParams.mem_pages, and_true, not_false_eq_true]
      exact and_congr_right fun hp => (and_iff_right hp).symm
    · ext lpn
      simp [Option.isSome_iff_exists]

/-- In every state between page writes the mapping is a bijection of the mapped logical pages and
the VALID physical pages, and the reverse table is its inverse. The logical pages of a run are those
of `maptbl`; inside a page write and a collection the agreement fails for the page in hand, which
`Collecting` accounts for. -/
theorem maptbl_consistent {cp : ConvParams} {spp : SsdParams} (w : spp.WellFormed) {ftl : ConvFtl}
    (h : (pageWrites cp spp spp.LocalLpn).Reachable ftl) : LogicalToPhysical ftl :=
  ((pageWrites_settled w fun _ => id).reachable h).1.logicalToPhysical

theorem gib_localLpn : (params970Pro gib).LocalLpn 0 := by
  unfold SsdParams.LocalLpn
  rw [(params970Pro_is gib).ttPgs, gib_pgsPerBlk]
  omega

/-- After a page write on a device of a gibibyte. -/
theorem maptbl_consistent_gib : ∃ ftl,
    (pageWrites (cp970Pro gib) (params970Pro gib) (params970Pro gib).LocalLpn).Reachable ftl ∧
      (ftl.maptbl 0).isSome ∧ LogicalToPhysical ftl := by
  obtain ⟨ftl, hreach, hmap⟩ := exists_written (cp970Pro gib) gib_wellFormed gib_ttLines gib_localLpn
  exact ⟨ftl, hreach, hmap, maptbl_consistent gib_wellFormed hreach⟩

/-! ## The lines -/

/-- Line `l` is in the container `c`. No function holds a line between two page writes. -/
def ConvFtl.In (ftl : ConvFtl) (l : Nat) : Place → Prop
  | .free => l ∈ ftl.lm.freeLineList
  | .full => l ∈ ftl.lm.fullLineList
  | .victim => l ∈ ftl.lm.victimLinePq.items
  | .opened s => (ftl.wp s).curline = l
  | .held => False

/-- The line management agrees with itself and with the page statuses. -/
structure LineBookkeeping (ftl : ConvFtl) : Prop where
  container : ∀ l, l < ftl.lm.ttLines → ∃! c, ftl.In l c
  lt : ∀ l c, ftl.In l c → l < ftl.lm.ttLines
  nodup : ftl.lm.freeLineList.Nodup ∧ ftl.lm.fullLineList.Nodup ∧ ftl.lm.victimLinePq.items.Nodup
  freeCnt : ftl.lm.freeLineCnt = ftl.lm.freeLineList.length
  fullCnt : ftl.lm.fullLineCnt = ftl.lm.fullLineList.length
  victimCnt : ftl.lm.victimLineCnt = ftl.lm.victimLinePq.items.length
  lineCount : ∀ l, l < ftl.lm.ttLines → Counted (ftl.ssd.sp.linePages l) ftl.ssd.getPg
    (ftl.lm.lines l).vpc (ftl.lm.lines l).ipc
  blkCount : ∀ b, Counted (ftl.ssd.sp.blkPages b) ftl.ssd.getPg (ftl.ssd.blk b).vpc (ftl.ssd.blk b).ipc
  full : ∀ l, l ∈ ftl.lm.fullLineList → (ftl.lm.lines l).vpc = ftl.ssd.sp.pgsPerLine
  victim : ∀ l, l ∈ ftl.lm.victimLinePq.items → 0 < (ftl.lm.lines l).ipc ∧
    (ftl.lm.lines l).vpc + (ftl.lm.lines l).ipc = ftl.ssd.sp.pgsPerLine
  free : ∀ l, l ∈ ftl.lm.freeLineList → (ftl.lm.lines l).vpc = 0 ∧ (ftl.lm.lines l).ipc = 0
  pos : ∀ l, (ftl.lm.lines l).pos ≠ 0 ↔ l ∈ ftl.lm.victimLinePq.items
  pos_index : ∀ l, (ftl.lm.lines l).pos ≠ 0 → (ftl.lm.lines l).pos < ftl.lm.victimLinePq.size ∧
    ftl.lm.victimLinePq.d (ftl.lm.lines l).pos = l
  heap : ∀ i, 1 < i → i < ftl.lm.victimLinePq.size →
    (ftl.lm.lines (ftl.lm.victimLinePq.d (i / 2))).vpc ≤ (ftl.lm.lines (ftl.lm.victimLinePq.d i)).vpc

/-- The slots of a valid queue hold different elements. -/
theorem Pqueue.Valid.items_nodup {σ ι : Type} {cb : Callbacks σ ι} {q : Pqueue ι} {m : σ}
    (h : Pqueue.Valid cb q m) : q.items.Nodup := by
  unfold Pqueue.items
  refine List.Nodup.map_on ?_ List.nodup_range
  intro i hi j hj he
  have hi' := List.mem_range.mp hi
  have hj' := List.mem_range.mp hj
  have hpi := h.pos_d (i + 1) (by omega) (by omega)
  have hpj := h.pos_d (j + 1) (by omega) (by omega)
  rw [he, hpj] at hpi
  omega

/-- The queue holds the lines whose position is set. -/
theorem LineMgmt.Placed.mem_items {lm : LineMgmt} {cur : Stream → Option Nat} {place : Nat → Place}
    (h : lm.Placed cur place) {l : Nat} : l ∈ lm.victimLinePq.items ↔ (lm.lines l).pos ≠ 0 := by
  constructor
  · exact fun hl => h.queued.mpr (h.of_item hl)
  · intro hpos
    obtain ⟨hlt, hd⟩ := h.queue.d_pos l id hpos
    exact Pqueue.mem_items.mpr ⟨_, Nat.pos_of_ne_zero hpos, hlt, hd⟩

namespace Core

variable {ftl : ConvFtl} {place : Nat → Place}

/-- The container of a line is its place. -/
theorem in_iff (c : Core ftl.flash none place) (l : Nat) (d : Place) :
    ftl.In l d ↔ l < ftl.lm.ttLines ∧ place l = d ∧ d ≠ .held := by
  rw [← c.placed.holds l d]
  cases d with
  | free => exact Iff.rfl
  | full => exact Iff.rfl
  | victim => exact c.placed.mem_items
  | opened s => exact (Option.some_inj (b := l)).symm
  | held => exact Iff.rfl

/-- The counters of the lines, from what the pages are. -/
theorem lineBookkeeping (c : Core ftl.flash none place) (hheld : ∀ l, place l ≠ .held) :
    LineBookkeeping ftl where
  container l hl := by
    refine ⟨place l, (c.in_iff l _).mpr ⟨hl, rfl, hheld l⟩, fun d hd => ?_⟩
    exact ((c.in_iff l d).mp hd).2.1.symm
  lt l d hd := ((c.in_iff l d).mp hd).1
  nodup := ⟨c.placed.freeNodup, c.placed.fullNodup, c.placed.queue.items_nodup⟩
  freeCnt := c.placed.freeCnt
  fullCnt := c.placed.fullCnt
  victimCnt := by
    have hcnt : ftl.lm.victimLineCnt + 1 = ftl.lm.victimLinePq.size := c.placed.victimCnt
    simp only [Pqueue.items, List.length_map, List.length_range]
    omega
  lineCount l hl := c.lineCount l (hheld l) hl
  blkCount := c.blkCount
  full l hl := by
    obtain ⟨hlt, hp⟩ := c.placed.mem_full.mp hl
    have hok := c.lineOk l hlt
    rw [hp] at hok
    exact hok.1
  victim l hl := by
    obtain ⟨hlt, hp⟩ := c.placed.of_item hl
    have hok := c.lineOk l hlt
    rw [hp] at hok
    exact hok
  free l hl := by
    obtain ⟨hlt, hp⟩ := c.placed.mem_free.mp hl
    have hok := c.lineOk l hlt
    rw [hp] at hok
    exact hok
  pos _ := c.placed.mem_items.symm
  pos_index l hpos := c.placed.queue.d_pos l id hpos
  heap := c.placed.queue.heap

end Core

/-- In every state between page writes the lines are in order: each is in one place, the counters
are the sizes of these places, `vpc` and `ipc` are what the pages say, and the victim queue is a
heap. The next page write, with the collection it may trigger, meets no fault but an empty free
list: no `NVMEV_ASSERT` fires. (The list is not empty on a 970PRO; a smaller geometry can run out of
lines.) -/
theorem line_bookkeeping {cp : ConvParams} {spp : SsdParams} (w : spp.WellFormed) {ftl : ConvFtl}
    (h : (pageWrites cp spp spp.LocalLpn).Reachable ftl) :
    LineBookkeeping ftl ∧ ∀ lpn stime env e, spp.LocalLpn lpn →
      (convWritePage ftl lpn stime).run env = .error e → e = .nullCurline := by
  obtain ⟨hset, hsp⟩ := (pageWrites_settled w fun _ => id).reachable h
  obtain ⟨place, c, hheld⟩ := hset.core
  refine ⟨c.lineBookkeeping hheld, fun lpn stime env e hlt hrun => ?_⟩
  have hens := convWritePage_ensures (E := OnlyNullCurline) hset (hsp ▸ hlt) stime (.inl rfl)
  exact hens.of_fault hrun

/-- After a page write on a device of a gibibyte. -/
theorem line_bookkeeping_gib : ∃ ftl,
    (pageWrites (cp970Pro gib) (params970Pro gib) (params970Pro gib).LocalLpn).Reachable ftl ∧
      (ftl.maptbl 0).isSome ∧ LineBookkeeping ftl := by
  obtain ⟨ftl, hreach, hmap⟩ := exists_written (cp970Pro gib) gib_wellFormed gib_ttLines gib_localLpn
  exact ⟨ftl, hreach, hmap, (line_bookkeeping gib_wellFormed hreach).1⟩

/-! ## A collection -/

/-- The victim selection functions of the source. -/
inductive VictimPolicy : VictimSelectFn → Prop where
  | greedy : VictimPolicy selectVictimGreedy
  | scored (α δ : Nat) : VictimPolicy fun ftl _ => selectVictimScored ftl α δ

/-- Each policy selects a line of the queue, or none. -/
theorem VictimPolicy.selects {select : VictimSelectFn} (h : VictimPolicy select) : Selects select := by
  cases h with
  | greedy => exact selectVictimGreedy_selects
  | scored α δ => exact selectVictimScored_selects α δ

/-- Where `do_gc` may run: between two page writes, and inside one, when the page is written and the
credit is checked. -/
inductive GcMayRun (cp : ConvParams) (spp : SsdParams) : ConvFtl → Prop where
  | between {ftl : ConvFtl} : (pageWrites cp spp spp.LocalLpn).Reachable ftl → GcMayRun cp spp ftl
  | inside {ftl ftl' : ConvFtl} {lpn stime : Nat} {nsecsDone : Option Nat} {env env' : Env} :
    (pageWrites cp spp spp.LocalLpn).Reachable ftl → spp.LocalLpn lpn →
    (convWritePageBody ftl lpn stime).run env = .ok ((ftl', nsecsDone), env') → GcMayRun cp spp ftl'

/-- A state in which a collection may run has its bookkeeping in order. -/
theorem GcMayRun.settled {cp : ConvParams} {spp : SsdParams} (w : spp.WellFormed) {ftl : ConvFtl}
    (h : GcMayRun cp spp ftl) : Settled ftl := by
  cases h with
  | between h => exact ((pageWrites_settled w fun _ => id).reachable h).1
  | @inside ftl₀ _ lpn stime nsecsDone _ _ h hlt hrun =>
    obtain ⟨hset, hsp⟩ := (pageWrites_settled w fun _ => id).reachable h
    exact ((convWritePageBody_ensures (E := fun _ => True) hset (hsp ▸ hlt) stime
      (.inl trivial)).of_run hrun).1

/-- From every state in which it may run, `do_gc` with any policy meets no fault but an empty free list.
It either collects a line, which moves the contents of that line and nothing else, or it finds none and
changes nothing but `credits_to_refill` and the learner's choice. -/
theorem doGc_preserves {cp : ConvParams} {spp : SsdParams} (w : spp.WellFormed) {ftl : ConvFtl}
    (h : GcMayRun cp spp ftl) (mode : GcMode) (force : Bool) (selectFn : Option VictimSelectFn)
    (hsel : mode = .rl ∨ ∃ select, selectFn = some select ∧ VictimPolicy select) :
    Ensures OnlyNullCurline (doGc ftl mode force selectFn) fun r =>
      (∃ v, r.2 = 0 ∧ Collected ftl v r.1) ∨ (r.2 = -1 ∧ NoVictim ftl r.1) := by
  have hset := h.settled w
  have hsel' : mode = .rl ∨ ∃ select, selectFn = some select ∧ Selects select := by
    refine hsel.imp_right ?_
    rintro ⟨select, hs, hp⟩
    exact ⟨select, hs, hp.selects⟩
  refine (doGc_ensures (E := OnlyNullCurline) hset mode force hsel' (.inl rfl)).mono ?_
  rintro r ⟨-, ⟨v, hres, hc, -⟩ | ⟨hres, hn, -⟩⟩
  · exact .inl ⟨v, hres, hc⟩
  · exact .inr ⟨hres, hn⟩

/-- Inside the sixth page write on the small device greedy collects a line and copies one page. -/
theorem doGc_preserves_small : ∃ (ftl : ConvFtl) (r : ConvFtl × Int) (v : Nat),
    GcMayRun smallConv smallParams ftl ∧ r.2 = 0 ∧ Collected ftl v r.1 ∧
      r.1.gcCopiedPages = ftl.gcCopiedPages + 1 := by
  have hrun : tests (writeAll smallConv smallParams [0, 1, 0, 2, 3] >>= fun ftl =>
      convWritePageBody ftl 0 0 >>= fun r =>
        doGc r.1 .greedy true (some selectVictimGreedy) >>= fun s => pure (r.1, s)) .zero
      (fun s => s.2.2 == 0 && s.2.1.gcCopiedPages == s.1.gcCopiedPages + 1) = true := by
    decide +kernel
  obtain ⟨⟨ftl, r⟩, env', hrun, htest⟩ := exists_of_tests hrun
  rw [Bool.and_eq_true] at htest
  have hzero : r.2 = 0 := eq_of_beq htest.1
  obtain ⟨ftl₀, env₀, hwrites, hrun⟩ := run_bind hrun
  obtain ⟨⟨ftl₁, t⟩, env₁, hbody, hrun⟩ := run_bind hrun
  obtain ⟨r₁, env₂, hgc, hpure⟩ := run_bind hrun
  cases run_pure hpure
  have hin : ∀ lpn ∈ [0, 1, 0, 2, 3], lpn < smallParams.ttPgs := by decide
  have hmay : GcMayRun smallConv smallParams ftl₁ :=
    .inside (writeAll_path hin hwrites).reachable (show 0 < smallParams.ttPgs by decide) hbody
  have hgc := (doGc_preserves smallParams_wellFormed hmay .greedy true _
    (.inr ⟨_, rfl, .greedy⟩)).of_run hgc
  rcases hgc with ⟨v, _, hcollected⟩ | ⟨hnone, _⟩
  · exact ⟨ftl₁, r, v, hmay, hzero, hcollected, eq_of_beq htest.2⟩
  · rw [hzero] at hnone
    cases hnone

end NvmeVirt

import Mathlib.Data.Nat.ModEq
import NvmeVirt.Laws.Conv.Range
import NvmeVirt.Laws.Conv.WriteBuffer
import NvmeVirt.Laws.Ssd.Issued

/-!
# The flash reads of a read command

`conv_read` walks the pages of each instance and merges those that follow one another in one flash
page. `Coalesced` says what the commands it issued stand for: a list of runs of logical pages, one
run a command. The step of the walk adds a mapped page to the run that is still pending or closes
that run with a command.

`Walk` is the invariant inside the loop, with the run that is pending; a page is skipped
(`Walk.skip`), joined to the run (`Walk.join`), or the run is issued (`Walk.issue`) and the page
begins the next. At the end of an instance the last run is issued (`readPart_walked`). The instances
are walked one after the other, each over its own pages (`MatchedUpTo.pass`).

The times of the commands are not followed, only what they read and how much.
-/

set_option autoImplicit false

namespace NvmeVirt

open Outcome

/-! ## Commands for runs of pages -/

/-- A read of the instance with the mapping `maptbl` that stands for the pages `run`: it goes to the
flash page that holds them, and transfers as many pages as there are. -/
structure ReadsRun (spp : SsdParams) (maptbl : Nat → Option Ppa) (nrParts : Nat) (ncmd : NandCmd)
    (run : List Nat) : Prop where
  type : ncmd.type = .userIo
  cmd : ncmd.cmd = .read
  nonempty : run ≠ []
  xferSize : ncmd.xferSize = run.length * spp.pgsz
  holds : ∀ lpn ∈ run, ∃ p, maptbl (lpn / nrParts) = some p ∧ isSameFlashPage spp p ncmd.ppa = true

/-- The commands of a walk, each with its run. -/
structure Coalesced (spp : SsdParams) (maptbl : Nat → Option Ppa) (nrParts : Nat) (lpns : List Nat)
    (reads : List (NandCmd × List Nat)) : Prop where
  covers : (reads.map Prod.snd).flatten = lpns.filter fun lpn => (maptbl (lpn / nrParts)).isSome
  each : ∀ read ∈ reads, ReadsRun spp maptbl nrParts read.1 read.2

section Runs

variable {spp : SsdParams} {maptbl : Nat → Option Ppa} {nrParts : Nat} {lpns run : List Nat}
  {reads : List (NandCmd × List Nat)} {ncmd : NandCmd} {p q r : Ppa}

/-- Two pages are in one flash page if block and flash page agree. -/
theorem isSameFlashPage_iff : isSameFlashPage spp p q = true ↔
    p.toBlkId = q.toBlkId ∧ p.pg / spp.pgsPerFlashpg = q.pg / spp.pgsPerFlashpg := by
  unfold isSameFlashPage
  rw [Bool.and_eq_true, beq_iff_eq, beq_iff_eq]

theorem isSameFlashPage_refl (spp : SsdParams) (p : Ppa) : isSameFlashPage spp p p = true :=
  isSameFlashPage_iff.mpr ⟨rfl, rfl⟩

/-- The pages of one flash page differ in their offsets in it, so a run of different pages is not
longer than a flash page. -/
theorem ReadsRun.length_le (h : ReadsRun spp maptbl nrParts ncmd run)
    (hpos : 0 < spp.pgsPerFlashpg) (hnodup : run.Nodup)
    (hinj : ∀ l ∈ run, ∀ l' ∈ run, ∀ p, maptbl (l / nrParts) = some p →
      maptbl (l' / nrParts) = some p → l = l') : run.length ≤ spp.pgsPerFlashpg := by
  let offset : Nat → Nat := fun lpn =>
    ((maptbl (lpn / nrParts)).map fun p => p.pg % spp.pgsPerFlashpg).getD 0
  have hoffset : ∀ {lpn p}, maptbl (lpn / nrParts) = some p → offset lpn = p.pg % spp.pgsPerFlashpg := by
    intro lpn p hp
    show ((maptbl (lpn / nrParts)).map _).getD 0 = _
    rw [hp]
    rfl
  have hinjOn : Set.InjOn offset run.toFinset := by
    intro l hl l' hl' heq
    have hmem : l ∈ run := List.mem_toFinset.mp hl
    have hmem' : l' ∈ run := List.mem_toFinset.mp hl'
    obtain ⟨p, hp, hsame⟩ := h.holds l hmem
    obtain ⟨p', hp', hsame'⟩ := h.holds l' hmem'
    rw [hoffset hp, hoffset hp'] at heq
    obtain ⟨hblk, hpg⟩ := isSameFlashPage_iff.mp hsame
    obtain ⟨hblk', hpg'⟩ := isSameFlashPage_iff.mp hsame'
    have hpgs : p.pg = p'.pg := by
      rw [← Nat.div_add_mod p.pg spp.pgsPerFlashpg, ← Nat.div_add_mod p'.pg spp.pgsPerFlashpg, heq,
        hpg, hpg']
    have hpp : p = p' := by
      have hblks : p.toBlkId = p'.toBlkId := hblk.trans hblk'.symm
      cases p
      cases p'
      simp_all
    exact hinj l hmem l' hmem' p hp (hpp ▸ hp')
  calc run.length = run.toFinset.card := (List.toFinset_card_of_nodup hnodup).symm
    _ ≤ (Finset.range spp.pgsPerFlashpg).card := by
        apply Finset.card_le_card_of_injOn offset _ hinjOn
        intro l hl
        obtain ⟨p, hp, _⟩ := h.holds l (List.mem_toFinset.mp hl)
        rw [hoffset hp]
        exact Finset.mem_coe.mpr (Finset.mem_range.mpr (Nat.mod_lt _ hpos))
    _ = spp.pgsPerFlashpg := Finset.card_range _

end Runs

/-! ## The walk over one instance -/

/-- The walk has come past the pages `seen`: it has issued `reads`, and the pages `cur` are pending. -/
structure Walk (ftl : ConvFtl) (nrParts startLpn : Nat) (seen : List Nat)
    (reads : List (NandCmd × List Nat)) (cur : List Nat) (st : ReadState) : Prop where
  clocks : ∃ ssd, ftl.ssd.SameFlash ssd ∧ st.ftl = { ftl with ssd }
  issued : st.ftl.ssd.issued = (reads.map Prod.fst).reverse ++ ftl.ssd.issued
  covers : (reads.map Prod.snd).flatten ++ cur =
    seen.filter fun lpn => (ftl.maptbl (lpn / nrParts)).isSome
  each : ∀ read ∈ reads, ReadsRun ftl.ssd.sp ftl.maptbl nrParts read.1 read.2
  xferSize : st.xferSize = cur.length * ftl.ssd.sp.pgsz
  pending : cur ≠ [] → ∃ p, st.prevPpa = some p ∧ ∀ lpn ∈ cur, ∃ q,
    ftl.maptbl (lpn / nrParts) = some q ∧ isSameFlashPage ftl.ssd.sp q p = true
  idle : cur = [] → st.prevPpa = none ∨ seen = [] ∧ st.prevPpa = ftl.maptbl (startLpn / nrParts)

/-- The walk has come past the pages `seen`, and nothing is pending. -/
structure Walked (ftl : ConvFtl) (nrParts : Nat) (seen : List Nat)
    (reads : List (NandCmd × List Nat)) (st : ReadState) : Prop where
  clocks : ∃ ssd, ftl.ssd.SameFlash ssd ∧ st.ftl = { ftl with ssd }
  issued : st.ftl.ssd.issued = (reads.map Prod.fst).reverse ++ ftl.ssd.issued
  coalesced : Coalesced ftl.ssd.sp ftl.maptbl nrParts seen reads

section Walk

variable {E : Fault → Prop} {ftl : ConvFtl} {nrParts startLpn lpn : Nat} {seen cur : List Nat}
  {reads : List (NandCmd × List Nat)} {st : ReadState}

/-- The walk has seen nothing and has issued nothing. -/
theorem Walk.start (htimed : ftl.ssd.Timed) (nrParts startLpn nsecsLatest : Nat) (looked : List Nat) :
    Walk ftl nrParts startLpn [] [] []
      { ftl, xferSize := 0, prevPpa := ftl.maptbl (startLpn / nrParts), nsecsLatest, looked } where
  clocks := ⟨ftl.ssd, ⟨rfl, rfl, htimed⟩, rfl⟩
  issued := rfl
  covers := rfl
  each := nofun
  xferSize := (Nat.zero_mul _).symm
  pending h := absurd rfl h
  idle _ := .inr ⟨rfl, rfl⟩

/-- The pages looked up are not part of the walk. -/
theorem Walk.withLooked (h : Walk ftl nrParts startLpn seen reads cur st) (looked : List Nat) :
    Walk ftl nrParts startLpn seen reads cur { st with looked } :=
  ⟨h.clocks, h.issued, h.covers, h.each, h.xferSize, h.pending, h.idle⟩

/-- The pending run, if there is one, gets its command. -/
theorem Walk.issue (h : Walk ftl nrParts startLpn seen reads cur st) (hpgsz : 0 < ftl.ssd.sp.pgsz)
    (stime : Nat) :
    Ensures E (st.issue stime) (fun st' => ∃ reads', Walked ftl nrParts seen reads' st') := by
  obtain ⟨ssd, hsame, hftl⟩ := h.clocks
  have hissued : ssd.issued = (reads.map Prod.fst).reverse ++ ftl.ssd.issued := by
    have hst := h.issued
    rw [hftl] at hst
    exact hst
  have hcovers := h.covers
  have hxfer := h.xferSize
  unfold ReadState.issue
  by_cases hcur : cur = []
  · have hwalked : Walked ftl nrParts seen reads st := by
      rw [hcur, List.append_nil] at hcovers
      exact ⟨h.clocks, h.issued, hcovers, h.each⟩
    have hnone : ¬ 0 < st.xferSize := by
      rw [hxfer, hcur, List.length_nil, Nat.zero_mul]
      exact Nat.lt_irrefl 0
    cases st.prevPpa with
    | none => exact .pure ⟨reads, hwalked⟩
    | some p =>
      dsimp only
      rw [if_neg hnone]
      exact .pure ⟨reads, hwalked⟩
  · obtain ⟨p, hprev, hholds⟩ := h.pending hcur
    have hsome : 0 < st.xferSize := by
      rw [hxfer]
      exact Nat.mul_pos (List.length_pos_of_ne_nil hcur) hpgsz
    rw [hprev]
    dsimp only
    rw [if_pos hsome, hftl]
    apply ((ssdAdvanceNand_ensures hsame.timed _).and (ssdAdvanceNand_issued _ _)).bind
    rintro r ⟨hr, hnew⟩
    apply Ensures.pure
    refine ⟨reads ++ [({ type := .userIo, cmd := .read, xferSize := st.xferSize, stime
                         interleavePciDma := true, ppa := p }, cur)], ⟨r.1, hsame.trans hr, rfl⟩,
      ?_, ?_, ?_⟩
    · show r.1.issued = _
      rw [hnew, hissued, List.map_append, List.reverse_append]
      rfl
    · rw [List.map_append, List.flatten_append]
      simpa using hcovers
    · intro read hread
      rcases List.mem_append.mp hread with hold | hlast
      · exact h.each read hold
      · rw [List.mem_singleton.mp hlast]
        exact ⟨rfl, rfl, hcur, hxfer, hholds⟩

/-- An unmapped page is passed over. -/
theorem Walk.skip (h : Walk ftl nrParts startLpn seen reads cur st)
    (hfirst : seen = [] → lpn = startLpn) (hnone : ftl.maptbl (lpn / nrParts) = none) :
    Walk ftl nrParts startLpn (seen ++ [lpn]) reads cur st := by
  refine ⟨h.clocks, h.issued, ?_, h.each, h.xferSize, h.pending, fun hcur => ?_⟩
  · rw [List.filter_append, List.filter_singleton, hnone]
    simpa using h.covers
  · rcases h.idle hcur with hidle | ⟨hseen, hprev⟩
    · exact .inl hidle
    · rw [hfirst hseen] at hnone
      exact .inl (hprev.trans hnone)

/-- A mapped page more. -/
theorem mapped_append {maptbl : Nat → Option Ppa} {p : Ppa} (hsome : maptbl (lpn / nrParts) = some p) :
    (seen ++ [lpn]).filter (fun l => (maptbl (l / nrParts)).isSome) =
      seen.filter (fun l => (maptbl (l / nrParts)).isSome) ++ [lpn] := by
  rw [List.filter_append, List.filter_singleton, hsome]
  rfl

/-- A page in the flash page of the run joins the run. -/
theorem Walk.join (h : Walk ftl nrParts startLpn seen reads cur st) {p q : Ppa}
    (hsome : ftl.maptbl (lpn / nrParts) = some q) (hprev : st.prevPpa = some p)
    (hsame : isSameFlashPage ftl.ssd.sp q p = true) :
    Walk ftl nrParts startLpn (seen ++ [lpn]) reads (cur ++ [lpn])
      { st with xferSize := st.xferSize + ftl.ssd.sp.pgsz } := by
  refine ⟨h.clocks, h.issued, ?_, h.each, ?_, fun _ => ⟨p, hprev, fun l hl => ?_⟩, fun hcur => ?_⟩
  · rw [mapped_append hsome, ← h.covers, List.append_assoc]
  · show st.xferSize + _ = _
    rw [h.xferSize, List.length_append, List.length_singleton, Nat.add_mul, Nat.one_mul]
  · rcases List.mem_append.mp hl with hold | hlast
    · obtain ⟨p', hprev', hholds⟩ := h.pending (List.ne_nil_of_mem hold)
      rw [hprev] at hprev'
      cases hprev'
      exact hholds l hold
    · rw [List.mem_singleton.mp hlast]
      exact ⟨q, hsome, hsame⟩
  · exact absurd hcur (List.append_ne_nil_of_right_ne_nil _ (List.cons_ne_nil _ _))

/-- After the run has been closed a page begins the next one. -/
theorem Walked.next (h : Walked ftl nrParts seen reads st) {q : Ppa}
    (hsome : ftl.maptbl (lpn / nrParts) = some q) :
    Walk ftl nrParts startLpn (seen ++ [lpn]) reads [lpn]
      { st with xferSize := ftl.ssd.sp.pgsz, prevPpa := some q } := by
  refine ⟨h.clocks, h.issued, ?_, h.coalesced.each, (Nat.one_mul _).symm,
    fun _ => ⟨q, rfl, fun l hl => ?_⟩, fun hcur => absurd hcur (List.cons_ne_nil _ _)⟩
  · rw [mapped_append hsome, ← h.coalesced.covers]
  · rw [List.mem_singleton.mp hl]
    exact ⟨q, hsome, isSameFlashPage_refl _ q⟩

/-- One step of the walk. -/
theorem Walk.visit (h : Walk ftl nrParts startLpn seen reads cur st) (hpgsz : 0 < ftl.ssd.sp.pgsz)
    (hvalid : ∀ l p, ftl.maptbl l = some p → validPpa ftl.ssd.sp p = true)
    (hfirst : seen = [] → lpn = startLpn) (stime : Nat) :
    Ensures E (st.visit stime nrParts lpn)
      (fun st' => ∃ reads' cur', Walk ftl nrParts startLpn (seen ++ [lpn]) reads' cur' st') := by
  obtain ⟨ssd, hsame, hftl⟩ := h.clocks
  have hsp : st.ftl.ssd.sp = ftl.ssd.sp := by
    rw [hftl]
    exact hsame.sp
  have hmaptbl : st.ftl.getMaptblEnt (lpn / nrParts) = ftl.maptbl (lpn / nrParts) := by
    rw [hftl]
    rfl
  have hlooked := h.withLooked (st.looked ++ [lpn])
  unfold ReadState.visit
  dsimp only
  rw [hmaptbl, hsp]
  cases hmap : ftl.maptbl (lpn / nrParts) with
  | none => exact .pure ⟨reads, cur, hlooked.skip hfirst hmap⟩
  | some q =>
    dsimp only
    rw [hvalid _ q hmap, if_neg Bool.true_eq_false.mp]
    apply Ensures.ite
    · intro hany
      obtain ⟨p, hprev, hpage⟩ := (Option.any_eq_true _ _).mp hany
      exact .pure ⟨reads, cur ++ [lpn], hlooked.join hmap hprev hpage⟩
    · intro _
      apply (hlooked.issue hpgsz stime).bind
      rintro st' ⟨reads', hst'⟩
      exact .pure ⟨reads', [lpn], hst'.next hmap⟩

/-- A whole walk. -/
theorem readPart_walked (htimed : ftl.ssd.Timed) (hpgsz : 0 < ftl.ssd.sp.pgsz)
    (hvalid : ∀ l p, ftl.maptbl l = some p → validPpa ftl.ssd.sp p = true)
    (stime nrParts startLpn endLpn nsecsLatest : Nat) (looked : List Nat) :
    Ensures E (readPart ftl stime nrParts startLpn endLpn nsecsLatest looked) (fun st => ∃ reads,
      Walked ftl nrParts ((List.range ((endLpn - startLpn) / nrParts + 1)).map
        (startLpn + · * nrParts)) reads st) := by
  unfold readPart
  refine Ensures.bind (.forRange (I := fun k st => ∃ reads cur,
    Walk ftl nrParts startLpn ((List.range k).map (startLpn + · * nrParts)) reads cur st) ?_ ?_) ?_
  · exact ⟨[], [], .start htimed ..⟩
  · rintro k _ st ⟨reads, cur, hst⟩
    rw [List.range_succ, List.map_append]
    apply hst.visit hpgsz hvalid
    intro hseen
    have hk : k = 0 := by simpa using hseen
    rw [hk, Nat.zero_mul, Nat.add_zero]
  · rintro st ⟨reads, cur, hst⟩
    exact hst.issue hpgsz stime

end Walk

/-! ## The walks of a command -/

/-- The reads `reads` on the instance `i` account for the mapped pages of the command that belong to
the instance, each once. -/
structure ReadsMatched (spp : SsdParams) (ns : ConvNs) (cmd : NvmeCommand) (i : Nat)
    (reads : List (NandCmd × List Nat)) : Prop where
  each : ∀ read ∈ reads, ReadsRun spp (ns.ftls i).maptbl ns.nrParts read.1 read.2
  bounded : ∀ read ∈ reads, 1 ≤ read.2.length ∧ read.2.length ≤ spp.pgsPerFlashpg
  once : (reads.map Prod.snd).flatten.Nodup
  mem : ∀ lpn, lpn ∈ (reads.map Prod.snd).flatten ↔
    cmd.startLpn spp ≤ lpn ∧ lpn ≤ cmd.endLpn spp ∧ lpn % ns.nrParts = i ∧
      ((ns.ftls i).maptbl (lpn / ns.nrParts)).isSome = true

/-- The instance `i` has issued matching reads since `ns`, and nothing else. -/
def IssuedMatching (spp : SsdParams) (ns : ConvNs) (cmd : NvmeCommand) (ns' : ConvNs) (i : Nat) : Prop :=
  ∃ reads, ReadsMatched spp ns cmd i reads ∧
    (ns'.ftls i).ssd.issued = (reads.map Prod.fst).reverse ++ (ns.ftls i).ssd.issued

section Passes

variable {E : Fault → Prop} {spp : SsdParams} {ns : ConvNs} {cmd : NvmeCommand} {i : Nat}

/-- The distance from the first page decides the instance. -/
theorem stride_part {n s l i : Nat} (hsl : s ≤ l) (hi : i < n) :
    (l - s) % n = i ↔ l % n = (s + i) % n := by
  obtain ⟨d, rfl⟩ := Nat.exists_eq_add_of_le hsl
  rw [Nat.add_sub_cancel_left]
  constructor
  · intro hd
    rw [← hd, Nat.add_mod_mod]
  · intro hmod
    have hcancel : d % n = i % n := Nat.ModEq.add_left_cancel' s hmod
    rw [hcancel, Nat.mod_eq_of_lt hi]

theorem stride_inj {n s i j : Nat} (hi : i < n) (hj : j < n) (h : (s + i) % n = (s + j) % n) :
    i = j := by
  have hcancel : i % n = j % n := Nat.ModEq.add_left_cancel' s h
  rw [Nat.mod_eq_of_lt hi, Nat.mod_eq_of_lt hj] at hcancel
  exact hcancel

/-- A walk over an instance with sound tables matches. -/
theorem Walked.matched {ftl : ConvFtl} (hset : Settled ftl)
    (hsp : ftl.ssd.sp = spp) (hi : i < ns.nrParts) (hle : cmd.startLpn spp + i ≤ cmd.endLpn spp)
    (hmaptbl : ftl.maptbl = (ns.ftls ((cmd.startLpn spp + i) % ns.nrParts)).maptbl)
    {reads : List (NandCmd × List Nat)} {st : ReadState}
    (h : Walked ftl ns.nrParts ((List.range ((cmd.endLpn spp - (cmd.startLpn spp + i)) / ns.nrParts +
      1)).map (cmd.startLpn spp + i + · * ns.nrParts)) reads st) :
    ReadsMatched spp ns cmd ((cmd.startLpn spp + i) % ns.nrParts) reads := by
  have hpos : 0 < ns.nrParts := Nat.zero_lt_of_lt hi
  have heach := h.coalesced.each
  have hcovers := h.coalesced.covers
  rw [hsp, hmaptbl] at heach
  rw [hmaptbl] at hcovers
  have honce : (reads.map Prod.snd).flatten.Nodup := by
    rw [hcovers]
    exact (nodup_stride hpos _ _).filter _
  have hmem : ∀ lpn, lpn ∈ (reads.map Prod.snd).flatten ↔
      cmd.startLpn spp ≤ lpn ∧ lpn ≤ cmd.endLpn spp ∧
        lpn % ns.nrParts = (cmd.startLpn spp + i) % ns.nrParts ∧
        ((ns.ftls ((cmd.startLpn spp + i) % ns.nrParts)).maptbl (lpn / ns.nrParts)).isSome = true := by
    intro lpn
    rw [hcovers, List.mem_filter, mem_stride hi hle, and_assoc, and_assoc]
    apply and_congr_right
    intro hsl
    rw [stride_part hsl hi]
  refine ⟨heach, fun read hread => ?_, honce, hmem⟩
  have hrun := heach read hread
  have hin : ∀ l ∈ read.2, l ∈ (reads.map Prod.snd).flatten := fun l hl =>
    List.mem_flatten.mpr ⟨read.2, List.mem_map_of_mem hread, hl⟩
  refine ⟨List.length_pos_of_ne_nil hrun.nonempty, ?_⟩
  apply hrun.length_le (hsp ▸ hset.wf.pgsPerFlashpg_pos)
  · exact (List.nodup_flatten.mp honce).1 _ (List.mem_map_of_mem hread)
  · intro l hl l' hl' p hp hp'
    rw [← hmaptbl] at hp hp'
    have hlocal := hset.mapped.paired.injective hp hp'
    have hl₁ := ((hmem l).mp (hin l hl)).2.2.1
    have hl₂ := ((hmem l').mp (hin l' hl')).2.2.1
    rw [← Nat.div_add_mod l ns.nrParts, ← Nat.div_add_mod l' ns.nrParts, hlocal, hl₁, hl₂]

/-- After `i` passes of the outer loop: the instances passed have issued matching reads, the others
nothing. -/
structure MatchedUpTo (spp : SsdParams) (ns : ConvNs) (cmd : NvmeCommand) (i : Nat) (acc : ReadAcc) :
    Prop where
  passed : ∀ j, j < i → IssuedMatching spp ns cmd acc.ns ((cmd.startLpn spp + j) % ns.nrParts)
  ahead : ∀ j, i ≤ j → j < ns.nrParts →
    (acc.ns.ftls ((cmd.startLpn spp + j) % ns.nrParts)).ssd.issued =
      (ns.ftls ((cmd.startLpn spp + j) % ns.nrParts)).ssd.issued

/-- A pass behind the last page finds nothing to match. -/
theorem issuedMatching_none {ns' : ConvNs} (hi : i < ns.nrParts)
    (hgt : cmd.endLpn spp < cmd.startLpn spp + i)
    (hissued : (ns'.ftls ((cmd.startLpn spp + i) % ns.nrParts)).ssd.issued =
      (ns.ftls ((cmd.startLpn spp + i) % ns.nrParts)).ssd.issued) :
    IssuedMatching spp ns cmd ns' ((cmd.startLpn spp + i) % ns.nrParts) := by
  refine ⟨[], ⟨nofun, nofun, List.nodup_nil, fun lpn => ?_⟩, hissued⟩
  refine iff_of_false List.not_mem_nil fun h => ?_
  obtain ⟨hsl, hle, hpart, _⟩ := h
  have hdist := (stride_part hsl hi).mpr hpart
  have hmod : (lpn - cmd.startLpn spp) % ns.nrParts ≤ lpn - cmd.startLpn spp := Nat.mod_le ..
  omega

/-- One instance more. -/
theorem MatchedUpTo.pass {E' : Fault → Prop} {inside : Nat → Prop} {I : ConvFtl → Prop}
    (rule : PageRule E' spp inside I) (hpgsz : 0 < spp.pgsz) {acc : ReadAcc}
    (h : ReadUpTo I ns (cmd.startLpn spp) (cmd.endLpn spp) i acc) (hm : MatchedUpTo spp ns cmd i acc)
    (hi : i < ns.nrParts) (stime : Nat) :
    Ensures E (readPass stime (cmd.startLpn spp) (cmd.endLpn spp) i acc)
      (MatchedUpTo spp ns cmd (i + 1)) := by
  have hparts : acc.ns.nrParts = ns.nrParts := h.same.nrParts
  unfold readPass
  apply Ensures.ite
  · intro hle
    have hpart := h.inv.part _ (h.inv.idx_lt (cmd.startLpn spp + i))
    have hset := rule.settled _ hpart
    have hsp := rule.sp _ hpart
    have hwalk := @readPart_walked E _ hset.timed (by rw [hsp]; exact hpgsz)
      (fun l p hl => hset.mapped.valid hl)
      stime acc.ns.nrParts (cmd.startLpn spp + i) (cmd.endLpn spp) acc.nsecsLatest acc.looked
    apply hwalk.bind
    rintro st ⟨reads, hst⟩
    apply Ensures.pure
    rw [hparts] at hst hpart hset hsp
    have hmaptbl : (acc.ns.part ((cmd.startLpn spp + i) % ns.nrParts)).maptbl =
        (ns.ftls ((cmd.startLpn spp + i) % ns.nrParts)).maptbl := by
      obtain ⟨ssd, hftl, _, _⟩ := h.same.ftls ((cmd.startLpn spp + i) % ns.nrParts)
      show (acc.ns.ftls _).maptbl = _
      rw [hftl]
    have hmatched := hst.matched hset hsp hi hle hmaptbl
    have hself : ((acc.ns.setPart ((cmd.startLpn spp + i) % ns.nrParts) st.ftl).ftls
        ((cmd.startLpn spp + i) % ns.nrParts)).ssd.issued = (reads.map Prod.fst).reverse ++
          (ns.ftls ((cmd.startLpn spp + i) % ns.nrParts)).ssd.issued := by
      show (Function.update acc.ns.ftls _ st.ftl _).ssd.issued = _
      rw [Function.update_self, hst.issued, ← hm.ahead i (Nat.le_refl i) hi]
      rfl
    have hother : ∀ j, j < ns.nrParts → j ≠ i →
        (acc.ns.setPart ((cmd.startLpn spp + i) % ns.nrParts) st.ftl).ftls
          ((cmd.startLpn spp + j) % ns.nrParts) =
        acc.ns.ftls ((cmd.startLpn spp + j) % ns.nrParts) := by
      intro j hj hji
      exact Function.update_of_ne (fun he => hji (stride_inj hj hi he)) ..
    rw [hparts]
    constructor
    · intro j hj
      rcases Nat.lt_succ_iff_lt_or_eq.mp hj with hlt | rfl
      · obtain ⟨reads', hmatched', hissued'⟩ := hm.passed j hlt
        refine ⟨reads', hmatched', ?_⟩
        rw [hother j (hlt.trans hi) (Nat.ne_of_lt hlt)]
        exact hissued'
      · exact ⟨reads, hmatched, hself⟩
    · intro j hij hj
      rw [hother j hj (Nat.ne_of_gt hij)]
      exact hm.ahead j (Nat.le_of_succ_le hij) hj
  · intro hgt
    apply Ensures.pure
    constructor
    · intro j hj
      rcases Nat.lt_succ_iff_lt_or_eq.mp hj with hlt | rfl
      · exact hm.passed j hlt
      · exact issuedMatching_none hi (Nat.lt_of_not_le hgt) (hm.ahead j (Nat.le_refl j) hi)
    · exact fun j hij hj => hm.ahead j (Nat.le_of_succ_le hij) hj

/-- Every instance is passed once. -/
theorem MatchedUpTo.all {acc : ReadAcc} (h : MatchedUpTo spp ns cmd ns.nrParts acc)
    (hi : i < ns.nrParts) : IssuedMatching spp ns cmd acc.ns i := by
  have hpos : 0 < ns.nrParts := Nat.zero_lt_of_lt hi
  have hpass : (cmd.startLpn spp + (i + (ns.nrParts - cmd.startLpn spp % ns.nrParts)) %
      ns.nrParts) % ns.nrParts = i := by
    have hlt := Nat.mod_lt (cmd.startLpn spp) hpos
    have hsum : cmd.startLpn spp % ns.nrParts + (i + (ns.nrParts - cmd.startLpn spp % ns.nrParts)) =
        i + ns.nrParts := by omega
    rw [Nat.add_mod_mod, ← Nat.mod_add_mod, hsum, Nat.add_mod_right, Nat.mod_eq_of_lt hi]
  have hmatched := h.passed _ (Nat.mod_lt (i + (ns.nrParts - cmd.startLpn spp % ns.nrParts)) hpos)
  rw [hpass] at hmatched
  exact hmatched

/-- A read the range check admits issues matching reads on every instance. It meets no fault. -/
theorem convRead_matched {E' : Fault → Prop} {inside : Nat → Prop} {I : ConvFtl → Prop}
    (rule : PageRule E' spp inside I) (hpgsz : 0 < spp.pgsz) (h : NsInv I ns) {req : NvmevRequest}
    (hin : ns.outOfRange req.cmd = false) :
    Ensures E (convRead ns req) (fun r => r.2.accepted = true ∧
      ∀ i, i < ns.nrParts → IssuedMatching spp ns req.cmd r.1 i) := by
  unfold convRead
  rw [h.sp_eq rule]
  dsimp only
  rw [if_neg (Bool.eq_false_iff.mp hin)]
  refine Ensures.bind (.forRange (I := fun i acc =>
    ReadUpTo I ns (req.cmd.startLpn spp) (req.cmd.endLpn spp) i acc ∧
      MatchedUpTo spp ns req.cmd i acc) ?_ ?_) ?_
  · refine ⟨⟨h, .refl ns, List.nodup_nil, fun l => ?_⟩, ⟨fun j hj => ?_, fun _ _ _ => rfl⟩⟩
    · exact iff_of_false List.not_mem_nil fun hl => Nat.not_lt_zero _ hl.2.2
    · exact absurd hj (Nat.not_lt_zero j)
  · rintro i hi acc ⟨hacc, hm⟩
    exact (hacc.pass rule hi _).and (hm.pass (E := E) rule hpgsz hacc hi _)
  · rintro acc ⟨_, hm⟩
    exact .pure ⟨rfl, fun i hi => hm.all hi⟩

end Passes

/-- In every reachable state of a namespace an accepted read answers, and on every instance it
issues reads that account for its mapped pages, each once. Pages of one flash page that follow each
other are read by one command of at most that size, in the order of the loop; unmapped pages are
skipped. The state is any between two commands; what the reads do to the clocks is left to
`ssdAdvanceNand`. -/
theorem reads_coalesced {cfg : SsdConfig} {bytes : Nat} (w : (cfg.partParams bytes).WellFormed)
    (hparts : 0 < cfg.ssdPartitions) {s : NsRun} (h : (nsRuns cfg bytes).Reachable s)
    {req : NvmevRequest} (hin : s.ns.outOfRange req.cmd = false) (env : Env) :
    ∃ r env', (convRead s.ns req).run env = .ok (r, env') ∧ r.2.accepted = true ∧
      ∀ i, i < s.ns.nrParts → IssuedMatching (cfg.partParams bytes) s.ns req.cmd r.1 i := by
  have hset := (nsRuns_settled w hparts).reachable h
  have hpgsz : 0 < (cfg.partParams bytes).pgsz := (by decide : 0 < lbaSize * (4096 / lbaSize))
  exact answers (convRead_matched (settled_pageRule (E := fun _ => True) _ trivial) hpgsz hset.inv
    hin) env

/-- A run with an account is a run. -/
theorem nsRuns_of_accountRuns {cfg : SsdConfig} {bytes : Nat} {s : Account}
    (h : (accountRuns cfg bytes).Reachable s) : (nsRuns cfg bytes).Reachable s.toNsRun := by
  induction h with
  | init h₀ => exact .init h₀.1
  | @step s s' l _ hstep ih =>
    cases l with
    | command req =>
      obtain ⟨ans, hans, _⟩ := hstep
      exact ih.step (l := .command req) ⟨ans, hans⟩
    | release k => exact ih.step (l := .release k) hstep.1

/-- The first eight logical pages, two of each instance. -/
def eightPages (opcode : Opcode) : NvmeCommand :=
  { opcode, commandId := 0, slba := 0, length := 63, fua := false
    slba_lt := zero_lt_u64, length_lt := by decide }

/-- Eight pages that were written are read. -/
theorem reads_coalesced_gib : ∃ s, (nsRuns samsung970Pro gib).Reachable s ∧
    (∀ lpn < 8, (s.ns.pageOf lpn).isSome = true) ∧ ∃ r env',
      (convRead s.ns (oneRequest (eightPages .read))).run .zero = .ok (r, env') ∧
        ∀ i < 4, IssuedMatching (params970Pro gib) s.ns (eightPages .read) r.1 i := by
  obtain ⟨s, hguarded, hends⟩ := @exists_accountedGib [.command (oneRequest (eightPages .write))]
    (fun s => (∀ lpn : Nat, lpn < 8 → (s.ns.pageOf lpn).isSome = true) ∧ s.ns.nrParts = 4 ∧
      s.ns.outOfRange (eightPages .read) = false) (by decide +kernel)
  obtain ⟨hmapped, hparts, hinside⟩ := of_decide_eq_true hends
  have hreach := nsRuns_of_accountRuns hguarded.of_guarded
  obtain ⟨r, env', hrun, -, hissued⟩ := @reads_coalesced _ _ gib_wellFormed (by decide) _ hreach
    (oneRequest (eightPages .read)) hinside .zero
  exact ⟨s.toNsRun, hreach, hmapped, r, env', hrun, fun i hi => hissued i (hparts ▸ hi)⟩

end NvmeVirt

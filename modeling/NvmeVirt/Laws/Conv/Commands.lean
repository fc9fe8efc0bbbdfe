import NvmeVirt.Lib.System
import NvmeVirt.Laws.Conv.Namespace

/-!
# Commands, and runs of a namespace

What the loops of `conv_read` and `conv_write` do, how `conv_write` answers, and what every command
keeps. `nsRuns` is `conv_init_namespace` followed by commands and the releases they schedule, in any
order; `NsSettled` is its invariant.

The loops are taken apart once, over a rule for what one page write keeps (`PageRule`): the
invariants of the instances, of the mapping and of the learner are all carried through them by
giving such a rule. A read looks pages up and issues flash reads; it changes the clocks of the flash
model only (`Reading`).

Commands come one at a time, as the dispatcher calls them. Parameters that `ssd_init_params` would
refuse are left out by `WellFormed`.
-/

set_option autoImplicit false

namespace NvmeVirt

open Outcome

/-! ## The loop of `conv_write` -/

/-- What one pass does for the page `lpn`: it stamps the page, maps it, moves the user write pointer
of one instance by one page, and schedules the release of a wordline if it completed one. -/
structure PassDone (spp : SsdParams) (acc₀ : WriteAcc) (lpn : Nat) (acc : WriteAcc) : Prop
    extends acc₀.ns.SameShape acc.ns where
  writeBuffer : acc.ns.writeBuffer = acc₀.ns.writeBuffer
  others : ∀ i, i ≠ lpn % acc₀.ns.nrParts → acc.ns.ftls i = acc₀.ns.ftls i
  pageMeta : ∃ now, (acc.ns.ftls (lpn % acc₀.ns.nrParts)).pageMeta =
    Function.update (acc₀.ns.ftls (lpn % acc₀.ns.nrParts)).pageMeta (lpn / acc₀.ns.nrParts)
      { updateCnt := u32 (((acc₀.ns.ftls (lpn % acc₀.ns.nrParts)).pageMeta
          (lpn / acc₀.ns.nrParts)).updateCnt + 1)
        lastWriteTime := now }
  mapped : ∀ l, ((acc.ns.ftls (lpn % acc₀.ns.nrParts)).maptbl l).isSome ↔
    ((acc₀.ns.ftls (lpn % acc₀.ns.nrParts)).maptbl l).isSome ∨ l = lpn / acc₀.ns.nrParts
  wordline : ((acc.ns.ftls (lpn % acc₀.ns.nrParts)).wp .userIo).pg % spp.pgsPerOneshotpg =
    (((acc₀.ns.ftls (lpn % acc₀.ns.nrParts)).wp .userIo).pg + 1) % spp.pgsPerOneshotpg
  internal : acc.internal.map (·.2) = acc₀.internal.map (·.2) ++
    if (((acc₀.ns.ftls (lpn % acc₀.ns.nrParts)).wp .userIo).pg + 1) % spp.pgsPerOneshotpg = 0
    then [spp.pgsPerOneshotpg * spp.pgsz] else []

section Loops

variable {E E' : Fault → Prop} {spp : SsdParams} {inside : Nat → Prop} {I : ConvFtl → Prop}
  {ns : ConvNs}

/-- One page of a write, in its instance. -/
theorem writePass_ensures (rule : PageRule E spp inside I) {acc : WriteAcc} (h : NsInv I acc.ns)
    {lpn : Nat} (hin : inside (lpn / acc.ns.nrParts)) (stime : Nat) :
    Ensures E (writePass stime lpn acc) fun acc' => NsInv I acc'.ns ∧ PassDone spp acc lpn acc' := by
  have hpart := h.part _ (h.idx_lt lpn)
  have hset := rule.settled _ hpart
  have hsp := rule.sp _ hpart
  have hpage := convWritePage_ensures (E := fun _ => True) hset
    (hsp ▸ rule.local_lt _ hin : lpn / acc.ns.nrParts < (acc.ns.part _).ssd.sp.ttPgs) stime
    (.inl trivial)
  unfold writePass
  apply ((rule.write _ _ stime hpart hin).and hpage).bind
  intro r hr
  obtain ⟨ftl, nsecsDone⟩ := r
  obtain ⟨hI, -, ⟨ftl₁, hw, hrefill⟩, hsome⟩ := hr
  obtain ⟨-, -, hwp, hmeta⟩ := hrefill.params
  apply Ensures.pure
  have hns : (acc.done (acc.ns.setPart (lpn % acc.ns.nrParts) ftl) nsecsDone).ns =
      acc.ns.setPart (lpn % acc.ns.nrParts) ftl := by
    cases nsecsDone <;> rfl
  have hftl : (acc.ns.setPart (lpn % acc.ns.nrParts) ftl).ftls (lpn % acc.ns.nrParts) = ftl :=
    Function.update_self ..
  have hword := hw.wordline
  rw [hsp] at hword hsome
  constructor
  · rw [hns]
    exact h.setPart rule hI
  constructor
  · rw [hns]
    exact ⟨rfl, rfl⟩
  · rw [hns]
    rfl
  · intro i hi
    rw [hns]
    exact Function.update_of_ne hi ..
  · obtain ⟨now, hnow⟩ := hw.pageMeta
    rw [hns, hftl, hmeta]
    exact ⟨now, hnow⟩
  · intro l
    rw [hns, hftl, hrefill.isSome]
    by_cases hl : l = lpn / acc.ns.nrParts
    · rw [hl]
      exact iff_of_true hw.mapped (.inr rfl)
    · rw [hw.others l hl]
      exact (or_iff_left hl).symm
  · rw [hns, hftl, hwp]
    exact hword
  · cases nsecsDone with
    | none =>
      have hopen : ¬ (((acc.ns.ftls (lpn % acc.ns.nrParts)).wp .userIo).pg + 1) %
          spp.pgsPerOneshotpg = 0 := mt hsome.mpr nofun
      rw [if_neg hopen, List.append_nil]
      rfl
    | some t =>
      have hend : (((acc.ns.ftls (lpn % acc.ns.nrParts)).wp .userIo).pg + 1) %
          spp.pgsPerOneshotpg = 0 := hsome.mp rfl
      rw [if_pos hend, ← (h.setPart rule hI : NsInv I (acc.ns.setPart _ ftl)).sp_eq rule]
      exact List.map_append

/-- The loop of `conv_write`: what holds at its start and is kept by every pass holds at its end. -/
theorem convWritePages_ensures (rule : PageRule E spp inside I) (h : NsInv I ns)
    (req : NvmevRequest) {J : Nat → WriteAcc → Prop}
    (hin : ∀ lpn, req.cmd.startLpn spp ≤ lpn → lpn ≤ req.cmd.endLpn spp →
      inside (lpn / ns.nrParts))
    (hstart : ∀ pcie nsecsXfer, J 0 { ns := { ns with pcie }, nsecsLatest := nsecsXfer, internal := [] })
    (hpass : ∀ k acc acc', k < req.cmd.endLpn spp + 1 - req.cmd.startLpn spp →
      acc.ns.nrParts = ns.nrParts → J k acc → PassDone spp acc (req.cmd.startLpn spp + k) acc' →
      J (k + 1) acc') :
    Ensures E (convWritePages ns req) fun r => NsInv I r.1 ∧
      ∃ acc, J (req.cmd.endLpn spp + 1 - req.cmd.startLpn spp) acc ∧ r.1 = acc.ns ∧
        r.2.accepted = true ∧ r.2.result.status = nvmeScSuccess ∧ r.2.internal = acc.internal := by
  unfold convWritePages
  rw [h.sp_eq rule]
  have htimed := (rule.settled _ (h.part 0 h.parts_pos)).timed
  apply (ssdAdvanceWriteBuffer_ensures htimed _ _).bind
  intro r hr
  obtain ⟨ssd, nsecsXfer⟩ := r
  have h₁ := h.withPcie rule hr.timed.pcie
  refine Ensures.bind (.forRange
    (I := fun k acc => NsInv I acc.ns ∧ acc.ns.nrParts = ns.nrParts ∧ J k acc) ?_ ?_) ?_
  · exact ⟨h₁, rfl, hstart _ _⟩
  · intro k hk acc hacc
    obtain ⟨hinv, hparts, hJ⟩ := hacc
    have hlpn := hin (req.cmd.startLpn spp + k) (Nat.le_add_right _ _) (by omega)
    rw [← hparts] at hlpn
    apply (writePass_ensures rule hinv hlpn nsecsXfer).mono
    intro acc' hacc'
    exact ⟨hacc'.1, hacc'.2.nrParts.trans hparts, hpass k acc acc' hk hparts hJ hacc'.2⟩
  · intro acc hacc
    exact .pure ⟨hacc.1, acc, hacc.2.2, rfl, rfl, rfl, rfl⟩

/-! ## The loops of `conv_read` -/

/-- The read loops touch nothing but clocks, and look pages up. -/
structure Reading (ftl : ConvFtl) (looked : List Nat) (st : ReadState) : Prop where
  ftl : ∃ ssd, ftl.ssd.SameFlash ssd ∧ st.ftl = { ftl with ssd }
  looked : st.looked = looked

/-- The flash read collected so far is issued. -/
theorem Reading.issue {ftl : ConvFtl} {looked : List Nat} {st : ReadState}
    (h : Reading ftl looked st) (stime : Nat) :
    Ensures E (st.issue stime) (Reading ftl looked) := by
  obtain ⟨ssd, hs, hftl⟩ := h.ftl
  unfold ReadState.issue
  cases st.prevPpa with
  | none => exact .pure h
  | some ppa =>
    apply Ensures.ite
    · intro _
      rw [hftl]
      apply (ssdAdvanceNand_ensures hs.timed _).bind
      intro r hr
      exact .pure ⟨⟨r.1, hs.trans hr, rfl⟩, h.looked⟩
    · intro _
      exact .pure h

/-- One page is looked up, and joined to the flash read or starting another. -/
theorem Reading.visit {ftl : ConvFtl} {looked : List Nat} {st : ReadState}
    (h : Reading ftl looked st) (stime nrParts lpn : Nat) :
    Ensures E (st.visit stime nrParts lpn) (Reading ftl (looked ++ [lpn])) := by
  have h' : Reading ftl (looked ++ [lpn]) { st with looked := st.looked ++ [lpn] } :=
    ⟨h.ftl, by rw [h.looked]⟩
  unfold ReadState.visit
  dsimp only
  cases st.ftl.getMaptblEnt (lpn / nrParts) with
  | none => exact .pure h'
  | some ppa =>
    apply Ensures.ite
    · intro _
      exact .pure h'
    · intro _
      apply Ensures.ite
      · intro _
        exact .pure ⟨h'.ftl, h'.looked⟩
      · intro _
        apply (h'.issue stime).bind
        intro st' hst'
        exact .pure ⟨hst'.ftl, hst'.looked⟩

/-- One pass of the outer loop looks up every `nr_parts`-th page. -/
theorem readPart_ensures {ftl : ConvFtl} (htimed : ftl.ssd.Timed)
    (stime nrParts startLpn endLpn nsecsLatest : Nat) (looked : List Nat) :
    Ensures E (readPart ftl stime nrParts startLpn endLpn nsecsLatest looked)
      (Reading ftl (looked ++ (List.range ((endLpn - startLpn) / nrParts + 1)).map
        (startLpn + · * nrParts))) := by
  unfold readPart
  refine Ensures.bind (.forRange
    (I := fun k => Reading ftl (looked ++ (List.range k).map (startLpn + · * nrParts))) ?_ ?_) ?_
  · exact ⟨⟨ftl.ssd, ⟨rfl, rfl, htimed⟩, rfl⟩, (List.append_nil _).symm⟩
  · intro k _ st hst
    rw [List.range_succ, List.map_append, ← List.append_assoc]
    exact hst.visit stime nrParts _
  · intro st hst
    exact hst.issue stime

/-- The pages of one pass are those at its distance from the first page, modulo `nr_parts`. -/
theorem mem_stride {n i s e l : Nat} (hi : i < n) (hse : s + i ≤ e) :
    l ∈ (List.range ((e - (s + i)) / n + 1)).map (s + i + · * n) ↔
      s ≤ l ∧ l ≤ e ∧ (l - s) % n = i := by
  have hn : 0 < n := Nat.zero_lt_of_lt hi
  rw [List.mem_map]
  constructor
  · intro h
    obtain ⟨k, hk, rfl⟩ := h
    have hle : k * n ≤ e - (s + i) :=
      (Nat.le_div_iff_mul_le hn).mp (Nat.le_of_lt_succ (List.mem_range.mp hk))
    have hdist : s + i + k * n - s = i + k * n := by omega
    refine ⟨by omega, by omega, ?_⟩
    rw [hdist, Nat.add_mul_mod_self_right, Nat.mod_eq_of_lt hi]
  · intro h
    obtain ⟨hsl, hle, hmod⟩ := h
    have hdiv := Nat.div_add_mod' (l - s) n
    rw [hmod] at hdiv
    refine ⟨(l - s) / n, List.mem_range.mpr (Nat.lt_succ_of_le ?_), by omega⟩
    exact (Nat.le_div_iff_mul_le hn).mpr (by omega)

/-- The pages of one instance are apart from each other. -/
theorem nodup_stride {n : Nat} (hn : 0 < n) (s k : Nat) :
    ((List.range k).map (s + · * n)).Nodup := by
  apply List.nodup_range.map
  intro a b hab
  exact Nat.eq_of_mul_eq_mul_right hn (Nat.add_left_cancel hab)

/-- After `i` passes: the pages looked up are those of the range at a distance below `i`. -/
structure ReadUpTo (I : ConvFtl → Prop) (ns : ConvNs) (s e i : Nat) (acc : ReadAcc) : Prop where
  inv : NsInv I acc.ns
  same : ns.SameContents acc.ns
  nodup : acc.looked.Nodup
  mem : ∀ l, l ∈ acc.looked ↔ s ≤ l ∧ l ≤ e ∧ (l - s) % ns.nrParts < i

/-- The pass of one instance. -/
theorem ReadUpTo.pass (rule : PageRule E' spp inside I) {s e i : Nat} {acc : ReadAcc}
    (h : ReadUpTo I ns s e i acc) (hi : i < ns.nrParts) (stime : Nat) :
    Ensures E (readPass stime s e i acc) (ReadUpTo I ns s e (i + 1)) := by
  unfold readPass
  have hparts : acc.ns.nrParts = ns.nrParts := h.same.nrParts
  apply Ensures.ite
  · intro hse
    have hpart := h.inv.part _ (h.inv.idx_lt (s + i))
    apply (readPart_ensures (rule.settled _ hpart).timed stime _ _ _ _ _).bind
    intro st hst
    obtain ⟨ssd, hs, hftl⟩ := hst.ftl
    apply Ensures.pure
    rw [hparts] at hst
    rw [hftl]
    refine ⟨h.inv.setPart rule (rule.withSsd _ ssd hpart hs), h.same.trans (.setPart _ _ hs), ?_, ?_⟩
    · show st.looked.Nodup
      rw [hst.looked]
      refine List.nodup_append'.mpr ⟨h.nodup, nodup_stride (Nat.zero_lt_of_lt hi) _ _, ?_⟩
      intro l hold hnew
      have hlt := ((h.mem l).mp hold).2.2
      have heq := ((mem_stride hi hse).mp hnew).2.2
      omega
    · intro l
      show l ∈ st.looked ↔ _
      rw [hst.looked, List.mem_append, h.mem, mem_stride hi hse]
      omega
  · intro hse
    refine .pure ⟨h.inv, h.same, h.nodup, fun l => ?_⟩
    rw [h.mem]
    constructor
    · intro hl
      exact ⟨hl.1, hl.2.1, by omega⟩
    · intro hl
      obtain ⟨hsl, hle, hlt⟩ := hl
      have hdist : (l - s) % ns.nrParts ≤ l - s := Nat.mod_le ..
      exact ⟨hsl, hle, by omega⟩

/-! ## The commands -/

/-- A read out of range is refused as it is. -/
theorem convRead_outOfRange {req : NvmevRequest} (hout : ns.outOfRange req.cmd = true) :
    convRead ns req = pure (ns, .refuse (refusal req nvmeScLbaRange)) := by
  unfold convRead
  dsimp only
  rw [if_pos hout]

/-- What an accepted read does. -/
structure ReadDone (spp : SsdParams) (ns : ConvNs) (req : NvmevRequest)
    (r : ConvNs × IoAnswer) : Prop where
  same : ns.SameContents r.1
  accepted : r.2.accepted = true
  status : r.2.result.status = nvmeScSuccess
  internal : r.2.internal = []
  nodup : r.2.looked.Nodup
  mem : ∀ l, l ∈ r.2.looked ↔ req.cmd.startLpn spp ≤ l ∧ l ≤ req.cmd.endLpn spp

/-- A read the range check admits looks up the pages of its loops, each once. It meets no fault. -/
theorem convRead_ensures (rule : PageRule E' spp inside I) (h : NsInv I ns) {req : NvmevRequest}
    (hin : ns.outOfRange req.cmd = false) :
    Ensures E (convRead ns req) fun r => NsInv I r.1 ∧ ReadDone spp ns req r := by
  unfold convRead
  rw [h.sp_eq rule]
  dsimp only
  rw [if_neg (Bool.eq_false_iff.mp hin)]
  refine Ensures.bind (.forRange
    (I := ReadUpTo I ns (req.cmd.startLpn spp) (req.cmd.endLpn spp)) ?_ ?_) ?_
  · refine ⟨h, .refl ns, List.nodup_nil, fun l => ?_⟩
    exact iff_of_false List.not_mem_nil fun hl => Nat.not_lt_zero _ hl.2.2
  · intro i hi acc hacc
    exact hacc.pass rule hi _
  · intro acc hacc
    refine .pure ⟨hacc.inv, hacc.same, rfl, rfl, rfl, hacc.nodup, fun l => ?_⟩
    show l ∈ acc.looked ↔ _
    rw [hacc.mem]
    have hlt := Nat.mod_lt (l - req.cmd.startLpn spp) h.parts_pos
    exact ⟨fun hl => ⟨hl.1, hl.2.1⟩, fun hl => ⟨hl.1, hl.2, hlt⟩⟩

/-- Without a wrap the last page is that of the last LBA. -/
theorem NvmeCommand.endLpn_eq (cmd : NvmeCommand) (hwrap : cmd.slba + cmd.nrLba < 2 ^ 64)
    (spp : SsdParams) : cmd.endLpn spp = (cmd.slba + cmd.nrLba - 1) / spp.secsPerPg := by
  have hpos : 0 < cmd.nrLba := Nat.succ_pos _
  have hsub : sub64 (u64 (cmd.slba + cmd.nrLba)) 1 = cmd.slba + cmd.nrLba - 1 := by
    unfold sub64 u64
    omega
  unfold NvmeCommand.endLpn
  rw [hsub]

theorem NvmeCommand.bytes_pos (cmd : NvmeCommand) : 0 < cmd.bytes := by
  unfold NvmeCommand.bytes lbaToByte NvmeCommand.nrLba lbaSize
  exact Nat.mul_pos (Nat.succ_pos _) (by decide)

/-- So is a write. -/
theorem convWrite_outOfRange {req : NvmevRequest} (hout : ns.outOfRange req.cmd = true) :
    convWrite ns req = pure (ns, .refuse (refusal req nvmeScLbaRange)) := by
  unfold convWrite
  rw [if_pos hout]

/-- A write larger than the whole buffer fails the assertion of `buffer_allocate`. -/
theorem convWrite_tooLarge {req : NvmevRequest} (hin : ns.outOfRange req.cmd = false)
    (hlarge : ns.writeBuffer.size < req.cmd.bytes) : convWrite ns req = throw .bugOn := by
  unfold convWrite
  rw [if_neg (Bool.eq_false_iff.mp hin), bufferAllocate_tooLarge hlarge]
  rfl

/-- A write the buffer has no room for is refused, and nothing has happened yet. -/
theorem convWrite_short {req : NvmevRequest} (hin : ns.outOfRange req.cmd = false)
    (hfits : req.cmd.bytes ≤ ns.writeBuffer.size)
    (hshort : ns.writeBuffer.remaining < req.cmd.bytes) :
    convWrite ns req = pure (ns, .refuse (refusal req nvmeScInternal)) := by
  unfold convWrite
  rw [if_neg (Bool.eq_false_iff.mp hin), bufferAllocate_short hfits hshort, pure_bind]
  exact if_pos req.cmd.bytes_pos

/-- The namespace with the bytes of a write charged. -/
def ConvNs.charge (ns : ConvNs) (bytes : Nat) : ConvNs :=
  { ns with writeBuffer := { ns.writeBuffer with remaining := ns.writeBuffer.remaining - bytes } }

/-- An admitted write is charged its bytes. -/
theorem convWrite_charged {req : NvmevRequest} (hin : ns.outOfRange req.cmd = false)
    (hfits : req.cmd.bytes ≤ ns.writeBuffer.size)
    (hroom : req.cmd.bytes ≤ ns.writeBuffer.remaining) :
    convWrite ns req = convWritePages (ns.charge req.cmd.bytes) req := by
  unfold convWrite
  rw [if_neg (Bool.eq_false_iff.mp hin), bufferAllocate_room hfits hroom, pure_bind]
  exact if_neg (Nat.lt_irrefl _)

/-- A write the range check and the buffer admit. -/
def ConvNs.Admits (ns : ConvNs) (cmd : NvmeCommand) : Prop :=
  ns.outOfRange cmd = false ∧ cmd.bytes ≤ ns.writeBuffer.remaining

/-- A write that answers was admitted and went through its loop, or it was refused and nothing
happened. -/
theorem convWrite_cases {req : NvmevRequest} {env env' : Env} {r : ConvNs × IoAnswer}
    (hrun : (convWrite ns req).run env = .ok (r, env')) :
    (ns.Admits req.cmd ∧ (convWritePages (ns.charge req.cmd.bytes) req).run env = .ok (r, env')) ∨
      (¬ ns.Admits req.cmd ∧ ∃ status, r = (ns, .refuse (refusal req status))) := by
  cases hout : ns.outOfRange req.cmd with
  | true =>
    rw [convWrite_outOfRange hout] at hrun
    cases hrun
    exact .inr ⟨fun h => Bool.false_ne_true (h.1.symm.trans hout), _, rfl⟩
  | false =>
    rcases Nat.lt_or_ge ns.writeBuffer.size req.cmd.bytes with hlarge | hfits
    · rw [convWrite_tooLarge hout hlarge] at hrun
      cases hrun
    rcases Nat.lt_or_ge ns.writeBuffer.remaining req.cmd.bytes with hshort | hroom
    · rw [convWrite_short hout hfits hshort] at hrun
      cases hrun
      exact .inr ⟨fun h => Nat.not_le.mpr hshort h.2, _, rfl⟩
    · rw [convWrite_charged hout hfits hroom] at hrun
      exact .inl ⟨⟨hout, hroom⟩, hrun⟩

/-- The local pages of an admitted range are below the bound of the check. -/
theorem ConvNs.localLpn_of_le {cmd : NvmeCommand} (hin : ns.outOfRange cmd = false) {lpn : Nat}
    (hle : lpn ≤ cmd.endLpn ns.sp) : ns.sp.LocalLpn (lpn / ns.nrParts) :=
  (Nat.div_le_div_right hle).trans_lt (Nat.not_le.mp (of_decide_eq_false hin))

/-- A flush comes to its end. -/
theorem convFlush_ensures (ns : ConvNs) : Ensures E (convFlush ns) fun _ => True := by
  unfold convFlush
  apply cpuClock_ensures.bind
  intro start _
  apply Ensures.ite
  · intro _
    exact .pure trivial
  · intro _
    refine Ensures.bind (.forRange (I := fun _ _ => True) trivial ?_) ?_
    · intro i _ latest _
      exact (ssdNextIdleTime_ensures _).bind fun _ _ => .pure trivial
    · intro latest _
      exact .pure trivial

/-- A command that is not a write changes clocks only, and schedules nothing. -/
theorem convProcNvmeIoCmd_quiet (rule : PageRule E' spp inside I) (h : NsInv I ns)
    {req : NvmevRequest} (hop : req.cmd.opcode ≠ .write) :
    Ensures E (convProcNvmeIoCmd ns req) fun r => NsInv I r.1 ∧ ns.SameContents r.1 ∧
      r.2.internal = [] := by
  unfold convProcNvmeIoCmd
  cases hcmd : req.cmd.opcode with
  | write => exact absurd hcmd hop
  | read =>
    show Ensures E (convRead ns req) _
    cases hout : ns.outOfRange req.cmd with
    | true =>
      rw [convRead_outOfRange hout]
      exact .pure ⟨h, .refl ns, rfl⟩
    | false =>
      apply (convRead_ensures rule h hout).mono
      intro r hr
      exact ⟨hr.1, hr.2.same, hr.2.internal⟩
  | flush =>
    apply (convFlush_ensures ns).bind
    intro result _
    exact .pure ⟨h, .refl ns, rfl⟩
  | other => exact .pure ⟨h, .refl ns, rfl⟩

theorem convProcNvmeIoCmd_write {req : NvmevRequest} (hop : req.cmd.opcode = .write) :
    convProcNvmeIoCmd ns req = convWrite ns req := by
  unfold convProcNvmeIoCmd
  rw [hop]

/-- The loop of an admitted write keeps the invariant of the instances, the shape of the namespace
and the size of the write buffer. -/
theorem convWritePages_inv (rule : PageRule E spp spp.LocalLpn I) (h : NsInv I ns)
    {req : NvmevRequest} (hin : ns.outOfRange req.cmd = false) :
    Ensures E (convWritePages (ns.charge req.cmd.bytes) req) fun r => NsInv I r.1 ∧
      ns.SameShape r.1 ∧ r.1.writeBuffer.size = ns.writeBuffer.size := by
  have hcharged : NsInv I (ns.charge req.cmd.bytes) := h.withBuffer _
  have hsp : ns.sp = spp := h.sp_eq rule
  refine (convWritePages_ensures rule hcharged req (J := fun _ acc =>
    ns.SameShape acc.ns ∧ acc.ns.writeBuffer.size = ns.writeBuffer.size) ?_ ?_ ?_).mono ?_
  · intro lpn _ hle
    have hlocal := ConvNs.localLpn_of_le hin (hsp ▸ hle)
    exact hsp ▸ hlocal
  · intro pcie nsecsXfer
    exact ⟨⟨rfl, rfl⟩, rfl⟩
  · intro k acc acc' _ _ hJ hpass
    obtain ⟨hshape, hsize⟩ := hJ
    refine ⟨⟨hpass.nrParts.trans hshape.nrParts, hpass.size.trans hshape.size⟩, ?_⟩
    rw [hpass.writeBuffer]
    exact hsize
  · intro r hr
    obtain ⟨hinv, acc, hJ, hns, -⟩ := hr
    rw [hns] at hinv ⊢
    exact ⟨hinv, hJ⟩

/-- A command that answers keeps the invariant of the instances, the shape of the namespace and the
size of the write buffer. -/
theorem convProcNvmeIoCmd_inv (rule : PageRule (fun _ => True) spp spp.LocalLpn I) (h : NsInv I ns)
    {req : NvmevRequest} {env env' : Env} {r : ConvNs × IoAnswer}
    (hrun : (convProcNvmeIoCmd ns req).run env = .ok (r, env')) :
    NsInv I r.1 ∧ ns.SameShape r.1 ∧ r.1.writeBuffer.size = ns.writeBuffer.size := by
  by_cases hop : req.cmd.opcode = .write
  · rw [convProcNvmeIoCmd_write hop] at hrun
    rcases convWrite_cases hrun with ⟨hadmits, hpages⟩ | ⟨_, status, rfl⟩
    · exact (convWritePages_inv rule h hadmits.1).of_run hpages
    · exact ⟨h, ⟨rfl, rfl⟩, rfl⟩
  · obtain ⟨hinv, hsame, _⟩ :=
      (convProcNvmeIoCmd_quiet (E := fun _ => True) rule h hop).of_run hrun
    exact ⟨hinv, hsame.toSameShape, congrArg Buffer.size hsame.writeBuffer⟩

end Loops

/-! ## Runs of a namespace -/

/-- A namespace and the bytes of the `buffer_release` calls that were scheduled and not executed. -/
structure NsRun where
  ns : ConvNs
  pending : List Nat

/-- A command is processed, or the `k`-th scheduled release is executed. -/
inductive NsStep where
  | command (req : NvmevRequest)
  | release (k : Nat)

namespace NsRun

/-- `proc_io_cmd` answers `ans` to a command, and the wordlines it programmed are scheduled. -/
def Answers (s : NsRun) (req : NvmevRequest) (ans : IoAnswer) (s' : NsRun) : Prop :=
  (∃ env env', (convProcNvmeIoCmd s.ns req).run env = .ok ((s'.ns, ans), env')) ∧
    s'.pending = s.pending ++ ans.internal.map (·.2)

/-- The `k`-th scheduled release is executed. -/
def Releases (s : NsRun) (k : Nat) (s' : NsRun) : Prop :=
  ∃ bytes, s.pending[k]? = some bytes ∧
    s' = { ns := { s.ns with writeBuffer := bufferRelease s.ns.writeBuffer bytes }
           pending := s.pending.eraseIdx k }

/-- The steps of a namespace. -/
def Step (s : NsRun) (l : NsStep) (s' : NsRun) : Prop :=
  match l with
  | .command req => ∃ ans, s.Answers req ans s'
  | .release k => s.Releases k s'

end NsRun

/-- `conv_init_namespace` followed by commands and releases in any order. -/
def nsRuns (cfg : SsdConfig) (bytes : Nat) : System NsRun NsStep where
  init s := s.pending = [] ∧ ∃ env env', (convInitNamespace cfg bytes).run env = .ok (s.ns, env')
  step := NsRun.Step

/-- The states a namespace can come to from `s`. -/
def NsRun.onwards (s : NsRun) : System NsRun NsStep where
  init := (· = s)
  step := NsRun.Step

/-- What holds of a namespace between two commands. -/
structure NsSettled (cfg : SsdConfig) (bytes : Nat) (ns : ConvNs) : Prop where
  inv : NsInv (SettledWith (cfg.partParams bytes)) ns
  nrParts : ns.nrParts = cfg.ssdPartitions
  size : ns.size = convNsSize cfg (cfg.partParams bytes) bytes
  bufferSize : ns.writeBuffer.size = (cfg.partParams bytes).writeBufferSize

theorem NsSettled.sp {cfg : SsdConfig} {bytes : Nat} {ns : ConvNs} (h : NsSettled cfg bytes ns) :
    ns.sp = cfg.partParams bytes :=
  h.inv.sp_eq (settled_pageRule (E := fun _ => True) _ trivial)

/-- A command keeps it. -/
theorem NsSettled.answers {cfg : SsdConfig} {bytes : Nat} {s s' : NsRun} {req : NvmevRequest}
    {ans : IoAnswer} (h : NsSettled cfg bytes s.ns) (hans : s.Answers req ans s') :
    NsSettled cfg bytes s'.ns := by
  obtain ⟨⟨env, env', hrun⟩, -⟩ := hans
  obtain ⟨hinv, hshape, hsize⟩ :=
    convProcNvmeIoCmd_inv (settled_pageRule _ trivial) h.inv hrun
  exact ⟨hinv, hshape.nrParts.trans h.nrParts, hshape.size.trans h.size, hsize.trans h.bufferSize⟩

/-- So does a release. -/
theorem NsSettled.releases {cfg : SsdConfig} {bytes k : Nat} {s s' : NsRun}
    (h : NsSettled cfg bytes s.ns) (hrel : s.Releases k s') : NsSettled cfg bytes s'.ns := by
  obtain ⟨b, _, rfl⟩ := hrel
  exact ⟨h.inv.withBuffer _, h.nrParts, h.size, h.bufferSize⟩

/-- A fresh namespace is settled. -/
theorem convInitNamespace_settled {cfg : SsdConfig} {bytes : Nat}
    (w : (cfg.partParams bytes).WellFormed) (hparts : 0 < cfg.ssdPartitions) {ns : ConvNs}
    {env env' : Env} (hrun : (convInitNamespace cfg bytes).run env = .ok (ns, env')) :
    NsSettled cfg bytes ns ∧ FreshNs cfg bytes ns := by
  have hinit := (convInitFtl_ensures (E := fun _ => True) w
    (convInitParams cfg (cfg.partParams bytes)) (.inl trivial)).mono
      (Q := SettledWith (cfg.partParams bytes)) fun ftl hf => ⟨hf.settled, hf.sp⟩
  obtain ⟨hinv, hfresh⟩ := (convInitNamespace_ensures
    (settled_pageRule (E := fun _ => True) _ trivial) w hparts hinit).of_run hrun
  exact ⟨⟨hinv, hfresh.nrParts, hfresh.size, congrArg Buffer.size hfresh.writeBuffer⟩, hfresh⟩

/-- A step of a run keeps it. -/
theorem NsSettled.step {cfg : SsdConfig} {bytes : Nat} {s s' : NsRun} {l : NsStep}
    (h : NsSettled cfg bytes s.ns) (hstep : s.Step l s') : NsSettled cfg bytes s'.ns := by
  cases l with
  | command req =>
    obtain ⟨ans, hans⟩ := hstep
    exact h.answers hans
  | release k => exact h.releases hstep

/-- By induction over the commands, of any kind, and the releases between them. -/
theorem nsRuns_settled {cfg : SsdConfig} {bytes : Nat} (w : (cfg.partParams bytes).WellFormed)
    (hparts : 0 < cfg.ssdPartitions) :
    (nsRuns cfg bytes).Invariant fun s => NsSettled cfg bytes s.ns where
  init s hs := by
    obtain ⟨-, env, env', hrun⟩ := hs
    exact (convInitNamespace_settled w hparts hrun).1
  step _ _ _ h hstep := h.step hstep

/-! ## The 970PRO namespace -/

/-- The space a 970PRO instance exports, and a potential that lasts for it. -/
def Steady970Pro (size : Nat) : ConvFtl → Prop :=
  Steady 276 (1600 * (params970Pro size).pgsPerLine) (cp970Pro size) (params970Pro size)

/-- The initialisation of a 970PRO namespace completes. -/
theorem convInitNamespace970Pro_ensures {size : Nat} (hpos : 1 ≤ (params970Pro size).pgsPerBlk)
    (hle : (params970Pro size).pgsPerBlk ≤ 65536) :
    Ensures NoFault (convInitNamespace samsung970Pro size) fun ns =>
      NsInv (Steady970Pro size) ns ∧ FreshNs samsung970Pro size ns := by
  have w := params970Pro_wellFormed hpos hle
  have ha := ample_970Pro hpos hle
  exact convInitNamespace_ensures (steady_pageRule ha) w (by decide) (convInitFtl_steady w ha)

theorem exists_fresh970Pro {size : Nat} (hpos : 1 ≤ (params970Pro size).pgsPerBlk)
    (hle : (params970Pro size).pgsPerBlk ≤ 65536) :
    ∃ s, (nsRuns samsung970Pro size).Reachable s ∧ FreshNs samsung970Pro size s.ns := by
  obtain ⟨ns, env', hrun, _, hfresh⟩ := answers (convInitNamespace970Pro_ensures hpos hle) .zero
  exact ⟨⟨ns, []⟩, .init ⟨rfl, .zero, env', hrun⟩, hfresh⟩

/-- A request for one command, processed at time 0. -/
def oneRequest (cmd : NvmeCommand) : NvmevRequest := { cmd, sqId := 1, nsecsStart := 0 }

end NvmeVirt

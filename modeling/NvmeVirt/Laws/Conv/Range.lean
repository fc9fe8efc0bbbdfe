import NvmeVirt.Laws.Conv.Commands

/-!
# The range check

The limit of a command is the size that identify reports (`Exports`); the limit of the check is the
number of physical pages of an instance (`outOfRange`), and the last page it tests is that of a sum
that may wrap. So a command is treated as it should if it is inside the exported size, or caught by
the check, and only then.

What a command that is not caught does is followed through the two loops: it writes or looks up the
pages its LBAs overlap (`overlaps_iff`, `convWrite_updated`, `convRead_looks`), and no others. A
write is admitted to the buffer first; one that waits there is neither accepted nor rejected
(`IoAnswer.NotRejected`). `rangeChecked_iff` joins the cases.

The pages a command beyond the limit reaches are those of the same instances, so no array is left;
what goes wrong is that the host is not told.
-/

set_option autoImplicit false

namespace NvmeVirt

open Outcome

/-- All LBAs of the command are below `ns->size >> LBA_BITS`. -/
def ConvNs.Exports (ns : ConvNs) (cmd : NvmeCommand) : Prop :=
  cmd.slba + cmd.length < ns.size / lbaSize

/-- The logical page `lpn` overlaps the LBAs `slba .. slba + length`. -/
def NvmeCommand.Overlaps (cmd : NvmeCommand) (spp : SsdParams) (lpn : Nat) : Prop :=
  ∃ lba, cmd.slba ≤ lba ∧ lba ≤ cmd.slba + cmd.length ∧ lba / spp.secsPerPg = lpn

namespace ConvNs

/-- The metadata of a logical page of the namespace, in the instance that has it. -/
def metaOf (ns : ConvNs) (lpn : Nat) : PageMeta :=
  (ns.ftls (lpn % ns.nrParts)).pageMeta (lpn / ns.nrParts)

/-- The page a logical page of the namespace is mapped to. -/
def pageOf (ns : ConvNs) (lpn : Nat) : Option Ppa :=
  (ns.ftls (lpn % ns.nrParts)).maptbl (lpn / ns.nrParts)

/-- The logical pages `touched` were written once, the others were not. A collection may have moved
any page. -/
structure Updated (ns : ConvNs) (touched : Nat → Prop) (ns' : ConvNs) : Prop where
  written : ∀ lpn, touched lpn → (ns'.pageOf lpn).isSome ∧
    (ns'.metaOf lpn).updateCnt = u32 ((ns.metaOf lpn).updateCnt + 1)
  kept : ∀ lpn, ¬ touched lpn → ns'.metaOf lpn = ns.metaOf lpn ∧
    ((ns'.pageOf lpn).isSome ↔ (ns.pageOf lpn).isSome)

end ConvNs

/-- The range check is sound for one command in one state: an exported command that is accepted has
its effect on exactly the pages it overlaps, and every other one is rejected and changes nothing. -/
structure RangeChecked (ns : ConvNs) (req : NvmevRequest)
    (proc : ConvNs → NvmevRequest → FtlM (ConvNs × IoAnswer))
    (effect : ConvNs → IoAnswer → (Nat → Prop) → Prop) : Prop where
  accepts : ns.Exports req.cmd → ∀ env ns' ans env',
    (proc ns req).run env = .ok ((ns', ans), env') → ans.accepted = true →
    effect ns' ans (req.cmd.Overlaps ns.sp)
  rejects : ¬ ns.Exports req.cmd → ∀ env,
    (proc ns req).run env = .ok ((ns, .refuse (refusal req nvmeScLbaRange)), env)

/-- `conv_write` updates the pages. -/
def WriteChecked (ns : ConvNs) (req : NvmevRequest) : Prop :=
  RangeChecked ns req convWrite fun ns' _ touched => ns.Updated touched ns'

/-- `conv_read` looks up the pages, each once, and leaves the contents. -/
def ReadChecked (ns : ConvNs) (req : NvmevRequest) : Prop :=
  RangeChecked ns req convRead fun ns' ans touched =>
    ns.SameContents ns' ∧ ans.looked.Nodup ∧ ∀ lpn, lpn ∈ ans.looked ↔ touched lpn

/-! ## The pages of the loops -/

namespace NvmeCommand

variable {cmd : NvmeCommand} {spp : SsdParams}

/-- The pages between the first and the last one are those the LBAs overlap. -/
theorem overlaps_iff (hwrap : cmd.slba + cmd.nrLba < 2 ^ 64) (hsecs : 0 < spp.secsPerPg)
    (lpn : Nat) : cmd.Overlaps spp lpn ↔ cmd.startLpn spp ≤ lpn ∧ lpn ≤ cmd.endLpn spp := by
  rw [cmd.endLpn_eq hwrap]
  show _ ↔ _ ∧ _ ≤ (cmd.slba + cmd.length) / _
  unfold Overlaps startLpn
  constructor
  · intro h
    obtain ⟨lba, hlo, hhi, rfl⟩ := h
    exact ⟨Nat.div_le_div_right hlo, Nat.div_le_div_right hhi⟩
  · intro h
    obtain ⟨hlo, hhi⟩ := h
    -- the first LBA of the page, or the first one of the command
    refine ⟨max cmd.slba (lpn * spp.secsPerPg), Nat.le_max_left _ _, ?_, ?_⟩
    · have hmul := (Nat.le_div_iff_mul_le hsecs).mp hhi
      omega
    · rcases Nat.le_total cmd.slba (lpn * spp.secsPerPg) with hle | hle
      · rw [Nat.max_eq_right hle]
        exact Nat.mul_div_cancel lpn hsecs
      · rw [Nat.max_eq_left hle]
        exact Nat.le_antisymm hlo ((Nat.le_div_iff_mul_le hsecs).mpr hle)

end NvmeCommand

/-- Two pages of one instance are one page if they have the same local number. -/
theorem lpn_ext {n l m : Nat} (hmod : l % n = m % n) (hdiv : l / n = m / n) : l = m := by
  rw [← Nat.div_add_mod l n, ← Nat.div_add_mod m n, hmod, hdiv]

namespace PassDone

variable {spp : SsdParams} {acc₀ acc : WriteAcc} {lpn : Nat}

/-- A pass writes one logical page of the namespace. -/
theorem updated (h : PassDone spp acc₀ lpn acc) : acc₀.ns.Updated (· = lpn) acc.ns where
  written l hl := by
    subst hl
    unfold ConvNs.pageOf ConvNs.metaOf
    rw [h.nrParts]
    obtain ⟨now, hmeta⟩ := h.pageMeta
    rw [hmeta, Function.update_self]
    exact ⟨(h.mapped _).mpr (.inr rfl), rfl⟩
  kept l hl := by
    unfold ConvNs.pageOf ConvNs.metaOf
    rw [h.nrParts]
    by_cases hmod : l % acc₀.ns.nrParts = lpn % acc₀.ns.nrParts
    · have hdiv : l / acc₀.ns.nrParts ≠ lpn / acc₀.ns.nrParts := fun hd => hl (lpn_ext hmod hd)
      obtain ⟨now, hmeta⟩ := h.pageMeta
      rw [hmod, hmeta, Function.update_of_ne hdiv, h.mapped]
      exact ⟨rfl, or_iff_left hdiv⟩
    · rw [h.others _ hmod]
      exact ⟨rfl, Iff.rfl⟩

end PassDone

namespace ConvNs.Updated

variable {ns ns' ns'' : ConvNs} {touched : Nat → Prop}

/-- The pages touched, in other words. -/
theorem congr (h : ns.Updated touched ns') {touched' : Nat → Prop}
    (hiff : ∀ lpn, touched lpn ↔ touched' lpn) : ns.Updated touched' ns' where
  written lpn hl := h.written lpn ((hiff lpn).mpr hl)
  kept lpn hl := h.kept lpn (mt (hiff lpn).mp hl)

/-- One more page. -/
theorem write (h : ns.Updated touched ns') {lpn : Nat} (hnew : ¬ touched lpn)
    (h' : ns'.Updated (· = lpn) ns'') : ns.Updated (fun l => touched l ∨ l = lpn) ns'' where
  written l hl := by
    by_cases hlpn : l = lpn
    · obtain ⟨hsome, hcnt⟩ := h'.written l hlpn
      rw [(h.kept l (hlpn ▸ hnew)).1] at hcnt
      exact ⟨hsome, hcnt⟩
    · obtain ⟨hmeta, hsome⟩ := h'.kept l hlpn
      obtain ⟨hold, hcnt⟩ := h.written l (hl.resolve_right hlpn)
      rw [hmeta]
      exact ⟨hsome.mpr hold, hcnt⟩
  kept l hl := by
    obtain ⟨hmeta, hsome⟩ := h.kept l fun ht => hl (.inl ht)
    obtain ⟨hmeta', hsome'⟩ := h'.kept l fun he => hl (.inr he)
    exact ⟨hmeta'.trans hmeta, hsome'.trans hsome⟩

end ConvNs.Updated

/-! ## What the commands do inside the check -/

/-- The answer is not the rejection the range check gives. -/
def IoAnswer.NotRejected (ans : IoAnswer) (req : NvmevRequest) : Prop :=
  ans ≠ .refuse (refusal req nvmeScLbaRange)

/-- What is accepted is not rejected. -/
theorem IoAnswer.NotRejected.of_accepted {ans : IoAnswer} {req : NvmevRequest}
    (h : ans.accepted = true) : ans.NotRejected req := by
  intro he
  rw [he] at h
  cases h

/-- `NVME_SC_INTERNAL` and `NVME_SC_LBA_RANGE` are different statuses. -/
theorem internal_notRejected (req : NvmevRequest) :
    (IoAnswer.refuse (refusal req nvmeScInternal)).NotRejected req := by
  intro he
  have hstatus : nvmeScInternal ||| nvmeScDnr = nvmeScLbaRange ||| nvmeScDnr :=
    congrArg (fun ans : IoAnswer => ans.result.status) he
  exact absurd hstatus (by decide)

section Inside

variable {cfg : SsdConfig} {bytes : Nat} {ns : ConvNs} {req : NvmevRequest}

/-- A write that the range check and the buffer admit is accepted and updates the pages of its loop. -/
theorem convWrite_admitted (h : NsSettled cfg bytes ns) (hin : ns.outOfRange req.cmd = false)
    (hfits : req.cmd.bytes ≤ ns.writeBuffer.size) (hroom : req.cmd.bytes ≤ ns.writeBuffer.remaining) :
    Ensures (fun _ => True) (convWrite ns req) fun r => r.2.accepted = true ∧ ns.Updated
      (fun lpn => req.cmd.startLpn ns.sp ≤ lpn ∧ lpn ≤ req.cmd.endLpn ns.sp) r.1 := by
  have rule := settled_pageRule (E := fun _ => True) (cfg.partParams bytes) trivial
  rw [convWrite_charged hin hfits hroom, h.sp]
  have hcharged : NsInv (SettledWith (cfg.partParams bytes)) (ns.charge req.cmd.bytes) :=
    h.inv.withBuffer _
  refine (convWritePages_ensures rule hcharged req (J := fun k acc => ns.Updated (fun lpn =>
    req.cmd.startLpn (cfg.partParams bytes) ≤ lpn ∧
      lpn < req.cmd.startLpn (cfg.partParams bytes) + k) acc.ns) ?_ ?_ ?_).mono ?_
  · intro lpn _ hle
    have hlocal := ConvNs.localLpn_of_le hin (h.sp.symm ▸ hle)
    exact h.sp ▸ hlocal
  · intro pcie nsecsXfer
    refine ⟨fun lpn hl => absurd hl.2 (Nat.not_lt.mpr hl.1), fun lpn _ => ⟨rfl, Iff.rfl⟩⟩
  · intro k acc acc' _ _ hJ hpass
    apply (hJ.write _ hpass.updated).congr
    · intro lpn
      omega
    · omega
  · intro r hr
    obtain ⟨_, acc, hJ, hns, hacc, -⟩ := hr
    refine ⟨hacc, ?_⟩
    rw [hns]
    apply hJ.congr
    intro lpn
    omega

/-- A write the range check admits updates the pages of its loop if it is accepted. -/
theorem convWrite_updated (h : NsSettled cfg bytes ns) (hin : ns.outOfRange req.cmd = false) :
    Ensures (fun _ => True) (convWrite ns req) fun r => r.2.NotRejected req ∧
      (r.2.accepted = true → ns.Updated
        (fun lpn => req.cmd.startLpn ns.sp ≤ lpn ∧ lpn ≤ req.cmd.endLpn ns.sp) r.1) := by
  rcases Nat.lt_or_ge ns.writeBuffer.size req.cmd.bytes with hlarge | hfits
  · rw [convWrite_tooLarge hin hlarge]
    exact .throw trivial
  rcases Nat.lt_or_ge ns.writeBuffer.remaining req.cmd.bytes with hshort | hroom
  · rw [convWrite_short hin hfits hshort]
    exact .pure ⟨internal_notRejected req, nofun⟩
  · apply (convWrite_admitted h hin hfits hroom).mono
    intro r hr
    exact ⟨.of_accepted hr.1, fun _ => hr.2⟩

/-- A read the range check admits is accepted and looks up the pages of its loops. -/
theorem convRead_looks (h : NsSettled cfg bytes ns) (hin : ns.outOfRange req.cmd = false) :
    Ensures (fun _ => True) (convRead ns req) fun r => r.2.NotRejected req ∧
      ReadDone ns.sp ns req r := by
  have rule := settled_pageRule (E := fun _ => True) (cfg.partParams bytes) trivial
  apply (convRead_ensures rule h.inv hin).mono
  intro r hr
  rw [h.sp]
  exact ⟨.of_accepted hr.2.accepted, hr.2⟩

end Inside

/-- A command that the check admits in its answer or not at all: the property holds exactly of the
exported commands and of those the check catches. -/
theorem rangeChecked_iff {ns : ConvNs} {req : NvmevRequest}
    {proc : ConvNs → NvmevRequest → FtlM (ConvNs × IoAnswer)}
    {effect : ConvNs → IoAnswer → (Nat → Prop) → Prop}
    (hout : ns.outOfRange req.cmd = true →
      proc ns req = pure (ns, .refuse (refusal req nvmeScLbaRange)))
    (hin : ns.outOfRange req.cmd = false → Ensures (fun _ => True) (proc ns req) fun r =>
      r.2.NotRejected req ∧
        (ns.Exports req.cmd → r.2.accepted = true → effect r.1 r.2 (req.cmd.Overlaps ns.sp))) :
    RangeChecked ns req proc effect ↔ ns.Exports req.cmd ∨ ns.outOfRange req.cmd = true := by
  constructor
  · intro h
    by_contra hneither
    obtain ⟨hexp, hrange⟩ := not_or.mp hneither
    have hans := (hin (Bool.eq_false_iff.mpr hrange)).of_run (h.rejects hexp .zero)
    exact hans.1 rfl
  · intro h
    constructor
    · intro hexp env ns' ans env' hrun hacc
      cases hrange : ns.outOfRange req.cmd with
      | true =>
        rw [hout hrange] at hrun
        cases hrun
        cases hacc
      | false => exact ((hin hrange).of_run hrun).2 hexp hacc
    · intro hexp env
      rw [hout (h.resolve_left hexp)]
      rfl

/-- The exported size is far from the end of a 64-bit LBA. -/
theorem NsSettled.no_wrap {cfg : SsdConfig} {bytes : Nat} {ns : ConvNs}
    (h : NsSettled cfg bytes ns) {cmd : NvmeCommand} (hexp : ns.Exports cmd) :
    cmd.slba + cmd.nrLba < 2 ^ 64 := by
  have hsize : ns.size < 2 ^ 64 := by
    rw [h.size]
    exact (Nat.div_le_self _ _).trans_lt (Nat.mod_lt _ (by decide))
  have hdiv := Nat.div_le_div_right (c := lbaSize) hsize.le
  unfold ConvNs.Exports at hexp
  have hbound : 2 ^ 64 / lbaSize < 2 ^ 64 := by decide
  unfold NvmeCommand.nrLba
  omega

/-- The check of a write. -/
theorem NsSettled.writeChecked_iff {cfg : SsdConfig} {bytes : Nat} {ns : ConvNs}
    (h : NsSettled cfg bytes ns) (hsecs : 0 < ns.sp.secsPerPg) (req : NvmevRequest) :
    WriteChecked ns req ↔ ns.Exports req.cmd ∨ ns.outOfRange req.cmd = true := by
  apply rangeChecked_iff convWrite_outOfRange
  intro hin
  apply (convWrite_updated h hin).mono
  intro r hr
  refine ⟨hr.1, fun hexp hacc => (hr.2 hacc).congr fun lpn => ?_⟩
  exact (NvmeCommand.overlaps_iff (h.no_wrap hexp) hsecs lpn).symm

/-- The check of a read. -/
theorem NsSettled.readChecked_iff {cfg : SsdConfig} {bytes : Nat} {ns : ConvNs}
    (h : NsSettled cfg bytes ns) (hsecs : 0 < ns.sp.secsPerPg) (req : NvmevRequest) :
    ReadChecked ns req ↔ ns.Exports req.cmd ∨ ns.outOfRange req.cmd = true := by
  apply rangeChecked_iff convRead_outOfRange
  intro hin
  apply (convRead_looks h hin).mono
  intro r hr
  refine ⟨hr.1, fun hexp _ => ⟨hr.2.same, hr.2.nodup, fun lpn => ?_⟩⟩
  exact (hr.2.mem lpn).trans (NvmeCommand.overlaps_iff (h.no_wrap hexp) hsecs lpn).symm

/-! ## The 970PRO namespace -/

theorem NsSettled.secsPerPg_pos {size : Nat} {ns : ConvNs} (h : NsSettled samsung970Pro size ns) :
    0 < ns.sp.secsPerPg := by
  rw [h.sp]
  show 0 < (params970Pro size).secsPerPg
  rw [(params970Pro_is size).secsPerPg]
  decide

/-- The instances of a 970PRO are settled in every run. -/
theorem nsRuns_settled970Pro {size : Nat} (hpos : 1 ≤ (params970Pro size).pgsPerBlk)
    (hle : (params970Pro size).pgsPerBlk ≤ 65536) {s : NsRun}
    (h : (nsRuns samsung970Pro size).Reachable s) : NsSettled samsung970Pro size s.ns :=
  (nsRuns_settled (params970Pro_wellFormed hpos hle) (by decide)).reachable h

/-- In every reachable state, `conv_write` and `conv_read` treat a command as they should exactly
when it is exported or the check catches it. What they should do is to reject a range that is not
exported, and otherwise to write or read the pages it overlaps; a write the buffer has no room for
is neither. The state is any between two commands, the releases on the way included. -/
theorem range_checked_iff {size : Nat} (hpos : 1 ≤ (params970Pro size).pgsPerBlk)
    (hle : (params970Pro size).pgsPerBlk ≤ 65536) {s : NsRun}
    (h : (nsRuns samsung970Pro size).Reachable s) (req : NvmevRequest) :
    (WriteChecked s.ns req ↔ s.ns.Exports req.cmd ∨ s.ns.outOfRange req.cmd = true) ∧
      (ReadChecked s.ns req ↔ s.ns.Exports req.cmd ∨ s.ns.outOfRange req.cmd = true) := by
  have hset := nsRuns_settled970Pro hpos hle h
  exact ⟨hset.writeChecked_iff hset.secsPerPg_pos req, hset.readChecked_iff hset.secsPerPg_pos req⟩

/-- The first LBA after the exported space of a device of 1 GiB. -/
def tailCmd (opcode : Opcode) : NvmeCommand :=
  { opcode, commandId := 0, slba := 1638400, length := 0, fua := false
    slba_lt := by decide, length_lt := zero_lt_u16 }

/-- Two LBAs, the last one before the end of the 64-bit range and one beyond it. -/
def wrappedCmd (opcode : Opcode) : NvmeCommand :=
  { opcode, commandId := 0, slba := 2 ^ 64 - 1, length := 1, fua := false
    slba_lt := by decide, length_lt := by decide }

/-- On a fresh device of a gibibyte. -/
theorem range_checked_gib : ∃ s, (nsRuns samsung970Pro gib).Reachable s ∧
    (WriteChecked s.ns (oneRequest (tailCmd .write)) ↔ s.ns.Exports (tailCmd .write) ∨
      s.ns.outOfRange (tailCmd .write) = true) := by
  obtain ⟨s, hreach, _⟩ := exists_fresh970Pro gib_wellFormed.pgsPerBlk_pos gib_wellFormed.pgsPerBlk_le
  exact ⟨s, hreach, (range_checked_iff gib_wellFormed.pgsPerBlk_pos gib_wellFormed.pgsPerBlk_le hreach
    (oneRequest (tailCmd .write))).1⟩

/-- A fresh device of 1 GiB exports 1638400 LBAs and has 98304 pages in each instance. -/
theorem FreshNs.gib_shape {ns : ConvNs} (hf : FreshNs samsung970Pro gib ns)
    (hset : NsSettled samsung970Pro gib ns) :
    ns.nrParts = 4 ∧ ns.size = 838860800 ∧ ns.sp.secsPerPg = 8 ∧ ns.sp.ttPgs = 98304 := by
  have hsp : ns.sp = params970Pro gib := hset.sp
  refine ⟨hf.nrParts, hf.size, ?_, ?_⟩
  · rw [hsp, (params970Pro_is gib).secsPerPg]
  · rw [hsp, (params970Pro_is gib).ttPgs, gib_pgsPerBlk]

/-- On a fresh device of 1 GiB the command is neither exported nor caught by the check. -/
theorem gib_missed {ns : ConvNs} (hf : FreshNs samsung970Pro gib ns)
    (hset : NsSettled samsung970Pro gib ns) {cmd : NvmeCommand}
    (hbeyond : 1638400 ≤ cmd.slba + cmd.length)
    (hlast : sub64 (u64 (cmd.slba + cmd.nrLba)) 1 / 8 / 4 < 98304) :
    ¬ ns.Exports cmd ∧ ns.outOfRange cmd = false := by
  obtain ⟨hparts, hsize, hsecs, htt⟩ := hf.gib_shape hset
  constructor
  · unfold ConvNs.Exports
    rw [hsize]
    show ¬ _ < 1638400
    omega
  · unfold ConvNs.outOfRange NvmeCommand.endLpn
    rw [hparts, hsecs, htt]
    exact decide_eq_false (Nat.not_le.mpr hlast)

/-- A fresh device of 1 GiB answers a read of the first LBA after its exported space; it treats
neither that LBA nor a range that wraps as a sound check would. -/
theorem range_check_unsound_gib : ∃ s, (nsRuns samsung970Pro gib).Reachable s ∧
    (∀ env, ∃ r env', (convRead s.ns (oneRequest (tailCmd .read))).run env = .ok (r, env') ∧
      r.2.accepted = true) ∧
    (∀ cmd, cmd = tailCmd .read ∨ cmd = wrappedCmd .read →
      ¬ s.ns.Exports cmd ∧ ¬ ReadChecked s.ns (oneRequest cmd)) ∧
    (∀ cmd, cmd = tailCmd .write ∨ cmd = wrappedCmd .write →
      ¬ s.ns.Exports cmd ∧ ¬ WriteChecked s.ns (oneRequest cmd)) := by
  obtain ⟨s, hreach, hf⟩ :=
    exists_fresh970Pro gib_wellFormed.pgsPerBlk_pos gib_wellFormed.pgsPerBlk_le
  have hset := nsRuns_settled970Pro gib_wellFormed.pgsPerBlk_pos gib_wellFormed.pgsPerBlk_le hreach
  have htail : ∀ opcode, ¬ s.ns.Exports (tailCmd opcode) ∧ s.ns.outOfRange (tailCmd opcode) = false := by
    intro opcode
    apply gib_missed hf hset
    · show 1638400 ≤ 1638400 + 0
      decide
    · show sub64 (u64 (1638400 + 1)) 1 / 8 / 4 < 98304
      decide
  have hwrap : ∀ opcode,
      ¬ s.ns.Exports (wrappedCmd opcode) ∧ s.ns.outOfRange (wrappedCmd opcode) = false := by
    intro opcode
    apply gib_missed hf hset
    · show 1638400 ≤ 2 ^ 64 - 1 + 1
      decide
    · show sub64 (u64 (2 ^ 64 - 1 + 2)) 1 / 8 / 4 < 98304
      decide
  refine ⟨s, hreach, fun env => ?_, ?_, ?_⟩
  · have hin : s.ns.outOfRange (oneRequest (tailCmd .read)).cmd = false := (htail .read).2
    obtain ⟨r, env', hrun, hr⟩ := answers (convRead_ensures
      (settled_pageRule (E := fun _ => True) _ trivial) hset.inv hin) env
    exact ⟨r, env', hrun, hr.2.accepted⟩
  · intro cmd hcmd
    have hmiss : ¬ s.ns.Exports cmd ∧ s.ns.outOfRange cmd = false := by
      rcases hcmd with rfl | rfl
      · exact htail .read
      · exact hwrap .read
    refine ⟨hmiss.1, fun h => ?_⟩
    have hor := (hset.readChecked_iff hset.secsPerPg_pos (oneRequest cmd)).mp h
    exact Bool.false_ne_true (hmiss.2.symm.trans (hor.resolve_left hmiss.1))
  · intro cmd hcmd
    have hmiss : ¬ s.ns.Exports cmd ∧ s.ns.outOfRange cmd = false := by
      rcases hcmd with rfl | rfl
      · exact htail .write
      · exact hwrap .write
    refine ⟨hmiss.1, fun h => ?_⟩
    have hor := (hset.writeChecked_iff hset.secsPerPg_pos (oneRequest cmd)).mp h
    exact Bool.false_ne_true (hmiss.2.symm.trans (hor.resolve_left hmiss.1))

end NvmeVirt

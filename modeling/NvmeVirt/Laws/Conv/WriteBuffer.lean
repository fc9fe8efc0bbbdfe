import NvmeVirt.Lib.Batch
import NvmeVirt.Laws.Conv.Commands

/-!
# The write buffer

A write is charged the bytes of its LBAs; the release of a programmed wordline returns the bytes of
its pages, whole ones. `accountRuns` is `nsRuns` with the account a conserving buffer would keep
beside it: each page a write programs carries the bytes of the command's LBAs in it, and a wordline
carries those of its pages. The buffer agrees with the account (`Conserved`) in every run whose
accepted writes cover whole pages and do not wrap.

Two sums meet in one command: the bytes of its pages add up to those of its LBAs
(`bytesBefore_all`), and page by page they are put on the wordlines in the order in which the
instances program them (`chargePages`, `convWritePages`). For whole pages every wordline carries the
same amount per page (`chargePages_uniform`), so what a release returns is what its wordline was
charged. `commandEffect` says once what a command does to buffer, wordlines and releases;
`Audit.command` and `Audit.release` are the two steps.

A release is a step of its own, made by a worker whenever its entry is due, so the releases of a run
come in any order.
-/

set_option autoImplicit false

namespace NvmeVirt

open Outcome

/-! ## The account -/

/-- The bytes of the command's LBAs in the logical page `lpn`. -/
def NvmeCommand.pageBytes (cmd : NvmeCommand) (spp : SsdParams) (lpn : Nat) : Nat :=
  lbaToByte (min ((lpn + 1) * spp.secsPerPg) (cmd.slba + cmd.nrLba) -
    max (lpn * spp.secsPerPg) cmd.slba)

/-- The pages `start_lpn, …, start_lpn + k - 1` go into the open wordlines of their instances. -/
def chargePages (spp : SsdParams) (nrParts : Nat) (cmd : NvmeCommand) (wordlines : Batches Nat) :
    Nat → Batches Nat
  | 0 => wordlines
  | k + 1 => (chargePages spp nrParts cmd wordlines k).add spp.pgsPerOneshotpg
      ((cmd.startLpn spp + k) % nrParts) (cmd.pageBytes spp (cmd.startLpn spp + k))

/-- A run of a namespace and the account of its wordlines, one open wordline for each instance. -/
structure Account extends NsRun where
  wordlines : Batches Nat

/-- The account after an accepted write. -/
def Account.charged (s : Account) (cmd : NvmeCommand) : Batches Nat :=
  chargePages s.ns.sp s.ns.nrParts cmd s.wordlines (cmd.endLpn s.ns.sp + 1 - cmd.startLpn s.ns.sp)

/-- `nsRuns` with the account. -/
def accountRuns (cfg : SsdConfig) (bytes : Nat) : System Account NsStep where
  init s := (nsRuns cfg bytes).init s.toNsRun ∧ s.wordlines = .empty
  step s l s' :=
    match l with
    | .command req => ∃ ans, s.toNsRun.Answers req ans s'.toNsRun ∧ s'.wordlines =
        if req.cmd.opcode = .write ∧ ans.accepted = true then s.charged req.cmd else s.wordlines
    | .release k => s.toNsRun.Releases k s'.toNsRun ∧ s'.wordlines = s.wordlines.take k

/-- The buffer agrees with the account: it is never over its size, it lacks the bytes of the accepted
writes whose wordlines were not released, and each scheduled release returns the bytes that were
charged for the pages of its wordline. -/
structure Conserved (s : Account) : Prop where
  le_size : s.ns.writeBuffer.remaining ≤ s.ns.writeBuffer.size
  allocated : s.ns.writeBuffer.size - s.ns.writeBuffer.remaining =
    s.wordlines.total (Finset.range s.ns.nrParts)
  release_exact : s.pending = s.wordlines.completed

/-- The command covers whole pages, and its range does not wrap. -/
structure NvmeCommand.WholePages (cmd : NvmeCommand) (spp : SsdParams) : Prop where
  start : cmd.slba % spp.secsPerPg = 0
  length : cmd.nrLba % spp.secsPerPg = 0
  no_wrap : cmd.slba + cmd.nrLba < 2 ^ 64

/-- The write commands that are charged cover whole pages. -/
def WritesWholePages (s : Account) : NsStep → Prop
  | .command req => req.cmd.opcode = .write → s.ns.Admits req.cmd → req.cmd.WholePages s.ns.sp
  | .release _ => True

/-! ## The bytes of a command and of its pages -/

namespace NvmeCommand

variable {cmd : NvmeCommand} {spp : SsdParams}

/-- The bytes of the LBAs before the page at distance `k` of the first one. -/
def bytesBefore (cmd : NvmeCommand) (spp : SsdParams) (k : Nat) : Nat :=
  lbaToByte (min ((cmd.startLpn spp + k) * spp.secsPerPg) (cmd.slba + cmd.nrLba) - cmd.slba)

/-- Before the first page nothing is charged. -/
theorem bytesBefore_zero : cmd.bytesBefore spp 0 = 0 := by
  have hstart : cmd.startLpn spp * spp.secsPerPg ≤ cmd.slba := Nat.div_mul_le_self ..
  unfold bytesBefore lbaToByte
  rw [Nat.add_zero, Nat.sub_eq_zero_of_le ((Nat.min_le_left _ _).trans hstart), Nat.zero_mul]

/-- A page more. -/
theorem bytesBefore_succ (hsecs : 0 < spp.secsPerPg) (k : Nat) :
    cmd.bytesBefore spp (k + 1) =
      cmd.bytesBefore spp k + cmd.pageBytes spp (cmd.startLpn spp + k) := by
  have hstart : cmd.startLpn spp * spp.secsPerPg ≤ cmd.slba := Nat.div_mul_le_self ..
  have hnext : cmd.slba < (cmd.startLpn spp + 1) * spp.secsPerPg :=
    (Nat.div_lt_iff_lt_mul hsecs).mp (Nat.lt_succ_self _)
  rw [Nat.succ_mul] at hnext
  have hpage : (cmd.startLpn spp + (k + 1)) * spp.secsPerPg =
      cmd.startLpn spp * spp.secsPerPg + k * spp.secsPerPg + spp.secsPerPg := by ring
  have hpage' : (cmd.startLpn spp + k + 1) * spp.secsPerPg =
      cmd.startLpn spp * spp.secsPerPg + k * spp.secsPerPg + spp.secsPerPg := by ring
  -- the first page may start before the range; any other one starts inside or after it
  have hk : k = 0 ∨ spp.secsPerPg ≤ k * spp.secsPerPg := by
    rcases Nat.eq_zero_or_pos k with hk | hk
    · exact .inl hk
    · exact .inr (Nat.le_mul_of_pos_left _ hk)
  have hcount : min ((cmd.startLpn spp + (k + 1)) * spp.secsPerPg) (cmd.slba + cmd.nrLba) -
      cmd.slba = min ((cmd.startLpn spp + k) * spp.secsPerPg) (cmd.slba + cmd.nrLba) - cmd.slba +
        (min ((cmd.startLpn spp + k + 1) * spp.secsPerPg) (cmd.slba + cmd.nrLba) -
          max ((cmd.startLpn spp + k) * spp.secsPerPg) cmd.slba) := by
    rw [hpage, hpage', Nat.add_mul]
    rcases hk with rfl | hk
    · rw [Nat.zero_mul]
      omega
    · omega
  unfold bytesBefore pageBytes lbaToByte
  rw [← Nat.add_mul, hcount]

/-- All pages of a range that does not wrap carry all its bytes. -/
theorem bytesBefore_all (hsecs : 0 < spp.secsPerPg) (hwrap : cmd.slba + cmd.nrLba < 2 ^ 64) :
    cmd.bytesBefore spp (cmd.endLpn spp + 1 - cmd.startLpn spp) = cmd.bytes := by
  have hpos : 0 < cmd.nrLba := Nat.succ_pos _
  have hlast := cmd.endLpn_eq hwrap spp
  have hle : cmd.startLpn spp ≤ cmd.endLpn spp := by
    rw [hlast]
    exact Nat.div_le_div_right (by omega)
  have hend : cmd.slba + cmd.nrLba ≤ (cmd.endLpn spp + 1) * spp.secsPerPg := by
    have hlt : (cmd.slba + cmd.nrLba - 1) / spp.secsPerPg < cmd.endLpn spp + 1 := by omega
    have := (Nat.div_lt_iff_lt_mul hsecs).mp hlt
    omega
  unfold bytesBefore bytes
  rw [Nat.add_sub_cancel' (hle.trans (Nat.le_succ _)), Nat.min_eq_right hend,
    Nat.add_sub_cancel_left]

/-- A page of a command that covers whole pages carries a page. -/
theorem WholePages.pageBytes (h : cmd.WholePages spp) (hsecs : 0 < spp.secsPerPg)
    (hpgsz : spp.pgsz = lbaToByte spp.secsPerPg) {lpn : Nat} (hlo : cmd.startLpn spp ≤ lpn)
    (hhi : lpn ≤ cmd.endLpn spp) : cmd.pageBytes spp lpn = spp.pgsz := by
  have hfirst : cmd.slba ≤ lpn * spp.secsPerPg := by
    rw [← Nat.div_mul_cancel (Nat.dvd_of_mod_eq_zero h.start)]
    exact Nat.mul_le_mul_right _ hlo
  have hlast : (lpn + 1) * spp.secsPerPg ≤ cmd.slba + cmd.nrLba := by
    obtain ⟨pages, hpages⟩ : spp.secsPerPg ∣ cmd.slba + cmd.nrLba :=
      Nat.dvd_add (Nat.dvd_of_mod_eq_zero h.start) (Nat.dvd_of_mod_eq_zero h.length)
    have hpos : 0 < cmd.slba + cmd.nrLba := Nat.add_pos_right _ (Nat.succ_pos _)
    rw [cmd.endLpn_eq h.no_wrap, hpages] at hhi
    rw [hpages] at hpos ⊢
    have hlt : lpn < pages := by
      apply hhi.trans_lt
      rw [Nat.div_lt_iff_lt_mul hsecs, Nat.mul_comm pages]
      omega
    rw [Nat.mul_comm spp.secsPerPg]
    exact Nat.mul_le_mul_right _ hlt
  unfold NvmeCommand.pageBytes
  rw [Nat.min_eq_left hlast, Nat.max_eq_left hfirst, Nat.succ_mul, Nat.add_sub_cancel_left, hpgsz]

end NvmeCommand

/-! ## What one write charges -/

section Charge

variable {spp : SsdParams} {nrParts : Nat} {cmd : NvmeCommand} {wordlines : Batches Nat}

/-- The wordlines together carry what was charged. -/
theorem chargePages_total (hparts : 0 < nrParts) (hsecs : 0 < spp.secsPerPg) (k : Nat) :
    (chargePages spp nrParts cmd wordlines k).total (Finset.range nrParts) =
      wordlines.total (Finset.range nrParts) + cmd.bytesBefore spp k := by
  induction k with
  | zero => rw [NvmeCommand.bytesBefore_zero, Nat.add_zero, chargePages]
  | succ k ih =>
    have hslot := Finset.mem_range.mpr (Nat.mod_lt (cmd.startLpn spp + k) hparts)
    rw [chargePages, Batches.total_add _ _ _ hslot, ih, NvmeCommand.bytesBefore_succ hsecs,
      Nat.add_assoc]

/-- Whole pages leave every wordline with the same for each page. -/
theorem chargePages_uniform (hparts : 0 < nrParts) (hsecs : 0 < spp.secsPerPg)
    (hpgsz : spp.pgsz = lbaToByte spp.secsPerPg) (hwhole : cmd.WholePages spp)
    (h : wordlines.Uniform spp.pgsz spp.pgsPerOneshotpg (Finset.range nrParts)) (k : Nat)
    (hk : k ≤ cmd.endLpn spp + 1 - cmd.startLpn spp) :
    (chargePages spp nrParts cmd wordlines k).Uniform spp.pgsz spp.pgsPerOneshotpg
      (Finset.range nrParts) := by
  induction k with
  | zero => exact h
  | succ k ih =>
    have hslot := Finset.mem_range.mpr (Nat.mod_lt (cmd.startLpn spp + k) hparts)
    rw [chargePages, hwhole.pageBytes hsecs hpgsz (Nat.le_add_right _ _) (by omega)]
    exact (ih (by omega)).add hslot

end Charge

/-- The account follows the user write pointers, and each scheduled release returns the bytes of a
whole wordline. -/
structure Audited (spp : SsdParams) (ns : ConvNs) (pending : List Nat) (wordlines : Batches Nat) :
    Prop where
  fill : ∀ i, i < ns.nrParts →
    wordlines.fill i = ((ns.ftls i).wp .userIo).pg % spp.pgsPerOneshotpg
  length : pending.length = wordlines.completed.length
  bytes : ∀ b ∈ pending, b = spp.pgsPerOneshotpg * spp.pgsz

namespace Audited

variable {spp : SsdParams} {ns : ConvNs} {pending : List Nat} {wordlines : Batches Nat}

/-- One page of a write. -/
theorem pass {acc acc' : WriteAcc} {lpn : Nat} (hone : 0 < spp.pgsPerOneshotpg)
    (hparts : 0 < acc.ns.nrParts)
    (h : Audited spp acc.ns (pending ++ acc.internal.map (·.2)) wordlines)
    (hpass : PassDone spp acc lpn acc') (w : Nat) :
    Audited spp acc'.ns (pending ++ acc'.internal.map (·.2))
      (wordlines.add spp.pgsPerOneshotpg (lpn % acc.ns.nrParts) w) where
  fill i hi := by
    rw [hpass.nrParts] at hi
    by_cases hslot : i = lpn % acc.ns.nrParts
    · rw [hslot, hpass.wordline]
      exact Batches.fill_add_self (h.fill _ (hslot ▸ hi)) hone
    · rw [hpass.others i hslot, Batches.fill_add_of_ne hslot]
      exact h.fill i hi
  length := by
    have hfill := h.fill _ (Nat.mod_lt lpn hparts)
    rw [hpass.internal, ← List.append_assoc, List.length_append, h.length,
      Batches.length_completed_add hfill hone]
    split
    · rfl
    · rfl
  bytes b hb := by
    rw [hpass.internal, ← List.append_assoc] at hb
    rcases List.mem_append.mp hb with hold | hnew
    · exact h.bytes b hold
    · split at hnew
      · exact List.mem_singleton.mp hnew
      · exact absurd hnew List.not_mem_nil

/-- The pages of an admitted write. -/
theorem convWritePages {E : Fault → Prop} {inside : Nat → Prop} {I : ConvFtl → Prop}
    (rule : PageRule E spp inside I) (hinv : NsInv I ns) (hone : 0 < spp.pgsPerOneshotpg)
    (h : Audited spp ns pending wordlines) {req : NvmevRequest}
    (hin : ∀ lpn, req.cmd.startLpn spp ≤ lpn → lpn ≤ req.cmd.endLpn spp →
      inside (lpn / ns.nrParts)) :
    Ensures E (convWritePages (ns.charge req.cmd.bytes) req) fun r => NsInv I r.1 ∧
      r.2.accepted = true ∧ r.1.nrParts = ns.nrParts ∧
        r.1.writeBuffer = (ns.charge req.cmd.bytes).writeBuffer ∧
          Audited spp r.1 (pending ++ r.2.internal.map (·.2)) (chargePages spp ns.nrParts req.cmd
            wordlines (req.cmd.endLpn spp + 1 - req.cmd.startLpn spp)) := by
  have hcharged : NsInv I (ns.charge req.cmd.bytes) := hinv.withBuffer _
  refine (convWritePages_ensures rule hcharged req (J := fun k acc =>
    acc.ns.nrParts = ns.nrParts ∧ acc.ns.writeBuffer = (ns.charge req.cmd.bytes).writeBuffer ∧
      Audited spp acc.ns (pending ++ acc.internal.map (·.2))
        (chargePages spp ns.nrParts req.cmd wordlines k)) hin ?_ ?_).mono ?_
  · intro pcie nsecsXfer
    refine ⟨rfl, rfl, h.fill, ?_, ?_⟩
    · exact (congrArg List.length (List.append_nil pending)).trans h.length
    · intro b hb
      exact h.bytes b ((List.append_nil pending) ▸ hb)
  · intro k acc acc' _ _ hJ hpass
    obtain ⟨hparts, hbuffer, haudit⟩ := hJ
    have hpos : 0 < acc.ns.nrParts := hparts ▸ hinv.parts_pos
    have hnext := haudit.pass hone hpos hpass
      (req.cmd.pageBytes spp (req.cmd.startLpn spp + k))
    rw [hparts] at hnext
    exact ⟨hpass.nrParts.trans hparts, hpass.writeBuffer.trans hbuffer, hnext⟩
  · intro r hr
    obtain ⟨hinv', acc, ⟨hparts, hbuffer, haudit⟩, hns, hacc, _, hinternal⟩ := hr
    rw [hns] at hinv' ⊢
    rw [hinternal]
    exact ⟨hinv', hacc, hparts, hbuffer, haudit⟩

end Audited

/-! ## What one step does -/

/-- A command is an admitted write, which is charged, or it changes neither the buffer nor the
account. -/
inductive CommandEffect (spp : SsdParams) (cmd : NvmeCommand) (s s' : Account) : Prop where
  | charged : cmd.opcode = .write → s.ns.Admits cmd → s'.ns.nrParts = s.ns.nrParts →
      s'.ns.writeBuffer = (s.ns.charge cmd.bytes).writeBuffer →
      s'.wordlines = chargePages spp s.ns.nrParts cmd s.wordlines
        (cmd.endLpn spp + 1 - cmd.startLpn spp) →
      Audited spp s'.ns s'.pending s'.wordlines → CommandEffect spp cmd s s'
  | uncharged : s'.ns.nrParts = s.ns.nrParts → s'.ns.writeBuffer = s.ns.writeBuffer →
      (∀ i, (s'.ns.ftls i).wp = (s.ns.ftls i).wp) → s'.pending = s.pending →
      s'.wordlines = s.wordlines → CommandEffect spp cmd s s'

section Steps

variable {cfg : SsdConfig} {bytes : Nat} {s s' : Account}

/-- A command does one of the two. -/
theorem commandEffect (hset : NsSettled cfg bytes s.ns)
    (hone : 0 < (cfg.partParams bytes).pgsPerOneshotpg)
    (h : Audited (cfg.partParams bytes) s.ns s.pending s.wordlines) {req : NvmevRequest}
    (hstep : (accountRuns cfg bytes).step s (.command req) s') :
    CommandEffect (cfg.partParams bytes) req.cmd s s' := by
  have rule := settled_pageRule (E := fun _ => True) (cfg.partParams bytes) trivial
  obtain ⟨ans, ⟨⟨env, env', hrun⟩, hpending⟩, hwordlines⟩ := hstep
  by_cases hop : req.cmd.opcode = .write
  · rw [convProcNvmeIoCmd_write hop] at hrun
    rcases convWrite_cases hrun with ⟨hadmits, hpages⟩ | ⟨_, status, heq⟩
    · have hlocal : ∀ lpn, req.cmd.startLpn (cfg.partParams bytes) ≤ lpn →
          lpn ≤ req.cmd.endLpn (cfg.partParams bytes) →
          (cfg.partParams bytes).LocalLpn (lpn / s.ns.nrParts) := fun lpn _ hle =>
        hset.sp ▸ ConvNs.localLpn_of_le hadmits.1 (hset.sp.symm ▸ hle)
      obtain ⟨_, hacc, hparts, hbuffer, haudit⟩ :=
        (h.convWritePages rule hset.inv hone hlocal).of_run hpages
      rw [if_pos ⟨hop, hacc⟩, Account.charged, hset.sp] at hwordlines
      refine .charged hop hadmits hparts hbuffer hwordlines ?_
      rw [hpending, hwordlines]
      exact haudit
    · obtain ⟨hns, rfl⟩ := Prod.mk.inj heq
      rw [if_neg fun hacc => Bool.false_ne_true hacc.2] at hwordlines
      have hquiet := hpending.trans (List.append_nil _)
      exact .uncharged (congrArg _ hns) (congrArg _ hns) (fun i => by rw [hns]) hquiet hwordlines
  · obtain ⟨_, hsame, hinternal⟩ :=
      (convProcNvmeIoCmd_quiet (E := fun _ => True) rule hset.inv hop).of_run hrun
    rw [if_neg fun hacc => hop hacc.1] at hwordlines
    rw [hinternal] at hpending
    have hquiet := hpending.trans (List.append_nil _)
    refine .uncharged hsame.nrParts hsame.writeBuffer (fun i => ?_) hquiet hwordlines
    obtain ⟨ssd, hftl, _⟩ := hsame.ftls i
    have hwp := congrArg ConvFtl.wp hftl
    exact hwp

/-- The buffer and the open wordlines add up, and every page of a wordline carries a page. -/
structure Balanced (spp : SsdParams) (s : Account) : Prop where
  uniform : s.wordlines.Uniform spp.pgsz spp.pgsPerOneshotpg (Finset.range s.ns.nrParts)
  buffer : s.ns.writeBuffer.remaining + s.wordlines.total (Finset.range s.ns.nrParts) =
    s.ns.writeBuffer.size

/-- With pages of one size the scheduled releases are what was charged. -/
theorem Balanced.conserved {spp : SsdParams} (h : Balanced spp s)
    (haudit : Audited spp s.ns s.pending s.wordlines) : Conserved s where
  le_size := by
    have := h.buffer
    omega
  allocated := by
    have := h.buffer
    omega
  release_exact := by
    have hpending := List.eq_replicate_of_mem haudit.bytes
    have hcompleted := List.eq_replicate_of_mem h.uniform.completed
    rw [hpending, hcompleted, haudit.length, Nat.mul_comm]

/-- What holds of the account in the runs that write whole pages. -/
structure Audit (cfg : SsdConfig) (bytes : Nat) (s : Account) : Prop where
  settled : NsSettled cfg bytes s.ns
  audited : Audited (cfg.partParams bytes) s.ns s.pending s.wordlines
  balanced : Balanced (cfg.partParams bytes) s

/-- What the account needs of the parameters. -/
structure SsdParams.WholeWordlines (spp : SsdParams) : Prop where
  secsPerPg_pos : 0 < spp.secsPerPg
  pgsPerOneshotpg_pos : 0 < spp.pgsPerOneshotpg
  pgsz : spp.pgsz = lbaToByte spp.secsPerPg

variable (hw : (cfg.partParams bytes).WholeWordlines)
include hw

/-- An admitted write of whole pages keeps the balance. -/
theorem Balanced.charge (h : Balanced (cfg.partParams bytes) s) (hparts : 0 < s.ns.nrParts)
    {cmd : NvmeCommand} (hwhole : cmd.WholePages (cfg.partParams bytes)) (hadmits : s.ns.Admits cmd)
    (hparts' : s'.ns.nrParts = s.ns.nrParts)
    (hbuffer : s'.ns.writeBuffer = (s.ns.charge cmd.bytes).writeBuffer)
    (hwordlines : s'.wordlines = chargePages (cfg.partParams bytes) s.ns.nrParts cmd s.wordlines
      (cmd.endLpn (cfg.partParams bytes) + 1 - cmd.startLpn (cfg.partParams bytes))) :
    Balanced (cfg.partParams bytes) s' where
  uniform := by
    rw [hparts', hwordlines]
    exact chargePages_uniform hparts hw.secsPerPg_pos hw.pgsz hwhole h.uniform _ le_rfl
  buffer := by
    rw [hparts', hwordlines, chargePages_total hparts hw.secsPerPg_pos,
      NvmeCommand.bytesBefore_all hw.secsPerPg_pos hwhole.no_wrap, hbuffer]
    show s.ns.writeBuffer.remaining - cmd.bytes + _ = s.ns.writeBuffer.size
    have hroom := hadmits.2
    have hold := h.buffer
    omega

/-- A command keeps the account, if its write covers whole pages. -/
theorem Audit.command (h : Audit cfg bytes s) {req : NvmevRequest}
    (hwhole : WritesWholePages s (.command req))
    (hstep : (accountRuns cfg bytes).step s (.command req) s') : Audit cfg bytes s' := by
  have heffect := commandEffect h.settled hw.pgsPerOneshotpg_pos h.audited hstep
  obtain ⟨ans, hans, _⟩ := hstep
  have hset := h.settled.answers hans
  cases heffect with
  | charged hop hadmits hparts hbuffer hwordlines haudit =>
    have hwhole' := hwhole hop hadmits
    rw [h.settled.sp] at hwhole'
    exact ⟨hset, haudit, h.balanced.charge hw h.settled.inv.parts_pos hwhole' hadmits hparts hbuffer
      hwordlines⟩
  | uncharged hparts hbuffer hwp hpending hwordlines =>
    refine ⟨hset, ⟨fun i hi => ?_, ?_, ?_⟩, ⟨?_, ?_⟩⟩
    · rw [hwordlines, hwp]
      exact h.audited.fill i (hparts ▸ hi)
    · rw [hpending, hwordlines]
      exact h.audited.length
    · rw [hpending]
      exact h.audited.bytes
    · rw [hwordlines, hparts]
      exact h.balanced.uniform
    · rw [hwordlines, hparts, hbuffer]
      exact h.balanced.buffer

omit hw in
/-- A release keeps it. -/
theorem Audit.release (h : Audit cfg bytes s) {k : Nat}
    (hstep : (accountRuns cfg bytes).step s (.release k) s') : Audit cfg bytes s' := by
  obtain ⟨hrel, hwordlines⟩ := hstep
  have hset := h.settled.releases hrel
  have hexact := (h.balanced.conserved h.audited).release_exact
  obtain ⟨b, hb, heq⟩ := hrel
  have hns : s'.ns = { s.ns with writeBuffer := bufferRelease s.ns.writeBuffer b } :=
    congrArg NsRun.ns heq
  have hpending : s'.pending = s.pending.eraseIdx k := congrArg NsRun.pending heq
  refine ⟨hset, ⟨?_, ?_, ?_⟩, ⟨?_, ?_⟩⟩
  · rw [hns, hwordlines]
    exact h.audited.fill
  · rw [hpending, hwordlines, hexact]
    rfl
  · intro x hx
    rw [hpending] at hx
    exact h.audited.bytes x (List.mem_of_mem_eraseIdx hx)
  · rw [hns, hwordlines]
    exact h.balanced.uniform.take k
  · rw [hns, hwordlines]
    show s.ns.writeBuffer.remaining + b + _ = s.ns.writeBuffer.size
    rw [hexact] at hb
    have htake := Batches.total_take hb (Finset.range s.ns.nrParts)
    have hold := h.balanced.buffer
    show _ + _ + (s.wordlines.take k).total (Finset.range s.ns.nrParts) = _
    omega

/-- By induction over commands whose writes cover whole pages, and over the releases, in any order. -/
theorem accountRuns_audit (w : (cfg.partParams bytes).WellFormed) (hparts : 0 < cfg.ssdPartitions) :
    ((accountRuns cfg bytes).guarded WritesWholePages).Invariant (Audit cfg bytes) where
  init s hs := by
    obtain ⟨⟨hpending, env, env', hrun⟩, hempty⟩ := hs
    obtain ⟨hset, hfresh⟩ := convInitNamespace_settled w hparts hrun
    refine ⟨hset, ⟨fun i hi => ?_, ?_, ?_⟩, ⟨?_, ?_⟩⟩
    · rw [hempty, hfresh.wp i hi, Nat.zero_mod]
      rfl
    · rw [hempty, hpending]
      rfl
    · rw [hpending]
      exact nofun
    · rw [hempty]
      exact Batches.uniform_empty ..
    · rw [hempty, Batches.total_empty, hfresh.writeBuffer]
      rfl
  step s l s' h hstep := by
    obtain ⟨hwhole, hstep⟩ := hstep
    cases l with
    | command req => exact h.command hw hwhole hstep
    | release k => exact h.release hstep

end Steps

/-! ## The 970PRO namespace -/

/-- A wordline of a 970PRO has as many bytes as its pages. -/
theorem params970Pro_wholeWordlines (size : Nat) : (params970Pro size).WholeWordlines := by
  have hp := params970Pro_is size
  constructor
  · rw [hp.secsPerPg]
    decide
  · rw [hp.pgsPerOneshotpg]
    decide
  · rw [hp.pgsz, hp.secsPerPg]
    rfl

/-- In every run whose admitted writes cover whole pages and do not wrap, with the scheduled
releases in any order, the buffer is conserved. A write that the range check or the buffer turns
away is free to do as it likes, and so are all other commands. A release is executed once, at any
time after the write that scheduled it. -/
theorem write_buffer_conserved {size : Nat} (hpos : 1 ≤ (params970Pro size).pgsPerBlk)
    (hle : (params970Pro size).pgsPerBlk ≤ 65536) {s : Account}
    (h : ((accountRuns samsung970Pro size).guarded WritesWholePages).Reachable s) : Conserved s := by
  have w := params970Pro_wellFormed hpos hle
  have haudit : Audit samsung970Pro size s :=
    (accountRuns_audit (params970Pro_wholeWordlines size) w (by decide)).reachable h
  exact haudit.balanced.conserved haudit.audited

/-! ## Runs on a device of 1 GiB -/

/-- A state of a device of 1 GiB from which a write of the first page completes. -/
structure Ready (s : Account) : Prop where
  inv : NsInv (Steady970Pro gib) s.ns
  nrParts : s.ns.nrParts = 4
  audited : Audited (params970Pro gib) s.ns s.pending s.wordlines

/-- LBAs of the first page. -/
structure NvmeCommand.InFirstPage (cmd : NvmeCommand) : Prop where
  opcode : cmd.opcode = .write
  range : cmd.slba + cmd.length < 8

/-- Such a command is in page 0. -/
theorem NvmeCommand.InFirstPage.lpn {cmd : NvmeCommand} (h : cmd.InFirstPage) :
    cmd.startLpn (params970Pro gib) = 0 ∧ cmd.endLpn (params970Pro gib) = 0 := by
  have hrange := h.range
  have hwrap : cmd.slba + cmd.nrLba < 2 ^ 64 := by
    unfold NvmeCommand.nrLba
    omega
  rw [cmd.endLpn_eq hwrap]
  unfold NvmeCommand.startLpn
  rw [(params970Pro_is gib).secsPerPg]
  show _ ∧ (cmd.slba + cmd.length) / 8 = 0
  omega

/-- A write inside the first page completes, and puts one page into the wordline of instance 0. -/
theorem Ready.write {s : Account} (h : Ready s) {req : NvmevRequest} (hcmd : req.cmd.InFirstPage)
    (hfits : req.cmd.bytes ≤ s.ns.writeBuffer.size)
    (hroom : req.cmd.bytes ≤ s.ns.writeBuffer.remaining) :
    ∃ s', (accountRuns samsung970Pro gib).step s (.command req) s' ∧ Ready s' ∧
      s'.ns.writeBuffer = (s.ns.charge req.cmd.bytes).writeBuffer ∧
      s'.wordlines = s.wordlines.add 12 0 (req.cmd.pageBytes (params970Pro gib) 0) := by
  have ha := ample_970Pro gib_wellFormed.pgsPerBlk_pos gib_wellFormed.pgsPerBlk_le
  obtain ⟨hstart, hend⟩ := hcmd.lpn
  have hsp : s.ns.sp = params970Pro gib := h.inv.sp_eq (steady_pageRule ha)
  have hlocal : (params970Pro gib).LocalLpn 0 := gib_localLpn
  have hout : s.ns.outOfRange req.cmd = false := by
    unfold ConvNs.outOfRange
    rw [hsp, hend, Nat.zero_div]
    exact decide_eq_false (Nat.not_le.mpr hlocal)
  have hin : ∀ lpn, req.cmd.startLpn (params970Pro gib) ≤ lpn →
      lpn ≤ req.cmd.endLpn (params970Pro gib) →
      lpn / s.ns.nrParts < 1600 * (params970Pro gib).pgsPerLine ∧
        (params970Pro gib).LocalLpn (lpn / s.ns.nrParts) := by
    intro lpn _ hle
    rw [hend] at hle
    rw [Nat.le_zero.mp hle, Nat.zero_div]
    exact ⟨Nat.mul_pos (by decide) gib_wellFormed.pgsPerLine_pos, hlocal⟩
  obtain ⟨⟨ns', ans⟩, env', hrun, hinv, hacc, hparts, hbuffer, haudit⟩ :=
    answers (h.audited.convWritePages (steady_pageRule ha) h.inv
      (params970Pro_wholeWordlines gib).pgsPerOneshotpg_pos hin) .zero
  have hone : chargePages (params970Pro gib) s.ns.nrParts req.cmd s.wordlines
      (req.cmd.endLpn (params970Pro gib) + 1 - req.cmd.startLpn (params970Pro gib)) =
      s.wordlines.add 12 0 (req.cmd.pageBytes (params970Pro gib) 0) := by
    rw [hstart, hend, (rfl : 0 + 1 - 0 = 0 + 1), chargePages, chargePages, hstart, h.nrParts,
      (params970Pro_is gib).pgsPerOneshotpg]
  rw [hone] at haudit
  refine ⟨⟨⟨ns', s.pending ++ ans.internal.map (·.2)⟩, s.wordlines.add 12 0 _⟩,
    ⟨ans, ⟨⟨.zero, env', ?_⟩, rfl⟩, ?_⟩, ⟨hinv, hparts.trans h.nrParts, haudit⟩, hbuffer, rfl⟩
  · rw [convProcNvmeIoCmd_write hcmd.opcode, convWrite_charged hout hfits hroom]
    exact hrun
  · rw [if_pos ⟨hcmd.opcode, hacc⟩, Account.charged, hsp, hone]

/-- A fresh namespace of a gibibyte. -/
theorem exists_ready : ∃ s, (accountRuns samsung970Pro gib).init s ∧ Ready s ∧
    s.ns.writeBuffer = bufferInit 786432 ∧ s.wordlines = .empty ∧ s.pending = [] := by
  obtain ⟨ns, env', hrun, hinv, hfresh⟩ :=
    answers (convInitNamespace970Pro_ensures gib_wellFormed.pgsPerBlk_pos gib_wellFormed.pgsPerBlk_le)
      .zero
  refine ⟨⟨⟨ns, []⟩, .empty⟩, ⟨⟨rfl, .zero, env', hrun⟩, rfl⟩, ⟨hinv, hfresh.nrParts, ?_⟩,
    hfresh.writeBuffer, rfl, rfl⟩
  refine ⟨fun i hi => ?_, rfl, nofun⟩
  show 0 = ((ns.ftls i).wp .userIo).pg % _
  rw [hfresh.wp i hi, Nat.zero_mod]

/-- One whole page is written. -/
def pageCmd : NvmeCommand :=
  { opcode := .write, commandId := 0, slba := 0, length := 7, fua := false
    slba_lt := zero_lt_u64, length_lt := seven_lt_u16 }

/-- One LBA is written. -/
def lbaCmd : NvmeCommand :=
  { opcode := .write, commandId := 0, slba := 0, length := 0, fua := false
    slba_lt := zero_lt_u64, length_lt := zero_lt_u16 }

/-- The state after a step; the clock says 0 where `proc_io_cmd` is called. -/
def Account.next (s : Account) : NsStep → Option Account
  | .command req =>
    match (convProcNvmeIoCmd s.ns req).run .zero with
    | .ok ((ns, ans), _) =>
      some ⟨⟨ns, s.pending ++ ans.internal.map (·.2)⟩,
        if req.cmd.opcode = .write ∧ ans.accepted = true then s.charged req.cmd else s.wordlines⟩
    | .error _ => none
  | .release k =>
    match s.pending[k]? with
    | some bytes =>
      some ⟨⟨{ s.ns with writeBuffer := bufferRelease s.ns.writeBuffer bytes }, s.pending.eraseIdx k⟩,
        s.wordlines.take k⟩
    | none => none

/-- What is computed is a step. -/
theorem Account.next_step {cfg : SsdConfig} {bytes : Nat} {s s' : Account} {l : NsStep}
    (h : s.next l = some s') : (accountRuns cfg bytes).step s l s' := by
  unfold Account.next at h
  cases l with
  | command req =>
    dsimp only at h
    split at h
    · rename_i hrun
      obtain rfl := Option.some.inj h
      exact ⟨_, ⟨⟨.zero, _, hrun⟩, rfl⟩, rfl⟩
    · cases h
  | release k =>
    dsimp only at h
    split at h
    · rename_i hbytes
      obtain rfl := Option.some.inj h
      exact ⟨⟨_, hbytes, rfl⟩, rfl⟩
    · cases h

/-- The commands cover whole pages. -/
def wholePages (s : Account) : NsStep → Bool
  | .command req => req.cmd.slba % s.ns.sp.secsPerPg = 0 ∧ req.cmd.nrLba % s.ns.sp.secsPerPg = 0 ∧
      req.cmd.slba + req.cmd.nrLba < 2 ^ 64
  | .release _ => true

/-- The check is the condition. -/
theorem writesWholePages_of_wholePages {s : Account} {l : NsStep} (h : wholePages s l = true) :
    WritesWholePages s l := by
  cases l with
  | command req =>
    obtain ⟨hstart, hlength, hwrap⟩ := of_decide_eq_true h
    exact fun _ _ => ⟨hstart, hlength, hwrap⟩
  | release _ => trivial

/-- The account of a fresh device of 1 GiB after some steps of whole pages. -/
def accountedGib (ls : List NsStep) : Option Account :=
  match (convInitNamespace samsung970Pro gib).run .zero with
  | .ok (ns, _) =>
    System.follow (fun s l => if wholePages s l = true then s.next l else none) ⟨⟨ns, []⟩, .empty⟩ ls
  | .error _ => none

/-- A run of whole pages that was computed, with a property of its end. -/
theorem exists_accountedGib {ls : List NsStep} {p : Account → Bool}
    (h : (accountedGib ls).any p = true) :
    ∃ s, ((accountRuns samsung970Pro gib).guarded WritesWholePages).Reachable s ∧ p s = true := by
  obtain ⟨s, hs, hp⟩ := (Option.any_eq_true _ _).mp h
  unfold accountedGib at hs
  split at hs
  · rename_i ns env' hrun
    refine ⟨s, System.Reachable.follow (fun t l t' _ hnext => ?_) ls
      (.init ⟨⟨rfl, .zero, env', hrun⟩, rfl⟩) hs, hp⟩
    split at hnext
    · rename_i hl
      exact ⟨writesWholePages_of_wholePages hl, Account.next_step hnext⟩
    · cases hnext
  · cases hs

/-- The first 48 pages, which fill a wordline of each instance. -/
def fourWordlines : NvmeCommand :=
  { opcode := .write, commandId := 0, slba := 0, length := 383, fua := false
    slba_lt := zero_lt_u64, length_lt := by decide }

/-- One of the four wordlines is released, and then a page is written. -/
theorem write_buffer_conserved_wordlines : ∃ s,
    ((accountRuns samsung970Pro gib).guarded WritesWholePages).Reachable s ∧
      s.ns.writeBuffer.remaining = 786432 - 3 * 49152 - 4096 ∧ s.pending.length = 3 ∧ Conserved s := by
  obtain ⟨s, hreach, hends⟩ := @exists_accountedGib
    [.command (oneRequest fourWordlines), .release 2, .command (oneRequest pageCmd)]
    (fun s => s.ns.writeBuffer.remaining = 786432 - 3 * 49152 - 4096 ∧ s.pending.length = 3)
    (by decide +kernel)
  obtain ⟨hbuffer, hpending⟩ := of_decide_eq_true hends
  exact ⟨s, hreach, hbuffer, hpending, write_buffer_conserved gib_wellFormed.pgsPerBlk_pos
    gib_wellFormed.pgsPerBlk_le hreach⟩

/-- After `k` writes of the first LBA, less than a wordline of pages. -/
structure LbaWrites (k : Nat) (s : Account) : Prop where
  reachable : (accountRuns samsung970Pro gib).Reachable s
  ready : Ready s
  buffer : s.ns.writeBuffer = { size := 786432, remaining := 786432 - 512 * k }
  fill : s.wordlines.fill 0 = k % 12
  pending : s.pending.length = k / 12

/-- One more write of the first LBA. -/
theorem LbaWrites.succ {k : Nat} {s : Account} (h : LbaWrites k s) (hk : k < 1536) :
    ∃ s', LbaWrites (k + 1) s' := by
  have hbytes : (oneRequest lbaCmd).cmd.bytes = 512 := rfl
  obtain ⟨s', hstep, hready, hbuffer, hwordlines⟩ :=
    @Ready.write _ h.ready (oneRequest lbaCmd) ⟨rfl, by decide⟩
      (by rw [h.buffer, hbytes]; show 512 ≤ 786432; decide)
      (by rw [h.buffer, hbytes]; show 512 ≤ 786432 - 512 * k; omega)
  refine ⟨s', .step h.reachable hstep, hready, ?_, ?_, ?_⟩
  · have hleft : 786432 - 512 * k - 512 = 786432 - 512 * (k + 1) := by omega
    rw [hbuffer, hbytes, ConvNs.charge, h.buffer, ← hleft]
  · rw [hwordlines]
    exact Batches.fill_add_self h.fill (by decide)
  · rw [hready.audited.length, hwordlines, Batches.length_completed_add h.fill (by decide),
      ← h.ready.audited.length, h.pending]
    split
    · omega
    · omega

/-- Twelve writes of one LBA fill a wordline; its release returns eight times what they were
charged, and the buffer has more room than its size. -/
theorem write_buffer_overflows_gib : ∃ s, (accountRuns samsung970Pro gib).Reachable s ∧
    s.ns.writeBuffer.size < s.ns.writeBuffer.remaining ∧ ¬ Conserved s := by
  have hwrites : ∀ k, k ≤ 12 → ∃ s, LbaWrites k s := by
    intro k
    induction k with
    | zero =>
      intro _
      obtain ⟨s, hinit, hready, hbuffer, hwordlines, hpending⟩ := exists_ready
      refine ⟨s, .init hinit, hready, hbuffer, ?_, ?_⟩
      · rw [hwordlines]
        rfl
      · rw [hpending]
        rfl
    | succ k ih =>
      intro hk
      obtain ⟨s, hs⟩ := ih (by omega)
      exact hs.succ (by omega)
  obtain ⟨s, hs⟩ := hwrites 12 le_rfl
  obtain ⟨b, hb⟩ := List.length_eq_one_iff.mp hs.pending
  have hbytes : b = 49152 := by
    have hmem := hs.ready.audited.bytes b (by rw [hb]; exact List.mem_singleton_self b)
    rw [hmem, (params970Pro_is gib).pgsPerOneshotpg, (params970Pro_is gib).pgsz]
  let s' : Account :=
    { ns := { s.ns with writeBuffer := bufferRelease s.ns.writeBuffer b }
      pending := s.pending.eraseIdx 0, wordlines := s.wordlines.take 0 }
  have hstep : (accountRuns samsung970Pro gib).step s (.release 0) s' :=
    ⟨⟨b, by rw [hb]; rfl, rfl⟩, rfl⟩
  have hover : s'.ns.writeBuffer.size < s'.ns.writeBuffer.remaining := by
    show s.ns.writeBuffer.size < s.ns.writeBuffer.remaining + b
    rw [hs.buffer, hbytes]
    decide
  exact ⟨s', .step hs.reachable hstep, hover, fun h => Nat.not_le.mpr hover h.le_size⟩

end NvmeVirt

import NvmeVirt.Lib.System
import NvmeVirt.Laws.Conv.Namespace

/-!
# The clocks of the LUNs

Every flash command starts no earlier than its LUN is available and makes it available no earlier
than it starts, so the commands of a LUN follow one another, and the latest LUN clock is past every
program and every erase. `nandRuns` are sequences of commands on all instances, with whatever leaves
the clocks alone in between. All this as long as no time reaches 2⁶⁴, where the sums of
`ssd_advance_nand` wrap.

`nandWork_worked` says what one command does to the clocks: it moves that of its own LUN only, to a
time between its start and its completion. `NandRunStep.serial` turns this into the step of a run,
and `convFlush_le` says of the loop in `conv_flush` that it finds the latest clock.

The transfers charge their channel as the source does; of its answers only the bound matters
(`chmodelRequest_le`). How well the channel shares its bandwidth is `Laws/Ssd/Credits`.
-/

set_option autoImplicit false

namespace NvmeVirt

open Outcome

/-! ## One command -/

/-- `ssd_advance_nand` once it is known when the array or the channel starts. -/
def nandWork (ssd : Ssd) (ncmd : NandCmd) (start : Nat) : FtlM (Ssd × Nat) :=
  let ssd := { ssd with issued := ncmd :: ssd.issued }
  let ppa := ncmd.ppa
  let lun := ssd.getLun ppa
  let cell := ssd.getCell ppa
  match ncmd.cmd with
  | .read => do
    let lat := if ncmd.xferSize = 4096 then ssd.sp.pg4kbRdLat cell else ssd.sp.pgRdLat cell
    let (ssd, chnlEtime, completed) ←
      readXfer ncmd ncmd.xferSize ssd ncmd.xferSize (u64 (start + lat)) (0, 0)
    pure (ssd.setLun ppa.ch ppa.lun { lun with nextLunAvailTime := chnlEtime }, completed)
  | .write => do
    let (m, chnlEtime) ← chmodelRequest (ssd.perfModel ppa.ch) start ncmd.xferSize
    let nandEtime := u64 (chnlEtime + ssd.sp.pgWrLat)
    pure ((ssd.setPerfModel ppa.ch m).setLun ppa.ch ppa.lun
      { lun with nextLunAvailTime := nandEtime }, nandEtime)
  | .erase =>
    let nandEtime := u64 (start + ssd.sp.blkErLat)
    pure (ssd.setLun ppa.ch ppa.lun { lun with nextLunAvailTime := nandEtime }, nandEtime)
  | .nop =>
    pure (ssd.setLun ppa.ch ppa.lun { lun with nextLunAvailTime := start }, start)

/-- A command starts when its LUN is available and its own start time has come. -/
theorem ssdAdvanceNand_eq (ssd : Ssd) (ncmd : NandCmd) :
    ssdAdvanceNand ssd ncmd = nandCmdStime ncmd >>= fun cmdStime =>
      nandWork ssd ncmd (max (ssd.getLun ncmd.ppa).nextLunAvailTime cmdStime) := rfl

/-- The longest a command can take from its start on: the array, and each of its transfers. -/
def Ssd.workTime (ssd : Ssd) (ncmd : NandCmd) : Nat :=
  match ncmd.cmd with
  | .read =>
    (if ncmd.xferSize = 4096 then ssd.sp.pg4kbRdLat (ssd.getCell ncmd.ppa)
      else ssd.sp.pgRdLat (ssd.getCell ncmd.ppa)) +
      (divRoundUp ncmd.xferSize (max 1 ssd.sp.maxChXferSize) + 1) * maxTransferLat
  | .write => maxTransferLat + ssd.sp.pgWrLat
  | .erase => ssd.sp.blkErLat
  | .nop => 0

/-- The clock of a LUN. -/
def Ssd.clock (ssd : Ssd) (ch lun : Nat) : Nat := (ssd.lun ch lun).nextLunAvailTime

theorem Ssd.clock_setLun_self (ssd : Ssd) (ch lun : Nat) (l : NandLun) :
    (ssd.setLun ch lun l).clock ch lun = l.nextLunAvailTime := by
  unfold Ssd.clock Ssd.setLun
  dsimp only
  rw [Function.update_self, Function.update_self]

theorem Ssd.clock_setLun_of_ne (ssd : Ssd) {ch lun c i : Nat} (l : NandLun)
    (h : ¬ (c = ch ∧ i = lun)) : (ssd.setLun ch lun l).clock c i = ssd.clock c i := by
  unfold Ssd.clock Ssd.setLun
  dsimp only
  by_cases hc : c = ch
  · subst hc
    have hi : i ≠ lun := fun hi => h ⟨rfl, hi⟩
    rw [Function.update_self, Function.update_of_ne hi]
  · rw [Function.update_of_ne hc]

/-- What a timing step leaves of a device when it moves no LUN clock. -/
structure Ssd.SameClocks (ssd ssd' : Ssd) : Prop where
  sp : ssd'.sp = ssd.sp
  lun : ssd'.lun = ssd.lun

/-- What a command does to the clocks: it starts at `start`, keeps its LUN until `lunEnd` and completes
at `completed`. -/
structure Ssd.Worked (ssd : Ssd) (ncmd : NandCmd) (start : Nat) (ssd' : Ssd) (completed : Nat) :
    Prop where
  sp : ssd'.sp = ssd.sp
  others : ∀ c i, ¬ (c = ncmd.ppa.ch ∧ i = ncmd.ppa.lun) → ssd'.clock c i = ssd.clock c i
  start_le : start ≤ ssd'.clock ncmd.ppa.ch ncmd.ppa.lun
  clock_le : ssd'.clock ncmd.ppa.ch ncmd.ppa.lun ≤ completed
  programmed : ncmd.cmd = .write ∨ ncmd.cmd = .erase →
    completed = ssd'.clock ncmd.ppa.ch ncmd.ppa.lun

section Ensures

variable {E : Fault → Prop}

/-- A transfer that starts early enough ends no earlier than it starts, and in time. -/
theorem chmodelRequest_le (ch : ChannelModel) {requestTime : Nat} (length : Nat)
    (hfits : requestTime + maxTransferLat < 2 ^ 64) :
    Ensures (fun _ => True) (chmodelRequest ch requestTime length) fun r =>
      requestTime ≤ r.2 ∧ r.2 ≤ requestTime + maxTransferLat := by
  refine cpuClock_ensures.bind fun curTime _ => Ensures.any.bind fun _ _ => ?_
  refine .ite (fun _ => .pure ⟨Nat.le_refl _, Nat.le_add_right _ _⟩) fun _ => .pure ?_
  unfold chmodelTransfer
  dsimp only
  generalize ((chmodelAdvance ch curTime).head + _) % nrCreditEntries = pos
  have hlat := chmodelLatency_le (chmodelAdvance ch curTime) pos (u32 (divRoundUp length unitXferSize))
  unfold u64
  rw [Nat.mod_eq_of_lt (Nat.lt_of_le_of_lt (Nat.add_le_add_left hlat _) hfits)]
  exact ⟨Nat.le_add_right _ _, Nat.add_le_add_left hlat _⟩

/-- One piece of a read: the channel transfer ends no earlier than it may start, and the host has the
piece no earlier than that. -/
theorem readPiece_clocks (ssd : Ssd) (ncmd : NandCmd) {chnlStime : Nat} (xferSize : Nat)
    (hfits : chnlStime + 2 * maxTransferLat < 2 ^ 64) :
    Ensures (fun _ => True) (readPiece ssd ncmd chnlStime xferSize) fun r =>
      ssd.SameClocks r.1 ∧ chnlStime ≤ r.2.1 ∧ r.2.1 ≤ chnlStime + maxTransferLat ∧
        r.2.1 ≤ r.2.2 := by
  refine (chmodelRequest_le _ _ (by omega)).bind fun r hr => ?_
  obtain ⟨hstart, hend⟩ := hr
  refine .ite (fun _ => ?_) fun _ => .pure ⟨⟨rfl, rfl⟩, hstart, hend, Nat.le_refl _⟩
  have hpcie : r.2 + maxTransferLat < 2 ^ 64 := by omega
  refine Ensures.bind ((chmodelRequest_le _ _ hpcie).bind fun r' hr' => ?_) fun r' hr' => .pure hr'
  exact .pure ⟨⟨rfl, rfl⟩, hstart, hend, hr'.1⟩

/-- The transfers of a read follow one another; `pieces` of them are left at most. -/
theorem readXfer_clocks (ncmd : NandCmd) : ∀ (passes : Nat) (ssd : Ssd)
    (remaining chnlStime pieces : Nat) (ends : Nat × Nat), ends.1 ≤ ends.2 →
      (passes ≤ pieces ∨ remaining ≤ pieces * ssd.sp.maxChXferSize) →
      chnlStime + (pieces + 1) * maxTransferLat < 2 ^ 64 →
      Ensures (fun _ => True) (readXfer ncmd passes ssd remaining chnlStime ends) fun r =>
        ssd.SameClocks r.1 ∧ r.2.1 ≤ r.2.2 ∧
          (r.2 = ends ∨ chnlStime ≤ r.2.1) ∧ (0 < passes → 0 < remaining → chnlStime ≤ r.2.1)
  | 0, _, _, _, _, _, h, _, _ =>
    .pure ⟨⟨rfl, rfl⟩, h, .inl rfl, fun hpos => absurd hpos (Nat.lt_irrefl 0)⟩
  | passes + 1, ssd, remaining, chnlStime, pieces, ends, h, hpieces, hfits => by
    unfold readXfer
    refine .ite (fun hz => .pure ⟨⟨rfl, rfl⟩, h, .inl rfl, fun _ hpos => ?_⟩) fun hne => ?_
    · omega
    cases pieces with
    | zero =>
      rcases hpieces with hnone | hnone
      · exact absurd hnone (Nat.not_succ_le_zero _)
      · rw [Nat.zero_mul] at hnone
        exact absurd (Nat.le_zero.mp hnone) hne
    | succ pieces =>
      rw [Nat.add_mul, Nat.add_mul, Nat.one_mul] at hfits
      refine (readPiece_clocks ssd ncmd _ (by omega)).bind fun r hr => ?_
      obtain ⟨hsame, hstart, hend, hends⟩ := hr
      have hleft : passes ≤ pieces ∨ remaining - min remaining ssd.sp.maxChXferSize ≤
          pieces * r.1.sp.maxChXferSize := by
        rw [hsame.sp]
        refine hpieces.imp Nat.le_of_succ_le_succ fun hle => ?_
        rw [Nat.add_mul, Nat.one_mul] at hle
        omega
      refine (readXfer_clocks ncmd passes r.1 _ r.2.1 pieces r.2 hends hleft ?_).mono ?_
      · rw [Nat.add_mul, Nat.one_mul]
        omega
      rintro r' ⟨hsame', hends', hkept, _⟩
      have hlater : chnlStime ≤ r'.2.1 := by
        obtain hkept | hlater := hkept
        · exact hkept ▸ hstart
        · exact hstart.trans hlater
      exact ⟨⟨hsame'.sp.trans hsame.sp, hsame'.lun.trans hsame.lun⟩, hends', .inr hlater,
        fun _ _ => hlater⟩

/-- The pieces a read comes out in. -/
theorem pieces_enough (xferSize maxSize : Nat) :
    xferSize ≤ divRoundUp xferSize (max 1 maxSize) ∨
      xferSize ≤ divRoundUp xferSize (max 1 maxSize) * maxSize := by
  unfold divRoundUp
  rcases Nat.eq_zero_or_pos maxSize with hzero | hpos
  · left
    rw [hzero, max_eq_left (by decide), Nat.add_sub_cancel, Nat.div_one]
  · right
    rw [max_eq_right hpos]
    have hlt := Nat.lt_mul_div_succ (xferSize + maxSize - 1) hpos
    rw [Nat.mul_add, Nat.mul_one, Nat.mul_comm] at hlt
    omega

/-- Any command, from its start on, unless it may run into 2⁶⁴. -/
theorem nandWork_worked (ssd : Ssd) (ncmd : NandCmd) (start : Nat)
    (hxfer : ncmd.cmd = .read → 0 < ncmd.xferSize) (hfits : start + ssd.workTime ncmd < 2 ^ 64) :
    Ensures (fun _ => True) (nandWork ssd ncmd start) fun r => ssd.Worked ncmd start r.1 r.2 := by
  have hset : ∀ (ssd' : Ssd) (t completed : Nat), ssd.SameClocks ssd' → start ≤ t → t ≤ completed →
      (ncmd.cmd = .write ∨ ncmd.cmd = .erase → completed = t) →
      ssd.Worked ncmd start (ssd'.setLun ncmd.ppa.ch ncmd.ppa.lun
        { ssd.getLun ncmd.ppa with nextLunAvailTime := t }) completed := by
    intro ssd' t completed hsame hstart hcompleted hprogram
    refine ⟨hsame.sp, fun c i hne => ?_, ?_, ?_, fun hp => ?_⟩
    · rw [Ssd.clock_setLun_of_ne _ _ hne]
      unfold Ssd.clock
      rw [hsame.lun]
    · rw [Ssd.clock_setLun_self]
      exact hstart
    · rw [Ssd.clock_setLun_self]
      exact hcompleted
    · rw [Ssd.clock_setLun_self]
      exact hprogram hp
  have hplain : ∀ n, n < 2 ^ 64 → u64 n = n := fun n hn => Nat.mod_eq_of_lt hn
  unfold Ssd.workTime at hfits
  unfold nandWork
  dsimp only
  cases hcmd : ncmd.cmd with
  | read =>
    rw [hcmd] at hfits
    dsimp only at hfits
    have hpos := hxfer hcmd
    have hcell : ({ ssd with issued := ncmd :: ssd.issued } : Ssd).getCell ncmd.ppa =
        ssd.getCell ncmd.ppa := rfl
    rw [hcell]
    generalize (if ncmd.xferSize = 4096 then ssd.sp.pg4kbRdLat (ssd.getCell ncmd.ppa)
      else ssd.sp.pgRdLat (ssd.getCell ncmd.ppa)) = lat at hfits ⊢
    rw [← Nat.add_assoc] at hfits
    rw [hplain _ (Nat.lt_of_le_of_lt (Nat.le_add_right _ _) hfits)]
    refine (readXfer_clocks ncmd _ { ssd with issued := ncmd :: ssd.issued } _ _ _ (0, 0)
      (Nat.le_refl 0) (pieces_enough ncmd.xferSize ssd.sp.maxChXferSize) hfits).bind
        fun r hr => .pure ?_
    obtain ⟨hsame, hends, _, hstart⟩ := hr
    refine hset _ _ _ ⟨hsame.sp, hsame.lun⟩ ((Nat.le_add_right _ _).trans (hstart hpos hpos)) hends ?_
    rw [hcmd]
    exact nofun
  | write =>
    rw [hcmd] at hfits
    dsimp only at hfits
    refine (chmodelRequest_le _ _ (by omega)).bind fun r hr => .pure ?_
    obtain ⟨hstart, hend⟩ := hr
    have hwrite : r.2 + ssd.sp.pgWrLat < 2 ^ 64 := by omega
    rw [hplain _ hwrite]
    exact hset _ _ _ ⟨rfl, rfl⟩ (hstart.trans (Nat.le_add_right _ _)) (Nat.le_refl _) fun _ => rfl
  | erase =>
    rw [hcmd] at hfits
    rw [hplain _ hfits]
    exact .pure (hset _ _ _ ⟨rfl, rfl⟩ (Nat.le_add_right _ _) (Nat.le_refl _) fun _ => rfl)
  | nop =>
    refine .pure (hset _ _ _ ⟨rfl, rfl⟩ (Nat.le_refl _) (Nat.le_refl _) ?_)
    rw [hcmd]
    exact nofun

end Ensures

/-! ## Sequences of commands -/

/-- A command as it was carried out. -/
structure NandSpan where
  part : Nat
  cmd : NandCmd
  /-- The start time it was given, or when it was given. -/
  stime : Nat
  start : Nat
  lunEnd : Nat
  completed : Nat

/-- Two commands for one LUN. -/
def NandSpan.SameLun (b c : NandSpan) : Prop :=
  b.part = c.part ∧ b.cmd.ppa.ch = c.cmd.ppa.ch ∧ b.cmd.ppa.lun = c.cmd.ppa.lun

/-- The clock of a LUN of the instance `i`. -/
def ConvNs.clock (ns : ConvNs) (i ch lun : Nat) : Nat := (ns.ftls i).ssd.clock ch lun

/-- The command goes to a LUN there is, and a read has something to read. -/
structure ConvNs.Takes (ns : ConvNs) (i : Nat) (cmd : NandCmd) : Prop where
  part : i < ns.nrParts
  ch : cmd.ppa.ch < (ns.ftls i).ssd.sp.nchs
  lun : cmd.ppa.lun < (ns.ftls i).ssd.sp.lunsPerCh
  xfer : cmd.cmd = .read → 0 < cmd.xferSize

/-- The instances and the geometry are the same, and no LUN clock moved. -/
structure ConvNs.SameClocks (ns ns' : ConvNs) : Prop where
  nrParts : ns'.nrParts = ns.nrParts
  sp : ∀ i, (ns'.ftls i).ssd.sp = (ns.ftls i).ssd.sp
  clock : ∀ i ch lun, ns'.clock i ch lun = ns.clock i ch lun

/-- A flash command of an instance with its start time, given or taken from the clock, or anything
else. -/
inductive NandStep where
  | command (part : Nat) (cmd : NandCmd) (stime : Nat)
  | other

/-- One command of the instance `i`, from any environment. -/
inductive NandRunStep : ConvNs × List NandSpan → NandStep → ConvNs × List NandSpan → Prop where
  | command {ns : ConvNs} {spans : List NandSpan} {i stime completed : Nat} {cmd : NandCmd} {ssd : Ssd}
      {env env₁ env' : Env} : ns.Takes i cmd →
      (nandCmdStime cmd).run env = .ok (stime, env₁) →
      (nandWork (ns.part i).ssd cmd (max ((ns.part i).ssd.getLun cmd.ppa).nextLunAvailTime stime)).run
        env₁ = .ok ((ssd, completed), env') →
      NandRunStep (ns, spans) (.command i cmd stime)
        (ns.setPart i { ns.part i with ssd },
          spans ++ [{ part := i, cmd, stime
                      start := max ((ns.part i).ssd.getLun cmd.ppa).nextLunAvailTime stime
                      lunEnd := (ssd.getLun cmd.ppa).nextLunAvailTime, completed }])
  | other {ns ns' : ConvNs} {spans : List NandSpan} : ns.SameClocks ns' →
      NandRunStep (ns, spans) .other (ns', spans)

/-- Sequences of flash commands on the instances of a namespace, in whatever state they are. -/
def nandRuns : System (ConvNs × List NandSpan) NandStep where
  init s := s.2 = []
  step := NandRunStep

/-- No time of the command reaches 2⁶⁴. -/
def NoTimeWraps (s : ConvNs × List NandSpan) : NandStep → Prop
  | .command i cmd stime =>
    max ((s.1.part i).ssd.getLun cmd.ppa).nextLunAvailTime stime + (s.1.part i).ssd.workTime cmd < 2 ^ 64
  | .other => True

/-- The commands so far follow one another on each LUN, and their ends are in the past of its clock. -/
structure NandSerial (ns : ConvNs) (spans : List NandSpan) : Prop where
  apart : spans.Pairwise fun b c => b.SameLun c → b.lunEnd ≤ c.start
  takes : ∀ b ∈ spans, ns.Takes b.part b.cmd
  ended : ∀ b ∈ spans, b.lunEnd ≤ ns.clock b.part b.cmd.ppa.ch b.cmd.ppa.lun
  stime_le : ∀ b ∈ spans, b.stime ≤ b.start
  start_le : ∀ b ∈ spans, b.start ≤ b.lunEnd
  lunEnd_le : ∀ b ∈ spans, b.lunEnd ≤ b.completed
  programmed : ∀ b ∈ spans, b.cmd.cmd = .write ∨ b.cmd.cmd = .erase → b.completed = b.lunEnd

section Runs

variable {ns ns' : ConvNs} {spans : List NandSpan} {i : Nat} {cmd : NandCmd}

/-- What an instance takes depends on its geometry. -/
theorem ConvNs.Takes.congr (h : ns.Takes i cmd) (hparts : ns'.nrParts = ns.nrParts)
    (hsp : (ns'.ftls i).ssd.sp = (ns.ftls i).ssd.sp) : ns'.Takes i cmd :=
  ⟨hparts ▸ h.part, hsp ▸ h.ch, hsp ▸ h.lun, h.xfer⟩

/-- Clocks that go on keep the order. -/
theorem NandSerial.mono (h : NandSerial ns spans) (hparts : ns'.nrParts = ns.nrParts)
    (hsp : ∀ i, (ns'.ftls i).ssd.sp = (ns.ftls i).ssd.sp)
    (hclock : ∀ i ch lun, ns.clock i ch lun ≤ ns'.clock i ch lun) : NandSerial ns' spans :=
  { h with
    takes := fun b hb => (h.takes b hb).congr hparts (hsp _)
    ended := fun b hb => (h.ended b hb).trans (hclock _ _ _) }

/-- One more command. -/
theorem NandSerial.append (h : NandSerial ns spans) {b : NandSpan} (htakes : ns.Takes b.part b.cmd)
    (hover : b.lunEnd ≤ ns.clock b.part b.cmd.ppa.ch b.cmd.ppa.lun) (hstime : b.stime ≤ b.start)
    (hstart : b.start ≤ b.lunEnd) (hcompleted : b.lunEnd ≤ b.completed)
    (hprogrammed : b.cmd.cmd = .write ∨ b.cmd.cmd = .erase → b.completed = b.lunEnd)
    (hafter : ∀ c ∈ spans, c.SameLun b → c.lunEnd ≤ b.start) : NandSerial ns (spans ++ [b]) := by
  have hall : ∀ {P : NandSpan → Prop}, (∀ c ∈ spans, P c) → P b → ∀ c ∈ spans ++ [b], P c := by
    intro P hold hnew c hc
    obtain hc | hc := List.mem_append.mp hc
    · exact hold c hc
    · exact List.mem_singleton.mp hc ▸ hnew
  refine ⟨List.pairwise_append.mpr ⟨h.apart, List.pairwise_singleton _ _, fun c hc d hd => ?_⟩,
    hall h.takes htakes, hall h.ended hover, hall h.stime_le hstime, hall h.start_le hstart,
    hall h.lunEnd_le hcompleted, hall h.programmed hprogrammed⟩
  exact List.mem_singleton.mp hd ▸ hafter c hc

/-- What a command does to the clocks of the instances. -/
structure ConvNs.Stepped (ns : ConvNs) (i : Nat) (cmd : NandCmd) (ns' : ConvNs) : Prop where
  nrParts : ns'.nrParts = ns.nrParts
  sp : ∀ j, (ns'.ftls j).ssd.sp = (ns.ftls j).ssd.sp
  others : ∀ j ch lun, ¬ (j = i ∧ ch = cmd.ppa.ch ∧ lun = cmd.ppa.lun) →
    ns'.clock j ch lun = ns.clock j ch lun

/-- A command on one instance. -/
theorem ConvNs.stepped_setPart {start completed : Nat} {ssd : Ssd}
    (hw : (ns.part i).ssd.Worked cmd start ssd completed) :
    ns.Stepped i cmd (ns.setPart i { ns.part i with ssd }) := by
  have hself : (ns.setPart i { ns.part i with ssd }).ftls i = { ns.part i with ssd } :=
    Function.update_self ..
  have hother : ∀ j, j ≠ i → (ns.setPart i { ns.part i with ssd }).ftls j = ns.ftls j :=
    fun j hj => Function.update_of_ne hj ..
  refine ⟨rfl, fun j => ?_, fun j ch lun hne => ?_⟩
  · by_cases hj : j = i
    · rw [hj, hself]
      exact hw.sp
    · rw [hother j hj]
  · unfold ConvNs.clock
    by_cases hj : j = i
    · rw [hj, hself]
      exact hw.others ch lun fun h => hne ⟨hj, h⟩
    · rw [hother j hj]

/-- One step keeps the order, and no clock goes back. -/
theorem NandRunStep.serial {s s' : ConvNs × List NandSpan} {l : NandStep} (hstep : NandRunStep s l s')
    (hfits : NoTimeWraps s l) (h : NandSerial s.1 s.2) :
    NandSerial s'.1 s'.2 ∧ ∀ i ch lun, s.1.clock i ch lun ≤ s'.1.clock i ch lun := by
  cases hstep with
  | other hsame =>
    have hclock := fun i ch lun => (hsame.clock i ch lun).ge
    exact ⟨h.mono hsame.nrParts hsame.sp hclock, hclock⟩
  | @command ns spans i stime completed cmd ssd env env₁ env' htakes _ hrun =>
    have hw := (nandWork_worked _ _ _ htakes.xfer hfits).of_run hrun
    have hstepped := ConvNs.stepped_setPart hw
    have hnew : (ns.setPart i { ns.part i with ssd }).clock i cmd.ppa.ch cmd.ppa.lun =
        ssd.clock cmd.ppa.ch cmd.ppa.lun := by
      unfold ConvNs.clock ConvNs.setPart
      dsimp only
      rw [Function.update_self]
    have hle : ns.clock i cmd.ppa.ch cmd.ppa.lun ≤ ssd.clock cmd.ppa.ch cmd.ppa.lun :=
      (Nat.le_max_left _ _).trans hw.start_le
    have hclock : ∀ j ch lun, ns.clock j ch lun ≤
        (ns.setPart i { ns.part i with ssd }).clock j ch lun := by
      intro j ch lun
      by_cases hj : j = i ∧ ch = cmd.ppa.ch ∧ lun = cmd.ppa.lun
      · obtain ⟨rfl, rfl, rfl⟩ := hj
        rw [hnew]
        exact hle
      · exact (hstepped.others j ch lun hj).ge
    refine ⟨(h.mono hstepped.nrParts hstepped.sp hclock).append
      (htakes.congr hstepped.nrParts (hstepped.sp i)) hnew.ge (Nat.le_max_right _ _) hw.start_le
      hw.clock_le hw.programmed fun c hc hsame => ?_, hclock⟩
    obtain ⟨hpart, hch, hlun⟩ := hsame
    have hover := h.ended c hc
    rw [hpart, hch, hlun] at hover
    exact hover.trans (Nat.le_max_left _ _)

/-- By induction over the commands, of which none may reach a time of 2⁶⁴. -/
theorem nandRuns_serial :
    (nandRuns.guarded NoTimeWraps).Invariant fun s => NandSerial s.1 s.2 where
  init := by
    rintro ⟨ns, spans⟩ hnil
    have hnil : spans = [] := hnil
    subst hnil
    exact ⟨.nil, nofun, nofun, nofun, nofun, nofun, nofun⟩
  step _ _ _ h hstep := (NandRunStep.serial hstep.2 hstep.1 h).1

end Runs

/-! ## `conv_flush` -/

/-- A running maximum is no less than its start and than any of its terms. -/
theorem le_foldl_max {f : Nat → Nat → Nat} (hgrow : ∀ latest i, latest ≤ f latest i) :
    ∀ (n latest : Nat), latest ≤ (List.range n).foldl f latest ∧
      ∀ i, i < n → ∃ latest', f latest' i ≤ (List.range n).foldl f latest
  | 0, _ => ⟨Nat.le_refl _, nofun⟩
  | n + 1, latest => by
    obtain ⟨hstart, hterms⟩ := le_foldl_max hgrow n latest
    rw [List.range_succ, List.foldl_append]
    refine ⟨hstart.trans (hgrow _ _), fun i hi => ?_⟩
    obtain hlt | rfl := Nat.lt_succ_iff_lt_or_eq.mp hi
    · obtain ⟨latest', hle⟩ := hterms i hlt
      exact ⟨latest', hle.trans (hgrow _ _)⟩
    · exact ⟨_, Nat.le_refl _⟩

/-- The idle time of a device is past all its clocks. -/
theorem ssdNextIdleTime_le (ssd : Ssd) : Ensures (fun _ => True) (ssdNextIdleTime ssd) fun t =>
    ∀ ch lun, ch < ssd.sp.nchs → lun < ssd.sp.lunsPerCh → ssd.clock ch lun ≤ t := by
  refine cpuClock_ensures.bind fun now _ => .pure fun ch lun hch hlun => ?_
  have hinner : ∀ (latest c : Nat), latest ≤ (List.range ssd.sp.lunsPerCh).foldl (fun latest j =>
      max latest (ssd.lun c j).nextLunAvailTime) latest := fun latest c =>
    (le_foldl_max (fun _ _ => Nat.le_max_left _ _) _ latest).1
  obtain ⟨latest, hle⟩ := (le_foldl_max hinner ssd.sp.nchs now).2 ch hch
  obtain ⟨latest', hle'⟩ := (le_foldl_max (f := fun latest j =>
    max latest (ssd.lun ch j).nextLunAvailTime) (fun _ _ => Nat.le_max_left _ _) ssd.sp.lunsPerCh
      latest).2 lun hlun
  exact ((Nat.le_max_right _ _).trans hle').trans hle

/-- The target of a flush is no earlier than any LUN clock. -/
theorem convFlush_le (ns : ConvNs) : Ensures (fun _ => True) (convFlush ns) fun r =>
    ∀ i ch lun, i < ns.nrParts → ch < (ns.ftls i).ssd.sp.nchs →
      lun < (ns.ftls i).ssd.sp.lunsPerCh → ns.clock i ch lun ≤ r.nsecsTarget := by
  refine cpuClock_ensures.bind fun start _ => .ite (fun hz => .pure fun i _ _ hi => ?_) fun _ => ?_
  · omega
  have hloop : Ensures (fun _ => True) (forRange ns.nrParts start fun i latest =>
      ssdNextIdleTime (ns.part i).ssd >>= fun t => pure (max latest t)) fun latest =>
        ∀ i, i < ns.nrParts → ∀ ch lun, ch < (ns.ftls i).ssd.sp.nchs →
          lun < (ns.ftls i).ssd.sp.lunsPerCh → ns.clock i ch lun ≤ latest := by
    refine Ensures.forRange (I := fun n latest => ∀ i, i < n → ∀ ch lun,
      ch < (ns.ftls i).ssd.sp.nchs → lun < (ns.ftls i).ssd.sp.lunsPerCh →
        ns.clock i ch lun ≤ latest) nofun fun j _ latest hle => ?_
    refine (ssdNextIdleTime_le _).bind fun t ht => .pure fun i hi ch lun hch hlun => ?_
    obtain hlt | rfl := Nat.lt_succ_iff_lt_or_eq.mp hi
    · exact (hle i hlt ch lun hch hlun).trans (Nat.le_max_left _ _)
    · exact (ht ch lun hch hlun).trans (Nat.le_max_right _ _)
  exact hloop.bind fun latest hle => .pure fun i ch lun hi hch hlun => hle i hi ch lun hch hlun

/-- As long as no time reaches 2⁶⁴: however commands are mixed, those of a LUN follow one another,
no clock goes back, no command completes before it starts, and a flush waits for every program and
every erase before it. A run gives `ssd_advance_nand` any commands, on any LUNs and with any start
times, and the transfers of one are charged to its channel; `NoTimeWraps` bounds what a command
starts from and the longest it can take, not its result. -/
theorem lun_time_serialised {ns : ConvNs} {spans : List NandSpan}
    (h : (nandRuns.guarded NoTimeWraps).Reachable (ns, spans)) :
    (spans.Pairwise fun b c => b.SameLun c → b.lunEnd ≤ c.start) ∧
    (∀ b ∈ spans, b.stime ≤ b.start ∧ b.start ≤ b.lunEnd ∧ b.start ≤ b.completed) ∧
    (∀ l s', (nandRuns.guarded NoTimeWraps).step (ns, spans) l s' →
      ∀ i ch lun, ns.clock i ch lun ≤ s'.1.clock i ch lun) ∧
    (∀ env env' result, (convFlush ns).run env = .ok (result, env') →
      ∀ b ∈ spans, b.cmd.cmd = .write ∨ b.cmd.cmd = .erase → b.completed ≤ result.nsecsTarget) ∧
    ∀ ssd ncmd, ssdAdvanceNand ssd ncmd = nandCmdStime ncmd >>= fun cmdStime =>
      nandWork ssd ncmd (max (ssd.getLun ncmd.ppa).nextLunAvailTime cmdStime) := by
  have hserial : NandSerial ns spans := nandRuns_serial.reachable h
  refine ⟨hserial.apart, fun b hb => ?_,
    fun l s' hstep => (NandRunStep.serial hstep.2 hstep.1 hserial).2,
    fun env env' result hrun b hb hp => ?_, ssdAdvanceNand_eq⟩
  · have hstart := hserial.start_le b hb
    exact ⟨hserial.stime_le b hb, hstart, hstart.trans (hserial.lunEnd_le b hb)⟩
  · have htakes := hserial.takes b hb
    rw [hserial.programmed b hb hp]
    exact (hserial.ended b hb).trans
      ((convFlush_le ns).of_run hrun b.part b.cmd.ppa.ch b.cmd.ppa.lun htakes.part htakes.ch htakes.lun)

/-! ## One instance -/

/-- A namespace of one instance. -/
def oneInstance : ConvNs where
  nrParts := 1
  size := 0
  ftls := fun _ => convFtlTables (cp970Pro (2 ^ 30)) (ssdInit (params970Pro (2 ^ 30)))
  pcie := chmodelInit 0
  writeBuffer := bufferInit 0

/-- A program of the first page of LUN 0 at `stime`. -/
def programFirst (stime : Nat) : NandCmd :=
  { type := .userIo, cmd := .write, xferSize := kb 32, stime, interleavePciDma := false
    ppa := Ppa.ofFields 0 0 0 0 0 }

/-- A clock that is past every time asked for here, so that the channel model answers at once. -/
def lateEnv : Env := { Env.zero with cpuClock := fun _ => 2 ^ 40 }

theorem channels_pos : 0 < (oneInstance.ftls 0).ssd.sp.nchs := by decide +kernel

theorem luns_pos : 0 < (oneInstance.ftls 0).ssd.sp.lunsPerCh := by decide +kernel

/-- Two programs of one page: the second asks for an earlier time and starts when the first ends. -/
theorem lun_time_two_programs : ∃ ns spans, (nandRuns.guarded NoTimeWraps).Reachable (ns, spans) ∧
    spans.length = 2 ∧ (spans.Pairwise fun b c => b.SameLun c → b.lunEnd ≤ c.start) ∧
    ∀ b ∈ spans, b.start ≤ b.completed := by
  have htakes : ∀ stime, oneInstance.Takes 0 (programFirst stime) := fun _ =>
    ⟨Nat.zero_lt_one, channels_pos, luns_pos, nofun⟩
  have hone := System.Reachable.step (S := nandRuns.guarded NoTimeWraps)
    (.init (s := (oneInstance, [])) rfl)
    ⟨by show max _ _ + _ < 2 ^ 64; decide +kernel,
      @NandRunStep.command _ _ _ _ _ _ _ lateEnv _ _ (htakes 5) rfl rfl⟩
  have htwo := hone.step
    ⟨by show max _ _ + _ < 2 ^ 64; decide +kernel,
      @NandRunStep.command _ _ _ _ _ _ _ lateEnv _ _
        ((htakes 1).congr (by rfl) (by rfl)) rfl rfl⟩
  have hserial := lun_time_serialised htwo
  exact ⟨_, _, htwo, rfl, hserial.1, fun b hb => (hserial.2.1 b hb).2.2⟩

/-- A program asked for at the last nanosecond completes long before it starts. -/
theorem lun_time_wraps : ∃ s b, nandRuns.Reachable s ∧ b ∈ s.2 ∧ b.cmd.cmd = .write ∧
    b.start = 2 ^ 64 - 1 ∧ b.completed < b.start := by
  have hstep := System.Reachable.step (S := nandRuns) (.init (s := (oneInstance, [])) rfl)
    (@NandRunStep.command _ _ _ _ _ (programFirst (2 ^ 64 - 1)) _ lateEnv _ _
      ⟨Nat.zero_lt_one, channels_pos, luns_pos, nofun⟩ rfl rfl)
  exact ⟨_, _, hstep, List.mem_singleton.mpr rfl, rfl, rfl, by decide +kernel⟩

end NvmeVirt

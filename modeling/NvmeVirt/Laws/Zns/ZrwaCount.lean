import NvmeVirt.Laws.Zns.Run

/-!
# The ZRWA resource

`__init_resource` makes as many ZRWA units as there are zones, not `nr_zrwa_zones`; an implicit
flush to the end of a zone keeps the unit; and with a flush granularity of zero a command can divide
by it. A run that stays clear of the three (`ZrwaSafe`) counts the ZRWA zones right, within the
limit, and divides by zero nowhere.

How many zones hold a unit grows only with the EMPTY zones a command opens with ZRWA
(`Sent.heldCnt_le`); writes add none (`Kept.heldCnt_le`). So one command stays within the limit if
the zones it can open are few enough (`ZrwaSettled.command`). A zone number past `nr_zones` is no
step of these runs.

The counterpart, a unit that is lost or a division that is reached, is computed on two zones at the
end.
-/

set_option autoImplicit false

namespace NvmeVirt

open Outcome

namespace ZnsFtl

instance (ftl : ZnsFtl) (cmd : ZoneMgmtSend) (z : Nat) : Decidable (ftl.addressed cmd z) :=
  inferInstanceAs (Decidable (if cmd.selectAll = true then
    ∃ j, j < ftl.zp.nrZones ∧ z = ftl.lbaToZone (ftl.zoneToSlba j) else z = ftl.lbaToZone cmd.slba))

/-- The EMPTY zones a command addresses. -/
def emptyAddressed (ftl : ZnsFtl) (cmd : ZoneMgmtSend) : Finset Nat :=
  ftl.zones.filter fun z => ftl.addressed cmd z ∧ (ftl.zoneDescs z).state = .empty

/-- How many open or closed zones have a valid ZRWA. -/
def countZrwa (ftl : ZnsFtl) : Nat :=
  ((Finset.range ftl.zp.nrZones).filter fun z =>
    ((ftl.zoneDescs z).zrwav && (ftl.zoneDescs z).state.isActive) = true).card

end ZnsFtl

/-- The command opens with ZRWA no more zones than there are ZRWA units left, flushes no zone
implicitly to its end, and divides by no zero. Every EMPTY zone an open addresses counts, for every one
of them is opened: active and open units there are as many as zones (`Charged.not_full`). -/
def ZrwaSafe (s : ZnsRun) : ZnsEvent → Prop
  | .command (.write cmd) _ => ¬ s.ftl.WriteDivides cmd ∧ ¬ s.ftl.FlushEnds cmd
  | .command (.zoneMgmtSend cmd) _ => ¬ s.ftl.SendDivides cmd ∧
    (cmd.zsa = .openZone → cmd.zsaso = true →
      (s.ftl.resInfos .zrwaZone).acquiredCnt + (s.ftl.emptyAddressed cmd).card ≤
        s.ftl.zp.nrZrwaZones)
  | _ => True

section Moves

variable {action : ZoneSendAction} {option : Bool} {d d' : ZoneDescriptor}

/-- Only an open with the option gives a zone a ZRWA unit, and only an EMPTY zone. -/
theorem ZoneMove.zrwa (h : ZoneMove action option d d') (hidle : d.state = .empty → d.zrwav = false)
    (hheld : d'.holds .zrwaZone = true) :
    d.holds .zrwaZone = true ∨ action = .openZone ∧ option = true ∧ d.state = .empty := by
  cases h with
  | stay _ => exact .inl hheld
  | close hopen =>
    apply Or.inl
    cases hs : d.state <;> simp_all [ZoneDescriptor.holds, ZoneState.isOpen, ZoneState.isActive]
  | finish _ => simp [ZoneDescriptor.holds, ZoneState.isActive] at hheld
  | «open» hstate =>
    have hav : d.zrwav = true := by simpa [ZoneDescriptor.holds, ZoneState.isActive] using hheld
    rcases hstate with ⟨hempty, _⟩ | hclosed | himpl
    · rw [hidle hempty] at hav
      exact absurd hav Bool.false_ne_true
    · exact .inl (ZoneDescriptor.holds_zrwa hav (by rw [hclosed]; rfl))
    · exact .inl (ZoneDescriptor.holds_zrwa hav (by rw [himpl]; rfl))
  | openZrwa hempty => exact .inr ⟨rfl, rfl, hempty⟩
  | reset _ => exact absurd hheld Bool.false_ne_true
  | offline _ => simp [ZoneDescriptor.holds, ZoneState.isActive] at hheld
  | commit hav hactive _ => exact .inl (ZoneDescriptor.holds_zrwa hav hactive)

theorem ZoneMove.empty_of_open (h : ZoneMove action option d d') (hact : action = .openZone)
    (hempty : d'.state = .empty) : d.state = .empty := by
  cases h with
  | stay _ => exact hempty
  | «open» _ | openZrwa _ => exact nomatch hempty
  | close _ | finish _ | reset _ | offline _ | commit _ _ _ => exact nomatch hact

/-- Moves that give a zone its window. -/
theorem ZoneMove.zrwa_of_moves (h : Relation.TransGen (ZoneMove action option) d d')
    (hidle : d.state = .empty → d.zrwav = false) :
    (d'.state = .empty → d'.zrwav = false) ∧
    (action = .openZone → d'.state = .empty → d.state = .empty) ∧
    (d'.holds .zrwaZone = true →
      d.holds .zrwaZone = true ∨ action = .openZone ∧ option = true ∧ d.state = .empty) := by
  induction h with
  | single hmove => exact ⟨hmove.idle hidle, hmove.empty_of_open, hmove.zrwa hidle⟩
  | tail _ hmove ih =>
    obtain ⟨hidle', hback, hzrwa⟩ := ih
    refine ⟨hmove.idle hidle', fun hact he => hback hact (hmove.empty_of_open hact he), ?_⟩
    intro hheld
    rcases hmove.zrwa hidle' hheld with hold | ⟨hact, hopt, hempty⟩
    · exact hzrwa hold
    · exact .inr ⟨hact, hopt, hback hact hempty⟩

end Moves

section Counts

variable {leak : Nat} {ftl ftl' : ZnsFtl} {cmd : ZoneMgmtSend}

/-- After a write no more zones hold a ZRWA unit. -/
theorem Kept.heldCnt_le (h : Kept leak ftl ftl') : ftl'.heldCnt .zrwaZone ≤ ftl.heldCnt .zrwaZone := by
  unfold ZnsFtl.heldCnt ZnsFtl.zones
  rw [h.zp]
  apply Finset.card_le_card
  intro z hz
  obtain ⟨hmem, hheld⟩ := Finset.mem_filter.mp hz
  exact Finset.mem_filter.mpr ⟨hmem, h.zrwa z (Finset.mem_range.mp hmem) hheld⟩

/-- After a management command only EMPTY zones it opened with ZRWA do besides. -/
theorem Sent.heldCnt_le (h : Sent leak (ftl.addressed cmd) cmd.zsa cmd.zsaso ftl ftl')
    (hinv : ZnsInv leak ftl) :
    ftl'.heldCnt .zrwaZone ≤ ftl.heldCnt .zrwaZone +
      if cmd.zsa = .openZone ∧ cmd.zsaso = true then (ftl.emptyAddressed cmd).card else 0 := by
  have hsub : ∀ z ∈ ftl.zones, (ftl'.zoneDescs z).holds .zrwaZone = true →
      (ftl.zoneDescs z).holds .zrwaZone = true ∨
        (cmd.zsa = .openZone ∧ cmd.zsaso = true) ∧ z ∈ ftl.emptyAddressed cmd := by
    intro z hz hheld
    by_cases hT : ftl.addressed cmd z
    · have hmoves := h.moved z hT
      obtain ⟨_, _, hzrwa⟩ := ZoneMove.zrwa_of_moves hmoves (hinv.idle z (Finset.mem_range.mp hz))
      rcases hzrwa hheld with hold | ⟨hact, hopt, hempty⟩
      · exact .inl hold
      · exact .inr ⟨⟨hact, hopt⟩, Finset.mem_filter.mpr ⟨hz, hT, hempty⟩⟩
    · rw [h.others z hT] at hheld
      exact .inl hheld
  have hzones : ftl'.zones = ftl.zones := by
    unfold ZnsFtl.zones
    rw [h.zp]
  unfold ZnsFtl.heldCnt tally
  rw [hzones]
  split
  · apply Nat.le_trans _ (Finset.card_union_le _ _)
    apply Finset.card_le_card
    intro z hz
    obtain ⟨hmem, hheld⟩ := Finset.mem_filter.mp hz
    rcases hsub z hmem hheld with hold | ⟨_, hnew⟩
    · exact Finset.mem_union_left _ (Finset.mem_filter.mpr ⟨hmem, hold⟩)
    · exact Finset.mem_union_right _ hnew
  · rename_i hnot
    rw [Nat.add_zero]
    apply Finset.card_le_card
    intro z hz
    obtain ⟨hmem, hheld⟩ := Finset.mem_filter.mp hz
    rcases hsub z hmem hheld with hold | ⟨hopens, _⟩
    · exact Finset.mem_filter.mpr ⟨hmem, hold⟩
    · exact absurd hopens hnot

end Counts

/-- What holds in every state of a run of safe steps. -/
structure ZrwaSettled (cfg : ZnsConfig) (size : Nat) (s : ZnsRun) : Prop where
  shaped : Shaped cfg size s.ftl
  inv : ZnsInv 0 s.ftl
  limited : s.ftl.heldCnt .zrwaZone ≤ s.ftl.zp.nrZrwaZones

section Runs

variable {cfg : ZnsConfig} {size : Nat} {storage : Nat → Nat}

/-- A command that is safe. -/
theorem ZrwaSettled.command {s : ZnsRun} (hs : ZrwaSettled cfg size s) {cmd : ZnsCommand}
    {nsecsStart : Nat} (hsafe : ZrwaSafe s (.command cmd nsecsStart)) {r : ZnsFtl × ZnsAnswer}
    (hdone : CommandDone 0 s.ftl cmd r) :
    ZnsInv 0 r.1 ∧ r.1.zp = s.ftl.zp ∧ r.1.ssd.sp = s.ftl.ssd.sp ∧
      r.1.heldCnt .zrwaZone ≤ s.ftl.zp.nrZrwaZones := by
  have hlimited := hs.limited
  cases hdone with
  | seqWrite hz hav hdone =>
    cases hdone with
    | short _ => exact ⟨hs.inv, rfl, rfl, hlimited⟩
    | refused _ _ _ => exact ⟨hs.inv.charge _, rfl, rfl, hlimited⟩
    | written _ _ hw =>
      exact ⟨hw.inv, hw.zp, hw.sp, Nat.le_trans (hw.kept hav).heldCnt_le hlimited⟩
  | zrwaWrite _ _ hdone =>
    rcases hdone with hk | ⟨hends, _⟩
    · exact ⟨hk.inv, hk.zp, hk.sp, Nat.le_trans hk.heldCnt_le hlimited⟩
    · exact absurd hends hsafe.2
  | sent hsent _ =>
    refine ⟨hsent.inv, hsent.zp, congrArg Ssd.sp hsent.ssd, Nat.le_trans (hsent.heldCnt_le hs.inv) ?_⟩
    split
    · rename_i hopens
      have hroom := hsafe.2 hopens.1 hopens.2
      have hacq := hs.inv.tallied.acquired .zrwaZone
      rw [leaked, Nat.add_zero] at hacq
      rw [← hacq]
      exact hroom
    · exact hlimited
  | clocks _ _ hssd _ => exact ⟨hs.inv.withSsd hssd, rfl, hssd.sp, hlimited⟩

/-- As long as every command is safe, the counters agree with the zones, of which no more hold ZRWA
than there are units. -/
theorem znsRuns_zrwaSettled :
    ((znsRuns cfg size storage).guarded ZrwaSafe).Invariant (ZrwaSettled cfg size) where
  init s hs := by
    obtain ⟨⟨env, env', hrun⟩, _⟩ := hs
    have hfresh := (znsInitNamespace_ensures cfg size storage).of_run hrun
    refine ⟨hfresh.toShaped, hfresh.inv, ?_⟩
    have hacq := hfresh.inv.tallied.acquired .zrwaZone
    rw [hfresh.resInfos] at hacq
    have hnone : s.ftl.heldCnt .zrwaZone = 0 := (Nat.add_eq_zero_iff.mp hacq.symm).1
    rw [hnone]
    exact Nat.zero_le _
  step s e s' hs hstep := by
    obtain ⟨hsafe, hstep⟩ := hstep
    cases hstep with
    | command hrun _ =>
      obtain ⟨hinv, hzp, hsp, hlimited⟩ := hs.command hsafe (hs.inv.ran hs.shaped hrun)
      refine ⟨hs.shaped.congr hzp hsp, hinv, ?_⟩
      rw [hzp]
      exact hlimited
    | release _ => exact ⟨hs.shaped.congr rfl rfl, hs.inv.performRelease _, hs.limited⟩

/-- In every run of safe steps the ZRWA counter is the number of open and closed zones with a valid
ZRWA, within the limit, and no safe command divides by zero. The runs take any other command and any
order of the releases; a command past the last zone is no step of them. -/
theorem zrwa_resource {s : ZnsRun} (h : ((znsRuns cfg size storage).guarded ZrwaSafe).Reachable s) :
    (s.ftl.resInfos .zrwaZone).acquiredCnt = s.ftl.countZrwa ∧
      (s.ftl.resInfos .zrwaZone).acquiredCnt ≤ cfg.maxZrwaZones ∧
      ∀ cmd nsecsStart env, ZrwaSafe s (.command cmd nsecsStart) →
        (s.ftl.znsProcNvmeIoCmd cmd nsecsStart).run env ≠ .error .divideByZero := by
  have hs := znsRuns_zrwaSettled.reachable h
  have hacq := hs.inv.tallied.acquired .zrwaZone
  rw [leaked, Nat.add_zero] at hacq
  have hlimited := hs.limited
  have hlimit : s.ftl.zp.nrZrwaZones = cfg.maxZrwaZones := by
    rw [hs.shaped.zp]
    rfl
  refine ⟨hacq, ?_, ?_⟩
  · rw [hacq, ← hlimit]
    exact hlimited
  · intro cmd nsecsStart env hsafe hfault
    have hcmd : Ensures (· ≠ .divideByZero) (s.ftl.znsProcNvmeIoCmd cmd nsecsStart) _ :=
      hs.inv.command hs.shaped nofun nofun nofun (by
        intro hdiv
        cases cmd with
        | write cmd => exact absurd hdiv hsafe.1
        | zoneMgmtSend cmd => exact absurd hdiv hsafe.1
        | read _ | flush | zoneMgmtRecv _ | other => exact hdiv.elim)
    exact hcmd.of_fault hfault rfl

end Runs

/-! ## The shipped configuration -/

/-- A ZRWA write to an open zone that gets to the division does divide. -/
theorem ZnsFtl.write_divides {ftl : ZnsFtl} {req : ZnsRequest}
    (hzone : ftl.lpnToZone (ftl.lbaToLpn req.cmd.slba) = ftl.target req.cmd)
    (hz : ftl.target req.cmd < ftl.zp.nrZones) (hdiv : ftl.WriteDivides req.cmd)
    (hopen : (ftl.zoneDescs (ftl.target req.cmd)).state.isOpen = true) :
    ftl.znsWrite req = throw .divideByZero := by
  obtain ⟨hadmits, hzero, hstart⟩ := hdiv
  have hswitch : ftl.writeSwitchZrwa (ftl.target req.cmd) = pure (ftl, nvmeScSuccess) := by
    unfold ZnsFtl.writeSwitchZrwa
    cases hs : (ftl.zoneDescs (ftl.target req.cmd)).state with
    | openedImpl | openedExpl => rfl
    | empty | closed | full | readOnly | offline =>
      rw [hs] at hopen
      exact nomatch hopen
  have hcheck : ftl.checkWriteZrwa (ftl.target req.cmd) req.cmd.slba req.cmd.nrLba =
      pure (ftl, nvmeScSuccess) := by
    unfold ZnsFtl.checkWriteZrwa
    rw [if_neg (not_not_intro hadmits.checked)]
    exact hswitch
  have hflush : ftl.implicitFlush (ftl.target req.cmd) (ftl.targetElba req.cmd)
      (ftl.zoneDescs (ftl.target req.cmd)).wp = throw .divideByZero := by
    unfold ZnsFtl.implicitFlush ZnsFtl.roundUpZrwafg
    rw [if_pos hstart, if_pos hzero]
  have hprogram : ftl.programZrwa req (ftl.target req.cmd) = throw .divideByZero := by
    unfold ZnsFtl.programZrwa
    dsimp only
    rw [← ZnsFtl.targetElba, hflush]
    rfl
  unfold ZnsFtl.znsWrite ZnsFtl.znsWriteZrwa
  dsimp only
  rw [hzone, if_neg (Nat.not_le.mpr hz), hadmits.zrwav, if_neg nofun, ← ZnsFtl.target, hcheck,
    pure_bind]
  dsimp only
  rw [if_neg (not_not_intro rfl), hprogram]

/-- A zone opened with ZRWA holds a unit. -/
theorem Ended.zrwa_pos {ftl ftl' : ZnsFtl} {d : ZoneDescriptor} (h : Ended 0 0 d ftl ftl')
    (hheld : d.holds .zrwaZone = true) : 0 < (ftl'.resInfos .zrwaZone).acquiredCnt := by
  have htallied : Tallied 0 ftl' := h.charged.tallied fun k => by rw [h.desc]
  rw [htallied.acquired]
  apply Nat.add_pos_left
  have hmem : 0 ∈ ftl'.zones := Finset.mem_range.mpr h.charged.zid_lt
  apply tally_pos hmem
  rw [h.desc]
  exact hheld

/-- The write of the first page of a device. -/
def firstPage : ZnsRwCommand :=
  { append := false, slba := 0, length := 7, fua := false, slba_lt := zero_lt_u64
    length_lt := seven_lt_u16 }

/-- With the shipped sizes a zone is opened with ZRWA although the limit is zero, and the next write
to it divides by zero. -/
theorem zrwa_resource_unsound_two : ∃ s, (znsRuns wdZn540 twoZones fun _ => 0).Reachable s ∧
    wdZn540.maxZrwaZones < (s.ftl.resInfos .zrwaZone).acquiredCnt ∧
    ∀ env, (s.ftl.znsProcNvmeIoCmd (.write firstPage) 0).run env = .error .divideByZero := by
  obtain ⟨s, s', hfresh, hinit, hstep, hend⟩ := @exists_opened wdZn540 twoZones (fun _ => 0)
    (by decide) (by decide) (by decide) true
  have hs : Shaped wdZn540 twoZones s'.ftl :=
    hfresh.toShaped.congr hend.frame.zp (congrArg Ssd.sp hend.frame.ssd)
  have hdesc : s'.ftl.zoneDescs 0 = { initDescriptor s.ftl.zp 0 with
      state := .openedExpl, zrwav := true } := by
    rw [hend.desc, hfresh.zoneDescs]
  have hwp : (s'.ftl.zoneDescs 0).wp = 0 := by
    rw [hdesc]
    exact Nat.zero_mul _
  have hlbas : s'.ftl.zoneLbas = 4194304 := by
    unfold ZnsFtl.zoneLbas
    rw [hs.zp, hs.sp]
    rfl
  have hunit : s'.ftl.ssd.sp.writeUnitSize = 512 := by
    rw [hs.sp]
    rfl
  have hwindow : s'.ftl.zp.lbasPerZrwa = 0 := by
    rw [hs.zp]
    rfl
  have htarget : s'.ftl.target firstPage = 0 := by
    unfold ZnsFtl.target ZnsFtl.lbaToZone
    rw [hlbas]
    rfl
  refine ⟨s', .step (.init hinit) hstep, hend.zrwa_pos rfl, fun env => ?_⟩
  have hdiv : s'.ftl.WriteDivides firstPage := by
    refine ⟨⟨?_, ?_, ?_, ?_⟩, ?_, ?_⟩
    · rw [htarget, hdesc]
    · rw [htarget]
      unfold ZnsFtl.rejectsZrwa ZnsFtl.checkBoundaryError ZnsFtl.zrwaImplEnd ZnsFtl.lbaToZone
      rw [hwp, hunit, hlbas, hwindow]
      have hwhole : ¬ lbaToByte firstPage.nrLba % 512 ≠ 0 := by decide
      have hsame : (u32 (firstPage.slba / 4194304) ==
          u32 (lastLba firstPage.slba (u32 firstPage.nrLba) / 4194304)) = true := by decide
      have hinside : ¬ (firstPage.slba < 0 ∨
          sub64 (0 + u32 (2 * 0)) 1 < lastLba firstPage.slba firstPage.nrLba) := by decide
      rw [if_neg hwhole, hsame, if_neg nofun, if_neg hinside]
    · rw [htarget, hdesc]
      rfl
    · rw [htarget, hdesc]
      exact nofun
    · rw [hs.zp]
      rfl
    · rw [htarget, hwp]
      unfold ZnsFtl.zrwaImplStart
      rw [hwindow]
      exact (by decide : u64 (0 + 0) ≤ lastLba firstPage.slba firstPage.nrLba)
  have hwrite := @ZnsFtl.write_divides s'.ftl { cmd := firstPage, nsecsStart := 0 }
    (hs.lpnToZone _) (by rw [htarget]; exact hend.charged.zid_lt) hdiv
    (by rw [htarget, hdesc]; rfl)
  show (s'.ftl.znsWrite { cmd := firstPage, nsecsStart := 0 }).run env = _
  rw [hwrite]
  rfl

/-- A ZN540 with one ZRWA of 1 MiB, flushed by 64 KiB. -/
def oneZrwa : ZnsConfig :=
  { wdZn540 with
    maxZrwaZones := 1, zrwafgSize := kb 64, zrwaSize := mb 1, zrwaBufferSize := mb 2 }

/-- A zone is opened with its window. -/
theorem zrwa_resource_two : ∃ s, ((znsRuns oneZrwa twoZones fun _ => 0).guarded ZrwaSafe).Reachable s ∧
    0 < (s.ftl.resInfos .zrwaZone).acquiredCnt ∧
    (s.ftl.resInfos .zrwaZone).acquiredCnt ≤ oneZrwa.maxZrwaZones := by
  obtain ⟨s, s', hfresh, hinit, hstep, hend⟩ := @exists_opened oneZrwa twoZones (fun _ => 0)
    (by decide) (by decide) (by decide) true
  have hsafe : ZrwaSafe s (.command (.zoneMgmtSend (openCmd 0 true (by decide))) 0) := by
    refine ⟨fun hdiv => (nomatch hdiv.2.1), fun _ _ => ?_⟩
    have hsub : s.ftl.emptyAddressed (openCmd 0 true (by decide)) ⊆ {s.ftl.lbaToZone 0} := by
      intro z hz
      have hT : s.ftl.addressed (openCmd 0 true (by decide)) z := (Finset.mem_filter.mp hz).2.1
      exact Finset.mem_singleton.mpr hT
    have hcard := Finset.card_le_card hsub
    rw [Finset.card_singleton] at hcard
    have hlimit : s.ftl.zp.nrZrwaZones = 1 := by
      rw [hfresh.zp]
      rfl
    rw [hfresh.resInfos, hlimit]
    show 0 + _ ≤ 1
    omega
  have hreach : ((znsRuns oneZrwa twoZones fun _ => 0).guarded ZrwaSafe).Reachable s' :=
    .step (.init hinit) ⟨hsafe, hstep⟩
  exact ⟨s', hreach, hend.zrwa_pos rfl, (zrwa_resource hreach).2.1⟩

end NvmeVirt

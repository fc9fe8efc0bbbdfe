import NvmeVirt.Laws.Zns.WriteBuffer

/-!
# Refused writes and their retries

A write the buffer has no room for stays in its submission queue, and the dispatcher takes it again
later. `entryRuns` follows one submission entry through the attempts on it, among the other steps of
a run. An append has its address overwritten before the buffer is asked (`__zns_write`), and a write
to a closed zone with a ZRWA has opened the zone before (`__zns_write_zrwa`); `RetrySafe` leaves
these two out, and then a refused attempt leaves nothing behind.

`ZnsInv.refused` says for any attempt what a refusal can have done: it follows the two write
functions up to the buffer. Over a run the entry is the one the host wrote until it is taken
(`entryRuns_unchanged`). A command with a zone number past `nr_zones` is no step of these runs.

When an attempt succeeds is not said here; the buffer gets its bytes back with the releases of
`Laws/Zns/WriteBuffer`.
-/

set_option autoImplicit false

namespace NvmeVirt

open Outcome

/-! ## One attempt -/

/-- What a refused attempt on `cmd` may rely on: no append moves to another address, and no zone is
opened on the way. -/
def ZnsFtl.RetrySafe (ftl : ZnsFtl) (cmd : ZnsRwCommand) : Prop :=
  if (ftl.zoneDescs (ftl.target cmd)).zrwav = true then
    (ftl.zoneDescs (ftl.target cmd)).state ≠ .closed
  else cmd.append = true → cmd.slba = (ftl.zoneDescs (ftl.target cmd)).wp

/-- The attempt has left the FTL and the submission entry as they were. -/
def ZnsFtl.Untouched (ftl : ZnsFtl) (cmd : ZnsRwCommand) (r : ZnsFtl × ZnsAnswer) : Prop :=
  r.1 = ftl ∧ r.2.slba = cmd.slba

/-- What is known of a refused attempt. -/
structure Refused (ftl : ZnsFtl) (req : ZnsRequest) (r : ZnsFtl × ZnsAnswer) : Prop where
  quiet : r.2.internal = []
  untouched : ftl.Untouched req.cmd r ↔ ftl.RetrySafe req.cmd

section Attempt

variable {E : Fault → Prop} {leak zid : Nat} {ftl mid : ZnsFtl} {req : ZnsRequest}

/-- An implicit flush without room takes nothing out of the buffer. -/
theorem ZnsFtl.flushImplicitly_refused (ftl : ZnsFtl) (zid lbas : Nat) :
    Ensures (fun _ => True) (ftl.flushImplicitly zid lbas) (fun r => r.2 = false → r.1 = ftl) := by
  unfold ZnsFtl.flushImplicitly
  apply Ensures.ite
  · intro _
    apply (ftl.zrwaBufferAllocate_ensures zid _ trivial trivial).bind
    rintro r (rfl | ⟨_, _, _, rfl⟩)
    · dsimp only
      rw [if_pos rfl]
      exact .pure fun _ => rfl
    · apply Ensures.ite
      · intro hzero
        apply Ensures.pure
        intro _
        dsimp only at hzero ⊢
        rw [hzero, Nat.sub_zero]
        unfold ZnsFtl.setBuffer
        rw [Function.update_eq_self]
      · intro _
        exact .pure nofun
  · intro _
    exact .pure nofun

/-- The end of a ZRWA write is refused in the implicit flush or not at all. -/
theorem ZnsFtl.programZrwa_refused (ftl : ZnsFtl) (req : ZnsRequest) (zid : Nat) :
    Ensures (fun _ => True) (ftl.programZrwa req zid)
      (fun r => r.2.accepted = false → ftl.Untouched req.cmd r ∧ r.2.internal = []) := by
  unfold ZnsFtl.programZrwa
  apply Ensures.any.bind
  intro nrLbasFlush _
  apply (ftl.flushImplicitly_refused zid nrLbasFlush).bind
  rintro ⟨mid, room⟩ hmid
  show Ensures _ (mid.finishZrwa req zid _ nrLbasFlush room) _
  unfold ZnsFtl.finishZrwa
  apply Ensures.ite
  · intro hroom
    exact .pure fun _ => ⟨⟨hmid hroom, rfl⟩, rfl⟩
  · intro _
    apply Ensures.any.bind
    intro _ _
    apply Ensures.any.bind
    intro _ _
    exact .pure nofun

/-- A ZRWA write is refused with nothing changed when its zone was open, and after it has opened its
zone otherwise. -/
theorem ZnsInv.writeZrwa_refused (h : ZnsInv leak ftl) (hz : ftl.target req.cmd < ftl.zp.nrZones)
    (hav : (ftl.zoneDescs (ftl.target req.cmd)).zrwav = true) :
    Ensures (fun _ => True) (ftl.znsWriteZrwa req)
      (fun r => r.2.accepted = false → Refused ftl req r) := by
  have hsafe : ftl.RetrySafe req.cmd ↔ (ftl.zoneDescs (ftl.target req.cmd)).state ≠ .closed := by
    unfold ZnsFtl.RetrySafe
    rw [if_pos hav]
  have hbusy : (ftl.zoneDescs (ftl.target req.cmd)).state ≠ .empty := by
    intro hempty
    rw [h.idle _ hz hempty] at hav
    exact absurd hav Bool.false_ne_true
  have hunchanged : (ftl.zoneDescs (ftl.target req.cmd)).state ≠ .closed →
      Ensures (fun _ => True) (ftl.programZrwa req (ftl.target req.cmd))
        (fun r => r.2.accepted = false → Refused ftl req r) := by
    intro hnot
    apply (ftl.programZrwa_refused req _).mono
    intro r hr hrefused
    obtain ⟨hsame, hquiet⟩ := hr hrefused
    exact ⟨hquiet, fun _ => hsafe.mpr hnot, fun _ => hsame⟩
  unfold ZnsFtl.znsWriteZrwa ZnsFtl.checkWriteZrwa
  dsimp only
  rw [← ZnsFtl.target]
  by_cases hchecked : ftl.rejectsZrwa (ftl.target req.cmd) req.cmd.slba req.cmd.nrLba ≠ nvmeScSuccess
  · rw [if_pos hchecked, pure_bind]
    dsimp only
    rw [if_pos hchecked]
    exact .pure fun hrefused => absurd hrefused.symm Bool.false_ne_true
  rw [if_neg hchecked]
  cases hs : (ftl.zoneDescs (ftl.target req.cmd)).state with
  | empty => exact absurd hs hbusy
  | openedImpl | openedExpl =>
    rw [hs] at hunchanged
    unfold ZnsFtl.writeSwitchZrwa
    rw [hs, pure_bind]
    exact hunchanged (by decide)
  | full | readOnly | offline =>
    unfold ZnsFtl.writeSwitchZrwa
    rw [hs, pure_bind]
    exact .pure fun hrefused => absurd hrefused.symm Bool.false_ne_true
  | closed =>
    apply (h.tallied.switchZrwa (E := fun _ => True) hz hbusy trivial trivial).bind
    rintro ⟨mid, status⟩ (⟨hstatus, _⟩ | ⟨hstatus, hopened⟩)
    · dsimp only
      rw [if_pos hstatus]
      exact .pure fun hrefused => absurd hrefused.symm Bool.false_ne_true
    · dsimp only
      rw [if_neg (not_not_intro hstatus)]
      apply (mid.programZrwa_refused req _).mono
      intro r hr hrefused
      obtain ⟨hmid, hquiet⟩ := hr hrefused
      refine ⟨hquiet, fun hsame => ?_, fun hnot => absurd hs (hsafe.mp hnot)⟩
      -- the zone has been opened on the way
      have hdesc : mid.zoneDescs (ftl.target req.cmd) = _ := hopened.ended.desc
      rw [← hmid.1, hsame.1] at hdesc
      have hopen := congrArg ZoneDescriptor.state hdesc
      dsimp only at hopen
      rw [hs] at hopen
      cases hopen

/-- A refused write or append schedules nothing, and it has left everything as it was in the case of
`RetrySafe` and only then. -/
theorem ZnsInv.refused {cfg : ZnsConfig} {size : Nat} (h : ZnsInv leak ftl) (hs : Shaped cfg size ftl)
    {env env' : Env} {r : ZnsFtl × ZnsAnswer} (hrun : (ftl.znsWrite req).run env = .ok (r, env'))
    (hrefused : r.2.accepted = false) : Refused ftl req r := by
  have hall : Ensures (fun _ => True) (ftl.znsWrite req)
      (fun r => r.2.accepted = false → Refused ftl req r) := by
    unfold ZnsFtl.znsWrite
    dsimp only
    rw [hs.lpnToZone, ← ZnsFtl.target]
    apply Ensures.ite
    · intro _
      exact .throw trivial
    intro hin
    have hz := Nat.lt_of_not_le hin
    apply Ensures.ite
    · intro hav
      apply (h.writeSeq hz hav fun _ => trivial).mono
      intro r hdone hrefused
      cases hdone with
      | refused _ _ _ => exact absurd hrefused.symm Bool.false_ne_true
      | written _ _ hw =>
        rw [hw.accepted] at hrefused
        exact absurd hrefused.symm Bool.false_ne_true
      | short _ =>
        have hsafe : ftl.RetrySafe req.cmd ↔
            (req.cmd.append = true → req.cmd.slba = (ftl.zoneDescs (ftl.target req.cmd)).wp) := by
          unfold ZnsFtl.RetrySafe
          rw [hav, if_neg Bool.false_ne_true]
        apply Refused.mk rfl
        rw [hsafe]
        show (ftl = ftl ∧ ftl.targetSlba req.cmd = req.cmd.slba) ↔ _
        unfold ZnsFtl.targetSlba ZnsFtl.effectiveSlba
        by_cases happ : req.cmd.append = true
        · rw [if_pos happ]
          exact ⟨fun hsame _ => hsame.2.symm, fun hwp => ⟨rfl, (hwp happ).symm⟩⟩
        · rw [if_neg happ]
          exact ⟨fun _ hact => absurd hact happ, fun _ => ⟨rfl, rfl⟩⟩
    · intro hav
      exact h.writeZrwa_refused hz (Bool.eq_true_of_not_eq_false hav)
  exact hall.of_run hrun hrefused

end Attempt

/-! ## The attempts on one entry -/

/-- A run, and a submission entry as its queue holds it. -/
structure EntryRun where
  run : ZnsRun
  entry : ZnsRwCommand

inductive EntryEvent where
  /-- A step that does not concern the entry. -/
  | other (event : ZnsEvent)
  /-- The dispatcher takes the entry, and it is refused. -/
  | attempt (nsecsStart : Nat)

/-- `cmd->slba = slba` in the submission entry. -/
def ZnsRwCommand.withSlba (cmd : ZnsRwCommand) (slba : Nat) : ZnsRwCommand :=
  { cmd with slba := u64 slba, slba_lt := u64_lt slba }

/-- The address as it was. -/
theorem ZnsRwCommand.withSlba_self (cmd : ZnsRwCommand) : cmd.withSlba cmd.slba = cmd := by
  have hslba : u64 cmd.slba = cmd.slba := Nat.mod_eq_of_lt cmd.slba_lt
  unfold ZnsRwCommand.withSlba
  simp only [hslba]

inductive EntryStep : EntryRun → EntryEvent → EntryRun → Prop where
  | other {e : EntryRun} {event : ZnsEvent} {run : ZnsRun} :
    ZnsStep e.run event run → EntryStep e (.other event) { e with run }
  | attempt {e : EntryRun} {nsecsStart : Nat} {env env' : Env} {r : ZnsFtl × ZnsAnswer} :
    (e.run.ftl.znsWrite { cmd := e.entry, nsecsStart }).run env = .ok (r, env') →
    r.2.accepted = false →
    EntryStep e (.attempt nsecsStart)
      { run := { e.run with ftl := r.1 }, entry := e.entry.withSlba r.2.slba }

/-- The runs of a namespace beside which the host has submitted `host`. -/
def entryRuns (cfg : ZnsConfig) (size : Nat) (storage : Nat → Nat) (host : ZnsRwCommand) :
    System EntryRun EntryEvent where
  init e := (znsRuns cfg size storage).init e.run ∧ e.entry = host
  step := EntryStep

/-- Every attempt on the entry is one that may be refused safely. -/
def SafeAttempts (e : EntryRun) : EntryEvent → Prop
  | .other _ => True
  | .attempt _ => e.run.ftl.RetrySafe e.entry

section Entry

variable {cfg : ZnsConfig} {size : Nat} {storage : Nat → Nat} {host : ZnsRwCommand}

/-- The runs with an entry are runs of the namespace: a refused attempt is a command that schedules
nothing. -/
theorem entryRuns_run {e : EntryRun} (h : (entryRuns cfg size storage host).Reachable e) :
    (znsRuns cfg size storage).Reachable e.run := by
  induction h with
  | init hinit => exact .init hinit.1
  | @step e _ _ _ hstep ih =>
    cases hstep with
    | other hstep => exact .step ih hstep
    | @attempt nsecsStart env env' r hrun hrefused =>
      obtain ⟨hshaped, leak, hinv⟩ := znsRuns_settled.reachable ih
      have hquiet := (hinv.refused hshaped hrun hrefused).quiet
      have hcommand : (e.run.ftl.znsProcNvmeIoCmd (.write e.entry) nsecsStart).run env =
          .ok ((r.1, r.2), env') := hrun
      have hlog : Logged e.run.ftl e.run.log (.write e.entry) r.2 e.run.log := by
        apply Logged.unwritten
        intro hboth
        rw [hrefused] at hboth
        exact nomatch hboth.1
      have hstep := ZnsStep.command hcommand hlog
      rw [hquiet, List.map_nil, List.append_nil] at hstep
      exact .step ih hstep

/-- Safe attempts leave the entry as the host wrote it. -/
theorem entryRuns_unchanged {e : EntryRun}
    (h : ((entryRuns cfg size storage host).guarded SafeAttempts).Reachable e) : e.entry = host := by
  induction h with
  | init hinit => exact hinit.2
  | step hreach hstep ih =>
    obtain ⟨hsafe, hstep⟩ := hstep
    cases hstep with
    | other _ => exact ih
    | attempt hrun hrefused =>
      obtain ⟨hshaped, leak, hinv⟩ := znsRuns_settled.reachable (entryRuns_run hreach.of_guarded)
      have hsame := (hinv.refused hshaped hrun hrefused).untouched.mpr hsafe
      dsimp only
      rw [hsame.2, ZnsRwCommand.withSlba_self]
      exact ih

/-- In every reachable state an attempt that is refused leaves the submission entry, the zones, the
counters and the buffers as they were if and only if it is a safe one. While the attempts on an
entry are safe, the entry stays as the host wrote it, and every attempt is made on the zone the host
addressed. Between the attempts the run goes on as it likes, with commands of other entries and with
releases; a command with a zone number past the last zone is none of its steps. -/
theorem refused_writes_retried (cfg : ZnsConfig) (size : Nat) (storage : Nat → Nat)
    (host : ZnsRwCommand) :
    (∀ (s : ZnsRun) (cmd : ZnsRwCommand) (nsecsStart : Nat) (env env' : Env)
      (r : ZnsFtl × ZnsAnswer), (znsRuns cfg size storage).Reachable s →
      (s.ftl.znsWrite { cmd, nsecsStart }).run env = .ok (r, env') → r.2.accepted = false →
      (s.ftl.Untouched cmd r ↔ s.ftl.RetrySafe cmd)) ∧
    ∀ e : EntryRun, ((entryRuns cfg size storage host).guarded SafeAttempts).Reachable e →
      e.entry = host ∧ e.run.ftl.target e.entry = u32 (host.slba / cfg.lbas) := by
  constructor
  · intro s cmd nsecsStart env env' r hreach hrun hrefused
    obtain ⟨hshaped, leak, hinv⟩ := znsRuns_settled.reachable hreach
    exact (hinv.refused hshaped hrun hrefused).untouched
  · intro e hreach
    have hentry := entryRuns_unchanged hreach
    obtain ⟨hshaped, _⟩ := znsRuns_settled.reachable (entryRuns_run hreach.of_guarded)
    refine ⟨hentry, ?_⟩
    unfold ZnsFtl.target ZnsFtl.lbaToZone
    rw [hentry, hshaped.zoneLbas]

end Entry

/-! ## A full zone and a full buffer -/

/-- Two zones of the prototype, whose write buffer has the size of a zone. -/
def twoPrototypes : Nat := 2 * mb 32

/-- The write of the first zone. -/
def wholeZone : ZnsRwCommand :=
  { append := false, slba := 0, length := 65535, fua := false
    slba_lt := zero_lt_u64, length_lt := by decide }

/-- An append of 128 KiB to the first zone. -/
def appendFirst : ZnsRwCommand :=
  { append := true, slba := 0, length := 255, fua := false
    slba_lt := zero_lt_u64, length_lt := by decide }

/-- A write of 128 KiB to the second zone. -/
def writeSecond : ZnsRwCommand :=
  { append := false, slba := 65536, length := 255, fua := false
    slba_lt := by decide, length_lt := by decide }

/-- The first zone and the write buffer are full. -/
structure Filled (ftl : ZnsFtl) : Prop where
  shaped : Shaped znsPrototype twoPrototypes ftl
  inv : ZnsInv 0 ftl
  wp : (ftl.zoneDescs 0).wp = 65536
  zrwav : ∀ z, (ftl.zoneDescs z).zrwav = false
  buffer : ftl.buffers .global = { size := 33554432, remaining := 0 }

section Prototype

variable {ftl : ZnsFtl} {cmd : ZnsRwCommand}

theorem Shaped.target_prototype (h : Shaped znsPrototype twoPrototypes ftl)
    (hslba : cmd.slba < 131072) : ftl.target cmd = cmd.slba / 65536 := by
  have hzones : 0 < ftl.zp.nrZones := by
    rw [h.zp]
    decide
  unfold ZnsFtl.target
  rw [h.lbaToZone hzones (hslba.trans (by decide))]
  rfl

theorem Shaped.writeBuffer_prototype (h : Shaped znsPrototype twoPrototypes ftl) (zid : Nat) :
    ftl.writeBuffer zid = .global := by
  unfold ZnsFtl.writeBuffer
  rw [h.zp]
  rfl

theorem ZoneDescriptor.advance_zrwav (d : ZoneDescriptor) (limit lbas : Nat) :
    (d.advance limit lbas).zrwav = d.zrwav := rfl

/-- On fresh zones the first is filled by one write, and the write buffer with it. -/
theorem FreshZns.exists_filled {s : ZnsRun} (h : FreshZns znsPrototype twoPrototypes s.ftl) :
    ∃ s', ZnsStep s (.command (.write wholeZone) 0) s' ∧ Filled s'.ftl := by
  have htarget : s.ftl.target wholeZone = 0 := h.toShaped.target_prototype (by decide)
  have hglobal : s.ftl.writeBuffer (s.ftl.target wholeZone) = .global :=
    h.toShaped.writeBuffer_prototype _
  have hbuffer : s.ftl.targetBuffer wholeZone = bufferInit 33554432 := by
    unfold ZnsFtl.targetBuffer
    rw [hglobal, h.buffers, h.sp]
    rfl
  have hslba : s.ftl.targetSlba wholeZone = 0 := s.ftl.targetSlba_write rfl
  have hlbas : s.ftl.zoneLbas = 65536 := h.toShaped.zoneLbas
  have hwp : (s.ftl.zoneDescs 0).wp = 0 := by
    rw [h.zoneDescs]
    exact Nat.zero_mul _
  have haccepts : s.ftl.Accepts wholeZone := by
    unfold ZnsFtl.Accepts
    rw [htarget, hslba]
    constructor
    · rw [h.sp]
      decide
    · unfold ZnsFtl.checkBoundaryError ZnsFtl.lbaToZone
      rw [hlbas]
      decide
    · exact hwp.symm
    · rw [h.zoneDescs]
      exact .inr ⟨rfl, (Nat.zero_mul _).symm⟩
  have hin : s.ftl.target wholeZone < s.ftl.zp.nrZones := by
    rw [htarget, h.zp]
    decide
  have hav : ∀ z, (s.ftl.zoneDescs z).zrwav = false := by
    rw [h.zoneDescs]
    exact fun _ => rfl
  have hfits : wholeZone.bytes ≤ (s.ftl.targetBuffer wholeZone).size := by
    rw [hbuffer]
    decide
  obtain ⟨r, env', hrun, hdone⟩ := @ZnsInv.exists_write _ _ _ _ 0 wholeZone h.inv h.toShaped hin
    (hav _) hfits Env.zero
  cases hdone with
  | short hshort =>
    rw [hbuffer] at hshort
    exact absurd hshort (by decide)
  | refused _ hnot _ => exact absurd haccepts hnot
  | written _ _ hw =>
    refine ⟨_, .command hrun (.written hw.accepted hw.status), ?_⟩
    have hdesc := hw.desc
    rw [htarget] at hdesc
    constructor
    · exact h.toShaped.congr hw.zp hw.sp
    · exact hw.inv
    · show (r.1.zoneDescs 0).wp = 65536
      rw [hdesc]
      show u64 ((s.ftl.zoneDescs 0).wp + u32 wholeZone.nrLba) = 65536
      rw [hwp]
      rfl
    · intro z
      show (r.1.zoneDescs z).zrwav = false
      by_cases hz : z = 0
      · rw [hz]
        rw [hdesc, ZoneDescriptor.advance_zrwav]
        exact hav 0
      · rw [hw.others z (by rw [htarget]; exact hz)]
        exact hav z
    · show r.1.buffers .global = _
      rw [hw.buffers .global nofun]
      unfold ZnsFtl.charge
      rw [hglobal, hbuffer, ZnsFtl.setBuffer_self]
      rfl

/-- No write has room. -/
theorem Filled.refuses (h : Filled ftl) (hslba : cmd.slba < 131072) (hbytes : cmd.bytes ≤ 33554432) :
    ∃ env', (ftl.znsWrite { cmd, nsecsStart := 0 }).run Env.zero =
      .ok ((ftl, .retry { cmd, nsecsStart := 0 } (ftl.targetSlba cmd)), env') := by
  have hbuffer : ftl.targetBuffer cmd = { size := 33554432, remaining := 0 } := by
    unfold ZnsFtl.targetBuffer
    rw [h.shaped.writeBuffer_prototype]
    exact h.buffer
  have hin : ftl.target cmd < ftl.zp.nrZones := by
    have hzones : ftl.zp.nrZones = 2 := by
      rw [h.shaped.zp]
      decide
    rw [h.shaped.target_prototype hslba, hzones]
    omega
  have hfits : cmd.bytes ≤ (ftl.targetBuffer cmd).size := by
    rw [hbuffer]
    exact hbytes
  have hpos := cmd.bytes_pos
  obtain ⟨r, env', hrun, hdone⟩ := @ZnsInv.exists_write _ _ _ _ 0 cmd h.inv h.shaped hin
    (h.zrwav _) hfits Env.zero
  cases hdone with
  | short _ => exact ⟨env', hrun⟩
  | refused hroom _ _ | written hroom _ _ =>
    rw [hbuffer] at hroom
    exact absurd hroom (Nat.not_le.mpr hpos)

end Prototype

/-- The second zone is the one addressed by the entry of an append to the first, once it has been
refused. -/
theorem refused_append_moves_on : ∃ s r env',
    (znsRuns znsPrototype twoPrototypes fun _ => 0).Reachable s ∧
    (s.ftl.znsWrite { cmd := appendFirst, nsecsStart := 0 }).run Env.zero = .ok (r, env') ∧
    r.2.accepted = false ∧ ¬ s.ftl.Untouched appendFirst r ∧
    s.ftl.lbaToZone appendFirst.slba = 0 ∧ r.1.lbaToZone r.2.slba = 1 := by
  obtain ⟨s, hinit, hfresh⟩ := @exists_freshZns znsPrototype twoPrototypes (fun _ => 0) (by decide)
    (by decide)
  obtain ⟨s', hstep, hfilled⟩ := hfresh.exists_filled
  obtain ⟨env', hrun⟩ := @Filled.refuses s'.ftl appendFirst hfilled (by decide) (by decide)
  have htarget : s'.ftl.target appendFirst = 0 := hfilled.shaped.target_prototype (by decide)
  have hslba : s'.ftl.targetSlba appendFirst = 65536 := by
    unfold ZnsFtl.targetSlba ZnsFtl.effectiveSlba
    have happ : appendFirst.append = true := rfl
    rw [htarget, if_pos happ]
    exact hfilled.wp
  have hnext : s'.ftl.target writeSecond = 1 := hfilled.shaped.target_prototype (by decide)
  refine ⟨s', _, env', .step (.init hinit) hstep, hrun, rfl, ?_, htarget, ?_⟩
  · intro hsame
    have hmoved : s'.ftl.targetSlba appendFirst = appendFirst.slba := hsame.2
    rw [hslba] at hmoved
    exact absurd hmoved (by decide)
  · show s'.ftl.lbaToZone (s'.ftl.targetSlba appendFirst) = 1
    rw [hslba]
    exact hnext

/-- A write to the second zone, refused once: nothing has changed. -/
theorem refused_writes_retried_second : ∃ e e' r env',
    ((entryRuns znsPrototype twoPrototypes (fun _ => 0) writeSecond).guarded SafeAttempts).Reachable
      e' ∧ EntryStep e (.attempt 0) e' ∧
    (e.run.ftl.znsWrite { cmd := writeSecond, nsecsStart := 0 }).run Env.zero = .ok (r, env') ∧
    e.run.ftl.Untouched writeSecond r ∧ e'.entry = writeSecond ∧ e'.run.ftl.target e'.entry = 1 := by
  obtain ⟨s, hinit, hfresh⟩ := @exists_freshZns znsPrototype twoPrototypes (fun _ => 0) (by decide)
    (by decide)
  obtain ⟨s', hstep, hfilled⟩ := hfresh.exists_filled
  obtain ⟨env', hrun⟩ := @Filled.refuses s'.ftl writeSecond hfilled (by decide) (by decide)
  have hsafe : s'.ftl.RetrySafe writeSecond := by
    unfold ZnsFtl.RetrySafe
    rw [hfilled.zrwav, if_neg Bool.false_ne_true]
    exact nofun
  have hwritten : ((entryRuns znsPrototype twoPrototypes (fun _ => 0) writeSecond).guarded
      SafeAttempts).Reachable { run := s', entry := writeSecond } := by
    have hfirst : ((entryRuns znsPrototype twoPrototypes (fun _ => 0) writeSecond).guarded
        SafeAttempts).Reachable { run := s, entry := writeSecond } := .init ⟨hinit, rfl⟩
    exact hfirst.guarded_step (.other hstep) trivial
  have hattempt : EntryStep { run := s', entry := writeSecond } (.attempt 0) _ := .attempt hrun rfl
  have hreach := hwritten.guarded_step hattempt hsafe
  obtain ⟨hstep_ok, hruns_ok⟩ :=
    refused_writes_retried znsPrototype twoPrototypes (fun _ => 0) writeSecond
  obtain ⟨hentry, hzone⟩ := hruns_ok _ hreach
  exact ⟨_, _, _, env', hreach, hattempt, hrun,
    (hstep_ok s' _ _ _ _ _ (.step (.init hinit) hstep) hrun rfl).mpr hsafe, hentry, hzone⟩

end NvmeVirt

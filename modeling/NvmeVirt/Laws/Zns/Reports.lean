import NvmeVirt.Zns.MgmtRecv
import NvmeVirt.Laws.Io.Transfer

/-!
# Zone reports

The filled part of the buffer is the header and the descriptors the report counts; it always lies in
the buffer. The bytes that go to the host lie in the filled part, and the count of a partial report
is the number of whole descriptors after the header, only for the lengths of `Measured`: the count
is one less than a quotient that may be zero, and nothing keeps the length to what was filled.

The two numbers a report depends on are worked out first (`ZnsFtl.nrZoneToReport_eq`,
`ZoneReportCmd.bytesTransfer_eq`), then what the host gets (`ZnsFtl.znsZmgmtRecv_answers`, with the
transfers of `Laws/Io/Transfer`); `measured_iff` says for which lengths the two fit.

What the buffer held before is any bytes; the attributes of a descriptor are not looked at.
-/

set_option autoImplicit false

namespace NvmeVirt

/-- The command with other PRP entries. -/
def ZoneReportCmd.withPrps (cmd : ZoneReportCmd) (prp1 prp2 : Nat) : ZoneReportCmd :=
  { cmd with prp1, prp2 }

/-- The zones from the start zone on. -/
def ZnsFtl.zonesLeft (ftl : ZnsFtl) (cmd : ZoneReportCmd) : Nat :=
  ftl.zp.nrZones - ftl.lbaToZone cmd.slba

/-- The bytes the host asks for, not wrapped. -/
def ZoneReportCmd.asked (cmd : ZoneReportCmd) : Nat := 4 * (cmd.nrDw + 1)

/-- The bytes of a report with its header and the descriptors it counts. -/
def ZoneReport.filled (report : ZoneReport) : Nat :=
  zoneReportHeaderSize + zoneDescriptorSize * report.nrZones

section Reports

variable {ftl : ZnsFtl} {cmd : ZoneReportCmd} {guest : GuestMemory} {buffer : ZoneReport}
  {r : ZoneReportAnswer}

/-- What the check asks for. -/
theorem ZnsFtl.checkZmgmtRcv_iff : ftl.checkZmgmtRcvOptionSupported cmd = true ↔
    ftl.lbaToZone cmd.slba < ftl.zp.nrZones ∧ cmd.zra = 0 ∧ cmd.zraSpecificField = 0 := by
  unfold ZnsFtl.checkZmgmtRcvOptionSupported
  by_cases hzone : ftl.zp.nrZones ≤ ftl.lbaToZone cmd.slba
  · simp [hzone]
  · simp [hzone, Nat.lt_of_not_le hzone]

/-! ## Lengths and counts -/

/-- The length is taken in 64 bits, but for the one that wraps before. -/
theorem ZoneReportCmd.bytesTransfer_eq (cmd : ZoneReportCmd) :
    cmd.bytesTransfer = if cmd.nrDw + 1 = 2 ^ 32 then 0 else cmd.asked := by
  have hlt := cmd.nrDw_lt
  unfold ZoneReportCmd.bytesTransfer ZoneReportCmd.asked u64 u32
  split
  · rename_i hwrap
    rw [hwrap]
    rfl
  · omega

/-- `nr_zones - start_zid`, for a start zone of the device. -/
theorem ZnsFtl.sub64_zonesLeft (hacc : ftl.lbaToZone cmd.slba < ftl.zp.nrZones)
    (hzones : ftl.zp.nrZones < 2 ^ 32) :
    sub64 ftl.zp.nrZones (ftl.lbaToZone cmd.slba) = ftl.zonesLeft cmd := by
  unfold sub64 ZnsFtl.zonesLeft u64
  omega

/-- A full report counts the zones left; a partial one the descriptors of its length but one, or the
zones left where there is no descriptor to take one from. -/
theorem ZnsFtl.nrZoneToReport_eq (hacc : ftl.lbaToZone cmd.slba < ftl.zp.nrZones)
    (hzones : ftl.zp.nrZones < 2 ^ 32) : ftl.nrZoneToReport cmd =
      if cmd.zraSpecificFeatures = true ∧ zoneDescriptorSize ≤ cmd.bytesTransfer then
        min (cmd.bytesTransfer / zoneDescriptorSize - 1) (ftl.zonesLeft cmd)
      else ftl.zonesLeft cmd := by
  have hleft : ftl.zonesLeft cmd < 2 ^ 32 := by
    unfold ZnsFtl.zonesLeft
    omega
  have hbytes : cmd.bytesTransfer < 2 ^ 64 := u64_lt _
  unfold ZnsFtl.nrZoneToReport
  dsimp only
  rw [ZnsFtl.sub64_zonesLeft hacc hzones]
  generalize ftl.zonesLeft cmd = left at hleft
  generalize cmd.bytesTransfer = bytes at hbytes
  cases cmd.zraSpecificFeatures with
  | false => simp
  | true =>
    unfold sub64 u64 zoneDescriptorSize
    by_cases hshort : 64 ≤ bytes
    · simp only [hshort, and_self, if_true]
      rw [if_neg Bool.true_eq_false.mp]
      split <;> omega
    · simp only [hshort, and_false, if_false]
      rw [if_neg Bool.true_eq_false.mp]
      split <;> omega

/-- A report never counts more zones than are left, so what is filled lies in the buffer. -/
theorem ZnsFtl.filled_lt_buffer (hacc : ftl.lbaToZone cmd.slba < ftl.zp.nrZones)
    (hzones : ftl.zp.nrZones < 2 ^ 32) :
    (ftl.fillZoneReport cmd buffer).filled < ftl.reportBufferSize := by
  have hcount : ftl.nrZoneToReport cmd ≤ ftl.zonesLeft cmd := by
    rw [ZnsFtl.nrZoneToReport_eq hacc hzones]
    split
    · exact Nat.min_le_right ..
    · exact Nat.le_refl _
  have hleft : ftl.zonesLeft cmd ≤ ftl.zp.nrZones := Nat.sub_le ..
  show 64 + 64 * ftl.nrZoneToReport cmd < 64 + 64 + 64 * ftl.zp.nrZones
  omega

/-! ## What a command leaves and copies -/

/-- An accepted command that answers has filled the buffer, and copied it from its first byte on. -/
theorem ZnsFtl.znsZmgmtRecv_accepted (hcheck : ftl.checkZmgmtRcvOptionSupported cmd = true)
    (hok : ftl.znsZmgmtRecv guest cmd buffer = .ok r) :
    r.report = ftl.fillZoneReport cmd buffer ∧
      (Copy.allPairs (2 ^ 64) r.copies).map Prod.snd = List.range cmd.bytesTransfer := by
  unfold ZnsFtl.znsZmgmtRecv at hok
  rw [if_pos hcheck] at hok
  cases hcopy : guest.transferPages cmd.prp1 cmd.prp2 cmd.bytesTransfer with
  | error fault =>
    rw [hcopy] at hok
    cases hok
  | ok copies =>
    rw [hcopy] at hok
    obtain rfl := Except.ok.inj hok
    exact ⟨rfl, transferPages_offsets (2 ^ 64) hcopy⟩

/-- Whatever is asked for, there are PRP entries the transfer ends with. -/
theorem ZnsFtl.znsZmgmtRecv_answers (hcheck : ftl.checkZmgmtRcvOptionSupported cmd = true)
    (guest : GuestMemory) (buffer : ZoneReport) :
    ∃ r, ftl.znsZmgmtRecv guest (cmd.withPrps 0 0) buffer = .ok r := by
  have hcheck' : ftl.checkZmgmtRcvOptionSupported (cmd.withPrps 0 0) = true := hcheck
  obtain ⟨copies, hcopy⟩ : ∃ copies, guest.transferPages (cmd.withPrps 0 0).prp1
      (cmd.withPrps 0 0).prp2 (cmd.withPrps 0 0).bytesTransfer = .ok copies :=
    transferPages_answers guest 0 _ rfl
  unfold ZnsFtl.znsZmgmtRecv
  rw [if_pos hcheck', hcopy]
  exact ⟨_, rfl⟩

end Reports

/-! ## The law -/

/-- Every byte copied lies in the filled part of the buffer, and the count of a partial report is that
of the whole descriptors after the header, as far as there are zones. -/
def ZoneReportAnswer.Honest (ftl : ZnsFtl) (cmd : ZoneReportCmd) (r : ZoneReportAnswer) : Prop :=
  (∀ byte ∈ Copy.allPairs (2 ^ 64) r.copies,
      byte.2 < r.report.filled ∧ byte.2 < ftl.reportBufferSize) ∧
    (cmd.zraSpecificFeatures = true → r.report.nrZones =
      min ((cmd.asked - zoneReportHeaderSize) / zoneDescriptorSize) (ftl.zonesLeft cmd))

/-- The lengths that do no harm: no more than a header and the descriptors left, and for a partial
report a header and whole descriptors. Where `nr_dw + 1` wraps nothing is transferred, and a partial
report counts the zones left, which may be no more than a transfer of that length would hold. -/
def Measured (ftl : ZnsFtl) (cmd : ZoneReportCmd) : Prop :=
  if cmd.nrDw + 1 = 2 ^ 32 then
    cmd.zraSpecificFeatures = true → ftl.zonesLeft cmd < 2 ^ 28
  else
    cmd.asked ≤ zoneReportHeaderSize + zoneDescriptorSize * ftl.zonesLeft cmd ∧
      (cmd.zraSpecificFeatures = true →
        zoneReportHeaderSize ≤ cmd.asked ∧ cmd.asked % zoneDescriptorSize = 0)

section Law

variable {ftl : ZnsFtl} {cmd : ZoneReportCmd} {guest : GuestMemory} {buffer : ZoneReport}
  {r : ZoneReportAnswer} {prp1 prp2 : Nat}

/-- The bytes copied are those below `length`, so they lie below a bound as `length` does. -/
theorem copied_lt_iff {copies : List Copy} {length bound : Nat}
    (h : (Copy.allPairs (2 ^ 64) copies).map Prod.snd = List.range length) :
    (∀ byte ∈ Copy.allPairs (2 ^ 64) copies, byte.2 < bound) ↔ length ≤ bound := by
  have hmem : (∀ byte ∈ Copy.allPairs (2 ^ 64) copies, byte.2 < bound) ↔
      ∀ off ∈ (Copy.allPairs (2 ^ 64) copies).map Prod.snd, off < bound := by
    simp only [List.mem_map, forall_exists_index, and_imp, forall_apply_eq_imp_iff₂]
  rw [hmem, h]
  simp only [List.mem_range]
  constructor
  · intro hall
    by_contra hlong
    exact Nat.lt_irrefl _ (hall bound (Nat.lt_of_not_le hlong))
  · intro hle off hoff
    exact Nat.lt_of_lt_of_le hoff hle

/-- The promise is one about two numbers: the length and the count. -/
theorem ZoneReportAnswer.honest_iff (hcheck : ftl.checkZmgmtRcvOptionSupported cmd = true)
    (hzones : ftl.zp.nrZones < 2 ^ 32)
    (hok : ftl.znsZmgmtRecv guest (cmd.withPrps prp1 prp2) buffer = .ok r) :
    r.Honest ftl cmd ↔
      cmd.bytesTransfer ≤ zoneReportHeaderSize + zoneDescriptorSize * ftl.nrZoneToReport cmd ∧
        (cmd.zraSpecificFeatures = true → ftl.nrZoneToReport cmd =
          min ((cmd.asked - zoneReportHeaderSize) / zoneDescriptorSize) (ftl.zonesLeft cmd)) := by
  have hcheck' : ftl.checkZmgmtRcvOptionSupported (cmd.withPrps prp1 prp2) = true := hcheck
  obtain ⟨hreport, hcopies⟩ := ZnsFtl.znsZmgmtRecv_accepted hcheck' hok
  have hlength : (Copy.allPairs (2 ^ 64) r.copies).map Prod.snd = List.range cmd.bytesTransfer :=
    hcopies
  have hfill : r.report = ftl.fillZoneReport cmd buffer := hreport
  have hacc := (ZnsFtl.checkZmgmtRcv_iff.mp hcheck).1
  have hbuffer : (ftl.fillZoneReport cmd buffer).filled < ftl.reportBufferSize :=
    ZnsFtl.filled_lt_buffer hacc hzones
  have hbound : (∀ byte ∈ Copy.allPairs (2 ^ 64) r.copies,
      byte.2 < r.report.filled ∧ byte.2 < ftl.reportBufferSize) ↔
      ∀ byte ∈ Copy.allPairs (2 ^ 64) r.copies, byte.2 < r.report.filled := by
    rw [hfill]
    constructor
    · exact fun hall byte hb => (hall byte hb).1
    · exact fun hall byte hb => ⟨hall byte hb, Nat.lt_trans (hall byte hb) hbuffer⟩
  unfold ZoneReportAnswer.Honest
  rw [hbound, copied_lt_iff hlength, hfill]
  rfl

/-- … and the lengths of `Measured` are those that keep it. -/
theorem measured_iff (hacc : ftl.lbaToZone cmd.slba < ftl.zp.nrZones)
    (hzones : ftl.zp.nrZones < 2 ^ 32) :
    (cmd.bytesTransfer ≤ zoneReportHeaderSize + zoneDescriptorSize * ftl.nrZoneToReport cmd ∧
        (cmd.zraSpecificFeatures = true → ftl.nrZoneToReport cmd =
          min ((cmd.asked - zoneReportHeaderSize) / zoneDescriptorSize) (ftl.zonesLeft cmd))) ↔
      Measured ftl cmd := by
  have hpos : 0 < ftl.zonesLeft cmd := Nat.sub_pos_of_lt hacc
  have hasked : cmd.asked = 4 * (cmd.nrDw + 1) := rfl
  rw [ZnsFtl.nrZoneToReport_eq hacc hzones, cmd.bytesTransfer_eq]
  unfold Measured zoneReportHeaderSize zoneDescriptorSize
  generalize ftl.zonesLeft cmd = left at hpos
  generalize cmd.asked = asked at hasked
  by_cases hwrap : cmd.nrDw + 1 = 2 ^ 32
  · rw [if_pos hwrap, if_pos hwrap]
    cases cmd.zraSpecificFeatures with
    | false => simp
    | true =>
      rw [hwrap] at hasked
      simp only [true_and, forall_const]
      rw [if_neg (by omega)]
      omega
  · rw [if_neg hwrap, if_neg hwrap]
    cases cmd.zraSpecificFeatures with
    | false => simp
    | true =>
      simp only [true_and, forall_const]
      by_cases hshort : 64 ≤ asked
      · rw [if_pos hshort]
        omega
      · rw [if_neg hshort]
        omega

end Law

/-- An accepted command sends only filled bytes and, when partial, counts the whole descriptors its
length holds, whatever its PRP entries and the buffer before it, if and only if its length is one of
`Measured`. The buffer still has what the last report left in it, and what is behind it is not the
report's. -/
theorem zone_reports_honest_iff {ftl : ZnsFtl} {cmd : ZoneReportCmd}
    (hzones : ftl.zp.nrZones < 2 ^ 32) (hcheck : ftl.checkZmgmtRcvOptionSupported cmd = true) :
    (∀ guest prp1 prp2 buffer r,
      ftl.znsZmgmtRecv guest (cmd.withPrps prp1 prp2) buffer = .ok r → r.Honest ftl cmd) ↔
      Measured ftl cmd := by
  have hacc := (ZnsFtl.checkZmgmtRcv_iff.mp hcheck).1
  constructor
  · intro h
    obtain ⟨r, hr⟩ := ZnsFtl.znsZmgmtRecv_answers hcheck
      { pfnValid := fun _ => true, word := fun _ => 0 } { nrZones := 0, zd := ftl.zoneDescs }
    exact (measured_iff hacc hzones).mp
      ((ZoneReportAnswer.honest_iff hcheck hzones hr).mp (h _ _ _ _ _ hr))
  · intro h guest prp1 prp2 buffer r hr
    exact (ZoneReportAnswer.honest_iff hcheck hzones hr).mpr ((measured_iff hacc hzones).mpr h)

/-! ## A device of four zones -/

/-- Four zones of the prototype. -/
def fourZones : ZnsFtl :=
  let spp := ssdInitParams znsPrototype.toSsdConfig (4 * mb 32) 1
  znsInitFtl (znsParams znsPrototype spp (4 * mb 32)) (ssdInit spp) fun _ => 0

theorem exact_dwords_lt : 79 < 2 ^ 32 := by decide
theorem page_dwords_lt : 1023 < 2 ^ 32 := by decide

/-- A partial report from the first zone on, of as many bytes as the four descriptors fill. -/
def exactReport : ZoneReportCmd where
  slba := 0
  zra := 0
  zraSpecificField := 0
  nrDw := 79
  zraSpecificFeatures := true
  prp1 := 0
  prp2 := 0
  nrDw_lt := exact_dwords_lt

/-- The same report, of a page. -/
def pageReport : ZoneReportCmd := { exactReport with nrDw := 1023, nrDw_lt := page_dwords_lt }

theorem fourZones_lt : fourZones.zp.nrZones < 2 ^ 32 := by decide

/-- The header and four descriptors. -/
theorem exactReport_measured : Measured fourZones exactReport := by
  unfold Measured
  rw [if_neg (by decide)]
  exact ⟨by decide, fun _ => ⟨by decide, by decide⟩⟩

/-- A report of four zones, of just that length. -/
theorem zone_reports_honest_exact : ∃ guest buffer r,
    fourZones.znsZmgmtRecv guest (exactReport.withPrps 0 0) buffer = .ok r ∧
      r.Honest fourZones exactReport := by
  have hcheck : fourZones.checkZmgmtRcvOptionSupported exactReport = true := by decide
  obtain ⟨r, hr⟩ := ZnsFtl.znsZmgmtRecv_answers hcheck
    { pfnValid := fun _ => true, word := fun _ => 0 } { nrZones := 0, zd := fourZones.zoneDescs }
  exact ⟨_, _, r, hr,
    (zone_reports_honest_iff fourZones_lt hcheck).mpr exactReport_measured _ _ _ _ r hr⟩

/-- Of a page, 320 bytes are filled and 384 are in the buffer. -/
theorem zone_report_overruns : fourZones.checkZmgmtRcvOptionSupported pageReport = true ∧
    ∃ guest buffer r, fourZones.znsZmgmtRecv guest (pageReport.withPrps 0 0) buffer = .ok r ∧
      ¬ r.Honest fourZones pageReport ∧
      ∃ byte ∈ Copy.allPairs (2 ^ 64) r.copies, fourZones.reportBufferSize ≤ byte.2 := by
  have hcheck : fourZones.checkZmgmtRcvOptionSupported pageReport = true := by decide
  obtain ⟨r, hr⟩ := ZnsFtl.znsZmgmtRecv_answers hcheck
    { pfnValid := fun _ => true, word := fun _ => 0 } { nrZones := 0, zd := fourZones.zoneDescs }
  have hcopies : (Copy.allPairs (2 ^ 64) r.copies).map Prod.snd = List.range 4096 :=
    (ZnsFtl.znsZmgmtRecv_accepted hcheck hr).2
  have hbeyond : ∃ byte ∈ Copy.allPairs (2 ^ 64) r.copies,
      fourZones.reportBufferSize ≤ byte.2 := by
    have hlast : 384 ∈ (Copy.allPairs (2 ^ 64) r.copies).map Prod.snd := by
      rw [hcopies]
      exact List.mem_range.mpr (by decide)
    obtain ⟨byte, hbyte, heq⟩ := List.mem_map.mp hlast
    exact ⟨byte, hbyte, heq ▸ Nat.le_of_eq (by decide)⟩
  refine ⟨hcheck, _, _, r, hr, fun hhonest => ?_, hbeyond⟩
  obtain ⟨byte, hbyte, hle⟩ := hbeyond
  exact Nat.not_lt_of_le hle (hhonest.1 byte hbyte).2

end NvmeVirt

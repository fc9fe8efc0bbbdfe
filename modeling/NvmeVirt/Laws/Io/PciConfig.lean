import Mathlib.Data.Nat.Bitwise
import NvmeVirt.Io.PciConfig

/-!
# What writes to the configuration space change

The masks of `nvmev_pci_write` decide bit by bit. In every run of accesses the settings outside the
writable fields are the ones of the initialisation, and `intx_disabled` and `msix_enabled` are the
bits the host sees. A write that turns the pin on again takes the interrupt status down with it,
unless it is a write of four bytes, which puts the status back.

All of it is read off one equation for one bit after one write (`PciConfig.write_testBit`); that the
masks leave only writable bits is `cfgMask_writable`. From it follow what a write keeps
(`PciConfig.write_keeps`, and `pciRuns_readOnly` over runs) and what it does to the two flags
(`PciConfig.write_intx`, `PciConfig.write_msix`, and `pciRuns_flags` over runs). The settings of the
initialisation lie apart, so each reads back (`setting_kept`).

An access is one the kernel makes: one, two or four bytes, aligned, within the page (`CfgAccess`).
The sizing of the base address register is at the end.
-/

set_option autoImplicit false

namespace NvmeVirt

/-! ## Bits -/

section Bits

/-- The field has the bit. -/
def BitField.Has (f : BitField) (i : Nat) : Prop := f.off ≤ i ∧ i < f.off + f.width

instance (f : BitField) (i : Nat) : Decidable (f.Has i) := inferInstanceAs (Decidable (_ ∧ _))

/-- The fields the host, or an interrupt, can change. -/
def writableFields : List BitField :=
  [cmdId, stsIs, cfgBits 0x06 9 1, cfgBits 0x06 12 4, cfgBits 0x0f 6 1, cfgBits 0x10 14 18,
    cfgBits 0x3c 0 8, cfgBits 0x40 0 128, cfgBits 0x52 14 2, cfgBits 0x60 0 32000]

def Writable (i : Nat) : Prop := ∃ f ∈ writableFields, f.Has i

instance (i : Nat) : Decidable (Writable i) :=
  inferInstanceAs (Decidable (∃ f ∈ writableFields, f.Has i))

/-- The accesses the kernel makes: one, two or four bytes, aligned, within the page. -/
structure CfgAccess (offset size newVal : Nat) : Prop where
  bytes : size = 1 ∨ size = 2 ∨ size = 4
  aligned : offset % size = 0
  fits : offset + size ≤ 4096
  value : newVal < 2 ^ (8 * size)

/-- The bits of a masked write. -/
theorem testBit_masked {mask val newVal j : Nat} (hj : j < 32) :
    ((val &&& ((2 ^ 32 - 1) ^^^ mask)) ||| (newVal &&& mask)).testBit j =
      if mask.testBit j = true then newVal.testBit j else val.testBit j := by
  simp only [Nat.testBit_or, Nat.testBit_and, Nat.testBit_xor, Nat.testBit_two_pow_sub_one,
    decide_eq_true hj, Bool.true_xor]
  cases mask.testBit j <;> simp

/-- A field is known by its bits. -/
theorem BitField.read_congr {f : BitField} {w w' : Nat}
    (h : ∀ i, f.Has i → w'.testBit i = w.testBit i) : f.read w' = f.read w := by
  apply Nat.eq_of_testBit_eq
  intro i
  rw [testBit_read, testBit_read]
  by_cases hi : i < f.width
  · rw [h (f.off + i) ⟨Nat.le_add_right _ _, Nat.add_lt_add_left hi _⟩]
  · simp [hi]

/-- A field of one bit. -/
theorem BitField.read_bit (off w : Nat) : BitField.read ⟨off, 1⟩ w = (w.testBit off).toNat := by
  unfold BitField.read
  rw [pow_one, Nat.testBit_eq_decide_div_mod_eq]
  rcases Nat.mod_two_eq_zero_or_one (w / 2 ^ off) with h | h <;> simp [h]

theorem and_two_pow_ne_zero (v k : Nat) : v &&& 2 ^ k ≠ 0 ↔ v.testBit k = true := by
  rw [Nat.and_two_pow]
  cases v.testBit k <;> simp

/-- Every mask has writable bits only. -/
theorem cfgMask_writable {offset size newVal j : Nat} (h : CfgAccess offset size newVal)
    (hj : j < 8 * size) (hbit : (cfgMask offset).testBit j = true) : Writable (8 * offset + j) := by
  have hsize := h.bytes
  have hfits := h.fits
  have haligned := h.aligned
  have h32 : j < 32 := by omega
  unfold cfgMask at hbit
  split_ifs at hbit
  · have hj10 : ∀ j < 32, pciCommandIntxDisable.testBit j = true → j = 10 := by decide
    subst_vars
    rw [hj10 j h32 hbit]
    decide
  · have hjs : ∀ j < 32, (0xF200 : Nat).testBit j = true → Writable (8 * pciStatus + j) := by decide
    subst_vars
    exact hjs j h32 hbit
  · have hj6 : ∀ j < 32, pciBistStart.testBit j = true → Writable (8 * pciBist + j) := by decide
    subst_vars
    exact hj6 j h32 hbit
  · have hjs : ∀ j < 32, (0xFFFFC000 : Nat).testBit j = true → Writable (8 * pciBaseAddress0 + j) := by
      decide
    subst_vars
    exact hjs j h32 hbit
  · have hjs : ∀ j < 32, (0xFF : Nat).testBit j = true → Writable (8 * pciInterruptLine + j) := by
      decide
    subst_vars
    exact hjs j h32 hbit
  · simp at hbit
  · refine ⟨cfgBits 0x40 0 128, by simp [writableFields], ?_⟩
    show 8 * 0x40 + 0 ≤ 8 * offset + j ∧ 8 * offset + j < 8 * 0x40 + 0 + 128
    unfold offsPciPmCap offsPciMsixCap at *
    rcases hsize with rfl | rfl | rfl <;> omega
  · have hjs : ∀ j < 32, (pciMsixFlagsMaskall ||| pciMsixFlagsEnable).testBit j = true →
        Writable (8 * (offsPciMsixCap + pciMsixFlags) + j) := by decide
    have hoffset : offset = offsPciMsixCap + pciMsixFlags := by
      unfold offsPciMsixCap pciMsixFlags at *
      omega
    rw [hoffset]
    exact hjs j h32 hbit
  · simp at hbit
  · refine ⟨cfgBits 0x60 0 32000, by simp [writableFields], ?_⟩
    show 8 * 0x60 + 0 ≤ 8 * offset + j ∧ 8 * offset + j < 8 * 0x60 + 0 + 32000
    unfold offsPciPmCap offsPciMsixCap offsPcieCap at *
    omega

end Bits

/-! ## One write -/

section Write

variable {s : PciConfig} {offset size newVal : Nat}

/-- The interrupt status is one bit. -/
theorem testBit_stsIs (v w i : Nat) :
    (stsIs.write v w).testBit i = if i = 51 then v.testBit 0 else w.testBit i := by
  rw [BitField.testBit_write]
  by_cases hi : i = 51
  · rw [hi]
    rfl
  · have hout : ¬ (51 ≤ i ∧ i < 51 + 1) := by omega
    rw [if_neg hi]
    exact if_neg hout

/-- The configuration space after the branches of a write, before its own bytes go in. -/
def PciConfig.branched (s : PciConfig) (offset size newVal : Nat) : PciConfig :=
  if offset = pciCommand then s.changeIntx ((cfgBytes offset size).read s.virtDev) newVal
  else if offset = offsPciMsixCap + pciMsixFlags then
    s.changeMsix ((cfgBytes offset size).read s.virtDev) newVal
  else s

/-- The branches of a write touch the interrupt status only. -/
theorem PciConfig.branched_testBit {i : Nat} (hi : i ≠ 51) :
    (s.branched offset size newVal).virtDev.testBit i = s.virtDev.testBit i := by
  unfold branched
  split
  · unfold changeIntx
    split
    · split
      · rfl
      · show (stsIs.write 0 s.virtDev).testBit i = _
        rw [testBit_stsIs, if_neg hi]
    · rfl
  · split
    · unfold changeMsix
      split <;> rfl
    · rfl

/-- A write sets the bits of its mask, keeps the others of its bytes, and leaves what is around them to
the branches. -/
theorem PciConfig.write_testBit (h : CfgAccess offset size newVal) (i : Nat) :
    (s.nvmevPciWrite offset size newVal).virtDev.testBit i =
      if 8 * offset ≤ i ∧ i < 8 * offset + 8 * size then
        if (cfgMask offset).testBit (i - 8 * offset) = true then newVal.testBit (i - 8 * offset)
        else s.virtDev.testBit i
      else (s.branched offset size newVal).virtDev.testBit i := by
  have hsize := h.bytes
  show ((cfgBytes offset size).write _ (s.branched offset size newVal).virtDev).testBit i = _
  rw [BitField.testBit_write]
  unfold cfgBytes
  dsimp only
  split
  · rename_i hin
    have hj : i - 8 * offset < 32 := by omega
    have hlt : i - 8 * offset < 8 * size := by omega
    rw [testBit_masked hj, BitField.testBit_read]
    simp [hlt, Nat.add_sub_of_le hin.1]
  · rfl

/-- A write leaves the bits that are not writable. -/
theorem PciConfig.write_keeps (h : CfgAccess offset size newVal) {i : Nat} (hi : ¬ Writable i) :
    (s.nvmevPciWrite offset size newVal).virtDev.testBit i = s.virtDev.testBit i := by
  have hstatus : i ≠ 51 := by
    rintro rfl
    exact hi (by decide)
  rw [write_testBit h]
  split
  · rename_i hin
    have hmask : ¬ (cfgMask offset).testBit (i - 8 * offset) = true := by
      intro hbit
      have hwritable := cfgMask_writable h (by omega) hbit
      rw [Nat.add_sub_of_le hin.1] at hwritable
      exact hi hwritable
    rw [if_neg hmask]
  · exact branched_testBit hstatus

/-- A bit of a value of fewer bytes is not set. -/
theorem CfgAccess.testBit_value (h : CfgAccess offset size newVal) {j : Nat} (hj : 8 * size ≤ j) :
    newVal.testBit j = false :=
  Nat.testBit_lt_two_pow (Nat.lt_of_lt_of_le h.value (Nat.pow_le_pow_right Nat.two_pos hj))

/-- What an access reads. -/
theorem testBit_cfgBytes {w j : Nat} : ((cfgBytes offset size).read w).testBit j =
    (decide (j < 8 * size) && w.testBit (8 * offset + j)) := BitField.testBit_read ..

/-- The condition under which a branch acts: the bit changes. -/
theorem xor_and_two_pow (v w k : Nat) : (v ^^^ w) &&& 2 ^ k ≠ 0 ↔ v.testBit k ≠ w.testBit k := by
  rw [and_two_pow_ne_zero, Nat.testBit_xor, bne_iff_ne]

/-- The flag follows a bit that changes. -/
theorem PciConfig.changeIntx_disabled (s : PciConfig) (val newVal : Nat) :
    (s.changeIntx val newVal).intxDisabled =
      if val.testBit 10 = newVal.testBit 10 then s.intxDisabled else newVal.testBit 10 := by
  have hbit : pciCommandIntxDisable = 2 ^ 10 := rfl
  unfold changeIntx
  rw [hbit]
  by_cases hchange : val.testBit 10 = newVal.testBit 10
  · rw [if_neg ((xor_and_two_pow ..).not.mpr (not_not.mpr hchange)), if_pos hchange]
  · rw [if_pos ((xor_and_two_pow ..).mpr hchange), if_neg hchange]
    cases hnew : newVal.testBit 10 with
    | true => rw [if_pos ((and_two_pow_ne_zero ..).mpr hnew)]
    | false => rw [if_neg ((and_two_pow_ne_zero ..).not.mpr (by simp [hnew]))]

/-- Turning the pin on again takes the interrupt status down. -/
theorem PciConfig.changeIntx_status (s : PciConfig) {val newVal : Nat} (hval : val.testBit 10 = true)
    (hnew : newVal.testBit 10 = false) : (s.changeIntx val newVal).virtDev.testBit 51 = false := by
  have hbit : pciCommandIntxDisable = 2 ^ 10 := rfl
  unfold changeIntx
  rw [hbit, if_pos ((xor_and_two_pow ..).mpr (by simp [hval, hnew])),
    if_neg ((and_two_pow_ne_zero ..).not.mpr (by simp [hnew]))]
  show (stsIs.write 0 s.virtDev).testBit 51 = false
  rw [testBit_stsIs, if_pos rfl, Nat.zero_testBit]

/-- So does the other. -/
theorem PciConfig.changeMsix_enabled (s : PciConfig) (val newVal : Nat) :
    (s.changeMsix val newVal).msixEnabled = s.msixEnabled.map fun e =>
      if val.testBit 15 = newVal.testBit 15 then e else newVal.testBit 15 := by
  have hbit : pciMsixFlagsEnable = 2 ^ 15 := rfl
  unfold changeMsix
  rw [hbit]
  cases he : s.msixEnabled with
  | none => simp [he]
  | some e =>
    by_cases hchange : val.testBit 15 = newVal.testBit 15
    · rw [if_neg fun h => (xor_and_two_pow ..).mp h.2 hchange]
      simp [he, hchange]
    · rw [if_pos ⟨Option.some_ne_none e, (xor_and_two_pow ..).mpr hchange⟩]
      simp only [Option.map_some, if_neg hchange, Option.some.injEq]
      cases hnew : newVal.testBit 15 with
      | true => exact decide_eq_true ((and_two_pow_ne_zero ..).mpr hnew)
      | false => exact decide_eq_false ((and_two_pow_ne_zero ..).not.mpr (by simp [hnew]))

/-- What a write does to the bit of `PCI_COMMAND` that turns the pin off. -/
theorem PciConfig.write_intx (h : CfgAccess offset size newVal)
    (hsync : s.intxDisabled = s.virtDev.testBit 42) :
    (s.nvmevPciWrite offset size newVal).intxDisabled =
      (s.nvmevPciWrite offset size newVal).virtDev.testBit 42 := by
  have hbytes := h.bytes
  have haligned := h.aligned
  show (s.branched offset size newVal).intxDisabled = _
  rw [write_testBit h, branched_testBit (by decide)]
  by_cases hoffset : offset = pciCommand
  · subst hoffset
    have hmask : (cfgMask pciCommand).testBit (42 - 8 * pciCommand) = true := by decide
    rw [branched, if_pos rfl, changeIntx_disabled, testBit_cfgBytes, if_pos hmask]
    by_cases hin : 10 < 8 * size
    · rw [if_pos (show 8 * pciCommand ≤ 42 ∧ _ from ⟨by decide, by unfold pciCommand; omega⟩),
        decide_eq_true hin, Bool.true_and, hsync]
      split
      · assumption
      · rfl
    · have hzero := h.testBit_value (Nat.not_lt.mp hin)
      rw [if_neg (show ¬ (_ ∧ 42 < 8 * pciCommand + 8 * size) by unfold pciCommand; omega),
        decide_eq_false hin, Bool.false_and, if_pos hzero.symm]
      exact hsync
  · have hflag : (s.branched offset size newVal).intxDisabled = s.intxDisabled := by
      unfold branched changeMsix
      split_ifs <;> rfl
    have hmask : 8 * offset ≤ 42 ∧ 42 < 8 * offset + 8 * size →
        (cfgMask offset).testBit (42 - 8 * offset) = false := by
      intro hin
      obtain rfl : offset = 5 := by
        unfold pciCommand at hoffset
        rcases hbytes with rfl | rfl | rfl <;> omega
      decide
    rw [hflag, hsync]
    split
    · rename_i hin
      rw [hmask hin, if_neg Bool.false_ne_true]
    · rfl

/-- What a write does to the bit that turns MSI-X on. -/
theorem PciConfig.write_msix (h : CfgAccess offset size newVal) {enabled : Bool}
    (hsync : ∀ e, s.msixEnabled = some e → e = s.virtDev.testBit 671)
    (henabled : (s.nvmevPciWrite offset size newVal).msixEnabled = some enabled) :
    enabled = (s.nvmevPciWrite offset size newVal).virtDev.testBit 671 := by
  have hbytes := h.bytes
  have haligned := h.aligned
  have hfield : (s.branched offset size newVal).msixEnabled = some enabled := henabled
  rw [write_testBit h, branched_testBit (by decide)]
  by_cases hoffset : offset = offsPciMsixCap + pciMsixFlags
  · subst hoffset
    have hmask : (cfgMask (offsPciMsixCap + pciMsixFlags)).testBit
        (671 - 8 * (offsPciMsixCap + pciMsixFlags)) = true := by decide
    have hat : 8 * (offsPciMsixCap + pciMsixFlags) = 656 := rfl
    rw [branched, if_neg (by decide), if_pos rfl, changeMsix_enabled] at hfield
    obtain ⟨e, he, hfield⟩ := Option.map_eq_some_iff.mp hfield
    have hold := hsync e he
    rw [testBit_cfgBytes, hat] at hfield
    rw [if_pos hmask, hat]
    by_cases hin : 15 < 8 * size
    · rw [if_pos (by omega)]
      rw [decide_eq_true hin, Bool.true_and, ← hold] at hfield
      split at hfield
      · exact hfield.symm.trans ‹_›
      · exact hfield.symm
    · have hzero := h.testBit_value (Nat.not_lt.mp hin)
      rw [if_neg (by omega), ← hold]
      rw [decide_eq_false hin, Bool.false_and, if_pos hzero.symm] at hfield
      exact hfield.symm
  · have hflag : (s.branched offset size newVal).msixEnabled = s.msixEnabled := by
      unfold branched changeIntx
      split_ifs <;> rfl
    have hmask : 8 * offset ≤ 671 ∧ 671 < 8 * offset + 8 * size →
        (cfgMask offset).testBit (671 - 8 * offset) = false := by
      intro hin
      have hcases : offset = 0x50 ∨ offset = 0x53 := by
        unfold offsPciMsixCap pciMsixFlags at hoffset
        rcases hbytes with rfl | rfl | rfl <;> omega
      rcases hcases with rfl | rfl <;> decide
    rw [hflag] at hfield
    rw [hsync enabled hfield]
    split
    · rename_i hin
      rw [hmask hin, if_neg Bool.false_ne_true]
    · rfl

/-- The interrupt status after a write that turns the pin on: down, but for a write of four bytes,
which puts back what it has read. -/
theorem PciConfig.write_status (h : CfgAccess pciCommand size newVal)
    (hsync : s.intxDisabled = s.virtDev.testBit 42) (hoff : s.intxDisabled = true)
    (hon : (s.nvmevPciWrite pciCommand size newVal).intxDisabled = false) :
    (s.nvmevPciWrite pciCommand size newVal).virtDev.testBit 51 =
      (decide (size = 4) && s.virtDev.testBit 51) := by
  have hbytes := h.bytes
  have hset : s.virtDev.testBit 42 = true := hsync ▸ hoff
  -- the bit of the command is in the bytes, and off in the new value
  have hbits : 10 < 8 * size ∧ newVal.testBit 10 = false := by
    have hflag : (s.branched pciCommand size newVal).intxDisabled = false := hon
    rw [branched, if_pos rfl, changeIntx_disabled, testBit_cfgBytes] at hflag
    by_cases hin : 10 < 8 * size
    · refine ⟨hin, ?_⟩
      have hread : (decide (10 < 8 * size) && s.virtDev.testBit (8 * pciCommand + 10)) = true := by
        rw [decide_eq_true hin, Bool.true_and]
        exact hset
      rw [hread] at hflag
      split at hflag
      · rw [hoff] at hflag
        cases hflag
      · exact hflag
    · have hzero := h.testBit_value (Nat.not_lt.mp hin)
      rw [decide_eq_false hin, Bool.false_and, if_pos hzero.symm, hoff] at hflag
      cases hflag
  have hread : ((cfgBytes pciCommand size).read s.virtDev).testBit 10 = true := by
    rw [testBit_cfgBytes, decide_eq_true hbits.1, Bool.true_and]
    exact hset
  have hdown : (s.branched pciCommand size newVal).virtDev.testBit 51 = false := by
    rw [branched, if_pos rfl]
    exact changeIntx_status s hread hbits.2
  have hmask : (cfgMask pciCommand).testBit (51 - 8 * pciCommand) = false := by decide
  have hat : 8 * pciCommand = 32 := rfl
  rw [write_testBit h, hmask, hdown, hat]
  by_cases hfour : size = 4
  · rw [if_pos (by omega), decide_eq_true hfour, Bool.true_and, if_neg Bool.false_ne_true]
  · rw [if_neg (by omega), decide_eq_false hfour, Bool.false_and]

end Write

/-! ## The settings -/

section Settings

variable {basePa : Nat} {f g : BitField} {v : Nat}

/-- The fields that are set do not depend on the address. -/
theorem pciSettings_fields (basePa : Nat) :
    (pciSettings basePa).map Prod.fst = (pciSettings 0).map Prod.fst := rfl

/-- No two settings share a bit. -/
theorem pciSettings_apart (basePa : Nat) :
    (pciSettings basePa).Pairwise fun p p' => p'.1.Apart p.1 := by
  have hfields : ((pciSettings 0).map Prod.fst).Pairwise fun f g => g.Apart f := by decide +kernel
  rw [← pciSettings_fields basePa] at hfields
  exact List.pairwise_map.mp hfields

/-- What is set reads back. -/
theorem nvmevPciInit_read (h : (f, v) ∈ pciSettings basePa) :
    f.read (nvmevPciInit basePa).virtDev = v % 2 ^ f.width :=
  BitField.read_writeAll (pciSettings_apart basePa) h

/-- What is not set is 0. -/
theorem nvmevPciInit_zero (h : ∀ f ∈ (pciSettings 0).map Prod.fst, f.Apart g) :
    g.read (nvmevPciInit basePa).virtDev = 0 := by
  rw [← pciSettings_fields basePa] at h
  have hapart : ∀ p ∈ pciSettings basePa, p.1.Apart g := fun p hp => h p.1 (List.mem_map_of_mem hp)
  unfold nvmevPciInit
  rw [BitField.read_writeAll_apart hapart]
  unfold BitField.read
  rw [Nat.zero_div, Nat.zero_mod]

end Settings

/-! ## Runs -/

section Runs

variable {basePa : Nat} {s s' : PciConfig}

inductive PciEvent where
  | write (offset size newVal : Nat)
  /-- The scan of the bus has found the device. -/
  | scanned
  | signal

inductive PciStep : PciConfig → PciEvent → PciConfig → Prop where
  | write {s : PciConfig} {offset size newVal : Nat} : CfgAccess offset size newVal →
    PciStep s (.write offset size newVal) (s.nvmevPciWrite offset size newVal)
  | scanned {s : PciConfig} : PciStep s .scanned { s with msixEnabled := some false }
  | signal {s : PciConfig} : PciStep s .signal s.signalIrq

/-- Runs from the settings of the initialisation. -/
def pciRuns (basePa : Nat) : System PciConfig PciEvent where
  init s := s = nvmevPciInit basePa
  step := PciStep

/-- The kernel turns MSI-X off before the device is its own. -/
def ScannedOff (s : PciConfig) : PciEvent → Prop
  | .scanned => mxcMxe.read s.virtDev = 0
  | _ => True

/-- Raising the pin touches the interrupt status only. -/
theorem PciConfig.signalIrq_testBit (s : PciConfig) {i : Nat} (hi : i ≠ 51) :
    s.signalIrq.virtDev.testBit i = s.virtDev.testBit i := by
  unfold signalIrq
  split
  · rfl
  · show (stsIs.write 1 s.virtDev).testBit i = _
    rw [testBit_stsIs, if_neg hi]

/-- Read-only bits, over whole runs. -/
theorem pciRuns_readOnly : (pciRuns basePa).Invariant fun s =>
    ∀ i, ¬ Writable i → s.virtDev.testBit i = (nvmevPciInit basePa).virtDev.testBit i where
  init s hs i _ := by rw [hs]
  step s l s' hs hstep i hi := by
    rw [← hs i hi]
    cases hstep with
    | write h => exact PciConfig.write_keeps h hi
    | scanned => rfl
    | signal =>
      apply s.signalIrq_testBit
      rintro rfl
      exact hi (by decide)

/-- A setting outside the writable fields stays. -/
theorem setting_kept {f : BitField} {v : Nat} (h : (pciRuns basePa).Reachable s)
    (hset : (f, v) ∈ pciSettings basePa) (hread : ∀ i, f.Has i → ¬ Writable i) :
    f.read s.virtDev = v % 2 ^ f.width := by
  have hkept := pciRuns_readOnly.reachable h
  rw [BitField.read_congr fun i hi => hkept i (hread i hi)]
  exact nvmevPciInit_read hset

/-- The bits of a field, counted from its first one. -/
theorem not_writable_of_lt {off width : Nat} (hall : ∀ j < width, ¬ Writable (off + j)) {i : Nat}
    (hi : BitField.Has ⟨off, width⟩ i) : ¬ Writable i := by
  have hin : off ≤ i ∧ i < off + width := hi
  have hnot := hall (i - off) (by omega)
  rwa [Nat.add_sub_of_le hin.1] at hnot

/-- The flags beside the configuration space are its bits. -/
structure FlagsKept (s : PciConfig) : Prop where
  intx : s.intxDisabled = s.virtDev.testBit 42
  msix : ∀ e, s.msixEnabled = some e → e = s.virtDev.testBit 671

/-- The flags, over whole runs. -/
theorem pciRuns_flags : ((pciRuns basePa).guarded ScannedOff).Invariant FlagsKept where
  init s hs := by
    obtain rfl : s = nvmevPciInit basePa := hs
    refine ⟨?_, fun e he => absurd he.symm (Option.some_ne_none e)⟩
    have hzero : cmdId.read (nvmevPciInit basePa).virtDev = 0 :=
      nvmevPciInit_zero (by decide +kernel)
    have hbit := BitField.read_bit 42 (nvmevPciInit basePa).virtDev
    cases hset : (nvmevPciInit basePa).virtDev.testBit 42 with
    | false => rfl
    | true =>
      rw [hset] at hbit
      cases hzero.symm.trans hbit
  step s l s' hs hstep := by
    obtain ⟨hguard, hstep⟩ := hstep
    cases hstep with
    | write h =>
      exact ⟨PciConfig.write_intx h hs.intx, fun e he => PciConfig.write_msix h hs.msix he⟩
    | scanned =>
      refine ⟨hs.intx, fun e he => ?_⟩
      have hzero : mxcMxe.read s.virtDev = 0 := hguard
      have hbit : mxcMxe.read s.virtDev = (s.virtDev.testBit 671).toNat := BitField.read_bit 671 _
      rw [← Option.some.inj he]
      show false = s.virtDev.testBit 671
      cases hset : s.virtDev.testBit 671 with
      | false => rfl
      | true =>
        rw [hset] at hbit
        cases hzero.symm.trans hbit
    | signal =>
      have hflags : s.signalIrq.intxDisabled = s.intxDisabled ∧
          s.signalIrq.msixEnabled = s.msixEnabled := by
        unfold PciConfig.signalIrq
        split <;> exact ⟨rfl, rfl⟩
      refine ⟨?_, fun e he => ?_⟩
      · rw [hflags.1, s.signalIrq_testBit (by decide), hs.intx]
      · rw [s.signalIrq_testBit (by decide)]
        exact hs.msix e (hflags.2 ▸ he)

/-- In every run in which the kernel turns MSI-X off before the device is its own, whatever was set
outside the writable fields reads as it was set, `intx_disabled` and `msix_enabled` are the bits of
the configuration space, and turning the pin on takes the interrupt status down if and only if the
write is not one of four bytes. Accesses are of one, two or four bytes at any offset they are
aligned to, and in any order. -/
theorem config_space_kept (h : ((pciRuns basePa).guarded ScannedOff).Reachable s) :
    (∀ f v, (f, v) ∈ pciSettings basePa → (∀ i, f.Has i → ¬ Writable i) →
      f.read s.virtDev = v % 2 ^ f.width) ∧
    cmdId.read s.virtDev = s.intxDisabled.toNat ∧
    (∀ e, s.msixEnabled = some e → mxcMxe.read s.virtDev = e.toNat) ∧
    ∀ size newVal, CfgAccess pciCommand size newVal → s.intxDisabled = true →
      (s.nvmevPciWrite pciCommand size newVal).intxDisabled = false →
      stsIs.read (s.nvmevPciWrite pciCommand size newVal).virtDev =
        if size = 4 then stsIs.read s.virtDev else 0 := by
  have hflags := pciRuns_flags.reachable h
  refine ⟨fun f v hset hread => setting_kept h.of_guarded hset hread, ?_, fun e he => ?_,
    fun size newVal haccess hoff hon => ?_⟩
  · rw [hflags.intx]
    exact BitField.read_bit 42 s.virtDev
  · rw [hflags.msix e he]
    exact BitField.read_bit 671 s.virtDev
  · have hstatus := PciConfig.write_status haccess hflags.intx hoff hon
    have hbit : ∀ w, stsIs.read w = (w.testBit 51).toNat := BitField.read_bit 51
    rw [hbit, hbit, hstatus]
    split
    · rename_i hfour
      rw [decide_eq_true hfour, Bool.true_and]
    · rename_i hfour
      rw [decide_eq_false hfour, Bool.false_and]
      rfl

/-- The kernel finds the device: MSI-X off, then its own. -/
theorem config_space_kept_scanned : ∃ s, ((pciRuns 0x100000000).guarded ScannedOff).Reachable s ∧
    s.msixEnabled = some false ∧ mxcMxe.read s.virtDev = 0 := by
  have hinit : ((pciRuns 0x100000000).guarded ScannedOff).Reachable (nvmevPciInit 0x100000000) :=
    .init rfl
  have haccess : CfgAccess 0x52 2 127 := ⟨.inr (.inl rfl), rfl, by decide, by decide⟩
  have hwritten := hinit.guarded_step (PciStep.write haccess) trivial
  have hoff : mxcMxe.read ((nvmevPciInit 0x100000000).nvmevPciWrite 0x52 2 127).virtDev = 0 := by
    decide +kernel
  have hscanned := hwritten.guarded_step PciStep.scanned hoff
  exact ⟨_, hscanned, rfl, (config_space_kept hscanned).2.2.1 false rfl⟩

/-! ## The base address register -/

/-- The bits of the register below the address: a 64-bit register in memory. -/
theorem bar_low (h : (pciRuns basePa).Reachable s) : BitField.read ⟨128, 14⟩ s.virtDev = 4 := by
  have hkept := pciRuns_readOnly.reachable h
  have hfixed : BitField.read ⟨128, 14⟩ s.virtDev =
      BitField.read ⟨128, 14⟩ (nvmevPciInit basePa).virtDev := by
    apply BitField.read_congr
    intro i hi
    exact hkept i (not_writable_of_lt (by decide) hi)
  have htype : BitField.read ⟨129, 2⟩ (nvmevPciInit basePa).virtDev = 2 :=
    nvmevPciInit_read (show (cfgBits 0x10 1 2, 0x04 / 2) ∈ _ by
      simp [pciSettings, pciHeaderSettings])
  rw [hfixed, BitField.read_append 128 1 13, BitField.read_append 129 2 11, htype,
    nvmevPciInit_zero (by decide +kernel), nvmevPciInit_zero (by decide +kernel)]
  rfl

/-- A write of the register changes the address, and nothing else. -/
theorem PciConfig.write_bar {newVal : Nat} (h : newVal < 2 ^ 32) :
    (s.nvmevPciWrite pciBaseAddress0 4 newVal).intxDisabled = s.intxDisabled ∧
      (s.nvmevPciWrite pciBaseAddress0 4 newVal).msixEnabled = s.msixEnabled ∧
      ∀ i, (s.nvmevPciWrite pciBaseAddress0 4 newVal).virtDev.testBit i =
        if 142 ≤ i ∧ i < 160 then newVal.testBit (i - 128) else s.virtDev.testBit i := by
  have haccess : CfgAccess pciBaseAddress0 4 newVal := ⟨.inr (.inr rfl), rfl, by decide, h⟩
  refine ⟨rfl, rfl, fun i => ?_⟩
  have hmask : ∀ j < 32, (cfgMask pciBaseAddress0).testBit j = decide (14 ≤ j) := by decide
  rw [write_testBit haccess]
  show (if 128 ≤ i ∧ i < 128 + 32 then if (cfgMask pciBaseAddress0).testBit (i - 128) = true then _
    else _ else s.virtDev.testBit i) = _
  by_cases hin : 128 ≤ i ∧ i < 128 + 32
  · rw [if_pos hin, hmask (i - 128) (by omega)]
    by_cases hhigh : 142 ≤ i
    · rw [if_pos (decide_eq_true (by omega)), if_pos ⟨hhigh, by omega⟩]
      rfl
    · rw [if_neg (by simp; omega), if_neg (by omega)]
  · rw [if_neg hin, if_neg (by omega)]

/-- The size of a range from its register after ones were written: the low four bits are not part of
the address. -/
def barSize (bar : Nat) : Nat := 2 ^ 32 - bar / 16 * 16

/-- In every state the kernel works out 16 KiB for the base address register, and puts the device
back into the state it was in; the two pages of registers and doorbells and the table of the vectors
are in this range, and the pending bits are announced behind it. The kernel sizes a register by
writing all ones, reading it, and writing back what it read before. -/
theorem bar_sizing (h : (pciRuns basePa).Reachable s) :
    let probed := s.nvmevPciWrite pciBaseAddress0 4 (2 ^ 32 - 1)
    barSize ((cfgBytes pciBaseAddress0 4).read probed.virtDev) = 2 ^ 14 ∧
      probed.nvmevPciWrite pciBaseAddress0 4 ((cfgBytes pciBaseAddress0 4).read s.virtDev) = s ∧
      (cfgBits 0x54 3 29).read s.virtDev * 8 = 2 * 4096 ∧
      (cfgBits 0x54 3 29).read s.virtDev * 8 + ((cfgBits 0x52 0 11).read s.virtDev + 1) * 16 ≤ 2 ^ 14 ∧
      2 ^ 14 ≤ (cfgBits 0x58 3 29).read s.virtDev * 8 := by
  intro probed
  obtain ⟨hintx, hmsix, hbits⟩ := @PciConfig.write_bar s (2 ^ 32 - 1) (by decide)
  have htable : (cfgBits 0x54 3 29).read s.virtDev = 0x400 :=
    setting_kept h (show (cfgBits 0x54 3 29, 0x400) ∈ pciSettings basePa by
      simp [pciSettings, pciMsixcapSettings]) fun _ => not_writable_of_lt (by decide)
  have hcount : (cfgBits 0x52 0 11).read s.virtDev = 127 :=
    setting_kept h (show (cfgBits 0x52 0 11, 127) ∈ pciSettings basePa by
      simp [pciSettings, pciMsixcapSettings]) fun _ => not_writable_of_lt (by decide)
  have hpending : (cfgBits 0x58 3 29).read s.virtDev = 0x1000 :=
    setting_kept h (show (cfgBits 0x58 3 29, 0x1000) ∈ pciSettings basePa by
      simp [pciSettings, pciMsixcapSettings]) fun _ => not_writable_of_lt (by decide)
  have hlow : BitField.read ⟨128, 14⟩ probed.virtDev = 4 := by
    rw [← bar_low h]
    apply BitField.read_congr
    intro i hi
    have hin : 128 ≤ i ∧ i < 128 + 14 := hi
    rw [hbits, if_neg (by omega)]
  have hhigh : BitField.read ⟨142, 18⟩ probed.virtDev = 2 ^ 18 - 1 := by
    apply Nat.eq_of_testBit_eq
    intro i
    rw [BitField.testBit_read, hbits, Nat.testBit_two_pow_sub_one, Nat.testBit_two_pow_sub_one]
    by_cases hi : i < 18
    · rw [if_pos (show 142 ≤ 142 + i ∧ 142 + i < 160 by omega)]
      simp [hi]
      omega
    · simp [hi]
  refine ⟨?_, ?_, ?_, ?_, ?_⟩
  · show barSize (BitField.read ⟨128, 14 + 18⟩ probed.virtDev) = 2 ^ 14
    rw [BitField.read_append, hlow, hhigh]
    rfl
  · have hread : (cfgBytes pciBaseAddress0 4).read s.virtDev < 2 ^ 32 := BitField.read_lt ..
    obtain ⟨hintx', hmsix', hbits'⟩ := @PciConfig.write_bar probed _ hread
    refine PciConfig.ext (Nat.eq_of_testBit_eq fun i => ?_) (hintx'.trans hintx) (hmsix'.trans hmsix)
    rw [hbits', hbits]
    by_cases hin : 142 ≤ i ∧ i < 160
    · rw [if_pos hin, testBit_cfgBytes, decide_eq_true (by omega), Bool.true_and]
      show s.virtDev.testBit (128 + (i - 128)) = s.virtDev.testBit i
      rw [Nat.add_sub_of_le (by omega)]
    · rw [if_neg hin, if_neg hin]
  · rw [htable]
  · rw [htable, hcount]
    decide
  · rw [hpending]
    decide

/-- The registers at 4 GiB, which the kernel moves to 512 MiB before it works out the size. -/
theorem bar_sizing_moved :
    let s := (nvmevPciInit 0x100000000).nvmevPciWrite pciBaseAddress0 4 0x20000000
    (pciRuns 0x100000000).Reachable s ∧ barSize ((cfgBytes pciBaseAddress0 4).read
      (s.nvmevPciWrite pciBaseAddress0 4 (2 ^ 32 - 1)).virtDev) = 2 ^ 14 := by
  intro s
  have hreach : (pciRuns 0x100000000).Reachable s :=
    .step (.init rfl) (.write ⟨.inr (.inr rfl), by decide, by decide, by decide⟩)
  exact ⟨hreach, (bar_sizing hreach).1⟩

end Runs

end NvmeVirt

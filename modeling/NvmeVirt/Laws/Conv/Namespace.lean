import NvmeVirt.Conv.Cmd
import NvmeVirt.Laws.Conv.Capacity

/-!
# The instances of a namespace

A page write touches one instance; a read or the buffer transfer only moves clocks, and the PCIe
clock is shared. So an invariant of one instance that page writes keep and that does not look at
clocks (`PageRule`) is an invariant of all instances of a namespace (`NsInv`), and the loops of
`conv_read` and `conv_write` keep it.
-/

set_option autoImplicit false

namespace NvmeVirt

open Outcome

/-- An invariant of the instances that the page writes to the local pages `inside` keep, with the
faults these may stop in. -/
structure PageRule (E : Fault → Prop) (spp : SsdParams) (inside : Nat → Prop)
    (I : ConvFtl → Prop) : Prop where
  settled : ∀ ftl, I ftl → Settled ftl
  sp : ∀ ftl, I ftl → ftl.ssd.sp = spp
  local_lt : ∀ lpn, inside lpn → lpn < spp.ttPgs
  withSsd : ∀ ftl ssd, I ftl → ftl.ssd.SameFlash ssd → I { ftl with ssd }
  write : ∀ ftl lpn stime, I ftl → inside lpn →
    Ensures E (convWritePage ftl lpn stime) fun r => I r.1

/-- The bookkeeping is an invariant of all page writes the range check admits. -/
def SettledWith (spp : SsdParams) (ftl : ConvFtl) : Prop := Settled ftl ∧ ftl.ssd.sp = spp

/-- The bookkeeping is kept by page writes. -/
theorem settled_pageRule {E : Fault → Prop} (spp : SsdParams) (hE : E .nullCurline) :
    PageRule E spp spp.LocalLpn (SettledWith spp) where
  settled _ h := h.1
  sp _ h := h.2
  local_lt _ h := h
  withSsd ftl ssd h hs := ⟨h.1.withSsd hs ftl.wfc ftl.trace, hs.sp.trans h.2⟩
  write ftl lpn stime h hin := by
    obtain ⟨hset, rfl⟩ := h
    apply (convWritePage_ensures hset hin stime (.inl hE)).mono
    intro r hr
    obtain ⟨hset', ⟨ftl₁, hw, hrefill⟩, -⟩ := hr
    exact ⟨hset', hrefill.params.1.trans hw.sp⟩

/-- Free space does not depend on clocks. -/
theorem Steady.withSsd {reserve n : Nat} {cp : ConvParams} {spp : SsdParams} {ftl : ConvFtl}
    (h : Steady reserve n cp spp ftl) {ssd : Ssd} (hs : ftl.ssd.SameFlash ssd) :
    Steady reserve n cp spp { ftl with ssd } := by
  have hflash : ConvFtl.flash { ftl with ssd } = ftl.flash := by
    unfold ConvFtl.flash
    rw [hs.sp, hs.blk]
  have hroomy := h.roomy
  refine ⟨h.settled.withSsd hs ftl.wfc ftl.trace, ?_, hs.sp.trans h.sp, h.cp⟩
  constructor
  · rw [hflash, hs.sp]
    exact hroomy.room
  · exact hroomy.credits_pos
  · rw [hs.sp]
    exact hroomy.credits_le
  · rw [hs.sp]
    exact hroomy.refill_le
  · exact hroomy.mapped

/-- With enough lines in reserve, page writes inside the exported space meet no fault. -/
theorem steady_pageRule {reserve n : Nat} {cp : ConvParams} {spp : SsdParams}
    (ha : Ample reserve n cp spp) :
    PageRule NoFault spp (fun lpn => lpn < n ∧ spp.LocalLpn lpn) (Steady reserve n cp spp) where
  settled _ h := h.settled
  sp _ h := h.sp
  local_lt _ h := h.2
  withSsd _ _ h hs := h.withSsd hs
  write _ _ stime h hin := convWritePage_steady h ha hin.1 hin.2 stime

/-! ## Instances and the shared PCIe model -/

/-- Every instance, seen with the shared PCIe model, satisfies `I`. -/
structure NsInv (I : ConvFtl → Prop) (ns : ConvNs) : Prop where
  parts_pos : 0 < ns.nrParts
  part : ∀ i, i < ns.nrParts → I (ns.part i)

/-- Two states of a namespace of the same shape: nothing but the instances and the clocks differ. -/
structure ConvNs.SameShape (ns₀ ns : ConvNs) : Prop where
  nrParts : ns.nrParts = ns₀.nrParts
  size : ns.size = ns₀.size

/-- The host sees the same contents: only clocks differ. -/
structure ConvNs.SameContents (ns₀ ns : ConvNs) : Prop extends ns₀.SameShape ns where
  writeBuffer : ns.writeBuffer = ns₀.writeBuffer
  ftls : ∀ i, ∃ ssd, ns.ftls i = { ns₀.ftls i with ssd } ∧ ssd.sp = (ns₀.ftls i).ssd.sp ∧
    ssd.blk = (ns₀.ftls i).ssd.blk

namespace ConvNs

variable {ns₀ ns ns' : ConvNs}

/-- Nothing has changed. -/
theorem SameContents.refl (ns : ConvNs) : ns.SameContents ns :=
  ⟨⟨rfl, rfl⟩, rfl, fun _ => ⟨_, rfl, rfl, rfl⟩⟩

/-- One step after the other. -/
theorem SameContents.trans (h : ns₀.SameContents ns) (h' : ns.SameContents ns') :
    ns₀.SameContents ns' := by
  refine ⟨⟨h'.nrParts.trans h.nrParts, h'.size.trans h.size⟩,
    h'.writeBuffer.trans h.writeBuffer, fun i => ?_⟩
  obtain ⟨ssd, hssd, hsp, hblk⟩ := h.ftls i
  obtain ⟨ssd', hssd', hsp', hblk'⟩ := h'.ftls i
  rw [hssd] at hssd' hsp' hblk'
  exact ⟨ssd', hssd', hsp'.trans hsp, hblk'.trans hblk⟩

/-- Putting an instance back with other clocks. -/
theorem SameContents.setPart (ns : ConvNs) (i : Nat) {ssd : Ssd}
    (hs : (ns.part i).ssd.SameFlash ssd) :
    ns.SameContents (ns.setPart i { ns.part i with ssd }) := by
  refine ⟨⟨rfl, rfl⟩, rfl, fun j => ?_⟩
  by_cases hj : j = i
  · subst hj
    refine ⟨ssd, ?_, hs.sp, hs.blk⟩
    show Function.update ns.ftls j _ j = _
    rw [Function.update_self]
    rfl
  · refine ⟨(ns.ftls j).ssd, ?_, rfl, rfl⟩
    show Function.update ns.ftls i _ j = _
    rw [Function.update_of_ne hj]

/-- An instance that was put back. -/
theorem part_setPart_self (ns : ConvNs) (i : Nat) (ftl : ConvFtl) : (ns.setPart i ftl).part i = ftl := by
  unfold part setPart
  dsimp only
  rw [Function.update_self]

/-- The others see the shared model. -/
theorem part_setPart_of_ne (ns : ConvNs) {i j : Nat} (h : j ≠ i) (ftl : ConvFtl) :
    (ns.setPart i ftl).part j =
      { ns.part j with ssd := { (ns.part j).ssd with pcie := ftl.ssd.pcie } } := by
  unfold part setPart
  dsimp only
  rw [Function.update_of_ne h]

end ConvNs

namespace NsInv

variable {E : Fault → Prop} {spp : SsdParams} {inside : Nat → Prop} {I : ConvFtl → Prop}
  {ns : ConvNs}

theorem sp_eq (h : NsInv I ns) (rule : PageRule E spp inside I) : ns.sp = spp :=
  rule.sp (ns.part 0) (h.part 0 h.parts_pos)

theorem idx_lt (h : NsInv I ns) (lpn : Nat) : lpn % ns.nrParts < ns.nrParts :=
  Nat.mod_lt lpn h.parts_pos

/-- The buffer is not part of an instance. -/
theorem withBuffer (h : NsInv I ns) (writeBuffer : Buffer) : NsInv I { ns with writeBuffer } :=
  ⟨h.parts_pos, h.part⟩

/-- A new state of the shared PCIe model. -/
theorem withPcie (h : NsInv I ns) (rule : PageRule E spp inside I) {pcie : ChannelModel}
    (hp : pcie.InWindow) : NsInv I { ns with pcie } := by
  refine ⟨h.parts_pos, fun i hi => ?_⟩
  have hpart := h.part i hi
  have htimed := (rule.settled _ hpart).timed
  exact rule.withSsd (ns.part i) { (ns.part i).ssd with pcie } hpart
    ⟨rfl, rfl, htimed.channels, hp⟩

/-- An instance put back satisfies `I` if the one taken out did; the others meet a new PCIe model. -/
theorem setPart (h : NsInv I ns) (rule : PageRule E spp inside I) {i : Nat} {ftl : ConvFtl}
    (hI : I ftl) : NsInv I (ns.setPart i ftl) := by
  refine ⟨h.parts_pos, fun j hj => ?_⟩
  by_cases hji : j = i
  · rw [hji, ns.part_setPart_self]
    exact hI
  · rw [ns.part_setPart_of_ne hji]
    have hpart := h.part j hj
    have htimed := (rule.settled _ hpart).timed
    have hpcie := (rule.settled _ hI).timed.pcie
    exact rule.withSsd _ _ hpart ⟨rfl, rfl, htimed.channels, hpcie⟩

end NsInv

/-! ## `conv_init_namespace` -/

/-- The parameters `conv_init_namespace` gives every instance. -/
abbrev SsdConfig.partParams (cfg : SsdConfig) (size : Nat) : SsdParams :=
  ssdInitParams cfg size cfg.ssdPartitions

/-- A fresh namespace of a device of `bytes` bytes. -/
structure FreshNs (cfg : SsdConfig) (bytes : Nat) (ns : ConvNs) : Prop where
  nrParts : ns.nrParts = cfg.ssdPartitions
  size : ns.size = convNsSize cfg (cfg.partParams bytes) bytes
  writeBuffer : ns.writeBuffer = bufferInit (cfg.partParams bytes).writeBufferSize
  wp : ∀ i, i < ns.nrParts → ((ns.ftls i).wp .userIo).pg = 0

/-- A new namespace. -/
theorem convInitNamespace_ensures {E : Fault → Prop} {cfg : SsdConfig} {bytes : Nat}
    {inside : Nat → Prop} {I : ConvFtl → Prop} (rule : PageRule E (cfg.partParams bytes) inside I)
    (w : (cfg.partParams bytes).WellFormed) (hparts : 0 < cfg.ssdPartitions)
    (hinit : Ensures E (convInitFtl (convInitParams cfg (cfg.partParams bytes))
      (ssdInit (cfg.partParams bytes))) I) :
    Ensures E (convInitNamespace cfg bytes) fun ns => NsInv I ns ∧ FreshNs cfg bytes ns := by
  unfold convInitNamespace
  have hfresh := convInitFtl_ensures (E := fun _ => True) w
    (convInitParams cfg (cfg.partParams bytes)) (.inl trivial)
  refine Ensures.bind (.forRange
    (I := fun k ftls => ∀ i, i < k → I (ftls i) ∧ ((ftls i).wp .userIo).pg = 0) ?_ ?_) ?_
  · intro i hi
    exact absurd hi (Nat.not_lt_zero i)
  · intro i _ ftls h
    apply (hinit.and hfresh).bind
    intro ftl hftl
    apply Ensures.pure
    intro j hj
    by_cases hji : j = i
    · rw [hji, Function.update_self]
      exact ⟨hftl.1, hftl.2.wp .userIo⟩
    · rw [Function.update_of_ne hji]
      exact h j (by omega)
  · intro ftls h
    refine .pure ⟨⟨hparts, fun i hi => ?_⟩, rfl, rfl, rfl, fun i hi => (h i hi).2⟩
    have hI := (h i hi).1
    have htimed := (rule.settled _ hI).timed
    exact rule.withSsd (ftls i) { (ftls i).ssd with pcie := _ } hI
      ⟨rfl, rfl, htimed.channels, chmodelInit_inWindow _⟩

end NvmeVirt

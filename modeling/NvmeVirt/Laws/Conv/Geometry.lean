import Mathlib.Data.Finset.Prod
import NvmeVirt.Lib.Radix
import NvmeVirt.Lib.Tally
import NvmeVirt.Conv.Pages

/-!
# Pages, page numbers and the order a line is written in

`pgidx` and `writeIdx` are mixed radix numbers of the address: the first numbers all pages of the
device, the second the pages of one line in the order a write pointer visits them.
-/

set_option autoImplicit false

namespace NvmeVirt

/-- A page is valid if every field is below its bound. -/
theorem validPpa_iff {spp : SsdParams} {p : Ppa} :
    validPpa spp p = true ↔ p.ch < spp.nchs ∧ p.lun < spp.lunsPerCh ∧ p.pl < spp.plsPerLun ∧
      p.blk < spp.blksPerPl ∧ p.pg < spp.pgsPerBlk := by
  simp only [validPpa, Bool.and_eq_true, decide_eq_true_eq, and_assoc]

/-- Two addresses with the same block and page number are one. -/
theorem Ppa.ext_blk {p q : Ppa} (hb : p.toBlkId = q.toBlkId) (hpg : p.pg = q.pg) : p = q := by
  cases p
  cases q
  subst hb hpg
  rfl

/-- The bit fields hold every address of the geometry. -/
theorem SsdParams.WellFormed.ofFields {spp : SsdParams} (w : spp.WellFormed) {ch lun blk pg : Nat}
    (hch : ch < spp.nchs) (hlun : lun < spp.lunsPerCh) (hblk : blk < spp.blksPerPl)
    (hpg : pg < spp.pgsPerBlk) : Ppa.ofFields ch lun 0 blk pg = ⟨⟨ch, lun, 0, blk⟩, pg⟩ := by
  have := w.nchs_le
  have := w.lunsPerCh_le
  have := w.blksPerPl_le
  have := w.pgsPerBlk_le
  unfold Ppa.ofFields
  rw [Nat.mod_eq_of_lt (by omega : ch < 2 ^ 8), Nat.mod_eq_of_lt (by omega : lun < 2 ^ 8),
    Nat.mod_eq_of_lt (by omega : blk < 2 ^ 16), Nat.mod_eq_of_lt (by omega : pg < 2 ^ 16)]
  rfl

/-! ## The pages of the device, of a line and of a block -/

namespace SsdParams

/-- All pages of the device. -/
def pages (spp : SsdParams) : Finset Ppa :=
  ((Finset.range spp.nchs ×ˢ Finset.range spp.lunsPerCh) ×ˢ
    (Finset.range spp.plsPerLun ×ˢ
      (Finset.range spp.blksPerPl ×ˢ Finset.range spp.pgsPerBlk))).image
    fun t => { ch := t.1.1, lun := t.1.2, pl := t.2.1, blk := t.2.2.1, pg := t.2.2.2 }

/-- The pages of line `l`. -/
def linePages (spp : SsdParams) (l : Nat) : Finset Ppa := spp.pages.filter (·.blk = l)

/-- The pages of block `b`. -/
def blkPages (spp : SsdParams) (b : BlkId) : Finset Ppa := spp.pages.filter (·.toBlkId = b)

variable {spp : SsdParams}

/-- The pages of the device. -/
theorem mem_pages {p : Ppa} : p ∈ spp.pages ↔ validPpa spp p = true := by
  simp only [pages, Finset.mem_image, Finset.mem_product, Finset.mem_range, validPpa_iff,
    Prod.exists]
  constructor
  · rintro ⟨ch, lun, pl, blk, pg, ⟨⟨h1, h2⟩, h3, h4, h5⟩, rfl⟩
    exact ⟨h1, h2, h3, h4, h5⟩
  · rintro ⟨h1, h2, h3, h4, h5⟩
    exact ⟨p.ch, p.lun, p.pl, p.blk, p.pg, ⟨⟨h1, h2⟩, h3, h4, h5⟩, rfl⟩

/-- The pages of a line. -/
theorem mem_linePages {p : Ppa} {l : Nat} :
    p ∈ spp.linePages l ↔ validPpa spp p = true ∧ p.blk = l := by
  rw [linePages, Finset.mem_filter, mem_pages]

/-- The pages of a block. -/
theorem mem_blkPages {p : Ppa} {b : BlkId} :
    p ∈ spp.blkPages b ↔ validPpa spp p = true ∧ p.toBlkId = b := by
  rw [blkPages, Finset.mem_filter, mem_pages]

/-- A line has `pgs_per_line` pages. -/
theorem WellFormed.card_linePages (w : spp.WellFormed) {l : Nat} (hl : l < spp.blksPerPl) :
    (spp.linePages l).card = spp.pgsPerLine := by
  have himage : spp.linePages l =
      ((Finset.range spp.nchs ×ˢ Finset.range spp.lunsPerCh) ×ˢ Finset.range spp.pgsPerBlk).image
        fun t => ⟨⟨t.1.1, t.1.2, 0, l⟩, t.2⟩ := by
    ext p
    simp only [mem_linePages, validPpa_iff, w.plsPerLun_one, Finset.mem_image, Finset.mem_product,
      Finset.mem_range, Prod.exists]
    constructor
    · rintro ⟨⟨h1, h2, h3, _, h5⟩, rfl⟩
      refine ⟨p.ch, p.lun, p.pg, ⟨⟨h1, h2⟩, h5⟩, ?_⟩
      have hpl : p.pl = 0 := by omega
      exact Ppa.ext_blk (by rw [← hpl]) rfl
    · rintro ⟨ch, lun, pg, ⟨⟨h1, h2⟩, h5⟩, rfl⟩
      exact ⟨⟨h1, h2, Nat.zero_lt_one, hl, h5⟩, rfl⟩
  rw [himage, Finset.card_image_of_injective, Finset.card_product, Finset.card_product,
    Finset.card_range, Finset.card_range, Finset.card_range, w.pgsPerLine_eq, Nat.mul_comm spp.nchs]
  rintro ⟨⟨ch, lun⟩, pg⟩ ⟨⟨ch', lun'⟩, pg'⟩ h
  simp only [Ppa.mk.injEq, BlkId.mk.injEq] at h
  obtain ⟨⟨rfl, rfl, _, _⟩, rfl⟩ := h
  rfl

/-! ## Page numbers -/

/-- The digits of a page number, and their bases. -/
def pgDigits (p : Ppa) : List Nat := [p.pg, p.blk, p.pl, p.lun, p.ch]

def pgBases (spp : SsdParams) : List Nat :=
  [spp.pgsPerBlk, spp.blksPerPl, spp.plsPerLun, spp.lunsPerCh, spp.nchs]

/-- The fields of a page are digits. -/
theorem digits_pgidx {p : Ppa} (h : validPpa spp p = true) :
    Radix.Digits (pgDigits p) spp.pgBases := by
  obtain ⟨h1, h2, h3, h4, h5⟩ := validPpa_iff.mp h
  exact .cons h5 (.cons h4 (.cons h3 (.cons h2 (.cons h1 .nil))))

/-- Valid addresses whose digits have one value are one. -/
theorem pgDigits_inj {p q : Ppa} (hp : validPpa spp p = true) (hq : validPpa spp q = true)
    (h : Radix.value (pgDigits p) spp.pgBases = Radix.value (pgDigits q) spp.pgBases) : p = q := by
  have hd := Radix.value_inj (digits_pgidx hp) (digits_pgidx hq) h
  simp only [pgDigits, List.cons.injEq] at hd
  obtain ⟨hpg, hblk, hpl, hlun, hch, _⟩ := hd
  cases p with | mk b pg => cases q with | mk b' pg' =>
  cases b
  cases b'
  simp_all

/-- Every number below the product of the dimensions is the value of a valid address. -/
theorem exists_pgDigits {n : Nat} (h : n < spp.pgBases.prod) :
    ∃ p, validPpa spp p = true ∧ Radix.value (pgDigits p) spp.pgBases = n := by
  obtain ⟨ds, hds, hn⟩ := Radix.exists_digits h
  rcases hds with _ | ⟨h5, _ | ⟨h4, _ | ⟨h3, _ | ⟨h2, _ | ⟨h1, _ | _⟩⟩⟩⟩⟩
  exact ⟨⟨⟨_, _, _, _⟩, _⟩, validPpa_iff.mpr ⟨h1, h2, h3, h4, h5⟩, hn⟩

/-- The page number is their value. -/
theorem WellFormed.pgidx_value (w : spp.WellFormed) (p : Ppa) :
    spp.pgidx p = Radix.value (pgDigits p) spp.pgBases := by
  simp only [pgidx, w.pgsPerCh_eq, w.pgsPerLun_eq, w.pgsPerPl_eq, pgDigits, pgBases, Radix.value]
  ring

/-- A valid address has a page number below `tt_pgs`. -/
theorem WellFormed.pgidx_lt (w : spp.WellFormed) {p : Ppa} (h : validPpa spp p = true) :
    spp.pgidx p < spp.ttPgs := by
  rw [w.pgidx_value]
  refine (Radix.value_lt (digits_pgidx h)).trans_eq ?_
  simp only [pgBases, List.prod_cons, List.prod_nil, w.ttPgs_eq, w.pgsPerCh_eq, w.pgsPerLun_eq,
    w.pgsPerPl_eq]
  ring

/-- Valid addresses with one page number are one. -/
theorem WellFormed.pgidx_inj (w : spp.WellFormed) {p q : Ppa} (hp : validPpa spp p = true)
    (hq : validPpa spp q = true) (h : spp.pgidx p = spp.pgidx q) : p = q := by
  rw [w.pgidx_value, w.pgidx_value] at h
  exact pgDigits_inj hp hq h

/-! ## The order of writing -/

/-- The digits of a position in a line: the page in its wordline, the channel, the LUN, the
wordline. -/
def writeDigits (spp : SsdParams) (ch lun pg : Nat) : List Nat :=
  [pg % spp.pgsPerOneshotpg, ch, lun, pg / spp.pgsPerOneshotpg]

def writeBases (spp : SsdParams) : List Nat :=
  [spp.pgsPerOneshotpg, spp.nchs, spp.lunsPerCh, spp.oneshotpgsPerBlk]

/-- How many pages of its line are written before this one. -/
def writeIdx (spp : SsdParams) (ch lun pg : Nat) : Nat :=
  Radix.value (spp.writeDigits ch lun pg) spp.writeBases

/-- A line has as many positions as pages. -/
theorem WellFormed.prod_writeBases (w : spp.WellFormed) : spp.writeBases.prod = spp.pgsPerLine := by
  simp only [writeBases, List.prod_cons, List.prod_nil, w.pgsPerLine_eq, w.pgsPerBlk_oneshot]
  ring

theorem WellFormed.digits_write (w : spp.WellFormed) {ch lun pg : Nat} (hch : ch < spp.nchs)
    (hlun : lun < spp.lunsPerCh) (hpg : pg < spp.pgsPerBlk) :
    Radix.Digits (spp.writeDigits ch lun pg) spp.writeBases := by
  have hdiv : pg / spp.pgsPerOneshotpg < spp.oneshotpgsPerBlk := by
    refine Nat.div_lt_of_lt_mul ?_
    rw [← w.pgsPerBlk_oneshot]
    exact hpg
  exact .cons (Nat.mod_lt _ w.pgsPerOneshotpg_pos) (.cons hch (.cons hlun (.cons hdiv .nil)))

/-- The position of a page is below that. -/
theorem WellFormed.writeIdx_lt (w : spp.WellFormed) {p : Ppa} (h : validPpa spp p = true) :
    spp.writeIdx p.ch p.lun p.pg < spp.pgsPerLine := by
  obtain ⟨h1, h2, _, _, h5⟩ := validPpa_iff.mp h
  rw [← w.prod_writeBases]
  exact Radix.value_lt (w.digits_write h1 h2 h5)

/-- A line has one page at each position. -/
theorem WellFormed.writeIdx_inj (w : spp.WellFormed) {p q : Ppa} (hp : validPpa spp p = true)
    (hq : validPpa spp q = true) (hb : p.blk = q.blk)
    (h : spp.writeIdx p.ch p.lun p.pg = spp.writeIdx q.ch q.lun q.pg) : p = q := by
  obtain ⟨p1, p2, p3, _, p5⟩ := validPpa_iff.mp hp
  obtain ⟨q1, q2, q3, _, q5⟩ := validPpa_iff.mp hq
  have hd := Radix.value_inj (w.digits_write p1 p2 p5) (w.digits_write q1 q2 q5) h
  simp only [writeDigits, List.cons.injEq] at hd
  obtain ⟨hmod, hch, hlun, hdiv, _⟩ := hd
  have hpg : p.pg = q.pg := by
    rw [← Nat.div_add_mod p.pg spp.pgsPerOneshotpg, hmod, hdiv, Nat.div_add_mod]
  have hpl : p.pl = q.pl := by
    rw [w.plsPerLun_one] at p3 q3
    omega
  refine Ppa.ext_blk ?_ hpg
  cases hpb : p.toBlkId
  cases hqb : q.toBlkId
  simp_all

end SsdParams

end NvmeVirt

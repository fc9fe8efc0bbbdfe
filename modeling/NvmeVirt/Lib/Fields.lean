import Mathlib.Algebra.Order.Ring.Nat
import Mathlib.Data.Nat.ModEq
import Mathlib.Tactic.Ring

/-!
# Bit fields of a word

A field is a run of bits of a word. A write replaces its bits by the low bits of the value and leaves
the others: the field reads back what was written, a field beside it reads as before. Two fields one
above the other read as one field of both widths.
-/

set_option autoImplicit false

namespace NvmeVirt

/-- `width` bits from bit `off` on. -/
structure BitField where
  off : Nat
  width : Nat

namespace BitField

variable {f g : BitField} {v w : Nat}

def read (f : BitField) (w : Nat) : Nat := w / 2 ^ f.off % 2 ^ f.width

def write (f : BitField) (v w : Nat) : Nat :=
  w % 2 ^ f.off + 2 ^ f.off * (v % 2 ^ f.width + 2 ^ f.width * (w / 2 ^ (f.off + f.width)))

/-- `f` lies below `g`. -/
def Below (f g : BitField) : Prop := f.off + f.width ≤ g.off

instance (f g : BitField) : Decidable (f.Below g) := inferInstanceAs (Decidable (_ ≤ _))

theorem read_lt (f : BitField) (w : Nat) : f.read w < 2 ^ f.width :=
  Nat.mod_lt _ (Nat.two_pow_pos f.width)

/-- The bits from the field on. -/
theorem write_div (f : BitField) (v w : Nat) :
    f.write v w / 2 ^ f.off = v % 2 ^ f.width + 2 ^ f.width * (w / 2 ^ (f.off + f.width)) := by
  have hlow : w % 2 ^ f.off < 2 ^ f.off := Nat.mod_lt _ (Nat.two_pow_pos f.off)
  unfold write
  rw [Nat.add_mul_div_left _ _ (Nat.two_pow_pos f.off), Nat.div_eq_of_lt hlow, Nat.zero_add]

/-- A field reads back what was written to it. -/
@[simp] theorem read_write (f : BitField) (v w : Nat) : f.read (f.write v w) = v % 2 ^ f.width := by
  unfold read
  rw [write_div, Nat.add_mul_mod_self_left, Nat.mod_mod]

/-- A write leaves the bits below the field. -/
theorem write_mod (f : BitField) (v w : Nat) : f.write v w % 2 ^ f.off = w % 2 ^ f.off := by
  unfold write
  rw [Nat.add_mul_mod_self_left, Nat.mod_mod]

/-- A write leaves the bits above the field. -/
theorem write_div_above (f : BitField) (v w : Nat) :
    f.write v w / 2 ^ (f.off + f.width) = w / 2 ^ (f.off + f.width) := by
  have hlow : v % 2 ^ f.width < 2 ^ f.width := Nat.mod_lt _ (Nat.two_pow_pos f.width)
  rw [pow_add, ← Nat.div_div_eq_div_mul, write_div, ← pow_add,
    Nat.add_mul_div_left _ _ (Nat.two_pow_pos f.width), Nat.div_eq_of_lt hlow, Nat.zero_add]

/-- A field depends on no bit above it. -/
theorem read_mod {k : Nat} (h : f.off + f.width ≤ k) (w : Nat) : f.read (w % 2 ^ k) = f.read w := by
  obtain ⟨j, rfl⟩ := Nat.exists_eq_add_of_le h
  unfold read
  rw [show f.off + f.width + j = f.off + (f.width + j) by omega, pow_add,
    Nat.mod_mul_right_div_self, Nat.mod_mod_of_dvd _ (pow_dvd_pow 2 (Nat.le_add_right _ _))]

/-- A field depends on no bit below it. -/
theorem read_div {k : Nat} (h : k ≤ f.off) (w : Nat) :
    f.read w = w / 2 ^ k / 2 ^ (f.off - k) % 2 ^ f.width := by
  unfold read
  rw [Nat.div_div_eq_div_mul, ← pow_add, Nat.add_sub_of_le h]

theorem read_write_below (h : g.Below f) : g.read (f.write v w) = g.read w := by
  rw [← read_mod h, write_mod, read_mod h]

theorem read_write_above (h : f.Below g) : g.read (f.write v w) = g.read w := by
  rw [read_div h, write_div_above, ← read_div h]

theorem testBit_read (f : BitField) (w i : Nat) :
    (f.read w).testBit i = (decide (i < f.width) && w.testBit (f.off + i)) := by
  unfold read
  rw [Nat.testBit_mod_two_pow, Nat.testBit_div_two_pow, Nat.add_comm]

/-- A write sets the bits of the field, and no others. -/
theorem testBit_write (f : BitField) (v w i : Nat) : (f.write v w).testBit i =
    if f.off ≤ i ∧ i < f.off + f.width then v.testBit (i - f.off) else w.testBit i := by
  split
  · rename_i hin
    have hbit := congrArg (fun x => x.testBit (i - f.off)) (read_write f v w)
    simp only [testBit_read, Nat.testBit_mod_two_pow, Nat.add_sub_of_le hin.1] at hbit
    have hlt : i - f.off < f.width := by omega
    simpa [hlt] using hbit
  · rename_i hout
    by_cases hlow : i < f.off
    · have hbit := congrArg (fun x => x.testBit i) (write_mod f v w)
      simpa [Nat.testBit_mod_two_pow, hlow] using hbit
    · have hhigh : f.off + f.width ≤ i := by omega
      have hbit := congrArg (fun x => x.testBit (i - (f.off + f.width))) (write_div_above f v w)
      simpa [Nat.testBit_div_two_pow, Nat.sub_add_cancel hhigh] using hbit

/-- Two fields one above the other read as one. -/
theorem read_append (off low high w : Nat) :
    read ⟨off, low + high⟩ w = read ⟨off, low⟩ w + 2 ^ low * read ⟨off + low, high⟩ w := by
  unfold read
  rw [pow_add 2 off low, ← Nat.div_div_eq_div_mul, pow_add 2 low high, Nat.mod_mul]

/-! ## Several fields -/

/-- The values are written to their fields one after the other. -/
def writeAll : List (BitField × Nat) → Nat → Nat
  | [], w => w
  | (f, v) :: l, w => writeAll l (f.write v w)

/-- No bit is in both. -/
def Apart (f g : BitField) : Prop := f.Below g ∨ g.Below f

instance (f g : BitField) : Decidable (f.Apart g) := inferInstanceAs (Decidable (_ ∨ _))

theorem read_write_apart (h : f.Apart g) : g.read (f.write v w) = g.read w :=
  h.elim read_write_above read_write_below

theorem read_writeAll_apart {l : List (BitField × Nat)} (h : ∀ p ∈ l, p.1.Apart g) :
    g.read (writeAll l w) = g.read w := by
  induction l generalizing w with
  | nil => rfl
  | cons p l ih =>
    rw [writeAll, ih fun p' hp' => h p' (List.mem_cons_of_mem _ hp'),
      read_write_apart (h p List.mem_cons_self)]

/-- Fields that are apart read back what was written to them. -/
theorem read_writeAll {l : List (BitField × Nat)} (hapart : l.Pairwise fun p p' => p'.1.Apart p.1)
    (h : (f, v) ∈ l) : f.read (writeAll l w) = v % 2 ^ f.width := by
  induction l generalizing w with
  | nil => cases h
  | cons p l ih =>
    obtain ⟨hfirst, hrest⟩ := List.pairwise_cons.mp hapart
    rw [writeAll]
    rcases List.mem_cons.mp h with rfl | hmem
    · rw [read_writeAll_apart hfirst, read_write]
    · exact ih hrest hmem

end BitField

end NvmeVirt

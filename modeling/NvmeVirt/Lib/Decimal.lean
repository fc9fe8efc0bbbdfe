import Mathlib.Algebra.Order.Field.Rat
import Mathlib.Tactic.FieldSimp
import Mathlib.Tactic.Ring

/-!
# Decimal numbers as text

`ofInt` is what the conversion `%lld` prints and `padded` what `%0*lld` prints. `read` takes a text
`whole.frac`, with a sign in front or not, as the decimal number it spells. A fraction printed to its
full width reads back as that fraction with the sign of the whole part (`read_fixed`): a whole part
that is 0 has none.
-/

set_option autoImplicit false

namespace NvmeVirt.Decimal

/-! ## Printing -/

def sign (n : Int) : List Char := if n < 0 then ['-'] else []

/-- `%lld`. -/
def ofInt (n : Int) : List Char := sign n ++ Nat.toDigits 10 n.natAbs

/-- `%0*lld`. -/
def padded (width : Nat) (n : Int) : List Char :=
  let digits := Nat.toDigits 10 n.natAbs
  sign n ++ List.replicate (width - (sign n).length - digits.length) '0' ++ digits

/-! ## Reading -/

/-- The number the digits spell. -/
def readDigits (digits : List Char) : Nat := Nat.ofDigitChars 10 digits 0

/-- The decimal number `whole.frac`. -/
def readUnsigned (text : List Char) : ℚ :=
  let frac := (text.dropWhile (· ≠ '.')).tail
  readDigits (text.takeWhile (· ≠ '.')) + readDigits frac / 10 ^ frac.length

def read : List Char → ℚ
  | '-' :: text => -readUnsigned text
  | text => readUnsigned text

/-! ## What was printed reads back -/

theorem ne_point {n : Nat} {c : Char} (h : c ∈ Nat.toDigits 10 n) : c ≠ '.' := by
  rintro rfl
  have hdigit := Nat.isDigit_of_mem_toDigits (by decide) (by decide) h
  exact absurd hdigit (by decide)

theorem ne_minus {n : Nat} {c : Char} (h : c ∈ Nat.toDigits 10 n) : c ≠ '-' := by
  rintro rfl
  have hdigit := Nat.isDigit_of_mem_toDigits (by decide) (by decide) h
  exact absurd hdigit (by decide)

/-- The whole part ends at the point. -/
theorem readUnsigned_fixed (whole : Nat) (frac : List Char) :
    readUnsigned (Nat.toDigits 10 whole ++ '.' :: frac) =
      whole + readDigits frac / 10 ^ frac.length := by
  have hdigits : ∀ c ∈ Nat.toDigits 10 whole, decide (c ≠ '.') = true :=
    fun c hc => decide_eq_true (ne_point hc)
  unfold readUnsigned
  rw [List.takeWhile_append_of_pos hdigits, List.dropWhile_append_of_pos hdigits,
    List.takeWhile_cons_of_neg (by decide), List.dropWhile_cons_of_neg (by decide),
    List.append_nil, List.tail_cons]
  unfold readDigits
  rw [Nat.ofDigitChars_ten_toDigits]

/-- A text of digits has no sign to read. -/
theorem read_digits (whole : Nat) (rest : List Char) :
    read (Nat.toDigits 10 whole ++ rest) = readUnsigned (Nat.toDigits 10 whole ++ rest) := by
  cases hdigits : Nat.toDigits 10 whole with
  | nil => exact absurd hdigits Nat.toDigits_ne_nil
  | cons c digits =>
    have hc : c ≠ '-' := ne_minus (n := whole) (by rw [hdigits]; exact List.mem_cons_self)
    rw [List.cons_append]
    unfold read
    split
    · rename_i text heq
      exact absurd (List.cons.inj heq).1 hc
    · rfl

/-- The digits of a number below `10 ^ width`, padded to the width. -/
theorem padded_digits {width frac : Nat} (hwidth : 0 < width) (h : frac < 10 ^ width) :
    readDigits (padded width frac) = frac ∧ (padded width frac).length = width := by
  have hlen : (Nat.toDigits 10 frac).length ≤ width :=
    (Nat.length_toDigits_le_iff (by decide) hwidth).mpr h
  have hsign : sign (frac : Int) = [] := if_neg (Int.natCast_nonneg frac).not_gt
  have hpad : padded width frac =
      List.replicate (width - (Nat.toDigits 10 frac).length) '0' ++ Nat.toDigits 10 frac := by
    unfold padded
    rw [hsign]
    rfl
  rw [hpad]
  constructor
  · unfold readDigits
    rw [Nat.ofDigitChars_append, Nat.ofDigitChars_replicate_zero, Nat.mul_zero,
      Nat.ofDigitChars_ten_toDigits]
  · rw [List.length_append, List.length_replicate]
    omega

/-- The sign the whole part has in front of it. -/
def signOf (whole : Int) : ℚ := if whole < 0 then -1 else 1

/-- A fixed-point text reads as its parts, under the sign of the whole part. -/
theorem read_fixed (whole : Int) {width frac : Nat} (hwidth : 0 < width) (h : frac < 10 ^ width) :
    read (ofInt whole ++ '.' :: padded width frac) =
      signOf whole * (whole.natAbs + frac / 10 ^ width) := by
  obtain ⟨hread, hlength⟩ := padded_digits hwidth h
  have hparts : readUnsigned (Nat.toDigits 10 whole.natAbs ++ '.' :: padded width frac) =
      whole.natAbs + frac / 10 ^ width := by
    rw [readUnsigned_fixed, hread, hlength]
  unfold ofInt sign signOf
  by_cases hneg : whole < 0
  · rw [if_pos hneg, if_pos hneg, neg_one_mul, ← hparts]
    rfl
  · rw [if_neg hneg, if_neg hneg, List.nil_append, read_digits, hparts, one_mul]

end NvmeVirt.Decimal

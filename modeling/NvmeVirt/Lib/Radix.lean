import Mathlib.Data.List.Forall2
import Mathlib.Algebra.BigOperators.Ring.List
import Mathlib.Tactic.Ring

/-!
# Mixed radix numbers

A list of digits, least significant first, with a list of bases. `succ` is the odometer: it steps
the first digit that does not overflow and resets those before it.
-/

set_option autoImplicit false

namespace NvmeVirt.Radix

/-- The number the digits `ds` stand for in the bases `bs`. -/
def value : (ds bs : List Nat) → Nat
  | d :: ds, b :: bs => d + b * value ds bs
  | _, _ => 0

/-- Every digit is below its base. -/
abbrev Digits (ds bs : List Nat) : Prop := List.Forall₂ (· < ·) ds bs

/-- One step of the odometer, none when every digit is at its greatest. -/
def succ : (ds bs : List Nat) → Option (List Nat)
  | d :: ds, b :: bs => if d + 1 < b then some ((d + 1) :: ds) else (succ ds bs).map (0 :: ·)
  | _, _ => none

theorem value_lt {ds bs : List Nat} (h : Digits ds bs) : value ds bs < bs.prod := by
  induction h with
  | nil => exact Nat.zero_lt_one
  | @cons d b ds bs hd _ ih =>
    rw [value, List.prod_cons]
    calc d + b * value ds bs < b + b * value ds bs := by omega
      _ = b * (value ds bs + 1) := by ring
      _ ≤ b * bs.prod := Nat.mul_le_mul_left b ih

/-- A number has one digit list. -/
theorem value_inj {ds ds' bs : List Nat} (h : Digits ds bs) (h' : Digits ds' bs)
    (he : value ds bs = value ds' bs) : ds = ds' := by
  induction h generalizing ds' with
  | nil => cases h'; rfl
  | @cons d b ds bs hd _ ih =>
    cases h' with
    | @cons d' _ ds' _ hd' h' =>
      simp only [value] at he
      have hdd : d = d' := by
        have := congrArg (· % b) he
        simpa [Nat.add_mul_mod_self_left, Nat.mod_eq_of_lt hd, Nat.mod_eq_of_lt hd'] using this
      subst hdd
      have hv : value ds bs = value ds' bs :=
        Nat.eq_of_mul_eq_mul_left (Nat.zero_lt_of_lt hd) (Nat.add_left_cancel he)
      rw [ih h' hv]

/-- The odometer adds one and keeps the digits below their bases. -/
theorem value_succ {ds bs ds' : List Nat} (h : Digits ds bs) (hs : succ ds bs = some ds') :
    value ds' bs = value ds bs + 1 ∧ Digits ds' bs := by
  induction h generalizing ds' with
  | nil => cases hs
  | @cons d b ds bs hd ht ih =>
    unfold succ at hs
    split at hs
    · rename_i hlt
      cases hs
      exact ⟨by simp only [value]; omega, .cons hlt ht⟩
    · rename_i hge
      obtain ⟨rest, hr, rfl⟩ := Option.map_eq_some_iff.mp hs
      obtain ⟨hv, hdig⟩ := ih hr
      refine ⟨?_, .cons (Nat.zero_lt_of_lt hd) hdig⟩
      have hb : b = d + 1 := by omega
      simp only [value, hv]
      rw [hb]
      ring

/-- The odometer stops at the last number. -/
theorem value_last {ds bs : List Nat} (h : Digits ds bs) (hs : succ ds bs = none) :
    value ds bs + 1 = bs.prod := by
  induction h with
  | nil => rfl
  | @cons d b ds bs hd ht ih =>
    unfold succ at hs
    split at hs
    · cases hs
    · have hb : b = d + 1 := by omega
      have hrest := ih (Option.map_eq_none_iff.mp hs)
      rw [List.prod_cons, ← hrest]
      simp only [value]
      rw [hb]
      ring

/-- The digits of `n` in the bases `bs`. -/
def digits : (n : Nat) → (bs : List Nat) → List Nat
  | n, b :: bs => n % b :: digits (n / b) bs
  | _, [] => []

/-- A number below the product of the bases is the value of its digits. -/
theorem value_digits {n : Nat} {bs : List Nat} (h : n < bs.prod) : value (digits n bs) bs = n := by
  induction bs generalizing n with
  | nil =>
    rw [List.prod_nil] at h
    exact (Nat.lt_one_iff.mp h).symm
  | cons b bs ih =>
    rw [List.prod_cons] at h
    have hrest := ih (Nat.div_lt_of_lt_mul h)
    rw [digits, value, hrest, Nat.mod_add_div]

theorem digits_lt {bs : List Nat} (h : ∀ b ∈ bs, 0 < b) (n : Nat) : Digits (digits n bs) bs := by
  induction bs generalizing n with
  | nil => exact .nil
  | cons b bs ih =>
    have hb := Nat.mod_lt n (h b List.mem_cons_self)
    exact .cons hb (ih (fun b' hb' => h b' (List.mem_cons_of_mem _ hb')) _)

/-- Every number below the product of the bases has digits. -/
theorem exists_digits {n : Nat} {bs : List Nat} (h : n < bs.prod) :
    ∃ ds, Digits ds bs ∧ value ds bs = n := by
  refine ⟨digits n bs, digits_lt (fun b hb => ?_) n, value_digits h⟩
  have hprod : bs.prod ≠ 0 := Nat.ne_zero_of_lt h
  exact Nat.pos_of_ne_zero fun hzero => hprod (List.prod_eq_zero (hzero ▸ hb))

/-- Counting inside a digit. -/
theorem succ_div_mod {a b : Nat} (h : a % b + 1 < b) : (a + 1) / b = a / b ∧ (a + 1) % b = a % b + 1 := by
  have hmod : (a + 1) % b = a % b + 1 := by
    rw [Nat.add_mod, Nat.mod_eq_of_lt (by omega : 1 < b), Nat.mod_eq_of_lt h]
  exact ⟨Nat.succ_div_of_mod_ne_zero (by omega), hmod⟩

end NvmeVirt.Radix

import Mathlib.Algebra.BigOperators.Intervals
import Mathlib.Tactic.Common

/-!
# A window of a timeline on a ring

The `n` slots of a ring stand for the `n` intervals of an endless timeline from the present one on.
A slot holds what is left of a cap once the charges to its interval are paid. When the window moves
on, the slots it leaves come to stand for the farthest intervals, and are filled up.
-/

set_option autoImplicit false

namespace NvmeVirt

/-! ## Slots -/

/-- The slot that stands for the `d`-th interval. -/
def ringSlot (n head d : Nat) : Nat := (head + d) % n

section Slots

variable {n head d e : Nat}

theorem ringSlot_lt (hn : 0 < n) : ringSlot n head d < n := Nat.mod_lt _ hn

theorem ringSlot_of_lt (h : head + d < n) : ringSlot n head d = head + d := Nat.mod_eq_of_lt h

theorem ringSlot_of_wrap (hhead : head < n) (hd : d ≤ n) (h : n ≤ head + d) :
    ringSlot n head d = head + d - n := by
  unfold ringSlot
  rw [Nat.mod_eq_sub_mod h, Nat.mod_eq_of_lt (by omega)]

theorem ringSlot_ringSlot : ringSlot n (ringSlot n head d) e = ringSlot n head (d + e) := by
  unfold ringSlot
  rw [Nat.mod_add_mod, Nat.add_assoc]

theorem ringSlot_add_size : ringSlot n head (n + d) = ringSlot n head d := by
  unfold ringSlot
  rw [Nat.add_left_comm, Nat.add_mod_left]

theorem ringSlot_inj (hhead : head < n) (hd : d < n) (he : e < n)
    (h : ringSlot n head d = ringSlot n head e) : d = e := by
  obtain hdlt | hdge := Nat.lt_or_ge (head + d) n
  · obtain helt | hege := Nat.lt_or_ge (head + e) n
    · rw [ringSlot_of_lt hdlt, ringSlot_of_lt helt] at h
      omega
    · rw [ringSlot_of_lt hdlt, ringSlot_of_wrap hhead he.le hege] at h
      omega
  · obtain helt | hege := Nat.lt_or_ge (head + e) n
    · rw [ringSlot_of_wrap hhead hd.le hdge, ringSlot_of_lt helt] at h
      omega
    · rw [ringSlot_of_wrap hhead hd.le hdge, ringSlot_of_wrap hhead he.le hege] at h
      omega

/-- Only the last slot is followed by the head. -/
theorem ringSlot_succ_eq_head (hhead : head < n) (hd : d < n) :
    (ringSlot n head d + 1) % n = head ↔ d + 1 = n := by
  have hsucc : (ringSlot n head d + 1) % n = ringSlot n head (d + 1) := Nat.mod_add_mod ..
  rw [hsucc]
  constructor
  · intro h
    by_contra hne
    have hzero : ringSlot n head (d + 1) = ringSlot n head 0 := by
      rw [h, ringSlot_of_lt (show head + 0 < n from hhead), Nat.add_zero]
    have hd0 := ringSlot_inj hhead (by omega) (by omega) hzero
    omega
  · intro h
    have hwrap : ringSlot n head n = ringSlot n head 0 := ringSlot_add_size (d := 0)
    rw [h, hwrap, ringSlot_of_lt (show head + 0 < n from hhead), Nat.add_zero]

end Slots

/-! ## The window -/

/-- The slots hold what is left of the cap in the intervals from `now` on, and nothing is charged
`len` or more intervals ahead. -/
structure Window (n cap : Nat) (left : Nat → Nat) (head now len : Nat) (charged : Nat → Nat) :
    Prop where
  head_lt : head < n
  len_le : len ≤ n
  left : ∀ d, d < n → left (ringSlot n head d) + charged (now + d) = cap
  fresh : ∀ k, now + len ≤ k → charged k = 0
  le_cap : ∀ k, charged k ≤ cap

/-- What the intervals paid when the slots went from `left` to `left'`. -/
def paid (n head now : Nat) (left left' : Nat → Nat) (k : Nat) : Nat :=
  if now ≤ k ∧ k < now + n then
    left (ringSlot n head (k - now)) - left' (ringSlot n head (k - now))
  else 0

section Paid

variable {n head now d : Nat} {left left' : Nat → Nat}

theorem paid_add (hd : d < n) :
    paid n head now left left' (now + d) =
      left (ringSlot n head d) - left' (ringSlot n head d) := by
  unfold paid
  rw [if_pos ⟨Nat.le_add_right .., Nat.add_lt_add_left hd now⟩, Nat.add_sub_cancel_left]

theorem paid_self (k : Nat) : paid n head now left left k = 0 := by
  unfold paid
  split
  · exact Nat.sub_self _
  · rfl

theorem paid_outside {k : Nat} (h : k < now ∨ now + n ≤ k) : paid n head now left left' k = 0 := by
  unfold paid
  rw [if_neg (by omega)]

/-- All payments, slot by slot. -/
theorem sum_paid : ∑ k ∈ Finset.Ico now (now + n), paid n head now left left' k =
    ∑ d ∈ Finset.range n, (left (ringSlot n head d) - left' (ringSlot n head d)) := by
  rw [Finset.sum_Ico_eq_sum_range, Nat.add_sub_cancel_left]
  exact Finset.sum_congr rfl fun d hd => paid_add (Finset.mem_range.mp hd)

end Paid

namespace Window

variable {n cap head now len : Nat} {left left' charged : Nat → Nat}

/-- Far slots are full. -/
theorem full (h : Window n cap left head now len charged) {d : Nat} (hlen : len ≤ d) (hd : d < n) :
    left (ringSlot n head d) = cap := by
  have hleft := h.left d hd
  rwa [h.fresh (now + d) (by omega), Nat.add_zero] at hleft

/-- The window moves on to `now'`: over as many slots as intervals went by, at most to the end of
the charged ones, and the slots it leaves are filled up. -/
theorem advance (h : Window n cap left head now len charged) {now' offs : Nat} (hnow : now ≤ now')
    (hoffs : offs = min (now' - now) len)
    (hfill : ∀ d, d < n →
      left' (ringSlot n head d) = if d < offs then cap else left (ringSlot n head d)) :
    Window n cap left' (ringSlot n head offs) now' (len - offs) charged := by
  have hn : 0 < n := Nat.zero_lt_of_lt h.head_lt
  have hlen := h.len_le
  refine ⟨ringSlot_lt hn, by omega, fun d hd => ?_, fun k hk => h.fresh k (by omega), h.le_cap⟩
  rw [ringSlot_ringSlot]
  obtain hlt | hge := Nat.lt_or_ge (offs + d) n
  · rw [hfill _ hlt, if_neg (by omega)]
    obtain hpast | hkept := Nat.lt_or_ge len (now' - now)
    · -- nothing was charged this far ahead
      rw [h.full (by omega) hlt, h.fresh (now' + d) (by omega), Nat.add_zero]
    · have hnow' : now' + d = now + (offs + d) := by omega
      rw [hnow']
      exact h.left _ hlt
  · -- a slot that was left behind
    obtain ⟨e, he⟩ := Nat.exists_eq_add_of_le hge
    rw [he, ringSlot_add_size, hfill e (by omega), if_pos (by omega),
      h.fresh (now' + d) (by omega), Nat.add_zero]

/-- Slots up to the `e`-th are charged. -/
theorem pay (h : Window n cap left head now len charged) {e : Nat} (he : e < n)
    (hle : ∀ d, d < n → left' (ringSlot n head d) ≤ left (ringSlot n head d))
    (hlast : ∀ d, d < n → e < d → left' (ringSlot n head d) = left (ringSlot n head d)) :
    Window n cap left' head now (max len (e + 1))
      (fun k => charged k + paid n head now left left' k) := by
  have hleft : ∀ d, d < n → left' (ringSlot n head d) +
      (charged (now + d) + paid n head now left left' (now + d)) = cap := by
    intro d hd
    have hbefore := h.left d hd
    have hless := hle d hd
    rw [paid_add hd]
    omega
  refine ⟨h.head_lt, max_le h.len_le he, hleft, fun k hk => ?_, fun k => ?_⟩
  · have hlen : now + len ≤ k := by omega
    rw [h.fresh k hlen, Nat.zero_add]
    obtain hin | hout := Nat.lt_or_ge k (now + n)
    · obtain ⟨d, rfl⟩ := Nat.exists_eq_add_of_le (show now ≤ k by omega)
      have hd : d < n := by omega
      rw [paid_add hd, hlast d hd (by omega), Nat.sub_self]
    · exact paid_outside (.inr hout)
  · obtain hin | hout := Nat.lt_or_ge k (now + n)
    · obtain hpast | hnow := Nat.lt_or_ge k now
      · show charged k + paid n head now left left' k ≤ cap
        rw [paid_outside (.inl hpast)]
        exact h.le_cap k
      · obtain ⟨d, rfl⟩ := Nat.exists_eq_add_of_le hnow
        have hpaid := hleft d (by omega)
        show charged (now + d) + paid n head now left left' (now + d) ≤ cap
        omega
    · show charged k + paid n head now left left' k ≤ cap
      rw [paid_outside (.inr hout)]
      exact h.le_cap k

end Window

end NvmeVirt

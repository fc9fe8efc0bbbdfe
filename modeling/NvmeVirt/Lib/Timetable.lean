import Mathlib.Logic.Function.Basic
import Mathlib.Data.List.Pairwise
import Mathlib.Tactic.Common

/-!
# Timetables

Clients book places for spans of time, and for each place it is only known from when on it is free.
A client who starts nowhere before that time collides with nobody, as long as the times known after
him cover his bookings and do not go back (`Timetable.extend`). `bookAll` is the usual way to know
the times: what a place was last booked until.
-/

set_option autoImplicit false

namespace NvmeVirt

/-- A place is taken from `start` to `stop`. -/
structure Booking (ρ : Type) where
  client : Nat
  place : ρ
  start : Nat
  stop : Nat
  deriving DecidableEq, Repr

/-- Every place is free after its bookings, and those of different clients do not overlap. -/
structure Timetable {ρ : Type} (bookings : List (Booking ρ)) (free : ρ → Nat) : Prop where
  ended : ∀ b ∈ bookings, b.stop ≤ free b.place
  apart : bookings.Pairwise fun b c => b.client ≠ c.client → b.place = c.place → b.stop ≤ c.start

namespace Timetable

variable {ρ : Type} {bookings new : List (Booking ρ)} {free free' : ρ → Nat}

theorem nil (free : ρ → Nat) : Timetable [] free := ⟨nofun, .nil⟩

/-- One client books places that are free. -/
theorem extend (h : Timetable bookings free) (hgrow : ∀ p, free p ≤ free' p)
    (hstart : ∀ b ∈ new, free b.place ≤ b.start) (hover : ∀ b ∈ new, b.stop ≤ free' b.place)
    (hclient : ∀ b ∈ new, ∀ c ∈ new, b.client = c.client) : Timetable (bookings ++ new) free' := by
  constructor
  · intro b hb
    rcases List.mem_append.mp hb with hold | hnew
    · exact Nat.le_trans (h.ended b hold) (hgrow b.place)
    · exact hover b hnew
  · refine List.pairwise_append.mpr ⟨h.apart, ?_, ?_⟩
    · exact List.Pairwise.imp_of_mem (fun hb hc _ hne => absurd (hclient _ hb _ hc) hne)
        (List.pairwise_of_forall fun _ _ => trivial)
    · intro b hb c hc _ hplace
      have hbusy := h.ended b hb
      rw [hplace] at hbusy
      exact Nat.le_trans hbusy (hstart c hc)

theorem apart_of_mem (h : Timetable bookings free) {b c : Booking ρ} (hb : b ∈ bookings)
    (hc : c ∈ bookings) (hclient : b.client ≠ c.client) (hplace : b.place = c.place) :
    b.stop ≤ c.start ∨ c.stop ≤ b.start := by
  have hsymm : Std.Symm fun b c : Booking ρ => b.client ≠ c.client → b.place = c.place →
      b.stop ≤ c.start ∨ c.stop ≤ b.start :=
    ⟨fun _ _ hbc hne hsame => (hbc hne.symm hsame.symm).symm⟩
  have hpairs := h.apart.imp (S := fun b c => b.client ≠ c.client → b.place = c.place →
    b.stop ≤ c.start ∨ c.stop ≤ b.start) fun hbc hne hsame => .inl (hbc hne hsame)
  exact hpairs.forall hb hc (fun heq => hclient (congrArg _ heq)) hclient hplace

end Timetable

/-! ## What a place was last booked until -/

section BookAll

variable {ρ : Type} [DecidableEq ρ] {bookings : List (Booking ρ)} {free : ρ → Nat}

/-- The times after the bookings were made, in this order. -/
def bookAll (free : ρ → Nat) (bookings : List (Booking ρ)) : ρ → Nat :=
  bookings.foldl (fun free b => Function.update free b.place b.stop) free

theorem bookAll_append (free : ρ → Nat) (bookings new : List (Booking ρ)) :
    bookAll free (bookings ++ new) = bookAll (bookAll free bookings) new :=
  List.foldl_append ..

/-- The last booking of a place decides. -/
theorem bookAll_range_last {f : Nat → Booking ρ} {k l : Nat} (hl : l < k)
    (h : ∀ j, l < j → j < k → (f j).place ≠ (f l).place) :
    bookAll free ((List.range k).map f) (f l).place = (f l).stop := by
  induction k with
  | zero => exact absurd hl (Nat.not_lt_zero l)
  | succ k ih =>
    rw [List.range_succ, List.map_append, bookAll_append]
    show Function.update (bookAll free ((List.range k).map f)) (f k).place (f k).stop (f l).place =
      (f l).stop
    rcases Nat.lt_or_eq_of_le (Nat.le_of_lt_succ hl) with hlt | rfl
    · rw [Function.update_of_ne (h k hlt (Nat.lt_succ_self k)).symm]
      exact ih hlt fun j hj hjk => h j hj (Nat.lt_succ_of_lt hjk)
    · exact Function.update_self ..

/-- A place has the old time, or one of its bookings decided. -/
theorem bookAll_cases (free : ρ → Nat) (bookings : List (Booking ρ)) (p : ρ) :
    bookAll free bookings p = free p ∨
      ∃ b ∈ bookings, b.place = p ∧ bookAll free bookings p = b.stop := by
  induction bookings generalizing free with
  | nil => exact .inl rfl
  | cons b bookings ih =>
    rcases ih (Function.update free b.place b.stop) with hsame | ⟨c, hc, hplace, hstop⟩
    · by_cases hp : p = b.place
      · rw [hp, Function.update_self] at hsame
        exact .inr ⟨b, List.mem_cons_self, hp.symm, hp ▸ hsame⟩
      · rw [Function.update_of_ne hp] at hsame
        exact .inl hsame
    · exact .inr ⟨c, List.mem_cons_of_mem b hc, hplace, hstop⟩

/-- Times do not go back where every booking ends after the place was free. -/
theorem le_bookAll (h : ∀ b ∈ bookings, free b.place ≤ b.stop) (p : ρ) :
    free p ≤ bookAll free bookings p := by
  rcases bookAll_cases free bookings p with hsame | ⟨b, hb, hplace, hstop⟩
  · exact Nat.le_of_eq hsame.symm
  · rw [hstop, ← hplace]
    exact h b hb

end BookAll

end NvmeVirt

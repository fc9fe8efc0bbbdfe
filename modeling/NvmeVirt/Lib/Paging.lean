import Mathlib.Data.List.Basic
import Mathlib.Tactic.Common

/-!
# Reading a table page by page

`scan` collects the positions from `pos` on that `found` accepts, until the table ends or a position
comes up for which there is no room; there it stops, and the next page starts with this position. So
a page holds exactly the positions it has passed that are accepted (`scan_taken`), and pages put one
after the other hold those of the table, each once and in order.
-/

set_option autoImplicit false

namespace NvmeVirt.Paging

/-- A page: what it holds, where the next one starts, and whether the table has ended. -/
structure Page where
  taken : List Nat
  pos : Nat
  ended : Bool

/-- The accepted positions from `lo` up to `hi`. -/
def accepted (found : Nat → Bool) (lo hi : Nat) : List Nat :=
  (List.range' lo (hi - lo)).filter found

def scan (found : Nat → Bool) (stop : Nat) (room pos : Nat) : Page :=
  if pos < stop then
    if found pos = true then
      match room with
      | 0 => { taken := [], pos, ended := false }
      | room + 1 =>
        if pos + 1 = stop then { taken := [pos], pos := stop, ended := true }
        else
          let rest := scan found stop room (pos + 1)
          { rest with taken := pos :: rest.taken }
    else if pos + 1 = stop then { taken := [], pos := stop, ended := true }
    else scan found stop room (pos + 1)
  else { taken := [], pos, ended := false }
termination_by stop - pos

section Laws

variable {found : Nat → Bool} {stop room pos lo mid hi : Nat}

/-- Nothing lies between a position and itself. -/
theorem accepted_self (found : Nat → Bool) (lo : Nat) : accepted found lo lo = [] := by
  unfold accepted
  rw [Nat.sub_self]
  rfl

/-- Stretches put together. -/
theorem accepted_append (h : lo ≤ mid) (h' : mid ≤ hi) :
    accepted found lo mid ++ accepted found mid hi = accepted found lo hi := by
  obtain ⟨a, rfl⟩ := Nat.exists_eq_add_of_le h
  obtain ⟨b, rfl⟩ := Nat.exists_eq_add_of_le h'
  unfold accepted
  rw [← List.filter_append, Nat.add_sub_cancel_left, Nat.add_sub_cancel_left, Nat.add_assoc,
    Nat.add_sub_cancel_left, List.range'_append_1]

/-- A single position. -/
theorem accepted_one (found : Nat → Bool) (pos : Nat) :
    accepted found pos (pos + 1) = if found pos = true then [pos] else [] := by
  unfold accepted
  rw [Nat.add_sub_cancel_left]
  simp [List.filter_cons]

theorem accepted_cons (h : pos + 1 ≤ hi) (hfound : found pos = true) :
    pos :: accepted found (pos + 1) hi = accepted found pos hi := by
  rw [← accepted_append (Nat.le_add_right pos 1) h, accepted_one, if_pos hfound]
  rfl

theorem accepted_skip (h : pos + 1 ≤ hi) (hfound : ¬ found pos = true) :
    accepted found (pos + 1) hi = accepted found pos hi := by
  rw [← accepted_append (Nat.le_add_right pos 1) h, accepted_one, if_neg hfound]
  rfl

/-! One step of a scan. -/

/-- There is no room for a position that is accepted. -/
theorem scan_full (h : pos < stop) (hfound : found pos = true) :
    scan found stop 0 pos = { taken := [], pos, ended := false } := by
  rw [scan.eq_def, if_pos h, if_pos hfound]

/-- The last position of the table is taken. -/
theorem scan_take_last (h : pos + 1 = stop) (hfound : found pos = true) :
    scan found stop (room + 1) pos = { taken := [pos], pos := stop, ended := true } := by
  rw [scan.eq_def, if_pos (by omega), if_pos hfound]
  exact if_pos h

/-- A position is taken. -/
theorem scan_take (h : pos + 1 < stop) (hfound : found pos = true) :
    scan found stop (room + 1) pos =
      { scan found stop room (pos + 1) with
        taken := pos :: (scan found stop room (pos + 1)).taken } := by
  rw [scan.eq_def, if_pos (by omega), if_pos hfound]
  exact if_neg (by omega)

/-- The last position is passed over. -/
theorem scan_skip_last (h : pos + 1 = stop) (hfound : ¬ found pos = true) :
    scan found stop room pos = { taken := [], pos := stop, ended := true } := by
  rw [scan.eq_def, if_pos (by omega), if_neg hfound, if_pos h]

/-- A position is passed over. -/
theorem scan_skip (h : pos + 1 < stop) (hfound : ¬ found pos = true) :
    scan found stop room pos = scan found stop room (pos + 1) := by
  rw [scan.eq_def, if_pos (by omega), if_neg hfound, if_neg (by omega)]

theorem scan_beyond (h : ¬ pos < stop) :
    scan found stop room pos = { taken := [], pos, ended := false } := by
  rw [scan.eq_def, if_neg h]

/-- What a page that starts in the table is: it holds the accepted positions it has passed, no more
than there is room for; it has ended the table or stopped before its end for want of room. -/
structure IsPage (found : Nat → Bool) (stop room pos : Nat) (page : Page) : Prop where
  taken : page.taken = accepted found pos page.pos
  le : pos ≤ page.pos
  fits : page.taken.length ≤ room
  ended : page.ended = true → page.pos = stop
  cut : page.ended = false → page.pos < stop ∧ page.taken.length = room

/-- A scan gives a page. -/
theorem scan_isPage (h : pos < stop) : IsPage found stop room pos (scan found stop room pos) := by
  fun_induction scan found stop room pos with
  | case1 pos _ hfound =>
    exact ⟨(accepted_self found pos).symm, Nat.le_refl _, Nat.le_refl _,
      fun he => absurd he Bool.false_ne_true, fun _ => ⟨h, rfl⟩⟩
  | case2 pos _ hfound room hlast =>
    refine ⟨?_, Nat.le_of_lt h, Nat.le_add_left .., fun _ => rfl, fun he => ?_⟩
    · rw [← accepted_cons h hfound, hlast, accepted_self]
    · cases he
  | case3 pos _ hfound room hmore rest ih =>
    obtain ⟨htaken, hle, hfits, hended, hcut⟩ := ih (by omega)
    refine ⟨?_, Nat.le_of_succ_le hle, Nat.succ_le_succ hfits, hended, fun he => ?_⟩
    · rw [← accepted_cons hle hfound, ← htaken]
    · exact ⟨(hcut he).1, congrArg Nat.succ (hcut he).2⟩
  | case4 room pos _ hfound hlast =>
    refine ⟨?_, Nat.le_of_lt h, Nat.zero_le _, fun _ => rfl, fun he => ?_⟩
    · rw [← accepted_skip h hfound, hlast, accepted_self]
    · cases he
  | case5 room pos _ hfound hmore ih =>
    obtain ⟨htaken, hle, hfits, hended, hcut⟩ := ih (by omega)
    refine ⟨?_, Nat.le_of_succ_le hle, hfits, hended, hcut⟩
    rw [← accepted_skip hle hfound, ← htaken]
  | case6 room pos hend => exact absurd h hend

/-- A page that has not ended the table has moved on, if there was room at all. -/
theorem IsPage.moves {page : Page} (h : IsPage found stop room pos page) (hroom : 0 < room) :
    pos < page.pos ∨ page.ended = true := by
  cases hended : page.ended with
  | true => exact .inr rfl
  | false =>
    left
    apply Nat.lt_of_le_of_ne h.le
    intro heq
    have hlen := (h.cut hended).2
    rw [h.taken, ← heq, accepted_self] at hlen
    exact Nat.ne_of_lt hroom hlen

end Laws

end NvmeVirt.Paging

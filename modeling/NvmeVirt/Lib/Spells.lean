import Mathlib.Data.List.Nodup
import Mathlib.Tactic.Common

/-!
# Lists threaded through links

`Spells next start l stop` says that the links from `start` on go through the elements of `l`, in this
order, and lead to `stop` from there. A list that is spelled to the end, where `stop` is `none`, is
the only one and meets no element twice. Links are changed at one end of a list (`relink`) or at
elements outside it (`congr`); lists are put together with `append`.
-/

set_option autoImplicit false

namespace NvmeVirt

def Spells {α : Type} (next : α → Option α) : Option α → List α → Option α → Prop
  | start, [], stop => start = stop
  | start, a :: l, stop => start = some a ∧ Spells next (next a) l stop

namespace Spells

variable {α : Type} {next next' : α → Option α} {start start' mid stop stop' : Option α}
  {l l' : List α} {a : α}

theorem congr (h : Spells next start l stop) (hsame : ∀ a ∈ l, next' a = next a) :
    Spells next' start l stop := by
  induction l generalizing start with
  | nil => exact h
  | cons a l ih =>
    refine ⟨h.1, ?_⟩
    rw [hsame a List.mem_cons_self]
    exact ih h.2 fun b hb => hsame b (List.mem_cons_of_mem a hb)

theorem append (h : Spells next start l mid) (h' : Spells next mid l' stop) :
    Spells next start (l ++ l') stop := by
  induction l generalizing start with
  | nil =>
    obtain rfl : start = mid := h
    exact h'
  | cons a l ih => exact ⟨h.1, ih h.2⟩

theorem of_append (h : Spells next start (l ++ l') stop) :
    ∃ mid, Spells next start l mid ∧ Spells next mid l' stop := by
  induction l generalizing start with
  | nil => exact ⟨start, rfl, h⟩
  | cons a l ih =>
    obtain ⟨mid, hl, hl'⟩ := ih h.2
    exact ⟨mid, ⟨h.1, hl⟩, hl'⟩

/-- The start is the first element. -/
theorem start_eq (h : Spells next start (a :: l) stop) : start = some a := h.1

/-- The last element links to where the list leads. -/
theorem snoc_stop (h : Spells next start (l ++ [a]) stop) :
    Spells next start l (some a) ∧ next a = stop := by
  obtain ⟨mid, hl, ha⟩ := h.of_append
  exact ⟨ha.1 ▸ hl, ha.2⟩

/-- The last element is linked to another place. -/
theorem relink (h : Spells next start (l ++ [a]) stop) (hsame : ∀ b ∈ l, next' b = next b)
    (hlast : next' a = stop') : Spells next' start (l ++ [a]) stop' := by
  have hl := h.snoc_stop.1.congr hsame
  exact hl.append ⟨rfl, hlast⟩

/-- A list that is spelled to the end is the only one. -/
theorem unique (h : Spells next start l none) (h' : Spells next start l' none) : l = l' := by
  induction l generalizing start l' with
  | nil =>
    obtain rfl : start = none := h
    cases l' with
    | nil => rfl
    | cons b l' => exact nomatch h'.1
  | cons a l ih =>
    cases l' with
    | nil =>
      obtain rfl : start = none := h'
      exact nomatch h.1
    | cons b l' =>
      obtain rfl : a = b := Option.some.inj (h.1.symm.trans h'.1)
      rw [ih h.2 h'.2]

/-- A list that is spelled to the end meets no element twice. -/
theorem nodup (h : Spells next start l none) : l.Nodup := by
  induction l generalizing start with
  | nil => exact .nil
  | cons a l ih =>
    apply List.nodup_cons.mpr
    refine ⟨fun hmem => ?_, ih h.2⟩
    obtain ⟨before, after, rfl⟩ := List.append_of_mem hmem
    obtain ⟨mid, _, hagain⟩ := h.2.of_append
    -- from its second occurrence on, the list would be spelled as from the first
    have hloop := h.2.unique hagain.2
    have hlength := congrArg List.length hloop
    rw [List.length_append, List.length_cons] at hlength
    omega

section Insert

variable {x c : α} {before after : List α}

/-- A new element is linked in front of a list. -/
theorem insert_front (h : Spells next start l none) (hx : x ∉ l) (hnext : next' x = start)
    (hsame : ∀ b, b ≠ x → next' b = next b) : Spells next' (some x) (x :: l) none := by
  refine ⟨rfl, ?_⟩
  rw [hnext]
  apply h.congr
  intro b hb
  apply hsame
  intro he
  rw [he] at hb
  exact hx hb

/-- A new element is linked in behind `c`. -/
theorem insert_behind (h : Spells next start (before ++ c :: after) none)
    (hx : x ∉ before ++ c :: after) (hc : next' c = some x) (hnext : next' x = next c)
    (hsame : ∀ b, b ≠ c → b ≠ x → next' b = next b) :
    Spells next' start (before ++ c :: x :: after) none := by
  have hnodup := h.nodup
  obtain ⟨mid, hbefore, hrest⟩ := h.of_append
  have hnew : ∀ b ∈ before ++ c :: after, b ≠ x := by
    intro b hb he
    rw [he] at hb
    exact hx hb
  have hother : ∀ b ∈ before ++ after, b ≠ c := by
    intro b hb he
    rw [he] at hb
    exact (List.nodup_cons.mp (List.nodup_middle.mp hnodup)).1 hb
  have hkept : ∀ b ∈ before ++ after, next' b = next b := by
    intro b hb
    apply hsame b (hother b hb)
    apply hnew
    rcases List.mem_append.mp hb with hb | hb
    · exact List.mem_append_left _ hb
    · exact List.mem_append_right _ (List.mem_cons_of_mem _ hb)
  apply (hbefore.congr fun b hb => hkept b (List.mem_append_left _ hb)).append
  refine ⟨hrest.1, hc, ?_⟩
  rw [hnext]
  exact hrest.2.congr fun b hb => hkept b (List.mem_append_right _ hb)

end Insert

/-- An element leads to the next one, or out of the list. -/
theorem next_mem (h : Spells next start l none) (ha : a ∈ l) :
    next a = none ∨ ∃ b ∈ l, next a = some b := by
  induction l generalizing start with
  | nil => exact nomatch ha
  | cons c l ih =>
    rcases List.mem_cons.mp ha with rfl | hmem
    · cases l with
      | nil => exact .inl h.2
      | cons b l => exact .inr ⟨b, List.mem_cons_of_mem _ List.mem_cons_self, h.2.1⟩
    · rcases ih h.2 hmem with hend | ⟨b, hb, hnext⟩
      · exact .inl hend
      · exact .inr ⟨b, List.mem_cons_of_mem _ hb, hnext⟩

end Spells

end NvmeVirt

import NvmeVirt.Laws.Conv.Lines
import NvmeVirt.Conv.Gc

/-!
# Victim selection

Every policy answers a line of the victim queue, taken out of it, and answers nothing only when the
queue is empty or greedy was not forced.
-/

set_option autoImplicit false

namespace NvmeVirt

open Outcome

/-! ## The scan -/

theorem Pqueue.mem_items {ι : Type} {q : Pqueue ι} {x : ι} :
    x ∈ q.items ↔ ∃ i, 0 < i ∧ i < q.size ∧ q.d i = x := by
  simp only [Pqueue.items, List.mem_map, List.mem_range]
  constructor
  · rintro ⟨i, hi, rfl⟩
    exact ⟨i + 1, by omega, by omega, rfl⟩
  · rintro ⟨i, hi0, hi, rfl⟩
    exact ⟨i - 1, by omega, by rw [Nat.sub_add_cancel hi0]⟩

/-- The scan answers one of its items. -/
theorem scanBest_mem {lines : Lines} {now α δ v : Nat} {score : Nat × Nat} :
    ∀ {l : List Nat} {best : Option (Nat × Nat × Nat)},
      scanBest lines now α δ l best = some (v, score) → v ∈ l ∨ ∃ s, best = some (v, s)
  | [], best, h => .inr ⟨score, h⟩
  | c :: rest, best, h => by
    unfold scanBest at h
    obtain hmem | ⟨s, hs⟩ := scanBest_mem h
    · exact .inl (List.mem_cons_of_mem _ hmem)
    · cases best with
      | none =>
        cases hs
        exact .inl List.mem_cons_self
      | some b =>
        obtain ⟨b, num, den⟩ := b
        dsimp only at hs
        split at hs
        · cases hs
          exact .inl List.mem_cons_self
        · cases hs
          exact .inr ⟨_, rfl⟩

/-- It answers nothing only for no items. -/
theorem scanBest_none {lines : Lines} {now α δ : Nat} :
    ∀ {l : List Nat} {best : Option (Nat × Nat × Nat)},
      scanBest lines now α δ l best = none → l = [] ∧ best = none
  | [], _, h => ⟨rfl, h⟩
  | c :: rest, best, h => by
    unfold scanBest at h
    obtain ⟨_, hnone⟩ := scanBest_none h
    cases best with
    | none => cases hnone
    | some b =>
      obtain ⟨b, num, den⟩ := b
      dsimp only at hnone
      split at hnone <;> cases hnone

/-! ## What a selection does to the lines -/

namespace LineMgmt

variable {lm lm' : LineMgmt} {cur : Stream → Option Nat} {place : Nat → Place} {v : Nat}

/-- The victim `v` was in the queue and is now in hand; nothing else changed. -/
structure Selected (lm lm' : LineMgmt) (cur : Stream → Option Nat) (place : Nat → Place) (v : Nat) :
    Prop where
  lt : v < lm.ttLines
  victim : place v = .victim
  placed : lm'.Placed cur (Function.update place v .held)
  kept : Kept lm.lines lm'.lines
  ttLines : lm'.ttLines = lm.ttLines
  freeLineList : lm'.freeLineList = lm.freeLineList

/-- A queued line is a victim. -/
theorem Placed.of_item (h : lm.Placed cur place) (hv : v ∈ lm.victimLinePq.items) :
    v < lm.ttLines ∧ place v = .victim := by
  obtain ⟨i, hi0, hi, rfl⟩ := Pqueue.mem_items.mp hv
  refine h.queued.mp ?_
  have hpos : (lm.lines (lm.victimLinePq.d i)).pos = i := h.queue.pos_d i hi0 hi
  omega

theorem Placed.selected (h : lm.Placed cur place) (hv : v ∈ lm.victimLinePq.items)
    {r : Pqueue Nat × Lines} (hr : Pqueue.Removed victimLine lm.victimLinePq lm.lines v r)
    (hk : Kept lm.lines r.2) : Selected lm (lm.takeVictim r v) cur place v := by
  obtain ⟨hlt, hvic⟩ := h.of_item hv
  obtain ⟨hplaced, hkept⟩ := h.takeVictim hvic hr hk
  exact ⟨hlt, hvic, hplaced, hkept, rfl, rfl⟩

/-- The answer of a selection: a selected line, or nothing and nothing changed. -/
def SelectSpec (lm : LineMgmt) (cur : Stream → Option Nat) (place : Nat → Place) (forced : Prop)
    (r : LineMgmt × Option Nat) : Prop :=
  match r.2 with
  | none => r.1 = lm ∧ (forced → lm.victimLinePq.size = 1)
  | some v => Selected lm r.1 cur place v

/-- What is not forced. -/
theorem SelectSpec.mono {forced forced' : Prop} {r : LineMgmt × Option Nat}
    (h : lm.SelectSpec cur place forced r) (hf : forced' → forced) :
    lm.SelectSpec cur place forced' r := by
  unfold SelectSpec at h ⊢
  cases hr : r.2 with
  | none =>
    rw [hr] at h
    exact ⟨h.1, fun hh => h.2 (hf hh)⟩
  | some v =>
    rw [hr] at h
    exact h

/-- Greedy. -/
theorem selectVictimGreedy_spec (h : lm.Placed cur place) (spp : SsdParams) (force : Bool) :
    lm.SelectSpec cur place (force = true) (lm.selectVictimGreedy spp force) := by
  unfold LineMgmt.selectVictimGreedy
  cases hpeek : lm.victimLinePq.peek with
  | none => exact ⟨rfl, fun _ => (Pqueue.peek_eq_none _).mp hpeek⟩
  | some v =>
    unfold Pqueue.peek at hpeek
    split at hpeek
    · cases hpeek
    · rename_i hsize
      cases hpeek
      dsimp only
      split
      · rename_i hc
        refine ⟨rfl, fun hf => ?_⟩
        rw [hc.1] at hf
        cases hf
      · obtain ⟨r, hpop, hq, hr⟩ := Pqueue.pop_valid victimLine_lawful h.queue hsize
        have hk : Kept lm.lines r.2 := by
          have hframe : Lines.offQueue (Pqueue.pop victimLine lm.victimLinePq lm.lines).2.2 =
              Lines.offQueue lm.lines := Pqueue.pop_frame offQueue_setpos ..
          rw [hpop] at hframe
          exact .of_offQueue hframe
        have hitem : lm.victimLinePq.d 1 ∈ lm.victimLinePq.items := by
          have := h.queue.size_pos
          exact Pqueue.mem_items.mpr ⟨1, by omega, by omega, rfl⟩
        rw [hpop]
        exact h.selected hitem hr hk

/-- The scored policies. -/
theorem selectBest_spec (h : lm.Placed cur place) (now α δ : Nat) :
    lm.SelectSpec cur place True (lm.selectBest now α δ) := by
  unfold LineMgmt.selectBest
  cases hscan : scanBest lm.lines now α δ lm.victimLinePq.items none with
  | none =>
    refine ⟨rfl, fun _ => ?_⟩
    have hlen := congrArg List.length (scanBest_none hscan).1
    have := h.queue.size_pos
    simp only [Pqueue.items, List.length_map, List.length_range, List.length_nil] at hlen
    omega
  | some best =>
    obtain ⟨v, score⟩ := best
    have hitem : v ∈ lm.victimLinePq.items := by
      obtain hmem | ⟨_, hs⟩ := scanBest_mem hscan
      · exact hmem
      · cases hs
    have hq : Pqueue.Queued victimLine lm.lines v := h.queued.mpr (h.of_item hitem)
    exact h.selected hitem (Pqueue.remove_valid victimLine_lawful h.queue hq)
      (.of_offQueue (Pqueue.remove_frame offQueue_setpos ..))

end LineMgmt

/-! ## The selection functions -/

section Ensures

variable {E : Fault → Prop} {cur : Stream → Option Nat} {place : Nat → Place}

/-- A selection function touches the line management only, and there it selects. -/
def Selects (select : VictimSelectFn) : Prop :=
  ∀ (E : Fault → Prop) (ftl : ConvFtl) (force : Bool) (cur : Stream → Option Nat)
    (place : Nat → Place), ftl.lm.Placed cur place →
    Ensures E (select ftl force) fun r =>
      r.1 = { ftl with lm := r.1.lm } ∧
        ftl.lm.SelectSpec cur place (force = true) (r.1.lm, r.2)

theorem selectVictimGreedy_selects : Selects selectVictimGreedy :=
  fun _ ftl force _ _ h => .pure ⟨rfl, LineMgmt.selectVictimGreedy_spec h ftl.ssd.sp force⟩

theorem selectVictimScored_ensures (ftl : ConvFtl) (h : ftl.lm.Placed cur place) (α δ : Nat) :
    Ensures E (selectVictimScored ftl α δ) fun r =>
      r.1 = { ftl with lm := r.1.lm } ∧ ftl.lm.SelectSpec cur place True (r.1.lm, r.2) :=
  ktimeGetNs_ensures.bind fun now _ => .pure ⟨rfl, LineMgmt.selectBest_spec h now α δ⟩

theorem selectVictimScored_selects (α δ : Nat) : Selects fun ftl _ => selectVictimScored ftl α δ := by
  intro E ftl force cur place h
  exact (selectVictimScored_ensures ftl h α δ).mono fun r hr => ⟨hr.1, hr.2.mono fun _ => trivial⟩

/-- The function `foreground_gc` passes selects, and only the learner is given none. -/
theorem GcMode.selectFn_selects (mode : GcMode) :
    mode = .rl ∨ ∃ select, mode.selectFn = some select ∧ Selects select := by
  cases mode with
  | greedy => exact .inr ⟨_, rfl, selectVictimGreedy_selects⟩
  | cb => exact .inr ⟨_, rfl, selectVictimScored_selects 1 0⟩
  | cat => exact .inr ⟨_, rfl, selectVictimScored_selects 1 2⟩
  | rl => exact .inl rfl
  | other => exact .inr ⟨_, rfl, selectVictimGreedy_selects⟩

end Ensures

end NvmeVirt

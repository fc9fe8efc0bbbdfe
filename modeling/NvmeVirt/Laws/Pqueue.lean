import Mathlib.Tactic.Linarith
import NvmeVirt.Pqueue

/-!
# The queue stays a heap whose elements know their slots

`ValidBut gone q m` is the queue's invariant: each occupied slot's element records that slot, an
element that records a non-zero slot stands in it, and no element has a smaller priority value than
its parent. `gone` marks elements that left the array but still record their old slot, which is the
state between `pqueue_remove` and the caller's `pos = 0`.

The two sifts carry an element in hand over a hole. `Sift` is the membership half of what they
keep; `UpOrder` and `DownOrder` are the order halves, each with the comparison its direction needs
at the hole. An operation's law then says which elements are queued afterwards and that the
priorities are the callers' (`insert_valid`, `changePriority_valid`, `remove_valid`, `pop_valid`).
-/

set_option autoImplicit false

namespace NvmeVirt

variable {σ ι : Type}

/-- What the callbacks owe the queue: they read back what they wrote, positions and priorities do
not interfere, and a smaller value has the higher priority. -/
structure Callbacks.Lawful [DecidableEq ι] (cb : Callbacks σ ι) : Prop where
  cmp_iff : ∀ a b, cb.cmppri a b = true ↔ b < a
  getpos_setpos : ∀ m x y p, cb.getpos (cb.setpos m x p) y = if y = x then p else cb.getpos m y
  getpri_setpos : ∀ m x y p, cb.getpri (cb.setpos m x p) y = cb.getpri m y
  getpos_setpri : ∀ m x y p, cb.getpos (cb.setpri m x p) y = cb.getpos m y
  getpri_setpri : ∀ m x y p, cb.getpri (cb.setpri m x p) y = if y = x then p else cb.getpri m y

namespace Pqueue

variable (cb : Callbacks σ ι)

/-- `x` records a slot of the queue. -/
def Queued (m : σ) (x : ι) : Prop := cb.getpos m x ≠ 0

/-- The priority value of the element in slot `i`. -/
def priAt (q : Pqueue ι) (m : σ) (i : Nat) : Nat := cb.getpri m (q.d i)

structure ValidBut (gone : ι → Prop) (q : Pqueue ι) (m : σ) : Prop where
  size_pos : 0 < q.size
  pos_d : ∀ i, 0 < i → i < q.size → cb.getpos m (q.d i) = i
  stays : ∀ i, 0 < i → i < q.size → ¬ gone (q.d i)
  d_pos : ∀ x, ¬ gone x → cb.getpos m x ≠ 0 →
    cb.getpos m x < q.size ∧ q.d (cb.getpos m x) = x
  heap : ∀ i, 1 < i → i < q.size → priAt cb q m (i / 2) ≤ priAt cb q m i

/-- The invariant between two calls. -/
abbrev Valid (q : Pqueue ι) (m : σ) : Prop := ValidBut cb (fun _ => False) q m

/-- `x` is in hand and slot `i` is free for it. -/
structure Sift (gone : ι → Prop) (q : Pqueue ι) (m : σ) (x : ι) (i : Nat) : Prop where
  hole_pos : 0 < i
  hole_lt : i < q.size
  in_hand : ¬ gone x
  pos_d : ∀ j, 0 < j → j < q.size → j ≠ i → cb.getpos m (q.d j) = j
  stays : ∀ j, 0 < j → j < q.size → j ≠ i → ¬ gone (q.d j) ∧ q.d j ≠ x
  d_pos : ∀ y, ¬ gone y → y ≠ x → cb.getpos m y ≠ 0 →
    cb.getpos m y < q.size ∧ cb.getpos m y ≠ i ∧ q.d (cb.getpos m y) = y

/-- Parents and children off the hole are in order. -/
def OrderedExcept (q : Pqueue ι) (m : σ) (i : Nat) : Prop :=
  ∀ j, 1 < j → j < q.size → j ≠ i → j / 2 ≠ i → priAt cb q m (j / 2) ≤ priAt cb q m j

/-- The hole's children come after its parent. -/
def GrandOrder (q : Pqueue ι) (m : σ) (i : Nat) : Prop :=
  1 < i → ∀ c, c < q.size → c / 2 = i → priAt cb q m (i / 2) ≤ priAt cb q m c

structure UpOrder (q : Pqueue ι) (m : σ) (pri i : Nat) : Prop where
  off : OrderedExcept cb q m i
  grand : GrandOrder cb q m i
  below : ∀ c, 1 < c → c < q.size → c / 2 = i → pri ≤ priAt cb q m c

structure DownOrder (q : Pqueue ι) (m : σ) (pri i : Nat) : Prop where
  off : OrderedExcept cb q m i
  grand : GrandOrder cb q m i
  above : 1 < i → priAt cb q m (i / 2) ≤ pri

variable {cb}

section Facts

variable {gone : ι → Prop} {q : Pqueue ι} {m : σ}

/-- The occupied slots hold distinct elements. -/
theorem ValidBut.d_injective {gone : ι → Prop} (v : ValidBut cb gone q m) {i j : Nat} (hi0 : 0 < i)
    (hi : i < q.size) (hj0 : 0 < j) (hj : j < q.size) (h : q.d i = q.d j) : i = j := by
  rw [← v.pos_d i hi0 hi, h, v.pos_d j hj0 hj]

/-- The root has the least priority value. -/
theorem ValidBut.root_le {gone : ι → Prop} (v : ValidBut cb gone q m) :
    ∀ i, 0 < i → i < q.size → priAt cb q m 1 ≤ priAt cb q m i := by
  intro i
  induction i using Nat.strongRecOn with
  | ind i ih =>
    intro hi0 hi
    by_cases h1 : i = 1
    · rw [h1]
    · exact (ih (i / 2) (by omega) (by omega) (by omega)).trans (v.heap i (by omega) hi)

/-- Only the slots the elements record and the priorities of the queued elements matter. -/
theorem ValidBut.congr_queued {m' : σ} (v : Valid cb q m)
    (hpos : ∀ x, cb.getpos m' x = cb.getpos m x)
    (hpri : ∀ x, Queued cb m x → cb.getpri m' x = cb.getpri m x) : Valid cb q m' := by
  have hat : ∀ i, 0 < i → i < q.size → priAt cb q m' i = priAt cb q m i := by
    intro i hi0 hi
    refine hpri _ ?_
    unfold Queued
    rw [v.pos_d i hi0 hi]
    exact hi0.ne'
  refine ⟨v.size_pos, fun i hi0 hi => ?_, v.stays, fun x hx hq => ?_, fun i hi1 hi => ?_⟩
  · rw [hpos]
    exact v.pos_d i hi0 hi
  · rw [hpos] at hq ⊢
    exact v.d_pos x hx hq
  · rw [hat _ (by omega) (by omega), hat _ (by omega) hi]
    exact v.heap i hi1 hi

/-- The child that is chosen is the smaller of the two. -/
theorem maxchild_le (hcmp : ∀ a b, cb.cmppri a b = true ↔ b < a) (q : Pqueue ι) (m : σ) {i c : Nat}
    (hc : c < q.size) (hp : c / 2 = i) (hi : 0 < i) :
    maxchild cb q m i ≠ 0 ∧ priAt cb q m (maxchild cb q m i) ≤ priAt cb q m c := by
  unfold maxchild priAt
  dsimp only
  rw [if_neg (by omega)]
  have hci : c = i * 2 ∨ c = i * 2 + 1 := by omega
  split
  · rename_i hr
    have hlt := (hcmp ..).mp hr.2
    refine ⟨by omega, ?_⟩
    rcases hci with rfl | rfl
    · exact hlt.le
    · exact le_rfl
  · rename_i hr
    refine ⟨by omega, ?_⟩
    rcases hci with rfl | rfl
    · exact le_rfl
    · by_contra hlt
      exact hr ⟨hc, (hcmp ..).mpr (not_le.mp hlt)⟩

/-- The queue is empty when only the unused slot is there. -/
theorem peek_eq_none (q : Pqueue ι) : q.peek = none ↔ q.size = 1 := by
  unfold peek
  split <;> simp [*]

end Facts

/-! ## What the queue leaves alone

Anything read off the memory that `setpos` does not touch is untouched by the operations. -/

section Frame

variable {γ : Type} {f : σ → γ}

/-- The callbacks change positions only; what they leave alone, a sift does. -/
theorem bubbleUpFrom_frame (hf : ∀ m x p, f (cb.setpos m x p) = f m) (q : Pqueue ι) (m : σ) (x : ι)
    (pri i : Nat) : f (bubbleUpFrom cb q m x pri i).2 = f m := by
  induction i using Nat.strongRecOn generalizing q m with
  | ind i ih =>
    rw [bubbleUpFrom]
    split
    · rw [ih (i / 2) (by omega), hf]
    · exact hf ..

/-- The same for the other sift. -/
theorem percolateDownFrom_frame (hf : ∀ m x p, f (cb.setpos m x p) = f m) (q : Pqueue ι) (m : σ)
    (x : ι) (pri i : Nat) : f (percolateDownFrom cb q m x pri i).2 = f m := by
  induction hn : q.size - i using Nat.strongRecOn generalizing q m i with
  | ind n ih =>
    rw [percolateDownFrom]
    split
    · have := maxchild_cases cb q m i
      rw [ih _ (by rw [put_size]; omega) _ _ _ rfl, hf]
    · exact hf ..

theorem insert_frame (hf : ∀ m x p, f (cb.setpos m x p) = f m) (q : Pqueue ι) (m : σ) (x : ι) :
    f (insert cb q m x).2 = f m := bubbleUpFrom_frame hf ..

theorem changePriority_frame (hf : ∀ m x p, f (cb.setpos m x p) = f m) (q : Pqueue ι) (m : σ)
    (newPri : Nat) (x : ι) :
    f (changePriority cb q m newPri x).2 = f (cb.setpri m x newPri) := by
  unfold changePriority
  dsimp only
  split
  · exact bubbleUpFrom_frame hf ..
  · exact percolateDownFrom_frame hf ..

theorem remove_frame (hf : ∀ m x p, f (cb.setpos m x p) = f m) (q : Pqueue ι) (m : σ) (x : ι) :
    f (remove cb q m x).2 = f m := by
  unfold remove
  dsimp only
  split
  · exact bubbleUpFrom_frame hf ..
  · exact percolateDownFrom_frame hf ..

theorem pop_frame (hf : ∀ m x p, f (cb.setpos m x p) = f m) (q : Pqueue ι) (m : σ) :
    f (pop cb q m).2.2 = f m := by
  unfold pop
  split
  · rfl
  · exact percolateDownFrom_frame hf ..

end Frame

/-! ## The sifts -/

variable [DecidableEq ι]

section Sifts

variable {gone : ι → Prop} {q : Pqueue ι} {m : σ} {x : ι} {i : Nat}

/-- Moving the element of slot `k` into the hole leaves the hole at `k`. -/
theorem Sift.move (hl : cb.Lawful) (h : Sift cb gone q m x i) {k : Nat} (hk0 : 0 < k)
    (hk : k < q.size) (hki : k ≠ i) :
    Sift cb gone (q.put i (q.d k)) (cb.setpos m (q.d k) i) x k := by
  have hkpos := h.pos_d k hk0 hk hki
  have hdk : ∀ j, 0 < j → j < q.size → j ≠ i → j ≠ k → q.d j ≠ q.d k := by
    intro j hj0 hj hji hjk he
    have := h.pos_d j hj0 hj hji
    rw [he, hkpos] at this
    exact hjk this.symm
  refine ⟨hk0, hk, h.in_hand, ?_, ?_, ?_⟩
  · intro j hj0 hj hjk
    by_cases hji : j = i
    · subst hji
      rw [put_same, hl.getpos_setpos, if_pos rfl]
    · rw [put_other _ _ hji, hl.getpos_setpos, if_neg (hdk j hj0 hj hji hjk)]
      exact h.pos_d j hj0 hj hji
  · intro j hj0 hj hjk
    by_cases hji : j = i
    · subst hji
      rw [put_same]
      exact h.stays k hk0 hk hki
    · rw [put_other _ _ hji]
      exact h.stays j hj0 hj hji
  · intro y hy hyx hpos
    rw [hl.getpos_setpos] at hpos ⊢
    by_cases hyk : y = q.d k
    · rw [if_pos hyk, put_same]
      exact ⟨h.hole_lt, fun he => hki he.symm, hyk.symm⟩
    · rw [if_neg hyk] at hpos ⊢
      obtain ⟨h1, h2, h3⟩ := h.d_pos y hy hyx hpos
      refine ⟨h1, ?_, ?_⟩
      · intro he
        rw [he] at h3
        exact hyk h3.symm
      · rw [put_other _ _ h2]
        exact h3

/-- Putting the element in hand into the hole ends the sift, when the order allows it. -/
theorem Sift.finish (hl : cb.Lawful) (h : Sift cb gone q m x i)
    (off : OrderedExcept cb q m i)
    (above : 1 < i → priAt cb q m (i / 2) ≤ cb.getpri m x)
    (below : ∀ c, 1 < c → c < q.size → c / 2 = i → cb.getpri m x ≤ priAt cb q m c) :
    ValidBut cb gone (q.put i x) (cb.setpos m x i) := by
  refine ⟨h.hole_pos.trans h.hole_lt, ?_, ?_, ?_, ?_⟩
  · intro j hj0 hj
    by_cases hji : j = i
    · subst hji
      rw [put_same, hl.getpos_setpos, if_pos rfl]
    · rw [put_other _ _ hji, hl.getpos_setpos, if_neg (h.stays j hj0 hj hji).2]
      exact h.pos_d j hj0 hj hji
  · intro j hj0 hj
    by_cases hji : j = i
    · subst hji
      rw [put_same]
      exact h.in_hand
    · rw [put_other _ _ hji]
      exact (h.stays j hj0 hj hji).1
  · intro y hy hpos
    rw [hl.getpos_setpos] at hpos ⊢
    by_cases hyx : y = x
    · subst hyx
      rw [if_pos rfl, put_same]
      exact ⟨h.hole_lt, rfl⟩
    · rw [if_neg hyx] at hpos ⊢
      obtain ⟨h1, h2, h3⟩ := h.d_pos y hy hyx hpos
      rw [put_other _ _ h2]
      exact ⟨h1, h3⟩
  · intro j hj1 hj
    unfold priAt
    rw [hl.getpri_setpos, hl.getpri_setpos]
    by_cases hji : j = i
    · subst hji
      rw [put_same, put_other _ _ (by omega)]
      exact above hj1
    · rw [put_other _ _ hji]
      by_cases hp : j / 2 = i
      · rw [hp, put_same]
        exact below j hj1 hj hp
      · rw [put_other _ _ hp]
        exact off j hj1 hj hji hp

/-- What either sift leaves: a valid queue of the same elements and `x`, at the same priorities. -/
structure Sifted (cb : Callbacks σ ι) (gone : ι → Prop) (q : Pqueue ι) (m : σ) (x : ι)
    (r : Pqueue ι × σ) : Prop where
  valid : ValidBut cb gone r.1 r.2
  size : r.1.size = q.size
  avail : r.1.avail = q.avail
  pri : ∀ y, cb.getpri r.2 y = cb.getpri m y
  queued : ∀ y, ¬ gone y → (Queued cb r.2 y ↔ y = x ∨ Queued cb m y)

theorem Sifted.of_finish (hl : cb.Lawful) (h : Sift cb gone q m x i)
    (v : ValidBut cb gone (q.put i x) (cb.setpos m x i)) :
    Sifted cb gone q m x (q.put i x, cb.setpos m x i) := by
  refine ⟨v, rfl, rfl, fun y => hl.getpri_setpos .., fun y _ => ?_⟩
  unfold Queued
  rw [hl.getpos_setpos]
  by_cases hyx : y = x
  · simp [hyx, h.hole_pos.ne']
  · simp [hyx]

/-- A move before the sift does not change what the sift leaves. -/
theorem Sifted.of_move (hl : cb.Lawful) (h : Sift cb gone q m x i) {k : Nat} (hk0 : 0 < k)
    (hk : k < q.size) (hki : k ≠ i) {r : Pqueue ι × σ}
    (s : Sifted cb gone (q.put i (q.d k)) (cb.setpos m (q.d k) i) x r) :
    Sifted cb gone q m x r := by
  refine ⟨s.valid, s.size, s.avail, fun y => (s.pri y).trans (hl.getpri_setpos ..), fun y hy => ?_⟩
  rw [s.queued y hy]
  unfold Queued
  rw [hl.getpos_setpos]
  by_cases hyk : y = q.d k
  · have : cb.getpos m y ≠ 0 := by rw [hyk, h.pos_d k hk0 hk hki]; omega
    simp [hyk, h.hole_pos.ne', hyk ▸ this]
  · simp [hyk]

/-! ### Sifting up -/

/-- The hole goes up one level. -/
theorem UpOrder.move (hl : cb.Lawful) (h : Sift cb gone q m x i) (o : UpOrder cb q m (cb.getpri m x) i)
    (hi : 1 < i) (hlt : cb.getpri m x < priAt cb q m (i / 2)) :
    UpOrder cb (q.put i (q.d (i / 2))) (cb.setpos m (q.d (i / 2)) i) (cb.getpri m x) (i / 2) := by
  have hpri : ∀ j, priAt cb (q.put i (q.d (i / 2))) (cb.setpos m (q.d (i / 2)) i) j =
      if j = i then priAt cb q m (i / 2) else priAt cb q m j := by
    intro j
    unfold priAt
    rw [hl.getpri_setpos]
    by_cases hj : j = i
    · subst hj; rw [put_same, if_pos rfl]
    · rw [put_other _ _ hj, if_neg hj]
  have hlast := h.hole_lt
  refine ⟨?_, ?_, ?_⟩
  · intro j hj1 hj hjp hjpp
    simp only [put_size] at hj
    rw [hpri, hpri]
    by_cases hji : j = i
    · subst hji; exact absurd rfl hjpp
    · rw [if_neg hji]
      by_cases hp : j / 2 = i
      · rw [if_pos hp]; exact o.grand hi j hj hp
      · rw [if_neg hp]; exact o.off j hj1 hj hji hp
  · intro hp1 c hc hcp
    simp only [put_size] at hc
    have hup : priAt cb q m (i / 2 / 2) ≤ priAt cb q m (i / 2) :=
      o.off (i / 2) hp1 (by omega) (by omega) (by omega)
    rw [hpri, hpri, if_neg (by omega)]
    by_cases hci : c = i
    · rw [if_pos hci]; exact hup
    · rw [if_neg hci]
      exact hup.trans (hcp ▸ o.off c (by omega) hc hci (by omega))
  · intro c hc1 hc hcp
    simp only [put_size] at hc
    rw [hpri]
    by_cases hci : c = i
    · rw [if_pos hci]; exact hlt.le
    · rw [if_neg hci]
      exact hlt.le.trans (hcp ▸ o.off c hc1 hc hci (by omega))

/-- The sift up ends with the element in its place. -/
theorem bubbleUpFrom_sifted (hl : cb.Lawful) (q : Pqueue ι) (m : σ) (x : ι) (i : Nat)
    (h : Sift cb gone q m x i) (o : UpOrder cb q m (cb.getpri m x) i) :
    Sifted cb gone q m x (bubbleUpFrom cb q m x (cb.getpri m x) i) := by
  induction i using Nat.strongRecOn generalizing q m with
  | ind i ih =>
    rw [bubbleUpFrom]
    have := h.hole_lt
    split
    · rename_i hc
      have hlt : cb.getpri m x < priAt cb q m (i / 2) := (hl.cmp_iff ..).mp hc.2
      have hk0 : 0 < i / 2 := by omega
      have hmove := h.move hl hk0 (by omega) (show i / 2 ≠ i by omega)
      have hord := UpOrder.move hl h o hc.1 hlt
      rw [← hl.getpri_setpos m (q.d (i / 2)) x i] at hord ⊢
      exact (ih (i / 2) (by omega) _ _ hmove hord).of_move hl h hk0 (by omega) (by omega)
    · rename_i hc
      refine Sifted.of_finish hl h (h.finish hl o.off (fun hi => ?_) o.below)
      by_contra hlt
      exact hc ⟨hi, (hl.cmp_iff ..).mpr (not_le.mp hlt)⟩

/-! ### Sifting down -/

/-- The hole goes down to the smaller child. -/
theorem DownOrder.move (hl : cb.Lawful) (h : Sift cb gone q m x i)
    (o : DownOrder cb q m (cb.getpri m x) i) {k : Nat} (hk : k < q.size) (hkp : k / 2 = i)
    (hmin : ∀ c, c < q.size → c / 2 = i → priAt cb q m k ≤ priAt cb q m c)
    (hlt : priAt cb q m k < cb.getpri m x) :
    DownOrder cb (q.put i (q.d k)) (cb.setpos m (q.d k) i) (cb.getpri m x) k := by
  have hi0 := h.hole_pos
  have hpri : ∀ j, priAt cb (q.put i (q.d k)) (cb.setpos m (q.d k) i) j =
      if j = i then priAt cb q m k else priAt cb q m j := by
    intro j
    unfold priAt
    rw [hl.getpri_setpos]
    by_cases hj : j = i
    · subst hj; rw [put_same, if_pos rfl]
    · rw [put_other _ _ hj, if_neg hj]
  refine ⟨?_, ?_, ?_⟩
  · intro j hj1 hj hjk hjkp
    simp only [put_size] at hj
    rw [hpri, hpri]
    by_cases hji : j = i
    · subst hji
      rw [if_neg (by omega), if_pos rfl]
      exact o.grand hj1 k hk hkp
    · rw [if_neg hji]
      by_cases hp : j / 2 = i
      · rw [if_pos hp]; exact hmin j hj hp
      · rw [if_neg hp]; exact o.off j hj1 hj hji hp
  · intro _ c hc hck
    simp only [put_size] at hc
    rw [hpri, hpri, if_pos hkp, if_neg (by omega)]
    exact hck ▸ o.off c (by omega) hc (by omega) (by omega)
  · intro _
    rw [hpri, if_pos hkp]
    exact hlt.le

/-- The sift down ends with the element in its place. -/
theorem percolateDownFrom_sifted (hl : cb.Lawful) (q : Pqueue ι) (m : σ) (x : ι) (i : Nat)
    (h : Sift cb gone q m x i) (o : DownOrder cb q m (cb.getpri m x) i) :
    Sifted cb gone q m x (percolateDownFrom cb q m x (cb.getpri m x) i) := by
  induction hn : q.size - i using Nat.strongRecOn generalizing q m i with
  | ind n ih =>
    rw [percolateDownFrom]
    have hi := h.hole_lt
    have hi0 := h.hole_pos
    have hcases := maxchild_cases cb q m i
    have hmin : ∀ c, c < q.size → c / 2 = i → maxchild cb q m i ≠ 0 ∧
        priAt cb q m (maxchild cb q m i) ≤ priAt cb q m c :=
      fun c hc hp => maxchild_le hl.cmp_iff q m hc hp hi0
    generalize maxchild cb q m i = k at hcases hmin ⊢
    split
    · rename_i hc
      have hlt : priAt cb q m k < cb.getpri m x := (hl.cmp_iff ..).mp hc.2
      have hk : k < q.size := by omega
      have hki : k ≠ i := by omega
      have hmove := h.move hl (by omega) hk hki
      have hord := DownOrder.move hl h o hk (by omega) (fun c hc' hp => (hmin c hc' hp).2) hlt
      rw [← hl.getpri_setpos m (q.d k) x i] at hord ⊢
      have hr := ih (q.size - k) (by omega) (q.put i (q.d k)) (cb.setpos m (q.d k) i) k hmove hord rfl
      exact hr.of_move hl h (by omega) hk hki
    · rename_i hc
      refine Sifted.of_finish hl h (h.finish hl o.off o.above fun c _ hc' hp => ?_)
      by_contra hlt
      have hm := hmin c hc' hp
      exact hc ⟨hm.1, (hl.cmp_iff ..).mpr (hm.2.trans_lt (not_le.mp hlt))⟩

end Sifts

/-! ## The operations -/

section Operations

variable {q : Pqueue ι} {m : σ} {x : ι}

/-- Once the element that left forgets its slot, the queue is valid. -/
theorem ValidBut.drop (hl : cb.Lawful) (v : ValidBut cb (· = x) q m) :
    Valid cb q (cb.setpos m x 0) := by
  refine ⟨v.size_pos, ?_, fun _ _ _ h => h, ?_, ?_⟩
  · intro i hi0 hi
    rw [hl.getpos_setpos, if_neg (v.stays i hi0 hi)]
    exact v.pos_d i hi0 hi
  · intro y _ hpos
    rw [hl.getpos_setpos] at hpos ⊢
    by_cases hy : y = x
    · rw [if_pos hy] at hpos
      exact absurd rfl hpos
    · rw [if_neg hy] at hpos ⊢
      exact v.d_pos y hy hpos
  · intro i hi1 hi
    unfold priAt
    rw [hl.getpri_setpos, hl.getpri_setpos]
    exact v.heap i hi1 hi

/-- An element that is not queued goes in. -/
theorem insert_valid (hl : cb.Lawful) (v : Valid cb q m) (hx : ¬ Queued cb m x) :
    Sifted cb (fun _ => False) { q with size := q.size + 1 } m x (insert cb q m x) := by
  have hs := v.size_pos
  have hne : ∀ j, 0 < j → j < q.size → q.d j ≠ x := by
    intro j hj0 hj he
    have := v.pos_d j hj0 hj
    rw [he] at this
    exact hx (by unfold Queued; omega)
  have sift : Sift cb (fun _ => False) ({ q with size := q.size + 1 }.put q.size x) m x q.size := by
    refine ⟨hs, Nat.lt_succ_self _, fun h => h, ?_, ?_, ?_⟩
    · intro j hj0 hj hji
      rw [put_other _ _ hji]
      exact v.pos_d j hj0 (by simp only [put_size] at hj; omega)
    · intro j hj0 hj hji
      rw [put_other _ _ hji]
      exact ⟨fun h => h, hne j hj0 (by simp only [put_size] at hj; omega)⟩
    · intro y _ _ hpos
      obtain ⟨h1, h2⟩ := v.d_pos y (fun h => h) hpos
      refine ⟨by simp only [put_size]; omega, by omega, ?_⟩
      rw [put_other _ _ (by omega)]
      exact h2
  have ord : UpOrder cb ({ q with size := q.size + 1 }.put q.size x) m (cb.getpri m x) q.size := by
    refine ⟨?_, fun _ c hc hcp => ?_, fun c hc1 hc hcp => ?_⟩
    · intro j hj1 hj hji hjp
      simp only [put_size] at hj
      unfold priAt
      rw [put_other _ _ hji, put_other _ _ hjp]
      exact v.heap j hj1 (by omega)
    · simp only [put_size] at hc; omega
    · simp only [put_size] at hc; omega
  have h := bubbleUpFrom_sifted hl _ m x q.size sift ord
  unfold insert bubbleUp
  simp only [put_same]
  exact ⟨h.valid, h.size, h.avail, h.pri, h.queued⟩

/-- An element whose priority changes leaves a hole at its slot. -/
theorem ValidBut.sift_at (hl : cb.Lawful) (v : Valid cb q m) (hx : Queued cb m x) (newPri : Nat) :
    Sift cb (fun _ => False) q (cb.setpri m x newPri) x (cb.getpos m x) := by
  obtain ⟨hlt, hd⟩ := v.d_pos x (fun h => h) hx
  have hne : ∀ j, 0 < j → j < q.size → j ≠ cb.getpos m x → q.d j ≠ x := by
    intro j hj0 hj hji he
    have := v.pos_d j hj0 hj
    rw [he] at this
    exact hji this.symm
  refine ⟨Nat.pos_of_ne_zero hx, hlt, fun h => h, ?_, ?_, ?_⟩
  · intro j hj0 hj _
    rw [hl.getpos_setpri]
    exact v.pos_d j hj0 hj
  · exact fun j hj0 hj hji => ⟨fun h => h, hne j hj0 hj hji⟩
  · intro y _ hyx hpos
    rw [hl.getpos_setpri] at hpos ⊢
    obtain ⟨h1, h2⟩ := v.d_pos y (fun h => h) hpos
    refine ⟨h1, fun he => ?_, h2⟩
    rw [he, hd] at h2
    exact hyx h2.symm

/-- A queued element gets another priority. -/
theorem changePriority_valid (hl : cb.Lawful) (v : Valid cb q m) (hx : Queued cb m x)
    (newPri : Nat) :
    Sifted cb (fun _ => False) q (cb.setpri m x newPri) x (changePriority cb q m newPri x) := by
  obtain ⟨hlt, hd⟩ := v.d_pos x (fun h => h) hx
  have sift := ValidBut.sift_at hl v hx newPri
  have hpos0 : 0 < cb.getpos m x := Nat.pos_of_ne_zero hx
  have hnew : cb.getpri (cb.setpri m x newPri) x = newPri := by rw [hl.getpri_setpri, if_pos rfl]
  have hpri : ∀ j, 0 < j → j < q.size → priAt cb q (cb.setpri m x newPri) j =
      if j = cb.getpos m x then newPri else priAt cb q m j := by
    intro j hj0 hj
    unfold priAt
    rw [hl.getpri_setpri]
    by_cases hji : j = cb.getpos m x
    · rw [if_pos hji, hji, hd, if_pos rfl]
    · rw [if_neg hji, if_neg (sift.stays j hj0 hj hji).2]
  have hold : priAt cb q m (cb.getpos m x) = cb.getpri m x := by unfold priAt; rw [hd]
  have off : OrderedExcept cb q (cb.setpri m x newPri) (cb.getpos m x) := by
    intro j hj1 hj hji hjp
    rw [hpri _ (by omega) (by omega), hpri _ (by omega) hj, if_neg hji, if_neg hjp]
    exact v.heap j hj1 hj
  have grand : GrandOrder cb q (cb.setpri m x newPri) (cb.getpos m x) := by
    intro hi1 c hc hcp
    rw [hpri _ (by omega) (by omega), hpri _ (by omega) hc, if_neg (by omega), if_neg (by omega)]
    exact (v.heap _ hi1 hlt).trans (hcp ▸ v.heap c (by omega) hc)
  unfold changePriority bubbleUp percolateDown
  simp only [hl.getpos_setpri, hd, hnew]
  split
  · rename_i hc
    have hless : newPri < cb.getpri m x := (hl.cmp_iff ..).mp hc
    have := bubbleUpFrom_sifted hl q _ x _ sift ⟨off, grand, fun c hc1 hc hcp => by
      rw [hpri _ (by omega) hc, if_neg (by omega), hnew]
      have := v.heap c hc1 hc
      rw [hcp, hold] at this
      omega⟩
    rwa [hnew] at this
  · rename_i hc
    have hmore : cb.getpri m x ≤ newPri := by
      by_contra hlt
      exact hc ((hl.cmp_iff ..).mpr (not_le.mp hlt))
    have := percolateDownFrom_sifted hl q _ x _ sift ⟨off, grand, fun hi1 => by
      rw [hpri _ (by omega) (by omega), if_neg (by omega), hnew]
      have := v.heap _ hi1 hlt
      rw [hold] at this
      omega⟩
    rwa [hnew] at this

/-- What taking `x` out leaves, once `x` forgets its slot. -/
structure Removed (cb : Callbacks σ ι) (q : Pqueue ι) (m : σ) (x : ι) (r : Pqueue ι × σ) : Prop where
  valid : Valid cb r.1 (cb.setpos r.2 x 0)
  size : r.1.size + 1 = q.size
  avail : r.1.avail = q.avail
  pri : ∀ y, cb.getpri r.2 y = cb.getpri m y
  queued : ∀ y, y ≠ x → (Queued cb r.2 y ↔ Queued cb m y)

omit [DecidableEq ι] in
/-- The element in the last slot, in hand over the slot `x` leaves. -/
theorem ValidBut.sift_last (v : Valid cb q m) (hx : Queued cb m x)
    (hlast : cb.getpos m x ≠ q.size - 1) :
    Sift cb (· = x) ({ q with size := q.size - 1 }.put (cb.getpos m x) (q.d (q.size - 1))) m
      (q.d (q.size - 1)) (cb.getpos m x) := by
  obtain ⟨hlt, hd⟩ := v.d_pos x (fun h => h) hx
  have hpos0 : 0 < cb.getpos m x := Nat.pos_of_ne_zero hx
  have hne : ∀ j, 0 < j → j < q.size → j ≠ cb.getpos m x → q.d j ≠ x := by
    intro j hj0 hj hji he
    have := v.pos_d j hj0 hj
    rw [he] at this
    exact hji this.symm
  refine ⟨hpos0, by simp only [put_size]; omega, hne _ (by omega) (by omega) (by omega), ?_, ?_, ?_⟩
  · intro j hj0 hj hji
    simp only [put_size] at hj
    rw [put_other _ _ hji]
    exact v.pos_d j hj0 (by omega)
  · intro j hj0 hj hji
    simp only [put_size] at hj
    rw [put_other _ _ hji]
    refine ⟨hne j hj0 (by omega) hji, fun he => ?_⟩
    have := v.d_injective hj0 (by omega) (by omega) (by omega) he
    omega
  · intro y hyx hylast hpos
    obtain ⟨h1, h2⟩ := v.d_pos y (fun h => h) hpos
    have hyi : cb.getpos m y ≠ cb.getpos m x := fun he => hyx (by rw [← h2, he, hd])
    refine ⟨?_, hyi, ?_⟩
    · simp only [put_size]
      have : cb.getpos m y ≠ q.size - 1 := fun he => hylast (by rw [← h2, he])
      omega
    · rw [put_other _ _ hyi]
      exact h2

/-- The last element has taken the place of the removed one. -/
theorem Removed.of_sifted (hl : cb.Lawful) (v : Valid cb q m) (hx : Queued cb m x)
    (hlast : cb.getpos m x ≠ q.size - 1) {r : Pqueue ι × σ}
    (s : Sifted cb (· = x) ({ q with size := q.size - 1 }.put (cb.getpos m x) (q.d (q.size - 1))) m
      (q.d (q.size - 1)) r) : Removed cb q m x r := by
  obtain ⟨hlt, hd⟩ := v.d_pos x (fun h => h) hx
  refine ⟨s.valid.drop hl, ?_, s.avail, s.pri, fun y hy => ?_⟩
  · rw [s.size]; simp only [put_size]; omega
  · rw [s.queued y hy]
    refine ⟨fun h => ?_, .inr⟩
    rcases h with rfl | h
    · unfold Queued
      rw [v.pos_d _ (by omega) (by omega)]
      omega
    · exact h

/-- The last slot's element leaves without a sift: the loop finds no child. -/
theorem Removed.of_last (hl : cb.Lawful) (v : Valid cb q m) (hx : Queued cb m x)
    (hlast : cb.getpos m x = q.size - 1) :
    Removed cb q m x (percolateDown cb
      ({ q with size := q.size - 1 }.put (cb.getpos m x) (q.d (q.size - 1))) m (cb.getpos m x)) := by
  obtain ⟨hlt, hd⟩ := v.d_pos x (fun h => h) hx
  have hpos0 : 0 < cb.getpos m x := Nat.pos_of_ne_zero hx
  have hx' : q.d (q.size - 1) = x := by rw [← hlast]; exact hd
  have hnone : maxchild cb ({ q with size := q.size - 1 }.put (cb.getpos m x) x) m
      (cb.getpos m x) = 0 := by
    unfold maxchild
    exact if_pos (by simp only [put_size]; omega)
  unfold percolateDown
  rw [hx', put_same, percolateDownFrom, hnone, if_neg (fun h => h.1 rfl)]
  have hd' : ∀ j, j < q.size - 1 →
      ((({ q with size := q.size - 1 } : Pqueue ι).put (cb.getpos m x) x).put (cb.getpos m x) x).d j = q.d j := by
    intro j hj
    rw [put_other _ _ (by omega), put_other _ _ (by omega)]
  have hne : ∀ j, 0 < j → j < q.size - 1 → q.d j ≠ x := by
    intro j hj0 hj he
    have := v.pos_d j hj0 (by omega)
    rw [he] at this
    omega
  refine ⟨⟨?_, ?_, fun _ _ _ h => h, ?_, ?_⟩, ?_, rfl, fun y => hl.getpri_setpos .., ?_⟩
  · simp only [put_size]; omega
  · intro j hj0 hj
    simp only [put_size] at hj
    rw [hd' j hj, hl.getpos_setpos, if_neg (hne j hj0 hj), hl.getpos_setpos,
      if_neg (hne j hj0 hj)]
    exact v.pos_d j hj0 (by omega)
  · intro y _ hpos
    rw [hl.getpos_setpos, hl.getpos_setpos] at hpos ⊢
    by_cases hy : y = x
    · rw [if_pos hy] at hpos
      exact absurd rfl hpos
    · rw [if_neg hy, if_neg hy] at hpos ⊢
      obtain ⟨h1, h2⟩ := v.d_pos y (fun h => h) hpos
      have : cb.getpos m y ≠ q.size - 1 := fun he => hy (by rw [← h2, he, hx'])
      refine ⟨by simp only [put_size]; omega, ?_⟩
      rw [hd' _ (by omega)]
      exact h2
  · intro j hj1 hj
    simp only [put_size] at hj
    unfold priAt
    rw [hl.getpri_setpos, hl.getpri_setpos, hl.getpri_setpos, hl.getpri_setpos, hd' _ (by omega),
      hd' _ hj]
    exact v.heap j hj1 (by omega)
  · simp only [put_size]; omega
  · intro y hy
    unfold Queued
    rw [hl.getpos_setpos, if_neg hy]

/-- A queued element goes out. -/
theorem remove_valid (hl : cb.Lawful) (v : Valid cb q m) (hx : Queued cb m x) :
    Removed cb q m x (remove cb q m x) := by
  obtain ⟨hlt, hd⟩ := v.d_pos x (fun h => h) hx
  have hpos0 : 0 < cb.getpos m x := Nat.pos_of_ne_zero hx
  unfold remove
  dsimp only
  rw [put_same]
  by_cases hlast : cb.getpos m x = q.size - 1
  · rw [if_neg]
    · exact Removed.of_last hl v hx hlast
    · rw [← hlast, hd, hl.cmp_iff]
      exact lt_irrefl _
  · have sift := v.sift_last hx hlast
    have hpri : ∀ j, j ≠ cb.getpos m x → priAt cb
        ({ q with size := q.size - 1 }.put (cb.getpos m x) (q.d (q.size - 1))) m j = priAt cb q m j := by
      intro j hj
      unfold priAt
      rw [put_other _ _ hj]
    have hold : priAt cb q m (cb.getpos m x) = cb.getpri m x := by unfold priAt; rw [hd]
    have off : OrderedExcept cb
        ({ q with size := q.size - 1 }.put (cb.getpos m x) (q.d (q.size - 1))) m (cb.getpos m x) := by
      intro j hj1 hj hji hjp
      simp only [put_size] at hj
      rw [hpri _ hji, hpri _ hjp]
      exact v.heap j hj1 (by omega)
    have grand : GrandOrder cb
        ({ q with size := q.size - 1 }.put (cb.getpos m x) (q.d (q.size - 1))) m (cb.getpos m x) := by
      intro hi1 c hc hcp
      simp only [put_size] at hc
      rw [hpri _ (by omega), hpri _ (by omega)]
      exact (v.heap _ hi1 hlt).trans (hcp ▸ v.heap c (by omega) (by omega))
    apply Removed.of_sifted hl v hx hlast
    unfold bubbleUp percolateDown
    rw [put_same]
    split
    · rename_i hc
      have hless := (hl.cmp_iff ..).mp hc
      refine bubbleUpFrom_sifted hl _ m _ _ sift ⟨off, grand, fun c hc1 hc hcp => ?_⟩
      simp only [put_size] at hc
      rw [hpri _ (by omega)]
      have := v.heap c hc1 (by omega)
      rw [hcp, hold] at this
      omega
    · rename_i hc
      refine percolateDownFrom_sifted hl _ m _ _ sift ⟨off, grand, fun hi1 => ?_⟩
      rw [hpri _ (by omega)]
      have h1 := v.heap _ hi1 hlt
      rw [hold] at h1
      by_contra hlt'
      exact hc ((hl.cmp_iff ..).mpr (by omega))

/-- `pop` answers the root and takes it out. -/
theorem pop_valid (hl : cb.Lawful) (v : Valid cb q m) (hne : q.size ≠ 1) :
    ∃ r, pop cb q m = (some (q.d 1), r) ∧ Queued cb m (q.d 1) ∧ Removed cb q m (q.d 1) r := by
  have hs := v.size_pos
  have hpos : cb.getpos m (q.d 1) = 1 := v.pos_d 1 (by omega) (by omega)
  have hx : Queued cb m (q.d 1) := by unfold Queued; omega
  unfold pop
  rw [if_neg hne]
  refine ⟨_, rfl, hx, ?_⟩
  by_cases hlast : cb.getpos m (q.d 1) = q.size - 1
  · have := Removed.of_last hl v hx hlast
    rwa [hpos] at this
  · have sift := v.sift_last hx hlast
    have hsifted := percolateDownFrom_sifted hl _ m _ _ sift ⟨?_, ?_, ?_⟩
    · have := Removed.of_sifted hl v hx hlast hsifted
      rw [hpos] at this
      unfold percolateDown
      rwa [put_same]
    · intro j hj1 hj hji hjp
      simp only [put_size] at hj
      unfold priAt
      rw [put_other _ _ hji, put_other _ _ hjp]
      exact v.heap j hj1 (by omega)
    · intro hi1
      omega
    · intro hi1
      omega

end Operations

end Pqueue

end NvmeVirt

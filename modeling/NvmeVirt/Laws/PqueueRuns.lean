import NvmeVirt.Lib.PriorityMap
import NvmeVirt.Lib.System
import NvmeVirt.Laws.Pqueue
import NvmeVirt.Laws.Conv.Lines

/-!
# The queue as a priority map

A run inserts, pops, removes and changes priorities in any order; an element that leaves the queue
gets position 0 from the caller, and priorities of elements outside the queue change as they like.
Every operation does to the priorities of the queued elements (`view`) what it does to a priority
map (`Lib/PriorityMap`), so popping until nothing is left lists them in order.

`Fits` adds to the heap of `Laws/Pqueue` that the array has room. `pqueue_is_valid` checks it from
the root down, with the bounds of a subtree by doubling; `HeapUnder` is the order of all nodes below
one, and the check decides it.

The caller's part is in the guards of the steps: what is inserted is not queued, and what is removed
or changed is.
-/

set_option autoImplicit false

namespace NvmeVirt

open PriorityMap

namespace Pqueue

variable {σ ι : Type} {cb : Callbacks σ ι} {q : Pqueue ι} {m : σ}

/-! ## The validity check -/

section Check

/-- Slot `i` lies under slot `pos`. -/
def Under (pos i : Nat) : Prop := ∃ k, i / 2 ^ k = pos

theorem under_one {i : Nat} (hi : 0 < i) : Under 1 i := by
  induction i using Nat.strongRecOn with
  | ind i ih =>
    by_cases hone : i = 1
    · exact ⟨0, by rw [hone, pow_zero, Nat.div_one]⟩
    · obtain ⟨k, hk⟩ := ih (i / 2) (by omega) (by omega)
      exact ⟨k + 1, by rw [pow_succ', ← Nat.div_div_eq_div_mul, hk]⟩

/-- What lies under a slot is the slot, or lies under one of its children. -/
theorem under_iff {pos i : Nat} (hpos : 0 < pos) :
    Under pos i ↔ i = pos ∨ Under (pos * 2) i ∨ Under (pos * 2 + 1) i := by
  constructor
  · rintro ⟨k, hk⟩
    cases k with
    | zero => exact .inl (by simpa using hk)
    | succ k =>
      have hhalf : i / 2 ^ k / 2 = pos := by rw [Nat.div_div_eq_div_mul, ← pow_succ, hk]
      have hchild : i / 2 ^ k = pos * 2 ∨ i / 2 ^ k = pos * 2 + 1 := by omega
      exact .inr (hchild.imp (fun h => ⟨k, h⟩) fun h => ⟨k, h⟩)
  · rintro (rfl | ⟨k, hk⟩ | ⟨k, hk⟩)
    · exact ⟨0, by simp⟩
    · exact ⟨k + 1, by rw [pow_succ, ← Nat.div_div_eq_div_mul, hk]; omega⟩
    · exact ⟨k + 1, by rw [pow_succ, ← Nat.div_div_eq_div_mul, hk]; omega⟩

/-- A node stands behind what it is under. -/
theorem Under.le {pos i : Nat} (h : Under pos i) : pos ≤ i := by
  obtain ⟨k, rfl⟩ := h
  exact Nat.div_le_self _ _

/-- The slots under `pos` are in heap order. -/
def HeapUnder (cb : Callbacks σ ι) (q : Pqueue ι) (m : σ) (pos : Nat) : Prop :=
  ∀ i, Under pos i → i ≠ pos → i < q.size → priAt cb q m (i / 2) ≤ priAt cb q m i

/-- One child: the order to it, and the order under it. -/
theorem heapUnder_child {pos child : Nat} (hchild : child / 2 = pos) :
    (∀ i, Under child i → i < q.size → priAt cb q m (i / 2) ≤ priAt cb q m i) ↔
      (child < q.size → priAt cb q m pos ≤ priAt cb q m child ∧ HeapUnder cb q m child) := by
  constructor
  · intro h hin
    refine ⟨hchild ▸ h child ⟨0, by simp⟩ hin, fun i hi _ hsize => h i hi hsize⟩
  · intro h i hi hsize
    obtain ⟨hfirst, hrest⟩ := h (Nat.lt_of_le_of_lt hi.le hsize)
    by_cases hself : i = child
    · rw [hself, hchild]
      exact hfirst
    · exact hrest i hi hself hsize

/-- The order below a node, by its two children. -/
theorem heapUnder_iff {pos : Nat} (hpos : 0 < pos) : HeapUnder cb q m pos ↔
    (pos * 2 < q.size → priAt cb q m pos ≤ priAt cb q m (pos * 2) ∧ HeapUnder cb q m (pos * 2)) ∧
    (pos * 2 + 1 < q.size →
      priAt cb q m pos ≤ priAt cb q m (pos * 2 + 1) ∧ HeapUnder cb q m (pos * 2 + 1)) := by
  rw [← heapUnder_child (by omega), ← heapUnder_child (by omega)]
  constructor
  · intro h
    refine ⟨fun i hi => h i ((under_iff hpos).mpr (.inr (.inl hi))) ?_,
      fun i hi => h i ((under_iff hpos).mpr (.inr (.inr hi))) ?_⟩
    · have := hi.le
      omega
    · have := hi.le
      omega
  · rintro ⟨hleft, hright⟩ i hi hne hsize
    rcases (under_iff hpos).mp hi with hself | hunder | hunder
    · exact absurd hself hne
    · exact hleft i hunder hsize
    · exact hright i hunder hsize

/-- The check decides the order below a node. -/
theorem subtreeIsValid_iff (hcmp : ∀ a b, cb.cmppri a b = true ↔ b < a) (q : Pqueue ι) (m : σ)
    (pos : Nat) (hpos : 0 < pos) :
    subtreeIsValid cb q m pos hpos = true ↔ HeapUnder cb q m pos := by
  have hle : ∀ a b, (!cb.cmppri a b) = true ↔ a ≤ b := by
    intro a b
    rw [Bool.not_eq_true', ← Bool.not_eq_true, hcmp, Nat.not_lt]
  induction hn : q.size - pos using Nat.strongRecOn generalizing pos with
  | ind n ih =>
    have child : ∀ c (hc : 0 < c), pos < c →
        ((if c < q.size then !cb.cmppri (cb.getpri m (q.d pos)) (cb.getpri m (q.d c)) &&
            subtreeIsValid cb q m c hc else true) = true ↔
          (c < q.size → priAt cb q m pos ≤ priAt cb q m c ∧ HeapUnder cb q m c)) := by
      intro c hc hlt
      split
      · rename_i hin
        have hunder := ih (q.size - c) (by omega) c hc rfl
        rw [Bool.and_eq_true, hle]
        exact ⟨fun h _ => ⟨h.1, hunder.mp h.2⟩, fun h => ⟨(h hin).1, hunder.mpr (h hin).2⟩⟩
      · rename_i hout
        exact ⟨fun _ hin => absurd hin hout, fun _ => rfl⟩
    rw [subtreeIsValid, heapUnder_iff hpos, Bool.and_eq_true]
    exact and_congr (child (pos * 2) _ (by omega)) (child (pos * 2 + 1) _ (by omega))

/-- The check accepts the arrays in heap order, and no others. -/
theorem pqueueIsValid_iff_heap (hcmp : ∀ a b, cb.cmppri a b = true ↔ b < a) :
    pqueueIsValid cb q m = true ↔
      ∀ i, 1 < i → i < q.size → priAt cb q m (i / 2) ≤ priAt cb q m i := by
  unfold pqueueIsValid
  rw [subtreeIsValid_iff hcmp]
  constructor
  · exact fun h i hi => h i (under_one (by omega)) (by omega)
  · intro h i hi hne hsize
    have hle := hi.le
    exact h i (by omega) hsize

end Check

/-! ## Runs -/

section Runs

variable {s s' : Pqueue ι × σ} {op : Op ι} {n : Nat} {junk : ι}

/-- The priorities of the queued elements. -/
def view (cb : Callbacks σ ι) (m : σ) : PriorityMap ι :=
  fun x => if cb.getpos m x = 0 then none else some (cb.getpri m x)

/-- The steps the callers of the queue take. -/
inductive PqStep (cb : Callbacks σ ι) : Pqueue ι × σ → Op ι → Pqueue ι × σ → Prop where
  | insert {q : Pqueue ι} {m : σ} {x : ι} : ¬ Queued cb m x → q.size < q.avail →
    PqStep cb (q, m) (.insert x (cb.getpri m x)) (insert cb q m x)
  | popEmpty {q : Pqueue ι} {m : σ} : (pop cb q m).1 = none → PqStep cb (q, m) (.pop none) (q, m)
  | pop {q q' : Pqueue ι} {m m' : σ} {x : ι} : pop cb q m = (some x, q', m') →
    PqStep cb (q, m) (.pop (some x)) (q', cb.setpos m' x 0)
  | changePriority {q : Pqueue ι} {m : σ} {x : ι} {pri : Nat} : Queued cb m x →
    PqStep cb (q, m) (.changePriority x pri) (changePriority cb q m pri x)
  | remove {q q' : Pqueue ι} {m m' : σ} {x : ι} : Queued cb m x → remove cb q m x = (q', m') →
    PqStep cb (q, m) (.remove x) (q', cb.setpos m' x 0)
  | outside {q : Pqueue ι} {m : σ} {x : ι} {pri : Nat} : ¬ Queued cb m x →
    PqStep cb (q, m) .outside (q, cb.setpri m x pri)

/-- Runs from `pqueue_init`, with no element in the queue. -/
def pqRuns (cb : Callbacks σ ι) (n : Nat) (junk : ι) : System (Pqueue ι × σ) (Op ι) where
  init s := s.1 = init n junk ∧ ∀ x, ¬ Queued cb s.2 x
  step := PqStep cb

theorem view_eq_none {x : ι} : view cb m x = none ↔ ¬ Queued cb m x := by
  unfold view Queued
  split <;> simp [*]

theorem view_of_queued {x : ι} (h : Queued cb m x) : view cb m x = some (cb.getpri m x) := if_neg h

/-- The queue is a heap of the queued elements, in its array. -/
structure Fits (cb : Callbacks σ ι) (s : Pqueue ι × σ) : Prop where
  valid : Valid cb s.1 s.2
  size : s.1.size ≤ s.1.avail

/-- A new queue is empty. -/
theorem Fits.init (hnone : ∀ x, ¬ Queued cb m x) : Fits cb (Pqueue.init n junk, m) := by
  refine ⟨⟨Nat.one_pos, fun i hi hlt => ?_, fun _ _ _ h => h, fun x _ hx => absurd hx (hnone x),
    fun i hi hlt => ?_⟩, Nat.le_add_left 1 n⟩
  · have hlt' : i < 1 := hlt
    omega
  · have hlt' : i < 1 := hlt
    omega

/-- After a removal, once the caller has set the position. -/
theorem Removed.fits {x : ι} {r : Pqueue ι × σ} (h : Removed cb q m x r) (hsize : q.size ≤ q.avail) :
    Fits cb (r.1, cb.setpos r.2 x 0) := by
  have hless := h.size
  have havail := h.avail
  exact ⟨h.valid, by dsimp only; omega⟩

/-- The root goes first. -/
theorem Valid.root_least (v : Valid cb q m) (y : ι) (hy : Queued cb m y) :
    cb.getpri m (q.d 1) ≤ cb.getpri m y := by
  obtain ⟨hlt, hd⟩ := v.d_pos y (fun h => h) hy
  have hroot := v.root_le (cb.getpos m y) (Nat.pos_of_ne_zero hy) hlt
  unfold priAt at hroot
  rwa [hd] at hroot

/-- A queue of size 1 has nothing in it. -/
theorem Fits.empty (h : Fits cb (q, m)) (hone : q.size = 1) (x : ι) : view cb m x = none := by
  rw [view_eq_none]
  intro hx
  obtain ⟨hlt, _⟩ := h.valid.d_pos x (fun h => h) hx
  have hpos := Nat.pos_of_ne_zero hx
  dsimp only at hlt
  omega

/-- Only an empty queue pops nothing. -/
theorem pop_eq_none (h : (pop cb q m).1 = none) : q.size = 1 := by
  unfold pop at h
  split at h
  · assumption
  · cases h

variable [DecidableEq ι]

/-- One element changes. -/
theorem view_update {m' : σ} {x : ι}
    (hother : ∀ y, y ≠ x → (Queued cb m' y ↔ Queued cb m y) ∧ cb.getpri m' y = cb.getpri m y) :
    view cb m' = Function.update (view cb m) x (view cb m' x) := by
  ext1 y
  by_cases hy : y = x
  · rw [hy, Function.update_self]
  · obtain ⟨hqueued, hpri⟩ := hother y hy
    rw [Function.update_of_ne hy]
    by_cases hin : Queued cb m y
    · rw [view_of_queued hin, view_of_queued (hqueued.mpr hin), hpri]
    · rw [view_eq_none.mpr hin, view_eq_none.mpr fun h => hin (hqueued.mp h)]

/-- An element that is taken out, and gets position 0 from the caller. -/
theorem Removed.view {x : ι} (hl : cb.Lawful) {r : Pqueue ι × σ} (h : Removed cb q m x r) :
    Pqueue.view cb (cb.setpos r.2 x 0) = Function.update (Pqueue.view cb m) x none := by
  have hself : Pqueue.view cb (cb.setpos r.2 x 0) x = none := by
    unfold Pqueue.view
    rw [hl.getpos_setpos, if_pos rfl, if_pos rfl]
  rw [← hself]
  apply view_update
  intro y hy
  refine ⟨?_, (hl.getpri_setpos ..).trans (h.pri y)⟩
  rw [← h.queued y hy]
  unfold Queued
  rw [hl.getpos_setpos, if_neg hy]

/-- A pop gives an element of least priority. -/
theorem Fits.popped (hl : cb.Lawful) (h : Fits cb (q, m)) (hne : q.size ≠ 1) :
    ∃ r, pop cb q m = (some (q.d 1), r) ∧ Removed cb q m (q.d 1) r ∧
      Popped (view cb m) (q.d 1) (view cb (cb.setpos r.2 (q.d 1) 0)) := by
  obtain ⟨r, hpop, hqueued, hremoved⟩ := pop_valid hl h.valid hne
  refine ⟨r, hpop, hremoved, ?_, fun y p p' hp hp' => ?_, hremoved.view hl⟩
  · rw [view_of_queued hqueued]
    exact Option.some_ne_none _
  · have hy : Queued cb m y := by
      by_contra hnot
      rw [view_eq_none.mpr hnot] at hp'
      cases hp'
    rw [view_of_queued hqueued] at hp
    rw [view_of_queued hy] at hp'
    cases hp
    cases hp'
    exact Valid.root_least h.valid y hy

/-- Every operation keeps the queue, and does to its map what it should. -/
theorem Fits.step (hl : cb.Lawful) (h : Fits cb s) (hstep : PqStep cb s op s') :
    Fits cb s' ∧ Applies (view cb s.2) op (view cb s'.2) := by
  cases hstep with
  | @insert q m x hx hroom =>
    have hsifted := insert_valid hl h.valid hx
    have hview : view cb (insert cb q m x).2 =
        Function.update (view cb m) x (some (cb.getpri m x)) := by
      have hin : Queued cb (insert cb q m x).2 x := (hsifted.queued x fun h => h).mpr (.inl rfl)
      rw [← hsifted.pri x, ← view_of_queued hin]
      apply view_update
      intro y hy
      exact ⟨(hsifted.queued y fun h => h).trans (or_iff_right hy), hsifted.pri y⟩
    refine ⟨⟨hsifted.valid, ?_⟩, hview ▸ .insert (view_eq_none.mpr hx)⟩
    have hsize := hsifted.size
    have havail := hsifted.avail
    dsimp only at hsize havail ⊢
    omega
  | @popEmpty q m hnone => exact ⟨h, .popEmpty (h.empty (pop_eq_none hnone))⟩
  | @pop q q' m m' x hpop =>
    have hne : q.size ≠ 1 := by
      intro hone
      unfold pop at hpop
      rw [if_pos hone] at hpop
      cases hpop
    obtain ⟨r, hpop', hremoved, hpopped⟩ := h.popped hl hne
    rw [hpop] at hpop'
    cases hpop'
    exact ⟨hremoved.fits h.size, .pop hpopped⟩
  | @changePriority q m x pri hx =>
    have hsifted := changePriority_valid hl h.valid hx pri
    have hin : Queued cb (changePriority cb q m pri x).2 x :=
      (hsifted.queued x fun h => h).mpr (.inl rfl)
    have hview : view cb (changePriority cb q m pri x).2 =
        Function.update (view cb m) x (some pri) := by
      have hpri : cb.getpri (changePriority cb q m pri x).2 x = pri := by
        rw [hsifted.pri x, hl.getpri_setpri, if_pos rfl]
      have hself : view cb (changePriority cb q m pri x).2 x = some pri := by
        rw [view_of_queued hin, hpri]
      rw [← hself]
      apply view_update
      intro y hy
      refine ⟨?_, ?_⟩
      · rw [hsifted.queued y fun h => h, or_iff_right hy]
        unfold Queued
        rw [hl.getpos_setpri]
      · rw [hsifted.pri y, hl.getpri_setpri, if_neg hy]
    refine ⟨⟨hsifted.valid, ?_⟩, hview ▸ .changePriority ?_⟩
    · rw [hsifted.size, hsifted.avail]
      exact h.size
    · rw [view_of_queued hx]
      exact Option.some_ne_none _
  | @remove q q' m m' x hx hremove =>
    have hremoved := remove_valid hl h.valid hx
    rw [hremove] at hremoved
    refine ⟨hremoved.fits h.size, ?_⟩
    rw [hremoved.view hl]
    refine .remove ?_
    rw [view_of_queued hx]
    exact Option.some_ne_none _
  | @outside q m x pri hx =>
    have hpri : ∀ y, Queued cb m y → cb.getpri (cb.setpri m x pri) y = cb.getpri m y := by
      intro y hy
      rw [hl.getpri_setpri, if_neg]
      rintro rfl
      exact hx hy
    refine ⟨⟨h.valid.congr_queued (fun y => hl.getpos_setpri ..) hpri, h.size⟩, ?_⟩
    have hview : view cb (cb.setpri m x pri) = view cb m := by
      ext1 y
      unfold view
      rw [hl.getpos_setpri]
      split
      · rfl
      · rename_i hy
        rw [hpri y hy]
    rw [hview]
    exact .outside

/-- By induction over the operations, for any lawful callbacks. -/
theorem pqRuns_fits (hl : cb.Lawful) : (pqRuns cb n junk).Invariant (Fits cb) where
  init s hs := by
    obtain ⟨q, m⟩ := s
    obtain ⟨rfl, hnone⟩ := hs
    exact .init hnone
  step _ _ _ hs hstep := (hs.step hl hstep).1

/-- The elements that come out of so many pops. -/
def drain (cb : Callbacks σ ι) : Nat → Pqueue ι → σ → List ι
  | 0, _, _ => []
  | n + 1, q, m =>
    match pop cb q m with
    | (none, _) => []
    | (some x, q', m') => x :: drain cb n q' (cb.setpos m' x 0)

/-- Popping until the queue is empty. -/
theorem Fits.drain_pops (hl : cb.Lawful) : ∀ (k : Nat) (q : Pqueue ι) (m : σ), Fits cb (q, m) →
    q.size = k + 1 → ∃ f', Pops (view cb m) (drain cb k q m) f' ∧ ∀ x, f' x = none := by
  intro k
  induction k with
  | zero =>
    intro q m h hsize
    exact ⟨view cb m, rfl, h.empty hsize⟩
  | succ k ih =>
    intro q m h hsize
    obtain ⟨r, hpop, hremoved, hpopped⟩ := h.popped hl (by omega)
    have hless := hremoved.size
    obtain ⟨f', hpops, hempty⟩ := ih r.1 _ (hremoved.fits h.size) (by omega)
    refine ⟨f', ?_, hempty⟩
    have hdrain : drain cb (k + 1) q m = q.d 1 :: drain cb k r.1 (cb.setpos r.2 (q.d 1) 0) := by
      simp only [drain, hpop]
    rw [hdrain]
    exact ⟨_, hpopped, hpops⟩

/-- In every run the queue is a priority map: it stays in its array, the check accepts it, as it
does the arrays in heap order and no others, every operation does what it does to the map, and
popping until nothing is left lists all elements in the order of their priorities. The callbacks are
those of any element type that store a position and a priority; elements are inserted when they are
not queued, with position 0, and removed or changed when they are. -/
theorem pqueue_is_priority_map (hl : cb.Lawful) (h : (pqRuns cb n junk).Reachable s) :
    s.1.size ≤ s.1.avail ∧ pqueueIsValid cb s.1 s.2 = true ∧
      (∀ q m, pqueueIsValid cb q m = true ↔
        ∀ i, 1 < i → i < q.size → priAt cb q m (i / 2) ≤ priAt cb q m i) ∧
      (∀ op s', PqStep cb s op s' → Applies (view cb s.2) op (view cb s'.2)) ∧
      Drained (view cb s.2) (drain cb (pqueueSize s.1) s.1 s.2) := by
  have hfits := (pqRuns_fits hl).reachable h
  have hsize : s.1.size = pqueueSize s.1 + 1 := (Nat.sub_add_cancel hfits.valid.size_pos).symm
  obtain ⟨f', hpops, hempty⟩ := Fits.drain_pops hl _ s.1 s.2 hfits hsize
  exact ⟨hfits.size, (pqueueIsValid_iff_heap hl.cmp_iff).mpr hfits.valid.heap,
    fun _ _ => pqueueIsValid_iff_heap hl.cmp_iff, fun _ _ hstep => (hfits.step hl hstep).2, hpops.drained hempty⟩

/-- Lines outside the queue, the later ones with fewer valid pages. -/
def fewerLater : Lines := fun i =>
  { id := i, ipc := 0, vpc := 9 - i, pos := 0, lastModifiedTime := 0, eraseCnt := 0 }

/-- Two elements, which come out by priority. -/
theorem pqueue_is_priority_map_two : ∃ s, (pqRuns victimLine 2 0).Reachable s ∧
    drain victimLine (pqueueSize s.1) s.1 s.2 = [2, 1] ∧
    Drained (view victimLine s.2) (drain victimLine (pqueueSize s.1) s.1 s.2) := by
  have hinit : (pqRuns victimLine 2 0).Reachable (init 2 0, fewerLater) :=
    .init ⟨rfl, fun x h => h rfl⟩
  have hone := hinit.step (PqStep.insert (show ¬ Queued victimLine fewerLater 1 from fun h => h rfl)
    (by decide))
  have hfree : ¬ Queued victimLine (insert victimLine (init 2 0) fewerLater 1).2 2 := by
    unfold Queued
    decide +kernel
  have htwo := hone.step (PqStep.insert hfree (by decide +kernel))
  exact ⟨_, htwo, by decide +kernel, (pqueue_is_priority_map victimLine_lawful htwo).2.2.2.2⟩

end Runs

end Pqueue

end NvmeVirt

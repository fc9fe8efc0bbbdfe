import Mathlib.Logic.Function.Basic

/-!
# The priority queue (`pqueue/pqueue.c`)

A binary heap in an array whose slot 0 is unused. The queue holds references; the elements live in
a memory `σ`, and the queue reaches their priority and their position only through the callbacks it
was initialised with, as in the C code. `bubbleUp` and `percolateDown` carry the moving element in
hand and write it once, at the slot where the loop stops.
-/

set_option autoImplicit false

namespace NvmeVirt

/-- The callbacks of `pqueue_init`. -/
structure Callbacks (σ ι : Type) where
  cmppri : Nat → Nat → Bool
  getpri : σ → ι → Nat
  setpri : σ → ι → Nat → σ
  getpos : σ → ι → Nat
  setpos : σ → ι → Nat → σ

/-- `pqueue_t`: `size` counts the unused slot 0, so the elements are `d 1, …, d (size - 1)`. -/
structure Pqueue (ι : Type) where
  size : Nat
  avail : Nat
  d : Nat → ι

namespace Pqueue

variable {σ ι : Type}

/-- `q->d[i] = x`. -/
def put (q : Pqueue ι) (i : Nat) (x : ι) : Pqueue ι := { q with d := Function.update q.d i x }

@[simp] theorem put_size (q : Pqueue ι) (i : Nat) (x : ι) : (q.put i x).size = q.size := rfl

@[simp] theorem put_same (q : Pqueue ι) (i : Nat) (x : ι) : (q.put i x).d i = x := by simp [put]

theorem put_other (q : Pqueue ι) {i j : Nat} (x : ι) (h : j ≠ i) : (q.put i x).d j = q.d j := by
  simp [put, h]

/-- `pqueue_init`; the fresh array holds nothing that is read before it is written. -/
def init (n : Nat) (junk : ι) : Pqueue ι := { size := 1, avail := n + 1, d := fun _ => junk }

variable (cb : Callbacks σ ι)

/-- The loop of `bubble_up` from slot `i`, and the two writes after it. -/
def bubbleUpFrom (q : Pqueue ι) (m : σ) (moving : ι) (pri i : Nat) : Pqueue ι × σ :=
  if 1 < i ∧ cb.cmppri (cb.getpri m (q.d (i / 2))) pri = true then
    bubbleUpFrom (q.put i (q.d (i / 2))) (cb.setpos m (q.d (i / 2)) i) moving pri (i / 2)
  else
    (q.put i moving, cb.setpos m moving i)
termination_by i

def bubbleUp (q : Pqueue ι) (m : σ) (i : Nat) : Pqueue ι × σ :=
  bubbleUpFrom cb q m (q.d i) (cb.getpri m (q.d i)) i

/-- The child that goes up, 0 when there is none. -/
def maxchild (q : Pqueue ι) (m : σ) (i : Nat) : Nat :=
  let child := i * 2
  if q.size ≤ child then 0
  else if child + 1 < q.size ∧
      cb.cmppri (cb.getpri m (q.d child)) (cb.getpri m (q.d (child + 1))) = true then
    child + 1
  else child

theorem maxchild_cases (q : Pqueue ι) (m : σ) (i : Nat) :
    maxchild cb q m i = 0 ∨ (maxchild cb q m i < q.size ∧
      (maxchild cb q m i = i * 2 ∨ maxchild cb q m i = i * 2 + 1)) := by
  unfold maxchild
  dsimp only
  split
  · exact .inl rfl
  · rename_i hc
    split
    · rename_i hr
      exact .inr ⟨hr.1, .inr rfl⟩
    · exact .inr ⟨by omega, .inl rfl⟩

/-- The loop of `percolate_down` from slot `i`, and the two writes after it. -/
def percolateDownFrom (q : Pqueue ι) (m : σ) (moving : ι) (pri i : Nat) : Pqueue ι × σ :=
  if maxchild cb q m i ≠ 0 ∧ cb.cmppri pri (cb.getpri m (q.d (maxchild cb q m i))) = true then
    percolateDownFrom (q.put i (q.d (maxchild cb q m i)))
      (cb.setpos m (q.d (maxchild cb q m i)) i) moving pri (maxchild cb q m i)
  else
    (q.put i moving, cb.setpos m moving i)
termination_by q.size - i
decreasing_by
  rename_i h
  have := maxchild_cases cb q m i
  simp only [put]
  omega

def percolateDown (q : Pqueue ι) (m : σ) (i : Nat) : Pqueue ι × σ :=
  percolateDownFrom cb q m (q.d i) (cb.getpri m (q.d i)) i

def insert (q : Pqueue ι) (m : σ) (x : ι) : Pqueue ι × σ :=
  let i := q.size
  bubbleUp cb ({ q with size := q.size + 1 }.put i x) m i

def changePriority (q : Pqueue ι) (m : σ) (newPri : Nat) (x : ι) : Pqueue ι × σ :=
  let oldPri := cb.getpri m x
  let m := cb.setpri m x newPri
  let posn := cb.getpos m x
  if cb.cmppri oldPri newPri = true then bubbleUp cb q m posn else percolateDown cb q m posn

def remove (q : Pqueue ι) (m : σ) (x : ι) : Pqueue ι × σ :=
  let posn := cb.getpos m x
  let q := { q with size := q.size - 1 }.put posn (q.d (q.size - 1))
  if cb.cmppri (cb.getpri m x) (cb.getpri m (q.d posn)) = true then bubbleUp cb q m posn
  else percolateDown cb q m posn

/-- The element of least priority value, left in the queue. -/
def peek (q : Pqueue ι) : Option ι := if q.size = 1 then none else some (q.d 1)

def pop (q : Pqueue ι) (m : σ) : Option ι × Pqueue ι × σ :=
  if q.size = 1 then (none, q, m)
  else
    let head := q.d 1
    let q := { q with size := q.size - 1 }.put 1 (q.d (q.size - 1))
    (some head, percolateDown cb q m 1)

/-- `pqueue_size`. -/
def pqueueSize (q : Pqueue ι) : Nat := q.size - 1

/-- `subtree_is_valid`, which is called for slots behind slot 0. -/
def subtreeIsValid (q : Pqueue ι) (m : σ) (pos : Nat) (hpos : 0 < pos) : Bool :=
  let left := pos * 2
  let right := pos * 2 + 1
  (if left < q.size then
    !cb.cmppri (cb.getpri m (q.d pos)) (cb.getpri m (q.d left)) &&
      subtreeIsValid q m left (Nat.mul_pos hpos Nat.two_pos)
  else true) &&
  (if right < q.size then
    !cb.cmppri (cb.getpri m (q.d pos)) (cb.getpri m (q.d right)) &&
      subtreeIsValid q m right (Nat.succ_pos _)
  else true)
termination_by q.size - pos
decreasing_by
  all_goals omega

/-- `pqueue_is_valid`. -/
def pqueueIsValid (q : Pqueue ι) (m : σ) : Bool := subtreeIsValid cb q m 1 Nat.one_pos

end Pqueue

end NvmeVirt

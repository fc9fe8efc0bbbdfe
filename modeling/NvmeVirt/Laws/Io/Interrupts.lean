import NvmeVirt.Io.Interrupts

/-!
# No interrupt is lost

The flag of a queue is taken down before the signal, so a completion posted in between is signalled
too, and one posted later puts the flag up again: at any time each completion was signalled after it
was posted, or something on the way to a signal is left to do (`Covers`). Only the owner of a queue
takes its flag down, so that what is posted when the owner starts a sweep is signalled when it ends
it, whatever the others do in the meantime (`Awaits`).

The code is cut at every access to memory the workers share: the entry lock and the entry of
`__fill_cq_result`, the flag, the interrupt lock and the signal of the sweep. `Exclusive` says who
holds which lock at which place; with it each access changes what is due for one queue only
(`Covers.wrote` to `Covers.unlocked`), and the sweep of the owner gets through because it is never
blocked (`Awaits.path`).

A signal counts as delivered when `nvmev_signal_irq` is called. That an access takes effect at once
and in program order is assumed of the machine.
-/

set_option autoImplicit false

namespace NvmeVirt

/-- The worker is between `mutex_trylock` and `mutex_unlock` for the queue. -/
def IrqPlace.Holds (place : IrqPlace) (q : Nat) : Prop :=
  place = .locked q ∨ place = .found q ∨ place = .cleared q ∨ place = .unlocking q

namespace IrqRun

/-- The flag of the queue is up. -/
def Ready (s : IrqRun) (q : Nat) : Prop := ∃ cq, s.cqes q = some cq ∧ cq.interruptReady = true

/-- How often the queue was signalled. -/
def nrSignals (s : IrqRun) (q : Nat) : Nat := s.signals.countP fun e => e.1 = q

variable {s : IrqRun} {w v q q' : Nat} {cq : CompletionQueue} {place : IrqPlace}

@[simp] theorem goto_place (s : IrqRun) (w : Nat) (place : IrqPlace) (v : Nat) :
    (s.goto w place).place v = if v = w then place else s.place v :=
  Function.update_apply ..

@[simp] theorem goto_ready : (s.goto w place).Ready q ↔ s.Ready q := Iff.rfl

@[simp] theorem setCq_place : (s.setCq q cq).place = s.place := rfl

theorem setCq_ready : (s.setCq q cq).Ready q' ↔
    if q' = q then cq.interruptReady = true else s.Ready q' := by
  unfold Ready setCq
  by_cases hq : q' = q <;> simp [hq]

/-- Whether a worker watches a queue depends on nothing that changes after the queue was created. -/
theorem setCq_watches {old : CompletionQueue} (hold : s.cqes q = some old)
    (hirq : cq.irqEnabled = old.irqEnabled) : (s.setCq q cq).watches v q' = s.watches v q' := by
  unfold watches setCq
  by_cases hq : q' = q
  · simp [hq, hold, hirq]
  · simp [Function.update_of_ne hq]

end IrqRun

/-- The two locks. -/
structure Exclusive (s : IrqRun) : Prop where
  entry : ∀ q w, s.entryLock q = some w ↔ s.place w = .filled q
  irq : ∀ q w, s.irqLock q = some w ↔ (s.place w).Holds q
  watches : ∀ q w, (s.place w).Holds q → s.watches w q = true
  exists_of_filled : ∀ q w, s.place w = .filled q → (s.cqes q).isSome = true
  found : ∀ q w, s.place w = .found q → s.Ready q

namespace Exclusive

variable {s s' : IrqRun} {w v q : Nat} {cq : CompletionQueue} {place : IrqPlace}

theorem filled_eq (h : Exclusive s) (hw : s.place w = .filled q) (hv : s.place v = .filled q) : v = w :=
  Option.some.inj (((h.entry q v).mpr hv).symm.trans ((h.entry q w).mpr hw))

theorem holds_eq (h : Exclusive s) (hw : (s.place w).Holds q) (hv : (s.place v).Holds q) : v = w :=
  Option.some.inj (((h.irq q v).mpr hv).symm.trans ((h.irq q w).mpr hw))

/-- A worker goes to a place with the same locks. -/
theorem goto (h : Exclusive s) (hfilled : ∀ q, place = .filled q ↔ s.place w = .filled q)
    (hholds : ∀ q, place.Holds q ↔ (s.place w).Holds q) (hfound : ∀ q, place = .found q → s.Ready q) :
    Exclusive (s.goto w place) := by
  constructor
  · intro q v
    rw [IrqRun.goto_place]
    split
    · next hv => rw [hfilled, ← hv]; exact h.entry q v
    · exact h.entry q v
  · intro q v
    rw [IrqRun.goto_place]
    split
    · next hv => rw [hholds, ← hv]; exact h.irq q v
    · exact h.irq q v
  · intro q v hv
    rw [IrqRun.goto_place] at hv
    split at hv
    · next hvw => exact h.watches q v (hvw ▸ (hholds q).mp hv)
    · exact h.watches q v hv
  · intro q v hv
    rw [IrqRun.goto_place] at hv
    split at hv
    · exact h.exists_of_filled q w ((hfilled q).mp hv)
    · exact h.exists_of_filled q v hv
  · intro q v hv
    rw [IrqRun.goto_place] at hv
    split at hv
    · exact hfound q hv
    · exact h.found q v hv

/-- The queue changes, but neither whether it has interrupts nor a flag somebody relies on. -/
theorem setCq (h : Exclusive s) {old : CompletionQueue} (hold : s.cqes q = some old)
    (hirq : cq.irqEnabled = old.irqEnabled)
    (hfound : ∀ w, s.place w = .found q → cq.interruptReady = true) : Exclusive (s.setCq q cq) := by
  refine ⟨h.entry, h.irq, fun q' v hv => ?_, fun q' v hv => ?_, fun q' v hv => ?_⟩
  · rw [IrqRun.setCq_watches hold hirq]
    exact h.watches q' v hv
  · show (Function.update s.cqes q (some cq) q').isSome = true
    by_cases hq : q' = q
    · rw [hq, Function.update_self]
      rfl
    · rw [Function.update_of_ne hq]
      exact h.exists_of_filled q' v hv
  · rw [IrqRun.setCq_ready]
    split
    · next hq => exact hfound v (hq ▸ hv)
    · exact h.found q' v hv

/-- The history has no part in it. -/
theorem aside (h : Exclusive s) (posted covered : Nat → Nat) (signals : List (Nat × IrqSignal)) :
    Exclusive { s with posted, covered, signals } :=
  ⟨h.entry, h.irq, h.watches, h.exists_of_filled, h.found⟩

/-- A worker takes the entry lock of a queue that is free. -/
theorem takeEntry (h : Exclusive s) (hplace : s.place w = .serving) (hcq : (s.cqes q).isSome = true)
    (hlock : s.entryLock q = none) :
    Exclusive { s.goto w (.filled q) with entryLock := Function.update s.entryLock q (some w) } := by
  obtain ⟨hentry, hirq, hwatches, hexists, hfound⟩ := h
  constructor <;> simp only [IrqRun.goto, IrqRun.watches, IrqRun.Ready, IrqPlace.Holds] at * <;> grind

/-- It gives the lock back once the flag is up. -/
theorem giveEntry (h : Exclusive s) (hplace : s.place w = .filled q) :
    Exclusive { s.goto w .serving with entryLock := Function.update s.entryLock q none } := by
  have hunique : ∀ v, s.place v = .filled q → v = w := fun v hv => h.filled_eq hplace hv
  obtain ⟨hentry, hirq, hwatches, hexists, hfound⟩ := h
  constructor <;> simp only [IrqRun.goto, IrqRun.watches, IrqRun.Ready, IrqPlace.Holds] at * <;> grind

/-- The owner takes the interrupt lock in its sweep. -/
theorem takeIrq (h : Exclusive s) {qidx : Nat} (hplace : s.place w = .sweep qidx)
    (hwatches : s.watches w qidx = true) (hlock : s.irqLock qidx = none) :
    Exclusive (s.tookLock w qidx) := by
  obtain ⟨hentry, hirq, hwatch, hexists, hfound⟩ := h
  constructor <;>
    simp only [IrqRun.tookLock, IrqRun.goto, IrqRun.watches, IrqRun.Ready, IrqPlace.Holds] at * <;> grind

/-- It gives it back when the sweep goes on. -/
theorem giveIrq (h : Exclusive s) (hplace : s.place w = .unlocking q) : Exclusive (s.unlocked w q) := by
  have hunique : ∀ v, (s.place v).Holds q → v = w := fun v hv =>
    h.holds_eq (.inr (.inr (.inr hplace))) hv
  obtain ⟨hentry, hirq, hwatch, hexists, hfound⟩ := h
  constructor <;>
    simp only [IrqRun.unlocked, IrqRun.goto, IrqRun.watches, IrqRun.Ready, IrqPlace.Holds] at * <;> grind

end Exclusive

/-- Over whole runs each lock has one holder, who is at the place that holds it. -/
theorem irqRuns_exclusive : irqRuns.Invariant Exclusive where
  init s := by
    rintro ⟨hcqes, hentry, hirq, hplace, -⟩
    constructor <;> simp [hcqes, hentry, hirq, hplace, IrqPlace.Holds]
  step s l s' h hstep := by
    cases hstep with
    | createCq hnone =>
      obtain ⟨hentry, hirq, hwatches, hexists, hfound⟩ := h
      constructor <;> simp only [IrqRun.created, IrqRun.watches, IrqRun.Ready] at * <;> grind
    | setMsix => exact ⟨h.entry, h.irq, h.watches, h.exists_of_filled, h.found⟩
    | @fill w qid cq result hplace hcq hlock =>
      have hset : Exclusive (s.setCq qid (cq.fillEntry result)) := by
        refine h.setCq hcq rfl fun v hv => ?_
        obtain ⟨cq', hcq', hready⟩ := h.found qid v hv
        rw [hcq] at hcq'
        cases hcq'
        exact hready
      have hsome : ((s.setCq qid (cq.fillEntry result)).cqes qid).isSome = true := by
        simp [IrqRun.setCq]
      exact (hset.takeEntry hplace hsome hlock).aside _ s.covered s.signals
    | @raise w qid cq hplace hcq =>
      have hset : Exclusive (s.setCq qid (cq.setReady true)) := h.setCq hcq rfl fun _ _ => rfl
      exact hset.giveEntry hplace
    | startSweep hplace => exact h.goto (by simp [hplace]) (by simp [hplace, IrqPlace.Holds]) (by simp)
    | skip hplace _ _ => exact h.goto (by simp [hplace]) (by simp [hplace, IrqPlace.Holds]) (by simp)
    | busy hplace _ _ _ => exact h.goto (by simp [hplace]) (by simp [hplace, IrqPlace.Holds]) (by simp)
    | lock hplace _ hwatches hlock => exact h.takeIrq hplace hwatches hlock
    | down hplace _ _ => exact h.goto (by simp [hplace]) (by simp [hplace, IrqPlace.Holds]) (by simp)
    | up hplace hcq hready =>
      refine h.goto (by simp [hplace]) (by simp [hplace, IrqPlace.Holds]) ?_
      rintro q hq
      cases hq
      exact ⟨_, hcq, hready⟩
    | @clear w qidx cq hplace hcq =>
      have hgoto : Exclusive (s.goto w (.cleared qidx)) :=
        h.goto (by simp [hplace]) (by simp [hplace, IrqPlace.Holds]) (by simp)
      refine hgoto.setCq hcq rfl fun v hv => ?_
      -- the one who found it up is the one who takes it down
      rw [IrqRun.goto_place] at hv
      split at hv
      · cases hv
      · next hne => exact absurd (h.holds_eq (.inr (.inl hplace)) (.inr (.inl hv))) hne
    | @signal w qidx cq hplace hcq =>
      have hgoto : Exclusive (s.goto w (.unlocking qidx)) :=
        h.goto (by simp [hplace]) (by simp [hplace, IrqPlace.Holds]) (by simp)
      exact hgoto.aside s.posted _ _
    | unlock hplace => exact h.giveIrq hplace
    | endSweep hplace _ => exact h.goto (by simp [hplace]) (by simp [hplace, IrqPlace.Holds]) (by simp)

/-! ## What is on the way to a signal -/

namespace IrqRun

/-- `interrupt_ready`, of a queue that exists. -/
def flagUp (s : IrqRun) (q : Nat) : Bool := (s.cqes q).any fun cq => cq.interruptReady

/-- An entry is written, and its flag is not. -/
def filling (s : IrqRun) (q : Nat) : Bool := (s.entryLock q).isSome

/-- The flag was taken down, and the signal has not come yet. -/
def clearing (s : IrqRun) (q : Nat) : Bool := (s.irqLock q).any fun w => s.place w == .cleared q

/-- How many signals are on the way. -/
def due (s : IrqRun) (q : Nat) : Nat :=
  (s.flagUp q).toNat + (s.filling q).toNat + (s.clearing q).toNat

/-- Every completion was signalled after it was posted or its signal is on the way, and no signal is
without a completion of its own. -/
structure Covers (s : IrqRun) (q : Nat) : Prop where
  le : s.covered q ≤ s.posted q
  pending : s.covered q = s.posted q ∨ 0 < s.due q
  signals : s.nrSignals q + s.due q ≤ s.posted q

variable {s s' : IrqRun} {w q : Nat} {place : IrqPlace}

theorem clearing_eq_true : s.clearing q = true ↔ ∃ w, s.irqLock q = some w ∧ s.place w = .cleared q := by
  unfold clearing
  rw [Option.any_eq_true]
  simp only [beq_iff_eq]

theorem clearing_eq_false (h : ∀ w, s.irqLock q = some w → s.place w ≠ .cleared q) :
    s.clearing q = false := by
  rw [Bool.eq_false_iff]
  intro hc
  obtain ⟨w, hw, hplace⟩ := clearing_eq_true.mp hc
  exact h w hw hplace

/-- The lock of the queue has not changed hands, and nobody has come to or left the signal. -/
theorem clearing_congr (hlock : s'.irqLock q = s.irqLock q)
    (hplace : ∀ w, s'.place w = .cleared q ↔ s.place w = .cleared q) : s'.clearing q = s.clearing q := by
  rw [Bool.eq_iff_iff, clearing_eq_true, clearing_eq_true, hlock]
  simp only [hplace]

/-- A worker has cleared no queue but `q'`, before and after. -/
theorem update_cleared {places : Nat → IrqPlace} {q' : Nat} (hq : q ≠ q')
    (hfrom : ∀ q, places w = .cleared q → q = q') (hto : ∀ q, place = .cleared q → q = q') (v : Nat) :
    Function.update places w place v = .cleared q ↔ places v = .cleared q := by
  rw [Function.update_apply]
  split
  · next hv =>
    rw [hv]
    exact iff_of_false (fun h => hq (hto q h)) fun h => hq (hfrom q h)
  · exact Iff.rfl

/-- A worker has cleared no queue, before and after. -/
theorem update_not_cleared {places : Nat → IrqPlace} (hfrom : ∀ q, places w ≠ .cleared q)
    (hto : ∀ q, place ≠ .cleared q) (v : Nat) :
    Function.update places w place v = .cleared q ↔ places v = .cleared q :=
  update_cleared (Nat.succ_ne_self q).symm (fun q' h' => absurd h' (hfrom q'))
    (fun q' h' => absurd h' (hto q')) v

/-- The history of the queue has not changed. -/
structure SameHistory (s s' : IrqRun) (q : Nat) : Prop where
  posted : s'.posted q = s.posted q
  covered : s'.covered q = s.covered q
  nrSignals : s'.nrSignals q = s.nrSignals q

/-- What is due may fall, as long as something stays due that was. -/
theorem Covers.of_due (h : s.Covers q) (hsame : SameHistory s s' q) (hle : s'.due q ≤ s.due q)
    (hpos : 0 < s.due q → 0 < s'.due q) : s'.Covers q := by
  refine ⟨?_, ?_, ?_⟩
  · rw [hsame.covered, hsame.posted]
    exact h.le
  · rw [hsame.covered, hsame.posted]
    exact h.pending.imp_right hpos
  · rw [hsame.nrSignals, hsame.posted]
    exact (Nat.add_le_add_left hle _).trans h.signals

/-- A step that changes neither what was posted nor the flag, a filling or a clearing. -/
theorem Covers.of_bits (h : s.Covers q) (hsame : SameHistory s s' q)
    (hflag : s'.flagUp q = s.flagUp q) (hfilling : s'.filling q = s.filling q)
    (hclearing : s'.clearing q = s.clearing q) : s'.Covers q := by
  have hdue : s'.due q = s.due q := by
    unfold due
    rw [hflag, hfilling, hclearing]
  exact h.of_due hsame hdue.le fun hpos => hdue ▸ hpos

/-- A worker goes on without having touched the flag. -/
theorem Covers.goto (h : s.Covers q) (hfrom : ∀ q, s.place w ≠ .cleared q)
    (hto : ∀ q, place ≠ .cleared q) : (s.goto w place).Covers q :=
  h.of_bits ⟨rfl, rfl, rfl⟩ rfl rfl (clearing_congr rfl (update_not_cleared hfrom hto))

/-- A step at another queue. -/
theorem Covers.other {q' : Nat} (h : s.Covers q) (hq : q ≠ q') (hsame : SameHistory s s' q)
    (hcqes : s'.cqes q = s.cqes q) (hentry : s'.entryLock q = s.entryLock q)
    (hlock : s'.irqLock q = s.irqLock q) (hplace : s'.place = Function.update s.place w place)
    (hfrom : ∀ q, s.place w = .cleared q → q = q') (hto : ∀ q, place = .cleared q → q = q') :
    s'.Covers q := by
  refine h.of_bits hsame ?_ ?_ (clearing_congr hlock fun v => ?_)
  · unfold flagUp
    rw [hcqes]
  · unfold filling
    rw [hentry]
  · rw [hplace]
    exact update_cleared hq hfrom hto v

variable {q' : Nat} {cq : CompletionQueue} {result : CqResult}

/-- The flag of a new queue is down. -/
theorem Covers.created (h : s.Covers q) {cmd : AdminCommand} (hnone : s.cqes cmd.qid = none) :
    (s.created cmd).Covers q := by
  refine h.of_bits ⟨rfl, rfl, rfl⟩ ?_ rfl (clearing_congr rfl fun _ => Iff.rfl)
  unfold flagUp IrqRun.created
  by_cases hq : q = cmd.qid
  · simp [hq, hnone, Controller.newCompletionQueue]
  · simp [hq]

/-- A completion is written: the worker that has written it is yet to raise the flag. -/
theorem Covers.wrote (h : s.Covers q) (hplace : s.place w = .serving) (hcq : s.cqes q' = some cq)
    (hlock : s.entryLock q' = none) : (s.wrote w q' cq result).Covers q := by
  by_cases hq : q = q'
  · subst hq
    have hclearing : (s.wrote w q cq result).clearing q = s.clearing q :=
      clearing_congr rfl (update_not_cleared (by simp [hplace]) (by simp))
    have hdue : (s.wrote w q cq result).due q = s.due q + 1 := by
      unfold due
      rw [hclearing]
      simp [flagUp, filling, IrqRun.wrote, IrqRun.setCq, IrqRun.goto, hcq, hlock,
        CompletionQueue.fillEntry]
      omega
    have hposted : (s.wrote w q cq result).posted q = s.posted q + 1 := Function.update_self ..
    refine ⟨?_, .inr ?_, ?_⟩
    · rw [hposted]
      exact Nat.le_succ_of_le h.le
    · omega
    · rw [hdue, hposted]
      exact Nat.succ_le_succ h.signals
  · refine h.other hq ⟨?_, rfl, rfl⟩ ?_ ?_ rfl rfl (by simp [hplace]) (by simp)
    all_goals exact Function.update_of_ne hq ..

/-- The flag goes up for what was written. -/
theorem Covers.raised (h : s.Covers q) (hplace : s.place w = .filled q')
    (hentry : s.entryLock q' = some w) : (s.raised w q' cq).Covers q := by
  by_cases hq : q = q'
  · subst hq
    have hclearing : (s.raised w q cq).clearing q = s.clearing q :=
      clearing_congr rfl (update_not_cleared (by simp [hplace]) (by simp))
    have hold : s.due q = (s.flagUp q).toNat + 1 + (s.clearing q).toNat := by
      simp [due, filling, hentry]
    have hnew : (s.raised w q cq).due q = 1 + (s.clearing q).toNat := by
      unfold due
      rw [hclearing]
      simp [flagUp, filling, IrqRun.raised, IrqRun.setCq, IrqRun.goto, CompletionQueue.setReady]
    exact h.of_due ⟨rfl, rfl, rfl⟩ (by omega) (by omega)
  · refine h.other hq ⟨rfl, rfl, rfl⟩ ?_ ?_ rfl rfl (by simp [hplace]) (by simp)
    all_goals exact Function.update_of_ne hq ..

/-- A sweep takes the interrupt lock. -/
theorem Covers.tookLock (h : s.Covers q) (hplace : s.place w = .sweep q')
    (hlock : s.irqLock q' = none) : (s.tookLock w q').Covers q := by
  by_cases hq : q = q'
  · subst hq
    refine h.of_bits ⟨rfl, rfl, rfl⟩ rfl rfl ?_
    simp [clearing, IrqRun.tookLock, IrqRun.goto, hlock]
  · refine h.other hq ⟨rfl, rfl, rfl⟩ rfl rfl ?_ rfl (by simp [hplace]) (by simp)
    exact Function.update_of_ne hq ..

/-- The flag goes down, and the signal is yet to come. -/
theorem Covers.tookDown (h : s.Covers q) (hplace : s.place w = .found q')
    (hlock : s.irqLock q' = some w) (hready : s.Ready q') : (s.tookDown w q' cq).Covers q := by
  by_cases hq : q = q'
  · subst hq
    obtain ⟨old, hold, hup⟩ := hready
    have hquiet : s.clearing q = false := by
      refine clearing_eq_false fun v hv hc => ?_
      obtain rfl : v = w := Option.some.inj (hv.symm.trans hlock)
      exact IrqPlace.noConfusion (hplace.symm.trans hc)
    have hdue : (s.tookDown w q cq).due q = s.due q := by
      unfold due
      rw [hquiet]
      simp [flagUp, filling, clearing, IrqRun.tookDown, IrqRun.setCq, IrqRun.goto, hlock, hold, hup,
        CompletionQueue.setReady, Nat.add_comm]
    exact h.of_due ⟨rfl, rfl, rfl⟩ hdue.le fun hpos => hdue ▸ hpos
  · refine h.other hq ⟨rfl, rfl, rfl⟩ ?_ rfl rfl rfl (by simp [hplace]) (by simp [eq_comm])
    exact Function.update_of_ne hq ..

/-- The signal covers all completions posted so far. -/
theorem Covers.signalled (h : s.Covers q) (hplace : s.place w = .cleared q')
    (hlock : s.irqLock q' = some w) : (s.signalled w q' cq).Covers q := by
  by_cases hq : q = q'
  · subst hq
    have hsignals := h.signals
    have hdue : (s.signalled w q cq).due q + 1 = s.due q := by
      simp [due, flagUp, filling, clearing, IrqRun.signalled, IrqRun.goto, hlock, hplace]
    have hcovered : (s.signalled w q cq).covered q = s.posted q := Function.update_self ..
    have hcount : (s.signalled w q cq).nrSignals q = s.nrSignals q + 1 := by
      simp [nrSignals, IrqRun.signalled]
    refine ⟨hcovered.le, .inl hcovered, ?_⟩
    show _ ≤ s.posted q
    omega
  · refine h.other hq ⟨rfl, ?_, ?_⟩ rfl rfl rfl rfl (by simp [hplace, eq_comm]) (by simp)
    · exact Function.update_of_ne hq ..
    · simp [nrSignals, IrqRun.signalled, Ne.symm hq]

/-- The interrupt lock is given back. -/
theorem Covers.unlocked (h : s.Covers q) (hplace : s.place w = .unlocking q')
    (hlock : s.irqLock q' = some w) : (s.unlocked w q').Covers q := by
  by_cases hq : q = q'
  · subst hq
    refine h.of_bits ⟨rfl, rfl, rfl⟩ rfl rfl ?_
    simp [clearing, IrqRun.unlocked, hlock, hplace]
  · refine h.other hq ⟨rfl, rfl, rfl⟩ rfl rfl ?_ rfl (by simp [hplace]) (by simp)
    exact Function.update_of_ne hq ..

end IrqRun

/-- Over whole runs nothing posted is forgotten. -/
theorem irqRuns_covers : irqRuns.Invariant fun s => Exclusive s ∧ ∀ q, s.Covers q := by
  refine irqRuns_exclusive.of_rel ?_ ?_
  · rintro s ⟨hcqes, hentry, hirq, _, hposted, hcovered, hsignals⟩ q
    constructor <;> simp [IrqRun.due, IrqRun.flagUp, IrqRun.filling, IrqRun.clearing, IrqRun.nrSignals,
      hcqes, hentry, hirq, hposted, hcovered, hsignals]
  · intro s l s' hex h hstep q
    cases hstep with
    | createCq hnone => exact (h q).created hnone
    | setMsix => exact ⟨(h q).le, (h q).pending, (h q).signals⟩
    | fill hplace hcq hlock => exact (h q).wrote hplace hcq hlock
    | raise hplace _ => exact (h q).raised hplace ((hex.entry _ _).mpr hplace)
    | startSweep hplace => exact (h q).goto (by simp [hplace]) (by simp)
    | skip hplace _ _ => exact (h q).goto (by simp [hplace]) (by simp)
    | busy hplace _ _ _ => exact (h q).goto (by simp [hplace]) (by simp)
    | lock hplace _ _ hlock => exact (h q).tookLock hplace hlock
    | down hplace _ _ => exact (h q).goto (by simp [hplace]) (by simp)
    | up hplace _ _ => exact (h q).goto (by simp [hplace]) (by simp)
    | clear hplace _ =>
      exact (h q).tookDown hplace ((hex.irq _ _).mpr (.inr (.inl hplace))) (hex.found _ _ hplace)
    | signal hplace _ =>
      exact (h q).signalled hplace ((hex.irq _ _).mpr (.inr (.inr (.inl hplace))))
    | unlock hplace => exact (h q).unlocked hplace ((hex.irq _ _).mpr (.inr (.inr (.inr hplace))))
    | endSweep hplace _ => exact (h q).goto (by simp [hplace]) (by simp)

/-! ## A sweep signals what was posted before it -/

/-- The worker has yet to come to the queue in its sweep. -/
def IrqPlace.Before (q : Nat) : IrqPlace → Prop
  | .sweep k | .locked k | .found k => k ≤ q
  | .cleared k | .unlocking k => k < q
  | _ => False

/-- The accesses a worker has left to the end of its sweep, at most. -/
def IrqPlace.left (nrCq : Nat) : IrqPlace → Nat
  | .sweep k => 6 * (nrCq + 1 - k) + 1
  | .locked k => 6 * (nrCq + 1 - k)
  | .found k => 6 * (nrCq + 1 - k) - 1
  | .cleared k => 6 * (nrCq + 1 - k) - 2
  | .unlocking k => 6 * (nrCq + 1 - k) - 3
  | _ => 0

def IrqEvent.isAdvance (w : Nat) : IrqEvent → Bool
  | .advance v => v = w
  | _ => false

/-- The first `n` completions of the queue `q` are signalled, or its owner `w` is on its way to signal
them and has made `passed` of its accesses. -/
structure Awaits (w q n nrCq passed : Nat) (s : IrqRun) : Prop where
  watches : s.watches w q = true
  queues : s.nrCq = nrCq
  le : q ≤ nrCq
  posted : n ≤ s.posted q
  awaited : n ≤ s.covered q ∨
    ((s.Ready q ∧ (s.place w).Before q) ∨ s.place w = .cleared q) ∧
      passed + (s.place w).left nrCq ≤ 6 * nrCq + 1

section Sweep

variable {s s' : IrqRun} {l : IrqEvent} {w v q n nrCq passed : Nat}

/-- What one access leaves as it is. -/
theorem IrqStep.nrCq_eq (h : IrqStep s l s') : s'.nrCq = s.nrCq := by
  cases h <;> rfl

/-- The owner of a queue stays its owner. -/
theorem IrqStep.watches (h : IrqStep s l s') (hw : s.watches w q = true) : s'.watches w q = true := by
  have hkeep : ∀ {qid : Nat} {cq cq' : CompletionQueue}, s.cqes qid = some cq →
      cq'.irqEnabled = cq.irqEnabled → (s.setCq qid cq').watches w q = true :=
    fun hcq hirq => (IrqRun.setCq_watches hcq hirq).trans hw
  cases h with
  | @createCq cmd hnone =>
    have hq : q ≠ cmd.qid := by
      rintro rfl
      simp [IrqRun.watches, hnone] at hw
    simpa [IrqRun.watches, IrqRun.created, hq] using hw
  | fill _ hcq _ => exact hkeep hcq rfl
  | raise _ hcq => exact hkeep hcq rfl
  | clear _ hcq => exact hkeep hcq rfl
  | _ => exact hw

/-- Nothing is taken out of the history. -/
theorem IrqStep.history (h : IrqStep s l s') (hle : s.covered q ≤ s.posted q) :
    s.posted q ≤ s'.posted q ∧ s.covered q ≤ s'.covered q := by
  cases h with
  | @fill w qid cq result _ _ _ =>
    refine ⟨?_, le_rfl⟩
    show _ ≤ Function.update s.posted qid (s.posted qid + 1) q
    by_cases hq : q = qid <;> simp [hq]
  | @signal w qidx cq _ _ =>
    refine ⟨le_rfl, ?_⟩
    show _ ≤ Function.update s.covered qidx (s.posted qidx) q
    by_cases hq : q = qidx
    · subst hq
      simpa using hle
    · simp [hq]
  | _ => exact ⟨le_rfl, le_rfl⟩

/-- Only the one who has found a flag up takes it down. -/
theorem IrqStep.ready (h : IrqStep s l s') (hr : s.Ready q) :
    s'.Ready q ∨ ∃ v, l = .advance v ∧ s.place v = .found q := by
  have hkeep : ∀ {qid : Nat} {cq cq' : CompletionQueue}, s.cqes qid = some cq →
      (cq.interruptReady = true → cq'.interruptReady = true) → (s.setCq qid cq').Ready q := by
    intro qid cq cq' hcq hup
    rw [IrqRun.setCq_ready]
    split
    · next hq =>
      obtain ⟨old, hold, hready⟩ := hr
      rw [hq, hcq] at hold
      cases hold
      exact hup hready
    · exact hr
  cases h with
  | @createCq cmd hnone =>
    obtain ⟨cq, hcq, hready⟩ := hr
    have hq : q ≠ cmd.qid := by
      rintro rfl
      rw [hnone] at hcq
      cases hcq
    exact .inl ⟨cq, (Function.update_of_ne hq ..).trans hcq, hready⟩
  | fill _ hcq _ => exact .inl (hkeep hcq id)
  | raise _ hcq => exact .inl (hkeep hcq fun _ => rfl)
  | @clear w qidx cq hplace hcq =>
    by_cases hq : q = qidx
    · exact .inr ⟨w, rfl, hq ▸ hplace⟩
    · refine .inl (IrqRun.setCq_ready.mpr ?_)
      rw [if_neg hq]
      exact hr
  | _ => exact .inl hr

/-- The worker that makes the access. -/
def IrqEvent.worker : IrqEvent → Option Nat
  | .fill w _ _ | .advance w | .startSweep w => some w
  | _ => none

/-- The others stay where they are. -/
theorem IrqStep.place_eq (h : IrqStep s l s') (hw : l.worker ≠ some w) : s'.place w = s.place w := by
  have hmove : ∀ {v : Nat} {place : IrqPlace}, some v ≠ some w →
      Function.update s.place v place w = s.place w := fun hv =>
    Function.update_of_ne (fun he => hv (congrArg some he.symm)) ..
  cases h with
  | createCq _ => rfl
  | setMsix => rfl
  | _ => exact hmove hw

/-- A queue has one owner. -/
theorem IrqRun.watches_eq (hw : s.watches w q = true) (hv : s.watches v q = true) : v = w := by
  unfold IrqRun.watches at hw hv
  rw [decide_eq_true_eq] at hw hv
  exact hv.1.symm.trans hw.1

/-- The owner on its way to a queue whose flag is up gets nearer with each access, and takes it down. -/
theorem IrqStep.approaches (h : IrqStep s (.advance w) s') (hex : Exclusive s)
    (hw : s.watches w q = true) (hle : q ≤ s.nrCq) (hready : s.Ready q)
    (hbefore : (s.place w).Before q) :
    ((s'.Ready q ∧ (s'.place w).Before q) ∨ s'.place w = .cleared q) ∧
      (s'.place w).left s.nrCq + 1 ≤ (s.place w).left s.nrCq := by
  cases h with
  | raise hplace _ =>
    rw [hplace] at hbefore
    exact hbefore.elim
  | @skip _ k hplace hk hskip =>
    rw [hplace] at hbefore
    have hbefore : k ≤ q := hbefore
    have hne : k ≠ q := by
      rintro rfl
      rw [hw] at hskip
      cases hskip
    simp only [IrqRun.goto_place, if_true, hplace, IrqPlace.Before, IrqPlace.left]
    exact ⟨.inl ⟨hready, by omega⟩, by omega⟩
  | @busy _ k hplace hk _ hlock =>
    rw [hplace] at hbefore
    have hbefore : k ≤ q := hbefore
    have hne : k ≠ q := by
      rintro rfl
      obtain ⟨v, hv⟩ := Option.ne_none_iff_exists'.mp hlock
      have hholds := (hex.irq k v).mp hv
      obtain rfl := IrqRun.watches_eq hw (hex.watches k v hholds)
      simp [hplace, IrqPlace.Holds] at hholds
    simp only [IrqRun.goto_place, if_true, hplace, IrqPlace.Before, IrqPlace.left]
    exact ⟨.inl ⟨hready, by omega⟩, by omega⟩
  | @lock _ k hplace hk _ _ =>
    rw [hplace] at hbefore
    have hbefore : k ≤ q := hbefore
    have hplace' : (s.tookLock w k).place w = .locked k := Function.update_self ..
    simp only [hplace', hplace, IrqPlace.Before, IrqPlace.left]
    exact ⟨.inl ⟨hready, hbefore⟩, by omega⟩
  | @down _ k cq hplace hcq hdown =>
    rw [hplace] at hbefore
    have hbefore : k ≤ q := hbefore
    have hne : k ≠ q := by
      rintro rfl
      obtain ⟨cq', hcq', hup⟩ := hready
      rw [hcq] at hcq'
      cases hcq'
      rw [hdown] at hup
      cases hup
    simp only [IrqRun.goto_place, if_true, hplace, IrqPlace.Before, IrqPlace.left]
    exact ⟨.inl ⟨hready, by omega⟩, by omega⟩
  | @up _ k cq hplace _ _ =>
    rw [hplace] at hbefore
    have hbefore : k ≤ q := hbefore
    simp only [IrqRun.goto_place, if_true, hplace, IrqPlace.Before, IrqPlace.left]
    exact ⟨.inl ⟨hready, by omega⟩, by omega⟩
  | @clear _ k cq hplace hcq =>
    rw [hplace] at hbefore
    have hbefore : k ≤ q := hbefore
    have hplace' : (s.tookDown w k cq).place w = .cleared k := Function.update_self ..
    simp only [hplace', hplace, IrqPlace.Before, IrqPlace.left]
    refine ⟨?_, by omega⟩
    by_cases hk : k = q
    · exact .inr (by rw [hk])
    · have hready' : (s.setCq k (cq.setReady false)).Ready q :=
        IrqRun.setCq_ready.mpr (by rwa [if_neg (Ne.symm hk)])
      exact .inl ⟨hready', by omega⟩
  | @signal _ k cq hplace _ =>
    rw [hplace] at hbefore
    have hbefore : k < q := hbefore
    have hplace' : (s.signalled w k cq).place w = .unlocking k := Function.update_self ..
    simp only [hplace', hplace, IrqPlace.Before, IrqPlace.left]
    exact ⟨.inl ⟨hready, hbefore⟩, by omega⟩
  | @unlock _ k hplace =>
    rw [hplace] at hbefore
    have hbefore : k < q := hbefore
    have hplace' : (s.unlocked w k).place w = .sweep (k + 1) := Function.update_self ..
    simp only [hplace', hplace, IrqPlace.Before, IrqPlace.left]
    exact ⟨.inl ⟨hready, by omega⟩, by omega⟩
  | @endSweep _ k hplace hend =>
    rw [hplace] at hbefore
    have hbefore : k ≤ q := hbefore
    omega

/-- The access after the flag was taken down is the signal. -/
theorem IrqStep.signals (h : IrqStep s (.advance w) s') (hplace : s.place w = .cleared q) :
    s'.covered q = s.posted q := by
  cases h with
  | @signal _ k cq hk _ =>
    rw [hplace] at hk
    cases hk
    exact Function.update_self ..
  | _ => simp_all

/-- Only an access of its own moves a worker that is not in its work queue. -/
theorem IrqStep.place_of_busy (h : IrqStep s l s') (hl : l ≠ .advance w) (hbusy : s.place w ≠ .serving) :
    s'.place w = s.place w := by
  refine h.place_eq fun hw => ?_
  cases h with
  | fill hplace _ _ => exact hbusy (Option.some.inj hw ▸ hplace)
  | startSweep hplace => exact hbusy (Option.some.inj hw ▸ hplace)
  | createCq _ => cases hw
  | setMsix => cases hw
  | _ => exact hl (congrArg IrqEvent.advance (Option.some.inj hw))

/-- Nobody but the owner takes the flag down. -/
theorem IrqStep.ready_of_others (h : IrqStep s l s') (hex : Exclusive s) (hw : s.watches w q = true)
    (hl : l ≠ .advance w) (hready : s.Ready q) : s'.Ready q := by
  rcases h.ready hready with hready' | ⟨v, rfl, hv⟩
  · exact hready'
  · have hv' := hex.watches q v (.inr (.inl hv))
    exact absurd (congrArg IrqEvent.advance (IrqRun.watches_eq hw hv')) hl

/-- Every access keeps the wait, and those of the owner shorten it. -/
theorem Awaits.step (h : Awaits w q n nrCq passed s) (hex : Exclusive s) (hcov : s.Covers q)
    (hstep : IrqStep s l s') :
    Awaits w q n nrCq (passed + (l.isAdvance w).toNat) s' := by
  obtain ⟨hwatches, hqueues, hle, hposted, hawaited⟩ := h
  obtain ⟨hposted', hcovered'⟩ := hstep.history hcov.le
  refine ⟨hstep.watches hwatches, hstep.nrCq_eq.trans hqueues, hle, hposted.trans hposted', ?_⟩
  rcases hawaited with hdone | ⟨hway, hleft⟩
  · exact .inl (hdone.trans hcovered')
  · by_cases hl : l = .advance w
    · subst hl
      have hone : (IrqEvent.advance w).isAdvance w = true := decide_eq_true rfl
      rw [hone]
      rcases hway with ⟨hready, hbefore⟩ | hcleared
      · obtain ⟨hway', hless⟩ := hstep.approaches hex hwatches (hqueues ▸ hle) hready hbefore
        rw [hqueues] at hless
        refine .inr ⟨hway', ?_⟩
        show passed + 1 + _ ≤ _
        omega
      · exact .inl (hposted.trans (hstep.signals hcleared).ge)
    · have hnone : (l.isAdvance w).toNat = 0 := by
        cases l with
        | advance v =>
          have hv : v ≠ w := fun he => hl (congrArg IrqEvent.advance he)
          simp [IrqEvent.isAdvance, hv]
        | _ => rfl
      have hbusy : s.place w ≠ .serving := by
        rintro hserving
        rw [hserving] at hway
        rcases hway with ⟨_, hbefore⟩ | hcleared
        · exact hbefore
        · cases hcleared
      rw [hstep.place_of_busy hl hbusy, hnone, Nat.add_zero]
      refine .inr ⟨hway.imp_left fun hb => ⟨?_, hb.2⟩, hleft⟩
      exact hstep.ready_of_others hex hwatches hl hb.1

/-- The sweep of the owner gets through whatever the others do, in as many of its own steps as it
has left. -/
theorem Awaits.path (h : Awaits w q n nrCq 0 s) (hs : irqRuns.Reachable s) {ls : List IrqEvent}
    (hpath : (irqRuns.startingAt s).Path ls s') :
    Awaits w q n nrCq (ls.countP fun l => l.isAdvance w) s' := by
  induction hpath with
  | init hinit => exact hinit ▸ h
  | @step ls s₁ s₂ l hpath hstep ih =>
    have hreach : irqRuns.Reachable s₁ := hs.of_startingAt hpath.reachable
    obtain ⟨hex, hcov⟩ := irqRuns_covers.reachable hreach
    have hnext := ih.step hex (hcov q) hstep
    rw [List.countP_append, List.countP_singleton]
    cases hl : l.isAdvance w with
    | true => simpa [hl] using hnext
    | false => simpa [hl] using hnext

/-- At the start of a sweep, what was posted to a queue is signalled or awaited. -/
theorem Awaits.start (hex : Exclusive s) (hcov : s.Covers q) (hplace : s.place w = .sweep 1)
    (hw : s.watches w q = true) (hq : 1 ≤ q) (hle : q ≤ s.nrCq) (hentry : s.entryLock q = none) :
    Awaits w q (s.posted q) s.nrCq 0 s := by
  refine ⟨hw, rfl, hle, le_rfl, hcov.pending.imp Eq.ge fun hdue => ?_⟩
  -- nobody else is at the queue, so it is the flag that is up
  have hclearing : s.clearing q = false := by
    refine IrqRun.clearing_eq_false fun v hv hcleared => ?_
    have hv' := hex.watches q v (.inr (.inr (.inl hcleared)))
    obtain rfl := IrqRun.watches_eq hw hv'
    exact IrqPlace.noConfusion (hplace.symm.trans hcleared)
  have hflag : s.flagUp q = true := by
    unfold IrqRun.due IrqRun.filling at hdue
    rw [hclearing, hentry] at hdue
    cases hup : s.flagUp q with
    | true => rfl
    | false => simp [hup] at hdue
  obtain ⟨cq, hcq, hready⟩ := (Option.any_eq_true ..).mp hflag
  rw [hplace]
  refine ⟨.inl ⟨⟨cq, hcq, hready⟩, hq⟩, ?_⟩
  show 0 + (6 * (s.nrCq + 1 - 1) + 1) ≤ _
  omega

/-- A worker at work on a completion queue is never held up. -/
theorem Exclusive.can_advance (hex : Exclusive s) (hbusy : s.place w ≠ .serving) :
    ∃ s', IrqStep s (.advance w) s' := by
  have hcq : ∀ k, (s.place w).Holds k → ∃ cq, s.cqes k = some cq := by
    intro k hk
    have hwatches := hex.watches k w hk
    unfold IrqRun.watches at hwatches
    rw [decide_eq_true_eq, Option.any_eq_true] at hwatches
    obtain ⟨_, cq, hcq, _⟩ := hwatches
    exact ⟨cq, hcq⟩
  cases hplace : s.place w with
  | serving => exact absurd hplace hbusy
  | filled q =>
    obtain ⟨cq, hcq⟩ := Option.isSome_iff_exists.mp (hex.exists_of_filled q w hplace)
    exact ⟨_, .raise hplace hcq⟩
  | sweep k =>
    by_cases hk : k ≤ s.nrCq
    · cases hwatches : s.watches w k with
      | false => exact ⟨_, .skip hplace hk hwatches⟩
      | true =>
        by_cases hlock : s.irqLock k = none
        · exact ⟨_, .lock hplace hk hwatches hlock⟩
        · exact ⟨_, .busy hplace hk hwatches hlock⟩
    · exact ⟨_, .endSweep hplace (Nat.lt_of_not_le hk)⟩
  | locked k =>
    obtain ⟨cq, hcq⟩ := hcq k (.inl hplace)
    cases hready : cq.interruptReady with
    | false => exact ⟨_, .down hplace hcq hready⟩
    | true => exact ⟨_, .up hplace hcq hready⟩
  | found k =>
    obtain ⟨cq, hcq⟩ := hcq k (.inr (.inl hplace))
    exact ⟨_, .clear hplace hcq⟩
  | cleared k =>
    obtain ⟨cq, hcq⟩ := hcq k (.inr (.inr (.inl hplace)))
    exact ⟨_, .signal hplace hcq⟩
  | unlocking k => exact ⟨_, .unlock hplace⟩

end Sweep

/-! ## The law -/

/-- In every run each completion was signalled after it was posted, or the flag of its queue is up,
or a worker is on its way to raise it or to signal; there are no more signals than completions. A
worker at work on a completion queue is never held up, and what was posted to a queue when its owner
starts a sweep is signalled when the sweep ends, which takes the owner `6 * nr_cq + 1` accesses at
most. Any number of workers interleave access by access; the accesses themselves are not cut, and
are seen by all workers in one order. -/
theorem interrupts_not_lost {s : IrqRun} (h : irqRuns.Reachable s) :
    (∀ q, (s.covered q = s.posted q ∨ s.flagUp q = true ∨ s.filling q = true ∨ s.clearing q = true) ∧
      s.nrSignals q ≤ s.posted q) ∧
    (∀ w, s.place w ≠ .serving → ∃ s', IrqStep s (.advance w) s') ∧
    ∀ w q ls s', s.place w = .sweep 1 → s.watches w q = true → 1 ≤ q → q ≤ s.nrCq →
      s.entryLock q = none → (irqRuns.startingAt s).Path ls s' →
      (s'.place w = .serving ∨ 6 * s.nrCq < ls.countP fun l => l.isAdvance w) →
        s.posted q ≤ s'.covered q := by
  obtain ⟨hex, hcov⟩ := irqRuns_covers.reachable h
  refine ⟨fun q => ⟨?_, (Nat.le_add_right _ _).trans (hcov q).signals⟩, fun w => hex.can_advance, ?_⟩
  · refine (hcov q).pending.imp_right fun hdue => ?_
    unfold IrqRun.due at hdue
    cases hflag : s.flagUp q <;> cases hfilling : s.filling q <;> cases hclearing : s.clearing q <;>
      simp_all
  · intro w q ls s' hplace hw hq hle hentry hpath hend
    obtain ⟨_, _, _, _, hawaited⟩ := (Awaits.start hex (hcov q) hplace hw hq hle hentry).path h hpath
    refine hawaited.resolve_right ?_
    rintro ⟨hway, hleft⟩
    have hmore : s'.place w ≠ .serving ∧ 1 ≤ (s'.place w).left s.nrCq := by
      rcases hway with ⟨_, hbefore⟩ | hcleared
      · cases hp : s'.place w <;> simp_all [IrqPlace.Before, IrqPlace.left] <;> omega
      · rw [hcleared]
        refine ⟨IrqPlace.noConfusion, ?_⟩
        show 1 ≤ 6 * (s.nrCq + 1 - q) - 2
        omega
    rcases hend with hserving | hmany
    · exact hmore.1 hserving
    · omega

section OneCompletion

/-- Two workers and no completion queue yet. -/
def quietIrqRun : IrqRun where
  cqes := fun _ => none
  nrCq := 1
  nrIoWorkers := 2
  msixEnabled := true
  entryLock := fun _ => none
  irqLock := fun _ => none
  place := fun _ => .serving
  posted := fun _ => 0
  covered := fun _ => 0
  signals := []

/-- Creates completion queue 1. -/
def createFirstCq : AdminCommand where
  opcode := .createCq
  commandId := 0
  qid := 1
  cqid := 1
  qsize := 7
  irqEnabled := true
  irqVector := 1
  nsid := 0
  lid := .other
  numdl := 0
  numdu := 0
  cns := 0
  numQueues := false
  dword11 := 0

/-- Worker 1 posts a completion to queue 1, which worker 0 owns. -/
theorem interrupts_not_lost_one : ∃ s, irqRuns.Reachable s ∧ s.posted 1 = 1 ∧ s.covered 1 = 0 ∧
    ∀ ls s', (irqRuns.startingAt s).Path ls s' → s'.place 0 = .serving → 1 ≤ s'.covered 1 := by
  have hcreated : irqRuns.Reachable (quietIrqRun.created createFirstCq) :=
    .step (.init ⟨fun _ => rfl, fun _ => rfl, fun _ => rfl, fun _ => rfl, fun _ => rfl, fun _ => rfl, rfl⟩)
      (.createCq rfl)
  have hwrote := hcreated.step (@IrqStep.fill _ 1 1 _ ⟨1, 1, 0, 7, 0, 0, 0⟩ rfl rfl rfl)
  have hraised := hwrote.step (@IrqStep.raise _ 1 1 _ rfl rfl)
  have hswept := hraised.step (@IrqStep.startSweep _ 0 rfl)
  refine ⟨_, hswept, rfl, rfl, fun ls s' hpath hserving => ?_⟩
  exact (interrupts_not_lost hswept).2.2 0 1 ls s' rfl rfl le_rfl le_rfl rfl hpath (.inl hserving)

end OneCompletion

end NvmeVirt

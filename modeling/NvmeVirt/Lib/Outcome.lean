import Mathlib.Tactic.Common

/-!
# Outcomes of programs that read an environment and may fault

A program of this shape takes an environment (a source of readings nobody controls: clocks, random
numbers), advances it, and either answers or stops in a fault. `Ensures E m Q` says what `m` owes
its caller whatever the environment is: an answer satisfies `Q`, and a fault is one that `E`
tolerates. With `E` false everywhere it is total correctness (`Ensures.total`); with `E` true on
one fault it says that this fault is the only way to stop.

The rules below are the ones a proof over a `do` block needs: sequencing, branching, assertions,
and loops over an index range with an invariant indexed by the number of passes made.
-/

set_option autoImplicit false

namespace NvmeVirt.Outcome

variable {σ ε α β : Type}

/-- From every environment, `m` answers a value satisfying `Q` or stops in a fault that `E`
tolerates. -/
structure Ensures (E : ε → Prop) (m : StateT σ (Except ε) α) (Q : α → Prop) : Prop where
  run : ∀ s, match m.run s with
    | .ok (a, _) => Q a
    | .error e => E e

/-- Stop unless `p` holds. -/
def check (e : ε) (p : Prop) [Decidable p] : StateT σ (Except ε) Unit :=
  if p then pure () else throw e

/-- Run the body for `i = 0, …, n - 1`, threading the loop state. -/
def forRange (n : Nat) (init : α) (body : Nat → α → StateT σ (Except ε) α) :
    StateT σ (Except ε) α :=
  (List.range n).foldlM (fun a i => body i a) init

section Rules

variable {E E' : ε → Prop} {P Q R : α → Prop}

/-- Nothing is said. -/
theorem Ensures.any {m : StateT σ (Except ε) α} : Ensures (fun _ => True) m (fun _ => True) := by
  refine ⟨fun s => ?_⟩
  cases m.run s with
  | ok r => trivial
  | error e => trivial

theorem Ensures.pure {a : α} (h : Q a) : Ensures E (pure a : StateT σ (Except ε) α) Q :=
  ⟨fun _ => h⟩

theorem Ensures.throw {e : ε} (h : E e) : Ensures E (throw e : StateT σ (Except ε) α) Q :=
  ⟨fun _ => h⟩

theorem Ensures.mono {m : StateT σ (Except ε) α} (hm : Ensures E m P) (h : ∀ a, P a → Q a) :
    Ensures E m Q := by
  refine ⟨fun s => ?_⟩
  have hs := hm.run s
  cases hr : m.run s with
  | ok r => rw [hr] at hs; exact h _ hs
  | error e => rw [hr] at hs; exact hs

theorem Ensures.tolerate {m : StateT σ (Except ε) α} (hm : Ensures E m Q) (h : ∀ e, E e → E' e) :
    Ensures E' m Q := by
  refine ⟨fun s => ?_⟩
  have hs := hm.run s
  cases hr : m.run s with
  | ok r => rw [hr] at hs; exact hs
  | error e => rw [hr] at hs; exact h _ hs

/-- Two facts about the answer hold together; the first says which faults are tolerated. -/
theorem Ensures.and {m : StateT σ (Except ε) α} (hp : Ensures E m P) (hq : Ensures E' m Q) :
    Ensures E m (fun a => P a ∧ Q a) := by
  refine ⟨fun s => ?_⟩
  have h1 := hp.run s
  have h2 := hq.run s
  cases hr : m.run s with
  | ok r => rw [hr] at h1 h2; exact ⟨h1, h2⟩
  | error e => rw [hr] at h1; exact h1

theorem Ensures.bind {S : β → Prop} {m : StateT σ (Except ε) α} {f : α → StateT σ (Except ε) β}
    (hm : Ensures E m P) (hf : ∀ a, P a → Ensures E (f a) S) : Ensures E (m >>= f) S := by
  refine ⟨fun s => ?_⟩
  have hs := hm.run s
  rw [StateT.run_bind]
  cases hr : m.run s with
  | ok r =>
    obtain ⟨a, s'⟩ := r
    rw [hr] at hs
    exact (hf a hs).run s'
  | error e => rw [hr] at hs; exact hs

theorem Ensures.ite {c : Prop} [Decidable c] {m m' : StateT σ (Except ε) α}
    (ht : c → Ensures E m Q) (hf : ¬ c → Ensures E m' Q) :
    Ensures E (if c then m else m') Q := by
  by_cases h : c
  · rw [if_pos h]; exact ht h
  · rw [if_neg h]; exact hf h

/-- A check that holds passes. -/
theorem Ensures.check {e : ε} {p : Prop} [Decidable p] (h : p) :
    Ensures E (check e p : StateT σ (Except ε) Unit) (fun _ => True) := by
  unfold Outcome.check
  rw [if_pos h]
  exact Ensures.pure trivial

/-- A counted loop keeps an invariant indexed by the number of passes made. -/
theorem Ensures.forRange {I : Nat → α → Prop} {n : Nat} {init : α}
    {body : Nat → α → StateT σ (Except ε) α} (h0 : I 0 init)
    (step : ∀ i, i < n → ∀ a, I i a → Ensures E (body i a) (I (i + 1))) :
    Ensures E (forRange n init body) (I n) := by
  induction n with
  | zero => exact Ensures.pure h0
  | succ n ih =>
    unfold Outcome.forRange at ih ⊢
    rw [List.range_succ, List.foldlM_append]
    refine (ih fun i hi => step i (Nat.lt_succ_of_lt hi)).bind fun a ha => ?_
    rw [List.foldlM_cons]
    exact (step n (Nat.lt_succ_self n) a ha).bind fun b hb => Ensures.pure hb

end Rules

section Runs

variable {E : ε → Prop} {Q : α → Prop}

theorem Ensures.of_run {m : StateT σ (Except ε) α} (hm : Ensures E m Q) {s s' : σ} {a : α}
    (h : m.run s = .ok (a, s')) : Q a := by
  have := hm.run s
  rwa [h] at this

theorem Ensures.of_fault {m : StateT σ (Except ε) α} (hm : Ensures E m Q) {s : σ} {e : ε}
    (h : m.run s = .error e) : E e := by
  have := hm.run s
  rwa [h] at this

/-- A run of a sequence is a run of its first part and one of the rest. -/
theorem run_bind {m : StateT σ (Except ε) α} {f : α → StateT σ (Except ε) β} {s s' : σ} {b : β}
    (h : (m >>= f).run s = .ok (b, s')) :
    ∃ a s₁, m.run s = .ok (a, s₁) ∧ (f a).run s₁ = .ok (b, s') := by
  rw [StateT.run_bind] at h
  cases hm : m.run s with
  | ok r => exact ⟨r.1, r.2, rfl, by rw [hm] at h; exact h⟩
  | error e => rw [hm] at h; cases h

theorem run_pure {a b : α} {s s' : σ}
    (h : (pure a : StateT σ (Except ε) α).run s = .ok (b, s')) : b = a := by
  cases h
  rfl

/-- Run the program from `s` and test its answer. -/
def tests (m : StateT σ (Except ε) α) (s : σ) (p : α → Bool) : Bool :=
  match m.run s with
  | .ok (a, _) => p a
  | .error _ => false

theorem exists_of_tests {m : StateT σ (Except ε) α} {s : σ} {p : α → Bool}
    (h : tests m s p = true) : ∃ a s', m.run s = .ok (a, s') ∧ p a = true := by
  unfold tests at h
  cases hm : m.run s with
  | ok r => exact ⟨r.1, r.2, rfl, by rw [hm] at h; exact h⟩
  | error e => rw [hm] at h; cases h

/-- A program that tolerates no fault answers. -/
theorem Ensures.total {m : StateT σ (Except ε) α} (hm : Ensures (fun _ => False) m Q) (s : σ) :
    ∃ a s', m.run s = .ok (a, s') ∧ Q a := by
  have hs := hm.run s
  cases hr : m.run s with
  | ok r => rw [hr] at hs; exact ⟨r.1, r.2, rfl, hs⟩
  | error e => rw [hr] at hs; exact hs.elim

/-- A program that faults only where `C` fails, and answers only where `C` holds, answers everywhere
if and only if `C` holds. -/
theorem Ensures.total_iff {C : Prop} {m : StateT σ (Except ε) α}
    (hm : Ensures (fun _ => ¬ C) m (fun a => C ∧ Q a)) (s : σ) :
    (∀ s, ∃ a s', m.run s = .ok (a, s') ∧ Q a) ↔ C := by
  constructor
  · intro h
    obtain ⟨a, s', hrun, _⟩ := h s
    exact (hm.of_run hrun).1
  · intro hC s
    have hnone : Ensures (fun _ => False) m Q :=
      (hm.tolerate fun _ hnot => hnot hC).mono fun _ h => h.2
    exact hnone.total s

end Runs

end NvmeVirt.Outcome

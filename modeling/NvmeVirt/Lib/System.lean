import Mathlib.Tactic.Common

/-!
# Transition systems

A system is a set of initial states and a labelled step relation. What holds at the start and is
kept by every step holds of every reachable state (`Invariant.reachable`); what a step keeps only
while another invariant holds is proved relative to it (`Invariant.of_rel`). `guarded` keeps only
the steps that meet a condition on the state before the step: an invariant of the guarded system is
a fact about every run whose steps all meet the condition. Where steps can be computed, `follow`
computes a run.
-/

set_option autoImplicit false

namespace NvmeVirt

structure System (σ ℓ : Type) where
  init : σ → Prop
  step : σ → ℓ → σ → Prop

namespace System

variable {σ ℓ : Type} {S : System σ ℓ} {I J : σ → Prop} {P : σ → ℓ → Prop}

/-- The states some run from an initial state gets to. -/
inductive Reachable (S : System σ ℓ) : σ → Prop where
  | init {s : σ} : S.init s → Reachable S s
  | step {s s' : σ} {l : ℓ} : Reachable S s → S.step s l s' → Reachable S s'

/-- The states a run gets to, with the labels of its steps in their order. -/
inductive Path (S : System σ ℓ) : List ℓ → σ → Prop where
  | init {s : σ} : S.init s → Path S [] s
  | step {ls : List ℓ} {s s' : σ} {l : ℓ} : Path S ls s → S.step s l s' → Path S (ls ++ [l]) s'

theorem Path.reachable {ls : List ℓ} {s : σ} (h : S.Path ls s) : S.Reachable s := by
  induction h with
  | init h₀ => exact .init h₀
  | step _ hstep ih => exact .step ih hstep

/-- The runs that go on from the state `s`. -/
def startingAt (S : System σ ℓ) (s : σ) : System σ ℓ where
  init := (· = s)
  step := S.step

theorem Reachable.of_startingAt {s s' : σ} (h : S.Reachable s) (h' : (S.startingAt s).Reachable s') :
    S.Reachable s' := by
  induction h' with
  | init h₀ => exact h₀ ▸ h
  | step _ hstep ih => exact .step ih hstep

/-- What holds at the start and is kept by every step. -/
structure Invariant (S : System σ ℓ) (I : σ → Prop) : Prop where
  init : ∀ s, S.init s → I s
  step : ∀ s l s', I s → S.step s l s' → I s'

theorem Invariant.reachable (h : S.Invariant I) {s : σ} (hs : S.Reachable s) : I s := by
  induction hs with
  | init h₀ => exact h.init _ h₀
  | step _ hstep ih => exact h.step _ _ _ ih hstep

/-- An invariant whose steps may use another one. -/
theorem Invariant.of_rel (h : S.Invariant I) (h₀ : ∀ s, S.init s → J s)
    (hstep : ∀ s l s', I s → J s → S.step s l s' → J s') : S.Invariant fun s => I s ∧ J s where
  init s hs := ⟨h.init s hs, h₀ s hs⟩
  step s l s' hij hs := ⟨h.step s l s' hij.1 hs, hstep s l s' hij.1 hij.2 hs⟩

/-- The runs all of whose steps meet `P`. -/
def guarded (S : System σ ℓ) (P : σ → ℓ → Prop) : System σ ℓ where
  init := S.init
  step s l s' := P s l ∧ S.step s l s'

/-- One more step that meets the condition. -/
theorem Reachable.guarded_step {s s' : σ} {l : ℓ} (h : (S.guarded P).Reachable s)
    (hstep : S.step s l s') (hp : P s l) : (S.guarded P).Reachable s' :=
  .step h ⟨hp, hstep⟩

/-- An invariant of all steps is one of those that meet the condition. -/
theorem Invariant.guarded (h : S.Invariant I) : (S.guarded P).Invariant I where
  init := h.init
  step s l s' hs hstep := h.step s l s' hs hstep.2

theorem Reachable.of_guarded {s : σ} (h : (S.guarded P).Reachable s) : S.Reachable s := by
  induction h with
  | init h₀ => exact .init h₀
  | step _ hstep ih => exact .step ih hstep.2

/-- A run that goes on under a condition goes on. -/
theorem Reachable.of_startingAt_guarded {s s' : σ}
    (h : ((S.guarded P).startingAt s).Reachable s') : (S.startingAt s).Reachable s' := by
  induction h with
  | init h₀ => exact .init h₀
  | step _ hstep ih => exact .step ih hstep.2

/-- Take the labels one after the other, with a step that can be computed. -/
def follow (next : σ → ℓ → Option σ) (s : σ) (ls : List ℓ) : Option σ := ls.foldlM next s

/-- Where the computed steps are steps of the system, the state they lead to is reachable. -/
theorem Reachable.follow {next : σ → ℓ → Option σ}
    (hnext : ∀ s l s', S.Reachable s → next s l = some s' → S.step s l s') :
    ∀ (ls : List ℓ) {s s' : σ}, S.Reachable s → System.follow next s ls = some s' → S.Reachable s'
  | [], _, _, h, hfollow => Option.some.inj hfollow ▸ h
  | l :: ls, s, s', h, hfollow => by
    unfold System.follow at hfollow
    rw [List.foldlM_cons] at hfollow
    obtain ⟨mid, hmid, hrest⟩ := Option.bind_eq_some_iff.mp hfollow
    exact Reachable.follow hnext ls (.step h (hnext s l mid h hmid)) hrest

end System

end NvmeVirt

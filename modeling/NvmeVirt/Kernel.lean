import Mathlib.Algebra.Order.Ring.Nat
import NvmeVirt.Lib.Outcome

/-!
# What the module takes from the kernel

The clocks, the random numbers and the writable module parameter are readings of an environment:
a theorem about every `Env` is a theorem about every clock, every random source and every sequence
of values written to `gc_mode`. Nothing is assumed of the readings beyond the width of the type
they are returned at.

A run stops in a `Fault` where the kernel would: `NVMEV_ASSERT` is `BUG_ON`, and the FTL
dereferences the line that `get_next_free_line` returned without a check.
-/

set_option autoImplicit false

namespace NvmeVirt

open Outcome

/-- The ways the module takes the kernel down. -/
inductive Fault where
  /-- `NVMEV_ASSERT` failed. -/
  | bugOn
  /-- `wpp->curline->id` with `curline == NULL`. -/
  | nullCurline
  /-- A NULL victim selection function was called. -/
  | nullSelect
  /-- A division or a remainder by zero. -/
  | divideByZero
  /-- An array was indexed past its end; what follows is not defined. -/
  | outOfBounds
  /-- A buffer or a queue that was never allocated was used. -/
  | nullPointer
  /-- A loop that never ends. -/
  | endlessLoop
  deriving DecidableEq, Repr

/-- The readings a run meets, in the order it asks for them. -/
structure Env where
  ktime : Nat → Nat
  cpuClock : Nat → Nat
  random : Nat → Nat
  gcMode : Nat → Int
  tick : Nat

/-- All clocks stand at 0, and every reading is 0. -/
def Env.zero : Env :=
  { ktime := fun _ => 0, cpuClock := fun _ => 0, random := fun _ => 0, gcMode := fun _ => 0
    tick := 0 }

abbrev FtlM (α : Type) := StateT Env (Except Fault) α

/-- The values of `uint32_t` and `uint64_t` arithmetic. -/
def u32 (n : Nat) : Nat := n % 2 ^ 32
def u64 (n : Nat) : Nat := n % 2 ^ 64

theorem u64_lt (n : Nat) : u64 n < 2 ^ 64 := Nat.mod_lt n (by decide)

/-! The bounds of the fields of a command, at values that commands of one page have. -/

theorem zero_lt_u64 : 0 < 2 ^ 64 := by decide
theorem zero_lt_u16 : 0 < 2 ^ 16 := by decide
theorem seven_lt_u16 : 7 < 2 ^ 16 := by decide

/-- `a - b` on `uint64_t`. -/
def sub64 (a b : Nat) : Nat := u64 (a + 2 ^ 64 - u64 b)

/-- `a - b` on `uint32_t`. -/
def sub32 (a b : Nat) : Nat := u32 (a + 2 ^ 32 - u32 b)

/-- `DIV_ROUND_UP`. -/
def divRoundUp (n d : Nat) : Nat := (n + d - 1) / d

/-- One reading of the environment. -/
def reading {α : Type} (get : Env → Nat → α) : FtlM α :=
  fun env => .ok (get env env.tick, { env with tick := env.tick + 1 })

def ktimeGetNs : FtlM Nat := reading fun env t => u64 (env.ktime t)
def cpuClock : FtlM Nat := reading fun env t => u64 (env.cpuClock t)
def getRandomU32 : FtlM Nat := reading fun env t => u32 (env.random t)
def readGcMode : FtlM Int := reading fun env t => env.gcMode t

/-- `NVMEV_ASSERT`. -/
def nvmevAssert (p : Prop) [Decidable p] : FtlM Unit := check .bugOn p

/-! ## Rules for the primitive steps -/

section Rules

variable {E : Fault → Prop}

/-- A reading can be anything, and stops no run. -/
theorem reading_ensures {α : Type} (get : Env → Nat → α) :
    Ensures E (reading get) (fun _ => True) := ⟨fun _ => trivial⟩

theorem ktimeGetNs_ensures : Ensures E ktimeGetNs (fun _ => True) := reading_ensures _

theorem cpuClock_ensures : Ensures E cpuClock (fun _ => True) := reading_ensures _

theorem getRandomU32_ensures : Ensures E getRandomU32 (fun _ => True) := reading_ensures _

theorem readGcMode_ensures : Ensures E readGcMode (fun _ => True) := reading_ensures _

/-- An assertion that holds does not stop the run. -/
theorem nvmevAssert_ensures {p : Prop} [Decidable p] (h : p) :
    Ensures E (nvmevAssert p) (fun _ => True) := Ensures.check h

theorem nvmevAssert_holds {p : Prop} [Decidable p] (h : p) : nvmevAssert p = pure () := by
  unfold nvmevAssert check
  rw [if_pos h]

/-- One that fails does. -/
theorem nvmevAssert_fails {p : Prop} [Decidable p] (h : ¬ p) : nvmevAssert p = throw .bugOn := by
  unfold nvmevAssert check
  rw [if_neg h]

end Rules

/-- The only fault a run may meet is an empty free list. -/
def OnlyNullCurline (e : Fault) : Prop := e = .nullCurline

/-- No fault at all. -/
def NoFault (_ : Fault) : Prop := False

/-- A program without faults answers in every environment. -/
theorem answers {α : Type} {m : FtlM α} {Q : α → Prop} (hm : Ensures NoFault m Q) (env : Env) :
    ∃ a env', m.run env = .ok (a, env') ∧ Q a :=
  (hm.tolerate fun _ h => h).total env

end NvmeVirt

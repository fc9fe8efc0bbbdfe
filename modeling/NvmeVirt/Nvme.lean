import Mathlib.Algebra.Order.Ring.Nat
import Mathlib.Tactic.Common

/-!
# Commands and results (`nvme.h`, `nvmev.h`)
-/

set_option autoImplicit false

namespace NvmeVirt

/-- The opcodes `conv_proc_nvme_io_cmd` knows. -/
inductive Opcode where
  | write | read | flush | other
  deriving DecidableEq, Repr

/-- A submission queue entry as the conventional FTL reads it. -/
structure NvmeCommand where
  opcode : Opcode
  commandId : Nat
  slba : Nat
  length : Nat
  fua : Bool
  slba_lt : slba < 2 ^ 64
  length_lt : length < 2 ^ 16
  deriving DecidableEq, Repr

/-- `struct nvmev_request`. -/
structure NvmevRequest where
  cmd : NvmeCommand
  sqId : Nat
  nsecsStart : Nat

/-- `struct nvmev_result`. -/
structure NvmevResult where
  status : Nat
  nsecsTarget : Nat
  deriving DecidableEq, Repr

def nvmeScSuccess : Nat := 0x0
def nvmeScInternal : Nat := 0x6
def nvmeScLbaRange : Nat := 0x80
def nvmeScDnr : Nat := 0x4000

end NvmeVirt

import NvmeVirt.Io.Dispatch
import NvmeVirt.Laws.Conv.Commands

/-!
# What the namespaces answer

A conventional namespace consumes a command and ends it in success, or refuses it and is as it was
before: for good when the range check fails, for the time being when the write buffer is short.
-/

set_option autoImplicit false

namespace NvmeVirt

open Outcome

/-! ## The conventional namespace -/

section Conv

variable {ns : ConvNs} {req : NvmevRequest}

/-- The command is a read or a write that fails the range check. -/
def ConvNs.Rejects (ns : ConvNs) (cmd : NvmeCommand) : Prop :=
  (cmd.opcode = .read ∨ cmd.opcode = .write) ∧ ns.outOfRange cmd = true

instance (ns : ConvNs) (cmd : NvmeCommand) : Decidable (ns.Rejects cmd) :=
  inferInstanceAs (Decidable (_ ∧ _))

/-- The write buffer has no room for the command now. -/
def ConvNs.Short (ns : ConvNs) (cmd : NvmeCommand) : Prop :=
  cmd.opcode = .write ∧ ns.outOfRange cmd = false ∧ ns.writeBuffer.remaining < cmd.bytes

/-- The ways `conv_proc_nvme_io_cmd` answers. -/
inductive ConvAnswered (ns : ConvNs) (req : NvmevRequest) (r : ConvNs × IoAnswer) : Prop where
  | done : r.2.accepted = true → r.2.result.status = nvmeScSuccess → ¬ ns.Rejects req.cmd →
    ConvAnswered ns req r
  | rejected : r = (ns, .refuse (refusal req nvmeScLbaRange)) → ns.Rejects req.cmd →
    ConvAnswered ns req r
  | short : r = (ns, .refuse (refusal req nvmeScInternal)) → ns.Short req.cmd →
    ConvAnswered ns req r

theorem ConvNs.not_rejects (hin : ns.outOfRange req.cmd = false) : ¬ ns.Rejects req.cmd :=
  fun h => Bool.false_ne_true (hin.symm.trans h.2)

theorem convRead_done (hin : ns.outOfRange req.cmd = false) :
    Ensures (fun _ => True) (convRead ns req) (ConvAnswered ns req) := by
  unfold convRead
  dsimp only
  rw [if_neg (Bool.eq_false_iff.mp hin)]
  exact Ensures.any.bind fun acc _ => .pure (.done rfl rfl (ConvNs.not_rejects hin))

theorem convWritePages_done (hin : ns.outOfRange req.cmd = false) (ns' : ConvNs) :
    Ensures (fun _ => True) (convWritePages ns' req) (ConvAnswered ns req) := by
  unfold convWritePages
  exact Ensures.any.bind fun _ _ => Ensures.any.bind fun _ _ =>
    .pure (.done rfl rfl (ConvNs.not_rejects hin))

theorem convWrite_answered (hop : req.cmd.opcode = .write) :
    Ensures (fun _ => True) (convWrite ns req) (ConvAnswered ns req) := by
  cases hout : ns.outOfRange req.cmd with
  | true =>
    rw [convWrite_outOfRange hout]
    exact .pure (.rejected rfl ⟨.inr hop, hout⟩)
  | false =>
    rcases Nat.lt_or_ge ns.writeBuffer.size req.cmd.bytes with hlarge | hfits
    · rw [convWrite_tooLarge hout hlarge]
      exact .throw trivial
    rcases Nat.lt_or_ge ns.writeBuffer.remaining req.cmd.bytes with hshort | hroom
    · rw [convWrite_short hout hfits hshort]
      exact .pure (.short rfl ⟨hop, hout, hshort⟩)
    · rw [convWrite_charged hout hfits hroom]
      exact convWritePages_done hout _

theorem convFlush_status (ns : ConvNs) :
    Ensures (fun _ => True) (convFlush ns) fun result => result.status = nvmeScSuccess := by
  unfold convFlush
  apply Ensures.any.bind
  intro start _
  apply Ensures.ite
  · exact fun _ => .pure rfl
  · exact fun _ => Ensures.any.bind fun latest _ => .pure rfl

theorem convProcNvmeIoCmd_answered (ns : ConvNs) (req : NvmevRequest) :
    Ensures (fun _ => True) (convProcNvmeIoCmd ns req) (ConvAnswered ns req) := by
  unfold convProcNvmeIoCmd
  cases hop : req.cmd.opcode with
  | write => exact convWrite_answered hop
  | read =>
    show Ensures _ (convRead ns req) _
    cases hout : ns.outOfRange req.cmd with
    | true =>
      rw [convRead_outOfRange hout]
      exact .pure (.rejected rfl ⟨.inl hop, hout⟩)
    | false => exact convRead_done hout
  | flush =>
    refine (convFlush_status ns).bind fun result hstatus => .pure (.done rfl hstatus ?_)
    rintro ⟨hread | hwrite, _⟩
    · exact nomatch hop.symm.trans hread
    · exact nomatch hop.symm.trans hwrite
  | other =>
    refine .pure (.done rfl rfl ?_)
    rintro ⟨hread | hwrite, _⟩
    · exact nomatch hop.symm.trans hread
    · exact nomatch hop.symm.trans hwrite

/-- What the dispatcher sees of a refusal. -/
structure RefusedWith {σ : Type} (ns : σ) (status : Nat) (out : ProcOutcome σ) : Prop where
  ns : out.ns = ns
  accepted : out.answer.accepted = false
  status : out.answer.result.status = status
  internal : out.answer.internal = []

/-- The ways a conventional namespace answers the dispatcher. -/
inductive ConvOutcome (ns : ConvNs) (entry : SqEntry) (out : ProcOutcome ConvNs) : Prop where
  | done : out.answer.accepted = true → out.answer.result.status = nvmeScSuccess →
    ¬ ns.Rejects entry.toNvmeCommand → ConvOutcome ns entry out
  | rejected : RefusedWith ns (nvmeScLbaRange ||| nvmeScDnr) out →
    ns.Rejects entry.toNvmeCommand → ConvOutcome ns entry out
  | short : RefusedWith ns (nvmeScInternal ||| nvmeScDnr) out → ns.Short entry.toNvmeCommand →
    ConvOutcome ns entry out

/-- It leaves the storage and the entry alone. -/
theorem convNamespace_outcome (ns : ConvNs) (storage : Nat → Nat) (entry : SqEntry) (sqid : Nat) :
    Ensures (fun _ => True) (nvmevProcIo convNamespace ns storage entry sqid) fun out =>
      ConvOutcome ns entry out ∧ out.storage = storage ∧ out.answer.entry = entry := by
  unfold nvmevProcIo
  apply Ensures.any.bind
  intro nsecsStart _
  apply (convProcNvmeIoCmd_answered ns _).bind
  rintro ⟨ns', ans⟩ hans
  refine .pure ⟨?_, rfl, rfl⟩
  cases hans with
  | done haccepted hstatus hin => exact .done haccepted hstatus hin
  | rejected hr hout =>
    obtain ⟨rfl, rfl⟩ := Prod.mk.inj hr
    exact .rejected ⟨rfl, rfl, rfl, rfl⟩ hout
  | short hr hshort =>
    obtain ⟨rfl, rfl⟩ := Prod.mk.inj hr
    exact .short ⟨rfl, rfl, rfl, rfl⟩ hshort

end Conv

end NvmeVirt

import NvmeVirt.Ssd.Nand

/-!
# The flash commands an instance has issued

The list of issued commands is written in one place, at the start of `ssd_advance_nand`.
-/

set_option autoImplicit false

namespace NvmeVirt

open Outcome

theorem readPiece_issued (ssd : Ssd) (ncmd : NandCmd) (chnlStime xferSize : Nat) :
    Ensures (fun _ => True) (readPiece ssd ncmd chnlStime xferSize)
      (fun r => r.1.issued = ssd.issued) := by
  unfold readPiece ssdAdvancePcie
  apply Ensures.any.bind
  intro _ _
  apply Ensures.ite
  · intro _
    apply Ensures.bind (P := fun r => r.1.issued = ssd.issued)
    · apply Ensures.any.bind
      intro _ _
      exact .pure rfl
    · intro _ hr
      exact .pure hr
  · intro _
    exact .pure rfl

theorem readXfer_issued (ncmd : NandCmd) :
    ∀ (passes : Nat) (ssd : Ssd) (remaining chnlStime : Nat) (ends : Nat × Nat),
      Ensures (fun _ => True) (readXfer ncmd passes ssd remaining chnlStime ends)
        (fun r => r.1.issued = ssd.issued) := by
  intro passes
  induction passes with
  | zero => exact fun _ _ _ _ => .pure rfl
  | succ passes ih =>
    intro ssd remaining chnlStime ends
    unfold readXfer
    apply Ensures.ite
    · intro _
      exact .pure rfl
    · intro _
      apply (readPiece_issued ssd ncmd _ _).bind
      intro r hr
      apply (ih _ _ _ _).mono
      exact fun _ hrest => hrest.trans hr

/-- A command is the newest one issued, and the only new one. -/
theorem ssdAdvanceNand_issued (ssd : Ssd) (ncmd : NandCmd) :
    Ensures (fun _ => True) (ssdAdvanceNand ssd ncmd)
      (fun r => r.1.issued = ncmd :: ssd.issued) := by
  unfold ssdAdvanceNand
  apply Ensures.any.bind
  intro _ _
  dsimp only
  cases ncmd.cmd with
  | read =>
    apply (readXfer_issued ncmd _ _ _ _ _).bind
    intro r hr
    exact .pure hr
  | write =>
    apply Ensures.any.bind
    intro _ _
    exact .pure rfl
  | erase => exact .pure rfl
  | nop => exact .pure rfl

end NvmeVirt

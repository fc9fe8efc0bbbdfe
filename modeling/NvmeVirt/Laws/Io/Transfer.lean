import NvmeVirt.Laws.Io.Prp

/-!
# Transfers from a buffer of the module

Whatever the PRP entries of a command are, a transfer that ends has read the bytes of its buffer from
the first to the last, each once. It stops in a fault only for want of a PRP list; with entries at
page boundaries it has one when it needs one.
-/

set_option autoImplicit false

namespace NvmeVirt

open GuestMemory (PrpWalk)

section Transfer

variable {guest : GuestMemory} {cmd : PrpCommand} {walk : PrpWalk} {remaining offset : Nat}

/-- One pass of the loop. -/
theorem performPages_pass {mapped paddr : Nat} {walk' : PrpWalk} (hpos : 0 < remaining)
    (hnext : guest.nextPrp cmd walk remaining = .ok (paddr, walk')) :
    guest.performPages cmd mapped walk remaining offset =
      (guest.performPages cmd mapped walk' (remaining - prpIoSize remaining paddr)
        (offset + prpIoSize remaining paddr) >>= fun copies =>
          pure (if cmd.moves = true then
            ⟨guest.mapPage paddr + paddr % pageSize, mapped + offset, prpIoSize remaining paddr⟩ ::
              copies
          else copies)) := by
  rw [GuestMemory.performPages, if_pos hpos, hnext]
  rfl

/-- The loop copies the offsets from `offset` on, one after the other. -/
theorem performPages_offsets (m : Nat) {mapped : Nat} {copies : List Copy} (hmoves : cmd.moves = true)
    (hok : guest.performPages cmd mapped walk remaining offset = .ok copies) :
    (Copy.allPairs m copies).map Prod.snd = List.range' (mapped + offset) remaining := by
  induction remaining using Nat.strongRecOn generalizing walk offset copies with
  | ind remaining ih =>
    by_cases hpos : 0 < remaining
    · cases hnext : guest.nextPrp cmd walk remaining with
      | error fault =>
        rw [GuestMemory.performPages, if_pos hpos, hnext] at hok
        cases hok
      | ok r =>
        rw [performPages_pass hpos hnext] at hok
        have hsize := prpIoSize_pos r.1 hpos
        have hle := prpIoSize_le remaining r.1
        cases hrest : guest.performPages cmd mapped r.2 (remaining - prpIoSize remaining r.1)
            (offset + prpIoSize remaining r.1) with
        | error fault =>
          rw [hrest] at hok
          cases hok
        | ok rest =>
          rw [hrest] at hok
          have hcopies := Except.ok.inj hok
          rw [if_pos hmoves] at hcopies
          rw [← hcopies, Copy.allPairs_cons, List.map_append, Copy.pairs_offsets,
            ih _ (by omega) hrest, ← Nat.add_assoc, List.range'_append_1]
          congr 1
          dsimp only
          omega
    · rw [GuestMemory.performPages, if_neg hpos] at hok
      obtain rfl := Except.ok.inj hok
      obtain rfl : remaining = 0 := by omega
      rfl

/-- What makes sure of the next entry: it is one of the first two, or there is a list, or nothing is
left. -/
def Supplied (walk : PrpWalk) (remaining : Nat) : Prop :=
  walk.prpOffs ≤ 1 ∨ walk.paddrList.isSome = true ∨ remaining = 0

/-- The entry after the first ends the transfer if there is no list to go on with. -/
theorem Supplied.next (h : Supplied walk remaining) (hpos : 0 < remaining)
    (haligned : u64 cmd.prp2 % pageSize = 0) :
    ∃ paddr walk', guest.nextPrp cmd walk remaining = .ok (paddr, walk') ∧
      Supplied walk' (remaining - prpIoSize remaining paddr) := by
  unfold GuestMemory.nextPrp
  dsimp only
  by_cases hfirst : walk.prpOffs + 1 = 1
  · rw [if_pos hfirst]
    exact ⟨_, _, rfl, .inl (Nat.le_of_eq hfirst)⟩
  rw [if_neg hfirst]
  by_cases hsecond : walk.prpOffs + 1 = 2
  · rw [if_pos hsecond]
    by_cases hlist : pageSize < remaining
    · rw [if_pos hlist]
      exact ⟨_, _, rfl, .inr (.inl rfl)⟩
    · rw [if_neg hlist]
      refine ⟨_, _, rfl, .inr (.inr ?_)⟩
      rw [prpIoSize_aligned _ haligned, Nat.min_eq_left (Nat.le_of_not_lt hlist), Nat.sub_self]
  · rw [if_neg hsecond]
    rcases h with hle | hlist | hzero
    · omega
    · obtain ⟨base, hbase⟩ := Option.isSome_iff_exists.mp hlist
      rw [hbase]
      exact ⟨_, _, rfl, .inr (.inl rfl)⟩
    · omega

/-- With `prp2` at a page boundary the loop does not fault. -/
theorem performPages_answers {mapped : Nat} (haligned : u64 cmd.prp2 % pageSize = 0)
    (h : Supplied walk remaining) :
    ∃ copies, guest.performPages cmd mapped walk remaining offset = .ok copies := by
  induction remaining using Nat.strongRecOn generalizing walk offset with
  | ind remaining ih =>
    by_cases hpos : 0 < remaining
    · obtain ⟨paddr, walk', hnext, hsupplied⟩ : ∃ paddr walk',
          guest.nextPrp cmd walk remaining = .ok (paddr, walk') ∧
            Supplied walk' (remaining - prpIoSize remaining paddr) := h.next hpos haligned
      have hsize := prpIoSize_pos paddr hpos
      obtain ⟨copies, hrest⟩ : ∃ copies, guest.performPages cmd mapped walk'
          (remaining - prpIoSize remaining paddr) (offset + prpIoSize remaining paddr) =
            .ok copies := ih _ (by omega) hsupplied
      rw [performPages_pass hpos hnext, hrest]
      exact ⟨_, rfl⟩
    · rw [GuestMemory.performPages, if_neg hpos]
      exact ⟨[], rfl⟩

/-- A transfer reads its buffer from the first byte to the last. -/
theorem transferPages_offsets (m : Nat) {prp1 prp2 length : Nat} {copies : List Copy}
    (hok : guest.transferPages prp1 prp2 length = .ok copies) :
    (Copy.allPairs m copies).map Prod.snd = List.range length := by
  have h := performPages_offsets m rfl hok
  rw [h, List.range_eq_range']

theorem transferPages_answers (guest : GuestMemory) (prp1 length : Nat) {prp2 : Nat}
    (haligned : u64 prp2 % pageSize = 0) :
    ∃ copies, guest.transferPages prp1 prp2 length = .ok copies :=
  performPages_answers haligned (.inl (Nat.zero_le 1))

end Transfer

end NvmeVirt

import NvmeVirt.Io.Prp

/-!
# Both PRP walks move the same bytes

Both walks see the same entries (`prpEntry`), and after `k` of them the same bytes are left
(`Left`). The first walk copies entry by entry (`performPages_eq`); the second gathers the entries
first and then joins the copies of entries that follow each other (`gatherPrps_eq`,
`submitRuns_pairs`). Copies are compared as the pairs of addresses they move a byte between, so that
joining them changes nothing.

They differ in the page of the first entry if the kernel does not know it: `memremap` maps from the
entry on, and the offset is added again.

What the DMA engine does is taken to be what it is given. Entries after the first are page aligned,
and there are no more of them than `paddr_list` holds (`PrpList`).
-/

set_option autoImplicit false

namespace NvmeVirt

open GuestMemory (PrpWalk)

section Prp

variable {guest : GuestMemory} {cmd : PrpCommand}

/-! ## The entries -/

/-- Where the data ends, counted from the start of the first page. -/
def PrpCommand.extent (cmd : PrpCommand) : Nat := u64 cmd.prp1 % pageSize + cmd.ioSize

/-- The `k`-th entry, from 1 on. -/
def prpEntry (guest : GuestMemory) (cmd : PrpCommand) (k : Nat) : Nat :=
  if k = 1 then u64 cmd.prp1
  else if k = 2 ∧ cmd.extent ≤ 2 * pageSize then u64 cmd.prp2
  else u64 (guest.word (guest.mapList (u64 cmd.prp2) + 8 * (k - 2)))

/-- The entries after the first are page aligned, and there are no more than `paddr_list` holds. -/
structure PrpList (guest : GuestMemory) (cmd : PrpCommand) : Prop where
  moves : cmd.moves = true
  short : cmd.extent ≤ 512 * pageSize
  aligned : ∀ k, 2 ≤ k → (k - 1) * pageSize < cmd.extent → prpEntry guest cmd k % pageSize = 0

/-- What is left after `k` entries. -/
def Left (cmd : PrpCommand) (k remaining : Nat) : Prop :=
  k = 0 ∧ remaining = cmd.ioSize ∨ 1 ≤ k ∧ remaining = cmd.extent - k * pageSize

/-- The variables of a walk after `k` entries. -/
structure WalkAt (guest : GuestMemory) (cmd : PrpCommand) (walk : PrpWalk) (k : Nat) : Prop where
  prpOffs : walk.prpOffs = k
  start : k ≤ 1 → walk.prp2Offs = 0
  list : 2 ≤ k → k * pageSize < cmd.extent →
    walk.paddrList = some (guest.mapList (u64 cmd.prp2)) ∧ walk.prp2Offs = k - 1

theorem PrpCommand.ioSize_pos (cmd : PrpCommand) : 0 < cmd.ioSize := by
  unfold PrpCommand.ioSize
  rw [Nat.shiftLeft_eq]
  exact Nat.mul_pos (Nat.succ_pos _) (Nat.two_pow_pos _)

theorem pageSize_pos : 0 < pageSize := Nat.succ_pos _

theorem prpIoSize_aligned {paddr : Nat} (remaining : Nat) (h : paddr % pageSize = 0) :
    prpIoSize remaining paddr = min remaining pageSize := by
  unfold prpIoSize
  rw [h]
  exact if_neg fun hboth => Nat.lt_irrefl 0 hboth.1

/-- More data means one more entry. -/
theorem Left.more {k remaining : Nat} (h : Left cmd k remaining) (hpos : 0 < remaining) :
    k * pageSize < cmd.extent := by
  rcases h with ⟨rfl, rfl⟩ | ⟨_, rfl⟩
  · unfold PrpCommand.extent
    omega
  · omega

/-- One entry more is done. -/
theorem Left.next (hlist : PrpList guest cmd) {k remaining : Nat} (h : Left cmd k remaining)
    (hpos : 0 < remaining) :
    Left cmd (k + 1) (remaining - prpIoSize remaining (prpEntry guest cmd (k + 1))) := by
  have hpage := pageSize_pos
  have hmore := h.more hpos
  refine .inr ⟨Nat.le_add_left .., ?_⟩
  rcases h with ⟨rfl, rfl⟩ | ⟨hk, rfl⟩
  · have hmod := Nat.mod_lt (u64 cmd.prp1) hpage
    have hfirst : prpEntry guest cmd (0 + 1) = u64 cmd.prp1 := if_pos rfl
    rw [hfirst]
    unfold prpIoSize PrpCommand.extent
    split
    · omega
    · omega
  · have hentry := hlist.aligned (k + 1) (by omega) hmore
    rw [prpIoSize_aligned _ hentry, Nat.succ_mul]
    omega

/-- Both walks come to the same entries. -/
theorem WalkAt.next {walk : PrpWalk} {k remaining : Nat}
    (h : WalkAt guest cmd walk k) (hleft : Left cmd k remaining) (hpos : 0 < remaining) :
    ∃ walk', guest.nextPrp cmd walk remaining = .ok (prpEntry guest cmd (k + 1), walk') ∧
      WalkAt guest cmd walk' (k + 1) := by
  have hmore := hleft.more hpos
  have hpage : pageSize = 4096 := rfl
  unfold GuestMemory.nextPrp
  dsimp only
  rw [h.prpOffs]
  by_cases hfirst : k + 1 = 1
  · obtain rfl : k = 0 := by omega
    rw [if_pos hfirst]
    exact ⟨_, rfl, ⟨rfl, fun _ => h.start (Nat.zero_le 1), fun hk => absurd hk (by omega)⟩⟩
  · rw [if_neg hfirst]
    by_cases hsecond : k + 1 = 2
    · obtain rfl : k = 1 := by omega
      have hrest : remaining = cmd.extent - 1 * pageSize := by
        rcases hleft with ⟨hzero, _⟩ | ⟨_, hrest⟩
        · exact absurd hzero Nat.one_ne_zero
        · exact hrest
      rw [if_pos hsecond]
      by_cases hlong : pageSize < remaining
      · rw [if_pos hlong, h.start (Nat.le_refl 1)]
        have hentry : prpEntry guest cmd (1 + 1) =
            u64 (guest.word (guest.mapList (u64 cmd.prp2) + 8 * 0)) := by
          unfold prpEntry
          rw [if_neg (by omega), if_neg (by omega)]
        rw [hentry]
        exact ⟨_, rfl, ⟨rfl, fun hk => absurd hk (by omega), fun _ _ => ⟨rfl, rfl⟩⟩⟩
      · rw [if_neg hlong]
        have hentry : prpEntry guest cmd (1 + 1) = u64 cmd.prp2 := by
          unfold prpEntry
          rw [if_neg (by omega), if_pos ⟨rfl, by omega⟩]
        rw [hentry]
        exact ⟨_, rfl, ⟨rfl, fun hk => absurd hk (by omega), fun _ hk => absurd hk (by omega)⟩⟩
    · rw [if_neg hsecond]
      obtain ⟨hbase, hoffs⟩ := h.list (by omega) hmore
      have hentry : prpEntry guest cmd (k + 1) =
          u64 (guest.word (guest.mapList (u64 cmd.prp2) + 8 * (k - 1))) := by
        unfold prpEntry
        rw [if_neg hfirst, if_neg (fun hboth => hsecond hboth.1)]
        rfl
      rw [hbase, hoffs, hentry]
      refine ⟨_, rfl, ⟨rfl, fun hk => absurd hk (by omega), fun _ _ => ⟨rfl, ?_⟩⟩⟩
      show k - 1 + 1 = k + 1 - 1
      omega

/-! ## Entry by entry -/

/-- The copies for the entries from `k` on, at the addresses `address` has for them. -/
def pageCopies (address prp : Nat → Nat) (k remaining offset : Nat) : List Copy :=
  if 0 < remaining then
    ⟨address k, offset, prpIoSize remaining (prp k)⟩ ::
      pageCopies address prp (k + 1) (remaining - prpIoSize remaining (prp k))
        (offset + prpIoSize remaining (prp k))
  else []
termination_by remaining
decreasing_by
  have hpos := prpIoSize_pos (prp k) ‹0 < remaining›
  omega

theorem pageCopies_done (address prp : Nat → Nat) (k offset : Nat) :
    pageCopies address prp k 0 offset = [] := by
  unfold pageCopies
  exact if_neg (Nat.lt_irrefl 0)

/-- The copies of a walk, entry by entry. -/
theorem pageCopies_more {address prp : Nat → Nat} {k remaining : Nat} (offset : Nat)
    (h : 0 < remaining) :
    pageCopies address prp k remaining offset =
      ⟨address k, offset, prpIoSize remaining (prp k)⟩ ::
        pageCopies address prp (k + 1) (remaining - prpIoSize remaining (prp k))
          (offset + prpIoSize remaining (prp k)) := by
  conv_lhs => unfold pageCopies
  exact if_pos h

/-- Where the first walk copies for the `k`-th entry. -/
def pageAddress (guest : GuestMemory) (cmd : PrpCommand) (k : Nat) : Nat :=
  guest.mapPage (prpEntry guest cmd k) + prpEntry guest cmd k % pageSize

/-- The first walk makes these copies. -/
theorem performPages_eq (hlist : PrpList guest cmd) {walk : PrpWalk} {k remaining : Nat}
    (hwalk : WalkAt guest cmd walk k) (hleft : Left cmd k remaining) (mapped offset : Nat) :
    guest.performPages cmd mapped walk remaining offset =
      .ok (pageCopies (pageAddress guest cmd) (prpEntry guest cmd) (k + 1) remaining
        (mapped + offset)) := by
  induction remaining using Nat.strongRecOn generalizing walk k offset with
  | ind remaining ih =>
    unfold GuestMemory.performPages
    by_cases hpos : 0 < remaining
    · obtain ⟨walk', hnext, hwalk'⟩ := hwalk.next hleft hpos
      have hio := prpIoSize_pos (prpEntry guest cmd (k + 1)) hpos
      have hrest := ih _ (by omega) hwalk' (hleft.next hlist hpos)
        (offset + prpIoSize remaining (prpEntry guest cmd (k + 1)))
      rw [if_pos hpos, hnext, pageCopies_more _ hpos]
      show (do
        let copies ← guest.performPages cmd mapped walk' _ _
        pure (if cmd.moves = true then _ :: copies else copies)) = _
      rw [hrest, hlist.moves, ← Nat.add_assoc]
      rfl
    · obtain rfl : remaining = 0 := by omega
      rw [if_neg hpos, pageCopies_done]
      rfl

/-! ## The gathered entries -/

/-- The second walk gathers the entries. -/
theorem gatherPrps_eq (hlist : PrpList guest cmd) {walk : PrpWalk} {k remaining : Nat}
    (hwalk : WalkAt guest cmd walk k) (hleft : Left cmd k remaining) {paddrs : Nat → Nat}
    (hpaddrs : ∀ j, 1 ≤ j → j ≤ k → paddrs j = prpEntry guest cmd j)
    (hk : k = 0 ∨ (k - 1) * pageSize < cmd.extent) :
    ∃ paddrs' n, guest.gatherPrps cmd walk paddrs remaining = .ok (paddrs', n) ∧
      (∀ j, 1 ≤ j → j ≤ n → paddrs' j = prpEntry guest cmd j) ∧ cmd.extent ≤ n * pageSize ∧
      (n = 0 ∨ (n - 1) * pageSize < cmd.extent) := by
  induction remaining using Nat.strongRecOn generalizing walk k paddrs with
  | ind remaining ih =>
    unfold GuestMemory.gatherPrps
    by_cases hpos : 0 < remaining
    · obtain ⟨walk', hnext, hwalk'⟩ := hwalk.next hleft hpos
      have hio := prpIoSize_pos (prpEntry guest cmd (k + 1)) hpos
      have hmore := hleft.more hpos
      have hfits : ¬ 512 < walk'.prpOffs := by
        have hshort := hlist.short
        rw [hwalk'.prpOffs]
        intro hlong
        have hle : 512 * pageSize ≤ k * pageSize := Nat.mul_le_mul_right _ (by omega)
        omega
      have hentries : ∀ j, 1 ≤ j → j ≤ k + 1 →
          Function.update paddrs walk'.prpOffs (prpEntry guest cmd (k + 1)) j =
            prpEntry guest cmd j := by
        intro j hj hjk
        rw [hwalk'.prpOffs]
        by_cases hlast : j = k + 1
        · rw [hlast, Function.update_self]
        · rw [Function.update_of_ne hlast]
          exact hpaddrs j hj (by omega)
      have hrest := ih _ (by omega) hwalk' (hleft.next hlist hpos) hentries (.inr hmore)
      rw [if_pos hpos, hnext]
      show ∃ paddrs' n, (if 512 < walk'.prpOffs then throw Fault.outOfBounds
        else guest.gatherPrps cmd walk' _ _) = Except.ok (paddrs', n) ∧ _
      rw [if_neg hfits]
      exact hrest
    · obtain rfl : remaining = 0 := by omega
      rw [if_neg hpos]
      refine ⟨paddrs, walk.prpOffs, rfl, ?_, ?_, ?_⟩
      · rw [hwalk.prpOffs]
        exact hpaddrs
      · rw [hwalk.prpOffs]
        rcases hleft with ⟨rfl, hzero⟩ | ⟨_, hzero⟩
        · exact absurd hzero (Nat.ne_of_lt cmd.ioSize_pos)
        · omega
      · rw [hwalk.prpOffs]
        exact hk

/-! ## Entries that follow each other -/

/-- The loop stops at the first entry that does not follow the one before. -/
theorem joinPages_run (paddrs : Nat → Nat) (numPrps prpOffs size : Nat) :
    ∃ m, GuestMemory.joinPages paddrs numPrps prpOffs size = (prpOffs + m, size + m * pageSize) ∧
      ∀ i, i < m → prpOffs + i ≤ numPrps ∧
        paddrs (prpOffs + i) = u64 (paddrs (prpOffs + i - 1) + pageSize) := by
  fun_induction GuestMemory.joinPages paddrs numPrps prpOffs size with
  | case1 prpOffs size hle hnext ih =>
    obtain ⟨m, heq, hrun⟩ := ih
    refine ⟨m + 1, ?_, ?_⟩
    · rw [heq, Nat.add_mul, Nat.one_mul]
      exact Prod.ext (by omega) (by omega)
    · intro i hi
      cases i with
      | zero => exact ⟨hle, hnext⟩
      | succ i =>
        have hi := hrun i (by omega)
        rw [show prpOffs + 1 + i = prpOffs + (i + 1) by omega] at hi
        exact hi
  | case2 | case3 => exact ⟨0, by rw [Nat.zero_mul]; rfl, fun i hi => absurd hi (Nat.not_lt_zero i)⟩

/-- The copies for entries that follow each other are one copy. -/
theorem pageCopies_run {prp : Nat → Nat} (m : Nat) {k remaining : Nat} (offset : Nat)
    (haligned : ∀ i, i ≤ m → prp (k + i) % pageSize = 0)
    (hrun : ∀ i, i < m → prp (k + (i + 1)) = u64 (prp (k + i) + pageSize)) :
    Copy.allPairs (2 ^ 64) (pageCopies prp prp k remaining offset) =
      (Copy.mk (prp k) offset (min remaining ((m + 1) * pageSize))).pairs (2 ^ 64) ++
        Copy.allPairs (2 ^ 64) (pageCopies prp prp (k + m + 1)
          (remaining - min remaining ((m + 1) * pageSize))
          (offset + min remaining ((m + 1) * pageSize))) := by
  have hpage := pageSize_pos
  induction m generalizing k remaining offset with
  | zero =>
    rw [Nat.zero_add, Nat.one_mul]
    rcases Nat.eq_zero_or_pos remaining with rfl | hpos
    · rw [Nat.zero_min, Nat.sub_zero, pageCopies_done, pageCopies_done]
      rfl
    · have hsize : prpIoSize remaining (prp k) = min remaining pageSize :=
        prpIoSize_aligned remaining (haligned 0 (Nat.zero_le 0))
      rw [pageCopies_more _ hpos, hsize, Copy.allPairs_cons]
  | succ m ih =>
    have hlonger : pageSize ≤ (m + 1 + 1) * pageSize := Nat.le_mul_of_pos_left _ (Nat.succ_pos _)
    have hsize : prpIoSize remaining (prp k) = min remaining pageSize :=
      prpIoSize_aligned remaining (haligned 0 (Nat.zero_le _))
    rcases Nat.lt_or_ge pageSize remaining with hlong | hshort
    · have hrest := @ih (k + 1) (remaining - pageSize) (offset + pageSize)
        (fun i hi => by
          have hi := haligned (i + 1) (Nat.succ_le_succ hi)
          rw [show k + (i + 1) = k + 1 + i by omega] at hi
          exact hi)
        (fun i hi => by
          have hi := hrun (i + 1) (Nat.succ_lt_succ hi)
          rw [show k + (i + 1) = k + 1 + i by omega, show k + (i + 1 + 1) = k + 1 + (i + 1) by omega]
            at hi
          exact hi)
      have hjoin : min remaining ((m + 1 + 1) * pageSize) =
          pageSize + min (remaining - pageSize) ((m + 1) * pageSize) := by
        rw [Nat.succ_mul (m + 1)]
        omega
      have hfollows : prp (k + 1) ≡ prp k + pageSize [MOD 2 ^ 64] := by
        rw [hrun 0 (Nat.succ_pos m)]
        exact Nat.mod_modEq _ _
      rw [pageCopies_more _ (Nat.lt_trans hpage hlong), hsize, Nat.min_eq_right (Nat.le_of_lt hlong),
        Copy.allPairs_cons, hrest, hjoin, Copy.pairs_split, Copy.pairs_congr hfollows,
        List.append_assoc, Nat.sub_sub, Nat.add_assoc offset]
      rw [show k + 1 + m + 1 = k + (m + 1) + 1 by omega]
    · rw [Nat.min_eq_left (Nat.le_trans hshort hlonger), Nat.sub_self, pageCopies_done]
      rcases Nat.eq_zero_or_pos remaining with rfl | hpos
      · rw [pageCopies_done]
        rfl
      · rw [pageCopies_more _ hpos, hsize, Nat.min_eq_left hshort, Nat.sub_self, pageCopies_done]
        rfl

/-- What is left is what the data has beyond the pages of the entries, if the first one is aligned. -/
theorem Left.beyond {k remaining : Nat} (h : Left cmd k remaining)
    (haligned : k = 0 → u64 cmd.prp1 % pageSize = 0) : remaining = cmd.extent - k * pageSize := by
  rcases h with ⟨rfl, rfl⟩ | ⟨_, hrest⟩
  · unfold PrpCommand.extent
    rw [haligned rfl]
    omega
  · exact hrest

/-- What is left once a run of `m + 1` pages is done. -/
theorem Left.run {k remaining : Nat} (h : remaining = cmd.extent - k * pageSize) (m : Nat) :
    Left cmd (k + m + 1) (remaining - min remaining ((m + 1) * pageSize)) := by
  refine .inr ⟨Nat.le_add_left .., ?_⟩
  have hsum : (k + m + 1) * pageSize = k * pageSize + (m + 1) * pageSize := by
    rw [← Nat.add_mul]
    rfl
  rw [hsum]
  omega

/-- Entries that follow each other point at the starts of pages, also the first: the others do. -/
theorem PrpList.run_aligned (hlist : PrpList guest cmd) {k m : Nat} (hm : 0 < m)
    (hpages : (k + m) * pageSize < cmd.extent)
    (hnext : ∀ i, i < m → prpEntry guest cmd (k + 1 + (i + 1)) =
      u64 (prpEntry guest cmd (k + 1 + i) + pageSize)) {i : Nat} (hi : i ≤ m) :
    prpEntry guest cmd (k + 1 + i) % pageSize = 0 := by
  have hpage : pageSize = 4096 := rfl
  have hlater : ∀ i, i < m → prpEntry guest cmd (k + 1 + (i + 1)) % pageSize = 0 := by
    intro i hi
    apply hlist.aligned _ (by omega)
    have hle : (k + 1 + (i + 1) - 1) * pageSize ≤ (k + m) * pageSize :=
      Nat.mul_le_mul_right _ (by omega)
    omega
  cases i with
  | zero =>
    have hsecond := hlater 0 hm
    have hfollows : prpEntry guest cmd (k + 1 + (0 + 1)) =
        u64 (prpEntry guest cmd (k + 1) + pageSize) := hnext 0 hm
    rw [hfollows] at hsecond
    unfold u64 at hsecond
    rw [hpage, Nat.mod_mod_of_dvd _ (by decide)] at hsecond
    rw [hpage, Nat.add_zero]
    omega
  | succ i => exact hlater i hi

/-- Joined copies move the same bytes. -/
theorem submitRuns_pairs (hlist : PrpList guest cmd) {paddrs : Nat → Nat} {numPrps : Nat}
    (hpaddrs : ∀ j, 1 ≤ j → j ≤ numPrps → paddrs j = prpEntry guest cmd j)
    (hcover : cmd.extent ≤ numPrps * pageSize)
    (hneeded : numPrps = 0 ∨ (numPrps - 1) * pageSize < cmd.extent) {k remaining : Nat}
    (hleft : Left cmd k remaining) (offset : Nat) :
    Copy.allPairs (2 ^ 64)
        (GuestMemory.submitRuns cmd paddrs numPrps (k + 1) remaining offset) =
      Copy.allPairs (2 ^ 64)
        (pageCopies (prpEntry guest cmd) (prpEntry guest cmd) (k + 1) remaining offset) := by
  induction remaining using Nat.strongRecOn generalizing k offset with
  | ind remaining ih =>
    unfold GuestMemory.submitRuns
    by_cases hpos : 0 < remaining
    · have hmore := hleft.more hpos
      have hk : k < numPrps :=
        Nat.lt_of_mul_lt_mul_right (Nat.lt_of_lt_of_le hmore hcover)
      obtain ⟨m, hjoin, hrun⟩ := joinPages_run paddrs numPrps (k + 1 + 1)
        (prpIoSize remaining (prpEntry guest cmd (k + 1)))
      rw [if_pos hpos, hpaddrs (k + 1) (Nat.le_add_left ..) hk]
      dsimp only
      rw [hjoin, if_pos hlist.moves]
      dsimp only
      rcases Nat.eq_zero_or_pos m with rfl | hm
      · have hio := prpIoSize_pos (prpEntry guest cmd (k + 1)) hpos
        have hone : min remaining (prpIoSize remaining (prpEntry guest cmd (k + 1)) + 0 * pageSize) =
            prpIoSize remaining (prpEntry guest cmd (k + 1)) := by
          rw [Nat.zero_mul, Nat.add_zero]
          exact Nat.min_eq_right (prpIoSize_le ..)
        rw [hone, Copy.allPairs_cons, Nat.add_zero (k + 1 + 1),
          ih _ (by omega) (hleft.next hlist hpos), pageCopies_more _ hpos, Copy.allPairs_cons]
      · -- the entries of the run, and that they are all needed and aligned
        have hlast := (hrun (m - 1) (by omega)).1
        have hpages : (k + m) * pageSize < cmd.extent := by
          rcases hneeded with hnone | hneeded
          · omega
          · have hle : (k + m) * pageSize ≤ (numPrps - 1) * pageSize :=
              Nat.mul_le_mul_right _ (by omega)
            omega
        have hnext : ∀ i, i < m → prpEntry guest cmd (k + 1 + (i + 1)) =
            u64 (prpEntry guest cmd (k + 1 + i) + pageSize) := by
          intro i hi
          obtain ⟨hin, hfollows⟩ := hrun i hi
          rw [show k + 1 + 1 + i - 1 = k + 1 + i by omega, hpaddrs (k + 1 + i) (by omega) (by omega),
            hpaddrs (k + 1 + 1 + i) (by omega) hin,
            show k + 1 + 1 + i = k + 1 + (i + 1) by omega] at hfollows
          exact hfollows
        have haligned : ∀ i, i ≤ m → prpEntry guest cmd (k + 1 + i) % pageSize = 0 :=
          fun i hi => hlist.run_aligned hm hpages hnext hi
        have hfirst : prpEntry guest cmd (k + 1) % pageSize = 0 := haligned 0 (Nat.zero_le m)
        have hrest := hleft.beyond fun hzero => by
          rw [hzero] at hfirst
          exact hfirst
        have hsize : min remaining (prpIoSize remaining (prpEntry guest cmd (k + 1)) + m * pageSize) =
            min remaining ((m + 1) * pageSize) := by
          rw [prpIoSize_aligned remaining hfirst, Nat.succ_mul]
          rw [Nat.add_mul] at hpages
          have hle : pageSize ≤ m * pageSize := Nat.le_mul_of_pos_left _ hm
          omega
        have hio : 0 < min remaining ((m + 1) * pageSize) :=
          Nat.lt_min.mpr ⟨hpos, Nat.mul_pos (Nat.succ_pos m) pageSize_pos⟩
        rw [hsize, Copy.allPairs_cons, pageCopies_run m offset haligned hnext,
          show k + 1 + 1 + m = k + m + 1 + 1 by omega,
          show k + 1 + m + 1 = k + m + 1 + 1 by omega, ih _ (by omega) (.run hrest m)]
    · obtain rfl : remaining = 0 := by omega
      rw [if_neg hpos, pageCopies_done]

/-! ## The bytes moved -/

/-- Each byte of the command has one copy. -/
theorem pageCopies_offsets (address prp : Nat → Nat) (k remaining offset : Nat) :
    (Copy.allPairs (2 ^ 64) (pageCopies address prp k remaining offset)).map Prod.snd =
      List.range' offset remaining := by
  induction remaining using Nat.strongRecOn generalizing k offset with
  | ind remaining ih =>
    rcases Nat.eq_zero_or_pos remaining with rfl | hpos
    · rw [pageCopies_done]
      rfl
    · have hio := prpIoSize_pos (prp k) hpos
      have hsum : remaining = prpIoSize remaining (prp k) + (remaining - prpIoSize remaining (prp k)) :=
        (Nat.add_sub_cancel' (prpIoSize_le ..)).symm
      rw [pageCopies_more _ hpos, Copy.allPairs_cons, List.map_append, Copy.pairs_offsets,
        ih _ (by omega), List.range'_append_1, ← hsum]

/-- What is copied depends on the addresses of the entries it needs. -/
theorem pageCopies_address (hlist : PrpList guest cmd) {address : Nat → Nat}
    (haddress : ∀ j, 1 ≤ j → (j - 1) * pageSize < cmd.extent → address j = prpEntry guest cmd j)
    {k remaining : Nat} (hleft : Left cmd k remaining) (offset : Nat) :
    pageCopies address (prpEntry guest cmd) (k + 1) remaining offset =
      pageCopies (prpEntry guest cmd) (prpEntry guest cmd) (k + 1) remaining offset := by
  induction remaining using Nat.strongRecOn generalizing k offset with
  | ind remaining ih =>
    rcases Nat.eq_zero_or_pos remaining with rfl | hpos
    · rw [pageCopies_done, pageCopies_done]
    · have hio := prpIoSize_pos (prpEntry guest cmd (k + 1)) hpos
      rw [pageCopies_more _ hpos, pageCopies_more _ hpos,
        haddress (k + 1) (Nat.le_add_left ..) (hleft.more hpos),
        ih _ (by omega) (hleft.next hlist hpos)]

/-- Both walks come to an end and move the same pairs of bytes, each byte of the LBA range once. -/
def MovesSameBytes (guest : GuestMemory) (cmd : PrpCommand) : Prop :=
  ∃ copies transfers, guest.doPerformIoPages cmd 0 = .ok (cmd.ioSize, copies) ∧
    guest.doPerformIoUsingDma cmd = .ok (cmd.ioSize, transfers) ∧
    Copy.allPairs (2 ^ 64) transfers = Copy.allPairs (2 ^ 64) copies ∧
    (Copy.allPairs (2 ^ 64) copies).map Prod.snd = List.range' cmd.ioOffset cmd.ioSize

theorem walkAt_start : WalkAt guest cmd .start 0 := ⟨rfl, fun _ => rfl, fun hk => absurd hk (by omega)⟩

/-- The walk of `__do_perform_io`. -/
theorem doPerformIoPages_eq (hlist : PrpList guest cmd) :
    guest.doPerformIoPages cmd 0 = .ok (cmd.ioSize,
      pageCopies (pageAddress guest cmd) (prpEntry guest cmd) 1 cmd.ioSize cmd.ioOffset) := by
  unfold GuestMemory.doPerformIoPages
  rw [performPages_eq hlist walkAt_start (.inl ⟨rfl, rfl⟩), Nat.zero_add cmd.ioOffset]
  rfl

/-- The walk of `__do_perform_io_using_dma`. -/
theorem doPerformIoUsingDma_eq (hlist : PrpList guest cmd) :
    ∃ transfers, guest.doPerformIoUsingDma cmd = .ok (cmd.ioSize, transfers) ∧
      Copy.allPairs (2 ^ 64) transfers = Copy.allPairs (2 ^ 64)
        (pageCopies (prpEntry guest cmd) (prpEntry guest cmd) 1 cmd.ioSize cmd.ioOffset) := by
  have hnone : ∀ j, 1 ≤ j → j ≤ 0 → (fun _ => 0 : Nat → Nat) j = prpEntry guest cmd j :=
    fun j hj hzero => by omega
  obtain ⟨paddrs, numPrps, hgather, hpaddrs, hcover, hneeded⟩ :=
    gatherPrps_eq hlist walkAt_start (.inl ⟨rfl, rfl⟩) hnone (.inl rfl)
  have hruns := submitRuns_pairs hlist hpaddrs hcover hneeded (.inl ⟨rfl, rfl⟩) cmd.ioOffset
  refine ⟨_, ?_, hruns⟩
  unfold GuestMemory.doPerformIoUsingDma
  rw [hgather]
  rfl

/-- Where the first walk copies for an entry that is aligned, or in a page that the kernel knows. -/
theorem pageAddress_eq {k : Nat} (h : guest.pfnValid (prpEntry guest cmd k / pageSize) = true ∨
    prpEntry guest cmd k % pageSize = 0) : pageAddress guest cmd k = prpEntry guest cmd k := by
  have hdiv := Nat.div_add_mod (prpEntry guest cmd k) pageSize
  rw [Nat.mul_comm] at hdiv
  unfold pageAddress GuestMemory.mapPage
  split
  · exact hdiv
  · rename_i hunknown
    rcases h with hvalid | haligned
    · exact absurd hvalid hunknown
    · rw [haligned, Nat.add_zero]

/-- The first bytes of the two walks only agree where the offset of the first entry is added once. -/
theorem MovesSameBytes.first_page (h : MovesSameBytes guest cmd) (hlist : PrpList guest cmd) :
    guest.pfnValid (u64 cmd.prp1 / pageSize) = true ∨ u64 cmd.prp1 % pageSize = 0 := by
  have hfirst : prpEntry guest cmd 1 = u64 cmd.prp1 := if_pos rfl
  have hpages := doPerformIoPages_eq hlist
  obtain ⟨transfers, hdma, hpairs⟩ := doPerformIoUsingDma_eq hlist
  obtain ⟨copies, transfers', hcopies, htransfers, hsame, _⟩ := h
  obtain rfl := (Prod.mk.inj (Except.ok.inj (hcopies.symm.trans hpages))).2
  obtain rfl := (Prod.mk.inj (Except.ok.inj (htransfers.symm.trans hdma))).2
  rw [hpairs, pageCopies_more _ cmd.ioSize_pos, pageCopies_more _ cmd.ioSize_pos] at hsame
  have hio := prpIoSize_pos (prpEntry guest cmd 1) cmd.ioSize_pos
  have hhead := congrArg List.head? hsame
  rw [Copy.allPairs_head _ hio, Copy.allPairs_head _ hio] at hhead
  have haddress := (Prod.mk.inj (Option.some.inj hhead)).1
  dsimp only at haddress
  by_contra hbad
  obtain ⟨hunknown, hunaligned⟩ := not_or.mp hbad
  unfold pageAddress GuestMemory.mapPage at haddress
  rw [hfirst, if_neg hunknown] at haddress
  have hpage : pageSize = 4096 := rfl
  have hmod := Nat.mod_lt (u64 cmd.prp1) pageSize_pos
  omega

/-- The two walks move the same bytes exactly when the first entry is page aligned, or in a page
that the kernel knows. The later entries are page aligned and fit the list of the walk, as the
protocol wants them; the guest leaves the list alone during the walk. -/
theorem dma_moves_same_bytes_iff (hlist : PrpList guest cmd) :
    MovesSameBytes guest cmd ↔
      guest.pfnValid (u64 cmd.prp1 / pageSize) = true ∨ u64 cmd.prp1 % pageSize = 0 := by
  constructor
  · exact fun h => h.first_page hlist
  · intro hgood
    have hfirst : prpEntry guest cmd 1 = u64 cmd.prp1 := if_pos rfl
    obtain ⟨transfers, hdma, hpairs⟩ := doPerformIoUsingDma_eq hlist
    have haddress : ∀ j, 1 ≤ j → (j - 1) * pageSize < cmd.extent →
        pageAddress guest cmd j = prpEntry guest cmd j := by
      intro j hj hneeded
      apply pageAddress_eq
      rcases Nat.eq_or_lt_of_le hj with rfl | hlater
      · rw [hfirst]
        exact hgood
      · exact .inr (hlist.aligned j hlater hneeded)
    have hcopies := pageCopies_address hlist haddress (k := 0) (.inl ⟨rfl, rfl⟩) cmd.ioOffset
    refine ⟨_, transfers, doPerformIoPages_eq hlist, hdma, ?_, pageCopies_offsets ..⟩
    rw [hpairs, hcopies]

/-! ## A page the kernel does not know -/

/-- A write of one LBA from the middle of a page. -/
def oneLbaWrite : PrpCommand where
  opcode := .write
  slba := 0
  length := 0
  prp1 := 0x1200
  prp2 := 0

theorem oneLbaWrite_prpList (guest : GuestMemory) : PrpList guest oneLbaWrite where
  moves := rfl
  short := by decide
  aligned := by
    intro k hk hneeded
    have hextent : oneLbaWrite.extent ≤ pageSize := by decide
    have hle : pageSize ≤ (k - 1) * pageSize := Nat.le_mul_of_pos_left _ (by omega)
    omega

/-- A write of 32 LBAs from the middle of a page, with the other four pages in a list. -/
def listWrite : PrpCommand where
  opcode := .write
  slba := 0
  length := 31
  prp1 := 0x1200
  prp2 := 0x8000

/-- Known pages. The first two that the list names follow each other, the last two lie apart. -/
def listMemory : GuestMemory where
  pfnValid := fun _ => true
  word := fun a => if a < 0x8010 then a * 512 else a * 1024

theorem listWrite_prpList : PrpList listMemory listWrite where
  moves := rfl
  short := by decide
  aligned := by
    intro k hk hneeded
    have hextent : listWrite.extent = 16896 := by decide
    have hlast : k ≤ 5 := by
      rw [hextent] at hneeded
      unfold pageSize at hneeded
      omega
    obtain rfl | rfl | rfl | rfl : k = 2 ∨ k = 3 ∨ k = 4 ∨ k = 5 := by omega
    all_goals decide

/-- With a list of four entries, the first two of which follow each other. -/
theorem dma_moves_same_bytes_iff_list : MovesSameBytes listMemory listWrite :=
  (dma_moves_same_bytes_iff listWrite_prpList).mpr (.inl rfl)

/-- In a page mapped with `memremap`, `__do_perform_io` adds the offset of the first entry twice. -/
theorem memremap_moves_other_bytes :
    ¬ ∀ (guest : GuestMemory) (cmd : PrpCommand), PrpList guest cmd → MovesSameBytes guest cmd := by
  intro hall
  have hlist := oneLbaWrite_prpList { pfnValid := fun _ => false, word := fun _ => 0 }
  rcases (hall _ _ hlist).first_page hlist with hvalid | haligned
  · exact nomatch hvalid
  · exact absurd haligned (by decide)

end Prp

end NvmeVirt

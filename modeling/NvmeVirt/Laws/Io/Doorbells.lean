import Mathlib.Data.List.Basic
import Mathlib.Logic.Function.Iterate
import NvmeVirt.Io.Doorbell

/-!
# The walk of a completion doorbell

A walk that does not turn reads the entries of its interval and counts each of them once. One that turns
has read the entry behind the last before it finds that there is none; and a walk up to index 0 leaves
the tail at −1, because the new value is compared where the tail is meant.
-/

set_option autoImplicit false

namespace NvmeVirt

/-! ## What a walk is for -/

/-- The entries from `old` on and before `new`, around the ring. -/
def ringInterval (size old new : Nat) : List Nat :=
  if old ≤ new then List.range' old (new - old)
  else List.range' old (size - old) ++ List.range new

/-- The queue with `k` requests fewer in flight. -/
def SubmissionQueue.landed (sq : SubmissionQueue) (k : Nat) : SubmissionQueue :=
  { sq with stat := { sq.stat with nrInFlight := (fun n => sub32 n 1)^[k] sq.stat.nrInFlight } }

/-- The walk ends, reads entries of the queue only, counts every entry of the interval once for its
submission queue, if there still is one, and leaves the tail at the last entry consumed. -/
def WalksRing (ctrl : Controller) (cqid : Nat) (cq : CompletionQueue) (newDb oldDb : Nat) : Prop :=
  ∃ ctrl' reads, ctrl.nvmevProcIoCq cqid newDb oldDb = .ok (ctrl', reads) ∧
    (∀ i ∈ reads, i < cq.queueSize) ∧
    (∀ q, ctrl'.sqes q = (ctrl.sqes q).map fun sq =>
      sq.landed ((ringInterval cq.queueSize oldDb newDb).countP fun i => (cq.cq i).sqId = q)) ∧
    ∃ cq', ctrl'.cqes cqid = some cq' ∧
      cq'.cqTail = (((newDb + cq.queueSize - 1) % cq.queueSize : Nat) : Int)

/-- The walk does not turn, does not end at 0, and the entries name queues there can be. -/
structure StraightWalk (cq : CompletionQueue) (newDb oldDb : Nat) : Prop where
  straight : oldDb ≤ newDb
  nonzero : newDb ≠ 0
  named : ∀ i, oldDb ≤ i → i < newDb → (cq.cq i).sqId ≤ nrMaxIoQueue

/-! ## Counting -/

/-- One request of the queue `sqid` fewer in flight, if there is such a queue. -/
def landOne (sqes : Nat → Option SubmissionQueue) (sqid : Nat) : Nat → Option SubmissionQueue :=
  fun q => if sqid = q then (sqes q).map (·.landed 1) else sqes q

theorem SubmissionQueue.landed_one (sq : SubmissionQueue) : sq.landed 1 =
    { sq with stat := { sq.stat with nrInFlight := sub32 sq.stat.nrInFlight 1 } } := by
  unfold SubmissionQueue.landed
  rw [Function.iterate_one]

theorem consumeSqid_eq {sqid : Nat} (h : sqid ≤ nrMaxIoQueue)
    (sqes : Nat → Option SubmissionQueue) : consumeSqid sqes sqid = .ok (landOne sqes sqid) := by
  unfold consumeSqid landOne
  rw [if_neg (Nat.not_lt.mpr h)]
  cases hsq : sqes sqid with
  | none =>
    refine congrArg Except.ok (funext fun q => ?_)
    by_cases hq : sqid = q
    · rw [if_pos hq, ← hq, hsq]
      rfl
    · rw [if_neg hq]
  | some sq =>
    refine congrArg Except.ok (funext fun q => ?_)
    by_cases hq : sqid = q
    · rw [if_pos hq, ← hq, Function.update_self, hsq, Option.map_some, SubmissionQueue.landed_one]
    · rw [if_neg hq, Function.update_of_ne (Ne.symm hq)]

theorem SubmissionQueue.landed_landed (sq : SubmissionQueue) (j k : Nat) :
    (sq.landed j).landed k = sq.landed (j + k) := by
  unfold SubmissionQueue.landed
  rw [Nat.add_comm j k, Function.iterate_add_apply]

theorem foldl_landOne (cq : CompletionQueue) (q : Nat) :
    ∀ (is : List Nat) (sqes : Nat → Option SubmissionQueue),
      is.foldl (fun sqes i => landOne sqes (cq.cq i).sqId) sqes q =
        (sqes q).map fun sq => sq.landed (is.countP fun i => (cq.cq i).sqId = q)
  | [], sqes => by
    show sqes q = (sqes q).map fun sq => sq.landed 0
    have hid : (fun sq : SubmissionQueue => sq.landed 0) = id := rfl
    rw [hid, Option.map_id, id]
  | i :: is, sqes => by
    rw [List.foldl_cons, foldl_landOne cq q is, List.countP_cons]
    unfold landOne
    by_cases hq : (cq.cq i).sqId = q
    · rw [if_pos hq, Option.map_map, if_pos (decide_eq_true hq)]
      refine congrArg (fun f => (sqes q).map f) (funext fun sq => ?_)
      rw [Function.comp_apply, SubmissionQueue.landed_landed, Nat.add_comm]
    · rw [if_neg hq, if_neg (by rwa [decide_eq_true_iff]), Nat.add_zero]

/-! ## The loop -/

section Loop

variable {cq : CompletionQueue}

/-- The pages hold the entries of the queue. -/
theorem CompletionQueue.entry_of_lt {i : Nat} (h : i < cq.queueSize) :
    cq.entry (i : Int) = .ok (cq.cq i) := by
  have hpage : i / nrCqePerPage < cq.numPages := by
    unfold nrCqePerPage CompletionQueue.numPages divRoundUp
    omega
  unfold CompletionQueue.entry
  rw [Int.toNat_natCast, if_neg (by omega)]
  rfl

/-- A walk of `n` entries without a turn. -/
theorem procIoCqEntries_straight : ∀ (n passes i : Nat) (walk : CqWalk), n < passes →
    i + n ≤ cq.queueSize → (∀ j, i ≤ j → j < i + n → (cq.cq j).sqId ≤ nrMaxIoQueue) →
      procIoCqEntries cq ((i + n : Nat) : Int) passes i walk =
        .ok { sqes := (List.range' i n).foldl (fun sqes j => landOne sqes (cq.cq j).sqId) walk.sqes
              reads := walk.reads ++ List.range' i n }
  | 0, passes + 1, i, walk, _, _, _ => by
    unfold procIoCqEntries
    rw [Nat.add_zero, if_pos rfl, List.range'_zero, List.append_nil]
    rfl
  | n + 1, passes + 1, i, walk, hpasses, hsize, hnamed => by
    have hnext : ((i + (n + 1) : Nat) : Int) = ((i + 1 + n : Nat) : Int) := by omega
    unfold procIoCqEntries
    rw [if_neg (by omega), CompletionQueue.entry_of_lt (by omega)]
    show (if _ then _ else consumeSqid walk.sqes (cq.cq i).sqId >>= _ : Except Fault CqWalk) = _
    rw [if_neg (by omega), consumeSqid_eq (hnamed i (Nat.le_refl i) (by omega)), hnext,
      List.range'_succ, List.foldl_cons]
    refine (procIoCqEntries_straight n passes (i + 1) _ (by omega) (by omega) fun j hj hjn =>
      hnamed j (by omega) (by omega)).trans ?_
    rw [Int.toNat_natCast, List.append_assoc]
    rfl

/-- What one pass does: it ends, turns back to 0, or consumes an entry. -/
theorem procIoCqEntries_pass {newDb i : Int} {passes : Nat} {walk walk' : CqWalk}
    (hrun : procIoCqEntries cq newDb (passes + 1) i walk = .ok walk') :
    (i = newDb ∧ walk' = walk) ∨
    ((cq.queueSize : Int) ≤ i ∧ procIoCqEntries cq newDb passes 0
      { walk with reads := walk.reads ++ [i.toNat] } = .ok walk') ∨
    ∃ sqes, (cq.cq i.toNat).sqId ≤ nrMaxIoQueue ∧ i < cq.queueSize ∧
      procIoCqEntries cq newDb passes (i + 1) { sqes, reads := walk.reads ++ [i.toNat] } =
        .ok walk' := by
  unfold procIoCqEntries at hrun
  split at hrun
  · rename_i hend
    exact .inl ⟨hend, (Except.ok.inj hrun).symm⟩
  unfold CompletionQueue.entry at hrun
  split at hrun
  · cases hrun
  change (if (cq.queueSize : Int) ≤ i then _ else
    consumeSqid walk.sqes (cq.cq i.toNat).sqId >>= _ : Except Fault CqWalk) = _ at hrun
  split at hrun
  · rename_i hturn
    exact .inr (.inl ⟨hturn, hrun⟩)
  · rename_i hin
    unfold consumeSqid at hrun
    split at hrun
    · cases hrun
    · rename_i hnamed
      cases hsq : walk.sqes (cq.cq i.toNat).sqId with
      | none =>
        rw [hsq] at hrun
        exact .inr (.inr ⟨_, Nat.not_lt.mp hnamed, Int.not_le.mp hin, hrun⟩)
      | some sq =>
        rw [hsq] at hrun
        exact .inr (.inr ⟨_, Nat.not_lt.mp hnamed, Int.not_le.mp hin, hrun⟩)

/-- What was read stays read. -/
theorem procIoCqEntries_reads {newDb : Int} {n : Nat} :
    ∀ {passes : Nat} {i : Int} {walk walk' : CqWalk}, n ∈ walk.reads →
      procIoCqEntries cq newDb passes i walk = .ok walk' → n ∈ walk'.reads
  | 0, _, _, _, _, hrun => nomatch hrun
  | passes + 1, i, walk, walk', hn, hrun => by
    obtain ⟨_, rfl⟩ | ⟨_, hrun⟩ | ⟨_, _, _, hrun⟩ := procIoCqEntries_pass hrun
    · exact hn
    · exact procIoCqEntries_reads (List.mem_append_left _ hn) hrun
    · exact procIoCqEntries_reads (List.mem_append_left _ hn) hrun

/-- A walk that has to turn reads the entry behind the last one. -/
theorem procIoCqEntries_turn {newDb : Nat} :
    ∀ {passes i : Nat} {walk walk' : CqWalk}, newDb < i → i ≤ cq.queueSize →
      procIoCqEntries cq newDb passes i walk = .ok walk' → cq.queueSize ∈ walk'.reads
  | 0, _, _, _, _, _, hrun => nomatch hrun
  | passes + 1, i, walk, walk', hlt, hle, hrun => by
    obtain ⟨hend, _⟩ | ⟨hturn, hrun⟩ | ⟨sqes, _, hin, hrun⟩ := procIoCqEntries_pass hrun
    · omega
    · have hi : i = cq.queueSize := by omega
      refine procIoCqEntries_reads (List.mem_append_right _ ?_) hrun
      rw [Int.toNat_natCast, hi]
      exact List.mem_singleton_self _
    · exact procIoCqEntries_turn (i := i + 1) (by omega) (by omega) hrun

/-- A walk that ends has found a queue that can be in each of its entries. -/
theorem procIoCqEntries_named {newDb : Nat} (hnew : newDb ≤ cq.queueSize) :
    ∀ {passes i j : Nat} {walk walk' : CqWalk}, i ≤ j → j < newDb →
      procIoCqEntries cq newDb passes i walk = .ok walk' → (cq.cq j).sqId ≤ nrMaxIoQueue
  | 0, _, _, _, _, _, _, hrun => nomatch hrun
  | passes + 1, i, j, walk, walk', hij, hj, hrun => by
    obtain ⟨hend, _⟩ | ⟨hturn, _⟩ | ⟨sqes, hnamed, _, hrun⟩ := procIoCqEntries_pass hrun
    · omega
    · omega
    · obtain hlt | rfl := Nat.lt_or_eq_of_le hij
      · exact procIoCqEntries_named (i := i + 1) hnew hlt hj hrun
      · rwa [Int.toNat_natCast] at hnamed

end Loop

/-- **Completion doorbells.** The walk of a doorbell covers exactly its interval if and only if it
does not turn, does not end at 0, and meets no entry that names a queue there cannot be. The
doorbells are any two inside the ring. A walk that turns reads the entry behind the last one, and
one that ends at 0 leaves −1 for the tail. -/
theorem procIoCq_walks_iff {ctrl : Controller} {cqid : Nat} {cq : CompletionQueue} {newDb oldDb : Nat}
    (hcq : ctrl.cqes cqid = some cq) (hnew : newDb < cq.queueSize) (hold : oldDb < cq.queueSize) :
    WalksRing ctrl cqid cq newDb oldDb ↔ StraightWalk cq newDb oldDb := by
  unfold WalksRing Controller.nvmevProcIoCq
  rw [hcq]
  constructor
  · rintro ⟨ctrl', reads, hrun, hreads, _, cq', hcq', htail⟩
    dsimp only at hrun
    cases hwalk : procIoCqEntries cq newDb (2 * cq.queueSize + 2) oldDb
      { sqes := ctrl.sqes, reads := [] } with
    | error e =>
      rw [hwalk] at hrun
      cases hrun
    | ok walk =>
      rw [hwalk] at hrun
      cases hrun
      have hstraight : oldDb ≤ newDb := by
        by_contra hlt
        have hmem := procIoCqEntries_turn (Nat.not_le.mp hlt) (Nat.le_of_lt hold) hwalk
        exact Nat.lt_irrefl _ (hreads _ hmem)
      refine ⟨hstraight, fun hzero => ?_, fun i hi hin =>
        procIoCqEntries_named (Nat.le_of_lt hnew) hi hin hwalk⟩
      dsimp only at hcq'
      rw [Function.update_self] at hcq'
      obtain rfl := Option.some.inj hcq'
      subst hzero
      have htail : (-1 : Int) = (((0 + cq.queueSize - 1) % cq.queueSize : Nat) : Int) := htail
      omega
  · rintro ⟨hstraight, hnonzero, hnamed⟩
    obtain ⟨n, rfl⟩ := Nat.exists_eq_add_of_le hstraight
    dsimp only
    rw [procIoCqEntries_straight n (2 * cq.queueSize + 2) oldDb _ (by omega) (Nat.le_of_lt hnew) hnamed]
    refine ⟨_, _, rfl, fun i hi => ?_, fun q => ?_, _, Function.update_self .., ?_⟩
    · obtain ⟨_, hlt⟩ := List.mem_range'_1.mp hi
      omega
    · unfold ringInterval
      rw [if_pos hstraight, Nat.add_sub_cancel_left]
      exact foldl_landOne cq q _ _
    · have hlast : (oldDb + n + cq.queueSize - 1) % cq.queueSize = oldDb + n - 1 := by
        have hsplit : oldDb + n + cq.queueSize - 1 = oldDb + n - 1 + cq.queueSize := by omega
        rw [hsplit, Nat.add_mod_right, Nat.mod_eq_of_lt (by omega)]
      rw [hlast]
      show (if ((oldDb + n : Nat) : Int) = -1 then (cq.queueSize : Int) - 1
        else ((oldDb + n : Nat) : Int) - 1) = _
      rw [if_neg (by omega)]
      omega

/-- A controller with one completion queue of `size` fresh entries. -/
def oneCq (size : Nat) : Controller where
  bar := { aqa := 0, asq := 0, acq := 0, cc := 0 }
  oldBar := { aqa := 0, asq := 0, acq := 0, cc := 0 }
  csts := { rdy := 0, shst := 0 }
  dbs := fun _ => 0
  oldDbs := fun _ => 0
  nrNs := 1
  nrSq := 1
  nrCq := 1
  adminQ := none
  sqes := fun _ => none
  cqes := fun _ => some
    { qid := 1, irqEnabled := false, irqVector := 0, interruptReady := false, queueSize := size
      phase := true, cqHead := 0, cqTail := -1, cq := fun _ => NvmeCompletion.zero }

/-- The entries 250 to 259 of a queue of two pages are walked, the last four of them in the second
page. -/
theorem procIoCq_walks_pages :
    ∃ cq, (oneCq 512).cqes 1 = some cq ∧ WalksRing (oneCq 512) 1 cq 260 250 :=
  ⟨_, rfl, (procIoCq_walks_iff rfl (by decide) (by decide)).mpr
    ⟨by decide, by decide, fun _ _ _ => Nat.zero_le _⟩⟩

/-- The walk from the last entry of a full page to the first one reads past the page. -/
theorem procIoCq_turn_faults : ∃ cq, (oneCq 256).cqes 1 = some cq ∧ cq.queueSize = 256 ∧
    (oneCq 256).nvmevProcIoCq 1 1 255 = .error .outOfBounds ∧ ¬ WalksRing (oneCq 256) 1 cq 1 255 := by
  have hfault : (oneCq 256).nvmevProcIoCq 1 1 255 = .error .outOfBounds := rfl
  refine ⟨_, rfl, rfl, hfault, ?_⟩
  rintro ⟨ctrl', reads, hrun, _⟩
  have hrun' : (oneCq 256).nvmevProcIoCq 1 1 255 = .ok (ctrl', reads) := hrun
  rw [hfault] at hrun'
  cases hrun'

end NvmeVirt

import Mathlib.Data.List.Nodup
import NvmeVirt.Laws.Pqueue
import NvmeVirt.Conv.Pages

/-!
# Where a line is

`Placed lm cur place` says that `place` is the one container each line is in: the free list, the
full list, the victim queue, a write pointer, or none of them while a function holds it in hand.
Each transition of the source takes a line out of its container (`held`) and puts it into another;
the lemmas below are one for each half.

The victim queue is the `Pqueue` of `pqueue.c` over the lines themselves, so its laws are used at
`victimLine`; the counters of a line are its priority, which is why a counter may change only
together with its place in the heap. What the other fields of a line are is none of the queue's
business (`Kept`).
-/

set_option autoImplicit false

namespace NvmeVirt

/-- The containers of a line. -/
inductive Place where
  | free | full | victim
  | opened (ioType : Stream)
  | held
  deriving DecidableEq, Repr

theorem victimLine_lawful : victimLine.Lawful where
  cmp_iff a b := decide_eq_true_iff
  getpos_setpos m x y p := by
    by_cases h : y = x
    · subst h; simp [victimLine]
    · simp [victimLine, h]
  getpri_setpos m x y p := by
    by_cases h : y = x
    · subst h; simp [victimLine]
    · simp [victimLine, h]
  getpos_setpri m x y p := by
    by_cases h : y = x
    · subst h; simp [victimLine]
    · simp [victimLine, h]
  getpri_setpri m x y p := by
    by_cases h : y = x
    · subst h; simp [victimLine]
    · simp [victimLine, h]

/-- The lines without their positions. -/
def Lines.offQueue (lines : Lines) : Lines := fun i => { lines i with pos := 0 }

namespace LineMgmt

/-- Line `i` is in the container `c`, whatever else it is in. `cur` gives the line of each write
pointer, none while the pointer is between two lines. -/
def Holds (lm : LineMgmt) (cur : Stream → Option Nat) (i : Nat) : Place → Prop
  | .free => i ∈ lm.freeLineList
  | .full => i ∈ lm.fullLineList
  | .victim => (lm.lines i).pos ≠ 0
  | .opened s => cur s = some i
  | .held => False

/-- The lists have no duplicates, the queue is a heap whose positions are right, and the counts are
the sizes. -/
structure Tidy (lm : LineMgmt) : Prop where
  id : ∀ i, (lm.lines i).id = i
  freeNodup : lm.freeLineList.Nodup
  fullNodup : lm.fullLineList.Nodup
  queue : Pqueue.Valid victimLine lm.victimLinePq lm.lines
  freeCnt : lm.freeLineCnt = lm.freeLineList.length
  fullCnt : lm.fullLineCnt = lm.fullLineList.length
  victimCnt : lm.victimLineCnt + 1 = lm.victimLinePq.size

/-- `place` is the only container of each line. -/
structure Placed (lm : LineMgmt) (cur : Stream → Option Nat) (place : Nat → Place) : Prop
    extends Tidy lm where
  holds : ∀ i c, lm.Holds cur i c ↔ i < lm.ttLines ∧ place i = c ∧ c ≠ .held

variable {lm lm' : LineMgmt} {cur cur' : Stream → Option Nat} {place : Nat → Place} {l : Nat}

namespace Placed

/-- The lines of the free list. -/
theorem mem_free (h : lm.Placed cur place) {i : Nat} :
    i ∈ lm.freeLineList ↔ i < lm.ttLines ∧ place i = .free :=
  (h.holds i .free).trans (by simp)

/-- The lines of the full list. -/
theorem mem_full (h : lm.Placed cur place) {i : Nat} :
    i ∈ lm.fullLineList ↔ i < lm.ttLines ∧ place i = .full :=
  (h.holds i .full).trans (by simp)

/-- The lines of the victim queue. -/
theorem queued (h : lm.Placed cur place) {i : Nat} :
    (lm.lines i).pos ≠ 0 ↔ i < lm.ttLines ∧ place i = .victim :=
  (h.holds i .victim).trans (by simp)

/-- The line of a write pointer. -/
theorem cur_eq (h : lm.Placed cur place) {s : Stream} {i : Nat} :
    cur s = some i ↔ i < lm.ttLines ∧ place i = .opened s :=
  (h.holds i (.opened s)).trans (by simp)

theorem pos_eq_zero (h : lm.Placed cur place) (hp : place l ≠ .victim) : (lm.lines l).pos = 0 := by
  by_contra hpos
  exact hp (h.queued.mp hpos).2

/-- The line `l` leaves its container, and nothing else moves. -/
theorem take (h : lm.Placed cur place) {c : Place} (hl : place l = c) (ht : lm'.Tidy)
    (htt : lm'.ttLines = lm.ttLines)
    (hother : ∀ i d, d ≠ c → (lm'.Holds cur' i d ↔ lm.Holds cur i d))
    (hc : ∀ i, lm'.Holds cur' i c ↔ lm.Holds cur i c ∧ i ≠ l) :
    lm'.Placed cur' (Function.update place l .held) := by
  refine ⟨ht, fun i d => ?_⟩
  rw [htt]
  by_cases hdc : d = c
  · rw [hdc, hc, h.holds]
    by_cases hi : i = l
    · subst hi
      rw [Function.update_self]
      refine iff_of_false (fun hh => hh.2 rfl) ?_
      rintro ⟨_, he, hne⟩
      exact hne he.symm
    · rw [Function.update_of_ne hi]
      simp [hi]
  · rw [hother i d hdc, h.holds]
    by_cases hi : i = l
    · subst hi
      rw [Function.update_self, hl]
      refine iff_of_false (fun hh => hdc hh.2.1.symm) ?_
      rintro ⟨_, rfl, hne⟩
      exact hne rfl
    · rw [Function.update_of_ne hi]

/-- The line `l` in hand goes to the container `c`, and nothing else moves. -/
theorem give (h : lm.Placed cur place) {c : Place} (hlt : l < lm.ttLines) (hl : place l = .held)
    (hheld : c ≠ .held) (ht : lm'.Tidy) (htt : lm'.ttLines = lm.ttLines)
    (hother : ∀ i d, d ≠ c → (lm'.Holds cur' i d ↔ lm.Holds cur i d))
    (hc : ∀ i, lm'.Holds cur' i c ↔ lm.Holds cur i c ∨ i = l) :
    lm'.Placed cur' (Function.update place l c) := by
  refine ⟨ht, fun i d => ?_⟩
  rw [htt]
  by_cases hdc : d = c
  · rw [hdc, hc, h.holds]
    by_cases hi : i = l
    · subst hi
      rw [Function.update_self]
      simp [hlt, hheld]
    · rw [Function.update_of_ne hi]
      simp [hi]
  · rw [hother i d hdc, h.holds]
    by_cases hi : i = l
    · subst hi
      rw [Function.update_self, hl]
      refine iff_of_false ?_ fun hh => hdc hh.2.1.symm
      rintro ⟨_, rfl, hne⟩
      exact hne rfl
    · rw [Function.update_of_ne hi]

/-! ### The free list -/

/-- What `get_next_free_line` leaves. -/
structure FreeTaken (lm lm' : LineMgmt) : Prop where
  lines : lm'.lines = lm.lines
  ttLines : lm'.ttLines = lm.ttLines
  length : lm'.freeLineList.length + 1 = lm.freeLineList.length

theorem getNextFreeLine_none (h : lm.getNextFreeLine = none) : lm.freeLineList = [] := by
  unfold getNextFreeLine at h
  split at h
  · assumption
  · cases h

/-- The first free line is taken in hand. -/
theorem getNextFreeLine_some (h : lm.Placed cur place) (hg : lm.getNextFreeLine = some (l, lm')) :
    l < lm.ttLines ∧ place l = .free ∧ FreeTaken lm lm' ∧
      lm'.Placed cur (Function.update place l .held) := by
  unfold getNextFreeLine at hg
  split at hg
  · cases hg
  · rename_i head rest hlist
    cases hg
    obtain ⟨hl, hfree⟩ := h.mem_free.mp (by rw [hlist]; exact List.mem_cons_self)
    obtain ⟨hnot, hrest⟩ := List.nodup_cons.mp (hlist ▸ h.freeNodup)
    have hcnt := h.freeCnt
    rw [hlist, List.length_cons] at hcnt
    have htidy : Tidy { lm with freeLineList := rest, freeLineCnt := lm.freeLineCnt - 1 } :=
      { h.toTidy with freeNodup := hrest, freeCnt := by show lm.freeLineCnt - 1 = rest.length; omega }
    refine ⟨hl, hfree, ⟨rfl, rfl, by rw [hlist, List.length_cons]⟩,
      h.take hfree htidy rfl (fun i d hd => ?_) fun i => ?_⟩
    · cases d with
      | free => exact absurd rfl hd
      | _ => exact Iff.rfl
    · simp only [Holds, hlist, List.mem_cons]
      constructor
      · intro hi
        exact ⟨.inr hi, by rintro rfl; exact hnot hi⟩
      · rintro ⟨rfl | hi, hne⟩
        · exact absurd rfl hne
        · exact hi

end Placed

/-- A change of lines that touches neither their positions nor the keys of the queue. -/
theorem Tidy.withLines (h : lm.Tidy) {lines : Lines} (hid : ∀ i, (lines i).id = (lm.lines i).id)
    (hpos : ∀ i, (lines i).pos = (lm.lines i).pos)
    (hvpc : ∀ i, (lm.lines i).pos ≠ 0 → (lines i).vpc = (lm.lines i).vpc) :
    Tidy { lm with lines } :=
  { h with
    id := fun i => (hid i).trans (h.id i)
    queue := h.queue.congr_queued hpos hvpc }

/-- The same change, with the line where it is. -/
theorem Placed.withLines (h : lm.Placed cur place) {lines : Lines}
    (hid : ∀ i, (lines i).id = (lm.lines i).id) (hpos : ∀ i, (lines i).pos = (lm.lines i).pos)
    (hvpc : ∀ i, (lm.lines i).pos ≠ 0 → (lines i).vpc = (lm.lines i).vpc) :
    Placed { lm with lines } cur place := by
  refine ⟨h.toTidy.withLines hid hpos hvpc, fun i c => ?_⟩
  rw [← h.holds i c]
  cases c with
  | victim => simp only [Holds, hpos]
  | _ => exact Iff.rfl

/-- Writing a line at its own `id` and `pos`, off the queue or at its own key. -/
theorem Placed.setLine (h : lm.Placed cur place) {line : Line} (hid : line.id = (lm.lines l).id)
    (hpos : line.pos = (lm.lines l).pos)
    (hvpc : (lm.lines l).pos ≠ 0 → line.vpc = (lm.lines l).vpc) :
    (lm.setLine l line).Placed cur place := by
  refine h.withLines (fun i => ?_) (fun i => ?_) fun i hi => ?_
  all_goals
    by_cases hil : i = l
    · subst hil
      rw [Function.update_self]
      first | exact hid | exact hpos | exact hvpc hi
    · rw [Function.update_of_ne hil]

/-- The effect of `mark_line_free` on the place of the line. -/
theorem Placed.markLineFree (h : lm.Placed cur place) (hlt : l < lm.ttLines)
    (hl : place l = .held) :
    (lm.markLineFree l).Placed cur (Function.update place l .free) := by
  have hpos := h.pos_eq_zero (l := l) (by rw [hl]; exact nofun)
  have hset : (lm.setLine l
      { lm.lines l with ipc := 0, vpc := 0, eraseCnt := (lm.lines l).eraseCnt + 1 }).Placed cur place :=
    h.setLine rfl rfl fun hne => absurd hpos hne
  have hnot : l ∉ lm.freeLineList := by
    rw [h.mem_free, hl]
    exact fun hh => nomatch hh.2
  refine hset.give hlt hl nofun ?_ rfl (fun i d hd => ?_) fun i => ?_
  · refine { hset.toTidy with freeNodup := ?_, freeCnt := ?_ }
    · exact List.Nodup.append h.freeNodup (List.nodup_singleton l) (by simpa using hnot)
    · show lm.freeLineCnt + 1 = (lm.freeLineList ++ [l]).length
      rw [List.length_append, h.freeCnt]
      rfl
  · cases d with
    | free => exact absurd rfl hd
    | _ => exact Iff.rfl
  · simp [Holds, LineMgmt.markLineFree, LineMgmt.setLine]

/-! ### The write pointers -/

/-- The write pointer of stream `s` gives up its line. -/
theorem Placed.release (h : lm.Placed cur place) {s : Stream} (hs : cur s = some l) :
    lm.Placed (Function.update cur s none) (Function.update place l .held) := by
  refine h.take (h.cur_eq.mp hs).2 h.toTidy rfl (fun i d hd => ?_) fun i => ?_
  · cases d with
    | opened s' =>
      have hne : s' ≠ s := by rintro rfl; exact hd rfl
      simp [Holds, hne]
    | _ => exact Iff.rfl
  · simp only [Holds, Function.update_self, hs, Option.some.injEq]
    refine iff_of_false nofun ?_
    rintro ⟨rfl, hne⟩
    exact hne rfl

/-- The idle write pointer of stream `s` opens the line in hand. -/
theorem Placed.assign (h : lm.Placed cur place) {s : Stream} (hlt : l < lm.ttLines)
    (hl : place l = .held) (hs : cur s = none) :
    lm.Placed (Function.update cur s (some l)) (Function.update place l (.opened s)) := by
  refine h.give hlt hl nofun h.toTidy rfl (fun i d hd => ?_) fun i => ?_
  · cases d with
    | opened s' =>
      have hne : s' ≠ s := by rintro rfl; exact hd rfl
      simp [Holds, hne]
    | _ => exact Iff.rfl
  · simp only [Holds, Function.update_self, hs, Option.some.injEq]
    constructor
    · exact fun he => .inr he.symm
    · rintro (hf | he)
      · exact nomatch hf
      · exact he.symm

/-! ### The full list -/

/-- A line in hand is full. -/
theorem Placed.addFull (h : lm.Placed cur place) (hlt : l < lm.ttLines) (hl : place l = .held) :
    (lm.addFull l).Placed cur (Function.update place l .full) := by
  have hnot : l ∉ lm.fullLineList := by
    rw [h.mem_full, hl]
    exact fun hh => nomatch hh.2
  refine h.give hlt hl nofun ?_ rfl (fun i d hd => ?_) fun i => ?_
  · refine { h.toTidy with fullNodup := ?_, fullCnt := ?_ }
    · exact List.Nodup.append h.fullNodup (List.nodup_singleton l) (by simpa using hnot)
    · show lm.fullLineCnt + 1 = (lm.fullLineList ++ [l]).length
      rw [List.length_append, h.fullCnt]
      rfl
  · cases d with
    | full => exact absurd rfl hd
    | _ => exact Iff.rfl
  · simp [Holds, LineMgmt.addFull]

/-- A full line leaves the list. -/
theorem Placed.takeFull (h : lm.Placed cur place) (hl : place l = .full) (hlt : l < lm.ttLines) :
    Placed { lm with
      fullLineList := lm.fullLineList.erase l
      fullLineCnt := lm.fullLineCnt - 1 } cur (Function.update place l .held) := by
  have hmem : l ∈ lm.fullLineList := h.mem_full.mpr ⟨hlt, hl⟩
  refine h.take hl ?_ rfl (fun i d hd => ?_) fun i => ?_
  · refine { h.toTidy with fullNodup := h.fullNodup.erase l, fullCnt := ?_ }
    show lm.fullLineCnt - 1 = (lm.fullLineList.erase l).length
    rw [List.length_erase_of_mem hmem, h.fullCnt]
  · cases d with
    | full => exact absurd rfl hd
    | _ => exact Iff.rfl
  · simp only [Holds, h.fullNodup.mem_erase_iff]
    exact and_comm

/-! ### The victim queue -/

/-- The queue operations leave everything of a line but its position. -/
structure Kept (lines lines' : Lines) : Prop where
  id : ∀ i, (lines' i).id = (lines i).id
  ipc : ∀ i, (lines' i).ipc = (lines i).ipc
  vpc : ∀ i, (lines' i).vpc = (lines i).vpc
  lastModifiedTime : ∀ i, (lines' i).lastModifiedTime = (lines i).lastModifiedTime
  eraseCnt : ∀ i, (lines' i).eraseCnt = (lines i).eraseCnt

theorem Kept.of_offQueue {lines lines' : Lines} (h : lines'.offQueue = lines.offQueue) :
    Kept lines lines' := by
  refine ⟨fun i => ?_, fun i => ?_, fun i => ?_, fun i => ?_, fun i => ?_⟩
  · exact (congrArg (fun e : Lines => (e i).id) h :)
  · exact (congrArg (fun e : Lines => (e i).ipc) h :)
  · exact (congrArg (fun e : Lines => (e i).vpc) h :)
  · exact (congrArg (fun e : Lines => (e i).lastModifiedTime) h :)
  · exact (congrArg (fun e : Lines => (e i).eraseCnt) h :)

theorem offQueue_setpos (lines : Lines) (x p : Nat) :
    Lines.offQueue (victimLine.setpos lines x p) = lines.offQueue := by
  funext i
  by_cases hi : i = x
  · subst hi; simp [victimLine, Lines.offQueue]
  · simp [victimLine, Lines.offQueue, hi]

/-- The queue writes positions only. -/
theorem addVictim_kept (lm : LineMgmt) (l : Nat) : Kept lm.lines (lm.addVictim l).lines :=
  .of_offQueue (Pqueue.insert_frame offQueue_setpos ..)

/-- A line in hand becomes a victim. -/
theorem Placed.addVictim (h : lm.Placed cur place) (hlt : l < lm.ttLines) (hl : place l = .held) :
    (lm.addVictim l).Placed cur (Function.update place l .victim) := by
  have hpos := h.pos_eq_zero (l := l) (by rw [hl]; exact nofun)
  have hin := Pqueue.insert_valid victimLine_lawful h.queue (x := l) fun hq => hq hpos
  refine h.give hlt hl nofun ?_ rfl (fun i d hd => ?_) fun i => ?_
  · refine { h.toTidy with id := ?_, queue := hin.valid, victimCnt := ?_ }
    · exact fun i => ((addVictim_kept lm l).id i).trans (h.id i)
    · show lm.victimLineCnt + 1 + 1 = _
      rw [h.victimCnt]
      exact hin.size.symm
  · cases d with
    | victim => exact absurd rfl hd
    | _ => exact Iff.rfl
  · exact (hin.queued i fun hf => hf).trans or_comm

/-- A line selected by `remove` or `pop` leaves the queue. -/
theorem Placed.takeVictim (h : lm.Placed cur place) (hl : place l = .victim)
    {r : Pqueue Nat × Lines} (hr : Pqueue.Removed victimLine lm.victimLinePq lm.lines l r)
    (hk : Kept lm.lines r.2) :
    (lm.takeVictim r l).Placed cur (Function.update place l .held) ∧
      Kept lm.lines (lm.takeVictim r l).lines := by
  have hkept : Kept r.2 (lm.takeVictim r l).lines :=
    .of_offQueue (offQueue_setpos r.2 l 0)
  refine ⟨h.take hl ?_ rfl (fun i d hd => ?_) fun i => ?_, ?_⟩
  · refine { h.toTidy with id := ?_, queue := hr.valid, victimCnt := ?_ }
    · exact fun i => (hkept.id i).trans ((hk.id i).trans (h.id i))
    · show lm.victimLineCnt - 1 + 1 = r.1.size
      have := h.victimCnt
      have := hr.size
      have := hr.valid.size_pos
      omega
  · cases d with
    | victim => exact absurd rfl hd
    | _ => exact Iff.rfl
  · by_cases hi : i = l
    · subst hi
      simp [Holds, LineMgmt.takeVictim]
    · simp only [Holds, LineMgmt.takeVictim, Function.update_of_ne hi]
      exact (hr.queued i hi).trans (by simp [hi, Pqueue.Queued, victimLine])
  · exact ⟨fun i => (hkept.id i).trans (hk.id i), fun i => (hkept.ipc i).trans (hk.ipc i),
      fun i => (hkept.vpc i).trans (hk.vpc i),
      fun i => (hkept.lastModifiedTime i).trans (hk.lastModifiedTime i),
      fun i => (hkept.eraseCnt i).trans (hk.eraseCnt i)⟩

/-! ### Invalidating one page -/

/-- The line after one of its pages became invalid: one valid page fewer, one invalid page more. -/
structure Invalidated (lm lm' : LineMgmt) (l : Nat) : Prop where
  vpc : ∀ i, (lm'.lines i).vpc = if i = l then (lm.lines i).vpc - 1 else (lm.lines i).vpc
  ipc : ∀ i, (lm'.lines i).ipc = if i = l then (lm.lines i).ipc + 1 else (lm.lines i).ipc
  eraseCnt : ∀ i, (lm'.lines i).eraseCnt = (lm.lines i).eraseCnt
  ttLines : lm'.ttLines = lm.ttLines
  freeLineList : lm'.freeLineList = lm.freeLineList

/-- A valid page less is a counter less. -/
theorem dropVpc_kept (lm : LineMgmt) (l : Nat) :
    Kept (lm.setLine l { lm.lines l with vpc := (lm.lines l).vpc - 1 }).lines
      (lm.dropVpc l).lines := by
  unfold dropVpc
  split
  · exact .of_offQueue (Pqueue.changePriority_frame offQueue_setpos ..)
  · exact .of_offQueue rfl

/-- Its place is the same. -/
theorem Placed.dropVpc (h : lm.Placed cur place) : (lm.dropVpc l).Placed cur place := by
  have hkept := dropVpc_kept lm l
  unfold LineMgmt.dropVpc at hkept ⊢
  split
  · rename_i hpos
    rw [if_pos hpos] at hkept
    have hch := Pqueue.changePriority_valid victimLine_lawful h.queue hpos ((lm.lines l).vpc - 1)
    have hid : ∀ i, ((lm.setLine l { lm.lines l with vpc := (lm.lines l).vpc - 1 }).lines i).id =
        (lm.lines i).id := by
      intro i
      by_cases hi : i = l
      · subst hi; simp [LineMgmt.setLine]
      · simp [LineMgmt.setLine, hi]
    refine ⟨{ h.toTidy with id := ?_, queue := hch.valid, victimCnt := ?_ }, fun i c => ?_⟩
    · exact fun i => (hkept.id i).trans ((hid i).trans (h.id i))
    · exact h.victimCnt.trans hch.size.symm
    · rw [← h.holds i c]
      cases c with
      | victim =>
        refine (hch.queued i fun hf => hf).trans ?_
        have hset : Pqueue.Queued victimLine
            (victimLine.setpri lm.lines l ((lm.lines l).vpc - 1)) i ↔ (lm.lines i).pos ≠ 0 := by
          unfold Pqueue.Queued
          rw [victimLine_lawful.getpos_setpri]
          exact Iff.rfl
        rw [hset]
        exact ⟨fun hi => hi.elim (fun he => he ▸ hpos) id, .inr⟩
      | _ => exact Iff.rfl
  · rename_i hpos
    exact h.setLine rfl rfl fun hne => absurd hne hpos

/-- The line part of `mark_page_invalid`: a full line goes to the queue, any other stays. -/
theorem Placed.invalidate (h : lm.Placed cur place) (spp : SsdParams) (hlt : l < lm.ttLines)
    (hfull : (lm.lines l).vpc = spp.pgsPerLine ↔ place l = .full) :
    (lm.invalidate spp l).Placed cur
        (Function.update place l (if place l = .full then .victim else place l)) ∧
      Invalidated lm (lm.invalidate spp l) l := by
  set lm₁ := lm.setLine l { lm.lines l with ipc := (lm.lines l).ipc + 1 } with hlm₁
  have h₁ : lm₁.Placed cur place := h.setLine rfl rfl fun _ => rfl
  have h₂ : (lm₁.dropVpc l).Placed cur place := h₁.dropVpc
  have hkept := dropVpc_kept lm₁ l
  have hinv : Invalidated lm (lm₁.dropVpc l) l := by
    refine ⟨fun i => ?_, fun i => ?_, fun i => ?_, ?_, ?_⟩
    · rw [hkept.vpc i]
      by_cases hi : i = l
      · subst hi; simp [hlm₁, LineMgmt.setLine]
      · simp [hlm₁, LineMgmt.setLine, hi]
    · rw [hkept.ipc i]
      by_cases hi : i = l
      · subst hi; simp [hlm₁, LineMgmt.setLine]
      · simp [hlm₁, LineMgmt.setLine, hi]
    · rw [hkept.eraseCnt i]
      by_cases hi : i = l
      · subst hi; simp [hlm₁, LineMgmt.setLine]
      · simp [hlm₁, LineMgmt.setLine, hi]
    · unfold LineMgmt.dropVpc; split <;> rfl
    · unfold LineMgmt.dropVpc; split <;> rfl
  unfold LineMgmt.invalidate
  rw [← hlm₁]
  by_cases hf : place l = .full
  · rw [if_pos hf, if_pos (hfull.mpr hf)]
    have htt : (lm₁.dropVpc l).ttLines = lm.ttLines := hinv.ttLines
    have h₃ := h₂.takeFull hf (by rw [htt]; exact hlt)
    have h₄ := h₃.addVictim (l := l) (by show l < (lm₁.dropVpc l).ttLines; rw [htt]; exact hlt)
      (Function.update_self ..)
    rw [Function.update_idem] at h₄
    have hk := addVictim_kept { lm₁.dropVpc l with
      fullLineList := (lm₁.dropVpc l).fullLineList.erase l
      fullLineCnt := (lm₁.dropVpc l).fullLineCnt - 1 } l
    exact ⟨h₄, ⟨fun i => (hk.vpc i).trans (hinv.vpc i), fun i => (hk.ipc i).trans (hinv.ipc i),
      fun i => (hk.eraseCnt i).trans (hinv.eraseCnt i), hinv.ttLines, hinv.freeLineList⟩⟩
  · rw [if_neg hf, if_neg (fun hv => hf (hfull.mp hv)), Function.update_eq_self]
    exact ⟨h₂, hinv⟩

end LineMgmt

end NvmeVirt

import NvmeVirt.Io.Worker
import NvmeVirt.Lib.Spells

/-!
# The two lists of a work queue

A queue is `Queued` as `free` and `io` when its links spell these two lists, which share out the
entries, and the pending one is in the order the worker relies on: whatever stands before another
entry is due or has no later target time. Enqueueing moves the first free entry somewhere into the
pending list, reclaiming moves a part of the front of the pending list to the end of the free one,
and a visit moves nothing.

One spec lemma a function (`Queued.enqueue`, `Queued.reclaim`, `Queued.visit`): it always comes to
an end, never with a fault, and says which entries keep their contents (`SameWork`: all but the
links). The links themselves are taken apart only here, as lists spelt by `next` and `prev`; a write
of one link is known by its equation (`setNext_next` and the others, in the simp set), and the
search for the place of an entry by `findPlace`'s own recursion.

The free list keeps its last entry for good, as in the code. Entries are never compared by contents,
so that two jobs with the same data are two entries.
-/

set_option autoImplicit false

namespace NvmeVirt

def IoWorker.next (worker : IoWorker) (e : Nat) : Option Nat := (worker.workQueue e).next
def IoWorker.prev (worker : IoWorker) (e : Nat) : Option Nat := (worker.workQueue e).prev

/-- The target time of an entry. -/
def IoWorker.target (worker : IoWorker) (e : Nat) : Nat := (worker.workQueue e).nsecsTarget

/-- Where `a` may stand before `b`: it is due, or it has no later target time. -/
def IoWorker.Before (worker : IoWorker) (a b : Nat) : Prop :=
  worker.target a ≤ worker.latestNsecs ∨ worker.target a ≤ worker.target b

structure Queued (worker : IoWorker) (free io : List Nat) : Prop where
  freeForth : Spells worker.next (some worker.freeSeq) free none
  freeEnd : free.getLast? = some worker.freeSeqEnd
  ioForth : Spells worker.next worker.ioSeq io none
  ioBack : io ≠ [] → Spells worker.prev worker.ioSeqEnd io.reverse none
  perm : (free ++ io).Perm (List.range nrMaxParallelIo)
  sorted : io.Pairwise worker.Before

/-- An entry is as it was, but for its links. -/
def SameWork (work work' : IoWork) : Prop := ∃ next prev, work' = { work with next, prev }

theorem SameWork.refl (work : IoWork) : SameWork work work := ⟨_, _, rfl⟩

theorem SameWork.trans {work work' work'' : IoWork} (h : SameWork work work')
    (h' : SameWork work' work'') : SameWork work work'' := by
  obtain ⟨_, _, rfl⟩ := h
  obtain ⟨next, prev, rfl⟩ := h'
  exact ⟨next, prev, rfl⟩

section Links

variable {worker : IoWorker} {e : Nat} {link : Option Nat}

@[simp] theorem IoWorker.setNext_next :
    (worker.setNext e link).next = Function.update worker.next e link := by
  funext a
  by_cases ha : a = e
  · subst ha
    simp [IoWorker.next, setNext, setWork]
  · simp [IoWorker.next, setNext, setWork, ha]

@[simp] theorem IoWorker.setNext_prev : (worker.setNext e link).prev = worker.prev := by
  funext a
  by_cases ha : a = e
  · subst ha
    simp [IoWorker.prev, setNext, setWork]
  · simp [IoWorker.prev, setNext, setWork, ha]

@[simp] theorem IoWorker.setPrev_next : (worker.setPrev e link).next = worker.next := by
  funext a
  by_cases ha : a = e
  · subst ha
    simp [IoWorker.next, setPrev, setWork]
  · simp [IoWorker.next, setPrev, setWork, ha]

@[simp] theorem IoWorker.setPrev_prev :
    (worker.setPrev e link).prev = Function.update worker.prev e link := by
  funext a
  by_cases ha : a = e
  · subst ha
    simp [IoWorker.prev, setPrev, setWork]
  · simp [IoWorker.prev, setPrev, setWork, ha]

theorem IoWorker.setNext_work (a : Nat) :
    SameWork (worker.workQueue a) ((worker.setNext e link).workQueue a) := by
  by_cases ha : a = e
  · subst ha
    exact ⟨link, (worker.workQueue a).prev, Function.update_self ..⟩
  · exact ⟨_, _, Function.update_of_ne ha ..⟩

theorem IoWorker.setPrev_work (a : Nat) :
    SameWork (worker.workQueue a) ((worker.setPrev e link).workQueue a) := by
  by_cases ha : a = e
  · subst ha
    exact ⟨(worker.workQueue a).next, link, Function.update_self ..⟩
  · exact ⟨_, _, Function.update_of_ne ha ..⟩

/-- Links say nothing of the target time. -/
theorem SameWork.target {work work' : IoWork} (h : SameWork work work') :
    work'.nsecsTarget = work.nsecsTarget := by
  obtain ⟨_, _, rfl⟩ := h
  rfl

end Links

/-! ## Enqueueing -/

section Enqueue

variable {worker : IoWorker} {free io : List Nat} {nsecsTarget : Nat}

/-- The search from the tail ends, behind an entry that may stand before the new one; all that it
passed is later. -/
theorem IoWorker.findPlace_spec {start : Option Nat} {back : List Nat} {passes : Nat}
    (h : Spells worker.prev start back none) (hpasses : back.length ≤ passes) :
    ∃ passed rest, back = passed ++ rest ∧
      worker.findPlace nsecsTarget passes start = .ok rest.head? ∧
      (∀ b ∈ passed, nsecsTarget ≤ worker.target b) ∧
      ∀ a, rest.head? = some a →
        worker.target a ≤ worker.latestNsecs ∨ worker.target a ≤ nsecsTarget := by
  induction back generalizing start passes with
  | nil =>
    obtain rfl : start = none := h
    refine ⟨[], [], rfl, ?_, nofun, nofun⟩
    cases passes <;> rfl
  | cons a back ih =>
    obtain ⟨rfl, hback⟩ := h
    obtain ⟨passes, rfl⟩ : ∃ n, passes = n + 1 := ⟨passes - 1, by
      rw [List.length_cons] at hpasses
      omega⟩
    by_cases hdue : (worker.workQueue a).nsecsTarget ≤ worker.latestNsecs
    · refine ⟨[], a :: back, rfl, if_pos hdue, nofun, fun b hb => ?_⟩
      obtain rfl : a = b := Option.some.inj hb
      exact .inl hdue
    · by_cases hbefore : (worker.workQueue a).nsecsTarget ≤ nsecsTarget
      · refine ⟨[], a :: back, rfl, (if_neg hdue).trans (if_pos hbefore), nofun, fun b hb => ?_⟩
        obtain rfl : a = b := Option.some.inj hb
        exact .inr hbefore
      · rw [List.length_cons] at hpasses
        obtain ⟨passed, rest, hsplit, hfind, hpassed, hrest⟩ := ih hback (Nat.le_of_succ_le_succ hpasses)
        refine ⟨a :: passed, rest, congrArg (a :: ·) hsplit,
          ((if_neg hdue).trans (if_neg hbefore)).trans hfind, ?_, hrest⟩
        intro b hb
        rcases List.mem_cons.mp hb with rfl | hmem
        · exact Nat.le_of_not_le hbefore
        · exact hpassed b hmem

/-- The links of the pending list spell it both ways. -/
structure LinkedAs (worker : IoWorker) (io : List Nat) : Prop where
  forth : Spells worker.next worker.ioSeq io none
  back : Spells worker.prev worker.ioSeqEnd io.reverse none

section Insert

variable {entry first curr : Nat} {before after : List Nat}

/-- At the head the first of the list gets a predecessor. -/
theorem LinkedAs.insert_head (h : LinkedAs worker (first :: after)) (hnew : entry ∉ first :: after)
    (hprev : worker.prev entry = none) :
    LinkedAs (worker.insertAt entry first none) (entry :: first :: after) := by
  have hfirst : entry ≠ first := fun he => hnew (he ▸ List.mem_cons_self)
  have hback := h.back
  rw [List.reverse_cons] at hback
  constructor
  · show Spells ((worker.setPrev first (some entry)).setNext entry (some first)).next (some entry)
      (entry :: first :: after) none
    rw [IoWorker.setNext_next, IoWorker.setPrev_next]
    apply h.forth.insert_front hnew
    · rw [Function.update_self, h.forth.start_eq]
    · exact fun b hb => Function.update_of_ne hb ..
  · show Spells ((worker.setPrev first (some entry)).setNext entry (some first)).prev
      worker.ioSeqEnd (entry :: first :: after).reverse none
    rw [IoWorker.setNext_prev, IoWorker.setPrev_prev, List.reverse_cons, List.reverse_cons,
      List.append_assoc]
    apply hback.insert_behind _ (Function.update_self ..)
    · rw [Function.update_of_ne hfirst, hprev, hback.snoc_stop.2]
    · exact fun b hb _ => Function.update_of_ne hb ..
    · rw [← List.reverse_cons, List.mem_reverse]
      exact hnew

/-- An entry becomes the last one. -/
theorem LinkedAs.insert_tail (h : LinkedAs worker (before ++ [curr]))
    (hnew : entry ∉ before ++ [curr]) (hnext : worker.next entry = none) :
    LinkedAs (worker.insertAt entry first (some curr)) (before ++ [curr, entry]) := by
  have hcurr : entry ≠ curr := fun he => hnew (he ▸ List.mem_append_right _ List.mem_cons_self)
  have hlast : (worker.workQueue curr).next = none := h.forth.snoc_stop.2
  have hback := h.back
  rw [List.reverse_append, List.reverse_singleton, List.singleton_append] at hback
  unfold IoWorker.insertAt
  dsimp only
  rw [hlast]
  constructor
  · show Spells ((worker.setPrev entry (some curr)).setNext curr (some entry)).next worker.ioSeq
      (before ++ [curr, entry]) none
    rw [IoWorker.setNext_next, IoWorker.setPrev_next]
    apply h.forth.insert_behind hnew (Function.update_self ..)
    · rw [Function.update_of_ne hcurr, hnext]
      exact hlast.symm
    · exact fun b hb _ => Function.update_of_ne hb ..
  · show Spells ((worker.setPrev entry (some curr)).setNext curr (some entry)).prev (some entry)
      (before ++ [curr, entry]).reverse none
    rw [IoWorker.setNext_prev, IoWorker.setPrev_prev, List.reverse_append]
    apply hback.insert_front
    · rw [← List.singleton_append, ← List.reverse_singleton, ← List.reverse_append, List.mem_reverse]
      exact hnew
    · rw [Function.update_self, hback.start_eq]
    · exact fun b hb => Function.update_of_ne hb ..

/-- An entry goes in between two others. -/
theorem LinkedAs.insert_between {a : Nat} (h : LinkedAs worker (before ++ curr :: a :: after))
    (hnew : entry ∉ before ++ curr :: a :: after) :
    LinkedAs (worker.insertAt entry first (some curr)) (before ++ curr :: entry :: a :: after) := by
  have hne : ∀ b ∈ before ++ curr :: a :: after, entry ≠ b := fun b hb he => hnew (he ▸ hb)
  have hcurr := hne curr (List.mem_append_right _ List.mem_cons_self)
  have ha := hne a (List.mem_append_right _ (List.mem_cons_of_mem _ List.mem_cons_self))
  have hca : curr ≠ a := by
    intro he
    have hnodup := (List.nodup_append.mp h.forth.nodup).2.1
    rw [he] at hnodup
    exact (List.nodup_cons.mp hnodup).1 List.mem_cons_self
  obtain ⟨_, _, hrest⟩ := h.forth.of_append
  have hnext : (worker.workQueue curr).next = some a := hrest.2.start_eq
  have hback := h.back
  have hsplit : (before ++ curr :: a :: after).reverse =
      after.reverse ++ a :: ([curr] ++ before.reverse) := by simp
  have hsplit' : (before ++ curr :: entry :: a :: after).reverse =
      after.reverse ++ a :: entry :: ([curr] ++ before.reverse) := by simp
  rw [hsplit] at hback
  unfold IoWorker.insertAt
  dsimp only
  rw [hnext]
  constructor
  · show Spells ((((worker.setPrev entry (some curr)).setNext entry (some a)).setPrev a
      (some entry)).setNext curr (some entry)).next worker.ioSeq _ none
    simp only [IoWorker.setNext_next, IoWorker.setPrev_next]
    apply h.forth.insert_behind hnew (Function.update_self ..)
    · rw [Function.update_of_ne hcurr, Function.update_self]
      exact hnext.symm
    · intro b hb hb'
      rw [Function.update_of_ne hb, Function.update_of_ne hb']
  · show Spells ((((worker.setPrev entry (some curr)).setNext entry (some a)).setPrev a
      (some entry)).setNext curr (some entry)).prev worker.ioSeqEnd _ none
    simp only [IoWorker.setNext_prev, IoWorker.setPrev_prev]
    rw [hsplit']
    apply hback.insert_behind _ (Function.update_self ..)
    · rw [Function.update_of_ne ha, Function.update_self]
      obtain ⟨_, _, hrest'⟩ := hback.of_append
      exact hrest'.2.start_eq.symm
    · intro b hb hb'
      rw [Function.update_of_ne hb, Function.update_of_ne hb']
    · rw [← hsplit, List.mem_reverse]
      exact hnew

/-- Linking in an entry from outside the list, behind what stands before its place. -/
theorem LinkedAs.insertAt (h : LinkedAs worker (before ++ after)) (hfirst : worker.ioSeq = some first)
    (hnew : entry ∉ before ++ after) (hnext : worker.next entry = none)
    (hprev : worker.prev entry = none) :
    LinkedAs (worker.insertAt entry first before.getLast?) (before ++ entry :: after) := by
  rcases List.eq_nil_or_concat' before with rfl | ⟨before, curr, rfl⟩
  · cases after with
    | nil =>
      have hempty : worker.ioSeq = none := h.forth
      rw [hfirst] at hempty
      exact nomatch hempty
    | cons a after =>
      obtain rfl : first = a := Option.some.inj (hfirst.symm.trans h.forth.start_eq)
      exact h.insert_head hnew hprev
  · rw [List.getLast?_concat, List.append_assoc]
    rw [List.append_assoc] at h hnew
    cases after with
    | nil => exact h.insert_tail hnew hnext
    | cons a after => exact h.insert_between hnew

end Insert

/-- What linking in leaves alone. -/
structure LinkFrame (worker worker' : IoWorker) (entry : Nat) (place : Option Nat) : Prop where
  freeSeq : worker'.freeSeq = worker.freeSeq
  freeSeqEnd : worker'.freeSeqEnd = worker.freeSeqEnd
  latestNsecs : worker'.latestNsecs = worker.latestNsecs
  work : ∀ e, SameWork (worker.workQueue e) (worker'.workQueue e)
  next : ∀ b, b ≠ entry → place ≠ some b → worker'.next b = worker.next b

/-- Insertion writes links only, of the entry, of the place and of the one after it. -/
theorem IoWorker.insertAt_frame (entry first : Nat) (place : Option Nat) :
    LinkFrame worker (worker.insertAt entry first place) entry place := by
  unfold IoWorker.insertAt
  cases place with
  | none =>
    refine ⟨rfl, rfl, rfl, fun e => (setPrev_work e).trans (setNext_work e), fun b hb _ => ?_⟩
    show ((worker.setPrev first (some entry)).setNext entry (some first)).next b = worker.next b
    rw [setNext_next, setPrev_next, Function.update_of_ne hb]
  | some curr =>
    dsimp only
    cases (worker.workQueue curr).next with
    | none =>
      refine ⟨rfl, rfl, rfl, fun e => (setPrev_work e).trans (setNext_work e), fun b _ hb => ?_⟩
      have hcurr : b ≠ curr := fun he => hb (he ▸ rfl)
      show ((worker.setPrev entry (some curr)).setNext curr (some entry)).next b = worker.next b
      rw [setNext_next, setPrev_next, Function.update_of_ne hcurr]
    | some after =>
      refine ⟨rfl, rfl, rfl, fun e => (((setPrev_work e).trans (setNext_work e)).trans
        (setPrev_work e)).trans (setNext_work e), fun b hb hb' => ?_⟩
      have hcurr : b ≠ curr := fun he => hb' (he ▸ rfl)
      simp only [setNext_next, setPrev_next]
      rw [Function.update_of_ne hcurr, Function.update_of_ne hb]

/-- An entry from outside the list is inserted behind all that is due or has no later target time, and
in front of entries that have no earlier one. -/
theorem IoWorker.insertReqSorted_spec {entry : Nat} (hforth : Spells worker.next worker.ioSeq io none)
    (hback : io ≠ [] → Spells worker.prev worker.ioSeqEnd io.reverse none)
    (hlength : io.length ≤ nrMaxParallelIo) (hnew : entry ∉ io) (hnext : worker.next entry = none)
    (hprev : worker.prev entry = none) :
    ∃ before after worker', io = before ++ after ∧
      worker.insertReqSorted entry nsecsTarget = .ok worker' ∧
      LinkedAs worker' (before ++ entry :: after) ∧
      LinkFrame worker worker' entry before.getLast? ∧
      (∀ b ∈ after, nsecsTarget ≤ worker.target b) ∧
      ∀ a, before.getLast? = some a →
        worker.target a ≤ worker.latestNsecs ∨ worker.target a ≤ nsecsTarget := by
  unfold IoWorker.insertReqSorted
  cases hfirst : worker.ioSeq with
  | none =>
    obtain rfl : io = [] := by
      rw [hfirst] at hforth
      cases io with
      | nil => rfl
      | cons a io => exact nomatch hforth.1
    refine ⟨[], [], _, rfl, rfl, ⟨⟨rfl, hnext⟩, ⟨rfl, hprev⟩⟩,
      ⟨rfl, rfl, rfl, fun _ => .refl _, fun _ _ _ => rfl⟩, nofun, nofun⟩
  | some first =>
    have hne : io ≠ [] := by
      rintro rfl
      have hempty : worker.ioSeq = none := hforth
      rw [hfirst] at hempty
      exact nomatch hempty
    obtain ⟨passed, rest, hsplit, hfind, hpassed, hrest⟩ := findPlace_spec (hback hne)
      (show io.reverse.length ≤ nrMaxParallelIo by
        rw [List.length_reverse]
        exact hlength)
    have hio : io = rest.reverse ++ passed.reverse := by
      rw [← List.reverse_append, ← hsplit, List.reverse_reverse]
    have hlast : rest.reverse.getLast? = rest.head? := List.getLast?_reverse
    have hlinked : LinkedAs worker (rest.reverse ++ passed.reverse) :=
      ⟨hio ▸ hforth, hio ▸ hback hne⟩
    refine ⟨rest.reverse, passed.reverse, worker.insertAt entry first rest.reverse.getLast?, hio, ?_,
      hlinked.insertAt hfirst (hio ▸ hnew) hnext hprev, insertAt_frame entry first _,
      fun b hb => hpassed b (List.mem_reverse.mp hb), fun a ha => hrest a (hlast ▸ ha)⟩
    simp only [hfind, hlast]
    rfl

/-- The order survives an insertion there. -/
theorem IoWorker.sorted_insert {worker' : IoWorker} {entry : Nat} {before after : List Nat}
    (h : (before ++ after).Pairwise worker.Before) (hlatest : worker'.latestNsecs = worker.latestNsecs)
    (htarget : ∀ e ∈ before ++ after, worker'.target e = worker.target e)
    (hentry : worker'.target entry = nsecsTarget)
    (hafter : ∀ b ∈ after, nsecsTarget ≤ worker.target b)
    (hbefore : ∀ a, before.getLast? = some a →
      worker.target a ≤ worker.latestNsecs ∨ worker.target a ≤ nsecsTarget) :
    (before ++ entry :: after).Pairwise worker'.Before := by
  have hkept : (before ++ after).Pairwise worker'.Before := by
    apply h.imp_of_mem
    intro a b ha hb hab
    unfold IoWorker.Before
    rw [hlatest, htarget a ha, htarget b hb]
    exact hab
  obtain ⟨hb, ha, hcross⟩ := List.pairwise_append.mp hkept
  apply List.pairwise_append.mpr
  refine ⟨hb, List.pairwise_cons.mpr ⟨fun b hmem => ?_, ha⟩, fun a hmem b hmem' => ?_⟩
  · right
    rw [hentry, htarget b (List.mem_append_right _ hmem)]
    exact hafter b hmem
  · rcases List.mem_cons.mp hmem' with rfl | hmem'
    · -- the last before the new entry passes on what it is allowed by
      rcases List.eq_nil_or_concat' before with rfl | ⟨before, last, rfl⟩
      · exact nomatch hmem
      · have hlast := hbefore last List.getLast?_concat
        have hself := htarget a (List.mem_append_left _ hmem)
        unfold IoWorker.Before
        rw [hlatest, hentry, hself]
        rcases List.mem_append.mp hmem with hmem | hmem
        · have hab := (List.pairwise_append.mp (List.pairwise_append.mp h).1).2.2 a hmem last
            List.mem_cons_self
          unfold IoWorker.Before at hab
          omega
        · obtain rfl := List.mem_singleton.mp hmem
          exact hlast
    · exact hcross a hmem b hmem'

/-- `enqueue` on a queue that has an entry to give. -/
structure EnqueueDone (worker worker' : IoWorker) (job : IoJob) (free io : List Nat) : Prop where
  queued : ∃ rest before after, free = worker.freeSeq :: rest ∧ io = before ++ after ∧
    Queued worker' rest (before ++ worker.freeSeq :: after)
  latestNsecs : worker'.latestNsecs = worker.latestNsecs
  entry : SameWork (job.fill (worker.workQueue worker.freeSeq)) (worker'.workQueue worker.freeSeq)
  others : ∀ e, e ≠ worker.freeSeq → SameWork (worker.workQueue e) (worker'.workQueue e)

/-- Both lists are made of entries of the array. -/
theorem Queued.mem_lt (h : Queued worker free io) {e : Nat} (he : e ∈ free ++ io) :
    e < nrMaxParallelIo := List.mem_range.mp (h.perm.mem_iff.mp he)

/-- No entry stands twice. -/
theorem Queued.nodup (h : Queued worker free io) : (free ++ io).Nodup :=
  h.perm.nodup_iff.mpr List.nodup_range

/-- Together they are all entries. -/
theorem Queued.length (h : Queued worker free io) : free.length + io.length = nrMaxParallelIo := by
  rw [← List.length_append, h.perm.length_eq, List.length_range]

/-- The free list is never empty: its last entry is not given out. -/
theorem Queued.free_cons (h : Queued worker free io) : ∃ rest, free = worker.freeSeq :: rest := by
  cases free with
  | nil => exact nomatch h.freeEnd
  | cons f rest => exact ⟨rest, by rw [Option.some.inj h.freeForth.1]⟩

/-- The last free entry is not given out. -/
theorem Queued.allocate_none (h : Queued worker [worker.freeSeq] io) :
    worker.allocateWorkQueueEntry = none := by
  have hnext : (worker.workQueue worker.freeSeq).next = none := h.freeForth.2
  unfold IoWorker.allocateWorkQueueEntry
  rw [hnext]

/-- Otherwise the first free entry is. -/
theorem Queued.allocate_some {second : Nat} {rest : List Nat}
    (h : Queued worker (worker.freeSeq :: second :: rest) io) :
    worker.allocateWorkQueueEntry = some (worker.freeSeq, { worker with freeSeq := second }) := by
  have hnext : (worker.workQueue worker.freeSeq).next = some second := h.freeForth.2.1
  have hlt : second < nrMaxParallelIo :=
    h.mem_lt (List.mem_append_left _ (List.mem_cons_of_mem _ List.mem_cons_self))
  unfold IoWorker.allocateWorkQueueEntry
  rw [hnext]
  exact if_neg (Nat.not_le.mpr hlt)

/-- `__enqueue_io_req` and `schedule_internal_operation`: with one free entry nothing is queued, with
more of them the job is. -/
theorem Queued.enqueue (h : Queued worker free io) (job : IoJob) :
    (free.length = 1 ∧ worker.enqueue job = .ok none) ∨
    1 < free.length ∧ ∃ worker', worker.enqueue job = .ok (some worker') ∧
      EnqueueDone worker worker' job free io := by
  obtain ⟨rest, rfl⟩ := h.free_cons
  unfold IoWorker.enqueue
  cases rest with
  | nil =>
    rw [h.allocate_none]
    exact .inl ⟨rfl, rfl⟩
  | cons second rest =>
    right
    rw [h.allocate_some]
    dsimp only
    have hentry : worker.freeSeq ∉ io := fun hmem =>
      (List.nodup_append.mp h.nodup).2.2 _ List.mem_cons_self _ hmem rfl
    have hfree : worker.freeSeq ∉ second :: rest :=
      (List.nodup_cons.mp (List.nodup_append.mp h.nodup).1).1
    -- the queue with the entry filled in and taken off the free list
    generalize hfilled : ({ worker with freeSeq := second }).setWork worker.freeSeq
      (job.fill (worker.workQueue worker.freeSeq)) = filled
    have hself : filled.workQueue worker.freeSeq = job.fill (worker.workQueue worker.freeSeq) := by
      rw [← hfilled]
      exact Function.update_self ..
    have hother : ∀ e, e ≠ worker.freeSeq → filled.workQueue e = worker.workQueue e := by
      intro e he
      rw [← hfilled]
      exact Function.update_of_ne he ..
    have hkept : ∀ e ∈ io, filled.workQueue e = worker.workQueue e := fun e he =>
      hother e fun heq => hentry (heq ▸ he)
    have hlinks : filled.next worker.freeSeq = none ∧ filled.prev worker.freeSeq = none := by
      unfold IoWorker.next IoWorker.prev
      rw [hself]
      cases job <;> exact ⟨rfl, rfl⟩
    have hrest : filled.freeSeq = second ∧ filled.freeSeqEnd = worker.freeSeqEnd ∧
        filled.ioSeq = worker.ioSeq ∧ filled.ioSeqEnd = worker.ioSeqEnd ∧
        filled.latestNsecs = worker.latestNsecs := by
      rw [← hfilled]
      exact ⟨rfl, rfl, rfl, rfl, rfl⟩
    obtain ⟨hfreeSeq, hfreeSeqEnd, hioSeq, hioSeqEnd, hlatest⟩ := hrest
    have htarget : ∀ e ∈ io, filled.target e = worker.target e := fun e he =>
      congrArg IoWork.nsecsTarget (hkept e he)
    have hlength : io.length ≤ nrMaxParallelIo := h.length ▸ Nat.le_add_left _ _
    obtain ⟨before, after, worker', rfl, hinsert, hlinked, hframe, hafter, hbefore⟩ :=
      @IoWorker.insertReqSorted_spec filled _ job.nsecsTarget _
        (hioSeq ▸ h.ioForth.congr fun e he => congrArg IoWork.next (hkept e he))
        (fun hne => hioSeqEnd ▸ (h.ioBack hne).congr fun e he =>
          congrArg IoWork.prev (hkept e (List.mem_reverse.mp he)))
        hlength hentry hlinks.1 hlinks.2
    refine ⟨by simp, worker', by rw [hinsert]; rfl, ⟨second :: rest, before, after, rfl, rfl, ?_⟩,
      hframe.latestNsecs.trans hlatest, ?_, ?_⟩
    · constructor
      · rw [hframe.freeSeq, hfreeSeq]
        have hforth : Spells worker.next (some second) (second :: rest) none :=
          h.freeForth.2.1 ▸ h.freeForth.2
        apply hforth.congr
        intro e he
        have hne : e ≠ worker.freeSeq := fun heq => hfree (heq ▸ he)
        rw [hframe.next e hne]
        · exact congrArg IoWork.next (hother e hne)
        · intro hplace
          have hmem := List.mem_append_left after (List.mem_of_getLast? hplace)
          exact (List.nodup_append.mp h.nodup).2.2 e (List.mem_cons_of_mem _ he) e hmem rfl
      · rw [hframe.freeSeqEnd, hfreeSeqEnd, ← h.freeEnd]
        exact (List.getLast?_cons_cons ..).symm
      · exact hlinked.forth
      · exact fun _ => hlinked.back
      · have hmove : (second :: rest ++ (before ++ worker.freeSeq :: after)).Perm
            (worker.freeSeq :: second :: rest ++ (before ++ after)) := by
          rw [← List.append_assoc]
          exact List.perm_middle.trans (by rw [List.append_assoc]; rfl)
        exact hmove.trans h.perm
      · have hfill : worker'.target worker.freeSeq = job.nsecsTarget := by
          unfold IoWorker.target
          rw [(hframe.work worker.freeSeq).target, hself]
          cases job <;> rfl
        apply IoWorker.sorted_insert h.sorted (hframe.latestNsecs.trans hlatest) _ hfill
        · exact fun b hb => htarget b (List.mem_append_right _ hb) ▸ hafter b hb
        · intro a ha
          have hmem := List.mem_append_left after (List.mem_of_getLast? ha)
          rw [← hlatest, ← htarget a hmem]
          exact hbefore a ha
        · intro e he
          exact (hframe.work e).target.trans (htarget e he)
    · rw [← hself]
      exact hframe.work worker.freeSeq
    · intro e he
      rw [← hother e he]
      exact hframe.work e

end Enqueue

/-! ## Reclaiming -/

section Reclaim

variable {worker : IoWorker} {free io : List Nat}

/-- The worker is through with the entry, and the entry is due. -/
def IoWorker.Reclaimable (worker : IoWorker) (e : Nat) : Prop :=
  (worker.workQueue e).isCompleted = true ∧ (worker.workQueue e).isCopied = true ∧
    (worker.workQueue e).nsecsTarget ≤ worker.latestNsecs

/-- The search for the end of what can be reclaimed stops at the first entry that cannot. -/
theorem IoWorker.lastReclaimed_spec {start last : Option Nat} {l : List Nat} {passes : Nat}
    (h : Spells worker.next start l none) (hpasses : l.length ≤ passes) :
    ∃ gone rest, l = gone ++ rest ∧
      worker.lastReclaimed passes last start = .ok (gone.getLast?.or last) ∧
      ∀ e ∈ gone, worker.Reclaimable e := by
  induction l generalizing start last passes with
  | nil =>
    obtain rfl : start = none := h
    refine ⟨[], [], rfl, ?_, nofun⟩
    cases passes <;> rfl
  | cons a l ih =>
    obtain ⟨rfl, hl⟩ := h
    obtain ⟨passes, rfl⟩ : ∃ n, passes = n + 1 := ⟨passes - 1, by
      rw [List.length_cons] at hpasses
      omega⟩
    rw [List.length_cons] at hpasses
    by_cases hdone : worker.Reclaimable a
    · obtain ⟨gone, rest, hsplit, hlast, hgone⟩ :=
        @ih _ (some a) _ hl (Nat.le_of_succ_le_succ hpasses)
      refine ⟨a :: gone, rest, congrArg (a :: ·) hsplit, (if_pos hdone).trans (hlast.trans ?_), ?_⟩
      · cases gone with
        | nil => rfl
        | cons b gone =>
          rw [List.getLast?_cons_cons, List.getLast?_cons]
          rfl
      · intro e he
        rcases List.mem_cons.mp he with rfl | hmem
        · exact hdone
        · exact hgone e hmem
    · exact ⟨[], a :: l, rfl, if_neg hdone, nofun⟩

/-- `reclaim_completed_reqs` has moved `gone` from the front of the pending list. -/
structure ReclaimDone (worker worker' : IoWorker) (free gone rest : List Nat) : Prop where
  queued : Queued worker' (free ++ gone) rest
  latestNsecs : worker'.latestNsecs = worker.latestNsecs
  work : ∀ e, SameWork (worker.workQueue e) (worker'.workQueue e)
  gone : ∀ e ∈ gone, worker.Reclaimable e

/-- The writes of `reclaimTo`: the entry after `last` loses its predecessor, `last` its successor, and
the end of the free list is linked with `first`, both ways. -/
structure Spliced (worker worker' : IoWorker) (first last : Nat) : Prop where
  freeSeq : worker'.freeSeq = worker.freeSeq
  freeSeqEnd : worker'.freeSeqEnd = last
  ioSeq : worker'.ioSeq = worker.next last
  ioSeqEnd : worker'.ioSeqEnd = worker.ioSeqEnd
  latestNsecs : worker'.latestNsecs = worker.latestNsecs
  work : ∀ e, SameWork (worker.workQueue e) (worker'.workQueue e)
  linked : worker'.next worker.freeSeqEnd = some first
  ended : last ≠ worker.freeSeqEnd → worker'.next last = none
  next : ∀ e, e ≠ worker.freeSeqEnd → e ≠ last → worker'.next e = worker.next e
  head : ∀ e, e ≠ first → worker.next last = some e → worker'.prev e = none
  prev : ∀ e, e ≠ first → worker.next last ≠ some e → worker'.prev e = worker.prev e

/-- The writes of the reclaim, link by link. -/
theorem IoWorker.reclaimTo_spliced (worker : IoWorker) (first last : Nat) :
    Spliced worker (worker.reclaimTo first last) first last := by
  -- the queue after the first write
  have key : ∀ front : IoWorker, front.next = worker.next →
      (∀ e, SameWork (worker.workQueue e) (front.workQueue e)) →
      front.freeSeqEnd = worker.freeSeqEnd →
      (∀ e, SameWork (worker.workQueue e) ((((front.setNext last none).setPrev first
        (some front.freeSeqEnd)).setNext front.freeSeqEnd (some first)).workQueue e)) ∧
      (((front.setNext last none).setPrev first (some front.freeSeqEnd)).setNext front.freeSeqEnd
        (some first)).next = Function.update (Function.update worker.next last none)
          worker.freeSeqEnd (some first) ∧
      (((front.setNext last none).setPrev first (some front.freeSeqEnd)).setNext front.freeSeqEnd
        (some first)).prev = Function.update front.prev first (some worker.freeSeqEnd) := by
    intro front hnext hwork hend
    refine ⟨fun e => (((hwork e).trans (setNext_work e)).trans (setPrev_work e)).trans
      (setNext_work e), ?_, ?_⟩
    · rw [setNext_next, setPrev_next, setNext_next, hnext, hend]
    · rw [setNext_prev, setPrev_prev, setNext_prev, hend]
  have links : ∀ next' : Nat → Option Nat, next' = Function.update
      (Function.update worker.next last none) worker.freeSeqEnd (some first) →
      next' worker.freeSeqEnd = some first ∧ (last ≠ worker.freeSeqEnd → next' last = none) ∧
        ∀ e, e ≠ worker.freeSeqEnd → e ≠ last → next' e = worker.next e := by
    rintro _ rfl
    refine ⟨Function.update_self .., fun hne => ?_, fun e hend hne => ?_⟩
    · rw [Function.update_of_ne hne, Function.update_self]
    · rw [Function.update_of_ne hend, Function.update_of_ne hne]
  cases hrest : (worker.workQueue last).next with
  | none =>
    obtain ⟨hwork, hnext, hprev⟩ :=
      key { worker with ioSeq := none } rfl (fun e => .refl _) rfl
    have hto : worker.reclaimTo first last =
        { ((({ worker with ioSeq := none }).setNext last none).setPrev first
          (some worker.freeSeqEnd)).setNext worker.freeSeqEnd (some first) with
          freeSeqEnd := last } := by
      unfold IoWorker.reclaimTo
      rw [hrest]
      rfl
    have hlast : worker.next last = none := hrest
    rw [hto]
    obtain ⟨hlinked, hended, hothers⟩ := links _ hnext
    refine ⟨rfl, rfl, hlast.symm, rfl, rfl, hwork, hlinked, hended, hothers, ?_, ?_⟩
    · intro e _ he
      rw [hlast] at he
      exact nomatch he
    · intro e he _
      exact (congrFun hprev e).trans (Function.update_of_ne he ..)
  | some second =>
    obtain ⟨hwork, hnext, hprev⟩ :=
      key (({ worker with ioSeq := some second }).setPrev second none)
        (@setPrev_next { worker with ioSeq := some second } _ _)
        (@setPrev_work { worker with ioSeq := some second } _ _) rfl
    have hto : worker.reclaimTo first last =
        { (((({ worker with ioSeq := some second }).setPrev second none).setNext last none).setPrev
          first (some worker.freeSeqEnd)).setNext worker.freeSeqEnd (some first) with
          freeSeqEnd := last } := by
      unfold IoWorker.reclaimTo
      rw [hrest]
      rfl
    have hlast : worker.next last = some second := hrest
    rw [setPrev_prev] at hprev
    rw [hto]
    obtain ⟨hlinked, hended, hothers⟩ := links _ hnext
    refine ⟨rfl, rfl, hlast.symm, rfl, rfl, hwork, hlinked, hended, hothers, ?_, ?_⟩
    · intro e hne he
      obtain rfl : second = e := Option.some.inj (hlast.symm.trans he)
      refine (congrFun hprev _).trans ?_
      rw [Function.update_of_ne hne, Function.update_self]
    · intro e hne he
      have hsecond : e ≠ second := by
        intro heq
        rw [heq] at he
        exact he hlast
      refine (congrFun hprev e).trans ?_
      rw [Function.update_of_ne hne, Function.update_of_ne hsecond]
      rfl

/-- Splicing the front of the pending list to the end of the free list. -/
theorem Queued.spliced {worker' : IoWorker} {gone rest : List Nat} {first last : Nat}
    (h : Queued worker free (gone ++ last :: rest)) (hfirst : worker.ioSeq = some first)
    (hs : Spliced worker worker' first last) : Queued worker' (free ++ (gone ++ [last])) rest := by
  have hnodup := h.nodup
  obtain ⟨hfree, hpending, hapart⟩ := List.nodup_append.mp hnodup
  obtain ⟨free, hend⟩ : ∃ l, free = l ++ [worker.freeSeqEnd] := List.getLast?_eq_some_iff.mp h.freeEnd
  -- the pending list in two parts
  obtain ⟨mid, hgone, hrest⟩ := (show Spells worker.next worker.ioSeq ((gone ++ [last]) ++ rest) none by
    rw [List.append_assoc]
    exact h.ioForth).of_append
  obtain ⟨_, hmid⟩ := hgone.snoc_stop
  have hfirstMem : first ∈ gone ++ [last] := by
    rw [hfirst] at hgone
    cases gone with
    | nil => exact Option.some.inj hgone.1 ▸ List.mem_cons_self
    | cons a gone => exact Option.some.inj hgone.1 ▸ List.mem_cons_self
  have hlastFree : ∀ e ∈ gone ++ last :: rest, e ≠ worker.freeSeqEnd := by
    intro e he heq
    have hmem : worker.freeSeqEnd ∈ free ++ [worker.freeSeqEnd] :=
      List.mem_append_right _ List.mem_cons_self
    exact hapart worker.freeSeqEnd (hend ▸ hmem) e he heq.symm
  have hlastGone : ∀ e ∈ gone ++ rest, e ≠ last := by
    intro e he heq
    rw [heq] at he
    exact (List.nodup_cons.mp (List.nodup_middle.mp hpending)).1 he
  have hgoneRest : ∀ e ∈ rest, e ∉ gone ++ [last] := by
    intro e he hmem
    rw [show gone ++ last :: rest = gone ++ [last] ++ rest by simp] at hpending
    exact (List.nodup_append.mp hpending).2.2 e hmem e he rfl
  have hin : ∀ e ∈ gone ++ [last], e ∈ gone ++ last :: rest := by
    intro e he
    rcases List.mem_append.mp he with he | he
    · exact List.mem_append_left _ he
    · exact List.mem_append_right _ (List.mem_singleton.mp he ▸ List.mem_cons_self)
  have hinRest : ∀ e ∈ rest, e ∈ gone ++ last :: rest := fun e he =>
    List.mem_append_right _ (List.mem_cons_of_mem _ he)
  constructor
  · rw [hs.freeSeq]
    have hfreeForth := h.freeForth
    rw [hend] at hfreeForth hfree ⊢
    apply (hfreeForth.relink _ hs.linked).append
    · rw [hfirst] at hgone
      apply hgone.relink _ (hs.ended (hlastFree last (hin last (by simp))))
      intro e he
      exact hs.next e (hlastFree e (List.mem_append_left _ he))
        (hlastGone e (List.mem_append_left _ he))
    · intro e he
      apply hs.next e
      · intro heq
        rw [heq] at he
        exact (List.nodup_append.mp hfree).2.2 _ he _ List.mem_cons_self rfl
      · intro heq
        have hmem : e ∈ free ++ [worker.freeSeqEnd] := List.mem_append_left _ he
        exact hapart e (hend ▸ hmem) last (hin last (by simp)) heq
  · rw [hs.freeSeqEnd, ← List.append_assoc, List.getLast?_concat]
  · rw [hs.ioSeq, hmid]
    apply hrest.congr
    intro e he
    exact hs.next e (hlastFree e (hinRest e he)) (hlastGone e (List.mem_append_right _ he))
  · intro hne
    rw [hs.ioSeqEnd]
    have hback := h.ioBack (by simp)
    obtain ⟨second, rest, rfl⟩ := List.exists_cons_of_ne_nil hne
    have hsecond : worker.next last = some second := hmid.trans hrest.start_eq
    rw [List.reverse_append, List.reverse_cons, List.append_assoc] at hback
    obtain ⟨_, hrestBack, _⟩ := hback.of_append
    rw [List.reverse_cons] at hrestBack ⊢
    have hnotFirst : ∀ e ∈ second :: rest, e ≠ first := by
      intro e he heq
      rw [heq] at he
      exact hgoneRest first he hfirstMem
    apply hrestBack.relink _ (hs.head second (hnotFirst second List.mem_cons_self) hsecond)
    intro e he
    have hmem : e ∈ second :: rest := List.mem_cons_of_mem _ (List.mem_reverse.mp he)
    apply hs.prev e (hnotFirst e hmem)
    rw [hsecond]
    intro heq
    obtain rfl : second = e := Option.some.inj heq
    exact (List.nodup_cons.mp hrest.nodup).1 (List.mem_reverse.mp he)
  · rw [List.append_assoc, List.append_assoc]
    exact h.perm
  · have hsorted := (List.pairwise_append.mp h.sorted).2.1.of_cons
    apply hsorted.imp
    intro a b hab
    unfold IoWorker.Before IoWorker.target
    rw [hs.latestNsecs, (hs.work a).target, (hs.work b).target]
    exact hab

/-- Reclaiming always ends, and moves entries that are done and due. -/
theorem Queued.reclaim (h : Queued worker free io) : ∃ gone rest worker', io = gone ++ rest ∧
    worker.reclaimCompletedReqs = .ok worker' ∧ ReclaimDone worker worker' free gone rest := by
  have hstay : ReclaimDone worker worker free [] io :=
    ⟨by rw [List.append_nil]; exact h, rfl, fun _ => .refl _, nofun⟩
  unfold IoWorker.reclaimCompletedReqs
  cases hfirst : worker.ioSeq with
  | none => exact ⟨[], io, worker, rfl, rfl, hstay⟩
  | some first =>
    have hlength : io.length ≤ nrMaxParallelIo := h.length ▸ Nat.le_add_left _ _
    obtain ⟨gone, rest, rfl, hlast, hgone⟩ :=
      @IoWorker.lastReclaimed_spec worker _ none _ _ (hfirst ▸ h.ioForth) hlength
    dsimp only
    rw [hlast]
    rcases List.eq_nil_or_concat' gone with rfl | ⟨gone, last, rfl⟩
    · exact ⟨[], rest, worker, rfl, rfl, hstay⟩
    · rw [List.append_assoc, List.singleton_append] at h
      have hs := worker.reclaimTo_spliced first last
      refine ⟨gone ++ [last], rest, worker.reclaimTo first last, rfl, ?_, h.spliced hfirst hs,
        hs.latestNsecs, hs.work, hgone⟩
      rw [List.getLast?_concat]
      rfl

end Reclaim

/-! ## Visits, and the queue at the start -/

section Visit

variable {worker : IoWorker} {free io : List Nat}

/-- The entry after a visit: its links and data stay, and its marks are set. -/
def IoWork.visited (work : IoWork) (currNsecs : Nat) : IoWork :=
  if work.isCompleted = true then work
  else { work with isCopied := true, isCompleted := decide (work.nsecsTarget ≤ currNsecs) }

theorem IoWork.visited_links (work : IoWork) (currNsecs : Nat) :
    (work.visited currNsecs).next = work.next ∧ (work.visited currNsecs).prev = work.prev ∧
      (work.visited currNsecs).nsecsTarget = work.nsecsTarget := by
  unfold IoWork.visited
  split
  · exact ⟨rfl, rfl, rfl⟩
  · exact ⟨rfl, rfl, rfl⟩

/-- A visit sets the clock and marks its entry. -/
theorem IoWorker.visit_worker (worker : IoWorker) (curr currNsecs : Nat) :
    (worker.visit curr currNsecs).1 = { worker with
      latestNsecs := currNsecs
      workQueue := Function.update worker.workQueue curr
        ((worker.workQueue curr).visited currNsecs) } := by
  unfold IoWorker.visit IoWork.visited
  dsimp only
  by_cases hcompleted : (worker.workQueue curr).isCompleted = true
  · rw [if_pos hcompleted, if_pos hcompleted, Function.update_eq_self]
  · rw [if_neg hcompleted, if_neg hcompleted]
    by_cases hdue : (worker.workQueue curr).nsecsTarget ≤ currNsecs
    · rw [if_pos hdue, decide_eq_true hdue]
      rfl
    · have hpending := Bool.eq_false_iff.mpr hcompleted
      rw [if_neg hdue, decide_eq_false hdue, ← hpending]
      rfl

/-- The cursor goes on to the next entry. -/
theorem IoWorker.visit_cursor (worker : IoWorker) (curr currNsecs : Nat) :
    (worker.visit curr currNsecs).2.1 = worker.next curr := by
  unfold IoWorker.visit
  dsimp only
  split
  · rfl
  · split
    · rfl
    · rfl

/-- A visit moves nothing, whatever entry the cursor stands at. -/
theorem Queued.visit (h : Queued worker free io) {curr currNsecs : Nat}
    (hclock : worker.latestNsecs ≤ currNsecs) :
    Queued (worker.visit curr currNsecs).1 free io := by
  rw [worker.visit_worker]
  have hlinks : ∀ e, IoWork.next (Function.update worker.workQueue curr
        ((worker.workQueue curr).visited currNsecs) e) = worker.next e ∧
      IoWork.prev (Function.update worker.workQueue curr
        ((worker.workQueue curr).visited currNsecs) e) = worker.prev e ∧
      IoWork.nsecsTarget (Function.update worker.workQueue curr
        ((worker.workQueue curr).visited currNsecs) e) = worker.target e := by
    intro e
    by_cases he : e = curr
    · rw [he, Function.update_self]
      exact (worker.workQueue curr).visited_links currNsecs
    · rw [Function.update_of_ne he]
      exact ⟨rfl, rfl, rfl⟩
  constructor
  · exact h.freeForth.congr fun e _ => (hlinks e).1
  · exact h.freeEnd
  · exact h.ioForth.congr fun e _ => (hlinks e).1
  · exact fun hne => (h.ioBack hne).congr fun e _ => (hlinks e).2.1
  · exact h.perm
  · apply h.sorted.imp
    intro a b hab
    unfold IoWorker.Before IoWorker.target
    rw [(hlinks a).2.2, (hlinks b).2.2]
    rcases hab with hdue | hle
    · exact .inl (Nat.le_trans hdue hclock)
    · exact .inr hle

theorem nvmevIoWorkerInit_spells (n k : Nat) (h : k + (n + 1) = nrMaxParallelIo) :
    Spells nvmevIoWorkerInit.next (some k) (List.range' k (n + 1)) none := by
  induction n generalizing k with
  | zero =>
    refine ⟨rfl, ?_⟩
    have hlast : ¬ k + 1 < nrMaxParallelIo := by omega
    exact if_neg hlast
  | succ n ih =>
    have hnext : nvmevIoWorkerInit.next k = some (k + 1) := if_pos (by omega)
    refine ⟨rfl, ?_⟩
    rw [hnext]
    exact ih (k + 1) (by omega)

/-- At the start all entries are free, in order. -/
theorem queued_init : Queued nvmevIoWorkerInit (List.range nrMaxParallelIo) [] := by
  obtain ⟨n, hn⟩ : ∃ n, nrMaxParallelIo = n + 1 := ⟨16383, by decide⟩
  constructor
  · have hforth := nvmevIoWorkerInit_spells n 0 ((Nat.zero_add _).trans hn.symm)
    have hrange : List.range' 0 (n + 1) = List.range nrMaxParallelIo := by
      rw [List.range_eq_range', hn]
    exact hrange ▸ hforth
  · show (List.range nrMaxParallelIo).getLast? = some (nrMaxParallelIo - 1)
    rw [hn, List.range_succ, List.getLast?_concat, Nat.add_sub_cancel]
  · exact rfl
  · exact fun hne => absurd rfl hne
  · rw [List.append_nil]
  · exact .nil

end Visit

end NvmeVirt

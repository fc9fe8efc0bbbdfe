import Mathlib.Data.List.TakeWhile
import NvmeVirt.Laws.Io.Integrity

/-!
# A pass of a worker

A pass goes from the head of the pending list to its end; the dispatcher may queue jobs while it is
under way, and they go in behind the cursor or ahead of it. The entries behind the cursor that were
there at the start are copied, and those that were due are ended (`UpTo`). When nothing was queued,
the due entries are a front part of the list, and the next reclaim takes all of them.

`UpTo` splits the list at the cursor and is kept by the two steps of a pass (`UpTo.visit`,
`UpTo.queued`); at its end nothing is left in front of the cursor, and `UpTo.actions` reads off what
happened to each job. That every entry ended was due is an invariant of all runs
(`workerRuns_timely`), since the clock of a worker does not go back.

The dispatcher takes no entry back while the pass is under way; `Laws/Io/Handover` is about runs in
which it does.
-/

set_option autoImplicit false

namespace NvmeVirt

/-- A pass from the state `s` on, with the clock at each visit; jobs may be queued meanwhile. The
dispatcher reclaims nothing before the pass is over: an entry it took back could be queued again ahead
of the cursor, once for every visit. -/
inductive Pass (s : WorkerRun) : List Nat → WorkerRun → Prop where
  | start : s.cursor = none → Pass s [] { s with cursor := s.worker.ioSeq }
  | visit {clocks : List Nat} {s' : WorkerRun} {curr currNsecs : Nat} : Pass s clocks s' →
    s'.cursor = some curr → s'.worker.latestNsecs ≤ currNsecs →
    Pass s (clocks ++ [currNsecs]) (s'.visited curr currNsecs)
  | queued {clocks : List Nat} {s' : WorkerRun} {job : IoJob} {worker' : IoWorker} :
    Pass s clocks s' → s'.worker.enqueue job = .ok (some worker') → Pass s clocks (s'.queue worker' job)

/-- A pass is a run of the worker. -/
theorem Pass.reachable {s s' : WorkerRun} {clocks : List Nat} (h : Pass s clocks s')
    (hs : workerRuns.Reachable s) : workerRuns.Reachable s' := by
  induction h with
  | start hcursor => exact .step hs (.startPass hcursor)
  | visit _ hcursor hclock ih => exact .step ih (.visit hcursor hclock)
  | queued _ hok ih => exact .step ih (.queued hok)

/-! ## Reclaiming takes all it can -/

section Reclaim

variable {worker : IoWorker} {free io : List Nat}

instance : DecidablePred worker.Reclaimable := fun _ => inferInstanceAs (Decidable (_ ∧ _ ∧ _))

/-- The loop of the reclaim stops behind the reclaimable entries at the front. -/
theorem IoWorker.lastReclaimed_eq {start last : Option Nat} {l : List Nat} {passes : Nat}
    (h : Spells worker.next start l none) (hpasses : l.length ≤ passes) :
    worker.lastReclaimed passes last start =
      .ok ((l.takeWhile fun e => worker.Reclaimable e).getLast?.or last) := by
  induction l generalizing start last passes with
  | nil =>
    obtain rfl : start = none := h
    cases passes <;> rfl
  | cons a l ih =>
    obtain ⟨rfl, hl⟩ := h
    obtain ⟨passes, rfl⟩ : ∃ n, passes = n + 1 :=
      Nat.exists_eq_add_one.mpr (Nat.zero_lt_of_lt hpasses)
    rw [List.length_cons] at hpasses
    by_cases hdone : worker.Reclaimable a
    · refine (if_pos hdone).trans ((ih hl (Nat.le_of_succ_le_succ hpasses)).trans ?_)
      cases hlast : (l.takeWhile fun e => worker.Reclaimable e).getLast? <;>
        simp [hdone, List.getLast?_cons, hlast]
    · have hnil : ((a :: l).takeWhile fun e => worker.Reclaimable e) = [] := by simp [hdone]
      rw [hnil]
      exact if_neg hdone

/-- Reclaiming takes entries up to the first that is not done or not due. -/
theorem Queued.reclaim_all (h : Queued worker free io) :
    ∃ worker', worker.reclaimCompletedReqs = .ok worker' ∧ ReclaimDone worker worker' free
      (io.takeWhile fun e => worker.Reclaimable e) (io.dropWhile fun e => worker.Reclaimable e) := by
  have hgone : ∀ e ∈ io.takeWhile fun e => worker.Reclaimable e, worker.Reclaimable e := by
    intro e he
    have hdone := List.mem_takeWhile_imp he
    exact of_decide_eq_true hdone
  unfold IoWorker.reclaimCompletedReqs
  cases hfirst : worker.ioSeq with
  | none =>
    have hforth := h.ioForth
    rw [hfirst] at hforth
    cases io with
    | nil =>
      refine ⟨worker, rfl, ?_, rfl, fun _ => .refl _, hgone⟩
      rw [List.takeWhile_nil, List.append_nil]
      exact h
    | cons a io => cases hforth.1
  | some first =>
    have hlength : io.length ≤ nrMaxParallelIo := h.length ▸ Nat.le_add_left _ _
    have hlast := @IoWorker.lastReclaimed_eq worker _ none _ _ (hfirst ▸ h.ioForth) hlength
    have hsplit := @List.takeWhile_append_dropWhile _ (fun e => decide (worker.Reclaimable e)) io
    generalize (io.takeWhile fun e => worker.Reclaimable e) = gone at *
    generalize (io.dropWhile fun e => worker.Reclaimable e) = rest at *
    subst hsplit
    dsimp only
    rw [hlast]
    rcases List.eq_nil_or_concat' gone with rfl | ⟨gone, last, rfl⟩
    · refine ⟨worker, rfl, ?_, rfl, fun _ => .refl _, hgone⟩
      rw [List.append_nil]
      exact h
    · rw [List.append_assoc, List.singleton_append] at h
      have hs := worker.reclaimTo_spliced first last
      refine ⟨worker.reclaimTo first last, ?_, h.spliced hfirst hs, hs.latestNsecs, hs.work, hgone⟩
      rw [List.getLast?_concat]
      rfl

end Reclaim

/-! ## Completed entries are due -/

section Timely

variable {s s' : WorkerRun}

/-- The marks a visit leaves. -/
theorem IoWork.visited_isCompleted (work : IoWork) (currNsecs : Nat) :
    (work.visited currNsecs).isCompleted =
      (work.isCompleted || decide (work.nsecsTarget ≤ currNsecs)) := by
  unfold IoWork.visited
  split
  · rename_i hcompleted
    rw [hcompleted, Bool.true_or]
  · rename_i hcompleted
    rw [Bool.eq_false_iff.mpr hcompleted, Bool.false_or]

theorem WorkerRun.visited_workQueue (s : WorkerRun) (curr currNsecs : Nat) :
    (s.visited curr currNsecs).worker.workQueue = Function.update s.worker.workQueue curr
      ((s.worker.workQueue curr).visited currNsecs) :=
  congrArg IoWorker.workQueue (s.worker.visit_worker curr currNsecs)

theorem WorkerRun.visited_latestNsecs (s : WorkerRun) (curr currNsecs : Nat) :
    (s.visited curr currNsecs).worker.latestNsecs = currNsecs :=
  congrArg IoWorker.latestNsecs (s.worker.visit_worker curr currNsecs)

theorem WorkerRun.visited_target (s : WorkerRun) (curr currNsecs e : Nat) :
    (s.visited curr currNsecs).worker.target e = s.worker.target e := by
  unfold IoWorker.target
  rw [s.visited_workQueue]
  by_cases he : e = curr
  · rw [he, Function.update_self]
    exact ((s.worker.workQueue curr).visited_links currNsecs).2.2
  · rw [Function.update_of_ne he]

theorem WorkerRun.visited_next (s : WorkerRun) (curr currNsecs e : Nat) :
    (s.visited curr currNsecs).worker.next e = s.worker.next e := by
  unfold IoWorker.next
  rw [s.visited_workQueue]
  by_cases he : e = curr
  · rw [he, Function.update_self]
    exact ((s.worker.workQueue curr).visited_links currNsecs).1
  · rw [Function.update_of_ne he]

/-- An entry that was ended was due. -/
theorem workerRuns_timely : workerRuns.Invariant fun s =>
    (∃ unused gone io, Integrity s unused gone io) ∧ ∀ e,
      (s.worker.workQueue e).isCompleted = true → s.worker.target e ≤ s.worker.latestNsecs := by
  refine workerRuns_integrity.of_rel ?_ ?_
  · rintro s ⟨hworker, -⟩ e hcompleted
    rw [hworker] at hcompleted
    cases hcompleted
  · rintro s l s' ⟨unused, gone, io, hs⟩ h hstep e hcompleted
    cases hstep with
    | @queued job worker' hok =>
      rcases hs.queued.enqueue job with ⟨_, hnone⟩ | ⟨_, worker'', hsome, hdone⟩
      · rw [hnone] at hok
        cases hok
      obtain rfl : worker'' = worker' := Option.some.inj (Except.ok.inj (hsome.symm.trans hok))
      change (worker''.workQueue e).isCompleted = true at hcompleted
      show (worker''.workQueue e).nsecsTarget ≤ worker''.latestNsecs
      by_cases he : e = s.worker.freeSeq
      · rw [he, hdone.entry.marks.1] at hcompleted
        cases job <;> cases hcompleted
      · have hsame := hdone.others e he
        rw [hsame.target, hdone.latestNsecs]
        exact h e (hsame.marks.1.symm.trans hcompleted)
    | refused _ => exact h e hcompleted
    | @reclaim worker' hok =>
      obtain ⟨_, _, worker'', _, hreclaim, hdone⟩ := hs.queued.reclaim
      obtain rfl : worker'' = worker' := Except.ok.inj (hreclaim.symm.trans hok)
      have hsame := hdone.work e
      show (worker''.workQueue e).nsecsTarget ≤ worker''.latestNsecs
      rw [hsame.target, hdone.latestNsecs]
      exact h e (hsame.marks.1.symm.trans hcompleted)
    | startPass _ => exact h e hcompleted
    | @visit curr currNsecs _ hclock =>
      rw [s.visited_target, s.visited_latestNsecs]
      rw [s.visited_workQueue] at hcompleted
      by_cases he : e = curr
      · rw [he, Function.update_self, IoWork.visited_isCompleted] at hcompleted
        rcases (Bool.or_eq_true _ _).mp hcompleted with hold | hdue
        · exact he ▸ (h curr hold).trans hclock
        · exact he ▸ of_decide_eq_true hdue
      · rw [Function.update_of_ne he] at hcompleted
        exact (h e hcompleted).trans hclock

end Timely

/-! ## What a pass has got through -/

/-- Up to here the pass has been at the entries of `front`; those of `rest` are ahead of it. -/
structure UpTo (s : WorkerRun) (io : List Nat) (clocks : List Nat) (s' : WorkerRun)
    (front rest : List Nat) : Prop where
  integrity : ∃ unused gone, Integrity s' unused gone (front ++ rest)
  cursor : Spells s'.worker.next s'.cursor rest none
  jobs : ∃ new, s'.jobs = s.jobs ++ new
  length : clocks.length ≤ front.length
  visited : ∀ e ∈ front, s'.serial e < s.jobs.length →
    (s'.worker.workQueue e).isCopied = true ∧ ∀ t, (∀ c ∈ clocks, t ≤ c) →
      s'.worker.target e ≤ t → (s'.worker.workQueue e).isCompleted = true
  same : s'.jobs = s.jobs → front ++ rest = io ∧ s'.worker.target = s.worker.target

section Passes

variable {s s' : WorkerRun} {clocks : List Nat} {unused gone io front rest : List Nat}

/-- A visit moves one entry from `rest` to `front`. -/
theorem UpTo.visit (h : UpTo s io clocks s' front rest) {curr currNsecs : Nat}
    (hcursor : s'.cursor = some curr) (hclock : s'.worker.latestNsecs ≤ currNsecs) :
    ∃ front' rest', UpTo s io (clocks ++ [currNsecs]) (s'.visited curr currNsecs) front' rest' := by
  have hrest := h.cursor
  rw [hcursor] at hrest
  obtain ⟨unused, gone, hs'⟩ := h.integrity
  cases rest with
  | nil => cases hrest
  | cons a rest =>
    obtain rfl : curr = a := Option.some.inj hrest.1
    have hassoc : front ++ curr :: rest = (front ++ [curr]) ++ rest := by
      rw [List.append_assoc, List.singleton_append]
    have hin : curr ∈ front ++ curr :: rest := List.mem_append_right _ List.mem_cons_self
    refine ⟨front ++ [curr], rest, ⟨unused, gone, ?_⟩, ?_, h.jobs, ?_, ?_, ?_⟩
    · rw [← hassoc]
      exact hs'.visit_pending hin hclock
    · show Spells _ (s'.worker.visit curr currNsecs).2.1 rest none
      rw [s'.worker.visit_cursor]
      exact hrest.2.congr fun e _ => s'.visited_next curr currNsecs e
    · rw [List.length_append, List.length_append]
      exact Nat.add_le_add_right h.length 1
    · intro e he hold
      rw [s'.visited_target, s'.visited_workQueue]
      by_cases hcurr : e = curr
      · rw [hcurr, Function.update_self]
        obtain ⟨_, _, _, hmarks, _⟩ := hs'.pending curr hin
        refine ⟨IoWork.visited_marks _ currNsecs hmarks, fun t ht hdue => ?_⟩
        rw [IoWork.visited_isCompleted]
        have hlast := ht currNsecs (List.mem_append_right _ (List.mem_singleton_self _))
        exact (Bool.or_eq_true _ _).mpr (.inr (decide_eq_true (hdue.trans hlast)))
      · rw [Function.update_of_ne hcurr]
        have hfront : e ∈ front := by
          rcases List.mem_append.mp he with hmem | hmem
          · exact hmem
          · exact absurd (List.mem_singleton.mp hmem) hcurr
        obtain ⟨hcopied, hcompleted⟩ := h.visited e hfront hold
        exact ⟨hcopied, fun t ht => hcompleted t fun c hc => ht c (List.mem_append_left _ hc)⟩
    · intro hjobs
      obtain ⟨hio, htarget⟩ := h.same hjobs
      rw [← hassoc]
      exact ⟨hio, (funext (s'.visited_target curr currNsecs)).trans htarget⟩

theorem Spells.start_head? {α : Type} {next : α → Option α} {start : Option α} {l : List α}
    (h : Spells next start l none) : start = l.head? := by
  cases l with
  | nil => exact h
  | cons a l => exact h.1

/-- A job queued meanwhile goes in behind the cursor or ahead of it; the cursor stays. -/
theorem UpTo.queued (h : UpTo s io clocks s' front rest) {job : IoJob} {worker' : IoWorker}
    (hok : s'.worker.enqueue job = .ok (some worker')) :
    ∃ front' rest', UpTo s io clocks (s'.queue worker' job) front' rest' := by
  obtain ⟨unused, gone, hs'⟩ := h.integrity
  obtain ⟨unused', gone', io', hnew⟩ := hs'.enqueue hok
  rcases hs'.queued.enqueue job with ⟨_, hnone⟩ | ⟨_, worker'', hsome, hdone⟩
  · rw [hnone] at hok
    cases Except.ok.inj hok
  obtain rfl : worker'' = worker' := Option.some.inj (Except.ok.inj (hsome.symm.trans hok))
  obtain ⟨_, before, after, _, hio, hqueued⟩ := hdone.queued
  obtain rfl : io' = before ++ s'.worker.freeSeq :: after :=
    hnew.queued.ioForth.unique hqueued.ioForth
  obtain ⟨new, hjobs⟩ := h.jobs
  have hself : (s'.queue worker'' job).serial s'.worker.freeSeq = s'.jobs.length :=
    Function.update_self ..
  have hup : ∀ front' rest', front' ++ rest' = before ++ s'.worker.freeSeq :: after →
      (∀ e ∈ front', e = s'.worker.freeSeq ∨ e ∈ front) → front.length ≤ front'.length →
      rest'.head? = rest.head? → UpTo s io clocks (s'.queue worker'' job) front' rest' := by
    intro front' rest' hlist hfront hlength hhead
    refine ⟨⟨unused', gone', hlist ▸ hnew⟩, ?_, ⟨new ++ [job], ?_⟩, h.length.trans hlength, ?_, ?_⟩
    · have hforth := hqueued.ioForth
      rw [← hlist] at hforth
      obtain ⟨mid, _, hrest⟩ := hforth.of_append
      have hmid : s'.cursor = mid := by rw [h.cursor.start_head?, hrest.start_head?, hhead]
      exact hmid ▸ hrest
    · rw [← List.append_assoc, ← hjobs]
      rfl
    · intro e he hold
      have hne : e ≠ s'.worker.freeSeq := by
        intro heq
        rw [heq, hself, hjobs, List.length_append] at hold
        omega
      have hserial : (s'.queue worker'' job).serial e = s'.serial e := Function.update_of_ne hne ..
      rw [hserial] at hold
      obtain ⟨hcopied, hcompleted⟩ := h.visited e ((hfront e he).resolve_left hne) hold
      have hsame := hdone.others e hne
      refine ⟨hsame.marks.2.1.trans hcopied, fun t ht hdue => hsame.marks.1.trans ?_⟩
      exact hcompleted t ht (hsame.target.symm.trans_le hdue)
    · intro hsame
      have hlength := congrArg List.length hsame
      rw [show (s'.queue worker'' job).jobs = s'.jobs ++ [job] from rfl, hjobs, List.length_append,
        List.length_append, List.length_singleton] at hlength
      omega
  rcases List.append_eq_append_iff.mp hio.symm with ⟨as, rfl, rfl⟩ | ⟨bs, rfl, rfl⟩
  · refine ⟨before ++ s'.worker.freeSeq :: as, rest, hup _ _ ?_ ?_ ?_ rfl⟩
    · rw [List.append_assoc, List.cons_append]
    · exact fun e he => mem_inserted.mp he
    · simp
  · cases bs with
    | nil =>
      refine ⟨front ++ [s'.worker.freeSeq], after, hup _ _ ?_ ?_ ?_ rfl⟩
      · rw [List.append_assoc, List.append_nil, List.singleton_append]
      · intro e he
        rcases List.mem_append.mp he with hmem | hmem
        · exact .inr hmem
        · exact .inl (List.mem_singleton.mp hmem)
      · simp
    | cons b bs =>
      refine ⟨front, b :: bs ++ s'.worker.freeSeq :: after, hup _ _ ?_ ?_ (Nat.le_refl _) rfl⟩
      · rw [List.append_assoc]
      · exact fun _ => .inr

/-- A pass starts at the head. -/
theorem Integrity.startPass_upTo (h : Integrity s unused gone io) :
    UpTo s io [] { s with cursor := s.worker.ioSeq } [] io where
  integrity := ⟨unused, gone, h.startPass⟩
  cursor := h.queued.ioForth
  jobs := ⟨[], (List.append_nil _).symm⟩
  length := Nat.le_refl _
  visited _ he := absurd he List.not_mem_nil
  same _ := ⟨rfl, rfl⟩

/-- How far a pass is. -/
theorem Pass.upTo (hs : Integrity s unused gone io) (h : Pass s clocks s') :
    ∃ front rest, UpTo s io clocks s' front rest := by
  induction h with
  | start _ => exact ⟨[], io, hs.startPass_upTo⟩
  | visit _ hcursor hclock ih =>
    obtain ⟨front, rest, hup⟩ := ih
    exact hup.visit hcursor hclock
  | queued _ hok ih =>
    obtain ⟨front, rest, hup⟩ := ih
    exact hup.queued hok

/-- What was done, at the end of the pass, for a job queued before it. -/
theorem UpTo.actions (h : UpTo s io clocks s' front []) {n : Nat} {job : IoJob}
    (hjob : s.jobs[n]? = some job) : ∃ completed, s'.actionsOf n = job.actions true completed ∧
      ∀ t, (∀ c ∈ clocks, t ≤ c) → job.nsecsTarget ≤ t → completed = true := by
  obtain ⟨unused, gone, hs'⟩ := h.integrity
  obtain ⟨new, hjobs⟩ := h.jobs
  have hn := (List.getElem?_eq_some_iff.mp hjob).1
  have hjob' : s'.jobs[n]? = some job := by
    rw [hjobs]
    exact (List.getElem?_append_left hn).trans hjob
  rw [List.append_nil] at hs'
  by_cases hpending : ∃ e ∈ front, s'.serial e = n
  · obtain ⟨e, he, rfl⟩ := hpending
    obtain ⟨job', hjob'', hcarries, _, hactions⟩ := hs'.pending e he
    obtain rfl : job = job' := Option.some.inj (hjob'.symm.trans hjob'')
    obtain ⟨hcopied, hcompleted⟩ := h.visited e he hn
    rw [hcopied] at hactions
    exact ⟨_, hactions, fun t ht hdue => hcompleted t ht (hcarries.target.trans_le hdue)⟩
  · refine ⟨true, hs'.left n job hjob' fun e he heq => hpending ⟨e, he, heq⟩, fun _ _ _ => rfl⟩

/-- At the end of a pass in which nothing was queued, what is left after a reclaim is due later. -/
theorem UpTo.reclaim (h : UpTo s io clocks s' front []) (hs : Integrity s unused gone io)
    (htimely : ∀ e, (s'.worker.workQueue e).isCompleted = true →
      s'.worker.target e ≤ s'.worker.latestNsecs)
    (hjobs : s'.jobs = s.jobs) {t : Nat} (hstart : s.worker.latestNsecs ≤ t)
    (ht : ∀ c ∈ clocks, t ≤ c) : ∃ worker'' free left,
      s'.worker.reclaimCompletedReqs = .ok worker'' ∧ ShareOut worker'' free left ∧
        ∀ e ∈ left, t < worker''.target e := by
  obtain ⟨unused', gone', hs'⟩ := h.integrity
  obtain ⟨hio, htarget⟩ := h.same hjobs
  rw [List.append_nil] at hio hs'
  subst hio
  obtain ⟨worker'', hok, hdone⟩ := hs'.queued.reclaim_all
  refine ⟨worker'', _, _, hok, hdone.queued.shareOut, ?_⟩
  have hsub : (front.dropWhile fun e => s'.worker.Reclaimable e).Sublist front :=
    List.dropWhile_sublist _
  have hbefore := hs.queued.sorted.sublist hsub
  have hkept : ∀ e, worker''.target e = s.worker.target e := fun e =>
    (hdone.work e).target.trans (congrFun htarget e)
  cases hleft : front.dropWhile fun e => s'.worker.Reclaimable e with
  | nil => exact fun e he => absurd he List.not_mem_nil
  | cons first later =>
    rw [hleft] at hsub hbefore
    have hfirst : first ∈ front := hsub.subset List.mem_cons_self
    have hstop : ¬ s'.worker.Reclaimable first := by
      have hhead := @List.head_dropWhile_not _ (fun e => decide (s'.worker.Reclaimable e)) front
        (by simp [hleft])
      simpa [hleft] using hhead
    have hserial : s'.serial first < s.jobs.length := hjobs ▸ hs'.serial_lt hfirst
    obtain ⟨hcopied, hcompleted⟩ := h.visited first hfirst hserial
    -- the first entry left is not completed, or it would be due
    have hlate : t < s.worker.target first := by
      refine Nat.lt_of_not_le fun hdue => hstop ?_
      have hmark := hcompleted t ht (by rw [htarget]; exact hdue)
      exact ⟨hmark, hcopied, htimely first hmark⟩
    intro e he
    rw [hkept]
    rcases List.mem_cons.mp he with rfl | hmem
    · exact hlate
    · rcases (List.pairwise_cons.mp hbefore).1 e hmem with hdue | hle
      · exact absurd (hdue.trans hstart) (Nat.not_le_of_lt hlate)
      · exact hlate.trans_le hle

/-- A pass visits less than `NR_MAX_PARALLEL_IO` entries, whatever is queued meanwhile, while
nothing is reclaimed. When it is over, every command queued before it is copied, and every job due
by the first visit is ended; if nothing was queued meanwhile, the next reclaim leaves only jobs that
are due later. The dispatcher reclaims after each command it has dispatched, and an entry it frees
can be filled again in front of the pass: with that a pass has no bound, and is not one of these. -/
theorem pass_completes (h : workerRuns.Reachable s) (hpass : Pass s clocks s') :
    clocks.length < nrMaxParallelIo ∧ (s'.cursor = none →
      (∀ n job, s.jobs[n]? = some job → ∃ completed, s'.actionsOf n = job.actions true completed ∧
        ∀ t, (∀ c ∈ clocks, t ≤ c) → job.nsecsTarget ≤ t → completed = true) ∧
      (s'.jobs = s.jobs → ∀ t, s.worker.latestNsecs ≤ t → (∀ c ∈ clocks, t ≤ c) →
        ∃ worker'' free left, s'.worker.reclaimCompletedReqs = .ok worker'' ∧
          ShareOut worker'' free left ∧ ∀ e ∈ left, t < worker''.target e)) := by
  obtain ⟨unused, gone, io, hs⟩ := workerRuns_integrity.reachable h
  obtain ⟨front, rest, hup⟩ := hpass.upTo hs
  refine ⟨?_, fun hover => ?_⟩
  · obtain ⟨unused', gone', hs'⟩ := hup.integrity
    obtain ⟨free, hfree⟩ := hs'.queued.free_cons
    have hlength := hs'.queued.length
    rw [hfree, List.length_cons, List.length_append] at hlength
    have hvisits := hup.length
    omega
  · obtain rfl : rest = [] := by
      have hhead := hup.cursor.start_head?
      rw [hover] at hhead
      exact List.head?_eq_none_iff.mp hhead.symm
    have htimely := (workerRuns_timely.reachable (hpass.reachable h)).2
    exact ⟨fun n job hjob => hup.actions hjob, fun hjobs t hstart ht =>
      hup.reclaim hs htimely hjobs hstart ht⟩

/-- A pass over a single request that is due. -/
theorem pass_completes_first : ∃ s s', workerRuns.Reachable s ∧ s.jobs = [firstRequest] ∧
    Pass s [100] s' ∧ s'.actionsOf 0 = firstRequest.actions true true := by
  have hrun : ∃ worker', idleWorkerRun.worker.enqueue firstRequest = .ok (some worker') ∧
      worker'.ioSeq = some 0 ∧ worker'.next 0 = none ∧ worker'.latestNsecs = 0 :=
    ⟨_, rfl, rfl, rfl, rfl⟩
  obtain ⟨worker', hok, hseq, hnext, hlatest⟩ := hrun
  have hreach : workerRuns.Reachable (idleWorkerRun.queue worker' firstRequest) :=
    .step (.init ⟨rfl, rfl, rfl, rfl⟩) (.queued hok)
  have hclock : worker'.latestNsecs ≤ 100 := by omega
  have hstart : Pass (idleWorkerRun.queue worker' firstRequest) [] _ := .start rfl
  have hpass := hstart.visit hseq hclock
  have hover := (worker'.visit_cursor 0 100).trans hnext
  obtain ⟨completed, hactions, hdue⟩ := ((pass_completes hreach hpass).2 hover).1 0 firstRequest rfl
  rw [hdue 100 (by simp) (Nat.le_refl _)] at hactions
  exact ⟨_, _, hreach, rfl, hpass, hactions⟩

end Passes

end NvmeVirt

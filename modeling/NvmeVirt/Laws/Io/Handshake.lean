import NvmeVirt.Lib.Settling
import NvmeVirt.Laws.Io.Rings

/-!
# The register handshake

The host writes the registers when it likes, and the dispatcher looks for one change a pass: `aqa`
first, then `asq`, `acq` and `cc` (`Controller.firstChange`). Without further writes the passes
settle, unless a base address or a shutdown waits for an admin queue that no change of `aqa` will
make; `pendingBars` falls with each pass that finds a change, so four are enough.

What they settle on is determined by the registers alone where the host writes new base addresses
with depths that need more pages, and enables the device after `aqa`. `BarsFollow` says that what
has been processed follows the registers as far as no change is pending; every write, pass, poll and
admin command keeps it (`BarsFollow.step`), and where nothing is pending the admin queue has a page
for every entry below its depth (`BarsFollow.serves`).

Nothing is said of a host that writes other registers in between, or takes a pending base address
back. That the dispatcher goes on calling `nvmev_proc_bars` is assumed.
-/

set_option autoImplicit false

namespace NvmeVirt

/-! ## One pass -/

section Pass

variable {ctrl ctrl' : Controller}

/-- A pass of the dispatcher over the registers. -/
def Controller.barPass (ctrl : Controller) : Except Fault Controller := do
  let (ctrl, _) ← ctrl.nvmevProcBars
  pure ctrl

/-- One register has changed. -/
def changed (old new : Nat) : Nat := if old = new then 0 else 1

@[simp] theorem changed_self (value : Nat) : changed value value = 0 := if_pos rfl

theorem changed_ne {old new : Nat} (h : old ≠ new) : changed old new = 1 := if_neg h

/-- A register counts once at most. -/
theorem changed_le (old new : Nat) : changed old new ≤ 1 := by
  unfold changed
  split <;> omega

/-- The changes that are left. -/
def Controller.pendingBars (ctrl : Controller) : Nat :=
  changed ctrl.oldBar.aqa ctrl.bar.aqa + changed ctrl.oldBar.asq ctrl.bar.asq +
    changed ctrl.oldBar.acq ctrl.bar.acq + changed ctrl.oldBar.cc ctrl.bar.cc

/-- Four registers are looked at. -/
theorem Controller.pendingBars_le (ctrl : Controller) : ctrl.pendingBars ≤ 4 := by
  have haqa := changed_le ctrl.oldBar.aqa ctrl.bar.aqa
  have hasq := changed_le ctrl.oldBar.asq ctrl.bar.asq
  have hacq := changed_le ctrl.oldBar.acq ctrl.bar.acq
  have hcc := changed_le ctrl.oldBar.cc ctrl.bar.cc
  unfold pendingBars
  omega

/-- What the pass finds first. -/
inductive FirstChange (ctrl : Controller) : Option Controller.BarChange → Prop where
  | aqa : ctrl.oldBar.aqa ≠ ctrl.bar.aqa → FirstChange ctrl (some .aqa)
  | asq : ctrl.oldBar.aqa = ctrl.bar.aqa → ctrl.oldBar.asq ≠ ctrl.bar.asq →
      FirstChange ctrl (some .asq)
  | acq : ctrl.oldBar.aqa = ctrl.bar.aqa → ctrl.oldBar.asq = ctrl.bar.asq →
      ctrl.oldBar.acq ≠ ctrl.bar.acq → FirstChange ctrl (some .acq)
  | cc : ctrl.oldBar.aqa = ctrl.bar.aqa → ctrl.oldBar.asq = ctrl.bar.asq →
      ctrl.oldBar.acq = ctrl.bar.acq → ctrl.oldBar.cc ≠ ctrl.bar.cc → FirstChange ctrl (some .cc)
  | none : ctrl.oldBar.aqa = ctrl.bar.aqa → ctrl.oldBar.asq = ctrl.bar.asq →
      ctrl.oldBar.acq = ctrl.bar.acq → ctrl.oldBar.cc = ctrl.bar.cc → FirstChange ctrl Option.none

/-- What a pass finds is the first change, in the order of the code. -/
theorem Controller.firstChange (ctrl : Controller) : FirstChange ctrl ctrl.barChange := by
  unfold barChange
  split_ifs with haqa hasq hacq hcc
  · exact .aqa haqa
  · exact .asq (not_not.mp haqa) hasq
  · exact .acq (not_not.mp haqa) (not_not.mp hasq) hacq
  · exact .cc (not_not.mp haqa) (not_not.mp hasq) (not_not.mp hacq) hcc
  · exact .none (not_not.mp haqa) (not_not.mp hasq) (not_not.mp hacq) (not_not.mp hcc)

/-- What the branch for `cc` leaves. -/
structure CcDone (ctrl ctrl' : Controller) : Prop where
  bar : ctrl'.bar = ctrl.bar
  oldBar : ctrl'.oldBar = { ctrl.oldBar with cc := ctrl.bar.cc }
  adminQ : ctrl'.adminQ = ctrl.adminQ.map fun q =>
    { q with cqHead := if ctrl.bar.shn = 1 then 0 else q.cqHead }
  rdy : (ctrl.bar.en = 1 → ctrl.adminQ ≠ none) → ctrl'.csts.rdy = ctrl.bar.en

/-- Enabling changes `rdy`, and nothing else. -/
theorem Controller.enable_eq (ctrl : Controller) : ∃ rdy,
    ctrl.enable = { ctrl with csts := { ctrl.csts with rdy } } ∧
      ((ctrl.bar.en = 1 → ctrl.adminQ ≠ none) → rdy = ctrl.bar.en) := by
  have hbit : ctrl.bar.en < 2 := Nat.mod_lt _ (by decide)
  unfold enable
  split
  · rename_i hen
    split
    · rename_i hq
      exact ⟨ctrl.csts.rdy, rfl, fun hsome => absurd hq (hsome hen)⟩
    · exact ⟨1, rfl, fun _ => hen.symm⟩
  · exact ⟨0, rfl, fun _ => by omega⟩

/-- Without an admin queue a shutdown dereferences null. -/
theorem Controller.shutdown_none (hq : ctrl.adminQ = none) : ctrl.shutdown = .error .nullPointer := by
  unfold shutdown resetDoorbell
  simp only [hq]
  rfl

/-- A shutdown puts the head of the completion ring back, and leaves the registers. -/
theorem Controller.shutdown_some {q : AdminQueue} (hq : ctrl.adminQ = some q) : ∃ ctrl',
    ctrl.shutdown = .ok ctrl' ∧ ctrl'.bar = ctrl.bar ∧ ctrl'.oldBar = ctrl.oldBar ∧
      ctrl'.adminQ = some { q with cqHead := 0 } ∧ ctrl'.csts.rdy = ctrl.csts.rdy := by
  unfold shutdown resetDoorbell
  simp only [hq]
  exact ⟨_, rfl, rfl, rfl, rfl, rfl⟩

/-- A shutdown without an admin queue is the one thing the branch for `cc` fails on. -/
theorem Controller.procCc_fails (hshn : ctrl.bar.shn = 1) (hq : ctrl.adminQ = none) :
    ctrl.procCc = .error .nullPointer := by
  obtain ⟨rdy, henable, _⟩ := ctrl.enable_eq
  have hdown : ctrl.enable.shutdown = .error .nullPointer := by
    rw [henable]
    exact shutdown_none hq
  unfold procCc enableOrShutdown
  rw [if_pos hshn, hdown]
  rfl

/-- A change of `cc` is processed unless it is a shutdown without an admin queue. -/
theorem Controller.procCc_answers (h : ctrl.bar.shn = 1 → ctrl.adminQ ≠ none) :
    ∃ ctrl', ctrl.procCc = .ok ctrl' ∧ CcDone ctrl ctrl' := by
  obtain ⟨rdy, henable, hrdy⟩ := ctrl.enable_eq
  unfold procCc enableOrShutdown
  rw [henable]
  by_cases hshn : ctrl.bar.shn = 1
  · obtain ⟨q, hq⟩ := Option.ne_none_iff_exists'.mp (h hshn)
    obtain ⟨mid, hdown, hbar, hold, hadmin, hmid⟩ :=
      @shutdown_some { ctrl with csts := { ctrl.csts with rdy } } q hq
    rw [if_pos hshn, hdown]
    refine ⟨_, rfl, hbar, by simp only [hold, hbar], ?_, fun hready => hmid.trans (hrdy hready)⟩
    simp only [hadmin, hq, hshn, Option.map_some, ↓reduceIte]
  · rw [if_neg hshn]
    refine ⟨_, rfl, rfl, rfl, ?_, hrdy⟩
    simp only [hshn, ↓reduceIte, Option.map_id']

/-- A pass, by what it finds first. -/
theorem Controller.barPass_eq (ctrl : Controller) : ctrl.barPass =
    match ctrl.barChange with
    | some .aqa => .ok ctrl.procAqa
    | some .asq => .ok ctrl.procAsq
    | some .acq => .ok ctrl.procAcq
    | some .cc => ctrl.procCc
    | none => .ok ctrl := by
  unfold barPass nvmevProcBars
  generalize ctrl.barChange = change
  cases change with
  | none => rfl
  | some change =>
    cases change with
    | cc =>
      cases ctrl.procCc with
      | error fault => rfl
      | ok ctrl' => rfl
    | _ => rfl

end Pass

/-! ## The passes settle -/

section Settling

variable {ctrl ctrl' : Controller}

/-- Every change that is left can be processed: there is an admin queue, `aqa` will make one, or
neither a base address nor a shutdown waits for it. -/
def Controller.CanSettle (ctrl : Controller) : Prop :=
  ctrl.adminQ ≠ none ∨ ctrl.oldBar.aqa ≠ ctrl.bar.aqa ∨
    ctrl.oldBar.asq = ctrl.bar.asq ∧ ctrl.oldBar.acq = ctrl.bar.acq ∧
      (ctrl.oldBar.cc = ctrl.bar.cc ∨ ctrl.bar.shn ≠ 1)

/-- A pass takes one change off. -/
theorem Controller.CanSettle.pass (h : ctrl.CanSettle) (hleft : ctrl.barChange ≠ none) :
    ∃ ctrl', ctrl.barPass = .ok ctrl' ∧ ctrl'.bar = ctrl.bar ∧ ctrl'.CanSettle ∧
      ctrl'.pendingBars < ctrl.pendingBars := by
  have hfirst := ctrl.firstChange
  rw [barPass_eq]
  cases hchange : ctrl.barChange with
  | none => exact absurd hchange hleft
  | some change =>
    rw [hchange] at hfirst
    cases hfirst with
    | aqa haqa =>
      refine ⟨_, rfl, rfl, .inl (Option.some_ne_none _), ?_⟩
      simp only [pendingBars, procAqa, resetDoorbell, changed_self, changed_ne haqa]
      omega
    | asq haqa hasq =>
      have hsome : ctrl.adminQ ≠ none :=
        h.resolve_right fun h => h.elim (absurd haqa) fun h => hasq h.1
      obtain ⟨q, hq⟩ := Option.ne_none_iff_exists'.mp hsome
      refine ⟨_, rfl, ?_⟩
      unfold procAsq
      simp only [hq]
      refine ⟨rfl, .inl (Option.some_ne_none _), ?_⟩
      simp only [pendingBars, resetDoorbell, changed_self, changed_ne hasq]
      omega
    | acq haqa hasq hacq =>
      have hsome : ctrl.adminQ ≠ none :=
        h.resolve_right fun h => h.elim (absurd haqa) fun h => hacq h.2.1
      obtain ⟨q, hq⟩ := Option.ne_none_iff_exists'.mp hsome
      refine ⟨_, rfl, ?_⟩
      unfold procAcq
      simp only [hq]
      refine ⟨rfl, .inl (Option.some_ne_none _), ?_⟩
      simp only [pendingBars, resetDoorbell, changed_self, changed_ne hacq]
      omega
    | cc haqa hasq hacq hcc =>
      have hshn : ctrl.bar.shn = 1 → ctrl.adminQ ≠ none := fun hshn => h.resolve_right fun h =>
        h.elim (absurd haqa) fun h => h.2.2.elim hcc (absurd hshn)
      obtain ⟨ctrl', hok, hdone⟩ := procCc_answers hshn
      refine ⟨ctrl', hok, hdone.bar, ?_, ?_⟩
      · refine .inr (.inr ?_)
        simp [hdone.oldBar, hdone.bar, hasq, hacq]
      · simp only [pendingBars, hdone.oldBar, hdone.bar, changed_self, changed_ne hcc]
        omega

/-- A pass that finds a base address and no admin queue comes back to it. -/
theorem Controller.barPass_stuck (hq : ctrl.adminQ = none) (haqa : ctrl.oldBar.aqa = ctrl.bar.aqa)
    (hbase : ctrl.oldBar.asq ≠ ctrl.bar.asq ∨ ctrl.oldBar.acq ≠ ctrl.bar.acq) :
    ctrl.barPass = .ok ctrl ∧ ctrl.barChange ≠ none := by
  have hfirst := ctrl.firstChange
  rw [barPass_eq]
  cases hchange : ctrl.barChange with
  | none =>
    rw [hchange] at hfirst
    cases hfirst with
    | none _ hasq hacq _ => exact absurd hbase (not_or.mpr ⟨not_not.mpr hasq, not_not.mpr hacq⟩)
  | some change =>
    refine ⟨?_, Option.some_ne_none change⟩
    rw [hchange] at hfirst
    cases hfirst with
    | aqa h => exact absurd haqa h
    | asq =>
      simp only [procAsq, hq]
    | acq =>
      simp only [procAcq, hq]
    | cc _ hasq hacq _ => exact absurd hbase (not_or.mpr ⟨not_not.mpr hasq, not_not.mpr hacq⟩)

/-- A poll that finds nothing has the registers of the host. -/
theorem Controller.settled_oldBar (h : ctrl.barChange = none) : ctrl.oldBar = ctrl.bar := by
  have hfirst := ctrl.firstChange
  rw [h] at hfirst
  cases hfirst with
  | none haqa hasq hacq hcc =>
    cases hold : ctrl.oldBar
    cases hbar : ctrl.bar
    simp_all only

/-- A pass that cannot lead to rest changes nothing, or dereferences the admin queue that is not there. -/
theorem Controller.not_settling (h : ¬ ctrl.CanSettle) :
    ctrl.barChange ≠ none ∧ (ctrl.barPass = .ok ctrl ∨ ctrl.barPass = .error .nullPointer) := by
  obtain ⟨hq, haqa, hrest⟩ : ctrl.adminQ = none ∧ ctrl.oldBar.aqa = ctrl.bar.aqa ∧
      ¬ (ctrl.oldBar.asq = ctrl.bar.asq ∧ ctrl.oldBar.acq = ctrl.bar.acq ∧
        (ctrl.oldBar.cc = ctrl.bar.cc ∨ ctrl.bar.shn ≠ 1)) := by
    simpa only [Controller.CanSettle, not_or, not_not] using h
  by_cases hbase : ctrl.oldBar.asq ≠ ctrl.bar.asq ∨ ctrl.oldBar.acq ≠ ctrl.bar.acq
  · -- every pass comes back to the base address
    obtain ⟨hsame, hleft⟩ := Controller.barPass_stuck hq haqa hbase
    exact ⟨hleft, .inl hsame⟩
  · -- the shutdown fails
    obtain ⟨hasq, hacq⟩ : ctrl.oldBar.asq = ctrl.bar.asq ∧ ctrl.oldBar.acq = ctrl.bar.acq := by
      simpa only [not_or, not_not] using hbase
    have hcc : ¬ (ctrl.oldBar.cc = ctrl.bar.cc ∨ ctrl.bar.shn ≠ 1) := fun h => hrest ⟨hasq, hacq, h⟩
    obtain ⟨hcc, hshn⟩ := not_or.mp hcc
    have hchange : ctrl.barChange = some .cc := by
      simp only [Controller.barChange, haqa, hasq, hacq, hcc, ne_eq, not_true_eq_false,
        not_false_eq_true, ↓reduceIte]
    refine ⟨hchange ▸ Option.some_ne_none _, .inr ?_⟩
    simp only [Controller.barPass_eq, hchange]
    exact Controller.procCc_fails (not_not.mp hshn) hq

/-- Without further writes the passes over the registers settle if and only if there is an admin queue,
`aqa` has changed, or neither a base address nor a shutdown is left; and then four passes are enough.
Otherwise a pass comes back to the same controller for ever, or dereferences the missing queue. -/
theorem bars_settle_iff (ctrl : Controller) :
    ((∃ n ctrl', repeated Controller.barPass n ctrl = .ok ctrl' ∧ ctrl'.barChange = none) ↔
      ctrl.CanSettle) ∧
    (ctrl.CanSettle → ∃ n ≤ 4, ∃ ctrl', repeated Controller.barPass n ctrl = .ok ctrl' ∧
      ctrl'.bar = ctrl.bar ∧ ctrl'.oldBar = ctrl.bar) ∧
    (¬ ctrl.CanSettle → ctrl.barPass = .ok ctrl ∨ ctrl.barPass = .error .nullPointer) := by
  have hruns : ctrl.CanSettle → ∃ n ≤ 4, ∃ ctrl', repeated Controller.barPass n ctrl = .ok ctrl' ∧
      ctrl'.bar = ctrl.bar ∧ ctrl'.barChange = none := by
    intro h
    obtain ⟨n, hn, ctrl', hrun, hkept, hdone⟩ :=
      @settles _ _ Controller.barPass (fun c => c.bar = ctrl.bar ∧ c.CanSettle)
        (fun c => c.barChange = none) Controller.pendingBars (fun c hc hleft => by
          obtain ⟨c', hok, hbar, hcan, hlt⟩ := hc.2.pass hleft
          exact ⟨c', hok, ⟨hbar.trans hc.1, hcan⟩, hlt⟩) ctrl ⟨rfl, h⟩
    exact ⟨n, Nat.le_trans hn ctrl.pendingBars_le, ctrl', hrun, hkept.1, hdone⟩
  refine ⟨⟨?_, fun h => ?_⟩, fun h => ?_, fun h => (Controller.not_settling h).2⟩
  · rintro ⟨n, ctrl', hrun, hdone⟩
    by_contra hcannot
    obtain ⟨hleft, hsame | hfail⟩ := Controller.not_settling hcannot
    · rw [repeated_fixed hsame] at hrun
      cases hrun
      exact hleft hdone
    · cases n with
      | zero =>
        cases hrun
        exact hleft hdone
      | succ n =>
        rw [repeated_error hfail] at hrun
        cases hrun
  · obtain ⟨n, _, ctrl', hrun, _, hdone⟩ := hruns h
    exact ⟨n, ctrl', hrun, hdone⟩
  · obtain ⟨n, hn, ctrl', hrun, hbar, hdone⟩ := hruns h
    exact ⟨n, hn, ctrl', hrun, hbar, (Controller.settled_oldBar hdone).trans hbar⟩

end Settling

/-! ## What they settle on -/

section Kept

variable {ctrl ctrl' : Controller} {q q' : AdminQueue}

/-- The page array, if there is one, has that many entries. -/
def Holds (pages : Option Nat) (perPage depth : Nat) : Prop :=
  ∀ n, pages = some n → depth ≤ n * perPage

theorem holds_none (perPage depth : Nat) : Holds none perPage depth :=
  fun _ h => absurd h.symm (Option.some_ne_none _)

/-- The pages for a depth are as many as its entries need. -/
theorem holds_divRoundUp {perPage : Nat} (hpos : 0 < perPage) (depth : Nat) :
    Holds (some (divRoundUp depth perPage)) perPage depth := by
  intro n hn
  rw [← Option.some.inj hn]
  unfold divRoundUp
  have hdiv := Nat.div_add_mod (depth + perPage - 1) perPage
  have hmod := Nat.mod_lt (depth + perPage - 1) hpos
  rw [Nat.mul_comm] at hdiv
  omega

/-- The admin queue follows the registers that were processed, and its pages follow its depths unless a
new base address is left. -/
structure QueueFollows (ctrl : Controller) (q : AdminQueue) : Prop where
  sqDepth : q.sqDepth = ctrl.oldBar.asqs + 1
  cqDepth : q.cqDepth = ctrl.oldBar.acqs + 1
  head : q.cqHead < q.cqDepth
  sq : q.nvmeSq = none → ctrl.oldBar.asq = 0
  cq : q.nvmeCq = none → ctrl.oldBar.acq = 0
  sqHolds : ctrl.oldBar.asq = ctrl.bar.asq → Holds q.nvmeSq nrSqePerPage q.sqDepth
  cqHolds : ctrl.oldBar.acq = ctrl.bar.acq → Holds q.nvmeCq nrCqePerPage q.cqDepth

/-- The controller follows the registers that were processed. -/
structure BarsFollow (ctrl : Controller) : Prop where
  noQueue : ctrl.adminQ = none → ctrl.oldBar.asq = 0 ∧ ctrl.oldBar.acq = 0
  queue : ∀ q, ctrl.adminQ = some q → QueueFollows ctrl q
  rdy : ctrl.csts.rdy = ctrl.oldBar.en

/-- The queue follows the registers, whatever else there is. -/
theorem QueueFollows.congr (h : QueueFollows ctrl q) (hbar : ctrl'.bar = ctrl.bar)
    (hold : ctrl'.oldBar = ctrl.oldBar) : QueueFollows ctrl' q where
  sqDepth := by rw [hold, h.sqDepth]
  cqDepth := by rw [hold, h.cqDepth]
  head := h.head
  sq := by rw [hold]; exact h.sq
  cq := by rw [hold]; exact h.cq
  sqHolds := by rw [hold, hbar]; exact h.sqHolds
  cqHolds := by rw [hold, hbar]; exact h.cqHolds

/-- Depths that need more pages than there are come with new base addresses, and the device is enabled
after `aqa`. -/
structure PassInOrder (ctrl : Controller) : Prop where
  sq : ctrl.barChange = some .aqa → ctrl.oldBar.asq = ctrl.bar.asq →
    ∀ q, ctrl.adminQ = some q → Holds q.nvmeSq nrSqePerPage (ctrl.bar.asqs + 1)
  cq : ctrl.barChange = some .aqa → ctrl.oldBar.acq = ctrl.bar.acq →
    ∀ q, ctrl.adminQ = some q → Holds q.nvmeCq nrCqePerPage (ctrl.bar.acqs + 1)
  enable : ctrl.barChange = some .cc → ctrl.bar.en = 1 → ctrl.adminQ ≠ none

/-- A new base address is not taken back. -/
structure WriteInOrder (ctrl : Controller) (bar : NvmeBar) : Prop where
  asq : ctrl.oldBar.asq = bar.asq → ctrl.oldBar.asq = ctrl.bar.asq
  acq : ctrl.oldBar.acq = bar.acq → ctrl.oldBar.acq = ctrl.bar.acq

/-- The host writes the registers in order. -/
theorem BarsFollow.write (h : BarsFollow ctrl) {bar : NvmeBar} (horder : WriteInOrder ctrl bar) :
    BarsFollow { ctrl with bar } where
  noQueue := h.noQueue
  queue q hq :=
    { h.queue q hq with
      sqHolds := fun hasq => (h.queue q hq).sqHolds (horder.asq hasq)
      cqHolds := fun hacq => (h.queue q hq).cqHolds (horder.acq hacq) }
  rdy := h.rdy

/-- A pass takes over the depths in `aqa`, into a new admin queue if there is none. -/
theorem BarsFollow.procAqa (h : BarsFollow ctrl) (horder : PassInOrder ctrl)
    (hchange : ctrl.barChange = some .aqa) : BarsFollow ctrl.procAqa where
  noQueue hq := absurd hq (Option.some_ne_none _)
  queue q hq := by
    obtain rfl := Option.some.inj (show some _ = some q from hq)
    cases hold : ctrl.adminQ with
    | none =>
      obtain ⟨hasq, hacq⟩ := h.noQueue hold
      exact ⟨rfl, rfl, Nat.succ_pos _, fun _ => hasq, fun _ => hacq, fun _ => holds_none _ _,
        fun _ => holds_none _ _⟩
    | some old =>
      have hkept := h.queue old hold
      exact ⟨rfl, rfl, Nat.succ_pos _, hkept.sq, hkept.cq,
        fun hasq => horder.sq hchange hasq old hold, fun hacq => horder.cq hchange hacq old hold⟩
  rdy := h.rdy

/-- A pass maps the pages of the submission ring for the depth in `aqa`. -/
theorem BarsFollow.procAsq (h : BarsFollow ctrl) (haqa : ctrl.oldBar.aqa = ctrl.bar.aqa) :
    BarsFollow ctrl.procAsq := by
  unfold Controller.procAsq
  cases hq : ctrl.adminQ with
  | none => exact h
  | some q =>
    have hkept := h.queue q hq
    have hdepth : ctrl.bar.asqs = ctrl.oldBar.asqs := congrArg (· % 2 ^ 12) haqa.symm
    refine ⟨fun hnone => absurd hnone (Option.some_ne_none _), fun q' hq' => ?_, h.rdy⟩
    obtain rfl := Option.some.inj (show some _ = some q' from hq')
    exact ⟨congrArg (· + 1) hdepth, hkept.cqDepth, hkept.head,
      fun hnone => absurd hnone (Option.some_ne_none _), hkept.cq,
      fun _ => holds_divRoundUp (by decide) _, hkept.cqHolds⟩

/-- A pass maps the pages of the completion ring. -/
theorem BarsFollow.procAcq (h : BarsFollow ctrl) (haqa : ctrl.oldBar.aqa = ctrl.bar.aqa) :
    BarsFollow ctrl.procAcq := by
  unfold Controller.procAcq
  cases hq : ctrl.adminQ with
  | none => exact h
  | some q =>
    have hkept := h.queue q hq
    have hdepth : ctrl.bar.acqs = ctrl.oldBar.acqs :=
      congrArg (· / 2 ^ 16 % 2 ^ 12) haqa.symm
    refine ⟨fun hnone => absurd hnone (Option.some_ne_none _), fun q' hq' => ?_, h.rdy⟩
    obtain rfl := Option.some.inj (show some _ = some q' from hq')
    exact ⟨hkept.sqDepth, congrArg (· + 1) hdepth, Nat.succ_pos _, hkept.sq,
      fun hnone => absurd hnone (Option.some_ne_none _), hkept.sqHolds,
      fun _ => holds_divRoundUp (by decide) _⟩

/-- A pass processes `cc`. -/
theorem BarsFollow.ccDone (h : BarsFollow ctrl) (hdone : CcDone ctrl ctrl')
    (henable : ctrl.bar.en = 1 → ctrl.adminQ ≠ none) : BarsFollow ctrl' where
  noQueue hq := by
    rw [hdone.adminQ] at hq
    rw [hdone.oldBar]
    exact h.noQueue (Option.map_eq_none_iff.mp hq)
  queue q' hq' := by
    rw [hdone.adminQ] at hq'
    obtain ⟨q, hq, rfl⟩ := Option.map_eq_some_iff.mp hq'
    have hkept := h.queue q hq
    have hhead : (if ctrl.bar.shn = 1 then 0 else q.cqHead) < q.cqDepth := by
      split
      · exact Nat.zero_lt_of_lt hkept.head
      · exact hkept.head
    constructor
    all_goals simp only [hdone.oldBar, hdone.bar]
    exacts [hkept.sqDepth, hkept.cqDepth, hhead, hkept.sq, hkept.cq, hkept.sqHolds, hkept.cqHolds]
  rdy := by
    rw [hdone.rdy henable, hdone.oldBar]
    rfl

/-- Any pass keeps it, whatever it finds. -/
theorem BarsFollow.pass (h : BarsFollow ctrl) (horder : PassInOrder ctrl)
    (hok : ctrl.barPass = .ok ctrl') : BarsFollow ctrl' := by
  have hfirst := ctrl.firstChange
  rw [Controller.barPass_eq] at hok
  cases hchange : ctrl.barChange with
  | none =>
    rw [hchange] at hok
    cases hok
    exact h
  | some change =>
    rw [hchange] at hok hfirst
    cases hfirst with
    | aqa =>
      cases hok
      exact h.procAqa horder hchange
    | asq haqa =>
      cases hok
      exact h.procAsq haqa
    | acq haqa =>
      cases hok
      exact h.procAcq haqa
    | cc =>
      have hshn : ctrl.bar.shn = 1 → ctrl.adminQ ≠ none := by
        intro hshn hq
        have hfail := Controller.procCc_fails hshn hq
        rw [show ctrl.procCc = .ok ctrl' from hok] at hfail
        cases hfail
      obtain ⟨done, hcc, hdone⟩ := Controller.procCc_answers hshn
      obtain rfl : done = ctrl' := Except.ok.inj (hcc.symm.trans hok)
      exact h.ccDone hdone (horder.enable hchange)

/-- The parts of the controller that an answer to an admin command does not touch. -/
structure SameBars (ctrl mid : Controller) : Prop where
  bar : mid.bar = ctrl.bar
  oldBar : mid.oldBar = ctrl.oldBar
  csts : mid.csts = ctrl.csts
  adminQ : mid.adminQ = ctrl.adminQ

/-- An admin command is an abort, or posts one answer from a controller with the same registers. -/
inductive AdminAnswered (ctrl ctrl' : Controller) (eid : Nat) : Prop where
  | aborted : ctrl' = ctrl → AdminAnswered ctrl ctrl' eid
  | posted {mid : Controller} {commandId ret r0 r1 : Nat} :
      mid.makeCqEntryResults eid commandId ret r0 r1 = .ok ctrl' → SameBars ctrl mid →
      AdminAnswered ctrl ctrl' eid

/-- An admin command leaves the registers alone and posts one answer at most. -/
theorem Controller.procAdminReq_answered {eid : Nat} {cmd : AdminCommand}
    (h : ctrl.procAdminReq eid cmd = .ok ctrl') : AdminAnswered ctrl ctrl' eid := by
  obtain ⟨_, _, h⟩ := of_bind_ok h
  cases hop : cmd.opcode with
  | abortCmd =>
    rw [hop] at h
    exact .aborted (Except.ok.inj h).symm
  | createCq =>
    rw [hop] at h
    obtain ⟨mid, hset, hpost⟩ := of_bind_ok (show ctrl.adminCreateCq eid cmd = .ok ctrl' from h)
    obtain rfl := setCq_ok hset
    exact .posted hpost ⟨rfl, rfl, rfl, rfl⟩
  | deleteCq =>
    rw [hop] at h
    obtain ⟨mid, hset, hpost⟩ := of_bind_ok (show ctrl.adminDeleteCq eid cmd = .ok ctrl' from h)
    obtain rfl := setCq_ok hset
    exact .posted hpost ⟨rfl, rfl, rfl, rfl⟩
  | createSq =>
    rw [hop] at h
    obtain ⟨mid, hset, hpost⟩ := of_bind_ok (show ctrl.adminCreateSq eid cmd = .ok ctrl' from h)
    obtain rfl := setSq_ok hset
    exact .posted hpost ⟨rfl, rfl, rfl, rfl⟩
  | deleteSq =>
    rw [hop] at h
    obtain ⟨mid, hset, hpost⟩ := of_bind_ok (show ctrl.adminDeleteSq eid cmd = .ok ctrl' from h)
    obtain rfl := setSq_ok hset
    exact .posted hpost ⟨rfl, rfl, rfl, rfl⟩
  | identify =>
    rw [hop] at h
    have hident : ctrl.adminIdentify eid cmd = .ok ctrl' := h
    unfold adminIdentify adminIdentifyNs at hident
    split at hident
    · split at hident
      · cases hident
      · exact .posted hident ⟨rfl, rfl, rfl, rfl⟩
    · split at hident
      · exact .posted hident ⟨rfl, rfl, rfl, rfl⟩
      · exact .posted hident ⟨rfl, rfl, rfl, rfl⟩
  | getLogPage =>
    rw [hop] at h
    have hlog : ctrl.adminGetLogPage eid cmd = .ok ctrl' := h
    unfold adminGetLogPage at hlog
    split at hlog
    · exact .posted hlog ⟨rfl, rfl, rfl, rfl⟩
    · split at hlog
      · cases hlog
      · exact .posted hlog ⟨rfl, rfl, rfl, rfl⟩
  | setFeatures =>
    rw [hop] at h
    have hset : ctrl.adminSetFeatures eid cmd = .ok ctrl' := h
    unfold adminSetFeatures at hset
    split at hset
    · exact .posted hset ⟨rfl, rfl, rfl, rfl⟩
    · exact .posted hset ⟨rfl, rfl, rfl, rfl⟩
  | getFeatures =>
    rw [hop] at h
    have hget : ctrl.adminGetFeatures eid cmd = .ok ctrl' := h
    unfold adminGetFeatures at hget
    split at hget
    · exact .posted hget ⟨rfl, rfl, rfl, rfl⟩
    · exact .posted hget ⟨rfl, rfl, rfl, rfl⟩
  | asyncEvent | other =>
    rw [hop] at h
    exact .posted h ⟨rfl, rfl, rfl, rfl⟩

theorem advanceHead_lt {depth head : Nat} (phase : Bool) (h : head < depth) :
    (advanceHead depth head phase).1 < depth := by
  unfold advanceHead
  split
  · exact Nat.zero_lt_of_lt h
  · show head + 1 < depth
    omega

/-- Posting moves the head on within the ring, and keeps the depths and the pages. -/
theorem QueueFollows.posted {mid : Controller} (h : ∀ q, mid.adminQ = some q → QueueFollows mid q)
    {eid commandId ret r0 r1 : Nat}
    (hok : mid.makeCqEntryResults eid commandId ret r0 r1 = .ok ctrl') :
    ctrl'.bar = mid.bar ∧ ctrl'.oldBar = mid.oldBar ∧ ctrl'.csts = mid.csts ∧
      ∃ q', ctrl'.adminQ = some q' ∧ QueueFollows mid q' := by
  unfold Controller.makeCqEntryResults at hok
  cases hq : mid.adminQ with
  | none =>
    simp only [hq] at hok
    cases hok
  | some q =>
    have hkept := h q hq
    simp only [hq] at hok
    obtain ⟨q', hpost, hok⟩ := of_bind_ok hok
    cases hok
    refine ⟨rfl, rfl, rfl, q', rfl, ?_⟩
    unfold AdminQueue.makeCqEntryResults at hpost
    split at hpost
    · cases hpost
    · split at hpost
      · cases hpost
      · cases hpost
        exact { hkept with head := advanceHead_lt q.phase hkept.head }

theorem BarsFollow.adminReq (h : BarsFollow ctrl) {eid : Nat} {cmd : AdminCommand}
    (hok : ctrl.procAdminReq eid cmd = .ok ctrl') : BarsFollow ctrl' := by
  cases Controller.procAdminReq_answered hok with
  | aborted hsame =>
    rw [hsame]
    exact h
  | @posted mid _ _ _ _ hpost hsame =>
    have hmid : ∀ q, mid.adminQ = some q → QueueFollows mid q := by
      intro q hq
      exact (h.queue q (hsame.adminQ ▸ hq)).congr hsame.bar hsame.oldBar
    obtain ⟨hbar, hold, hcsts, q', hq', hkept⟩ := QueueFollows.posted hmid hpost
    refine ⟨fun hnone => absurd (hnone.symm.trans hq') (Option.some_ne_none _).symm, fun q hq => ?_, ?_⟩
    · obtain rfl : q' = q := Option.some.inj (hq'.symm.trans hq)
      exact hkept.congr hbar hold
    · rw [hcsts, hold, hsame.csts, hsame.oldBar]
      exact h.rdy

end Kept

section Runs

variable {s s' : RingRun} {l : RingEvent}

/-- Runs from a device without queues whose registers are zero. -/
def barRuns : System RingRun RingEvent where
  init s := ringRuns.init s ∧ s.ctrl.bar = ⟨0, 0, 0, 0⟩ ∧ s.ctrl.oldBar = ⟨0, 0, 0, 0⟩ ∧
    s.ctrl.csts.rdy = 0
  step := RingStep

/-- The order the registers are written in, and found. -/
def RegistersInOrder (s : RingRun) : RingEvent → Prop
  | .writeRegisters bar => WriteInOrder s.ctrl bar
  | .procBars => PassInOrder s.ctrl
  | _ => True

/-- Every step keeps it: a write of the host in order, a doorbell, a pass, a poll and an admin
command. -/
theorem BarsFollow.step (h : BarsFollow s.ctrl) (horder : RegistersInOrder s l)
    (hstep : RingStep s l s') : BarsFollow s'.ctrl := by
  cases hstep with
  | writeRegisters => exact h.write horder
  | writeDoorbell => exact ⟨h.noQueue, fun q hq => (h.queue q hq).congr rfl rfl, h.rdy⟩
  | procBars hok => exact h.pass horder (by simp only [Controller.barPass, hok]; rfl)
  | adminReq hok => exact h.adminReq hok
  | fillCqResult => exact ⟨h.noQueue, fun q hq => (h.queue q hq).congr rfl rfl, h.rdy⟩

/-- When the registers are written in order, the controller follows those that were processed. -/
theorem barRuns_follow : (barRuns.guarded RegistersInOrder).Invariant fun s => BarsFollow s.ctrl where
  init s hs := by
    obtain ⟨hring, hbar, hold, hrdy⟩ := hs
    refine ⟨fun _ => by simp only [hold, and_self], fun q hq => ?_, by rw [hrdy, hold]; rfl⟩
    exact absurd (hring.1.symm.trans hq) (Option.some_ne_none q).symm
  step _ _ _ hs hstep := hs.step hstep.1 hstep.2

/-- Every command in the admin ring can be read, and answered. -/
structure ServesAdmin (ctrl : Controller) (q : AdminQueue) : Prop where
  sqDepth : q.sqDepth = ctrl.bar.asqs + 1
  cqDepth : q.cqDepth = ctrl.bar.acqs + 1
  reads : ∀ eid < q.sqDepth, ctrl.checkSqEntry eid = .ok ()
  posts : ∀ eid commandId ret r0 r1, ∃ ctrl',
    ctrl.makeCqEntryResults eid commandId ret r0 r1 = .ok ctrl'

/-- An entry below the depth lies in a page that is there. -/
theorem Holds.exists_page {pages : Option Nat} {perPage depth i : Nat} (h : Holds pages perPage depth)
    (hsome : pages ≠ none) (hi : i < depth) : ∃ n, pages = some n ∧ ¬ n ≤ i / perPage := by
  obtain ⟨n, hn⟩ := Option.ne_none_iff_exists'.mp hsome
  refine ⟨n, hn, fun hle => ?_⟩
  have hfits := h n hn
  have hback := Nat.div_mul_le_self i perPage
  have hmul := Nat.mul_le_mul_right perPage hle
  omega

/-- Once nothing is pending the rings can be read and written up to their depths. -/
theorem BarsFollow.serves {ctrl : Controller} {q : AdminQueue} (h : BarsFollow ctrl)
    (hsettled : ctrl.oldBar = ctrl.bar) (hq : ctrl.adminQ = some q) (hasq : ctrl.bar.asq ≠ 0)
    (hacq : ctrl.bar.acq ≠ 0) : ServesAdmin ctrl q := by
  have hkept := h.queue q hq
  refine ⟨hsettled ▸ hkept.sqDepth, hsettled ▸ hkept.cqDepth, fun eid heid => ?_,
    fun eid commandId ret r0 r1 => ?_⟩
  · obtain ⟨n, hpages, hpage⟩ := (hkept.sqHolds (by rw [hsettled])).exists_page
      (fun hnone => hasq (hsettled ▸ hkept.sq hnone)) heid
    simp only [Controller.checkSqEntry, hq, Option.bind_some, hpages, if_neg hpage]
    rfl
  · obtain ⟨n, hpages, hpage⟩ := (hkept.cqHolds (by rw [hsettled])).exists_page
      (fun hnone => hacq (hsettled ▸ hkept.cq hnone)) hkept.head
    simp only [Controller.makeCqEntryResults, hq, AdminQueue.makeCqEntryResults, hpages, if_neg hpage]
    exact ⟨_, rfl⟩

/-- Where a pass has an admin queue, or makes one, the next has one, and the depths are processed. -/
theorem Controller.barPass_queue {ctrl ctrl' : Controller}
    (hqueue : ctrl.adminQ ≠ none ∨ ctrl.oldBar.aqa ≠ ctrl.bar.aqa) (hok : ctrl.barPass = .ok ctrl') :
    ctrl'.adminQ ≠ none ∧ ctrl'.oldBar.aqa = ctrl'.bar.aqa := by
  have hfirst := ctrl.firstChange
  rw [barPass_eq] at hok
  cases hchange : ctrl.barChange with
  | none =>
    rw [hchange] at hok hfirst
    cases hok
    cases hfirst with
    | none haqa => exact ⟨hqueue.resolve_right (absurd haqa), haqa⟩
  | some change =>
    rw [hchange] at hok hfirst
    cases hfirst with
    | aqa =>
      cases hok
      exact ⟨Option.some_ne_none _, rfl⟩
    | asq haqa =>
      cases hok
      obtain ⟨q, hq⟩ := Option.ne_none_iff_exists'.mp (hqueue.resolve_right (absurd haqa))
      simp only [procAsq, hq]
      exact ⟨Option.some_ne_none _, haqa⟩
    | acq haqa =>
      cases hok
      obtain ⟨q, hq⟩ := Option.ne_none_iff_exists'.mp (hqueue.resolve_right (absurd haqa))
      simp only [procAcq, hq]
      exact ⟨Option.some_ne_none _, haqa⟩
    | cc haqa =>
      have hsome := hqueue.resolve_right (absurd haqa)
      obtain ⟨done, hcc, hdone⟩ := procCc_answers fun _ => hsome
      obtain rfl : done = ctrl' := Except.ok.inj (hcc.symm.trans hok)
      refine ⟨fun hnone => hsome ?_, ?_⟩
      · rw [hdone.adminQ] at hnone
        exact Option.map_eq_none_iff.mp hnone
      · rw [hdone.oldBar, hdone.bar]
        exact haqa

/-- With an admin queue and `aqa` processed, no pass is out of order. -/
theorem PassInOrder.of_queue {ctrl : Controller} (hq : ctrl.adminQ ≠ none)
    (haqa : ctrl.oldBar.aqa = ctrl.bar.aqa) : PassInOrder ctrl := by
  have hother : ctrl.barChange ≠ some .aqa := by
    intro hchange
    have hfirst := ctrl.firstChange
    rw [hchange] at hfirst
    cases hfirst with
    | aqa h => exact h haqa
  exact ⟨fun h => absurd h hother, fun h => absurd h hother, fun _ _ => hq⟩

/-- The controller on its way to the registers `bar`. -/
structure SettingUp (bar : NvmeBar) (ctrl : Controller) : Prop where
  bar : ctrl.bar = bar
  follows : BarsFollow ctrl
  inOrder : PassInOrder ctrl
  queue : ctrl.adminQ ≠ none ∨ ctrl.oldBar.aqa ≠ ctrl.bar.aqa

/-- While registers are pending a pass succeeds, and leaves fewer of them. -/
theorem SettingUp.pass {bar : NvmeBar} {ctrl : Controller} (h : SettingUp bar ctrl)
    (hleft : ctrl.barChange ≠ none) : ∃ ctrl', ctrl.barPass = .ok ctrl' ∧ SettingUp bar ctrl' ∧
      ctrl'.pendingBars < ctrl.pendingBars := by
  have hcan : ctrl.CanSettle := h.queue.imp_right Or.inl
  obtain ⟨ctrl', hok, hsame, _, hlt⟩ := hcan.pass hleft
  obtain ⟨hq, haqa⟩ := Controller.barPass_queue h.queue hok
  exact ⟨ctrl', hok, ⟨hsame.trans h.bar, h.follows.pass h.inOrder hok, .of_queue hq haqa, .inl hq⟩, hlt⟩

/-- Whatever the order of writes, polls and admin commands that led here, four passes without
further writes make an admin queue of the depths in `aqa`, every entry of which can be read and
answered, and the device is ready just when it is enabled. The host gives new base addresses with
depths that need more pages, takes no new address back before it is picked up, and enables the
device after `aqa` (`RegistersInOrder`); else the pages of the queue are too few, or there is no
queue. -/
theorem handshake_settles (h : (barRuns.guarded RegistersInOrder).Reachable s)
    (hnow : PassInOrder s.ctrl) (hqueue : s.ctrl.adminQ ≠ none ∨ s.ctrl.oldBar.aqa ≠ s.ctrl.bar.aqa)
    (hasq : s.ctrl.bar.asq ≠ 0) (hacq : s.ctrl.bar.acq ≠ 0) :
    ∃ n ≤ 4, ∃ ctrl' q, repeated Controller.barPass n s.ctrl = .ok ctrl' ∧
      ctrl'.bar = s.ctrl.bar ∧ ctrl'.oldBar = s.ctrl.bar ∧ ctrl'.adminQ = some q ∧
      ServesAdmin ctrl' q ∧ ctrl'.csts.rdy = s.ctrl.bar.en := by
  have hfollow := barRuns_follow.reachable h
  obtain ⟨n, hn, ctrl', hrun, ⟨hbar, hkept, _, hready⟩, hdone⟩ :=
    @settles _ _ Controller.barPass (SettingUp s.ctrl.bar) (fun c => c.barChange = none)
      Controller.pendingBars (fun _ hc hleft => hc.pass hleft) s.ctrl ⟨rfl, hfollow, hnow, hqueue⟩
  have hsettled := Controller.settled_oldBar hdone
  have hsome : ctrl'.adminQ ≠ none := hready.resolve_right fun hne => hne (by rw [hsettled])
  obtain ⟨q, hq⟩ := Option.ne_none_iff_exists'.mp hsome
  have hfour := Nat.le_trans hn s.ctrl.pendingBars_le
  refine ⟨n, hfour, ctrl', q, hrun, hbar, hsettled.trans hbar, hq, ?_, ?_⟩
  · exact hkept.serves hsettled hq (by rwa [hbar]) (by rwa [hbar])
  · rw [hkept.rdy, hsettled, hbar]

theorem bootedRun_bars : barRuns.init bootedRun := ⟨bootedRun_init, rfl, rfl, rfl⟩

/-- The registers for an admin queue, all written before the first poll. -/
theorem handshake_settles_booted : ∃ s, (barRuns.guarded RegistersInOrder).Reachable s ∧
    s.ctrl.bar = twoEntryBar ∧
    ∃ n ≤ 4, ∃ ctrl' q, repeated Controller.barPass n s.ctrl = .ok ctrl' ∧
      ctrl'.bar = s.ctrl.bar ∧ ctrl'.oldBar = s.ctrl.bar ∧ ctrl'.adminQ = some q ∧
      ServesAdmin ctrl' q ∧ ctrl'.csts.rdy = s.ctrl.bar.en := by
  have hboot : (barRuns.guarded RegistersInOrder).Reachable bootedRun := .init bootedRun_bars
  have hwrite : WriteInOrder bootedRun.ctrl twoEntryBar :=
    ⟨fun h => absurd h (by decide), fun h => absurd h (by decide)⟩
  have hwritten := hboot.guarded_step (@RingStep.writeRegisters bootedRun twoEntryBar) hwrite
  refine ⟨_, hwritten, rfl, handshake_settles hwritten ?_ (.inr (by decide)) (by decide) (by decide)⟩
  exact ⟨fun _ h => absurd h (by decide), fun _ h => absurd h (by decide),
    fun h => absurd h (by decide)⟩

/-- An admin queue of 64 entries, and then of 65 at the same address. -/
def onePageBar : NvmeBar := { aqa := 0x1003f, asq := 0x1000, acq := 0x2000, cc := 0x1 }
def outgrownBar : NvmeBar := { onePageBar with aqa := 0x10040 }

set_option maxRecDepth 20000 in
/-- A deeper queue at the same address keeps its page array, and its last entry is behind the array. -/
theorem outgrown_reads_behind : ∃ s q, barRuns.Reachable s ∧ s.ctrl.barChange = none ∧
    s.ctrl.adminQ = some q ∧ 64 < q.sqDepth ∧ s.ctrl.checkSqEntry 64 = .error .outOfBounds := by
  have hboot : barRuns.Reachable bootedRun := .init bootedRun_bars
  have hbar := hboot.step (@RingStep.writeRegisters _ onePageBar)
  have haqa := hbar.step (.procBars rfl)
  have hasq := haqa.step (.procBars rfl)
  have hacq := hasq.step (.procBars rfl)
  have hcc := hacq.step (.procBars rfl)
  have hwrite := hcc.step (@RingStep.writeRegisters _ outgrownBar)
  have hdeeper := hwrite.step (.procBars rfl)
  exact ⟨_, _, hdeeper, rfl, rfl, by decide, rfl⟩

end Runs

end NvmeVirt

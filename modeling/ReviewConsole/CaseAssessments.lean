import ReviewConsole.DeadlineClocks
import Mathlib.Data.List.Forall2

/-!
# The case assessment

Every clock of a case against an instant, the findings in their canonical order, and
whether the case must go to a human.
-/
namespace ReviewConsole

/-- The order findings are reported in, most urgent first. -/
def findingOrder : List CaseFinding := [.slaBreach, .approachingDeadline, .stuckInState]

structure CaseAssessment where
  caseId : String
  state : String
  severity : Severity
  deadlines : List DeadlineStatus
  findings : List CaseFinding
  requiresHumanReview : Bool
  deriving DecidableEq, Repr

def Case.clockStatus (c : Case) (definition : WorkflowDefinition) (asOf : DateTime)
    (holidays : Finset Date) (spec : ClockSpec) : Except ClockError DeadlineStatus :=
  deadlineFor spec (c.firstEntered spec.startState definition.initial) asOf holidays

/-- The loop of `assess` over the clocks. -/
def Case.clockStatuses (c : Case) (definition : WorkflowDefinition) (asOf : DateTime)
    (holidays : Finset Date) : List ClockSpec → Except ClockError (List DeadlineStatus)
  | [] => .ok []
  | spec :: specs => do
    let status ← c.clockStatus definition asOf holidays spec
    let statuses ← c.clockStatuses definition asOf holidays specs
    pure (status :: statuses)

/-- A non-terminal case that sits in one state past its allowed dwell time. -/
def Case.stuck (c : Case) (definition : WorkflowDefinition) (asOf : DateTime) : Bool :=
  !definition.isTerminal c.state && match definition.stuckAfterDays c.state with
    | some limit => calendarDaysBetween c.enteredCurrentAt asOf ≥ limit
    | none => false

/-- What the loop over the clocks and the dwell check have found. -/
def Case.found (c : Case) (definition : WorkflowDefinition) (asOf : DateTime)
    (deadlines : List DeadlineStatus) : CaseFinding → Bool
  | .slaBreach => deadlines.any (fun status => status.breached)
  | .approachingDeadline => deadlines.any (fun status => !status.breached && status.approaching)
  | .stuckInState => c.stuck definition asOf
  | .illegalTransition => false

def assess (c : Case) (definition : WorkflowDefinition) (asOf : DateTime)
    (holidays : Finset Date) : Except ClockError CaseAssessment := do
  let deadlines ← c.clockStatuses definition asOf holidays definition.clocks
  let findings := findingOrder.filter (c.found definition asOf deadlines)
  pure {
    caseId := c.caseId
    state := c.state
    severity := c.severity
    deadlines
    findings
    requiresHumanReview := findings.any (· ∈ definition.escalateOn) }

section
variable {c : Case} {definition : WorkflowDefinition} {asOf : DateTime} {holidays : Finset Date}

/-- The loop returns one status for each clock, in order, or raises. -/
theorem clockStatuses_ok_iff {specs : List ClockSpec} {statuses : List DeadlineStatus} :
    c.clockStatuses definition asOf holidays specs = .ok statuses ↔
      List.Forall₂ (fun spec status => c.clockStatus definition asOf holidays spec = .ok status)
        specs statuses := by
  induction specs generalizing statuses with
  | nil =>
    cases statuses with
    | nil => simp [Case.clockStatuses]
    | cons s ss => simp [Case.clockStatuses]
  | cons spec specs ih =>
    simp only [Case.clockStatuses]
    cases hs : c.clockStatus definition asOf holidays spec with
    | error e =>
      cases statuses with
      | nil => simp [bind, Except.bind]
      | cons s ss => simp [bind, Except.bind, hs]
    | ok status =>
      cases hss : c.clockStatuses definition asOf holidays specs with
      | error e =>
        have hne : ∀ ss, ¬ List.Forall₂ (fun spec status =>
            c.clockStatus definition asOf holidays spec = .ok status) specs ss := by
          intro ss hss'
          have hok := ih.mpr hss'
          rw [hss] at hok
          cases hok
        cases statuses with
        | nil => simp [bind, Except.bind]
        | cons s ss => simp [bind, Except.bind, hne]
      | ok tail =>
        cases statuses with
        | nil => simp [bind, Except.bind, pure, Except.pure]
        | cons s ss => simp [bind, Except.bind, pure, Except.pure, hs, ← ih, hss]

theorem assess_ok_iff {a : CaseAssessment} :
    assess c definition asOf holidays = .ok a ↔
      ∃ deadlines, c.clockStatuses definition asOf holidays definition.clocks = .ok deadlines ∧
        a = {
          caseId := c.caseId
          state := c.state
          severity := c.severity
          deadlines
          findings := findingOrder.filter (c.found definition asOf deadlines)
          requiresHumanReview := (findingOrder.filter (c.found definition asOf deadlines)).any
            (· ∈ definition.escalateOn) } := by
  simp only [assess]
  cases c.clockStatuses definition asOf holidays definition.clocks with
  | error e => simp [bind, Except.bind]
  | ok deadlines => simp [bind, Except.bind, pure, Except.pure, eq_comm]

theorem escalates_iff {deadlines : List DeadlineStatus} :
    (findingOrder.filter (c.found definition asOf deadlines)).any (· ∈ definition.escalateOn) =
        true ↔
      ∃ f, c.found definition asOf deadlines f = true ∧ f ∈ definition.escalateOn := by
  simp only [List.any_eq_true, List.mem_filter, decide_eq_true_eq]
  constructor
  · rintro ⟨f, ⟨-, hf⟩, he⟩
    exact ⟨f, hf, he⟩
  · rintro ⟨f, hf, he⟩
    refine ⟨f, ⟨?_, hf⟩, he⟩
    cases f with
    | illegalTransition => simp [Case.found] at hf
    | _ => simp [findingOrder]

end

def Case.started (c : Case) (definition : WorkflowDefinition) (spec : ClockSpec) : Bool :=
  (c.firstEntered spec.startState definition.initial).isSome

/-- When a started clock is due, if it has a due date. -/
def Case.dueAt (c : Case) (definition : WorkflowDefinition) (holidays : Finset Date)
    (spec : ClockSpec) : Option DateTime :=
  (c.firstEntered spec.startState definition.initial).bind
    (fun anchor => (spec.dueFrom anchor holidays).toOption)

def Case.Overdue (c : Case) (definition : WorkflowDefinition) (asOf : DateTime)
    (holidays : Finset Date) (spec : ClockSpec) : Prop :=
  ∃ due ∈ c.dueAt definition holidays spec, due < asOf

instance (c : Case) (definition : WorkflowDefinition) (asOf : DateTime) (holidays : Finset Date)
    (spec : ClockSpec) : Decidable (c.Overdue definition asOf holidays spec) := by
  unfold Case.Overdue
  infer_instance

/-- The clock has started, and nothing in its status raises. -/
def Case.HasDue (c : Case) (definition : WorkflowDefinition) (holidays : Finset Date)
    (spec : ClockSpec) : Prop :=
  (c.dueAt definition holidays spec).isSome = true

instance (c : Case) (definition : WorkflowDefinition) (holidays : Finset Date) (spec : ClockSpec) :
    Decidable (c.HasDue definition holidays spec) := by
  unfold Case.HasDue
  infer_instance

/-- Every started clock has a due date. -/
def Case.Assessable (c : Case) (definition : WorkflowDefinition) (holidays : Finset Date) : Prop :=
  ∀ spec ∈ definition.clocks, c.started definition spec = true → c.HasDue definition holidays spec

instance (c : Case) (definition : WorkflowDefinition) (holidays : Finset Date) :
    Decidable (c.Assessable definition holidays) := by
  unfold Case.Assessable
  infer_instance

/-- The assessment succeeds and reports the clock breached. -/
def ReportsBreached (result : Except ClockError CaseAssessment) (clock : String) : Prop :=
  ∃ assessment, result = .ok assessment ∧
    ∃ status ∈ assessment.deadlines, status.clock = clock ∧ status.breached = true

section
variable {c : Case} {definition : WorkflowDefinition} {asOf : DateTime} {holidays : Finset Date}
variable {spec : ClockSpec} {specs : List ClockSpec}

theorem dueAt_eq_some {due : DateTime} : c.dueAt definition holidays spec = some due ↔
    ∃ anchor, c.firstEntered spec.startState definition.initial = some anchor ∧
      spec.dueFrom anchor holidays = .ok due := by
  simp only [Case.dueAt]
  rw [Option.bind_eq_some_iff]
  apply exists_congr
  intro anchor
  cases spec.dueFrom anchor holidays <;> simp [Except.toOption]

theorem hasDue_iff : c.HasDue definition holidays spec ↔
    ∃ anchor, c.firstEntered spec.startState definition.initial = some anchor ∧
      spec.HasDue anchor holidays := by
  rw [Case.HasDue, Option.isSome_iff_exists]
  simp only [dueAt_eq_some, ClockSpec.HasDue]
  exact exists_comm.trans (exists_congr (fun _ => exists_and_left))

theorem Case.not_assessable_iff : ¬ c.Assessable definition holidays ↔
    ∃ spec ∈ definition.clocks, ∃ anchor,
      c.firstEntered spec.startState definition.initial = some anchor ∧
        ¬ spec.HasDue anchor holidays := by
  simp only [Case.Assessable, not_forall, exists_prop, hasDue_iff, Case.started]
  refine exists_congr (fun spec => and_congr_right (fun _ => ?_))
  cases c.firstEntered spec.startState definition.initial <;> simp

theorem overdue_iff : c.Overdue definition asOf holidays spec ↔
    ∃ anchor due, c.firstEntered spec.startState definition.initial = some anchor ∧
      spec.dueFrom anchor holidays = .ok due ∧ due < asOf := by
  constructor
  · rintro ⟨due, hdue, hlt⟩
    obtain ⟨anchor, hanchor, hfrom⟩ := dueAt_eq_some.mp hdue
    exact ⟨anchor, due, hanchor, hfrom, hlt⟩
  · rintro ⟨anchor, due, hanchor, hfrom, hlt⟩
    exact ⟨due, dueAt_eq_some.mpr ⟨anchor, hanchor, hfrom⟩, hlt⟩

theorem clockStatus_breached_iff {status : DeadlineStatus}
    (h : c.clockStatus definition asOf holidays spec = .ok status) :
    status.clock = spec.name ∧
      (status.breached = true ↔ c.Overdue definition asOf holidays spec) := by
  simp only [Case.clockStatus] at h
  rw [overdue_iff]
  cases hanchor : c.firstEntered spec.startState definition.initial with
  | none =>
    rw [hanchor] at h
    cases h
    simp
  | some anchor =>
    rw [hanchor] at h
    cases hfrom : spec.dueFrom anchor holidays with
    | error e =>
      rw [deadlineFor_of_error hfrom] at h
      cases h
    | ok due =>
      rw [deadlineFor_of_due hfrom] at h
      cases h
      simp [hfrom]

theorem clockStatus_returns_iff :
    (∃ status, c.clockStatus definition asOf holidays spec = .ok status) ↔
      (c.started definition spec = true → c.HasDue definition holidays spec) := by
  simp only [Case.clockStatus, Case.started, hasDue_iff]
  cases c.firstEntered spec.startState definition.initial with
  | none => simp [deadlineFor]
  | some anchor =>
    simp only [Option.isSome_some, Option.some.injEq, exists_eq_left', true_imp_iff,
      ClockSpec.HasDue]
    cases hfrom : spec.dueFrom anchor holidays with
    | error e => simp [deadlineFor_of_error hfrom]
    | ok due => simp [deadlineFor_of_due hfrom]

theorem clockStatuses_returns_iff :
    (∃ statuses, c.clockStatuses definition asOf holidays specs = .ok statuses) ↔
      ∀ spec ∈ specs, ∃ status, c.clockStatus definition asOf holidays spec = .ok status := by
  simp only [clockStatuses_ok_iff]
  induction specs with
  | nil => simp
  | cons spec specs ih =>
    rw [List.forall_mem_cons, ← ih]
    constructor
    · rintro ⟨_, hall⟩
      cases hall with
      | cons hone hrest => exact ⟨⟨_, hone⟩, _, hrest⟩
    · rintro ⟨⟨status, hone⟩, statuses, hrest⟩
      exact ⟨status :: statuses, .cons hone hrest⟩

/-- An assessment succeeds unless a clock has started that has no due date. -/
theorem assess_returns_iff :
    (∃ a, assess c definition asOf holidays = .ok a) ↔ c.Assessable definition holidays := by
  have hloop : (∃ a, assess c definition asOf holidays = .ok a) ↔
      ∃ statuses, c.clockStatuses definition asOf holidays definition.clocks = .ok statuses := by
    simp only [assess_ok_iff]
    constructor
    · rintro ⟨a, deadlines, h, -⟩
      exact ⟨deadlines, h⟩
    · rintro ⟨deadlines, h⟩
      exact ⟨_, deadlines, h, rfl⟩
  rw [hloop, clockStatuses_returns_iff]
  exact forall₂_congr (fun spec _ => clockStatus_returns_iff)

theorem assess_status {a : CaseAssessment} (ha : assess c definition asOf holidays = .ok a) {i : ℕ}
    (hi : definition.clocks[i]? = some spec) :
    ∃ status, a.deadlines[i]? = some status ∧
      c.clockStatus definition asOf holidays spec = .ok status := by
  obtain ⟨deadlines, hloop, rfl⟩ := assess_ok_iff.mp ha
  obtain ⟨hlength, hall⟩ := List.forall₂_iff_get.mp (clockStatuses_ok_iff.mp hloop)
  obtain ⟨hlt, rfl⟩ := List.getElem?_eq_some_iff.mp hi
  exact ⟨_, List.getElem?_eq_getElem (hlength ▸ hlt), hall i hlt (hlength ▸ hlt)⟩

theorem assess_clock {a : CaseAssessment} (ha : assess c definition asOf holidays = .ok a)
    {status : DeadlineStatus} (hstatus : status ∈ a.deadlines) :
    ∃ spec ∈ definition.clocks, c.clockStatus definition asOf holidays spec = .ok status := by
  obtain ⟨deadlines, hloop, rfl⟩ := assess_ok_iff.mp ha
  obtain ⟨hlength, hall⟩ := List.forall₂_iff_get.mp (clockStatuses_ok_iff.mp hloop)
  obtain ⟨i, hlt, rfl⟩ := List.getElem_of_mem hstatus
  exact ⟨_, List.getElem_mem (hlength ▸ hlt), hall i (hlength ▸ hlt) hlt⟩

theorem reportsBreached_iff {clock : String} :
    ReportsBreached (assess c definition asOf holidays) clock ↔ c.Assessable definition holidays ∧
      ∃ spec ∈ definition.clocks, spec.name = clock ∧ c.Overdue definition asOf holidays spec := by
  constructor
  · rintro ⟨a, ha, status, hstatus, hclock, hbreached⟩
    obtain ⟨spec, hspec, hone⟩ := assess_clock ha hstatus
    obtain ⟨hname, hoverdue⟩ := clockStatus_breached_iff hone
    exact ⟨assess_returns_iff.mp ⟨a, ha⟩, spec, hspec, hname.symm.trans hclock,
      hoverdue.mp hbreached⟩
  · rintro ⟨hassessable, spec, hspec, hclock, hoverdue⟩
    obtain ⟨a, ha⟩ := assess_returns_iff.mpr hassessable
    obtain ⟨i, hi⟩ := List.getElem?_of_mem hspec
    obtain ⟨status, hstatus, hone⟩ := assess_status ha hi
    obtain ⟨hname, hiff⟩ := clockStatus_breached_iff hone
    exact ⟨a, ha, status, List.mem_of_getElem? hstatus, hname.trans hclock, hiff.mpr hoverdue⟩

end
end ReviewConsole

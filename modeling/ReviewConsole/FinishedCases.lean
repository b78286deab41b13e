import ReviewConsole.CaseTrails

/-!
# Evaluating a finished case

A terminal state cancels the timers of a case, but the assessment computes every clock of
the definition again from the history, whatever the state. A clock that the case has met is
reported breached once its due date has passed, and the engine escalates on it.
-/
namespace ReviewConsole
open GuardedRuns

/-- The case is stored and in a terminal state of its workflow. -/
structure Finished (svc : CaseWorkflowService) (w : World) (c : Case) (d : WorkflowDefinition) :
    Prop where
  stored : w.getCase c.tenant c.caseId = some c
  definition : svc.definitions.definition c.caseType = some d
  terminal : d.isTerminal c.state = true
  entered : c.enteredCurrentAt ≤ DateTime.max

/-- The clock's due date had not passed when the case entered its state. -/
def Case.InTime (c : Case) (d : WorkflowDefinition) (holidays : Finset Date) (spec : ClockSpec) :
    Prop :=
  ¬ c.Overdue d c.enteredCurrentAt holidays spec

instance (c : Case) (d : WorkflowDefinition) (holidays : Finset Date) (spec : ClockSpec) :
    Decidable (c.InTime d holidays spec) := by
  unfold Case.InTime
  infer_instance

/-- The assessment succeeds and reports the `i`-th clock as not breached. -/
def ReportsNotBreached (result : Except ClockError CaseAssessment) (i : ℕ) : Prop :=
  ∃ assessment status, result = .ok assessment ∧ assessment.deadlines[i]? = some status ∧
    status.breached = false

def World.signOffs (w : World) : List SignOffEvent :=
  w.log.filterMap (fun
    | .signOff e => some e
    | .caseAction _ => none)

/-- A call that has published no event and submitted no review. -/
structure Silent (w w' : World) : Prop where
  published : w'.published = w.published
  reviews : w'.reviews = w.reviews
  signOffs : w'.signOffs = w.signOffs

section
variable {svc : CaseWorkflowService} {w : World} {c : Case} {d : WorkflowDefinition}
variable {asOf : DateTime} {holidays : Finset Date} {spec : ClockSpec}

theorem reportsNotBreached_iff {i : ℕ} (hi : d.clocks[i]? = some spec) :
    ReportsNotBreached (assess c d asOf holidays) i ↔
      c.Assessable d holidays ∧ ¬ c.Overdue d asOf holidays spec := by
  constructor
  · rintro ⟨a, status, ha, hstatus, hbreached⟩
    obtain ⟨status', hstatus', hone⟩ := assess_status ha hi
    cases hstatus.symm.trans hstatus'
    refine ⟨assess_returns_iff.mp ⟨a, ha⟩, ?_⟩
    intro hoverdue
    rw [(clockStatus_breached_iff hone).2.mpr hoverdue] at hbreached
    cases hbreached
  · rintro ⟨hassessable, hnot⟩
    obtain ⟨a, ha⟩ := assess_returns_iff.mpr hassessable
    obtain ⟨status, hstatus, hone⟩ := assess_status ha hi
    refine ⟨a, status, ha, hstatus, ?_⟩
    rw [← Bool.not_eq_true]
    exact fun hbreached => hnot ((clockStatus_breached_iff hone).2.mp hbreached)

/-- In a terminal state only breached clocks and approaching deadlines are found. -/
theorem requiresHumanReview_iff (hterminal : d.isTerminal c.state = true) {a : CaseAssessment}
    (ha : assess c d asOf holidays = .ok a) (hwarn : .approachingDeadline ∉ a.findings) :
    a.requiresHumanReview = true ↔
      .slaBreach ∈ d.escalateOn ∧ ∃ spec ∈ d.clocks, c.Overdue d asOf holidays spec := by
  obtain ⟨deadlines, hloop, ha'⟩ := assess_ok_iff.mp ha
  rw [ha'] at hwarn ⊢
  rw [escalates_iff]
  constructor
  · rintro ⟨f, hf, he⟩
    cases f with
    | slaBreach =>
      obtain ⟨status, hstatus, hbreached⟩ := List.any_eq_true.mp hf
      obtain ⟨spec, hspec, hone⟩ := assess_clock ha (by rw [ha']; exact hstatus)
      exact ⟨he, spec, hspec, (clockStatus_breached_iff hone).2.mp hbreached⟩
    | approachingDeadline =>
      exact absurd (List.mem_filter.mpr ⟨by simp [findingOrder], hf⟩) hwarn
    | stuckInState => simp [Case.found, Case.stuck, hterminal] at hf
    | illegalTransition => cases hf
  · rintro ⟨he, spec, hspec, hoverdue⟩
    obtain ⟨i, hi⟩ := List.getElem?_of_mem hspec
    obtain ⟨status, hstatus, hone⟩ := assess_status ha hi
    rw [ha'] at hstatus
    refine ⟨.slaBreach, ?_, he⟩
    exact List.any_eq_true.mpr ⟨status, List.mem_of_getElem? hstatus,
      (clockStatus_breached_iff hone).2.mpr hoverdue⟩

end

section
variable {svc : CaseWorkflowService} {w : World} {c : Case} {d : WorkflowDefinition}

theorem silent_iff {a : EvaluateArgs} {routing : Routing} {readings : Readings} :
    Silent w (serveCase svc w ⟨.evaluateCase a routing, readings⟩) ↔
      (escalates svc w a readings = true → svc.events = false ∧ svc.reviewRouter = none) := by
  have heffect := caseEffect svc w ⟨.evaluateCase a routing, readings⟩
  simp only [serveCase]
  cases heffect with
  | untouched hidle hresponse hworld =>
    rw [hworld, escalates_of_idle hidle]
    exact ⟨by simp, fun _ => ⟨rfl, rfl, rfl⟩⟩
  | evaluated a' routing' c d assessment reviews submitted hcall hget hdefinition hassess hrouted
      hresponse hworld =>
    cases hcall
    rw [hworld, escalates_of_assessed hget hdefinition hassess]
    rcases routed_cases hrouted with ⟨hquiet, rfl, rfl⟩ | ⟨console, hreview, hrouter, hput, rfl⟩
    · have hsame : Silent w { w with
            published := if assessment.requiresHumanReview ∧ svc.events then
              w.published ++ [CaseWorkflowService.lifecycleEvent "case.escalated" c]
            else w.published
            log := w.log ++
              [.caseAction (svc.evaluationEvent a c assessment readings.timestamp)] } ↔
          ¬ (assessment.requiresHumanReview = true ∧ svc.events = true) := by
        constructor
        · intro h hboth
          have hpublished := h.published
          simp [hboth] at hpublished
        · intro hnot
          exact ⟨if_neg hnot, rfl, by simp [World.signOffs]⟩
      rw [hsame, not_and, Bool.not_eq_true]
      refine forall_congr' (fun hreview => ⟨fun hevents => ⟨hevents, ?_⟩, And.left⟩)
      exact hquiet.resolve_left (by simp [hreview])
    · rw [hrouter]
      constructor
      · intro h
        have hlog := h.signOffs
        simp [World.signOffs] at hlog
      · intro h
        cases (h hreview).2
  | opened a' d c timers hcall => cases hcall
  | openedPartly a' d c timers e hcall => cases hcall
  | refused a' c d hcall => cases hcall
  | moved a' c moved d hcall => cases hcall

end

/-- No finding but a breach applies in a terminal state: no deadline approaches. -/
def NoWarning (c : Case) (d : WorkflowDefinition) (asOf : DateTime) (holidays : Finset Date) :
    Prop :=
  ∀ assessment, assess c d asOf holidays = .ok assessment →
    .approachingDeadline ∉ assessment.findings

/-- From the entry into its terminal state on, no clock that the case has met is reported
breached, and an evaluation that has nothing else to report is silent. -/
structure NeverBreachesAgain (svc : CaseWorkflowService) (w : World) (c : Case)
    (d : WorkflowDefinition) : Prop where
  reports : ∀ (i : ℕ) spec, d.clocks[i]? = some spec → c.InTime d svc.holidays spec →
    ∀ asOf, c.enteredCurrentAt ≤ asOf → asOf ≤ DateTime.max →
      ReportsNotBreached (assess c d asOf svc.holidays) i
  silent : ∀ (r : CaseRequest) a routing, r.call = .evaluateCase a routing →
    (a.tenant, a.caseId) = c.key → c.enteredCurrentAt ≤ a.asOf.getD r.readings.now →
    a.asOf.getD r.readings.now ≤ DateTime.max → (∀ spec ∈ d.clocks, c.InTime d svc.holidays spec) →
    NoWarning c d (a.asOf.getD r.readings.now) svc.holidays → Silent w (serveCase svc w r)

section
variable {svc : CaseWorkflowService} {w : World} {c : Case} {d : WorkflowDefinition}

/-- With nothing else to report, an evaluation of a finished case escalates exactly when the
assessment succeeds and a clock is overdue on which the workflow escalates. -/
theorem finished_escalates_iff (h : Finished svc w c d) {a : EvaluateArgs} {readings : Readings}
    (hkey : (a.tenant, a.caseId) = c.key)
    (hwarn : NoWarning c d (a.asOf.getD readings.now) svc.holidays) :
    escalates svc w a readings = true ↔ c.Assessable d svc.holidays ∧ .slaBreach ∈ d.escalateOn ∧
      ∃ spec ∈ d.clocks, c.Overdue d (a.asOf.getD readings.now) svc.holidays spec := by
  obtain ⟨htenant, hid⟩ := Prod.mk.inj hkey
  have hget : w.getCase a.tenant a.caseId = some c := by
    rw [htenant, hid]
    exact h.stored
  cases hassess : assess c d (a.asOf.getD readings.now) svc.holidays with
  | error e =>
    have hno : escalates svc w a readings = false := by
      simp only [escalates, hget, h.definition, hassess]
    have hunassessable : ¬ c.Assessable d svc.holidays := by
      intro hassessable
      obtain ⟨assessment, hok⟩ := assess_returns_iff.mpr hassessable
      cases hassess.symm.trans hok
    simp [hno, hunassessable]
  | ok assessment =>
    rw [escalates_of_assessed hget h.definition hassess,
      requiresHumanReview_iff h.terminal hassess (hwarn assessment hassess)]
    exact (and_iff_right (assess_returns_iff.mp ⟨assessment, hassess⟩)).symm

/-- It is silent exactly when it fails, when nothing would come of a breach, or when no clock
is overdue. -/
theorem finished_silent_iff (h : Finished svc w c d) {r : CaseRequest} {a : EvaluateArgs}
    {routing : Routing} (hcall : r.call = .evaluateCase a routing)
    (hkey : (a.tenant, a.caseId) = c.key)
    (hwarn : NoWarning c d (a.asOf.getD r.readings.now) svc.holidays) :
    Silent w (serveCase svc w r) ↔ ¬ c.Assessable d svc.holidays ∨ .slaBreach ∉ d.escalateOn ∨
      (∀ spec ∈ d.clocks, ¬ c.Overdue d (a.asOf.getD r.readings.now) svc.holidays spec) ∨
      (svc.events = false ∧ svc.reviewRouter = none) := by
  obtain ⟨call, readings⟩ := r
  cases hcall
  rw [silent_iff, finished_escalates_iff h hkey hwarn]
  simp only [imp_iff_not_or, not_and_or, not_exists, or_assoc]

/-- A case never breaches again exactly when no clock that it has met has a due date with an
instant after it: the assessment computes each clock from the history alone. -/
theorem neverBreachesAgain_iff (h : Finished svc w c d) :
    NeverBreachesAgain svc w c d ↔ ∀ spec ∈ d.clocks, c.InTime d svc.holidays spec →
      c.Assessable d svc.holidays ∧ ∀ due ∈ c.dueAt d svc.holidays spec, due = DateTime.max := by
  constructor
  · intro hnever spec hspec hintime
    obtain ⟨i, hi⟩ := List.getElem?_of_mem hspec
    have hreports := hnever.reports i spec hi hintime
    refine ⟨((reportsNotBreached_iff hi).mp (hreports _ le_rfl h.entered)).1, ?_⟩
    intro due hdue
    obtain ⟨anchor, -, hfrom⟩ := dueAt_eq_some.mp hdue
    by_contra hne
    -- An assessment at the last instant finds the clock overdue.
    have hlt : due < DateTime.max := lt_of_le_of_ne (dueFrom_le_max hfrom) hne
    exact ((reportsNotBreached_iff hi).mp (hreports _ h.entered le_rfl)).2 ⟨due, hdue, hlt⟩
  · intro hnone
    have hnot (spec : ClockSpec) (asOf : DateTime) (hlast : asOf ≤ DateTime.max)
        (hdue : ∀ due ∈ c.dueAt d svc.holidays spec, due = DateTime.max) :
        ¬ c.Overdue d asOf svc.holidays spec := by
      rintro ⟨due, hmem, hlt⟩
      rw [hdue due hmem] at hlt
      exact hlt.not_ge hlast
    constructor
    · intro i spec hi hintime asOf _ hlast
      obtain ⟨hassessable, hdue⟩ := hnone spec (List.mem_of_getElem? hi) hintime
      exact (reportsNotBreached_iff hi).mpr ⟨hassessable, hnot spec asOf hlast hdue⟩
    · intro r a routing hcall hkey _ hlast hintime hwarn
      refine (finished_silent_iff h hcall hkey hwarn).mpr (Or.inr (Or.inr (Or.inl ?_)))
      intro spec hspec
      exact hnot spec _ hlast (hnone spec hspec (hintime spec hspec)).2

end

/-- A clock that the case has met is reported not breached at every later instant only if it
never started, or is due at the last one; at one instant, exactly until its due date. An evaluation
with nothing else to report then escalates the case. Neither depends on the state of the case. -/
theorem never_breaches_again_iff (svc : CaseWorkflowService) (w : World) (c : Case)
    (d : WorkflowDefinition) (h : Finished svc w c d) :
    (NeverBreachesAgain svc w c d ↔ ∀ spec ∈ d.clocks, c.InTime d svc.holidays spec →
      c.Assessable d svc.holidays ∧ ∀ due ∈ c.dueAt d svc.holidays spec, due = DateTime.max) ∧
    (∀ (i : ℕ) spec, d.clocks[i]? = some spec → c.InTime d svc.holidays spec →
      ∀ asOf, c.enteredCurrentAt ≤ asOf → (ReportsNotBreached (assess c d asOf svc.holidays) i ↔
        c.Assessable d svc.holidays ∧ ¬ c.Overdue d asOf svc.holidays spec)) ∧
    ∀ (r : CaseRequest) a routing, r.call = .evaluateCase a routing →
      (a.tenant, a.caseId) = c.key → c.enteredCurrentAt ≤ a.asOf.getD r.readings.now →
      (∀ spec ∈ d.clocks, c.InTime d svc.holidays spec) →
      NoWarning c d (a.asOf.getD r.readings.now) svc.holidays →
      (Silent w (serveCase svc w r) ↔ ¬ c.Assessable d svc.holidays ∨ .slaBreach ∉ d.escalateOn ∨
        (∀ spec ∈ d.clocks, ¬ c.Overdue d (a.asOf.getD r.readings.now) svc.holidays spec) ∨
        (svc.events = false ∧ svc.reviewRouter = none)) :=
  ⟨neverBreachesAgain_iff h, fun _ _ hi _ _ _ => reportsNotBreached_iff hi,
    fun _ _ _ hcall hkey _ _ hwarn => finished_silent_iff h hcall hkey hwarn⟩

def Demo.resolvedCase : Case where
  caseId := "case-1"
  tenant := "demo-bank"
  caseType := "complaint"
  state := "resolved"
  severity := .medium
  openedAt := noon
  history := [⟨1, "received", "under_review", "demo.agent", "ok", noon⟩,
    ⟨2, "under_review", "resolved", "demo.agent", "ok", noon⟩]

/-- Its clocks started when it was opened. -/
theorem demo_breaches_again :
    ¬ NeverBreachesAgain Demo.complaints (engineAfter Demo.complaints Demo.resolved)
      Demo.resolvedCase Demo.complaint := by
  intro hnever
  have hnone := (never_breaches_again_iff Demo.complaints
    (engineAfter Demo.complaints Demo.resolved)
    Demo.resolvedCase Demo.complaint ⟨rfl, rfl, by decide, by decide⟩).1.mp hnever
  revert hnone
  decide

/-- Thirty days after it was resolved the complaint is reported breached. -/
theorem met_clock_breaches : ¬ ∀ (svc : CaseWorkflowService) (rs : List CaseRequest),
    Along (serveCase svc) FreshCase World.empty rs → ∀ c d,
    Finished svc (engineAfter svc rs) c d → NeverBreachesAgain svc (engineAfter svc rs) c d := by
  intro h
  have hnever := h Demo.complaints Demo.resolved (by decide) Demo.resolvedCase Demo.complaint
    ⟨rfl, rfl, by decide, by decide⟩
  have hreports := hnever.reports 0 _ rfl (by decide) (Demo.noon.addDays 30) (by decide) (by decide)
  have hoverdue := ((reportsNotBreached_iff rfl).mp hreports).2
  revert hoverdue
  decide

end ReviewConsole

import ReviewConsole.ConsoleService

/-!
# The case workflow service

Open a case, transition it, evaluate its clocks and escalate. Like the console, each method
is the program of port operations it performs. An escalation submits a review to the console
in process, over the same review store.
-/
namespace ReviewConsole
open PortPrograms

/-- The consumer's workflow definitions, keyed by case type. -/
structure WorkflowRegistry where
  definition : String → Option WorkflowDefinition
  keyed : ∀ caseType d, definition caseType = some d → d.caseType = caseType

/-- The registry of one workflow. -/
def WorkflowRegistry.single (d : WorkflowDefinition) : WorkflowRegistry where
  definition caseType := if d.caseType = caseType then some d else none
  keyed caseType d' h := by
    split at h
    · cases h
      assumption
    · cases h

/-- The keyword arguments of `open_case`. -/
structure OpenArgs where
  caseId : String
  tenant : String
  caseType : String
  actor : String
  severity : Severity := .medium
  attributes : List (String × String) := []
  summary : String := ""
  asOf : Option DateTime := none
  citations : List Citation := []
  deriving DecidableEq, Repr

/-- The keyword arguments of `transition_case`. -/
structure TransitionArgs where
  caseId : String
  tenant : String
  toState : String
  actor : String
  reason : String
  asOf : Option DateTime := none
  deriving DecidableEq, Repr

/-- The keyword arguments of `evaluate_case`. -/
structure EvaluateArgs where
  caseId : String
  tenant : String
  actor : String := "system"
  asOf : Option DateTime := none
  deriving DecidableEq, Repr

/-- The `uuid4` of a routed review and the readings of the console that takes it. -/
structure Routing where
  reviewId : String
  readings : Readings
  deriving DecidableEq, Repr

/-- The submission by which the in-process router hands a case to the console. -/
def ConsoleService.routedReview (console : ConsoleService) (c : Case) (assessment : CaseAssessment)
    (maker reviewId : String) : Submission :=
  let joined := ", ".intercalate (assessment.findings.map CaseFinding.value)
  let findings := if joined = "" then "escalated" else joined
  { reviewId
    maker
    tenant := c.tenant
    action := "case_review:" ++ c.caseType
    subject := console.redact
      ("Case " ++ c.caseId ++ " (" ++ c.caseType ++ ") in state " ++ c.state)
    summary := console.redact ("Escalated on: " ++ findings)
    severity := c.severity
    requiredApprovals := 1
    caseRef := c.caseId
    citations := c.citations }

/-- `InProcessReviewRouter.route`. -/
def ConsoleService.route (console : ConsoleService) (c : Case) (assessment : CaseAssessment)
    (maker : String) (r : Routing) : Service Unit := do
  let _ ← console.submit (console.routedReview c assessment maker r.reviewId) r.readings
  pure ()

/-- The service: the registry, which optional ports are bound, and the holiday set. -/
structure CaseWorkflowService where
  definitions : WorkflowRegistry
  events : Bool := true
  timers : Bool := true
  reviewRouter : Option ConsoleService := none
  holidays : Finset Date := ∅
  redact : String → String

namespace CaseWorkflowService

variable (svc : CaseWorkflowService)

def definition (caseType : String) : Service WorkflowDefinition :=
  match svc.definitions.definition caseType with
  | none => Program.raise (.unknownWorkflow caseType)
  | some d => pure d

def load (tenant caseId : String) : Service Case := do
  match ← port (.caseGet tenant caseId) with
  | none => Program.raise (.caseNotFound caseId)
  | some c => pure c

/-- The loop of `_schedule_clocks`. -/
def scheduleLoop (c : Case) (definition : WorkflowDefinition) (asOf : DateTime) :
    List ClockSpec → Service Unit
  | [] => pure ()
  | spec :: specs => do
    let anchor := c.firstEntered spec.startState definition.initial
    match deadlineFor spec anchor asOf svc.holidays with
    | .error e => Program.raise (.clock e)
    | .ok status => do
      match status.dueAt with
      | some due => port (.timerSchedule ⟨c.tenant, c.caseId, spec.name, due⟩)
      | none => pure ()
      scheduleLoop c definition asOf specs

def scheduleClocks (c : Case) (definition : WorkflowDefinition) (asOf : DateTime) : Service Unit :=
  if svc.timers then svc.scheduleLoop c definition asOf definition.clocks else pure ()

def cancelLoop (c : Case) : List ClockSpec → Service Unit
  | [] => pure ()
  | spec :: specs => do
    port (.timerCancel c.tenant c.caseId spec.name)
    cancelLoop c specs

def cancelClocks (c : Case) (definition : WorkflowDefinition) : Service Unit :=
  if svc.timers then cancelLoop c definition.clocks else pure ()

def lifecycleEvent (eventType : String) (c : Case) : PublishedEvent where
  eventType := eventType
  tenant := c.tenant
  caseId := c.caseId
  attributes := [("state", c.state), ("severity", c.severity.value)]

def emit (eventType : String) (c : Case) : Service Unit :=
  if svc.events then port (.publish (lifecycleEvent eventType c)) else pure ()

/-- The attributes in sorted order, `k=v` separated by blanks. -/
def attrBlob (c : Case) : String :=
  " ".intercalate ((c.attributes.insertionSort (fun a b =>
    a.1 < b.1 ∨ (a.1 = b.1 ∧ ¬ b.2 < a.2))).map (fun a => a.1 ++ "=" ++ a.2))

def auditEvent (c : Case) (action actor fromState toState : String) (decision : CaseDecision)
    (summary : String) (findings : List CaseFinding) (timestamp : DateTime) : CaseAuditEvent where
  action := action
  caseId := c.caseId
  tenant := c.tenant
  actor := actor
  fromState := fromState
  toState := toState
  decision := decision
  severity := c.severity
  redactedSummary := svc.redact (summary ++ " :: " ++ attrBlob c)
  findings := findings
  citations := c.citations
  timestamp := timestamp

def record (c : Case) (action actor fromState toState : String) (decision : CaseDecision)
    (summary : String) (findings : List CaseFinding) (timestamp : DateTime) : Service Unit :=
  port (.record (.caseAction
    (svc.auditEvent c action actor fromState toState decision summary findings timestamp)))

def openCase (a : OpenArgs) (r : Readings) : Service Case := do
  let definition ← svc.definition a.caseType
  let c := newCase a.caseId a.tenant definition a.severity (a.asOf.getD r.now) a.attributes
    a.citations
  port (.casePut c)
  svc.scheduleClocks c definition c.openedAt
  svc.emit "case.opened" c
  svc.record c "open" a.actor "" c.state .allowed (if a.summary = "" then a.caseType else a.summary)
    [] r.timestamp
  pure c

/-- Advance a case. An illegal edge is refused with a `REJECTED` audit event. -/
def transitionCase (a : TransitionArgs) (r : Readings) : Service Case := do
  let c ← load a.tenant a.caseId
  let definition ← svc.definition c.caseType
  match transition c a.toState a.actor a.reason (a.asOf.getD r.now) definition with
  | .error e => do
    svc.record c "transition" a.actor c.state a.toState .rejected a.reason [] r.timestamp
    Program.raise (.illegalTransition e.fromState e.toState)
  | .ok moved => do
    port (.casePut moved)
    if definition.isTerminal moved.state then
      svc.cancelClocks moved definition
    svc.emit "case.transitioned" moved
    svc.record moved "transition" a.actor c.state moved.state .allowed a.reason [] r.timestamp
    pure moved

/-- The maker of a routed review: who moved the case last. -/
def routingMaker (c : Case) : String :=
  (c.history.getLast?.map Transition.actor).getD "case-engine@system"

def escalate (c : Case) (assessment : CaseAssessment) (routing : Routing) : Service Unit := do
  svc.emit "case.escalated" c
  match svc.reviewRouter with
  | none => pure ()
  | some console => console.route c assessment (routingMaker c) routing

def evaluateCase (a : EvaluateArgs) (r : Readings) (routing : Routing) :
    Service CaseAssessment := do
  let c ← load a.tenant a.caseId
  let definition ← svc.definition c.caseType
  match assess c definition (a.asOf.getD r.now) svc.holidays with
  | .error e => Program.raise (.clock e)
  | .ok assessment => do
    svc.record c "evaluate" a.actor c.state c.state
      (if assessment.requiresHumanReview then .escalated else .allowed) c.caseType
      assessment.findings r.timestamp
    if assessment.requiresHumanReview then
      svc.escalate c assessment routing
    pure assessment

def get (tenant caseId : String) : Service Case := load tenant caseId

def listCases (tenant : String) : Service (List Case) := port (.caseListByTenant tenant)

end CaseWorkflowService
end ReviewConsole

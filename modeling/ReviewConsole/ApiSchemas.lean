import ReviewConsole.CaseWorkflowService

/-!
# What the routes accept and return

The bodies of the requests, which name no maker, checker, tenant or actor unless a service sends
them, and the projections of the domain models into the bodies of the responses. A body that a
bound rules out cannot be built.
-/
namespace ReviewConsole

namespace Decision

def value : Decision → String
  | .allowed => "allowed" | .denied => "denied"

end Decision

def EligibilityFinding.value : EligibilityFinding → String
  | .wrongTenant => "wrong_tenant" | .selfApproval => "self_approval"
  | .segregationOfDuties => "segregation_of_duties" | .insufficientRole => "insufficient_role"
  | .duplicateApprover => "duplicate_approver"

structure CitationModel where
  sourceId : String
  title : String
  snippet : String := ""
  deriving DecidableEq, Repr

namespace CitationModel

/-- The citation a route makes of the model. -/
def citation (c : CitationModel) : Citation := ⟨c.sourceId, c.title, c.snippet⟩

def fromDomain (c : Citation) : CitationModel := ⟨c.sourceId, c.title, c.snippet⟩

@[simp] theorem fromDomain_citation (c : CitationModel) : fromDomain c.citation = c := rfl

@[simp] theorem citation_fromDomain (c : Citation) : (fromDomain c).citation = c := rfl

end CitationModel

/-- A submission: the count of approvals is from one to eight. -/
structure SubmitRequest where
  action : String
  subject : String
  summary : String := ""
  severity : Severity := .medium
  requiredApprovals : ℤ := 1
  sodGroup : String := ""
  caseRef : String := ""
  citations : List CitationModel := []
  ge : 1 ≤ requiredApprovals
  le : requiredApprovals ≤ 8
  deriving DecidableEq, Repr

/-- A submission by a service, for a maker and a tenant it names. -/
structure ServiceSubmitRequest extends SubmitRequest where
  maker : String
  tenant : String
  sourceKey : String := ""
  maxLength : sourceKey.length ≤ 255
  deriving DecidableEq, Repr

structure DecisionRequest where
  disposition : Disposition
  reason : String := ""
  amendments : List String := []
  deriving DecidableEq, Repr

structure OpenCaseRequest where
  caseType : String
  severity : Severity := .medium
  summary : String := ""
  attributes : List (String × String) := []
  deriving DecidableEq, Repr

structure TransitionRequest where
  toState : String
  reason : String := ""
  deriving DecidableEq, Repr

structure ApprovalModel where
  checker : String
  reason : String
  deriving DecidableEq, Repr

structure ReviewItemModel where
  reviewId : String
  tenant : String
  sourceKey : String
  action : String
  maker : String
  subject : String
  summary : String
  severity : String
  requiredApprovals : ℤ
  sodGroup : String
  caseRef : String
  state : String
  approvalsCount : ℕ
  approvals : List ApprovalModel
  citations : List CitationModel
  deriving DecidableEq, Repr

def ReviewItemModel.fromDomain (item : ReviewItem) : ReviewItemModel :=
  let req := item.request
  { reviewId := req.reviewId
    tenant := req.tenant
    sourceKey := req.sourceKey
    action := req.action
    maker := req.maker
    subject := req.subject
    summary := req.summary
    severity := req.severity.value
    requiredApprovals := req.requiredApprovals
    sodGroup := req.sodGroup
    caseRef := req.caseRef
    state := item.state.value
    approvalsCount := item.approvalsCount
    approvals := item.approvals.map (fun a => ⟨a.checker, a.reason⟩)
    citations := req.citations.map CitationModel.fromDomain }

structure DecisionResponse where
  decision : String
  findings : List String
  item : ReviewItemModel
  deriving DecidableEq, Repr

def DecisionResponse.fromOutcome (outcome : DispositionOutcome) : DecisionResponse where
  decision := outcome.decision.value
  findings := outcome.findings.map EligibilityFinding.value
  item := .fromDomain outcome.item

structure TransitionModel where
  seq : ℕ
  fromState : String
  toState : String
  actor : String
  reason : String
  «at» : String
  deriving DecidableEq, Repr

structure CaseModel where
  caseId : String
  tenant : String
  caseType : String
  state : String
  severity : String
  openedAt : String
  history : List TransitionModel
  attributes : List (String × String)
  legalNextStates : List String
  deriving DecidableEq, Repr

def CaseModel.fromDomain (c : Case) (definition : WorkflowDefinition) : CaseModel where
  caseId := c.caseId
  tenant := c.tenant
  caseType := c.caseType
  state := c.state
  severity := c.severity.value
  openedAt := c.openedAt.isoformat
  history := c.history.map (fun t =>
    ⟨t.seq, t.fromState, t.toState, t.actor, t.reason, t.at.isoformat⟩)
  attributes := c.attributes
  legalNextStates := ReviewConsole.legalNextStates c definition

structure DeadlineModel where
  clock : String
  kind : String
  dueAt : Option String
  remainingDays : ℤ
  breached : Bool
  approaching : Bool
  deriving DecidableEq, Repr

structure AssessmentModel where
  caseId : String
  state : String
  severity : String
  deadlines : List DeadlineModel
  findings : List String
  requiresHumanReview : Bool
  deriving DecidableEq, Repr

def AssessmentModel.fromDomain (a : CaseAssessment) : AssessmentModel where
  caseId := a.caseId
  state := a.state
  severity := a.severity.value
  deadlines := a.deadlines.map (fun d =>
    ⟨d.clock, d.kind, d.dueAt.map DateTime.isoformat, d.remainingDays, d.breached, d.approaching⟩)
  findings := a.findings.map CaseFinding.value
  requiresHumanReview := a.requiresHumanReview

structure CaseSummaryModel where
  caseId : String
  caseType : String
  state : String
  severity : String
  deriving DecidableEq, Repr

def CaseSummaryModel.fromDomain (c : Case) : CaseSummaryModel where
  caseId := c.caseId
  caseType := c.caseType
  state := c.state
  severity := c.severity.value

end ReviewConsole

import ReviewConsole.MakerCheckerEngine
import ReviewConsole.LocalPorts

/-!
# The console service

Submit an item, list a tenant's queue, dispose with sign-off. Each method is the program of
port operations it performs: the store write comes before the audit record.
-/
namespace ReviewConsole
open PortPrograms

/-- The keyword arguments of `submit` and `submit_idempotent`. -/
structure Submission where
  reviewId : String
  maker : String
  tenant : String
  action : String
  subject : String
  summary : String
  severity : Severity := .medium
  requiredApprovals : ℤ := 1
  sodGroup : String := ""
  caseRef : String := ""
  citations : List Citation := []
  sourceKey : String := ""
  deriving DecidableEq, Repr

/-- The keyword arguments of `dispose`. -/
structure DisposeArgs where
  reviewId : String
  checker : String
  checkerTenant : String
  checkerGroups : List String
  disposition : Disposition
  reason : String
  amendments : List String := []
  asOf : Option DateTime := none
  deriving DecidableEq, Repr

def DisposeArgs.decision (d : DisposeArgs) (now : DateTime) : ReviewDecision where
  checker := d.checker
  checkerTenant := d.checkerTenant
  checkerGroups := d.checkerGroups
  disposition := d.disposition
  reason := d.reason
  amendments := d.amendments
  decidedAt := d.asOf.getD now

/-- The service: its engine, and `pii_kit.redact` over the deployment's patterns. -/
structure ConsoleService where
  engine : MakerCheckerService := ⟨defaultRouting⟩
  redact : String → String

namespace ConsoleService

variable (svc : ConsoleService)

/-- Project the active routing floor into the item. -/
def withEffectiveRouting (item : ReviewItem) : ReviewItem :=
  let effectiveApprovals := svc.engine.requiredApprovals item
  if effectiveApprovals ≠ item.request.requiredApprovals then
    { item with request := { item.request with requiredApprovals := effectiveApprovals } }
  else item

def newItem (s : Submission) (now : DateTime) : ReviewItem :=
  let request : ReviewRequest := {
    reviewId := s.reviewId
    tenant := s.tenant
    action := s.action
    maker := s.maker
    subject := s.subject
    summary := s.summary
    severity := s.severity
    requiredApprovals := s.requiredApprovals
    sodGroup := s.sodGroup
    caseRef := s.caseRef
    citations := s.citations
    sourceKey := s.sourceKey
    submittedAt := now }
  svc.withEffectiveRouting { request }

def signOffEvent (item : ReviewItem) (action checker : String) (disposition : Disposition)
    (decision : Decision) (reason : String) (findings : List EligibilityFinding)
    (timestamp : DateTime) : SignOffEvent :=
  let req := item.request
  { action
    reviewId := req.reviewId
    tenant := req.tenant
    maker := req.maker
    checker
    disposition
    decision
    state := item.state
    severity := req.severity
    redactedReason := svc.redact reason
    redactedSummary := svc.redact (req.subject ++ " :: " ++ req.summary)
    findings
    citations := req.citations
    timestamp }

def record (item : ReviewItem) (action checker : String) (disposition : Disposition)
    (decision : Decision) (reason : String) (findings : List EligibilityFinding)
    (timestamp : DateTime) : Service Unit :=
  port (.record (.signOff
    (svc.signOffEvent item action checker disposition decision reason findings timestamp)))

/-- A submission is no disposition; the source records `AMEND` for it. -/
def recordSubmission (item : ReviewItem) (timestamp : DateTime) : Service Unit :=
  svc.record item "submit" "" .amend .allowed "submitted for review" [] timestamp

def submit (s : Submission) (r : Readings) : Service ReviewItem := do
  let item := svc.newItem s r.now
  port (.reviewPut item)
  svc.recordSubmission item r.timestamp
  pure item

/-- Submit a trusted producer's review once per tenant and source key. -/
def submitIdempotent (s : Submission) (r : Readings) : Service ReviewItem := do
  let item := svc.newItem s r.now
  let answer ← port (.reviewPutIfAbsentBySourceKey item)
  let persisted := svc.withEffectiveRouting answer.1
  if answer.2 then
    svc.recordSubmission persisted r.timestamp
  pure persisted

def getBySourceKey (tenant sourceKey : String) : Service (Option ReviewItem) :=
  port (.reviewFindBySourceKey tenant sourceKey)

def listQueue (tenant : String) : Service (List ReviewItem) := do
  let items ← port (.reviewListPending tenant)
  pure (items.map svc.withEffectiveRouting)

def listAll (tenant : String) : Service (List ReviewItem) := do
  let items ← port (.reviewListAll tenant)
  pure (items.map svc.withEffectiveRouting)

def get (tenant reviewId : String) : Service ReviewItem := do
  match ← port (.reviewGet tenant reviewId) with
  | none => Program.raise (.reviewNotFound reviewId)
  | some item => pure (svc.withEffectiveRouting item)

/-- Apply a checker's disposition. A cross-tenant id does not resolve. -/
def dispose (d : DisposeArgs) (r : Readings) : Service DispositionOutcome := do
  match ← port (.reviewGet d.checkerTenant d.reviewId) with
  | none => Program.raise (.reviewNotFound d.reviewId)
  | some stored =>
    let item := svc.withEffectiveRouting stored
    match svc.engine.dispose item (d.decision r.now) d.asOf with
    | .error e => Program.raise (.alreadyResolved e.message)
    | .ok outcome => do
      if outcome.allowed then
        port (.reviewPut outcome.item)
      svc.record outcome.item "dispose" d.checker d.disposition outcome.decision d.reason
        outcome.findings r.timestamp
      pure outcome

end ConsoleService
end ReviewConsole

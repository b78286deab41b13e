import ReviewConsole.DateTimes

/-!
# The review artifacts

The taxonomies of the console, the request a maker submits, the decision a checker takes,
the queue item that collects approvals, and the sign-off event the audit sink receives.
-/
namespace ReviewConsole

/-- How consequential the underlying action is. -/
inductive Severity where
  | low | medium | high | critical
  deriving DecidableEq, Repr

def Severity.value : Severity → String
  | .low => "low" | .medium => "medium" | .high => "high" | .critical => "critical"

/-- A checker's verdict. `amend` sends the item back to the maker. -/
inductive Disposition where
  | approve | reject | amend
  deriving DecidableEq, Repr

inductive ReviewState where
  | pending | approved | rejected | amended
  deriving DecidableEq, Repr

namespace ReviewState

def value : ReviewState → String
  | .pending => "pending" | .approved => "approved" | .rejected => "rejected"
  | .amended => "amended"

def isTerminal (s : ReviewState) : Bool := s ≠ .pending

@[simp] theorem isTerminal_eq_false {s : ReviewState} : s.isTerminal = false ↔ s = .pending := by
  cases s <;> simp [isTerminal]

@[simp] theorem isTerminal_eq_true {s : ReviewState} : s.isTerminal = true ↔ s ≠ .pending := by
  cases s <;> simp [isTerminal]

end ReviewState

/-- Why a checker may not dispose of an item. -/
inductive EligibilityFinding where
  | wrongTenant | selfApproval | segregationOfDuties | insufficientRole | duplicateApprover
  deriving DecidableEq, Repr

inductive Decision where
  | allowed | denied
  deriving DecidableEq, Repr

structure Citation where
  sourceId : String
  title : String
  snippet : String := ""
  deriving DecidableEq, Repr

/-- The redacted record of one submission or disposition attempt. -/
structure SignOffEvent where
  action : String
  reviewId : String
  tenant : String
  maker : String
  checker : String
  disposition : Disposition
  decision : Decision
  state : ReviewState
  severity : Severity
  redactedReason : String
  redactedSummary : String
  findings : List EligibilityFinding := []
  citations : List Citation := []
  timestamp : DateTime
  deriving DecidableEq, Repr

structure ReviewRequest where
  reviewId : String
  tenant : String
  action : String
  maker : String
  subject : String
  summary : String
  severity : Severity := .medium
  requiredApprovals : ℤ := 1
  sodGroup : String := ""
  caseRef : String := ""
  citations : List Citation := []
  sourceKey : String := ""
  submittedAt : DateTime
  deriving DecidableEq, Repr

structure ReviewDecision where
  checker : String
  checkerTenant : String
  checkerGroups : List String
  disposition : Disposition
  reason : String
  amendments : List String := []
  decidedAt : DateTime
  deriving DecidableEq, Repr

structure Approval where
  checker : String
  reason : String
  «at» : DateTime
  deriving DecidableEq, Repr

/-- The queue aggregate: a request, its state and the approvals collected so far. -/
structure ReviewItem where
  request : ReviewRequest
  state : ReviewState := .pending
  approvals : List Approval := []
  terminalReason : String := ""
  deriving DecidableEq, Repr

namespace ReviewItem

def reviewId (item : ReviewItem) : String := item.request.reviewId

def tenant (item : ReviewItem) : String := item.request.tenant

def key (item : ReviewItem) : String × String := (item.tenant, item.reviewId)

def approvalsCount (item : ReviewItem) : ℕ := item.approvals.length

def approvers (item : ReviewItem) : List String := item.approvals.map Approval.checker

def isTerminal (item : ReviewItem) : Bool := item.state.isTerminal

def withApproval (item : ReviewItem) (approval : Approval) (state : ReviewState) : ReviewItem :=
  { item with approvals := item.approvals ++ [approval], state }

def resolved (item : ReviewItem) (state : ReviewState) (reason : String) : ReviewItem :=
  { item with state, terminalReason := reason }

variable (item : ReviewItem) (approval : Approval) (s : ReviewState) (reason : String)

@[simp] theorem withApproval_request : (item.withApproval approval s).request = item.request := rfl

@[simp] theorem withApproval_state : (item.withApproval approval s).state = s := rfl

@[simp] theorem withApproval_approvals :
    (item.withApproval approval s).approvals = item.approvals ++ [approval] := rfl

@[simp] theorem withApproval_approvers :
    (item.withApproval approval s).approvers = item.approvers ++ [approval.checker] := by
  simp [approvers]

@[simp] theorem resolved_request : (item.resolved s reason).request = item.request := rfl

@[simp] theorem resolved_state : (item.resolved s reason).state = s := rfl

@[simp] theorem resolved_approvals : (item.resolved s reason).approvals = item.approvals := rfl

@[simp] theorem resolved_approvers : (item.resolved s reason).approvers = item.approvers := rfl

end ReviewItem
end ReviewConsole

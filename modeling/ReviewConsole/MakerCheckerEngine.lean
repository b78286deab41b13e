import ReviewConsole.ReviewArtifacts

/-!
# The maker-checker engine

The pure decision whether a checker may dispose of an item and what the item becomes:
four-eyes, segregation of duties, least privilege and N-eyes routing. Every eligibility
check fails closed.
-/
namespace ReviewConsole

def approverGroup : String := "group:approver"

/-- How many distinct approvals an action needs, and who may give them. -/
structure RoutingPolicy where
  minApprovalsBySeverity : Severity → Option ℤ := fun _ => none
  enforceSod : Bool := true
  approverGroup : String := approverGroup

namespace RoutingPolicy

/-- The floor the policy names for a severity, or 1. -/
def floor (policy : RoutingPolicy) (severity : Severity) : ℤ :=
  (policy.minApprovalsBySeverity severity).getD 1

def requiredApprovals (policy : RoutingPolicy) (severity : Severity) (requested : ℤ) : ℤ :=
  max (max 1 requested) (policy.floor severity)

variable (policy : RoutingPolicy) (severity : Severity) (requested : ℤ)

theorem one_le_requiredApprovals : 1 ≤ policy.requiredApprovals severity requested := by
  simp [requiredApprovals]

theorem requested_le_requiredApprovals :
    requested ≤ policy.requiredApprovals severity requested := by simp [requiredApprovals]

theorem floor_le_requiredApprovals :
    policy.floor severity ≤ policy.requiredApprovals severity requested := by
  simp [requiredApprovals]

@[simp] theorem requiredApprovals_idem :
    policy.requiredApprovals severity (policy.requiredApprovals severity requested) =
      policy.requiredApprovals severity requested := by
  simp only [requiredApprovals]
  omega

end RoutingPolicy

/-- Critical and high actions need dual control. -/
def defaultRouting : RoutingPolicy where
  minApprovalsBySeverity
    | .critical => some 2 | .high => some 2 | .medium => some 1 | .low => some 1

structure DispositionOutcome where
  item : ReviewItem
  decision : Decision
  findings : List EligibilityFinding := []
  deriving DecidableEq, Repr

def DispositionOutcome.allowed (outcome : DispositionOutcome) : Bool := outcome.decision = .allowed

@[simp] theorem DispositionOutcome.allowed_denied (item : ReviewItem)
    (findings : List EligibilityFinding) :
    (⟨item, .denied, findings⟩ : DispositionOutcome).allowed = false :=
  rfl

@[simp] theorem DispositionOutcome.allowed_allowed (item : ReviewItem)
    (findings : List EligibilityFinding) :
    (⟨item, .allowed, findings⟩ : DispositionOutcome).allowed = true :=
  rfl

/-- A disposition was attempted on an item that is already terminal. -/
structure AlreadyResolved where
  message : String
  deriving DecidableEq, Repr

/-- The pure engine over one routing policy. -/
structure MakerCheckerService where
  policy : RoutingPolicy := defaultRouting

namespace MakerCheckerService

variable (engine : MakerCheckerService)

/-- Every reason this checker may not act on this item. Empty means eligible. -/
def checkEligibility (item : ReviewItem) (checker checkerTenant : String)
    (checkerGroups : List String) : List EligibilityFinding :=
  let req := item.request
  (if checkerTenant ≠ req.tenant then [.wrongTenant] else []) ++
  (if checker = req.maker then [.selfApproval] else []) ++
  (if engine.policy.enforceSod ∧ req.sodGroup ≠ "" ∧ req.sodGroup ∈ checkerGroups then
    [.segregationOfDuties] else []) ++
  (if engine.policy.approverGroup ∉ checkerGroups then [.insufficientRole] else []) ++
  (if checker ∈ item.approvers then [.duplicateApprover] else [])

def requiredApprovals (item : ReviewItem) : ℤ :=
  engine.policy.requiredApprovals item.request.severity item.request.requiredApprovals

/-- The item a disposition of an eligible checker produces. -/
def applied (item : ReviewItem) (decision : ReviewDecision) (stamp : DateTime) : ReviewItem :=
  match decision.disposition with
  | .approve =>
    let approval : Approval := ⟨decision.checker, decision.reason, stamp⟩
    let newCount : ℤ := item.approvalsCount + 1
    let required := engine.requiredApprovals item
    item.withApproval approval (if newCount ≥ required then .approved else .pending)
  | .reject => item.resolved .rejected decision.reason
  | .amend => item.resolved .amended decision.reason

/-- Apply a checker's disposition, fail-closed. -/
def dispose (item : ReviewItem) (decision : ReviewDecision) (asOf : Option DateTime) :
    Except AlreadyResolved DispositionOutcome :=
  if item.isTerminal then
    .error ⟨"review " ++ item.reviewId ++ " is already " ++ item.state.value ++
      "; it cannot be re-disposed"⟩
  else
    let findings := engine.checkEligibility item decision.checker decision.checkerTenant
      decision.checkerGroups
    if findings ≠ [] then .ok { item, decision := .denied, findings }
    else
      let stamp := asOf.getD decision.decidedAt
      .ok { item := engine.applied item decision stamp, decision := .allowed }

variable {engine} {item : ReviewItem} {checker checkerTenant : String} {groups : List String}

/-- What an empty list of findings says about the checker. -/
structure Eligible (engine : MakerCheckerService) (item : ReviewItem)
    (checker checkerTenant : String) (groups : List String) : Prop where
  tenant : checkerTenant = item.request.tenant
  maker : checker ≠ item.request.maker
  sod : engine.policy.enforceSod = true → item.request.sodGroup ≠ "" →
    item.request.sodGroup ∉ groups
  role : engine.policy.approverGroup ∈ groups
  distinct : checker ∉ item.approvers

theorem checkEligibility_eq_nil :
    engine.checkEligibility item checker checkerTenant groups = [] ↔
      Eligible engine item checker checkerTenant groups := by
  constructor
  · intro h
    simp only [checkEligibility, List.append_eq_nil_iff, ite_eq_right_iff, reduceCtorEq,
      imp_false, not_not, not_and] at h
    obtain ⟨⟨⟨⟨h1, h2⟩, h3⟩, h4⟩, h5⟩ := h
    exact ⟨h1, h2, h3, h4, h5⟩
  · rintro ⟨h1, h2, h3, h4, h5⟩
    simp only [checkEligibility, List.append_eq_nil_iff, ite_eq_right_iff, reduceCtorEq,
      imp_false, not_not, not_and]
    exact ⟨⟨⟨⟨h1, h2⟩, h3⟩, h4⟩, h5⟩

theorem not_refused {stored : ReviewItem} (hstate : stored.state = .pending)
    (hel : Eligible engine item checker checkerTenant groups) :
    ¬ (stored.isTerminal = true ∨
      engine.checkEligibility item checker checkerTenant groups ≠ []) := by
  intro hrefused
  cases hrefused with
  | inl hterm => simp [ReviewItem.isTerminal, hstate] at hterm
  | inr hne => exact hne (checkEligibility_eq_nil.mpr hel)

theorem wrongTenant_mem_iff :
    .wrongTenant ∈ engine.checkEligibility item checker checkerTenant groups ↔
      checkerTenant ≠ item.request.tenant := by
  simp only [checkEligibility, List.mem_append]
  split_ifs <;> simp_all

@[simp] theorem applied_request (d : ReviewDecision) (stamp : DateTime) :
    (engine.applied item d stamp).request = item.request := by
  simp only [applied]
  split <;> rfl

theorem applied_key (d : ReviewDecision) (stamp : DateTime) :
    (engine.applied item d stamp).key = item.key := by
  simp [ReviewItem.key, ReviewItem.tenant, ReviewItem.reviewId]

theorem applied_approvals_grow (engine : MakerCheckerService) (item : ReviewItem)
    (d : ReviewDecision)
    (stamp : DateTime) :
    item.approvals <+: (engine.applied item d stamp).approvals := by
  simp only [applied]
  split <;> simp

/-- Every way `dispose` can end. -/
theorem dispose_cases (engine : MakerCheckerService) (item : ReviewItem) (d : ReviewDecision)
    (asOf : Option DateTime) :
    (item.state ≠ .pending ∧ ∃ e, engine.dispose item d asOf = .error e) ∨
    (item.state = .pending ∧ ∃ findings, findings ≠ [] ∧
      findings = engine.checkEligibility item d.checker d.checkerTenant d.checkerGroups ∧
      engine.dispose item d asOf = .ok ⟨item, .denied, findings⟩) ∨
    (item.state = .pending ∧ Eligible engine item d.checker d.checkerTenant d.checkerGroups ∧
      engine.dispose item d asOf =
        .ok ⟨engine.applied item d (asOf.getD d.decidedAt), .allowed, []⟩) := by
  by_cases hs : item.state = .pending
  · right
    have hterm : item.isTerminal = false := by simpa [ReviewItem.isTerminal] using hs
    by_cases hf : engine.checkEligibility item d.checker d.checkerTenant d.checkerGroups = []
    · right
      refine ⟨hs, checkEligibility_eq_nil.mp hf, ?_⟩
      simp only [dispose]
      simp only [hterm, hf]
      rfl
    · left
      refine ⟨hs, _, hf, rfl, ?_⟩
      simp [dispose, hterm, hf]
  · left
    have hterm : item.isTerminal = true := by simpa [ReviewItem.isTerminal] using hs
    exact ⟨hs, by simp [dispose, hterm]⟩

end MakerCheckerService
end ReviewConsole

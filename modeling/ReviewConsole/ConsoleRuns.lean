import ReviewConsole.ConsoleService
import ReviewConsole.GuardedRuns

/-!
# Runs of the console

A request is one method call on a service instance; instances may differ in their policy
from one call to the next. The inversion theorem says once what a call can do to the world
when its audit record may fail, and every later invariant is read off it.
-/
namespace ReviewConsole
open PortPrograms GuardedRuns KeyedTables

inductive ConsoleCall where
  | submit (s : Submission)
  | submitIdempotent (s : Submission)
  | dispose (d : DisposeArgs)
  | getBySourceKey (tenant sourceKey : String)
  | listQueue (tenant : String)
  | listAll (tenant : String)
  | get (tenant reviewId : String)

inductive ConsoleResponse where
  | item (item : ReviewItem)
  | outcome (outcome : DispositionOutcome)
  | found (item : Option ReviewItem)
  | items (items : List ReviewItem)
  deriving DecidableEq, Repr

structure ConsoleRequest where
  service : ConsoleService
  call : ConsoleCall
  readings : Readings

namespace ConsoleRequest

def program (r : ConsoleRequest) : Service ConsoleResponse :=
  match r.call with
  | .submit s => do
    let item ← r.service.submit s r.readings
    pure (.item item)
  | .submitIdempotent s => do
    let item ← r.service.submitIdempotent s r.readings
    pure (.item item)
  | .dispose d => do
    let outcome ← r.service.dispose d r.readings
    pure (.outcome outcome)
  | .getBySourceKey tenant sourceKey => do
    let item ← ConsoleService.getBySourceKey tenant sourceKey
    pure (.found item)
  | .listQueue tenant => do
    let items ← r.service.listQueue tenant
    pure (.items items)
  | .listAll tenant => do
    let items ← r.service.listAll tenant
    pure (.items items)
  | .get tenant reviewId => do
    let item ← r.service.get tenant reviewId
    pure (.item item)

end ConsoleRequest

/-- The response of a request and the world after it, when no port fails. -/
def answer (w : World) (r : ConsoleRequest) : Except ServiceError ConsoleResponse × World :=
  r.program.exec localPorts w

def serve (w : World) (r : ConsoleRequest) : World := (answer w r).2

def consoleAfter (rs : List ConsoleRequest) : World := run serve World.empty rs

@[simp] theorem consoleAfter_snoc (rs : List ConsoleRequest) (r : ConsoleRequest) :
    consoleAfter (rs ++ [r]) = serve (consoleAfter rs) r := run_snoc _ _ _ _

/-- A submission uses a review id its tenant has not used. -/
def Fresh (w : World) (r : ConsoleRequest) : Prop :=
  match r.call with
  | .submit s => w.reviews.get s.tenant s.reviewId = none
  | .submitIdempotent s => w.reviews.get s.tenant s.reviewId = none
  | _ => True

theorem Fresh.get {w : World} {r : ConsoleRequest} (h : Fresh w r) {s : Submission}
    (hcall : r.call = .submit s ∨ r.call = .submitIdempotent s) :
    w.reviews.get s.tenant s.reviewId = none := by
  rcases hcall with hcall | hcall
  · simpa only [Fresh, hcall] using h
  · simpa only [Fresh, hcall] using h

def isRecord : PortOp → Bool
  | .record _ => true
  | _ => false

/-- The local adapters with an audit sink that raises where the plan says so. -/
abbrev faultyAudit : Handler PortOp PortOp.Ret ServiceError (World × List Bool) :=
  localPorts.withFaults isRecord .portFailure

/-- A request together with what its audit calls do: `true` means that the call raises. -/
structure FaultyRequest where
  request : ConsoleRequest
  plan : List Bool

/-- The audit record of this request raises. Every method records at most once. -/
def FaultyRequest.auditFails (r : FaultyRequest) : Bool := r.plan.headD false

def faultyAnswer (w : World) (r : FaultyRequest) : Except ServiceError ConsoleResponse × World :=
  let (response, w', _) := r.request.program.exec faultyAudit (w, r.plan)
  (response, w')

def faultyServe (w : World) (r : FaultyRequest) : World := (faultyAnswer w r).2

theorem faultyAnswer_nil (w : World) (r : ConsoleRequest) :
    faultyAnswer w ⟨r, []⟩ = answer w r := by
  simp only [faultyAnswer, answer, faultyAudit, exec_withFaults_nil]

namespace ConsoleService
variable (svc : ConsoleService)

def submitEvent (item : ReviewItem) (timestamp : DateTime) : SignOffEvent :=
  svc.signOffEvent item "submit" "" .amend .allowed "submitted for review" [] timestamp

def disposeEvent (d : DisposeArgs) (outcome : DispositionOutcome) (timestamp : DateTime) :
    SignOffEvent :=
  svc.signOffEvent outcome.item "dispose" d.checker d.disposition outcome.decision d.reason
    outcome.findings timestamp

section
variable (item : ReviewItem) (d : DisposeArgs) (outcome : DispositionOutcome) (timestamp : DateTime)

@[simp] theorem submitEvent_action : (svc.submitEvent item timestamp).action = "submit" := rfl

theorem submitEvent_key : ((svc.submitEvent item timestamp).tenant,
    (svc.submitEvent item timestamp).reviewId) = item.key := rfl

@[simp] theorem disposeEvent_action :
    (svc.disposeEvent d outcome timestamp).action = "dispose" := rfl

theorem disposeEvent_key : ((svc.disposeEvent d outcome timestamp).tenant,
    (svc.disposeEvent d outcome timestamp).reviewId) = outcome.item.key := rfl

end

variable (item : ReviewItem)

/-- The projection touches the threshold only. -/
theorem withEffectiveRouting_eq : svc.withEffectiveRouting item =
    { item with request := { item.request with
        requiredApprovals := svc.engine.requiredApprovals item } } := by
  unfold withEffectiveRouting
  dsimp only
  split
  · rfl
  · rename_i h
    rw [not_not.mp h]

@[simp] theorem withEffectiveRouting_state :
    (svc.withEffectiveRouting item).state = item.state := by
  rw [withEffectiveRouting_eq]

@[simp] theorem withEffectiveRouting_approvals :
    (svc.withEffectiveRouting item).approvals = item.approvals := by
  rw [withEffectiveRouting_eq]

@[simp] theorem withEffectiveRouting_approvers :
    (svc.withEffectiveRouting item).approvers = item.approvers := by
  simp [ReviewItem.approvers]

@[simp] theorem withEffectiveRouting_key : (svc.withEffectiveRouting item).key = item.key := by
  rw [withEffectiveRouting_eq]
  rfl

@[simp] theorem withEffectiveRouting_tenant :
    (svc.withEffectiveRouting item).request.tenant = item.request.tenant := by
  rw [withEffectiveRouting_eq]

@[simp] theorem withEffectiveRouting_reviewId :
    (svc.withEffectiveRouting item).request.reviewId = item.request.reviewId := by
  rw [withEffectiveRouting_eq]

@[simp] theorem withEffectiveRouting_maker :
    (svc.withEffectiveRouting item).request.maker = item.request.maker := by
  rw [withEffectiveRouting_eq]

@[simp] theorem withEffectiveRouting_sodGroup :
    (svc.withEffectiveRouting item).request.sodGroup = item.request.sodGroup := by
  rw [withEffectiveRouting_eq]

@[simp] theorem withEffectiveRouting_severity :
    (svc.withEffectiveRouting item).request.severity = item.request.severity := by
  rw [withEffectiveRouting_eq]

@[simp] theorem withEffectiveRouting_sourceKey :
    (svc.withEffectiveRouting item).request.sourceKey = item.request.sourceKey := by
  rw [withEffectiveRouting_eq]

@[simp] theorem withEffectiveRouting_caseRef :
    (svc.withEffectiveRouting item).request.caseRef = item.request.caseRef := by
  rw [withEffectiveRouting_eq]

theorem withEffectiveRouting_requiredApprovals :
    (svc.withEffectiveRouting item).request.requiredApprovals =
      svc.engine.requiredApprovals item := by
  rw [withEffectiveRouting_eq]

/-- The engine asks of a projected item exactly the threshold it shows. -/
theorem requiredApprovals_withEffectiveRouting :
    svc.engine.requiredApprovals (svc.withEffectiveRouting item) =
      (svc.withEffectiveRouting item).request.requiredApprovals := by
  rw [withEffectiveRouting_requiredApprovals]
  simp [MakerCheckerService.requiredApprovals, withEffectiveRouting_eq]

@[simp] theorem withEffectiveRouting_idem :
    svc.withEffectiveRouting (svc.withEffectiveRouting item) = svc.withEffectiveRouting item := by
  rw [withEffectiveRouting_eq svc (svc.withEffectiveRouting item),
    requiredApprovals_withEffectiveRouting]

variable {svc item} {s : Submission} {now : DateTime}

theorem newItem_key : (svc.newItem s now).key = (s.tenant, s.reviewId) := by
  simp only [newItem, withEffectiveRouting_key]
  rfl

@[simp] theorem newItem_tenant : (svc.newItem s now).tenant = s.tenant :=
  congrArg Prod.fst newItem_key

@[simp] theorem newItem_sourceKey : (svc.newItem s now).request.sourceKey = s.sourceKey := by
  simp [newItem]

@[simp] theorem newItem_state : (svc.newItem s now).state = .pending := by simp [newItem]

@[simp] theorem newItem_approvals : (svc.newItem s now).approvals = [] := by simp [newItem]

theorem one_le_newItem_requiredApprovals (svc : ConsoleService) (s : Submission) (now : DateTime) :
    1 ≤ (svc.newItem s now).request.requiredApprovals := by
  rw [newItem, withEffectiveRouting_requiredApprovals]
  exact svc.engine.policy.one_le_requiredApprovals _ _

@[simp] theorem withEffectiveRouting_newItem :
    svc.withEffectiveRouting (svc.newItem s now) = svc.newItem s now := by simp [newItem]

end ConsoleService

/-- The item an accepted disposition writes, from the item that was stored. -/
def ConsoleService.disposed (svc : ConsoleService) (stored : ReviewItem) (d : DisposeArgs)
    (now : DateTime) : ReviewItem :=
  svc.engine.applied (svc.withEffectiveRouting stored) (d.decision now)
    (d.asOf.getD (d.asOf.getD now))

section
variable (svc : ConsoleService) (stored : ReviewItem) (d : DisposeArgs) (now : DateTime)

@[simp] theorem ConsoleService.disposed_request :
    (svc.disposed stored d now).request = (svc.withEffectiveRouting stored).request := by
  simp [disposed]

theorem ConsoleService.disposed_approve (hd : d.disposition = .approve) :
    svc.disposed stored d now = (svc.withEffectiveRouting stored).withApproval
      ⟨d.checker, d.reason, d.asOf.getD (d.asOf.getD now)⟩
      (if (stored.approvals.length : ℤ) + 1 ≥ svc.engine.requiredApprovals stored
        then .approved else .pending) := by
  simp only [disposed, MakerCheckerService.applied, DisposeArgs.decision]
  simp only [hd, requiredApprovals_withEffectiveRouting, withEffectiveRouting_requiredApprovals,
    ReviewItem.approvalsCount, withEffectiveRouting_approvals]

theorem ConsoleService.disposed_resolved (hd : d.disposition ≠ .approve) :
    ∃ state, ((d.disposition = .reject ∧ state = .rejected) ∨
        (d.disposition = .amend ∧ state = .amended)) ∧
      svc.disposed stored d now = (svc.withEffectiveRouting stored).resolved state d.reason := by
  simp only [disposed, MakerCheckerService.applied, DisposeArgs.decision]
  cases h : d.disposition with
  | approve => exact absurd h hd
  | reject => exact ⟨.rejected, Or.inl ⟨rfl, rfl⟩, rfl⟩
  | amend => exact ⟨.amended, Or.inr ⟨rfl, rfl⟩, rfl⟩

@[simp] theorem ConsoleService.disposed_key : (svc.disposed stored d now).key = stored.key := by
  rw [disposed, MakerCheckerService.applied_key, withEffectiveRouting_key]

theorem ConsoleService.disposed_approvals_grow :
    stored.approvals <+: (svc.disposed stored d now).approvals := by
  have h := svc.engine.applied_approvals_grow (svc.withEffectiveRouting stored) (d.decision now)
    (d.asOf.getD (d.asOf.getD now))
  rwa [withEffectiveRouting_approvals] at h

end

/-- The world after a record that may fail. -/
def World.noted (w : World) (fails : Bool) (e : SignOffEvent) : World :=
  if fails then w else { w with log := w.log ++ [.signOff e] }

@[simp] theorem World.noted_reviews (w : World) (fails : Bool) (e : SignOffEvent) :
    (w.noted fails e).reviews = w.reviews := by
  cases fails <;> rfl

@[simp] theorem World.noted_log (w : World) (fails : Bool) (e : SignOffEvent) :
    (w.noted fails e).log = if fails then w.log else w.log ++ [.signOff e] := by
  cases fails <;> rfl

/-- What is left of an event whose record may fail. -/
def kept (fails : Bool) (e : SignOffEvent) : List SignOffEvent := if fails then [] else [e]

@[simp] theorem kept_false (e : SignOffEvent) : kept false e = [e] := rfl

@[simp] theorem kept_true (e : SignOffEvent) : kept true e = [] := rfl

theorem World.trail_noted (w : World) (fails : Bool) (e : SignOffEvent) (tenant id : String) :
    (w.noted fails e).trail tenant id =
      w.trail tenant id ++ if (e.tenant, e.reviewId) = (tenant, id) then kept fails e else [] := by
  simp only [trail]
  rw [noted_log]
  cases fails with
  | true => simp
  | false =>
    rw [if_neg (by simp), List.filterMap_append]
    congr 1
    by_cases h : e.tenant = tenant ∧ e.reviewId = id
    · simp [h]
    · simp [h]

/-- The response of a method whose last operation is a record that may fail. -/
def noted (fails : Bool) (response : ConsoleResponse) : Except ServiceError ConsoleResponse :=
  if fails then .error .portFailure else .ok response

/-- The item a request writes to the store, if it gets that far. -/
def ConsoleRequest.written (r : ConsoleRequest) (w : World) : Option ReviewItem :=
  match r.call with
  | .submit s =>
    let item := r.service.newItem s r.readings.now
    if w.reviews.SourceTaken item then none else some item
  | .submitIdempotent s =>
    let item := r.service.newItem s r.readings.now
    match w.reviews.putIfAbsentBySourceKey item with
    | .ok ((_, true), _) => some item
    | _ => none
  | .dispose d =>
    match w.reviews.get d.checkerTenant d.reviewId with
    | none => none
    | some stored =>
      if stored.isTerminal ∨ r.service.engine.checkEligibility
          (r.service.withEffectiveRouting stored) d.checker d.checkerTenant d.checkerGroups ≠ []
      then
        none
      else some (r.service.disposed stored d r.readings.now)
  | _ => none

/-- Everything a request can do: leave the world alone, refuse a terminal item, store a new
item, record a denial, or store a disposed item. A failing audit sink drops the record and
turns the response into an error, after the store has been written. -/
inductive ConsoleEffect (r : ConsoleRequest) (fails : Bool) (w : World) :
    Except ServiceError ConsoleResponse → World → Prop
  | untouched (response : Except ServiceError ConsoleResponse) (hwritten : r.written w = none)
      (h : ∀ d, r.call = .dispose d → w.reviews.get d.checkerTenant d.reviewId = none) :
      ConsoleEffect r fails w response w
  | refused (d : DisposeArgs) (stored : ReviewItem) (e : AlreadyResolved)
      (hcall : r.call = .dispose d)
      (hget : w.reviews.get d.checkerTenant d.reviewId = some stored)
      (hstate : stored.state ≠ .pending) (hwritten : r.written w = none) :
      ConsoleEffect r fails w (.error (.alreadyResolved e.message)) w
  | submitted (s : Submission) (item : ReviewItem) (reviews : LocalReviewStore)
      (hcall : r.call = .submit s ∨ r.call = .submitIdempotent s)
      (hitem : item = r.service.newItem s r.readings.now)
      (hput : w.reviews.put item = .ok reviews) (hwritten : r.written w = some item) :
      ConsoleEffect r fails w (noted fails (.item item))
        ({ w with reviews }.noted fails (r.service.submitEvent item r.readings.timestamp))
  | denied (d : DisposeArgs) (stored : ReviewItem) (findings : List EligibilityFinding)
      (outcome : DispositionOutcome)
      (hcall : r.call = .dispose d)
      (hget : w.reviews.get d.checkerTenant d.reviewId = some stored)
      (hstate : stored.state = .pending) (hfindings : findings ≠ [])
      (hwritten : r.written w = none)
      (houtcome : outcome = ⟨r.service.withEffectiveRouting stored, .denied, findings⟩) :
      ConsoleEffect r fails w (noted fails (.outcome outcome))
        (w.noted fails (r.service.disposeEvent d outcome r.readings.timestamp))
  | disposed (d : DisposeArgs) (stored : ReviewItem) (reviews : LocalReviewStore)
      (outcome : DispositionOutcome)
      (hcall : r.call = .dispose d)
      (hget : w.reviews.get d.checkerTenant d.reviewId = some stored)
      (hstate : stored.state = .pending)
      (heligible : MakerCheckerService.Eligible r.service.engine
        (r.service.withEffectiveRouting stored) d.checker d.checkerTenant d.checkerGroups)
      (hput : w.reviews.put outcome.item = .ok reviews) (hwritten : r.written w = some outcome.item)
      (houtcome : outcome = ⟨r.service.disposed stored d r.readings.now, .allowed, []⟩) :
      ConsoleEffect r fails w (noted fails (.outcome outcome))
        ({ w with reviews }.noted fails (r.service.disposeEvent d outcome r.readings.timestamp))

section
open Program
variable {w : World} {plan : List Bool}

private theorem faultyAudit_record (e : SignOffEvent) :
    faultyAudit (.record (.signOff e)) (w, plan) =
      (if plan.headD false then .error .portFailure else .ok (),
        w.noted (plan.headD false) e, plan.tail) := by
  have h := withFaults_of_fallible localPorts isRecord .portFailure (.record (.signOff e)) rfl w
    plan
  rw [faultyAudit, h]
  simp only [World.noted]
  cases plan.headD false <;> rfl

private theorem exec_record (svc : ConsoleService) (item : ReviewItem) (action checker : String)
    (disposition : Disposition) (decision : Decision) (reason : String)
    (findings : List EligibilityFinding) (timestamp : DateTime) :
    (svc.record item action checker disposition decision reason findings timestamp).exec
      faultyAudit (w, plan) =
      (if plan.headD false then .error .portFailure else .ok (),
        w.noted (plan.headD false) (svc.signOffEvent item action checker disposition decision
          reason findings timestamp), plan.tail) := by
  simp only [ConsoleService.record, port, perform, exec, faultyAudit_record]
  cases plan.headD false <;> rfl

private theorem faultyAudit_quiet (op : PortOp) (hop : isRecord op = false) (w : World)
    (plan : List Bool) :
    faultyAudit op (w, plan) = ((localPorts op w).1, (localPorts op w).2, plan) :=
  withFaults_of_infallible localPorts isRecord .portFailure op hop w plan

private theorem exec_put {item : ReviewItem} {reviews : LocalReviewStore}
    (hput : w.reviews.put item = .ok reviews) :
    (port (.reviewPut item)).exec faultyAudit (w, plan) = (.ok (), { w with reviews }, plan) := by
  have hop := faultyAudit_quiet (.reviewPut item) rfl w plan
  simp only [port, perform, exec, hop, localPorts, hput]

private theorem exec_put_error {item : ReviewItem} {e : ServiceError}
    (hput : w.reviews.put item = .error e) :
    (port (.reviewPut item)).exec faultyAudit (w, plan) = (.error e, w, plan) := by
  have hop := faultyAudit_quiet (.reviewPut item) rfl w plan
  simp only [port, perform, exec, hop, localPorts, hput]

private theorem exec_putIfAbsent {item : ReviewItem} {answer : ReviewItem × Bool}
    {reviews : LocalReviewStore}
    (hput : w.reviews.putIfAbsentBySourceKey item = .ok (answer, reviews)) :
    (port (.reviewPutIfAbsentBySourceKey item)).exec faultyAudit (w, plan) =
      (.ok answer, { w with reviews }, plan) := by
  have hop := faultyAudit_quiet (.reviewPutIfAbsentBySourceKey item) rfl w plan
  simp only [port, perform, exec, hop, localPorts, hput]

private theorem exec_putIfAbsent_error {item : ReviewItem} {e : ServiceError}
    (hput : w.reviews.putIfAbsentBySourceKey item = .error e) :
    (port (.reviewPutIfAbsentBySourceKey item)).exec faultyAudit (w, plan) =
      (.error e, w, plan) := by
  have hop := faultyAudit_quiet (.reviewPutIfAbsentBySourceKey item) rfl w plan
  simp only [port, perform, exec, hop, localPorts, hput]

private theorem exec_get (tenant reviewId : String) :
    @exec _ _ _ (Option ReviewItem) _ faultyAudit (port (.reviewGet tenant reviewId)) (w, plan) =
      (.ok (w.reviews.get tenant reviewId), w, plan) := rfl

end

section
open Program
variable {w : World} {service : ConsoleService} {readings : Readings} {plan : List Bool}

private theorem submit_effect (s : Submission) :
    ConsoleEffect ⟨service, .submit s, readings⟩ (plan.headD false) w
      (faultyAnswer w ⟨⟨service, .submit s, readings⟩, plan⟩).1
      (faultyAnswer w ⟨⟨service, .submit s, readings⟩, plan⟩).2 := by
  cases hput : w.reviews.put (service.newItem s readings.now) with
  | error e =>
    have hexec : faultyAnswer w ⟨⟨service, .submit s, readings⟩, plan⟩ = (.error e, w) := by
      simp only [faultyAnswer, ConsoleRequest.program, ConsoleService.submit, exec_bind,
        exec_put_error hput]
    have htaken : w.reviews.SourceTaken (service.newItem s readings.now) := by
      by_contra hfree
      obtain ⟨reviews, hok⟩ := LocalReviewStore.put_ok_iff.mpr hfree
      cases hput.symm.trans hok
    rw [hexec]
    exact .untouched _ (if_pos htaken) (by simp)
  | ok reviews =>
    have hexec : faultyAnswer w ⟨⟨service, .submit s, readings⟩, plan⟩ =
        (noted (plan.headD false) (.item (service.newItem s readings.now)),
          { w with reviews }.noted (plan.headD false)
            (service.submitEvent (service.newItem s readings.now) readings.timestamp)) := by
      simp only [faultyAnswer, ConsoleRequest.program, ConsoleService.submit, exec_bind,
        exec_put hput, ConsoleService.recordSubmission, exec_record]
      cases plan.headD false <;> rfl
    rw [hexec]
    exact .submitted s _ reviews (Or.inl rfl) rfl hput
      (if_neg (LocalReviewStore.put_ok_iff.mp ⟨reviews, hput⟩))

private theorem submitIdempotent_effect (s : Submission) :
    ConsoleEffect ⟨service, .submitIdempotent s, readings⟩ (plan.headD false) w
      (faultyAnswer w ⟨⟨service, .submitIdempotent s, readings⟩, plan⟩).1
      (faultyAnswer w ⟨⟨service, .submitIdempotent s, readings⟩, plan⟩).2 := by
  rcases w.reviews.putIfAbsentBySourceKey_cases (service.newItem s readings.now) with
    ⟨e, hput⟩ | ⟨row, -, -, -, -, hput⟩ | ⟨reviews, hreviews, -, hput⟩
  · have hexec : faultyAnswer w ⟨⟨service, .submitIdempotent s, readings⟩, plan⟩ =
        (.error e, w) := by
      simp only [faultyAnswer, ConsoleRequest.program, ConsoleService.submitIdempotent, exec_bind,
        exec_putIfAbsent_error hput]
    rw [hexec]
    exact .untouched _ (by simp only [ConsoleRequest.written, hput]) (by simp)
  · have hexec : faultyAnswer w ⟨⟨service, .submitIdempotent s, readings⟩, plan⟩ =
        (.ok (.item (service.withEffectiveRouting row)), w) := by
      simp only [faultyAnswer, ConsoleRequest.program, ConsoleService.submitIdempotent, exec_bind,
        exec_putIfAbsent hput, Bool.false_eq_true, if_false, exec_pure]
    rw [hexec]
    exact .untouched _ (by simp only [ConsoleRequest.written, hput]) (by simp)
  · have hexec : faultyAnswer w ⟨⟨service, .submitIdempotent s, readings⟩, plan⟩ =
        (noted (plan.headD false) (.item (service.newItem s readings.now)),
          { w with reviews }.noted (plan.headD false)
            (service.submitEvent (service.newItem s readings.now) readings.timestamp)) := by
      simp only [faultyAnswer, ConsoleRequest.program, ConsoleService.submitIdempotent, exec_bind,
        exec_putIfAbsent hput, ConsoleService.withEffectiveRouting_newItem, if_true,
        ConsoleService.recordSubmission, exec_record]
      cases plan.headD false <;> rfl
    rw [hexec]
    exact .submitted s _ reviews (Or.inr rfl) rfl hreviews
      (by simp only [ConsoleRequest.written, hput])

private theorem dispose_effect (d : DisposeArgs) :
    ConsoleEffect ⟨service, .dispose d, readings⟩ (plan.headD false) w
      (faultyAnswer w ⟨⟨service, .dispose d, readings⟩, plan⟩).1
      (faultyAnswer w ⟨⟨service, .dispose d, readings⟩, plan⟩).2 := by
  cases hget : w.reviews.get d.checkerTenant d.reviewId with
  | none =>
    have hexec : faultyAnswer w ⟨⟨service, .dispose d, readings⟩, plan⟩ =
        (.error (.reviewNotFound d.reviewId), w) := by
      simp only [faultyAnswer, ConsoleRequest.program, ConsoleService.dispose, exec_bind,
        exec_get, hget, exec_raise]
    rw [hexec]
    refine .untouched _ (by simp only [ConsoleRequest.written, hget]) ?_
    intro d' hd
    cases hd
    exact hget
  | some stored =>
    rcases MakerCheckerService.dispose_cases service.engine (service.withEffectiveRouting stored)
      (d.decision readings.now) d.asOf with
      ⟨hstate, e, hdispose⟩ | ⟨hstate, findings, hne, hfindings, hdispose⟩ | ⟨hstate, hel, hdispose⟩
    · have hexec : faultyAnswer w ⟨⟨service, .dispose d, readings⟩, plan⟩ =
          (.error (.alreadyResolved e.message), w) := by
        simp only [faultyAnswer, ConsoleRequest.program, ConsoleService.dispose, exec_bind,
          exec_get, hget, hdispose, exec_raise]
      rw [ConsoleService.withEffectiveRouting_state] at hstate
      rw [hexec]
      exact .refused d stored e rfl hget hstate
        (by simp [ConsoleRequest.written, hget, ReviewItem.isTerminal, hstate])
    · have hexec : faultyAnswer w ⟨⟨service, .dispose d, readings⟩, plan⟩ =
          (noted (plan.headD false)
            (.outcome ⟨service.withEffectiveRouting stored, .denied, findings⟩),
          w.noted (plan.headD false) (service.disposeEvent d
            ⟨service.withEffectiveRouting stored, .denied, findings⟩ readings.timestamp)) := by
        simp only [faultyAnswer, ConsoleRequest.program, ConsoleService.dispose, exec_bind,
          exec_get, hget, hdispose, DispositionOutcome.allowed_denied, Bool.false_eq_true, if_false,
          exec_record]
        cases plan.headD false <;> rfl
      have hwritten : ConsoleRequest.written ⟨service, .dispose d, readings⟩ w = none := by
        simp only [ConsoleRequest.written, hget]
        exact if_pos (Or.inr (hfindings ▸ hne))
      rw [hexec]
      exact .denied d stored findings _ rfl hget (by simpa using hstate) hne hwritten rfl
    · obtain ⟨reviews, hput⟩ := LocalReviewStore.put_of_get hget
        (service.disposed stored d readings.now) (by simp) (by simp)
      have hexec : faultyAnswer w ⟨⟨service, .dispose d, readings⟩, plan⟩ =
          (noted (plan.headD false)
            (.outcome ⟨service.disposed stored d readings.now, .allowed, []⟩),
          { w with reviews }.noted (plan.headD false) (service.disposeEvent d
            ⟨service.disposed stored d readings.now, .allowed, []⟩ readings.timestamp)) := by
        have hdispose' : service.engine.dispose (service.withEffectiveRouting stored)
            (d.decision readings.now) d.asOf =
              .ok ⟨service.disposed stored d readings.now, .allowed, []⟩ := hdispose
        simp only [faultyAnswer, ConsoleRequest.program, ConsoleService.dispose, exec_bind,
          exec_get, hget, hdispose', DispositionOutcome.allowed_allowed, if_true, exec_put hput,
          exec_record]
        cases plan.headD false <;> rfl
      rw [ConsoleService.withEffectiveRouting_state] at hstate
      have hwritten : ConsoleRequest.written ⟨service, .dispose d, readings⟩ w =
          some (service.disposed stored d readings.now) := by
        simp only [ConsoleRequest.written, hget]
        exact if_neg (MakerCheckerService.not_refused hstate hel)
      rw [hexec]
      exact .disposed d stored reviews _ rfl hget hstate hel hput hwritten rfl

/-- Inversion: what a request does, whatever its audit record does. -/
theorem consoleEffect (w : World) (r : FaultyRequest) :
    ConsoleEffect r.request r.auditFails w (faultyAnswer w r).1 (faultyAnswer w r).2 := by
  obtain ⟨⟨service, call, readings⟩, plan⟩ := r
  have hread (response : Except ServiceError ConsoleResponse) (hcall : ∀ d, call ≠ .dispose d)
      (hwritten : ConsoleRequest.written ⟨service, call, readings⟩ w = none) :
      ConsoleEffect ⟨service, call, readings⟩ (plan.headD false) w response w :=
    .untouched response hwritten (fun d hd => absurd hd (hcall d))
  cases call with
  | submit s => exact submit_effect s
  | submitIdempotent s => exact submitIdempotent_effect s
  | dispose d => exact dispose_effect d
  | getBySourceKey tenant sourceKey => exact hread _ (by simp) rfl
  | listQueue tenant => exact hread _ (by simp) rfl
  | listAll tenant => exact hread _ (by simp) rfl
  | get tenant reviewId =>
    cases hget : w.reviews.get tenant reviewId with
    | none =>
      have hexec : faultyAnswer w ⟨⟨service, .get tenant reviewId, readings⟩, plan⟩ =
          (.error (.reviewNotFound reviewId), w) := by
        simp only [faultyAnswer, ConsoleRequest.program, ConsoleService.get, exec_bind, exec_get,
          hget, exec_raise]
      rw [hexec]
      exact hread _ (by simp) rfl
    | some item =>
      have hexec : faultyAnswer w ⟨⟨service, .get tenant reviewId, readings⟩, plan⟩ =
          (.ok (.item (service.withEffectiveRouting item)), w) := by
        simp only [faultyAnswer, ConsoleRequest.program, ConsoleService.get, exec_bind, exec_get,
          hget, exec_pure]
      rw [hexec]
      exact hread _ (by simp) rfl

/-- Inversion for a request whose ports do not fail. -/
theorem consoleEffect_answer (w : World) (r : ConsoleRequest) :
    ConsoleEffect r false w (answer w r).1 (answer w r).2 := by
  have h := consoleEffect w ⟨r, []⟩
  rwa [faultyAnswer_nil] at h

end
section
variable {r : ConsoleRequest} {fails : Bool} {w w' : World} {item : ReviewItem} {tenant id : String}
variable {response : Except ServiceError ConsoleResponse}

/-- Where a stored item comes from: it was there before the request, or the request
submitted it, or the request disposed of the item stored under its key. -/
theorem ConsoleEffect.origin (h : ConsoleEffect r fails w response w')
    (hget : w'.reviews.get tenant id = some item) :
    w.reviews.get tenant id = some item ∨
    (∃ s, (r.call = .submit s ∨ r.call = .submitIdempotent s) ∧
      item = r.service.newItem s r.readings.now) ∨
    (∃ d stored, r.call = .dispose d ∧ d.checkerTenant = tenant ∧ d.reviewId = id ∧
      w.reviews.get tenant id = some stored ∧ stored.state = .pending ∧
      MakerCheckerService.Eligible r.service.engine (r.service.withEffectiveRouting stored)
        d.checker d.checkerTenant d.checkerGroups ∧
      item = r.service.disposed stored d r.readings.now ∧
      response = noted fails (.outcome ⟨item, .allowed, []⟩)) := by
  cases h with
  | untouched => exact Or.inl hget
  | refused => exact Or.inl hget
  | denied => exact Or.inl (by simpa using hget)
  | submitted s new reviews hcall hitem hput hwritten =>
    simp only [World.noted_reviews, LocalReviewStore.get_put hput] at hget
    split at hget
    · cases hget
      exact Or.inr (Or.inl ⟨s, hcall, hitem⟩)
    · exact Or.inl hget
  | disposed d stored reviews outcome hcall hstored hstate hel hput hwritten houtcome =>
    rw [houtcome] at hput
    simp only [World.noted_reviews, LocalReviewStore.get_put hput] at hget
    split at hget
    · rename_i hkey
      obtain ⟨h1, h2⟩ := LocalReviewStore.key_of_get hstored
      rw [ConsoleService.disposed_key, ReviewItem.key, h1, h2] at hkey
      cases hkey
      cases hget
      exact Or.inr (Or.inr
        ⟨d, stored, hcall, rfl, rfl, hstored, hstate, hel, rfl, by rw [houtcome]⟩)
    · exact Or.inl hget

/-- What a request does to one review and to its trail: nothing, or it submits the review,
records a denial, or records and stores a disposition. -/
theorem ConsoleEffect.review_step (h : ConsoleEffect r fails w response w') (tenant id : String) :
    (w'.reviews.get tenant id = w.reviews.get tenant id ∧ w'.trail tenant id = w.trail tenant id) ∨
    (∃ s item, (r.call = .submit s ∨ r.call = .submitIdempotent s) ∧
      item = r.service.newItem s r.readings.now ∧ item.key = (tenant, id) ∧
      r.written w = some item ∧ w'.reviews.get tenant id = some item ∧
      w'.trail tenant id =
        w.trail tenant id ++ kept fails (r.service.submitEvent item r.readings.timestamp)) ∨
    (∃ d stored findings, w.reviews.get tenant id = some stored ∧ stored.state = .pending ∧
      findings ≠ [] ∧ w'.reviews.get tenant id = some stored ∧
      w'.trail tenant id = w.trail tenant id ++ kept fails (r.service.disposeEvent d
        ⟨r.service.withEffectiveRouting stored, .denied, findings⟩ r.readings.timestamp)) ∨
    (∃ d stored item, r.call = .dispose d ∧ w.reviews.get tenant id = some stored ∧
      stored.state = .pending ∧ item = r.service.disposed stored d r.readings.now ∧
      r.written w = some item ∧ w'.reviews.get tenant id = some item ∧
      w'.trail tenant id = w.trail tenant id ++
        kept fails (r.service.disposeEvent d ⟨item, .allowed, []⟩ r.readings.timestamp)) := by
  cases h with
  | untouched => exact Or.inl ⟨rfl, rfl⟩
  | refused => exact Or.inl ⟨rfl, rfl⟩
  | submitted s item reviews hcall hitem hput hwritten =>
    rw [World.noted_reviews, World.trail_noted, ConsoleService.submitEvent_key,
      LocalReviewStore.get_put hput]
    by_cases hkey : item.key = (tenant, id)
    · exact Or.inr (Or.inl ⟨s, item, hcall, hitem, hkey, hwritten, if_pos hkey.symm,
        by rw [if_pos hkey]; rfl⟩)
    · refine Or.inl ⟨if_neg (Ne.symm hkey), ?_⟩
      rw [if_neg hkey, List.append_nil]
      rfl
  | denied d stored findings outcome hcall hget hstate hne hwritten houtcome =>
    have hkey : outcome.item.key = (d.checkerTenant, d.reviewId) := by
      obtain ⟨h1, h2⟩ := LocalReviewStore.key_of_get hget
      rw [houtcome, ConsoleService.withEffectiveRouting_key, ReviewItem.key, h1, h2]
    rw [World.noted_reviews, World.trail_noted, ConsoleService.disposeEvent_key, hkey]
    by_cases hreview : (d.checkerTenant, d.reviewId) = (tenant, id)
    · rw [if_pos hreview]
      cases hreview
      exact Or.inr (Or.inr (Or.inl
        ⟨d, stored, findings, hget, hstate, hne, hget, by rw [houtcome]⟩))
    · exact Or.inl ⟨rfl, by rw [if_neg hreview, List.append_nil]⟩
  | disposed d stored reviews outcome hcall hget hstate hel hput hwritten houtcome =>
    have hkey : outcome.item.key = (d.checkerTenant, d.reviewId) := by
      obtain ⟨h1, h2⟩ := LocalReviewStore.key_of_get hget
      rw [houtcome, ConsoleService.disposed_key, ReviewItem.key, h1, h2]
    rw [World.noted_reviews, World.trail_noted, ConsoleService.disposeEvent_key,
      LocalReviewStore.get_put hput, hkey]
    by_cases hreview : (d.checkerTenant, d.reviewId) = (tenant, id)
    · rw [if_pos hreview, if_pos hreview.symm]
      cases hreview
      exact Or.inr (Or.inr (Or.inr ⟨d, stored, outcome.item, hcall, hget, hstate, by rw [houtcome],
        hwritten, rfl, by rw [houtcome]; rfl⟩))
    · refine Or.inl ⟨if_neg (Ne.symm hreview), ?_⟩
      rw [if_neg hreview, List.append_nil]
      rfl

theorem ConsoleEffect.written_stored (h : ConsoleEffect r fails w response w')
    (hwritten : r.written w = some item) :
    w'.reviews.get item.tenant item.reviewId = some item ∧
    ((∃ s, (r.call = .submit s ∨ r.call = .submitIdempotent s) ∧
        item = r.service.newItem s r.readings.now) ∨
      ∃ d stored, r.call = .dispose d ∧ w.reviews.get item.tenant item.reviewId = some stored ∧
        stored.state = .pending ∧ d.checker ∉ stored.approvers ∧
        item = r.service.disposed stored d r.readings.now) := by
  cases h with
  | untouched _ hnone => cases hnone.symm.trans hwritten
  | refused d stored e hcall hget hstate hnone => cases hnone.symm.trans hwritten
  | denied d stored findings outcome hcall hget hstate hne hnone houtcome =>
    cases hnone.symm.trans hwritten
  | submitted s new reviews hcall hitem hput hsome =>
    cases hsome.symm.trans hwritten
    rw [World.noted_reviews, LocalReviewStore.get_put hput]
    exact ⟨if_pos rfl, Or.inl ⟨s, hcall, hitem⟩⟩
  | disposed d stored reviews outcome hcall hget hstate hel hput hsome houtcome =>
    cases hsome.symm.trans hwritten
    rw [World.noted_reviews, LocalReviewStore.get_put hput]
    refine ⟨if_pos rfl, Or.inr ⟨d, stored, hcall, ?_, hstate, ?_, by rw [houtcome]⟩⟩
    · obtain ⟨h1, h2⟩ := LocalReviewStore.key_of_get hget
      have hkey : outcome.item.key = stored.key := by simp [houtcome]
      obtain ⟨htenant, hid⟩ := Prod.mk.inj hkey
      rw [htenant, hid, h1, h2]
      exact hget
    · simpa using hel.distinct

/-- A request whose record fails leaves every trail as it was. -/
theorem ConsoleEffect.trail_of_fails (h : ConsoleEffect r true w response w') (tenant id : String) :
    w'.trail tenant id = w.trail tenant id := by
  rcases h.review_step tenant id with ⟨-, htrail⟩ | ⟨_, _, -, -, -, -, -, htrail⟩ |
    ⟨_, _, _, -, -, -, -, htrail⟩ | ⟨_, _, _, -, -, -, -, -, -, htrail⟩
  · exact htrail
  · simpa using htrail
  · simpa using htrail
  · simpa using htrail

end

namespace Demo

def noon : DateTime := ⟨739816, 43200000000⟩

def readings : Readings := ⟨noon, noon⟩

def console : ConsoleService := { redact := id }

/-- The facility that the demo analyst asks the console to sign off. -/
def submission (severity : Severity) : Submission where
  reviewId := "rev-1"
  maker := "demo.analyst@bank.example"
  tenant := "demo-bank"
  action := "disburse"
  subject := "Acme (FICTIONAL)"
  summary := "disburse facility"
  severity := severity

def disposition (checker : String) (disposition : Disposition) : DisposeArgs where
  reviewId := "rev-1"
  checker := checker
  checkerTenant := "demo-bank"
  checkerGroups := ["group:analyst", "group:approver"]
  disposition := disposition
  reason := "ok"

def submit : ConsoleRequest := ⟨console, .submit (submission .medium), readings⟩

def approve : ConsoleRequest :=
  ⟨console, .dispose (disposition "demo.approver@bank.example" .approve), readings⟩

end Demo
end ReviewConsole

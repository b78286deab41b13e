import ReviewConsole.ApiRoutes
import ReviewConsole.ServiceAnswers

/-!
# The responses of the routes

The response of each route over the local adapters, as a function of the stores: the answers of the
methods with the routes' own refusals put in.
-/
namespace ReviewConsole
open PortPrograms

namespace ConsoleApi

variable (api : ConsoleApi) (principal : Principal) (m : Moment) (w : World)

def submittedItem (request : SubmitRequest) : ReviewItem :=
  api.console.newItem (request.submission m.uuid (api.actor principal) principal.tenant)
    m.readings.now

theorem submitReview_response (request : SubmitRequest) :
    (api.submitReview localPorts request principal m w).1 =
      .reply 201 (.review (.fromDomain (api.submittedItem principal m request))) := by
  simp only [submitReview, answering]
  rw [submit_answer api.console m.readings w rfl]
  rfl

theorem submitReviewService_response (request : ServiceSubmitRequest) :
    (api.submitReviewService localPorts request m w).1 =
      match w.reviews.putIfAbsentBySourceKey
          (api.console.newItem (request.submission m.uuid) m.readings.now) with
      | .ok ((item, _), _) =>
        .reply 201 (.review (.fromDomain (api.console.withEffectiveRouting item)))
      | .error e => .raised e := by
  simp only [submitReviewService, answering, submitIdempotent_answer]
  cases w.reviews.putIfAbsentBySourceKey
    (api.console.newItem (request.submission m.uuid) m.readings.now) <;> rfl

theorem listReviews_response :
    (api.listReviews localPorts principal w).1 =
      .reply 200 (.reviews (((w.reviews.listPending principal.tenant).map
        api.console.withEffectiveRouting).map ReviewItemModel.fromDomain)) := rfl

theorem getReview_response (reviewId : String) :
    (api.getReview localPorts reviewId principal w).1 =
      match w.reviews.get principal.tenant reviewId with
      | none => .refusal ⟨404, "review not found"⟩
      | some item =>
        .reply 200 (.review (.fromDomain (api.console.withEffectiveRouting item))) := by
  simp only [getReview, answering, get_answer]
  cases w.reviews.get principal.tenant reviewId <;> rfl

theorem decideReview_response (reviewId : String) (request : DecisionRequest) :
    (api.decideReview localPorts reviewId request principal m w).1 =
      match w.reviews.get principal.tenant reviewId with
      | none => .refusal ⟨404, "review not found"⟩
      | some stored =>
        match api.console.engine.dispose (api.console.withEffectiveRouting stored)
            ((request.args reviewId (api.actor principal) principal).decision m.readings.now)
            none with
        | .error e => .refusal ⟨409, e.message⟩
        | .ok outcome =>
          .reply (if outcome.allowed then 200 else 403) (.decision (.fromOutcome outcome)) := by
  have hanswer := dispose_answer api.console m.readings w
    (request.args reviewId (api.actor principal) principal)
  change _ = match w.reviews.get principal.tenant reviewId with
    | none => _
    | some stored => _ at hanswer
  simp only [decideReview, answering, hanswer]
  cases w.reviews.get principal.tenant reviewId with
  | none => rfl
  | some stored =>
    have hasOf : (request.args reviewId (api.actor principal) principal).asOf = none := rfl
    simp only [hasOf]
    cases api.console.engine.dispose (api.console.withEffectiveRouting stored)
      ((request.args reviewId (api.actor principal) principal).decision m.readings.now) none <;> rfl

theorem openCase_response {request : OpenCaseRequest} {d : WorkflowDefinition}
    (h : api.definitions.definition request.caseType = some d) :
    (api.openCase localPorts request principal m w).1 =
      let c := CaseWorkflowService.opened
        (request.args m.uuid principal.tenant (api.actor principal)) d m.readings.now
      match (api.caseService.scheduled c d c.openedAt d.clocks).2 with
      | none => .reply 201 (.case (.fromDomain c d))
      | some e => .raised (.clock e) := by
  have hdefinition : api.caseService.definitions.definition
      (request.args m.uuid principal.tenant (api.actor principal)).caseType = some d := h
  have htimers : api.caseService.timers = true := rfl
  simp only [openCase]
  rw [if_neg (by simp [h])]
  simp only [answering, openCase_answer, hdefinition, htimers, if_true]
  cases (api.caseService.scheduled _ d _ d.clocks).2 with
  | some e => rfl
  | none =>
    have htype : api.definitions.definition (CaseWorkflowService.opened
        (request.args m.uuid principal.tenant (api.actor principal)) d m.readings.now).caseType =
          some d := by
      change api.definitions.definition d.caseType = some d
      rw [api.definitions.keyed _ _ h]
      exact h
    simp only [caseOpened, caseReply, htype]

theorem getCase_response (caseId : String) :
    (api.getCase localPorts caseId principal w).1 =
      match w.getCase principal.tenant caseId with
      | none => .refusal ⟨404, "case not found"⟩
      | some c => api.caseReply 200 c := by
  simp only [getCase, answering, getCase_answer]
  cases w.getCase principal.tenant caseId <;> rfl

theorem transitionCase_response (caseId : String) (request : TransitionRequest) :
    (api.transitionCase localPorts caseId request principal m w).1 =
      match w.getCase principal.tenant caseId with
      | none => .refusal ⟨404, "case not found"⟩
      | some c =>
        match api.definitions.definition c.caseType with
        | none => .refusal ⟨422, api.repr c.caseType⟩
        | some d =>
          if d.isLegal c.state request.toState then
            .reply 200 (.case (.fromDomain (CaseWorkflowService.advanced c
              (request.args caseId principal.tenant (api.actor principal)) m.readings.now) d))
          else .refusal ⟨409, api.illegalTransition c.state request.toState⟩ := by
  have hanswer := transitionCase_answer api.caseService m.readings w
    (request.args caseId principal.tenant (api.actor principal))
  change _ = match w.getCase principal.tenant caseId with
    | none => _
    | some c => _ at hanswer
  simp only [transitionCase, answering, hanswer]
  cases w.getCase principal.tenant caseId with
  | none => rfl
  | some c =>
    have hsame : api.caseService.definitions.definition c.caseType =
        api.definitions.definition c.caseType := rfl
    simp only [hsame]
    cases hdefinition : api.definitions.definition c.caseType with
    | none => rfl
    | some d =>
      have htoState : (request.args caseId principal.tenant (api.actor principal)).toState =
          request.toState := rfl
      simp only [htoState]
      cases d.isLegal c.state request.toState with
      | false => rfl
      | true =>
        have htype : api.definitions.definition (CaseWorkflowService.advanced c
            (request.args caseId principal.tenant (api.actor principal)) m.readings.now).caseType =
              some d := hdefinition
        simp only [if_true, caseReply, htype]

theorem evaluateCase_response (caseId : String) :
    (api.evaluateCase localPorts caseId principal m w).1 =
      match w.getCase principal.tenant caseId with
      | none => .refusal ⟨404, "case not found"⟩
      | some c =>
        match api.definitions.definition c.caseType with
        | none => .raised (.unknownWorkflow c.caseType)
        | some d =>
          match assess c d m.readings.now ∅ with
          | .error e => .raised (.clock e)
          | .ok assessment => .reply 200 (.assessment (.fromDomain assessment)) := by
  have hanswer := evaluateCase_answer api.caseService m.readings w {
    caseId
    tenant := principal.tenant
    actor := api.actor principal } m.routing
  simp only [evaluateCase, answering, hanswer]
  cases w.getCase principal.tenant caseId with
  | none => rfl
  | some c =>
    have hsame : api.caseService.definitions.definition c.caseType =
        api.definitions.definition c.caseType := rfl
    simp only [hsame]
    cases api.definitions.definition c.caseType with
    | none => rfl
    | some d =>
      have hholidays : api.caseService.holidays = ∅ := rfl
      simp only [hholidays, Option.getD_none]
      cases assess c d m.readings.now ∅ <;> rfl

end ConsoleApi
end ReviewConsole

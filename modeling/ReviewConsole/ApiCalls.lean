import ReviewConsole.ApiRoutes
import ReviewConsole.TenantViews

/-!
# The one call of a request

A request that passes its authentication makes one call on the console or on the engine. What it
does to the world is what that call does, and its response follows from what the call is answered.
-/
namespace ReviewConsole
open PortPrograms GuardedRuns

namespace ConsoleApi

variable (api : ConsoleApi)

/-- The call that the route of a user's request makes. -/
def userServiceCall (call : UserCall) (principal : Principal) (m : Moment) : Option ServiceCall :=
  match call with
  | .submitReview request => some (.console ⟨api.console, .submit
      (request.submission m.uuid (api.actor principal) principal.tenant), m.readings⟩)
  | .listReviews => some (.console ⟨api.console, .listQueue principal.tenant, m.readings⟩)
  | .getReview reviewId =>
    some (.console ⟨api.console, .get principal.tenant reviewId, m.readings⟩)
  | .decideReview reviewId request => some (.console ⟨api.console, .dispose
      (request.args reviewId (api.actor principal) principal), m.readings⟩)
  | .openCase request =>
    if api.definitions.definition request.caseType = none then none
    else some (.engine api.caseService ⟨.openCase
      (request.args m.uuid principal.tenant (api.actor principal)), m.readings⟩)
  | .listCases => some (.engine api.caseService ⟨.listCases principal.tenant, m.readings⟩)
  | .getCase caseId => some (.engine api.caseService ⟨.get principal.tenant caseId, m.readings⟩)
  | .transitionCase caseId request => some (.engine api.caseService ⟨.transitionCase
      (request.args caseId principal.tenant (api.actor principal)), m.readings⟩)
  | .evaluateCase caseId => some (.engine api.caseService ⟨.evaluateCase {
      caseId
      tenant := principal.tenant
      actor := api.actor principal } m.routing, m.readings⟩)

/-- The call that a request makes on a service, if it gets that far. -/
def serviceCall (r : ApiRequest) : Option ServiceCall :=
  match r.call with
  | .user call =>
    match api.getPrincipal r.headers with
    | .error _ => none
    | .ok principal => api.userServiceCall call principal r.moment
  | .submitReviewService request =>
    match api.serviceCaller r.headers with
    | .error _ => none
    | .ok () => some (.console ⟨api.console, .submitIdempotent (request.submission r.moment.uuid),
        r.moment.readings⟩)

def called (w : World) : Option ServiceCall → World
  | none => w
  | some call => (call.answer w).2

variable {api} {w w' : World}

/-- A call is made for a user whom the identity adapter knows, or for an admitted service. -/
theorem serviceCall_cases {r : ApiRequest} {call : ServiceCall}
    (h : api.serviceCall r = some call) :
    (∃ user principal, r.call = .user user ∧ api.getPrincipal r.headers = .ok principal ∧
      api.userServiceCall user principal r.moment = some call) ∨
    ∃ request, r.call = .submitReviewService request ∧ api.serviceCaller r.headers = .ok () ∧
      call = .console ⟨api.console, .submitIdempotent (request.submission r.moment.uuid),
        r.moment.readings⟩ := by
  simp only [serviceCall] at h
  cases hcall : r.call with
  | user user =>
    simp only [hcall] at h
    cases hprincipal : api.getPrincipal r.headers with
    | error e =>
      rw [hprincipal] at h
      cases h
    | ok principal =>
      rw [hprincipal] at h
      exact Or.inl ⟨user, principal, rfl, rfl, h⟩
  | submitReviewService request =>
    simp only [hcall] at h
    cases hcaller : api.serviceCaller r.headers with
    | error e =>
      rw [hcaller] at h
      cases h
    | ok caller =>
      rw [hcaller] at h
      exact Or.inr ⟨request, rfl, rfl, (Option.some.inj h).symm⟩

/-- A route that runs the program of a call leaves the world that the call leaves, and its
response follows from what the call is answered. -/
private theorem answering_call {α : Type} {p : Service α} {wrap : α → ServiceResponse}
    (hwrap : Function.Injective wrap) {call : ServiceCall}
    (hcall : call.program = p >>= fun a => pure (wrap a))
    (respond : Except ServiceError α → ApiResponse) :
    (∀ w, (answering localPorts p respond w).2 = called w (some call)) ∧
      ∀ w w', (call.answer w).1 = (call.answer w').1 →
        (answering localPorts p respond w).1 = (answering localPorts p respond w').1 := by
  have hanswer (w : World) :
      call.answer w = ((p.exec localPorts w).1.map wrap, (p.exec localPorts w).2) := by
    rw [ServiceCall.answer, hcall, Program.exec_bind_pure]
  constructor
  · intro w
    change (p.exec localPorts w).2 = (call.answer w).2
    rw [hanswer]
  · intro w w' h
    rw [hanswer, hanswer] at h
    have hsame : (p.exec localPorts w).1 = (p.exec localPorts w').1 := by
      revert h
      cases (p.exec localPorts w).1 <;> cases (p.exec localPorts w').1 <;> intro h
      · exact congrArg Except.error (Except.error.inj h)
      · cases h
      · cases h
      · exact congrArg Except.ok (hwrap (Except.ok.inj h))
    exact congrArg respond hsame

private def Calls (route : World → ApiResponse × World) (call : Option ServiceCall) : Prop :=
  (∀ w, (route w).2 = called w call) ∧
    ∀ w w', (∀ c, call = some c → (c.answer w).1 = (c.answer w').1) → (route w).1 = (route w').1

private theorem calls_none (response : ApiResponse) : Calls (fun w => (response, w)) none :=
  ⟨fun _ => rfl, fun _ _ _ => rfl⟩

private theorem calls_some {α : Type} {p : Service α} {wrap : α → ServiceResponse}
    (hwrap : Function.Injective wrap) {call : ServiceCall}
    (hcall : call.program = p >>= fun a => pure (wrap a))
    (respond : Except ServiceError α → ApiResponse) :
    Calls (answering localPorts p respond) (some call) := by
  obtain ⟨hworld, hresponse⟩ := answering_call hwrap hcall respond
  exact ⟨hworld, fun w w' h => hresponse w w' (h call rfl)⟩

private theorem console_injective {β : Type} {f : β → ConsoleResponse}
    (hf : Function.Injective f) : Function.Injective (fun b => ServiceResponse.console (f b)) :=
  fun _ _ h => hf (ServiceResponse.console.inj h)

private theorem engine_injective {β : Type} {f : β → CaseResponse}
    (hf : Function.Injective f) : Function.Injective (fun b => ServiceResponse.engine (f b)) :=
  fun _ _ h => hf (ServiceResponse.engine.inj h)

private theorem userRoute_calls (api : ConsoleApi) (call : UserCall) (principal : Principal)
    (m : Moment) :
    Calls (api.userRoute localPorts call principal m) (api.userServiceCall call principal m) := by
  cases call with
  | submitReview request =>
    exact calls_some (console_injective fun _ _ => ConsoleResponse.item.inj)
      (by simp [ServiceCall.program, ConsoleRequest.program]) _
  | listReviews =>
    exact calls_some (console_injective fun _ _ => ConsoleResponse.items.inj)
      (by simp [ServiceCall.program, ConsoleRequest.program]) _
  | getReview reviewId =>
    exact calls_some (console_injective fun _ _ => ConsoleResponse.item.inj)
      (by simp [ServiceCall.program, ConsoleRequest.program]) _
  | decideReview reviewId request =>
    exact calls_some (console_injective fun _ _ => ConsoleResponse.outcome.inj)
      (by simp [ServiceCall.program, ConsoleRequest.program]) _
  | openCase request =>
    by_cases hnone : api.definitions.definition request.caseType = none
    · have hroute : api.userRoute localPorts (.openCase request) principal m =
          fun w => (.refusal ⟨422, "unknown case_type " ++ api.repr request.caseType⟩, w) := by
        funext w
        exact if_pos hnone
      rw [hroute, userServiceCall, if_pos hnone]
      exact calls_none _
    · have hroute : api.userRoute localPorts (.openCase request) principal m =
          answering localPorts (api.caseService.openCase
            (request.args m.uuid principal.tenant (api.actor principal)) m.readings)
            api.caseOpened := by
        funext w
        exact if_neg hnone
      rw [hroute, userServiceCall, if_neg hnone]
      exact calls_some (engine_injective fun _ _ => CaseResponse.case.inj)
        (by simp [ServiceCall.program, CaseRequest.program]) _
  | listCases =>
    exact calls_some (engine_injective fun _ _ => CaseResponse.cases.inj)
      (by simp [ServiceCall.program, CaseRequest.program]) _
  | getCase caseId =>
    exact calls_some (engine_injective fun _ _ => CaseResponse.case.inj)
      (by simp [ServiceCall.program, CaseRequest.program]) _
  | transitionCase caseId request =>
    exact calls_some (engine_injective fun _ _ => CaseResponse.case.inj)
      (by simp [ServiceCall.program, CaseRequest.program]) _
  | evaluateCase caseId =>
    exact calls_some (engine_injective fun _ _ => CaseResponse.assessment.inj)
      (by simp [ServiceCall.program, CaseRequest.program]) _

private theorem handle_calls (api : ConsoleApi) (r : ApiRequest) :
    Calls (api.handle localPorts r) (api.serviceCall r) := by
  simp only [serviceCall]
  cases hcall : r.call with
  | user call =>
    cases hprincipal : api.getPrincipal r.headers with
    | error e =>
      rw [handle_user_refused hcall hprincipal]
      exact calls_none _
    | ok principal =>
      rw [handle_user hcall hprincipal]
      exact userRoute_calls api call principal r.moment
  | submitReviewService request =>
    cases hcaller : api.serviceCaller r.headers with
    | error e =>
      rw [handle_service_refused hcall hcaller]
      exact calls_none _
    | ok caller =>
      rw [handle_service hcall hcaller]
      exact calls_some (console_injective fun _ _ => ConsoleResponse.item.inj)
        (by simp [ServiceCall.program, ConsoleRequest.program]) _

theorem handle_world (api : ConsoleApi) (r : ApiRequest) (w : World) :
    (api.handle localPorts r w).2 = called w (api.serviceCall r) := (handle_calls api r).1 w

/-- The response to a request depends on what its call is answered, and on nothing else of the
world. -/
theorem handle_response_congr (r : ApiRequest)
    (h : ∀ call, api.serviceCall r = some call → (call.answer w).1 = (call.answer w').1) :
    (api.handle localPorts r w).1 = (api.handle localPorts r w').1 :=
  (handle_calls api r).2 w w' h

end ConsoleApi
end ReviewConsole

import ReviewConsole.ApiResponses
import ReviewConsole.GuardedRuns
import ReviewConsole.ServerMakers

/-!
# Requests that were refused

A request that is refused, a denied decision included, changes no store: what it leaves behind is on
the audit log, which no request reads. A run answers its other requests as if the refused ones had
never been made.
-/
namespace ReviewConsole
open PortPrograms GuardedRuns Program

/-- The response tells the client that nothing was done. -/
def ApiResponse.refused : ApiResponse → Bool
  | .refusal _ => true
  | .reply statusCode _ => statusCode = 403
  | .raised _ | .keyError _ => false

/-- The world but for its audit log. -/
def World.stores (w : World) : World := { w with log := [] }

section
variable {w w' : World}

private theorem localPorts_stores (op : PortOp) (w : World) :
    (localPorts op w.stores).1 = (localPorts op w).1 ∧
      (localPorts op w.stores).2.stores = (localPorts op w).2.stores := by
  cases op with
  | reviewPut item =>
    simp only [localPorts, World.stores]
    cases w.reviews.put item <;> exact ⟨rfl, rfl⟩
  | reviewPutIfAbsentBySourceKey item =>
    simp only [localPorts, World.stores]
    cases w.reviews.putIfAbsentBySourceKey item <;> exact ⟨rfl, rfl⟩
  | _ => exact ⟨rfl, rfl⟩

theorem op_stores_congr (h : w.stores = w'.stores) (op : PortOp) :
    (localPorts op w).1 = (localPorts op w').1 ∧
      (localPorts op w).2.stores = (localPorts op w').2.stores := by
  obtain ⟨hanswer, hstores⟩ := localPorts_stores op w
  obtain ⟨hanswer', hstores'⟩ := localPorts_stores op w'
  rw [← hanswer, ← hanswer', ← hstores, ← hstores', h]
  exact ⟨rfl, rfl⟩

theorem only_of_forall {α : Type} {P : PortOp → Prop} (h : ∀ op, P op) (p : Service α) :
    p.Only P := by
  induction p with
  | done a => exact trivial
  | raise e => exact trivial
  | call op next ih => exact ⟨h op, fun answer _ => ih answer⟩

theorem call_stores_congr (h : w.stores = w'.stores) (call : ServiceCall) :
    (call.answer w).1 = (call.answer w').1 ∧
      (call.answer w).2.stores = (call.answer w').2.stores :=
  Confined.exec_congr localPorts (fun _ _ _ _ _ => trivial)
    (fun op _ _ _ hsame => op_stores_congr hsame op)
    (only_of_forall (fun _ => trivial) call.program) h

end

section
variable {w : World} {svc : CaseWorkflowService}

theorem serve_dispose_stores (w : World) (console : ConsoleService) (d : DisposeArgs)
    (readings : Readings) :
    (serve w ⟨console, .dispose d, readings⟩).stores = w.stores ∨
      ∃ outcome, (answer w ⟨console, .dispose d, readings⟩).1 = .ok (.outcome outcome) ∧
        outcome.allowed = true := by
  have heffect := consoleEffect_answer w ⟨console, .dispose d, readings⟩
  simp only [serve]
  generalize (answer w ⟨console, .dispose d, readings⟩).1 = response at heffect ⊢
  generalize (answer w ⟨console, .dispose d, readings⟩).2 = w' at heffect ⊢
  cases heffect with
  | untouched => exact Or.inl rfl
  | refused => exact Or.inl rfl
  | submitted s item reviews hcall => rcases hcall with hcall | hcall <;> cases hcall
  | denied => exact Or.inl rfl
  | disposed d' stored reviews outcome hcall hget hstate heligible hput hwritten houtcome =>
    exact Or.inr ⟨outcome, rfl, by rw [houtcome]; rfl⟩

theorem serveCase_transition_stores (svc : CaseWorkflowService) (w : World) (a : TransitionArgs)
    (readings : Readings) :
    (serveCase svc w ⟨.transitionCase a, readings⟩).stores = w.stores ∨
      ∃ c, (answerCase svc w ⟨.transitionCase a, readings⟩).1 = .ok (.case c) := by
  have heffect := caseEffect svc w ⟨.transitionCase a, readings⟩
  simp only [serveCase]
  cases heffect with
  | untouched hidle hresponse hworld =>
    rw [hworld]
    exact Or.inl rfl
  | refused a' c d hcall hget hdefinition hlegal hresponse hworld =>
    rw [hworld]
    exact Or.inl rfl
  | moved a' c moved d hcall hget hdefinition hlegal hmoved hresponse hworld =>
    exact Or.inr ⟨moved, hresponse⟩
  | opened a' d c timers hcall => cases hcall
  | openedPartly a' d c timers e hcall => cases hcall
  | evaluated a' routing c d assessment reviews submitted hcall => cases hcall

end

namespace ConsoleApi

variable {api : ConsoleApi} {r : ApiRequest} {w : World} {principal : Principal}

private theorem handle_notFound {call : ServiceCall} {e : ServiceError}
    (h : api.serviceCall r = some call) (hnone : call.notFound w = some e) :
    (api.handle localPorts r w).2 = w := by
  rw [handle_world, h, called, answer_of_notFound hnone]

private theorem caseReply_refused {statusCode : ℕ} (c : Case) (h : statusCode ≠ 403) :
    (api.caseReply statusCode c).refused = false := by
  simp only [caseReply]
  split
  · rfl
  · simp [ApiResponse.refused, h]

private theorem user_refused {user : UserCall} (hcall : r.call = .user user)
    (hprincipal : api.getPrincipal r.headers = .ok principal)
    (h : (api.handle localPorts r w).1.refused = true) :
    (api.handle localPorts r w).2.stores = w.stores := by
  have hservice : api.serviceCall r = api.userServiceCall user principal r.moment := by
    simp only [serviceCall, hcall, hprincipal]
  have hroute : api.handle localPorts r = api.userRoute localPorts user principal r.moment :=
    handle_user hcall hprincipal
  have hresponse := h
  rw [hroute] at hresponse
  cases user with
  | submitReview request =>
    rw [userRoute, submitReview_response] at hresponse
    cases hresponse
  | listReviews => cases hresponse
  | getReview reviewId =>
    rw [userRoute, getReview_response] at hresponse
    cases hget : w.reviews.get principal.tenant reviewId with
    | none =>
      rw [handle_notFound (e := .reviewNotFound reviewId) hservice]
      simp [ServiceCall.notFound, ServiceCall.reviewNotFound, hget]
    | some item =>
      rw [hget] at hresponse
      cases hresponse
  | decideReview reviewId request =>
    rw [handle_world, hservice, userServiceCall, called, ServiceCall.console_world]
    rcases serve_dispose_stores w api.console
        (request.args reviewId (api.actor principal) principal) r.moment.readings with
      hsame | ⟨outcome, hanswer, hallowed⟩
    · exact hsame
    · rw [handle_decideReview hcall hprincipal hanswer, hallowed] at h
      cases h
  | openCase request =>
    cases hdefinition : api.definitions.definition request.caseType with
    | none =>
      rw [handle_world, hservice, userServiceCall, if_pos hdefinition, called]
    | some d =>
      rw [userRoute, openCase_response _ _ _ _ hdefinition] at hresponse
      dsimp only at hresponse
      split at hresponse <;> cases hresponse
  | listCases => cases hresponse
  | getCase caseId =>
    rw [userRoute, getCase_response] at hresponse
    cases hget : w.getCase principal.tenant caseId with
    | none =>
      rw [handle_notFound (e := .caseNotFound caseId) hservice]
      simp [ServiceCall.notFound, ServiceCall.caseNotFound, hget]
    | some c =>
      rw [hget] at hresponse
      exact absurd hresponse (by simp [caseReply_refused])
  | transitionCase caseId request =>
    rw [handle_world, hservice, userServiceCall, called, ServiceCall.engine_world]
    rcases serveCase_transition_stores api.caseService w
      (request.args caseId principal.tenant (api.actor principal)) r.moment.readings with
      hsame | ⟨c, hanswer⟩
    · exact hsame
    · rw [handle_transitionCase hcall hprincipal hanswer, caseReply_refused c (by decide)] at h
      cases h
  | evaluateCase caseId =>
    rw [userRoute, evaluateCase_response] at hresponse
    cases hget : w.getCase principal.tenant caseId with
    | none =>
      rw [handle_notFound (e := .caseNotFound caseId) hservice]
      simp [ServiceCall.notFound, ServiceCall.caseNotFound, hget]
    | some c =>
      rw [hget] at hresponse
      dsimp only at hresponse
      split at hresponse
      · cases hresponse
      · split at hresponse <;> cases hresponse

theorem handle_refused (h : (api.handle localPorts r w).1.refused = true) :
    (api.handle localPorts r w).2.stores = w.stores := by
  cases hcall : r.call with
  | submitReviewService request =>
    cases hcaller : api.serviceCaller r.headers with
    | error e =>
      rw [handle_service_refused hcall hcaller]
    | ok caller =>
      rw [handle_service hcall hcaller, submitReviewService_response] at h
      split at h <;> cases h
  | user user =>
    cases hprincipal : api.getPrincipal r.headers with
    | error e =>
      rw [handle_user_refused hcall hprincipal]
    | ok principal => exact user_refused hcall hprincipal h

/-- Requests answer alike over the same stores, and leave the same stores. -/
theorem handle_stores_congr {w' : World} (h : w.stores = w'.stores) :
    (api.handle localPorts r w).1 = (api.handle localPorts r w').1 ∧
      (api.handle localPorts r w).2.stores = (api.handle localPorts r w').2.stores := by
  constructor
  · apply handle_response_congr
    intro call _
    exact (call_stores_congr h call).1
  · rw [handle_world, handle_world]
    cases api.serviceCall r with
    | none => exact h
    | some call => exact (call_stores_congr h call).2

end ConsoleApi

namespace Server

/-- What an event is answered and the process after it. A restart is answered nothing. -/
def respond (disk : Disk) (s : Server) (event : ServerEvent) : Option ApiResponse × Server :=
  (match event with
    | .request r => some (s.api.handle localPorts r s.world).1
    | .restart _ => none,
  step disk s event)

/-- The answer refuses a request. -/
def refuses (answer : Option ApiResponse) : Bool :=
  answer.any ApiResponse.refused

/-- The configuration of a process and its stores. -/
def stored (s : Server) : ConsoleApi × World := (s.api, s.world.stores)

theorem ignores_refused (disk : Disk) : Ignores (respond disk) stored refuses where
  congr s s' event h := by
    obtain ⟨api, w⟩ := s
    obtain ⟨api', w'⟩ := s'
    obtain ⟨rfl, hstores⟩ := Prod.mk.inj h
    cases event with
    | request r =>
      obtain ⟨hresponse, hleft⟩ := ConsoleApi.handle_stores_congr hstores
      exact ⟨congrArg some hresponse, congrArg (Prod.mk api) hleft⟩
    | restart api' =>
      refine ⟨rfl, congrArg (Prod.mk api') ?_⟩
      have hreviews : w.reviews = w'.reviews := (World.mk.inj hstores).1
      change (w.restarted disk).stores = (w'.restarted disk).stores
      simp [World.restarted, World.stores, hreviews]
  idle s event h := by
    cases event with
    | request r => exact congrArg (Prod.mk s.api) (ConsoleApi.handle_refused h)
    | restart api => cases h

end Server

/-- Leaving the refused requests out of any run of the server, restarts included, changes neither
its other answers nor the stores it ends in. -/
theorem refused_requests_leave_no_trace (disk : Disk) (s : Server) (es : List ServerEvent) :
    answers (Server.respond disk) s (effective (Server.respond disk) Server.refuses s es) =
        (answers (Server.respond disk) s es).filter (fun answer => !Server.refuses answer) ∧
      (run (Server.step disk) s (effective (Server.respond disk) Server.refuses s es)).stored =
        (run (Server.step disk) s es).stored :=
  (Server.ignores_refused disk).effective rfl es

end ReviewConsole

import ReviewConsole.ApiSchemas
import ReviewConsole.ServiceIntake

/-!
# The routes

A request is authenticated, makes at most one call on one of the two services, and what the call
returns or raises becomes a response. The maker, the checker, the actor and the tenant of a call
are those of the verified principal; only a submission by a service names its own.
-/
namespace ReviewConsole
open PortPrograms

/-- The body of a response that is no error. -/
inductive ApiBody where
  | review (item : ReviewItemModel)
  | reviews (items : List ReviewItemModel)
  | decision (decision : DecisionResponse)
  | case (c : CaseModel)
  | cases (cs : List CaseSummaryModel)
  | assessment (assessment : AssessmentModel)
  deriving DecidableEq, Repr

/-- What becomes of a request. The last two are exceptions that no route turns into a response. -/
inductive ApiResponse where
  | reply (statusCode : ℕ) (body : ApiBody)
  | refusal (e : HttpException)
  | raised (e : ServiceError)
  | keyError (key : String)
  deriving DecidableEq, Repr

/-- What a handler reads besides the request: `uuid4().hex`, the clock, and what a review it
routes would read. -/
structure Moment where
  uuid : String
  readings : Readings
  routing : Routing
  deriving DecidableEq, Repr

/-- A request of an end user. -/
inductive UserCall where
  | submitReview (request : SubmitRequest)
  | listReviews
  | getReview (reviewId : String)
  | decideReview (reviewId : String) (request : DecisionRequest)
  | openCase (request : OpenCaseRequest)
  | listCases
  | getCase (caseId : String)
  | transitionCase (caseId : String) (request : TransitionRequest)
  | evaluateCase (caseId : String)
  deriving DecidableEq, Repr

inductive ApiCall where
  | user (call : UserCall)
  | submitReviewService (request : ServiceSubmitRequest)
  deriving DecidableEq, Repr

structure ApiRequest where
  headers : RequestHeaders
  call : ApiCall
  moment : Moment
  deriving DecidableEq, Repr

/-- The application over its container. `identity` is the bound adapter as its `resolve`, or what
constructing it raises; `actor` is the property of a principal that the routes pass on; `repr` is
Python's `repr` of a text. -/
structure ConsoleApi where
  console : ConsoleService
  definitions : WorkflowRegistry
  identity : Except IdentityFault (RequestHeaders → Except IdentityFault Principal)
  serviceCaller : RequestHeaders → Except HttpException Unit
  actor : Principal → String
  repr : String → String

def SubmitRequest.submission (request : SubmitRequest) (reviewId maker tenant : String) :
    Submission where
  reviewId := reviewId
  maker := maker
  tenant := tenant
  action := request.action
  subject := request.subject
  summary := request.summary
  severity := request.severity
  requiredApprovals := request.requiredApprovals
  sodGroup := request.sodGroup
  caseRef := request.caseRef
  citations := request.citations.map CitationModel.citation

def ServiceSubmitRequest.submission (request : ServiceSubmitRequest) (reviewId : String) :
    Submission :=
  { request.toSubmitRequest.submission reviewId request.maker request.tenant with
    sourceKey := request.sourceKey }

def DecisionRequest.args (request : DecisionRequest) (reviewId checker : String)
    (principal : Principal) : DisposeArgs where
  reviewId := reviewId
  checker := checker
  checkerTenant := principal.tenant
  checkerGroups := principal.principals
  disposition := request.disposition
  reason := request.reason
  amendments := request.amendments

def OpenCaseRequest.args (request : OpenCaseRequest) (caseId tenant actor : String) :
    OpenArgs where
  caseId := caseId
  tenant := tenant
  caseType := request.caseType
  actor := actor
  severity := request.severity
  attributes := request.attributes
  summary := request.summary

def TransitionRequest.args (request : TransitionRequest) (caseId tenant actor : String) :
    TransitionArgs where
  caseId := caseId
  tenant := tenant
  toState := request.toState
  actor := actor
  reason := request.reason

namespace ConsoleApi

variable (api : ConsoleApi)

/-- The engine over the console that the routes serve: an escalation lands in the same queue. -/
def caseService : CaseWorkflowService where
  definitions := api.definitions
  reviewRouter := some api.console
  redact := api.console.redact

/-- How `get_principal` tells the faults of the adapter apart. -/
def unauthenticated : IdentityFault → HttpException
  | .endUserAuthUnavailable httpStatus message => ⟨httpStatus, message⟩
  | .identityError _ => ⟨401, "authentication required"⟩

def getPrincipal (headers : RequestHeaders) : Except HttpException Principal :=
  match api.identity with
  | .error fault => .error (unauthenticated fault)
  | .ok resolve =>
    match resolve headers with
    | .error fault => .error (unauthenticated fault)
    | .ok principal => .ok principal

section
variable {σ : Type} (ports : Handler PortOp PortOp.Ret ServiceError σ)

/-- Run one call on a service, and make a response of what it ends in. -/
def answering {α : Type} (p : Service α) (respond : Except ServiceError α → ApiResponse) (s : σ) :
    ApiResponse × σ :=
  (respond (p.exec ports s).1, (p.exec ports s).2)

/-- The projection of a case needs its definition. -/
def caseReply (statusCode : ℕ) (c : Case) : ApiResponse :=
  match api.definitions.definition c.caseType with
  | none => .keyError c.caseType
  | some definition => .reply statusCode (.case (.fromDomain c definition))

def submitReview (request : SubmitRequest) (principal : Principal) (m : Moment) :
    σ → ApiResponse × σ :=
  answering ports (api.console.submit
    (request.submission m.uuid (api.actor principal) principal.tenant) m.readings) fun
  | .ok item => .reply 201 (.review (.fromDomain item))
  | .error e => .raised e

def submitReviewService (request : ServiceSubmitRequest) (m : Moment) : σ → ApiResponse × σ :=
  answering ports (api.console.submitIdempotent (request.submission m.uuid) m.readings) fun
  | .ok item => .reply 201 (.review (.fromDomain item))
  | .error e => .raised e

def listReviews (principal : Principal) : σ → ApiResponse × σ :=
  answering ports (api.console.listQueue principal.tenant) fun
  | .ok items => .reply 200 (.reviews (items.map ReviewItemModel.fromDomain))
  | .error e => .raised e

def getReview (reviewId : String) (principal : Principal) : σ → ApiResponse × σ :=
  answering ports (api.console.get principal.tenant reviewId) fun
  | .ok item => .reply 200 (.review (.fromDomain item))
  | .error (.reviewNotFound _) => .refusal ⟨404, "review not found"⟩
  | .error e => .raised e

def decideReview (reviewId : String) (request : DecisionRequest) (principal : Principal)
    (m : Moment) : σ → ApiResponse × σ :=
  answering ports (api.console.dispose (request.args reviewId (api.actor principal) principal)
    m.readings) fun
  | .ok outcome => .reply (if outcome.allowed then 200 else 403) (.decision (.fromOutcome outcome))
  | .error (.reviewNotFound _) => .refusal ⟨404, "review not found"⟩
  | .error (.alreadyResolved message) => .refusal ⟨409, message⟩
  | .error e => .raised e

def caseOpened : Except ServiceError Case → ApiResponse
  | .ok c => api.caseReply 201 c
  | .error e => .raised e

def openCase (request : OpenCaseRequest) (principal : Principal) (m : Moment) (s : σ) :
    ApiResponse × σ :=
  if api.definitions.definition request.caseType = none then
    (.refusal ⟨422, "unknown case_type " ++ api.repr request.caseType⟩, s)
  else
    answering ports (api.caseService.openCase
      (request.args m.uuid principal.tenant (api.actor principal)) m.readings) api.caseOpened s

def listCases (principal : Principal) : σ → ApiResponse × σ :=
  answering ports (CaseWorkflowService.listCases principal.tenant) fun
  | .ok cs => .reply 200 (.cases (cs.map CaseSummaryModel.fromDomain))
  | .error e => .raised e

def getCase (caseId : String) (principal : Principal) : σ → ApiResponse × σ :=
  answering ports (CaseWorkflowService.get principal.tenant caseId) fun
  | .ok c => api.caseReply 200 c
  | .error (.caseNotFound _) => .refusal ⟨404, "case not found"⟩
  | .error e => .raised e

/-- `str` of an `IllegalTransition`. -/
def illegalTransition (fromState toState : String) : String :=
  "illegal transition " ++ api.repr fromState ++ " -> " ++ api.repr toState

def transitionCase (caseId : String) (request : TransitionRequest) (principal : Principal)
    (m : Moment) : σ → ApiResponse × σ :=
  answering ports (api.caseService.transitionCase
    (request.args caseId principal.tenant (api.actor principal)) m.readings) fun
  | .ok c => api.caseReply 200 c
  | .error (.caseNotFound _) => .refusal ⟨404, "case not found"⟩
  | .error (.illegalTransition fromState toState) =>
    .refusal ⟨409, api.illegalTransition fromState toState⟩
  -- `str` of a `KeyError` is the `repr` of its key.
  | .error (.unknownWorkflow caseType) => .refusal ⟨422, api.repr caseType⟩
  | .error e => .raised e

def evaluateCase (caseId : String) (principal : Principal) (m : Moment) : σ → ApiResponse × σ :=
  answering ports (api.caseService.evaluateCase {
    caseId
    tenant := principal.tenant
    actor := api.actor principal } m.readings m.routing) fun
  | .ok assessment => .reply 200 (.assessment (.fromDomain assessment))
  | .error (.caseNotFound _) => .refusal ⟨404, "case not found"⟩
  | .error e => .raised e

def userRoute (call : UserCall) (principal : Principal) (m : Moment) : σ → ApiResponse × σ :=
  match call with
  | .submitReview request => api.submitReview ports request principal m
  | .listReviews => api.listReviews ports principal
  | .getReview reviewId => api.getReview ports reviewId principal
  | .decideReview reviewId request => api.decideReview ports reviewId request principal m
  | .openCase request => api.openCase ports request principal m
  | .listCases => listCases ports principal
  | .getCase caseId => api.getCase ports caseId principal
  | .transitionCase caseId request => api.transitionCase ports caseId request principal m
  | .evaluateCase caseId => api.evaluateCase ports caseId principal m

/-- The response to a request, and the state behind the ports after it. -/
def handle (r : ApiRequest) (s : σ) : ApiResponse × σ :=
  match r.call with
  | .user call =>
    match api.getPrincipal r.headers with
    | .error e => (.refusal e, s)
    | .ok principal => api.userRoute ports call principal r.moment s
  | .submitReviewService request =>
    match api.serviceCaller r.headers with
    | .error e => (.refusal e, s)
    | .ok () => api.submitReviewService ports request r.moment s

variable {api ports} {r : ApiRequest} {call : UserCall} {principal : Principal}
variable {request : ServiceSubmitRequest} {e : HttpException}

theorem handle_user (hcall : r.call = .user call) (h : api.getPrincipal r.headers = .ok principal) :
    api.handle ports r = api.userRoute ports call principal r.moment := by
  funext s
  simp only [handle, hcall, h]

theorem handle_user_refused (hcall : r.call = .user call)
    (h : api.getPrincipal r.headers = .error e) :
    api.handle ports r = fun s => (.refusal e, s) := by
  funext s
  simp only [handle, hcall, h]

theorem handle_service (hcall : r.call = .submitReviewService request)
    (h : api.serviceCaller r.headers = .ok ()) :
    api.handle ports r = api.submitReviewService ports request r.moment := by
  funext s
  simp only [handle, hcall, h]

theorem handle_service_refused (hcall : r.call = .submitReviewService request)
    (h : api.serviceCaller r.headers = .error e) :
    api.handle ports r = fun s => (.refusal e, s) := by
  funext s
  simp only [handle, hcall, h]

end

end ConsoleApi
end ReviewConsole

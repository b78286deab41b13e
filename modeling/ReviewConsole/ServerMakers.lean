import ReviewConsole.CaseTrails
import ReviewConsole.ServerSignOffs

/-!
# Who made a review and who moved a case

No request of a user names its actor. The maker of a stored review is the principal who submitted
it, the maker that an admitted service named, or who last moved the case that was escalated; and
every transition in the history of a case was made by a principal of the case's tenant.
-/
namespace ReviewConsole
open PortPrograms GuardedRuns

/-- The review is the one that this submission asked for at `now`: its id, its tenant and all it
says are the submission's. Only the number of approvals may have been raised, by the policy of the
submission or of a decision. -/
structure ReviewItem.SubmittedAs (item : ReviewItem) (s : Submission) (now : DateTime) : Prop where
  request : item.request = {
    reviewId := s.reviewId
    tenant := s.tenant
    action := s.action
    maker := s.maker
    subject := s.subject
    summary := s.summary
    severity := s.severity
    requiredApprovals := item.request.requiredApprovals
    sodGroup := s.sodGroup
    caseRef := s.caseRef
    citations := s.citations
    sourceKey := s.sourceKey
    submittedAt := now }
  approvals : s.requiredApprovals ≤ item.request.requiredApprovals

/-- The request submitted the review, under the id that was drawn for it. -/
inductive MadeBy (s : Server) (r : ApiRequest) (item : ReviewItem) : Prop
  | user (request : SubmitRequest) (principal : Principal)
      (call : r.call = .user (.submitReview request))
      (verified : s.api.getPrincipal r.headers = .ok principal)
      (submitted : item.SubmittedAs
        (request.submission r.moment.uuid (s.api.actor principal) principal.tenant)
        r.moment.readings.now)
  | service (request : ServiceSubmitRequest) (call : r.call = .submitReviewService request)
      (admitted : s.api.serviceCaller r.headers = .ok ())
      (submitted : item.SubmittedAs (request.submission r.moment.uuid) r.moment.readings.now)
  | escalation (caseId : String) (principal : Principal) (c : Case) (d : WorkflowDefinition)
      (assessment : CaseAssessment) (call : r.call = .user (.evaluateCase caseId))
      (verified : s.api.getPrincipal r.headers = .ok principal)
      (stored : s.world.getCase principal.tenant caseId = some c)
      (definition : s.api.definitions.definition c.caseType = some d)
      (assessed : assess c d r.moment.readings.now ∅ = .ok assessment)
      (review : assessment.requiresHumanReview = true)
      (submitted : item.SubmittedAs (s.api.console.routedReview c assessment
        (CaseWorkflowService.routingMaker c) r.moment.routing.reviewId)
        r.moment.routing.readings.now)

/-- The request was made by the principal, of the case's tenant, and moved the case. -/
structure MovedBy (s : Server) (r : ApiRequest) (principal : Principal) (c : Case)
    (t : Transition) : Prop where
  verified : s.api.getPrincipal r.headers = .ok principal
  tenant : principal.tenant = c.tenant
  actor : t.actor = s.api.actor principal
  call : ∃ request, r.call = .user (.transitionCase c.caseId request) ∧
    t.toState = request.toState ∧ t.reason = request.reason
  answered : ∃ body, (s.api.handle localPorts r s.world).1 = .reply 200 (.case body) ∧
    body.history.getLast? =
      some ⟨t.seq, t.fromState, t.toState, t.actor, t.reason, t.at.isoformat⟩

section
variable {item : ReviewItem} {s : Submission} {now : DateTime}

theorem submittedAs_newItem (svc : ConsoleService) :
    (svc.newItem s now).SubmittedAs s now := by
  rw [ConsoleService.newItem, ConsoleService.withEffectiveRouting_eq]
  exact ⟨rfl, svc.engine.policy.requested_le_requiredApprovals _ _⟩

theorem submittedAs_disposed (h : item.SubmittedAs s now) (svc : ConsoleService) (d : DisposeArgs)
    (at' : DateTime) : (svc.disposed item d at').SubmittedAs s now := by
  constructor
  · rw [ConsoleService.disposed_request, ConsoleService.withEffectiveRouting_eq]
    dsimp only
    rw [h.request]
  · rw [ConsoleService.disposed_request, ConsoleService.withEffectiveRouting_requiredApprovals]
    exact h.approvals.trans (svc.engine.policy.requested_le_requiredApprovals _ _)

end

/-- Some request of the run submitted the review. -/
def SubmittedIn (rs : List ConsoleRequest) (item : ReviewItem) : Prop :=
  ∃ pre q post s, rs = pre ++ q :: post ∧ (q.call = .submit s ∨ q.call = .submitIdempotent s) ∧
    item.SubmittedAs s q.readings.now

theorem SubmittedIn.snoc {rs : List ConsoleRequest} {item item' : ReviewItem}
    (h : SubmittedIn rs item) (q : ConsoleRequest)
    (hkeep : ∀ s now, item.SubmittedAs s now → item'.SubmittedAs s now) :
    SubmittedIn (rs ++ [q]) item' := by
  obtain ⟨pre, q', post, s, rfl, hcall, hsubmitted⟩ := h
  exact ⟨pre, q', post ++ [q], s, by simp, hcall, hkeep s _ hsubmitted⟩

theorem submittedIn_run (rs : List ConsoleRequest) {tenant id : String} {item : ReviewItem}
    (hget : (consoleAfter rs).reviews.get tenant id = some item) : SubmittedIn rs item := by
  suffices h : ∀ tenant id item, (consoleAfter rs).reviews.get tenant id = some item →
      SubmittedIn rs item from h tenant id item hget
  refine run_history (fun rs (w : World) => ∀ tenant id item,
    w.reviews.get tenant id = some item → SubmittedIn rs item) ?_ ?_
  · intro tenant id item h
    cases h
  · intro rs q ih tenant id item hget
    rcases (consoleEffect_answer (consoleAfter rs) q).origin hget with
      hold | ⟨s, hcall, rfl⟩ | ⟨d, stored, hcall, rfl, rfl, hstored, hstate, hel, rfl, hanswer⟩
    · exact (ih tenant id item hold).snoc q (fun _ _ h => h)
    · exact ⟨rs, q, [], s, rfl, hcall, submittedAs_newItem q.service⟩
    · exact (ih _ _ stored hstored).snoc q
        (fun _ _ h => submittedAs_disposed h q.service d q.readings.now)

namespace ConsoleApi

variable {api : ConsoleApi} {r : ApiRequest} {q : ConsoleRequest} {s : Submission}

theorem serviceCall_submission (h : api.serviceCall r = some (.console q))
    (hs : q.call = .submit s ∨ q.call = .submitIdempotent s) :
    (∃ request principal, r.call = .user (.submitReview request) ∧
      api.getPrincipal r.headers = .ok principal ∧
      s = request.submission r.moment.uuid (api.actor principal) principal.tenant ∧
      q.readings = r.moment.readings) ∨
    ∃ request, r.call = .submitReviewService request ∧ api.serviceCaller r.headers = .ok () ∧
      s = request.submission r.moment.uuid ∧ q.readings = r.moment.readings := by
  rcases serviceCall_cases h with ⟨user, principal, hcall, hprincipal, h⟩ | ⟨request, hcall, hok, h⟩
  · left
    cases user with
    | submitReview request =>
      cases h
      rcases hs with hs | hs
      · cases hs
        exact ⟨request, principal, hcall, hprincipal, rfl, rfl⟩
      · cases hs
    | openCase request =>
      simp only [userServiceCall] at h
      split at h <;> cases h
    | _ => cases h <;> rcases hs with hs | hs <;> cases hs
  · right
    cases h
    rcases hs with hs | hs
    · cases hs
    · cases hs
      exact ⟨request, hcall, hok, rfl, rfl⟩

theorem serviceCall_evaluate {svc : CaseWorkflowService} {call : CaseRequest} {a : EvaluateArgs}
    {routing : Routing} (h : api.serviceCall r = some (.engine svc call))
    (ha : call.call = .evaluateCase a routing) :
    ∃ caseId principal, r.call = .user (.evaluateCase caseId) ∧
      api.getPrincipal r.headers = .ok principal ∧
      call = ⟨.evaluateCase { caseId, tenant := principal.tenant, actor := api.actor principal }
        r.moment.routing, r.moment.readings⟩ := by
  rcases serviceCall_cases h with ⟨user, principal, hcall, hprincipal, h⟩ | ⟨request, -, -, h⟩
  · cases user with
    | evaluateCase caseId =>
      cases h
      exact ⟨caseId, principal, hcall, hprincipal, rfl⟩
    | openCase request =>
      simp only [userServiceCall] at h
      split at h <;> cases h
      cases ha
    | _ => cases h <;> cases ha
  · cases h

theorem serviceCall_transition {svc : CaseWorkflowService} {call : CaseRequest} {a : TransitionArgs}
    (h : api.serviceCall r = some (.engine svc call)) (ha : call.call = .transitionCase a) :
    ∃ caseId request principal, r.call = .user (.transitionCase caseId request) ∧
      api.getPrincipal r.headers = .ok principal ∧
      call = ⟨.transitionCase (request.args caseId principal.tenant (api.actor principal)),
        r.moment.readings⟩ := by
  rcases serviceCall_cases h with ⟨user, principal, hcall, hprincipal, h⟩ | ⟨request, -, -, h⟩
  · cases user with
    | transitionCase caseId request =>
      cases h
      exact ⟨caseId, request, principal, hcall, hprincipal, rfl⟩
    | openCase request =>
      simp only [userServiceCall] at h
      split at h <;> cases h
      cases ha
    | _ => cases h <;> cases ha
  · cases h

theorem handle_transitionCase {caseId : String} {request : TransitionRequest}
    {principal : Principal} {w : World} {c : Case}
    (hcall : r.call = .user (.transitionCase caseId request))
    (hprincipal : api.getPrincipal r.headers = .ok principal)
    (h : (answerCase api.caseService w ⟨.transitionCase
      (request.args caseId principal.tenant (api.actor principal)), r.moment.readings⟩).1 =
        .ok (.case c)) :
    (api.handle localPorts r w).1 = api.caseReply 200 c := by
  have hexec : ((api.caseService.transitionCase (request.args caseId principal.tenant
      (api.actor principal)) r.moment.readings).exec localPorts w).1 = .ok c := by
    rw [answerCase, CaseRequest.program, Program.exec_bind_pure] at h
    revert h
    dsimp only
    cases ((api.caseService.transitionCase (request.args caseId principal.tenant
      (api.actor principal)) r.moment.readings).exec localPorts w).1 with
    | error e => exact fun h => by cases h
    | ok c' =>
      intro h
      cases h
      rfl
  rw [handle_user hcall hprincipal]
  simp only [userRoute, transitionCase, answering, hexec]

end ConsoleApi

/-- The call makes the request to the console, which is a submission. -/
def ServiceCall.Submits (call : ServiceCall) (w : World) (q : ConsoleRequest) (s : Submission) :
    Prop :=
  (q.call = .submit s ∨ q.call = .submitIdempotent s) ∧ match call with
    | .console r => q = r
    | .engine svc r => q ∈ svc.routedRequests w r

/-- A review is made by the request whose call submits it. -/
theorem madeBy_of_submits {api : ConsoleApi} {w : World} {r : ApiRequest} {call : ServiceCall}
    {q : ConsoleRequest} {s : Submission} {item : ReviewItem}
    (hservice : api.serviceCall r = some call) (hsubmits : call.Submits w q s)
    (hitem : item.SubmittedAs s q.readings.now) : MadeBy ⟨api, w⟩ r item := by
  obtain ⟨hcall, hfrom⟩ := hsubmits
  cases call with
  | console r' =>
    obtain rfl : q = r' := hfrom
    rcases ConsoleApi.serviceCall_submission hservice hcall with
      ⟨request, principal, hroute, hprincipal, rfl, hq⟩ | ⟨request, hroute, hadmitted, rfl, hq⟩
    · rw [hq] at hitem
      exact .user request principal hroute hprincipal hitem
    · rw [hq] at hitem
      exact .service request hroute hadmitted hitem
  | engine svc call =>
    obtain ⟨a, routing, c, d, assessment, console, hescalates, rfl⟩ :=
      CaseWorkflowService.mem_routedRequests hfrom
    obtain rfl := ConsoleApi.serviceCall_engine hservice
    obtain ⟨caseId, principal, hroute, hprincipal, rfl⟩ :=
      ConsoleApi.serviceCall_evaluate hservice hescalates.call
    obtain ⟨hevaluate, hfound, hassess, hreview, hrouter⟩ := hescalates
    cases hevaluate
    cases hrouter
    obtain ⟨hstored, hdefinition⟩ := CaseWorkflowService.found_eq_some.mp hfound
    have hs : s = api.console.routedReview c assessment (CaseWorkflowService.routingMaker c)
        r.moment.routing.reviewId := by
      rcases hcall with hcall | hcall
      · exact (ConsoleCall.submit.inj hcall).symm
      · cases hcall
    rw [hs] at hitem
    exact .escalation caseId principal c d assessment hroute hprincipal hstored hdefinition hassess
      hreview hitem

theorem madeBy_run {disk : Disk} (hreviews : disk.reviews = true) (api : ConsoleApi)
    (es : List ServerEvent) {item : ReviewItem}
    (hitem : item ∈ (Server.after disk api es).world.reviews.table.rows) :
    ∃ before r after, es = before ++ .request r :: after ∧
      MadeBy (Server.after disk api before) r item := by
  have hget := LocalReviewStore.get_of_mem hitem
  rw [(Server.after_queue hreviews api es).reviews] at hget
  obtain ⟨pre, q, post, s, hsplit, hcall, hsubmitted⟩ := submittedIn_run _ hget
  obtain ⟨before, r, after, rfl, horigin⟩ := Server.consoleRun_split hreviews hsplit
  refine ⟨before, r, after, rfl, ?_⟩
  rcases horigin with ⟨hconsole, -⟩ | ⟨svc, call, hengine, hrouted⟩
  · exact madeBy_of_submits hconsole ⟨hcall, rfl⟩ hsubmitted
  · exact madeBy_of_submits hengine ⟨hcall, hrouted⟩ hsubmitted

/-- Some request of the run made the transition. -/
def MovedIn (disk : Disk) (api : ConsoleApi) (es : List ServerEvent) (c : Case)
    (t : Transition) : Prop :=
  ∃ before r after principal, es = before ++ .request r :: after ∧
    MovedBy (Server.after disk api before) r principal c t

section
variable {disk : Disk} {api : ConsoleApi} {es : List ServerEvent} {c c' : Case} {t : Transition}

theorem MovedIn.snoc (h : MovedIn disk api es c t) (event : ServerEvent) (hkey : c'.key = c.key) :
    MovedIn disk api (es ++ [event]) c' t := by
  obtain ⟨before, r, after, principal, rfl, hverified, htenant, hactor, hcall, hanswered⟩ := h
  obtain ⟨hkeyTenant, hkeyId⟩ := Prod.mk.inj hkey
  refine ⟨before, r, after ++ [event], principal, by simp, hverified, ?_, hactor, ?_, hanswered⟩
  · rwa [hkeyTenant]
  · rwa [hkeyId]

/-- The transitions of a case after a call on the engine: those it had, and one that the call may
have made. -/
theorem movedIn_engine {r : ApiRequest} {svc : CaseWorkflowService} {call : CaseRequest}
    (ih : ∀ tenant id c, (Server.after disk api es).world.getCase tenant id = some c →
      ∀ t ∈ c.history, MovedIn disk api es c t)
    (hcall : (Server.after disk api es).api.serviceCall r = some (.engine svc call))
    {tenant id : String}
    (hget : (serveCase svc (Server.after disk api es).world call).getCase tenant id = some c) :
    ∀ t ∈ c.history, MovedIn disk api (es ++ [.request r]) c t := by
  obtain rfl := ConsoleApi.serviceCall_engine hcall
  have hstep := (caseEffect (Server.after disk api es).api.caseService
    (Server.after disk api es).world call).case_step tenant id
  cases hstep with
  | quiet events hresponse hsame =>
    intro t ht
    exact (ih tenant id c (hsame.symm.trans hget) t ht).snoc _ rfl
  | opened a d events hopen hkey hdefinition hnew =>
    cases hnew.symm.trans hget
    intro t ht
    cases ht
  | refused a old d htransition hkey hold hdefinition hlegal hresponse hsame =>
    cases hsame.symm.trans hget
    intro t ht
    exact (ih tenant id c hold t ht).snoc _ rfl
  | moved a old new d htransition hkey hold hdefinition hlegal hmoved hresponse hnew =>
    cases hnew.symm.trans hget
    obtain ⟨caseId, request, principal, hroute, hprincipal, rfl⟩ :=
      ConsoleApi.serviceCall_transition hcall htransition
    cases htransition
    have hanswer := ConsoleApi.handle_transitionCase hroute hprincipal hresponse
    obtain ⟨htenant, hid⟩ := Prod.mk.inj hkey
    obtain ⟨holdTenant, holdId⟩ := Prod.mk.inj (World.key_of_getCase hold)
    have hreply : (Server.after disk api es).api.caseReply 200 c =
        .reply 200 (.case (.fromDomain c d)) := by
      have hnewDefinition : (Server.after disk api es).api.definitions.definition c.caseType =
          some d := by
        rw [hmoved]
        exact hdefinition
      simp only [ConsoleApi.caseReply, hnewDefinition]
    intro t ht
    rw [hmoved] at ht
    rcases List.mem_append.mp ht with ht | ht
    · refine (ih tenant id old hold t ht).snoc _ ?_
      rw [hmoved]
      rfl
    · obtain rfl := List.mem_singleton.mp ht
      refine ⟨es, r, [], principal, rfl, hprincipal, ?_, rfl, ⟨request, ?_, rfl, rfl⟩,
        _, hanswer.trans hreply, ?_⟩
      · rw [hmoved]
        exact htenant.trans holdTenant.symm
      · rw [hmoved, hroute]
        change ApiCall.user (.transitionCase caseId request) =
          .user (.transitionCase old.caseId request)
        rw [holdId, ← hid]
        rfl
      · simp [CaseModel.fromDomain, hmoved, CaseWorkflowService.advanced, Case.moved]

variable (disk) in
theorem movedIn_run (api : ConsoleApi) (es : List ServerEvent) {tenant id : String}
    (hget : (Server.after disk api es).world.getCase tenant id = some c) :
    ∀ t ∈ c.history, MovedIn disk api es c t := by
  suffices h : ∀ tenant id c, (Server.after disk api es).world.getCase tenant id = some c →
      ∀ t ∈ c.history, MovedIn disk api es c t from h tenant id c hget
  refine run_history (fun es (s : Server) => ∀ tenant id c,
    s.world.getCase tenant id = some c → ∀ t ∈ c.history, MovedIn disk api es c t) ?_ ?_
  · intro tenant id c h
    cases h
  · intro es event ih tenant id c hget t ht
    cases event with
    | restart api' => cases hget
    | request r =>
      rcases Server.getCase_step disk (Server.after disk api es) r with hsame | ⟨q, hcall, hworld⟩
      · exact (ih tenant id c ((hsame tenant id).symm.trans hget) t ht).snoc _ rfl
      · change (Server.step disk (Server.after disk api es) (.request r)).world.getCase tenant id =
          some c at hget
        rw [hworld] at hget
        exact movedIn_engine ih hcall hget t ht

end

/-- With the review table on disk, in every state that the server reaches through any requests,
restarts and configurations, each stored review was made by a request of the run: a principal's
own, that of an admitted service naming the maker, or an escalation for the principal who last
moved the case. Each transition in the history of a case was made by a principal of its tenant. -/
theorem server_accounts_for_makers (disk : Disk) (hreviews : disk.reviews = true)
    (api : ConsoleApi) (es : List ServerEvent) :
    (∀ item ∈ (Server.after disk api es).world.reviews.table.rows,
      ∃ before r after, es = before ++ .request r :: after ∧
        MadeBy (Server.after disk api before) r item) ∧
    ∀ c ∈ (Server.after disk api es).world.cases.rows, ∀ t ∈ c.history,
      ∃ before r after principal, es = before ++ .request r :: after ∧
        MovedBy (Server.after disk api before) r principal c t := by
  constructor
  · intro item hitem
    exact madeBy_run hreviews api es hitem
  · intro c hc
    exact movedIn_run disk api es (KeyedTables.KeyedTable.find?_of_mem hc)

namespace Demo

def openComplaint : ServerEvent :=
  request "analyst" (.openCase { caseType := "complaint" }) (moment "case-1" "")

def takeUp : ServerEvent :=
  request "analyst" (.transitionCase "case-1" { toState := "under_review" }) (moment "" "")

def evaluateLate : ServerEvent :=
  request "approver" (.evaluateCase "case-1")
    ⟨"", ⟨noon.addDays 35, noon.addDays 35⟩, ⟨"rev-2", readings⟩⟩

def lateComplaint : List ServerEvent := [openComplaint, takeUp, evaluateLate]

end Demo

/-- The review of the late complaint is the analyst's, who took it up. -/
theorem demo_server_accounts_for_makers :
    ∃ item ∈ (Server.after ⟨true, true⟩ Demo.api Demo.lateComplaint).world.reviews.table.rows,
      item.request.maker = "demo.analyst@bank.example" ∧
      ∃ before r after, Demo.lateComplaint = before ++ .request r :: after ∧
        MadeBy (Server.after ⟨true, true⟩ Demo.api before) r item := by
  have hmaker :
      ((Server.after ⟨true, true⟩ Demo.api Demo.lateComplaint).world.reviews.table.rows.map
        (fun item => item.request.maker)) = ["demo.analyst@bank.example"] := by decide
  obtain ⟨item, hitem⟩ : ∃ item, item ∈
      (Server.after ⟨true, true⟩ Demo.api Demo.lateComplaint).world.reviews.table.rows := by
    apply List.exists_mem_of_ne_nil
    intro h
    rw [h] at hmaker
    cases hmaker
  have hone := List.mem_map_of_mem (f := fun item => item.request.maker) hitem
  rw [hmaker] at hone
  exact ⟨item, hitem, List.mem_singleton.mp hone,
    (server_accounts_for_makers ⟨true, true⟩ rfl Demo.api Demo.lateComplaint).1 item hitem⟩

end ReviewConsole

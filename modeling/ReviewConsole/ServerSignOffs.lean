import ReviewConsole.FourEyesRuns
import ReviewConsole.ServerRuns

/-!
# Who signs off through the server

What the runs of the console guarantee about their callers is carried over to the requests of the
server: the checker of an approval is a principal whom the identity adapter of that moment has
verified, and the approval is in the response that the principal was sent.
-/
namespace ReviewConsole
open PortPrograms GuardedRuns

namespace ConsoleApi

variable {api : ConsoleApi} {r : ApiRequest} {q : ConsoleRequest}

theorem serviceCall_dispose {d : DisposeArgs} (h : api.serviceCall r = some (.console q))
    (hd : q.call = .dispose d) :
    ∃ reviewId request principal, r.call = .user (.decideReview reviewId request) ∧
      api.getPrincipal r.headers = .ok principal ∧ q = ⟨api.console, .dispose
        (request.args reviewId (api.actor principal) principal), r.moment.readings⟩ := by
  rcases serviceCall_cases h with ⟨user, principal, hcall, hprincipal, h⟩ | ⟨request, -, -, h⟩
  · cases user with
    | decideReview reviewId request =>
      cases h
      cases hd
      exact ⟨reviewId, request, principal, hcall, hprincipal, rfl⟩
    | openCase request =>
      simp only [userServiceCall] at h
      split at h <;> cases h
    | _ => cases h <;> cases hd
  · cases h
    cases hd

theorem handle_decideReview {reviewId : String} {request : DecisionRequest} {principal : Principal}
    {w : World} {outcome : DispositionOutcome}
    (hcall : r.call = .user (.decideReview reviewId request))
    (hprincipal : api.getPrincipal r.headers = .ok principal)
    (h : (answer w ⟨api.console, .dispose (request.args reviewId (api.actor principal) principal),
      r.moment.readings⟩).1 = .ok (.outcome outcome)) :
    (api.handle localPorts r w).1 =
      .reply (if outcome.allowed then 200 else 403) (.decision (.fromOutcome outcome)) := by
  have hexec : ((api.console.dispose (request.args reviewId (api.actor principal) principal)
      r.moment.readings).exec localPorts w).1 = .ok outcome := by
    rw [answer, ConsoleRequest.program, Program.exec_bind_pure] at h
    revert h
    dsimp only
    cases ((api.console.dispose (request.args reviewId (api.actor principal) principal)
      r.moment.readings).exec localPorts w).1 with
    | error e => exact fun h => by cases h
    | ok outcome' =>
      intro h
      cases h
      rfl
  rw [handle_user hcall hprincipal]
  simp only [userRoute, decideReview, answering, hexec]

end ConsoleApi

/-- The call evaluates a stored case, and the assessment asks for a review by a human. -/
structure CaseWorkflowService.Escalates (svc : CaseWorkflowService) (w : World) (r : CaseRequest)
    (a : EvaluateArgs) (routing : Routing) (c : Case) (d : WorkflowDefinition)
    (assessment : CaseAssessment) (console : ConsoleService) : Prop where
  call : r.call = .evaluateCase a routing
  found : svc.found w a.tenant a.caseId = some (c, d)
  assessed : assess c d (a.asOf.getD r.readings.now) svc.holidays = .ok assessment
  review : assessment.requiresHumanReview = true
  router : svc.reviewRouter = some console

/-- What the engine asks of the console is to take the review of a stored case, or nothing. -/
theorem CaseWorkflowService.routedRequests_cases (svc : CaseWorkflowService) (w : World)
    (r : CaseRequest) :
    svc.routedRequests w r = [] ∨
    ∃ a routing c d assessment console, svc.Escalates w r a routing c d assessment console ∧
      svc.routedRequests w r = [⟨console, .submit (console.routedReview c assessment
        (routingMaker c) routing.reviewId), routing.readings⟩] := by
  simp only [routedRequests]
  cases hcall : r.call with
  | evaluateCase a routing =>
    dsimp only
    cases hfound : svc.found w a.tenant a.caseId with
    | none => exact Or.inl rfl
    | some found =>
      obtain ⟨c, d⟩ := found
      dsimp only
      split
      · rename_i assessment console hassess hrouter
        split
        · rename_i hreview
          exact Or.inr ⟨a, routing, c, d, assessment, console,
            ⟨hcall, hfound, hassess, hreview, hrouter⟩, rfl⟩
        · exact Or.inl rfl
      · exact Or.inl rfl
  | _ => exact Or.inl rfl

theorem CaseWorkflowService.mem_routedRequests {svc : CaseWorkflowService} {w : World}
    {r : CaseRequest} {q : ConsoleRequest} (h : q ∈ svc.routedRequests w r) :
    ∃ a routing c d assessment console, svc.Escalates w r a routing c d assessment console ∧
      q = ⟨console, .submit (console.routedReview c assessment
        (routingMaker c) routing.reviewId), routing.readings⟩ := by
  rcases svc.routedRequests_cases w r with hnone |
    ⟨a, routing, c, d, assessment, console, hescalates, hone⟩
  · rw [hnone] at h
    cases h
  · rw [hone] at h
    exact ⟨a, routing, c, d, assessment, console, hescalates, List.mem_singleton.mp h⟩

namespace Server

variable {disk : Disk} {api : ConsoleApi} {es : List ServerEvent}

/-- A request to the console in a run was made for a request to the server, and found the queue
that the server then had. -/
theorem consoleRun_split (hreviews : disk.reviews = true) {pre post : List ConsoleRequest}
    {q : ConsoleRequest} (h : consoleRun disk api es = pre ++ q :: post) :
    ∃ before r after, es = before ++ .request r :: after ∧
      (((Server.after disk api before).api.serviceCall r = some (.console q) ∧
        SameQueue (disk.audit = true) (Server.after disk api before).world (consoleAfter pre)) ∨
      ∃ svc call, (Server.after disk api before).api.serviceCall r = some (.engine svc call) ∧
        q ∈ svc.routedRequests (Server.after disk api before).world call) := by
  obtain ⟨before, event, after, front, back, rfl, hemit, rfl⟩ := GuardedRuns.projected_split h
  change consoleRequests (Server.after disk api before) event = front ++ q :: back at hemit
  cases event with
  | restart api' =>
    have hlength := congrArg List.length hemit
    simp [consoleRequests] at hlength
  | request r =>
    refine ⟨before, r, after, rfl, ?_⟩
    simp only [consoleRequests] at hemit
    cases hcall : (Server.after disk api before).api.serviceCall r with
    | none =>
      rw [hcall] at hemit
      have hlength := congrArg List.length hemit
      simp at hlength
    | some call =>
      rw [hcall] at hemit
      cases call with
      | console q' =>
        have hone : [q'] = front ++ q :: back := hemit
        obtain ⟨rfl, rfl⟩ : front = [] ∧ q' = q := by
          cases front with
          | nil => exact ⟨rfl, (List.cons.inj hone).1⟩
          | cons x front =>
            have hlength := congrArg List.length hone
            simp at hlength
        rw [List.append_nil]
        exact Or.inl ⟨rfl, after_queue hreviews api before⟩
      | engine svc q' =>
        refine Or.inr ⟨svc, q', rfl, ?_⟩
        have hrouted : svc.routedRequests (Server.after disk api before).world q' =
            front ++ q :: back := hemit
        rw [hrouted]
        exact List.mem_append_right _ (List.mem_cons_self)

end Server

/-- The request was made by the principal, who holds the approver group of the policy then in
force in the item's tenant, and was answered with the approval. -/
structure SignedBy (s : Server) (r : ApiRequest) (principal : Principal) (item : ReviewItem)
    (approval : Approval) : Prop where
  verified : s.api.getPrincipal r.headers = .ok principal
  checker : s.api.actor principal = approval.checker
  tenant : principal.tenant = item.tenant
  role : s.api.console.engine.policy.approverGroup ∈ principal.principals
  sod : s.api.console.engine.policy.enforceSod = true → item.request.sodGroup ≠ "" →
    item.request.sodGroup ∉ principal.principals
  call : ∃ request, r.call = .user (.decideReview item.reviewId request) ∧
    request.disposition = .approve
  answered : ∃ body, (s.api.handle localPorts r s.world).1 = .reply 200 (.decision body) ∧
    body.item.approvals.getLast? = some ⟨approval.checker, approval.reason⟩

theorem signedBy_of_givenIn {disk : Disk} (hreviews : disk.reviews = true) {api : ConsoleApi}
    {es : List ServerEvent} {item : ReviewItem} {approval : Approval}
    (h : GivenIn (Server.consoleRun disk api es) item approval) :
    ∃ before r after principal, es = before ++ .request r :: after ∧
      SignedBy (Server.after disk api before) r principal item approval := by
  obtain ⟨pre, q, post, stored, hsplit, hgives⟩ := h
  obtain ⟨d, hd, happrove, hchecker, hid, htenant, hrole, hsod⟩ := hgives.call
  obtain ⟨outcome, hanswer, hallowed, happrovals⟩ := hgives.answered
  obtain ⟨before, r, after, rfl, horigin⟩ := Server.consoleRun_split hreviews hsplit
  rcases horigin with ⟨hcall, hqueue⟩ | ⟨svc, call, -, hrouted⟩
  · obtain ⟨reviewId, request, principal, hroute, hprincipal, rfl⟩ :=
      ConsoleApi.serviceCall_dispose hcall hd
    cases hd
    rw [← (hqueue.answer _).1] at hanswer
    have hresponse := ConsoleApi.handle_decideReview hroute hprincipal hanswer
    rw [hallowed, if_pos rfl] at hresponse
    cases hid
    refine ⟨before, r, after, principal, rfl, hprincipal, hchecker, htenant, hrole, hsod,
      ⟨request, hroute, happrove⟩, _, hresponse, ?_⟩
    simp [DecisionResponse.fromOutcome, ReviewItemModel.fromDomain, happrovals]
  · obtain ⟨a, routing, c, d', assessment, console, -, rfl⟩ :=
      CaseWorkflowService.mem_routedRequests hrouted
    cases hd

/-- With the review table on disk, in every state that the server reaches through any requests,
restarts and configurations: an approved review holds exactly the approvals it asks for, by
distinct checkers who are not its maker; and every approval of a review was given by a request of
the run whose principal, verified then, is of its tenant and entitled, and was answered 200 with
that approval. -/
theorem server_signs_off (disk : Disk) (hreviews : disk.reviews = true) (api : ConsoleApi)
    (es : List ServerEvent) :
    ∀ item ∈ (Server.after disk api es).world.reviews.table.rows,
      (item.state = .approved →
        (item.approvals.length : ℤ) = item.request.requiredApprovals) ∧
      item.approvers.Nodup ∧ item.request.maker ∉ item.approvers ∧
      ∀ approval ∈ item.approvals, ∃ before r after principal, es = before ++ .request r :: after ∧
        SignedBy (Server.after disk api before) r principal item approval := by
  intro item hitem
  have hget := LocalReviewStore.get_of_mem hitem
  rw [(Server.after_queue hreviews api es).reviews] at hget
  have hsigned := signedOff_run _ hget
  refine ⟨fun happroved => (hsigned.approved happroved).1, hsigned.distinct, hsigned.maker, ?_⟩
  intro approval happroval
  exact signedBy_of_givenIn hreviews (hsigned.given approval happroval)

/-- The facility approved after the restart, and who approved it. -/
theorem demo_server_signs_off :
    ∃ item ∈ (Server.after ⟨true, false⟩ Demo.api Demo.night).world.reviews.table.rows,
      item.state = .approved ∧ ∀ approval ∈ item.approvals,
        ∃ before r after principal, Demo.night = before ++ .request r :: after ∧
          SignedBy (Server.after ⟨true, false⟩ Demo.api before) r principal item approval := by
  refine ⟨_, List.Mem.head _, rfl, ?_⟩
  exact (server_signs_off ⟨true, false⟩ rfl Demo.api Demo.night _ (List.Mem.head _)).2.2.2

end ReviewConsole

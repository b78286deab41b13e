import ReviewConsole.ServerErrors
import ReviewConsole.ServerMakers
import ReviewConsole.ServerReads

/-!
# What a client knows of a case

A case is in the responses to its opening, to its transitions and to reads of it. As long as no
opening has failed, the case is what was shown last, and the next states that were shown are those
to which a transition is accepted.
-/
namespace ReviewConsole
open PortPrograms GuardedRuns

def ApiResponse.case : ApiResponse → Option CaseModel
  | .reply _ (.case c) => some c
  | _ => none

namespace ConsoleApi

variable (api : ConsoleApi)

def readCase (tenant id : String) (w : World) : Option CaseModel :=
  (w.getCase tenant id).bind (fun c =>
    (api.definitions.definition c.caseType).map (CaseModel.fromDomain c))

def shownCase (tenant id : String) (w : World) (r : ApiRequest) : Option CaseModel :=
  (api.handle localPorts r w).1.case.filter (fun c => c.tenant = tenant ∧ c.caseId = id)

/-- The request is no opening that ends in an internal error. -/
def OpensWhole (w : World) (r : ApiRequest) : Prop :=
  ∀ request, r.call = .user (.openCase request) → (api.handle localPorts r w).1.isInternal = false

variable {api} {tenant id : String} {w w' : World} {r : ApiRequest} {principal : Principal}

private theorem shown_case (c : Case) (d : WorkflowDefinition) :
    (some (CaseModel.fromDomain c d)).filter
        (fun shown => shown.tenant = tenant ∧ shown.caseId = id) =
      if c.key = (tenant, id) then some (.fromDomain c d) else none := by
  have hkey : c.key = (tenant, id) ↔ c.tenant = tenant ∧ c.caseId = id := Prod.mk_inj
  rw [Option.filter_some]
  apply if_congr _ rfl rfl
  rw [hkey, decide_eq_true_eq]
  rfl

private theorem readCase_upsert {c : Case} {d : WorkflowDefinition}
    (hcases : w'.cases = w.cases.upsert c)
    (hdefinition : api.definitions.definition c.caseType = some d) :
    api.readCase tenant id w' = ((some (CaseModel.fromDomain c d)).filter
      (fun shown => shown.tenant = tenant ∧ shown.caseId = id)).or (api.readCase tenant id w) := by
  rw [shown_case, readCase, World.getCase_of_upsert hcases]
  by_cases hkey : c.key = (tenant, id)
  · rw [if_pos hkey, if_pos hkey.symm, Option.bind_some, hdefinition]
    rfl
  · rw [if_neg hkey, if_neg (Ne.symm hkey)]
    rfl

private theorem readCase_shown {c : Case} {d : WorkflowDefinition} {tenant' id' : String}
    (hget : w.getCase tenant' id' = some c)
    (hdefinition : api.definitions.definition c.caseType = some d) :
    api.readCase tenant id w = ((some (CaseModel.fromDomain c d)).filter
      (fun shown => shown.tenant = tenant ∧ shown.caseId = id)).or (api.readCase tenant id w) := by
  rw [shown_case]
  by_cases hkey : c.key = (tenant, id)
  · obtain ⟨rfl, rfl⟩ := Prod.mk.inj ((World.key_of_getCase hget).symm.trans hkey)
    rw [if_pos hkey, readCase, hget, Option.bind_some, hdefinition]
    rfl
  · rw [if_neg hkey]
    rfl

private theorem readCase_quiet (hresponse : (api.handle localPorts r w).1.case = none)
    (hcases : (api.handle localPorts r w).2.cases = w.cases) :
    api.readCase tenant id (api.handle localPorts r w).2 =
      (api.shownCase tenant id w r).or (api.readCase tenant id w) := by
  have hget := World.getCase_of_same hcases tenant id
  simp only [shownCase, hresponse, readCase, hget]
  rfl

private theorem console_cases {q : ConsoleRequest}
    (hservice : api.serviceCall r = some (.console q)) :
    (api.handle localPorts r w).2.cases = w.cases := by
  rw [handle_world, hservice, called, ServiceCall.console_world]
  have hsame : SameCases [] w w := ⟨rfl, rfl, rfl, rfl⟩
  exact (SameCases.serve hsame q).cases

private theorem serveCase_cases {svc : CaseWorkflowService} {call : CaseRequest}
    (hopen : ∀ a, call.call ≠ .openCase a) (htransition : ∀ a, call.call ≠ .transitionCase a) :
    (serveCase svc w call).cases = w.cases := by
  have heffect := caseEffect svc w call
  simp only [serveCase]
  cases heffect with
  | untouched hidle hresponse hworld => rw [hworld]
  | opened a d c timers hcall => exact absurd hcall (hopen a)
  | openedPartly a d c timers e hcall => exact absurd hcall (hopen a)
  | refused a c d hcall => exact absurd hcall (htransition a)
  | moved a c moved d hcall => exact absurd hcall (htransition a)
  | evaluated a routing c d assessment reviews submitted hcall hget hdefinition hassess hrouted
      hresponse hworld => rw [hworld]

private theorem engine_cases {svc : CaseWorkflowService} {call : CaseRequest}
    (hservice : api.serviceCall r = some (.engine svc call))
    (hopen : ∀ a, call.call ≠ .openCase a) (htransition : ∀ a, call.call ≠ .transitionCase a) :
    (api.handle localPorts r w).2.cases = w.cases := by
  rw [handle_world, hservice, called, ServiceCall.engine_world]
  exact serveCase_cases hopen htransition

private theorem openCase_step {request : OpenCaseRequest}
    (hcall : r.call = .user (.openCase request))
    (hprincipal : api.getPrincipal r.headers = .ok principal)
    (hwhole : (api.handle localPorts r w).1.isInternal = false) :
    api.readCase tenant id (api.handle localPorts r w).2 =
      (api.shownCase tenant id w r).or (api.readCase tenant id w) := by
  have hroute : api.handle localPorts r w =
      api.openCase localPorts request principal r.moment w := by
    rw [handle_user hcall hprincipal]
    rfl
  cases hdefinition : api.definitions.definition request.caseType with
  | none =>
    have hhandle : api.handle localPorts r w =
        (.refusal ⟨422, "unknown case_type " ++ api.repr request.caseType⟩, w) := by
      rw [hroute]
      exact if_pos hdefinition
    apply readCase_quiet
    · rw [hhandle]
      rfl
    · rw [hhandle]
  | some d =>
    have hresponse := openCase_response api principal r.moment w hdefinition
    rw [← hroute] at hresponse
    rw [hresponse] at hwhole
    dsimp only at hresponse hwhole
    have hservice : api.serviceCall r = some (.engine api.caseService ⟨.openCase
        (request.args r.moment.uuid principal.tenant (api.actor principal)),
        r.moment.readings⟩) := by
      simp only [serviceCall, hcall, hprincipal, userServiceCall]
      rw [if_neg (by simp [hdefinition])]
    have hworld : (api.handle localPorts r w).2 = serveCase api.caseService w ⟨.openCase
        (request.args r.moment.uuid principal.tenant (api.actor principal)),
        r.moment.readings⟩ := by
      rw [handle_world, hservice, called, ServiceCall.engine_world]
    have heffect := caseEffect api.caseService w ⟨.openCase
      (request.args r.moment.uuid principal.tenant (api.actor principal)), r.moment.readings⟩
    rw [← serveCase, ← hworld] at heffect
    cases heffect with
    | untouched hidle => cases hidle.symm.trans hdefinition
    | opened a d' c timers hcall' hdefinition' hcase htimers hanswer hleft =>
      cases hcall'
      cases hdefinition'.symm.trans hdefinition
      have htimers' : (api.caseService.scheduled c d c.openedAt d.clocks).2 = none :=
        congrArg Prod.snd htimers
      rw [hcase] at htimers'
      rw [htimers'] at hresponse
      rw [shownCase, hresponse, ← hcase]
      apply readCase_upsert
      · rw [hleft, World.audited_cases, World.withEvent_cases, World.withTimers_cases]
      · rw [hcase]
        change api.definitions.definition d.caseType = some d
        rw [api.definitions.keyed _ _ hdefinition]
        exact hdefinition
    | openedPartly a d' c timers e hcall' hdefinition' hcase hbound htimers hanswer hleft =>
      cases hcall'
      cases hdefinition'.symm.trans hdefinition
      have htimers' : (api.caseService.scheduled c d c.openedAt d.clocks).2 = some e :=
        congrArg Prod.snd htimers
      rw [hcase] at htimers'
      rw [htimers'] at hwhole
      cases hwhole
    | refused a c d' hcall' => cases hcall'
    | moved a c moved d' hcall' => cases hcall'
    | evaluated a routing c d' assessment reviews submitted hcall' => cases hcall'

private theorem transitionCase_step {caseId : String} {request : TransitionRequest}
    (hcall : r.call = .user (.transitionCase caseId request))
    (hprincipal : api.getPrincipal r.headers = .ok principal) :
    api.readCase tenant id (api.handle localPorts r w).2 =
      (api.shownCase tenant id w r).or (api.readCase tenant id w) := by
  have hservice : api.serviceCall r = some (.engine api.caseService ⟨.transitionCase
      (request.args caseId principal.tenant (api.actor principal)), r.moment.readings⟩) := by
    simp only [serviceCall, hcall, hprincipal, userServiceCall]
  have hworld : (api.handle localPorts r w).2 = serveCase api.caseService w ⟨.transitionCase
      (request.args caseId principal.tenant (api.actor principal)), r.moment.readings⟩ := by
    rw [handle_world, hservice, called, ServiceCall.engine_world]
  have hresponse : (api.handle localPorts r w).1 =
      (api.transitionCase localPorts caseId request principal r.moment w).1 := by
    rw [handle_user hcall hprincipal]
    rfl
  rw [transitionCase_response] at hresponse
  have heffect := caseEffect api.caseService w ⟨.transitionCase
    (request.args caseId principal.tenant (api.actor principal)), r.moment.readings⟩
  rw [← serveCase, ← hworld] at heffect
  cases heffect with
  | untouched hidle hanswer hleft =>
    apply readCase_quiet _ (congrArg World.cases hleft)
    rw [hresponse]
    cases hget : w.getCase principal.tenant caseId with
    | none => rfl
    | some c =>
      have hnone : api.definitions.definition c.caseType = none := hidle c hget
      simp only [hnone]
      rfl
  | opened a d c timers hcall' => cases hcall'
  | openedPartly a d c timers e hcall' => cases hcall'
  | refused a c d hcall' hget hdefinition hlegal hanswer hleft =>
    cases hcall'
    apply readCase_quiet
    · have hget' : w.getCase principal.tenant caseId = some c := hget
      have hdefinition' : api.definitions.definition c.caseType = some d := hdefinition
      have hlegal' : d.isLegal c.state request.toState = false := hlegal
      rw [hresponse]
      simp only [hget', hdefinition', hlegal']
      rfl
    · rw [hleft, World.audited_cases]
  | moved a c moved d hcall' hget hdefinition hlegal hmoved hanswer hleft =>
    cases hcall'
    have hget' : w.getCase principal.tenant caseId = some c := hget
    have hdefinition' : api.definitions.definition c.caseType = some d := hdefinition
    have hlegal' : d.isLegal c.state request.toState = true := hlegal
    simp only [hget', hdefinition', hlegal', if_true] at hresponse
    rw [shownCase, hresponse, ← hmoved]
    apply readCase_upsert
    · rw [hleft, World.audited_cases, World.withEvent_cases]
      split <;> rfl
    · rw [hmoved]
      exact hdefinition'
  | evaluated a routing c d assessment reviews submitted hcall' => cases hcall'

private theorem getCase_step {caseId : String} (hcall : r.call = .user (.getCase caseId))
    (hprincipal : api.getPrincipal r.headers = .ok principal) :
    api.readCase tenant id (api.handle localPorts r w).2 =
      (api.shownCase tenant id w r).or (api.readCase tenant id w) := by
  have hservice : api.serviceCall r = some (.engine api.caseService
      ⟨.get principal.tenant caseId, r.moment.readings⟩) := by
    simp only [serviceCall, hcall, hprincipal, userServiceCall]
  have hcases := engine_cases (w := w) hservice (by simp) (by simp)
  have hresponse : (api.handle localPorts r w).1 =
      (api.getCase localPorts caseId principal w).1 := by
    rw [handle_user hcall hprincipal]
    rfl
  rw [getCase_response] at hresponse
  cases hget : w.getCase principal.tenant caseId with
  | none =>
    apply readCase_quiet _ hcases
    rw [hresponse, hget]
    rfl
  | some c =>
    simp only [hget, caseReply] at hresponse
    cases hdefinition : api.definitions.definition c.caseType with
    | none =>
      apply readCase_quiet _ hcases
      simp only [hresponse, hdefinition]
      rfl
    | some d =>
      simp only [hdefinition] at hresponse
      have hsame := World.getCase_of_same hcases tenant id
      rw [shownCase, hresponse, readCase, hsame, ← readCase]
      exact readCase_shown hget hdefinition

/-- A request changes a case with a response that shows it. -/
theorem readCase_step (hwhole : api.OpensWhole w r) :
    api.readCase tenant id (api.handle localPorts r w).2 =
      (api.shownCase tenant id w r).or (api.readCase tenant id w) := by
  cases hcall : r.call with
  | submitReviewService request =>
    cases hcaller : api.serviceCaller r.headers with
    | error e =>
      apply readCase_quiet
      · rw [handle_service_refused hcall hcaller]
        rfl
      · rw [handle_service_refused hcall hcaller]
    | ok caller =>
      have hservice : api.serviceCall r = some (.console ⟨api.console, .submitIdempotent
          (request.submission r.moment.uuid), r.moment.readings⟩) := by
        simp only [serviceCall, hcall, hcaller]
      apply readCase_quiet _ (console_cases hservice)
      rw [handle_service hcall hcaller, submitReviewService_response]
      split <;> rfl
  | user user =>
    cases hprincipal : api.getPrincipal r.headers with
    | error e =>
      apply readCase_quiet
      · rw [handle_user_refused hcall hprincipal]
        rfl
      · rw [handle_user_refused hcall hprincipal]
    | ok principal =>
      have hservice : api.serviceCall r = api.userServiceCall user principal r.moment := by
        simp only [serviceCall, hcall, hprincipal]
      have hroute : api.handle localPorts r = api.userRoute localPorts user principal r.moment :=
        handle_user hcall hprincipal
      cases user with
      | submitReview request =>
        apply readCase_quiet _ (console_cases hservice)
        rw [hroute, userRoute, submitReview_response]
        rfl
      | listReviews =>
        apply readCase_quiet _ (console_cases hservice)
        rw [hroute]
        rfl
      | getReview reviewId =>
        apply readCase_quiet _ (console_cases hservice)
        rw [hroute, userRoute, getReview_response]
        split <;> rfl
      | decideReview reviewId request =>
        apply readCase_quiet _ (console_cases hservice)
        rw [hroute, userRoute, decideReview_response]
        split
        · rfl
        · split <;> rfl
      | openCase request => exact openCase_step hcall hprincipal (hwhole request hcall)
      | listCases =>
        apply readCase_quiet _ (engine_cases hservice (by simp) (by simp))
        rw [hroute]
        rfl
      | getCase caseId => exact getCase_step hcall hprincipal
      | transitionCase caseId request => exact transitionCase_step hcall hprincipal
      | evaluateCase caseId =>
        apply readCase_quiet _ (engine_cases hservice (by simp) (by simp))
        rw [hroute, userRoute, evaluateCase_response]
        split
        · rfl
        · split
          · rfl
          · split <;> rfl

end ConsoleApi

section
variable {api : ConsoleApi} {w : World} {rs : List ApiRequest}

variable (api) in
/-- What the last response of the run that showed the case says of it, or what was stored. -/
def ConsoleApi.knownCase (tenant id : String) (w : World) (rs : List ApiRequest) :
    Option CaseModel :=
  (lastShown api.serve (api.shownCase tenant id) w rs).or (api.readCase tenant id w)

theorem ConsoleApi.readCase_run (tenant id : String)
    (hwhole : Along api.serve api.OpensWhole w rs) :
    api.readCase tenant id (run api.serve w rs) = api.knownCase tenant id w rs :=
  read_run (api.readCase tenant id) (fun _ _ h => readCase_step h) hwhole

private theorem registered_run {s : Server} (h : s.Registered) (rs : List ApiRequest) :
    (Server.mk s.api (run s.api.serve s.world rs)).Registered := by
  induction rs generalizing s with
  | nil => exact h
  | cons r rs ih =>
    have hstep : (Server.step ⟨true, true⟩ s (.request r)).Registered := h.step (.request r)
    exact ih hstep

/-- A transition as the client can work it out from the case it was shown. -/
def CaseModel.moved (shown : CaseModel) (request : TransitionRequest) (actor «at» : String)
    (d : WorkflowDefinition) : CaseModel :=
  { shown with
    state := request.toState
    history := shown.history ++
      [⟨shown.history.length + 1, shown.state, request.toState, actor, request.reason, «at»⟩]
    legalNextStates := d.states.filter (d.isLegal request.toState) }

theorem CaseModel.fromDomain_advanced (c : Case) (d : WorkflowDefinition)
    (request : TransitionRequest) (caseId tenant actor : String) (now : DateTime) :
    CaseModel.fromDomain (CaseWorkflowService.advanced c (request.args caseId tenant actor) now) d =
      (CaseModel.fromDomain c d).moved request actor now.isoformat d := by
  simp [CaseModel.fromDomain, CaseModel.moved, CaseWorkflowService.advanced, Case.moved, Case.entry,
    Case.nextSeq, TransitionRequest.args, ReviewConsole.legalNextStates]

end

def ApiResponse.ofCase : Option CaseModel → ApiResponse
  | none => .refusal ⟨404, "case not found"⟩
  | some c => .reply 200 (.case c)

section
variable {disk : Disk} {api : ConsoleApi} {es : List ServerEvent} {s : Server}
variable {w : World} {rs : List ApiRequest} {r : ApiRequest} {principal : Principal}

/-- From any state that the server reaches, a read of a case returns it as the last response that
showed it did, whoever was answered, in a run in which no opening ends in an internal error. -/
theorem case_reads_as_last_shown (hs : s = Server.after disk api es)
    (hwhole : Along s.api.serve s.api.OpensWhole s.world rs) {id : String}
    (hcall : r.call = .user (.getCase id))
    (hprincipal : s.api.getPrincipal r.headers = .ok principal) :
    (s.api.handle localPorts r (run s.api.serve s.world rs)).1 =
      .ofCase (s.api.knownCase principal.tenant id s.world rs) := by
  have hregistered := registered_run (hs ▸ Server.registered_after disk api es) rs
  rw [← ConsoleApi.readCase_run _ _ hwhole, ConsoleApi.handle_user hcall hprincipal,
    ConsoleApi.userRoute, ConsoleApi.getCase_response, ConsoleApi.readCase]
  cases hget : (run s.api.serve s.world rs).getCase principal.tenant id with
  | none => rfl
  | some c =>
    obtain ⟨d, hd⟩ := hregistered _ _ _ hget
    have hdefinition : s.api.definitions.definition c.caseType = some d := hd
    simp only [ConsoleApi.caseReply, hdefinition, Option.bind_some]
    rfl

/-- The next states that a client was shown decide the transition it asks for next: one of them is
made, and the response is the case shown with that transition; every other state of the workflow
is refused. -/
theorem shown_next_states_decide (hwhole : Along api.serve api.OpensWhole w rs) {id : String}
    {request : TransitionRequest} (hcall : r.call = .user (.transitionCase id request))
    (hprincipal : api.getPrincipal r.headers = .ok principal) {shown : CaseModel}
    (hshown : api.knownCase principal.tenant id w rs = some shown) {d : WorkflowDefinition}
    (hdefinition : api.definitions.definition shown.caseType = some d)
    (hdeclared : request.toState ∈ d.states) :
    (api.handle localPorts r (run api.serve w rs)).1 =
      if request.toState ∈ shown.legalNextStates then
        .reply 200 (.case (shown.moved request (api.actor principal)
          r.moment.readings.now.isoformat d))
      else .refusal ⟨409, api.illegalTransition shown.state request.toState⟩ := by
  rw [← ConsoleApi.readCase_run _ _ hwhole, ConsoleApi.readCase] at hshown
  obtain ⟨c, hget, hmodel⟩ := Option.bind_eq_some_iff.mp hshown
  obtain ⟨d', hdefinition', rfl⟩ := Option.map_eq_some_iff.mp hmodel
  cases hdefinition'.symm.trans hdefinition
  rw [ConsoleApi.handle_user hcall hprincipal, ConsoleApi.userRoute,
    ConsoleApi.transitionCase_response, hget]
  simp only [hdefinition']
  have hlegal : request.toState ∈ (CaseModel.fromDomain c d).legalNextStates ↔
      d.isLegal c.state request.toState = true := by
    change request.toState ∈ legalNextStates c d ↔ _
    rw [mem_legalNextStates]
    exact and_iff_right hdeclared
  rw [if_congr hlegal rfl rfl]
  apply if_congr Iff.rfl _ rfl
  rw [CaseModel.fromDomain_advanced]

end

namespace Demo

def askOpen : ApiRequest :=
  ⟨[("x-dev-persona", "analyst")], .user (.openCase { caseType := "complaint" }),
    moment "case-1" ""⟩

def askTakeUp : ApiRequest :=
  ⟨[("x-dev-persona", "analyst")], .user (.transitionCase "case-1" { toState := "under_review" }),
    moment "" ""⟩

def askCase : ApiRequest :=
  ⟨[("x-dev-persona", "approver")], .user (.getCase "case-1"), moment "" ""⟩

theorem opensWhole_complaint :
    Along api.serve api.OpensWhole World.empty [askOpen, askTakeUp] := by
  refine ⟨?_, ?_, trivial⟩
  · intro request hcall
    rfl
  · intro request hcall
    cases hcall

end Demo

/-- The approver reads the complaint as the analyst was shown it. -/
theorem demo_case_reads_as_last_shown :
    ∃ shown, Demo.api.shownCase "demo-bank" "case-1" (Demo.api.serve World.empty Demo.askOpen)
        Demo.askTakeUp = some shown ∧ shown.state = "under_review" ∧
      (Demo.api.handle localPorts Demo.askCase
        (run Demo.api.serve World.empty [Demo.askOpen, Demo.askTakeUp])).1 =
          .reply 200 (.case shown) := by
  have hs : (⟨Demo.api, .empty⟩ : Server) = Server.after ⟨true, true⟩ Demo.api [] := rfl
  have hcall : Demo.askCase.call = .user (.getCase "case-1") := rfl
  refine ⟨_, rfl, rfl, ?_⟩
  exact case_reads_as_last_shown hs Demo.opensWhole_complaint hcall (Eq.refl (Except.ok _))

/-- The complaint taken up again: the state it is in was not among the next ones shown. -/
theorem demo_shown_next_states_decide :
    ∃ shown, Demo.api.knownCase "demo-bank" "case-1" World.empty [Demo.askOpen, Demo.askTakeUp] =
        some shown ∧ "under_review" ∉ shown.legalNextStates ∧
      (Demo.api.handle localPorts Demo.askTakeUp
        (run Demo.api.serve World.empty [Demo.askOpen, Demo.askTakeUp])).1 =
          .refusal ⟨409, Demo.api.illegalTransition "under_review" "under_review"⟩ := by
  have hcall : Demo.askTakeUp.call =
    .user (.transitionCase "case-1" { toState := "under_review" }) := rfl
  have hnext : "under_review" ∉ ["awaiting_customer", "escalated", "resolved"] := by decide
  have hdeclared : "under_review" ∈ Demo.complaint.states := by decide
  refine ⟨_, rfl, hnext, ?_⟩
  have hdecided := shown_next_states_decide Demo.opensWhole_complaint hcall
    (Eq.refl (Except.ok _)) rfl rfl hdeclared
  exact hdecided.trans (if_neg hnext)

end ReviewConsole

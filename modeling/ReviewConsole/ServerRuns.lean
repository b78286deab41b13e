import ReviewConsole.ApiCalls
import ReviewConsole.FinishedCases
import ReviewConsole.GuardedRuns

/-!
# Runs of the server

The server handles requests one after another and may be restarted in between. A request is at
most one call on the console or the engine, and an escalation is a submission to the console, so
a run of the server has a run of each service inside it: its queue is that of the console run,
through every restart, and its cases are those of the engine run since the last restart.
-/
namespace ReviewConsole
open PortPrograms Program GuardedRuns

namespace World

variable (w : World)

def caseActions : List CaseAuditEvent :=
  w.log.filterMap (fun
    | .caseAction e => some e
    | .signOff _ => none)

theorem trail_eq (tenant id : String) :
    w.trail tenant id = w.signOffs.filter (fun e => e.tenant = tenant ∧ e.reviewId = id) := by
  simp only [trail, signOffs]
  induction w.log with
  | nil => rfl
  | cons e log ih =>
    cases e with
    | signOff e =>
      simp only [List.filterMap_cons, List.filter_cons, decide_eq_true_eq]
      split_ifs with h
      · exact congrArg _ ih
      · exact ih
    | caseAction e => exact ih

theorem caseTrail_eq (tenant id : String) :
    w.caseTrail tenant id = w.caseActions.filter (fun e => e.tenant = tenant ∧ e.caseId = id) := by
  simp only [caseTrail, caseActions]
  induction w.log with
  | nil => rfl
  | cons e log ih =>
    cases e with
    | caseAction e =>
      simp only [List.filterMap_cons, List.filter_cons, decide_eq_true_eq]
      split_ifs with h
      · exact congrArg _ ih
      · exact ih
    | signOff e => exact ih

end World

/-- The operations of the review store, and the record of a sign-off event. -/
def IsQueueOp : PortOp → Prop
  | .reviewPut _ | .reviewPutIfAbsentBySourceKey _ | .reviewGet _ _ | .reviewFindBySourceKey _ _
  | .reviewListPending _ | .reviewListAll _ | .record (.signOff _) => True
  | _ => False

/-- The two worlds have the same queue, and where `audited` holds the same sign-off events. -/
structure SameQueue (audited : Prop) (w w' : World) : Prop where
  reviews : w.reviews = w'.reviews
  signOffs : audited → w.signOffs = w'.signOffs

/-- The two worlds have the same cases, timers and published events, and the log of the first has
these case events before those of the second. -/
structure SameCases (found : List CaseAuditEvent) (w w' : World) : Prop where
  cases : w.cases = w'.cases
  timers : w.timers = w'.timers
  published : w.published = w'.published
  caseActions : w.caseActions = found ++ w'.caseActions

section
variable {audited : Prop} {w w' : World}

theorem SameQueue.op (h : SameQueue audited w w') {op : PortOp} (hop : IsQueueOp op) :
    (localPorts op w).1 = (localPorts op w').1 ∧
      SameQueue audited (localPorts op w).2 (localPorts op w').2 := by
  obtain ⟨hreviews, hsignOffs⟩ := h
  cases op with
  | reviewPut item =>
    simp only [localPorts, hreviews]
    cases w'.reviews.put item with
    | error e => exact ⟨rfl, hreviews, hsignOffs⟩
    | ok reviews => exact ⟨rfl, rfl, hsignOffs⟩
  | reviewPutIfAbsentBySourceKey item =>
    simp only [localPorts, hreviews]
    cases w'.reviews.putIfAbsentBySourceKey item with
    | error e => exact ⟨rfl, hreviews, hsignOffs⟩
    | ok answer => exact ⟨rfl, rfl, hsignOffs⟩
  | record event =>
    cases event with
    | signOff e =>
      refine ⟨rfl, hreviews, ?_⟩
      intro haudited
      simp only [localPorts, World.signOffs, List.filterMap_append]
      exact congrArg (· ++ [e]) (hsignOffs haudited)
    | caseAction e => exact hop.elim
  | reviewGet tenant id => exact ⟨by simp only [localPorts, hreviews], hreviews, hsignOffs⟩
  | reviewFindBySourceKey tenant key =>
    exact ⟨by simp only [localPorts, hreviews], hreviews, hsignOffs⟩
  | reviewListPending tenant => exact ⟨by simp only [localPorts, hreviews], hreviews, hsignOffs⟩
  | reviewListAll tenant => exact ⟨by simp only [localPorts, hreviews], hreviews, hsignOffs⟩
  | _ => exact hop.elim

private theorem dispose_isQueueOp (console : ConsoleService) (d : DisposeArgs) (r : Readings) :
    (console.dispose d r).Only IsQueueOp := by
  refine (only_perform trivial).bind (fun found => ?_)
  cases found with
  | none => exact only_raise _
  | some stored =>
    dsimp only
    cases console.engine.dispose (console.withEffectiveRouting stored) (d.decision r.now)
        d.asOf with
    | error e => exact only_raise _
    | ok outcome =>
      have hrecord : (console.record outcome.item "dispose" d.checker d.disposition
          outcome.decision d.reason outcome.findings r.timestamp >>= fun _ =>
            (pure outcome : Service DispositionOutcome)).Only IsQueueOp :=
        (only_perform trivial).bind (fun _ => only_pure _)
      dsimp only
      split
      · exact (only_perform trivial).bind (fun _ => hrecord)
      · exact hrecord

theorem ConsoleRequest.isQueueOp (r : ConsoleRequest) : r.program.Only IsQueueOp := by
  obtain ⟨console, call, readings⟩ := r
  cases call with
  | submit s =>
    exact (submit_only s readings (fun _ _ => trivial) (fun _ _ => trivial)).bind
      (fun _ => only_pure _)
  | submitIdempotent s =>
    exact (submitIdempotent_only s readings (fun _ _ => trivial) (fun _ _ => trivial)).bind
      (fun _ => only_pure _)
  | dispose d => exact (dispose_isQueueOp console d readings).bind (fun _ => only_pure _)
  | getBySourceKey tenant key => exact (only_perform trivial).bind (fun _ => only_pure _)
  | listQueue tenant =>
    exact ((only_perform trivial).bind (fun _ => only_pure _)).bind (fun _ => only_pure _)
  | listAll tenant =>
    exact ((only_perform trivial).bind (fun _ => only_pure _)).bind (fun _ => only_pure _)
  | get tenant id => exact (get_only trivial).bind (fun _ => only_pure _)

theorem SameQueue.answer (h : SameQueue audited w w') (r : ConsoleRequest) :
    (ReviewConsole.answer w r).1 = (ReviewConsole.answer w' r).1 ∧
      SameQueue audited (serve w r) (serve w' r) :=
  Confined.exec_congr localPorts (fun _ _ _ _ _ => trivial) (fun _ _ _ hop hw => hw.op hop)
    r.isQueueOp h

end

/-- The operations of the engine. A review that it routes has no source key, so that no row of
the review store can keep it out. -/
def IsCaseOp : PortOp → Prop
  | .reviewPut item => item.request.sourceKey = ""
  | .casePut _ | .caseGet _ _ | .caseListByTenant _ | .timerSchedule _ | .timerCancel _ _ _
  | .publish _ | .record _ => True
  | _ => False

section
variable {found : List CaseAuditEvent} {w w' : World} {svc : CaseWorkflowService}

theorem SameCases.op (h : SameCases found w w') {op : PortOp} (hop : IsCaseOp op) :
    (localPorts op w).1 = (localPorts op w').1 ∧
      SameCases found (localPorts op w).2 (localPorts op w').2 := by
  obtain ⟨hcases, htimers, hpublished, hactions⟩ := h
  cases op with
  | reviewPut item =>
    obtain ⟨reviews, hput⟩ := w.reviews.put_of_no_source hop
    obtain ⟨reviews', hput'⟩ := w'.reviews.put_of_no_source hop
    simp only [localPorts, hput, hput']
    exact ⟨trivial, hcases, htimers, hpublished, hactions⟩
  | casePut c => exact ⟨rfl, congrArg (·.upsert c) hcases, htimers, hpublished, hactions⟩
  | caseGet tenant id =>
    exact ⟨by simp only [localPorts, World.getCase, hcases], hcases, htimers, hpublished, hactions⟩
  | caseListByTenant tenant =>
    exact ⟨by simp only [localPorts, hcases], hcases, htimers, hpublished, hactions⟩
  | timerSchedule timer =>
    exact ⟨rfl, hcases, congrArg (·.upsert timer) htimers, hpublished, hactions⟩
  | timerCancel tenant id clock =>
    exact ⟨rfl, hcases, congrArg (·.erase (tenant, id, clock)) htimers, hpublished, hactions⟩
  | publish event =>
    exact ⟨rfl, hcases, htimers, congrArg (· ++ [event]) hpublished, hactions⟩
  | record event =>
    refine ⟨rfl, hcases, htimers, hpublished, ?_⟩
    simp only [localPorts, World.caseActions, List.filterMap_append]
    exact (congrArg (· ++ _) hactions).trans (List.append_assoc _ _ _)
  | _ => exact hop.elim

private theorem escalate_isCaseOp (c : Case) (assessment : CaseAssessment) (routing : Routing) :
    (svc.escalate c assessment routing).Only IsCaseOp := by
  refine (emit_only (fun _ => trivial) _ c).bind (fun _ => ?_)
  split
  · exact only_pure ()
  · rename_i console _
    have hput :
        IsCaseOp (.reviewPut (CaseWorkflowService.routedItem console c assessment routing)) :=
      ConsoleService.newItem_sourceKey
    have hsubmit : (console.submit (console.routedReview c assessment
        (CaseWorkflowService.routingMaker c) routing.reviewId) routing.readings).Only IsCaseOp :=
      (only_perform hput).bind (fun _ => (only_perform trivial).bind (fun _ => only_pure _))
    exact hsubmit.bind (fun _ => only_pure ())

private theorem evaluateCase_isCaseOp (a : EvaluateArgs) (r : Readings) (routing : Routing) :
    (svc.evaluateCase a r routing).Only IsCaseOp := by
  refine (load_only trivial).bind (fun c => (definition_only c.caseType).bind (fun d => ?_))
  split
  · exact only_raise _
  · refine (only_perform trivial).bind (fun _ => ?_)
    dsimp only
    split
    · exact (escalate_isCaseOp _ _ routing).bind (fun _ => only_pure _)
    · exact only_pure _

private theorem openCase_isCaseOp (a : OpenArgs) (r : Readings) :
    (svc.openCase a r).Only IsCaseOp := by
  refine (definition_only a.caseType).bind (fun d => (only_perform trivial).bind (fun _ => ?_))
  refine (scheduleClocks_only (fun _ _ => trivial)).bind (fun _ => ?_)
  refine (emit_only (fun _ => trivial) _ _).bind (fun _ => ?_)
  exact (only_perform trivial).bind (fun _ => only_pure _)

private theorem transitionCase_isCaseOp (a : TransitionArgs) (r : Readings) :
    (svc.transitionCase a r).Only IsCaseOp := by
  obtain ⟨next, hcall, hnone, hsome⟩ := transitionCase_call svc a r
  rw [hcall]
  refine ⟨trivial, ?_⟩
  intro found _
  cases found with
  | none =>
    rw [hnone]
    exact only_raise _
  | some c =>
    exact hsome c IsCaseOp (fun _ _ _ => trivial) (fun _ => trivial) (fun _ => trivial)
      (fun _ => trivial)

theorem CaseRequest.isCaseOp (svc : CaseWorkflowService) (r : CaseRequest) :
    (r.program svc).Only IsCaseOp := by
  obtain ⟨call, readings⟩ := r
  cases call with
  | openCase a => exact (openCase_isCaseOp a readings).bind (fun _ => only_pure _)
  | transitionCase a => exact (transitionCase_isCaseOp a readings).bind (fun _ => only_pure _)
  | evaluateCase a routing =>
    exact (evaluateCase_isCaseOp a readings routing).bind (fun _ => only_pure _)
  | get tenant id => exact (load_only trivial).bind (fun _ => only_pure _)
  | listCases tenant => exact (only_perform trivial).bind (fun _ => only_pure _)

theorem SameCases.answer (h : SameCases found w w') (r : CaseRequest) :
    (answerCase svc w r).1 = (answerCase svc w' r).1 ∧
      SameCases found (serveCase svc w r) (serveCase svc w' r) :=
  Confined.exec_congr localPorts (fun _ _ _ _ _ => trivial) (fun _ _ _ hop hw => hw.op hop)
    (r.isCaseOp svc) h

end

/-- The submission that a call on the engine makes to the console, if it escalates. -/
def CaseWorkflowService.routedRequests (svc : CaseWorkflowService) (w : World) (r : CaseRequest) :
    List ConsoleRequest :=
  match r.call with
  | .evaluateCase a routing =>
    match svc.found w a.tenant a.caseId with
    | none => []
    | some (c, d) =>
      match assess c d (a.asOf.getD r.readings.now) svc.holidays, svc.reviewRouter with
      | .ok assessment, some console =>
        if assessment.requiresHumanReview then
          [⟨console, .submit (console.routedReview c assessment
            (CaseWorkflowService.routingMaker c) routing.reviewId), routing.readings⟩]
        else []
      | _, _ => []
  | _ => []

section
variable {svc : CaseWorkflowService} {w : World} {a : EvaluateArgs} {readings : Readings}
variable {routing : Routing} {c : Case} {d : WorkflowDefinition} {assessment : CaseAssessment}

theorem routedRequests_of_idle (hidle : Idle svc w ⟨.evaluateCase a routing, readings⟩) :
    svc.routedRequests w ⟨.evaluateCase a routing, readings⟩ = [] := by
  simp only [CaseWorkflowService.routedRequests]
  cases hfound : svc.found w a.tenant a.caseId with
  | none => rfl
  | some found =>
    obtain ⟨c, d⟩ := found
    obtain ⟨hget, hdefinition⟩ := CaseWorkflowService.found_eq_some.mp hfound
    obtain ⟨e, he⟩ := hidle c d hget hdefinition
    simp only [he]

theorem routedRequests_of_assessed (hget : w.getCase a.tenant a.caseId = some c)
    (hdefinition : svc.definitions.definition c.caseType = some d)
    (hassess : assess c d (a.asOf.getD readings.now) svc.holidays = .ok assessment) :
    svc.routedRequests w ⟨.evaluateCase a routing, readings⟩ =
      match svc.reviewRouter with
      | some console =>
        if assessment.requiresHumanReview then
          [⟨console, .submit (console.routedReview c assessment
            (CaseWorkflowService.routingMaker c) routing.reviewId), routing.readings⟩]
        else []
      | none => [] := by
  have hfound := CaseWorkflowService.found_eq_some.mpr ⟨hget, hdefinition⟩
  simp only [CaseWorkflowService.routedRequests, hfound, hassess]
  cases svc.reviewRouter <;> rfl

theorem serve_submit (console : ConsoleService) (s : Submission) (readings : Readings)
    {reviews : LocalReviewStore} (hput : w.reviews.put (console.newItem s readings.now) =
      .ok reviews) :
    serve w ⟨console, .submit s, readings⟩ =
      { w with
        reviews
        log := w.log ++ [.signOff
          (console.submitEvent (console.newItem s readings.now) readings.timestamp)] } := by
  have hop : @exec _ _ _ Unit _ localPorts
      (port (.reviewPut (console.newItem s readings.now))) w = (.ok (), { w with reviews }) := by
    simp only [port, perform, exec, localPorts, hput]
  simp only [serve, ReviewConsole.answer, ConsoleRequest.program, ConsoleService.submit,
    exec_bind, hop]
  rfl

/-- A call on the engine leaves the queue that its submission to the console leaves. -/
theorem serveCase_queue (svc : CaseWorkflowService) (w : World) (r : CaseRequest) :
    SameQueue True (serveCase svc w r) (run serve w (svc.routedRequests w r)) := by
  have heffect := caseEffect svc w r
  simp only [serveCase]
  obtain ⟨call, readings⟩ := r
  cases heffect with
  | untouched hidle hresponse hworld =>
    rw [hworld]
    have hnone : svc.routedRequests w ⟨call, readings⟩ = [] := by
      cases call with
      | evaluateCase a routing => exact routedRequests_of_idle hidle
      | _ => rfl
    rw [hnone]
    exact ⟨rfl, fun _ => rfl⟩
  | opened a d c timers hcall hdefinition hcase htimers hresponse hworld =>
    cases hcall
    rw [hworld]
    refine ⟨?_, fun _ => ?_⟩
    · simp only [World.withEvent]
      split <;> rfl
    · simp [World.signOffs, CaseWorkflowService.routedRequests]
  | openedPartly a d c timers e hcall hdefinition hcase hbound htimers hresponse hworld =>
    cases hcall
    rw [hworld]
    exact ⟨rfl, fun _ => rfl⟩
  | refused a c d hcall hget hdefinition hlegal hresponse hworld =>
    cases hcall
    rw [hworld]
    exact ⟨rfl, fun _ => by simp [World.signOffs, CaseWorkflowService.routedRequests]⟩
  | moved a c moved d hcall hget hdefinition hlegal hmoved hresponse hworld =>
    cases hcall
    rw [hworld]
    refine ⟨?_, fun _ => ?_⟩
    · simp only [World.withEvent]
      split <;> split <;> rfl
    · simp only [World.signOffs, World.audited_log, World.withEvent_log]
      split <;> simp [CaseWorkflowService.routedRequests]
  | evaluated a routing c d assessment reviews submitted hcall hget hdefinition hassess hrouted
      hresponse hworld =>
    cases hcall
    rw [hworld, routedRequests_of_assessed hget hdefinition hassess]
    rcases routed_cases hrouted with ⟨hquiet, rfl, rfl⟩ | ⟨console, hreview, hrouter, hput, rfl⟩
    · have hnone : (match svc.reviewRouter with
          | some console =>
            if assessment.requiresHumanReview then
              [(⟨console, .submit (console.routedReview c assessment
                (CaseWorkflowService.routingMaker c) routing.reviewId), routing.readings⟩ :
                ConsoleRequest)]
            else []
          | none => []) = [] := by
        rcases hquiet with hno | hrouter
        · rw [hno]
          cases svc.reviewRouter <;> rfl
        · rw [hrouter]
      rw [hnone]
      exact ⟨rfl, fun _ => by simp [World.signOffs]⟩
    · rw [hrouter]
      simp only [hreview, if_true, run_cons, run_nil]
      rw [serve_submit console _ _ hput]
      refine ⟨rfl, fun _ => ?_⟩
      simp [World.signOffs, CaseWorkflowService.routedItem]

end

/-- Which of the two SQLite files are on disk; the other is in memory. The cases, the timers and
the published events always are. -/
structure Disk where
  reviews : Bool
  audit : Bool
  deriving DecidableEq, Repr

/-- What a new process finds. -/
def World.restarted (disk : Disk) (w : World) : World where
  reviews := if disk.reviews then w.reviews else .empty
  cases := .empty
  timers := .empty
  published := []
  log := if disk.audit then w.log else []

/-- A process: its configuration and the state behind its ports. -/
structure Server where
  api : ConsoleApi
  world : World

inductive ServerEvent where
  | request (r : ApiRequest)
  | restart (api : ConsoleApi)

namespace Server

variable (disk : Disk)

def step (s : Server) : ServerEvent → Server
  | .request r => { s with world := (s.api.handle localPorts r s.world).2 }
  | .restart api => ⟨api, s.world.restarted disk⟩

/-- The server after a run that starts from empty stores. -/
def after (api : ConsoleApi) (es : List ServerEvent) : Server :=
  run (step disk) ⟨api, .empty⟩ es

def consoleRequests (s : Server) : ServerEvent → List ConsoleRequest
  | .restart _ => []
  | .request r =>
    match s.api.serviceCall r with
    | none => []
    | some (.console r) => [r]
    | some (.engine svc r) => svc.routedRequests s.world r

def consoleRun (api : ConsoleApi) (es : List ServerEvent) : List ConsoleRequest :=
  GuardedRuns.projected (step disk) consoleRequests ⟨api, .empty⟩ es

def engineRequests (api : ConsoleApi) (r : ApiRequest) : List CaseRequest :=
  match api.serviceCall r with
  | some (.engine _ r) => [r]
  | _ => []

/-- The calls on the engine since the last restart. -/
def engineRun (api : ConsoleApi) (calls : List CaseRequest) : List ServerEvent → List CaseRequest
  | [] => calls
  | .request r :: es => engineRun api (calls ++ engineRequests api r) es
  | .restart api' :: es => engineRun api' [] es

/-- The run up to its last restart, which it includes. -/
def upToRestart (es : List ServerEvent) : List ServerEvent :=
  es.rdropWhile (fun
    | .request _ => true
    | .restart _ => false)

end Server

theorem ServiceCall.console_world (w : World) (r : ConsoleRequest) :
    ((ServiceCall.console r).answer w).2 = serve w r := by
  rw [ServiceCall.answer, ServiceCall.program, Program.exec_bind_pure]
  rfl

theorem ServiceCall.engine_world (svc : CaseWorkflowService) (w : World) (r : CaseRequest) :
    ((ServiceCall.engine svc r).answer w).2 = serveCase svc w r := by
  rw [ServiceCall.answer, ServiceCall.program, Program.exec_bind_pure]
  rfl

section
variable {audited : Prop} {found : List CaseAuditEvent} {w w' w'' : World}

theorem SameQueue.refl (w : World) : SameQueue audited w w := ⟨rfl, fun _ => rfl⟩

theorem SameQueue.trans (h : SameQueue audited w w') (h' : SameQueue audited w' w'') :
    SameQueue audited w w'' :=
  ⟨h.reviews.trans h'.reviews,
    fun haudited => (h.signOffs haudited).trans (h'.signOffs haudited)⟩

theorem SameQueue.mono (h : SameQueue True w w') : SameQueue audited w w' :=
  ⟨h.reviews, fun _ => h.signOffs trivial⟩

theorem SameQueue.run (h : SameQueue audited w w') (rs : List ConsoleRequest) :
    SameQueue audited (run serve w rs) (run serve w' rs) := by
  induction rs generalizing w w' with
  | nil => exact h
  | cons r rs ih => exact ih (h.answer r).2

theorem SameCases.queueOp {op : PortOp} (hop : IsQueueOp op) (h : SameCases found w w') :
    SameCases found (localPorts op w).2 w' := by
  cases op with
  | reviewPut item =>
    simp only [localPorts]
    cases w.reviews.put item with
    | error e => exact h
    | ok reviews => exact ⟨h.cases, h.timers, h.published, h.caseActions⟩
  | reviewPutIfAbsentBySourceKey item =>
    simp only [localPorts]
    cases w.reviews.putIfAbsentBySourceKey item with
    | error e => exact h
    | ok answer => exact ⟨h.cases, h.timers, h.published, h.caseActions⟩
  | record event =>
    cases event with
    | signOff e =>
      refine ⟨h.cases, h.timers, h.published, ?_⟩
      simpa [localPorts, World.caseActions] using h.caseActions
    | caseAction e => exact hop.elim
  | reviewGet tenant id => exact h
  | reviewFindBySourceKey tenant key => exact h
  | reviewListPending tenant => exact h
  | reviewListAll tenant => exact h
  | _ => exact hop.elim

theorem SameCases.serve (h : SameCases found w w') (r : ConsoleRequest) :
    SameCases found (ReviewConsole.serve w r) w' :=
  r.isQueueOp.exec_invariant localPorts (I := fun w => SameCases found w w')
    (fun _ _ hop hw => hw.queueOp hop) h

end

theorem ConsoleApi.serviceCall_engine {api : ConsoleApi} {r : ApiRequest}
    {svc : CaseWorkflowService} {q : CaseRequest}
    (h : api.serviceCall r = some (.engine svc q)) : svc = api.caseService := by
  rcases serviceCall_cases h with ⟨user, principal, -, -, h⟩ | ⟨request, -, -, h⟩
  · cases user with
    | openCase request =>
      simp only [userServiceCall] at h
      split at h
      · cases h
      · cases h
        rfl
    | _ => cases h <;> rfl
  · cases h

namespace Server
variable {disk : Disk} {audited : Prop} {found : List CaseAuditEvent} {s : Server} {w : World}

/-- A request leaves the queue that its requests to the console leave. -/
theorem step_queue (h : SameQueue audited s.world w) (r : ApiRequest) :
    SameQueue audited (step disk s (.request r)).world
      (run serve w (consoleRequests s (.request r))) := by
  simp only [step, consoleRequests, ConsoleApi.handle_world]
  cases s.api.serviceCall r with
  | none => exact h
  | some call =>
    cases call with
    | console q =>
      rw [ConsoleApi.called, ServiceCall.console_world]
      exact (h.answer q).2
    | engine svc q =>
      rw [ConsoleApi.called, ServiceCall.engine_world]
      exact (serveCase_queue svc s.world q).mono.trans (h.run _)

variable (disk) in
/-- A request leaves the cases that its calls on the engine leave. -/
theorem step_cases (h : SameCases found s.world w) (r : ApiRequest) :
    SameCases found (step disk s (.request r)).world
      (run (serveCase s.api.caseService) w (engineRequests s.api r)) := by
  simp only [step, engineRequests, ConsoleApi.handle_world]
  cases hcall : s.api.serviceCall r with
  | none => exact h
  | some call =>
    cases call with
    | console q =>
      rw [ConsoleApi.called, ServiceCall.console_world]
      exact h.serve q
    | engine svc q =>
      obtain rfl := ConsoleApi.serviceCall_engine hcall
      rw [ConsoleApi.called, ServiceCall.engine_world]
      exact (h.answer q).2

variable (disk) in
theorem getCase_step (s : Server) (r : ApiRequest) :
    (∀ tenant id, (step disk s (.request r)).world.getCase tenant id =
      s.world.getCase tenant id) ∨
    ∃ call, s.api.serviceCall r = some (.engine s.api.caseService call) ∧
      (step disk s (.request r)).world = serveCase s.api.caseService s.world call := by
  simp only [step, ConsoleApi.handle_world]
  cases hcall : s.api.serviceCall r with
  | none => exact Or.inl (fun _ _ => rfl)
  | some call =>
    cases call with
    | console q =>
      rw [ConsoleApi.called, ServiceCall.console_world]
      have hsame : SameCases [] (serve s.world q) s.world :=
        SameCases.serve ⟨rfl, rfl, rfl, rfl⟩ q
      exact Or.inl (World.getCase_of_same hsame.cases)
    | engine svc q =>
      obtain rfl := ConsoleApi.serviceCall_engine hcall
      rw [ConsoleApi.called, ServiceCall.engine_world]
      exact Or.inr ⟨q, rfl, rfl⟩

/-- With the review table on disk, the queue is that of the console run, through every restart;
and so is the sign-off log if it is on disk too. -/
theorem after_queue (hreviews : disk.reviews = true) (api : ConsoleApi) (es : List ServerEvent) :
    SameQueue (disk.audit = true) (after disk api es).world
      (consoleAfter (consoleRun disk api es)) := by
  refine GuardedRuns.run_related (R := fun (s : Server) w =>
    SameQueue (disk.audit = true) s.world w) ?_ (SameQueue.refl _) es
  intro s w event h
  cases event with
  | request r => exact step_queue h r
  | restart api' =>
    refine ⟨?_, ?_⟩
    · change (if disk.reviews then s.world.reviews else .empty) = w.reviews
      rw [if_pos hreviews]
      exact h.reviews
    · intro haudit
      change World.signOffs { s.world with log := if disk.audit then s.world.log else [] } = _
      rw [if_pos haudit]
      exact h.signOffs haudit

theorem after_snoc (api : ConsoleApi) (es : List ServerEvent) (event : ServerEvent) :
    after disk api (es ++ [event]) = step disk (after disk api es) event := run_snoc _ _ _ _

variable (disk) in
theorem engineRun_snoc_request (s : Server) (calls : List CaseRequest) (es : List ServerEvent)
    (r : ApiRequest) : engineRun s.api calls (es ++ [.request r]) =
      engineRun s.api calls es ++ engineRequests (run (step disk) s es).api r := by
  induction es generalizing s calls with
  | nil => rfl
  | cons event es ih =>
    cases event with
    | request r' => exact ih (step disk s (.request r')) _
    | restart api' => exact ih (step disk s (.restart api')) []

theorem engineRun_snoc_restart (api api' : ConsoleApi) (calls : List CaseRequest)
    (es : List ServerEvent) : engineRun api calls (es ++ [.restart api']) = [] := by
  induction es generalizing api calls with
  | nil => rfl
  | cons event es ih =>
    cases event with
    | request r => exact ih api _
    | restart api'' => exact ih api'' []

variable (disk) in
/-- The cases, their timers and what was published about them are those of the engine run since
the last restart; and what the log says of cases is what it said then, and that of the run. -/
theorem after_cases (api : ConsoleApi) (es : List ServerEvent) :
    SameCases (after disk api (upToRestart es)).world.caseActions (after disk api es).world
      (engineAfter (after disk api es).api.caseService (engineRun api [] es)) := by
  induction es using List.reverseRecOn with
  | nil => exact ⟨rfl, rfl, rfl, rfl⟩
  | append_singleton es event ih =>
    cases event with
    | request r =>
      have hstep := step_cases disk ih r
      rw [engineAfter, ← run_append] at hstep
      rw [upToRestart, List.rdropWhile_concat_pos _ _ _ rfl, ← upToRestart, after_snoc,
        engineRun_snoc_request disk ⟨api, .empty⟩]
      exact hstep
    | restart api' =>
      rw [upToRestart, List.rdropWhile_concat_neg _ _ _ Bool.false_ne_true, engineRun_snoc_restart,
        after_snoc]
      exact ⟨rfl, rfl, rfl, (List.append_nil _).symm⟩

end Server

/-- Every run of the server, through restarts under any configurations, has a run of each service
inside it. With the review table on disk its queue is that of the console over all of the run's
submissions and decisions, and so are its trails if the audit log is on disk too; its cases, timers
and published events are those of the engine over the calls since the last restart, whose trails
follow those that the process found when it started. -/
theorem server_refines_services (disk : Disk) (hreviews : disk.reviews = true) (api : ConsoleApi)
    (es : List ServerEvent) :
    (Server.after disk api es).world.reviews =
        (consoleAfter (Server.consoleRun disk api es)).reviews ∧
      (disk.audit = true → ∀ tenant id, (Server.after disk api es).world.trail tenant id =
        (consoleAfter (Server.consoleRun disk api es)).trail tenant id) ∧
      ∃ engine, engine = engineAfter (Server.after disk api es).api.caseService
          (Server.engineRun api [] es) ∧
        (Server.after disk api es).world.cases = engine.cases ∧
        (Server.after disk api es).world.timers = engine.timers ∧
        (Server.after disk api es).world.published = engine.published ∧
        ∀ tenant id, (Server.after disk api es).world.caseTrail tenant id =
          (Server.after disk api (Server.upToRestart es)).world.caseTrail tenant id ++
            engine.caseTrail tenant id := by
  obtain ⟨hqueue, hsignOffs⟩ := Server.after_queue hreviews api es
  obtain ⟨hcases, htimers, hpublished, hactions⟩ := Server.after_cases disk api es
  refine ⟨hqueue, ?_, _, rfl, hcases, htimers, hpublished, ?_⟩
  · intro haudit tenant id
    rw [World.trail_eq, World.trail_eq, hsignOffs haudit]
  · intro tenant id
    rw [World.caseTrail_eq, World.caseTrail_eq, World.caseTrail_eq, hactions, List.filter_append]

namespace Demo

/-- The first value of the header by which a persona is chosen. -/
def persona (headers : RequestHeaders) : Except IdentityFault Principal :=
  match headers.find? (fun header => header.1 = "x-dev-persona") with
  | some (_, "analyst") => .ok {
      subject := "demo.analyst@bank.example"
      principals := ["group:analyst", "group:risk"]
      tenant := "demo-bank"
      assurance := "local-demo"
      source := "local-persona:analyst" }
  | some (_, "approver") => .ok {
      subject := "demo.approver@bank.example"
      principals := ["group:analyst", "group:risk", "group:approver"]
      tenant := "demo-bank"
      assurance := "local-demo"
      source := "local-persona:approver" }
  | _ => .error (.identityError "unknown persona")

/-- The application of an offline demonstration, open to every service. -/
def api : ConsoleApi where
  console := console
  definitions := .single complaint
  identity := .ok persona
  serviceCaller := fun _ => .ok ()
  actor := Principal.subject
  repr := id

def moment (uuid reviewId : String) : Moment := ⟨uuid, readings, ⟨reviewId, readings⟩⟩

def request (persona : String) (call : UserCall) (m : Moment) : ServerEvent :=
  .request ⟨[("x-dev-persona", persona)], .user call, m⟩

def submitFacility : ServerEvent :=
  request "analyst" (.submitReview {
    action := "disburse"
    subject := "Acme (FICTIONAL)"
    summary := "disburse facility"
    ge := Int.le_refl 1
    le := of_decide_eq_true rfl }) (moment "rev-1" "")

def approveFacility : ServerEvent :=
  request "approver" (.decideReview "rev-1" { disposition := .approve, reason := "ok" })
    (moment "" "")

/-- The facility is submitted before the restart and approved after it. -/
def night : List ServerEvent := [submitFacility, .restart api, approveFacility]

end Demo

/-- The facility approved after the restart is in the queue of the console run. -/
theorem demo_server_refines_services :
    (Server.after ⟨true, false⟩ Demo.api Demo.night).world.reviews =
        (consoleAfter (Server.consoleRun ⟨true, false⟩ Demo.api Demo.night)).reviews ∧
      ((Server.after ⟨true, false⟩ Demo.api Demo.night).world.reviews.get "demo-bank" "rev-1").map
        ReviewItem.state = some .approved :=
  ⟨(server_refines_services ⟨true, false⟩ rfl Demo.api Demo.night).1, by decide⟩

end ReviewConsole

import ReviewConsole.ServiceOperations
import ReviewConsole.TimerSchedules

/-!
# Case actions whose ports fail

An open and a move write the store before they touch a timer, publish or record, and an
evaluation records its escalation before it hands the case over. What is left when a port
raises in between is accounted for in some runs only.
-/
namespace ReviewConsole
open PortPrograms Program GuardedRuns KeyedTables

/-- The operations of the timer, event and audit ports, and the one by which the in-process
router stores the review it is handed. -/
def isFallible : PortOp → Bool
  | .timerSchedule _ | .timerCancel _ _ _ | .publish _ | .record _ | .reviewPut _ => true
  | .reviewPutIfAbsentBySourceKey _ | .reviewGet _ _ | .reviewFindBySourceKey _ _
  | .reviewListPending _ | .reviewListAll _ | .casePut _ | .caseGet _ _ | .caseListByTenant _ =>
    false

/-- The local adapters with ports that raise where the plan says so. -/
abbrev faultyPorts : Handler PortOp PortOp.Ret ServiceError (World × List Bool) :=
  localPorts.withFaults isFallible .portFailure

/-- A call on the engine together with what its fallible operations do: `true` means that the
operation raises. -/
structure FaultyCaseRequest where
  request : CaseRequest
  plan : List Bool

def faultyServeCase (svc : CaseWorkflowService) (w : World) (r : FaultyCaseRequest) : World :=
  ((r.request.program svc).exec faultyPorts (w, r.plan)).2.1

/-- The event of an accepted move. -/
def CaseAuditEvent.Moves (e : CaseAuditEvent) (fromState toState actor : String) : Prop :=
  e.action = "transition" ∧ e.decision = .allowed ∧ e.fromState = fromState ∧
    e.toState = toState ∧ e.actor = actor

/-- The trail shows how the case was opened and every move of its history. -/
structure Case.TracedBy (c : Case) (trail : List CaseAuditEvent) : Prop where
  opened : ∃ e ∈ trail, e.action = "open"
  moved : ∀ t ∈ c.history, ∃ e ∈ trail, e.Moves t.fromState t.toState t.actor

/-- A review of the case is in its tenant's queue store. -/
def World.HasReview (w : World) (tenant caseId : String) : Prop :=
  ∃ item ∈ w.reviews.table.rows, item.tenant = tenant ∧ item.request.caseRef = caseId

/-- No case action has left an untraced effect. -/
structure Traced (w : World) : Prop where
  cases : ∀ tenant caseId c, w.getCase tenant caseId = some c →
    c.TracedBy (w.caseTrail tenant caseId)
  escalations : ∀ e, .caseAction e ∈ w.log → e.decision = .escalated →
    w.HasReview e.tenant e.caseId

namespace CaseWorkflowService

variable (svc : CaseWorkflowService)

/-- The fallible operations of an open that gets to its record: a timer for each clock that
starts with the case, the lifecycle event, the record. -/
def openCalls (d : WorkflowDefinition) : ℕ :=
  (if svc.timers then d.openingClocks.length else 0) + (if svc.events then 1 else 0) + 1

/-- The fallible operations of a move to `toState`. -/
def moveCalls (d : WorkflowDefinition) (toState : String) : ℕ :=
  (if d.isTerminal toState ∧ svc.timers then d.clocks.length else 0) +
    (if svc.events then 1 else 0) + 1

/-- The fallible operations of an escalation up to the review in the queue store. -/
def escalationCalls : ℕ := 1 + ((if svc.events then 1 else 0) + 1)

end CaseWorkflowService

/-- The call leaves nothing untraced. An open or a move has no port raise up to its record, or
an event that says the same is on the trail already. An escalation has its record raise, or it
is handed to a router and no port raises before the review is stored, or there is a review of
the case already. -/
def Traceable (svc : CaseWorkflowService) (w : World) (r : FaultyCaseRequest) : Prop :=
  match r.request.call with
  | .openCase a => ∀ d, svc.definitions.definition a.caseType = some d →
      (svc.Completes d (a.openedAt r.request.readings.now) ∧
          spares r.plan (svc.openCalls d) = true) ∨
        ∃ e ∈ w.caseTrail a.tenant a.caseId, e.action = "open"
  | .transitionCase a => ∀ c d, svc.found w a.tenant a.caseId = some (c, d) →
      d.isLegal c.state a.toState = true →
      spares r.plan (svc.moveCalls d a.toState) = true ∨
        ∃ e ∈ w.caseTrail a.tenant a.caseId, e.Moves c.state a.toState a.actor
  | .evaluateCase a _ => ∀ c d assessment, svc.found w a.tenant a.caseId = some (c, d) →
      assess c d (a.asOf.getD r.request.readings.now) svc.holidays = .ok assessment →
      assessment.requiresHumanReview = true →
      r.plan.headD false = true ∨
        (svc.reviewRouter.isSome = true ∧ spares r.plan svc.escalationCalls = true) ∨
        w.HasReview a.tenant a.caseId
  | .get _ _ | .listCases _ => True

/-- The `uuid4` of a review that an evaluation routes is not in use in the tenant. -/
def RoutedFresh (w : World) (r : FaultyCaseRequest) : Prop :=
  match r.request.call with
  | .evaluateCase a routing => w.reviews.get a.tenant routing.reviewId = none
  | _ => True

/-- What handing a case over to a human leaves behind: at most one stored review and its
sign-off event. -/
structure HandedOver (tenant caseId reviewId : String) (w w' : World) (stored : Option ReviewItem)
    (submitted : List SignOffEvent) : Prop where
  of_case : ∀ item ∈ stored, item.key = (tenant, reviewId) ∧ item.request.caseRef = caseId
  cases : w'.cases = w.cases
  reviews : w'.reviews.table = (stored.map w.reviews.table.upsert).getD w.reviews.table
  log : w'.log = w.log ++ submitted.map .signOff

/-- Everything a call can do to the stores and the trail when ports may fail. -/
inductive FaultyEffect (svc : CaseWorkflowService) (r : FaultyCaseRequest) (w w' : World) : Prop
  | quiet (events : List AuditEvent)
      (hevents : ∀ e, .caseAction e ∈ events → e.decision ≠ .escalated)
      (hcases : w'.cases = w.cases) (hreviews : w'.reviews = w.reviews)
      (hlog : w'.log = w.log ++ events) (htraceable : Traceable svc w r)
  | opened (a : OpenArgs) (d : WorkflowDefinition) (c : Case) (recorded : Bool)
      (hcall : r.request.call = .openCase a)
      (hdefinition : svc.definitions.definition a.caseType = some d)
      (hcase : c = CaseWorkflowService.opened a d r.request.readings.now)
      (hrecorded : recorded = true ↔ svc.Completes d (a.openedAt r.request.readings.now) ∧
        spares r.plan (svc.openCalls d) = true)
      (hcases : w'.cases = w.cases.upsert c) (hreviews : w'.reviews = w.reviews)
      (hlog : w'.log = w.log ++
        if recorded then [.caseAction (svc.openEvent a c r.request.readings.timestamp)] else [])
  | moved (a : TransitionArgs) (c moved : Case) (d : WorkflowDefinition) (recorded : Bool)
      (hcall : r.request.call = .transitionCase a)
      (hfound : svc.found w a.tenant a.caseId = some (c, d))
      (hlegal : d.isLegal c.state a.toState = true)
      (hmoved : moved = CaseWorkflowService.advanced c a r.request.readings.now)
      (hrecorded : recorded = true ↔ spares r.plan (svc.moveCalls d a.toState) = true)
      (hcases : w'.cases = w.cases.upsert moved) (hreviews : w'.reviews = w.reviews)
      (hlog : w'.log = w.log ++
        if recorded then [.caseAction (svc.transitionEvent a c moved r.request.readings.timestamp)]
        else [])
  | escalated (a : EvaluateArgs) (routing : Routing) (c : Case) (d : WorkflowDefinition)
      (assessment : CaseAssessment) (submitted : List SignOffEvent) (stored : Option ReviewItem)
      (hcall : r.request.call = .evaluateCase a routing)
      (hfound : svc.found w a.tenant a.caseId = some (c, d))
      (hassess : assess c d (a.asOf.getD r.request.readings.now) svc.holidays = .ok assessment)
      (hreview : assessment.requiresHumanReview = true) (hrecord : r.plan.headD false = false)
      (hstored : stored.isSome = true ↔
        svc.reviewRouter.isSome = true ∧ spares r.plan svc.escalationCalls = true)
      (hhanded : HandedOver a.tenant a.caseId routing.reviewId
        (w.audited (svc.evaluationEvent a c assessment r.request.readings.timestamp)) w' stored
        submitted)

/-- The operations that touch neither the case store, the queue store nor the trail. -/
def isQuiet : PortOp → Bool
  | .timerSchedule _ | .timerCancel _ _ _ | .publish _ => true
  | _ => false

/-- The stores are as they were, and the trail has grown by `events`. -/
structure World.Grown (w w' : World) (events : List AuditEvent) : Prop where
  cases : w'.cases = w.cases
  reviews : w'.reviews = w.reviews
  log : w'.log = w.log ++ events

theorem World.Grown.refl (w : World) : w.Grown w [] := ⟨rfl, rfl, (List.append_nil _).symm⟩

theorem World.Grown.trans {w w' w'' : World} {events events' : List AuditEvent}
    (h : w.Grown w' events) (h' : w'.Grown w'' events') : w.Grown w'' (events ++ events') where
  cases := h'.cases.trans h.cases
  reviews := h'.reviews.trans h.reviews
  log := by rw [h'.log, h.log, List.append_assoc]

theorem faultyPorts_quiet (op : PortOp) (hop : isQuiet op = true) (s : World × List Bool) :
    s.1.Grown (faultyPorts op s).2.1 [] := by
  obtain ⟨w, plan⟩ := s
  have hlocal : w.Grown (localPorts op w).2 [] := by
    cases op with
    | timerSchedule timer => exact ⟨rfl, rfl, (List.append_nil _).symm⟩
    | timerCancel tenant caseId clock => exact ⟨rfl, rfl, (List.append_nil _).symm⟩
    | publish event => exact ⟨rfl, rfl, (List.append_nil _).symm⟩
    | _ => cases hop
  cases hf : isFallible op with
  | false =>
    rw [faultyPorts, withFaults_of_infallible localPorts isFallible .portFailure op hf]
    exact hlocal
  | true =>
    rw [faultyPorts, withFaults_of_fallible localPorts isFallible .portFailure op hf]
    split
    · exact .refl w
    · exact hlocal

section
variable {plan : List Bool}

theorem exec_quiet {α : Type} {p : Service α} (hp : p.Only (fun op => isQuiet op = true))
    (w : World) (plan : List Bool) : w.Grown (p.exec faultyPorts (w, plan)).2.1 [] := by
  have hop (op : PortOp) (s : World × List Bool) (hquiet : isQuiet op = true)
      (hs : w.Grown s.1 []) : w.Grown (faultyPorts op s).2.1 [] :=
    hs.trans (faultyPorts_quiet op hquiet s)
  exact hp.exec_invariant (I := fun s => w.Grown s.1 []) faultyPorts hop (.refl w)

theorem exec_faulty_record (e : AuditEvent) (w : World) :
    @exec _ _ _ Unit _ faultyPorts (port (.record e)) (w, plan) =
      if plan.headD false then (.error .portFailure, w, plan.tail)
      else (.ok (), { w with log := w.log ++ [e] }, plan.tail) := by
  rw [port, exec_perform]
  exact withFaults_of_fallible localPorts isFallible .portFailure (.record e) rfl w plan

theorem exec_quiet_record {α : Type} {p : Service Unit}
    (hp : p.Only (fun op => isQuiet op = true)) (e : AuditEvent) (x : α) (w : World)
    (plan : List Bool) :
    ∃ recorded : Bool, (recorded = true ↔ (p.exec localPorts w).1 = .ok () ∧
        spares plan ((p.performed localPorts w).countP isFallible + 1) = true) ∧
      w.Grown ((p >>= fun _ => port (.record e) >>= fun _ => pure x : Service α).exec faultyPorts
        (w, plan)).2.1 (if recorded then [e] else []) := by
  have hquiet := exec_quiet hp w plan
  rw [spares_add, exec_bind]
  have hspares := exec_withFaults_of_spares localPorts isFallible .portFailure p w plan
  have hfault := exec_withFaults_of_not_spares localPorts isFallible .portFailure p w plan
  generalize (p.performed localPorts w).countP isFallible = n at hspares hfault
  rcases hrun : p.exec faultyPorts (w, plan) with ⟨result, w', rest⟩
  rw [hrun] at hquiet hspares hfault
  cases hspared : spares plan n with
  | false =>
    cases hfault hspared
    exact ⟨false, by simp, hquiet⟩
  | true =>
    obtain ⟨hresult, hrest⟩ := Prod.mk.inj (hspares hspared)
    rw [← hresult]
    cases result with
    | error e => exact ⟨false, by simp, hquiet⟩
    | ok _ =>
      have hrest : rest = plan.drop n := (Prod.mk.inj hrest).2
      dsimp only
      rw [exec_bind, exec_faulty_record, ← hrest]
      cases hhead : rest.headD false with
      | true => exact ⟨false, by rw [spares_succ, hhead]; simp, hquiet⟩
      | false => exact ⟨true, by rw [spares_succ, hhead]; simp, hquiet.trans ⟨rfl, rfl, rfl⟩⟩

end

section
variable {svc : CaseWorkflowService} {c : Case} {d : WorkflowDefinition}

theorem performed_scheduleLoop (asOf : DateTime) (specs : List ClockSpec) (w : World) :
    (svc.scheduleLoop c d asOf specs).performed localPorts w =
      (svc.scheduled c d asOf specs).1.map .timerSchedule := by
  induction specs generalizing w with
  | nil => rfl
  | cons spec specs ih =>
    simp only [CaseWorkflowService.scheduleLoop, CaseWorkflowService.scheduled]
    cases deadlineFor spec (c.firstEntered spec.startState d.initial) asOf svc.holidays with
    | error e => rfl
    | ok status =>
      cases hdue : status.dueAt with
      | none =>
        simp only [hdue]
        exact ih w
      | some due =>
        simp only [hdue]
        rw [performed_bind]
        exact congrArg (_ :: ·) (ih _)

theorem performed_cancelLoop (specs : List ClockSpec) (w : World) :
    (CaseWorkflowService.cancelLoop c specs).performed localPorts w =
      specs.map (fun spec => .timerCancel c.tenant c.caseId spec.name) := by
  induction specs generalizing w with
  | nil => rfl
  | cons spec specs ih =>
    simp only [CaseWorkflowService.cancelLoop]
    rw [performed_bind]
    exact congrArg (_ :: ·) (ih _)

/-- The lifecycle event is one fallible operation, if the event port is bound. -/
theorem performed_then_emit {p : Service Unit} (eventType : String) (w : World)
    (hp : (p.exec localPorts w).1 = .ok ()) :
    ((p >>= fun _ => svc.emit eventType c).performed localPorts w).countP isFallible =
      (p.performed localPorts w).countP isFallible + if svc.events then 1 else 0 := by
  rw [performed_bind]
  rcases hrun : p.exec localPorts w with ⟨result, w'⟩
  rw [hrun] at hp
  cases hp
  dsimp only
  rw [List.countP_append, CaseWorkflowService.emit]
  cases svc.events <;> rfl

theorem exec_then_emit {p : Service Unit} (eventType : String) (w : World) :
    ((p >>= fun _ => svc.emit eventType c).exec localPorts w).1 = (p.exec localPorts w).1 := by
  rw [exec_bind]
  rcases p.exec localPorts w with ⟨_ | _, w'⟩
  · rfl
  · dsimp only
    rw [exec_emit]

theorem exec_openingClocks (a : OpenArgs) (d : WorkflowDefinition) (now asOf : DateTime)
    (w : World) :
    ((svc.scheduleClocks (CaseWorkflowService.opened a d now) d asOf).exec localPorts w).1 =
        .ok () ↔ svc.Completes d (a.openedAt now) := by
  rw [exec_scheduleClocks, completes_iff svc d a now asOf]
  by_cases hbound : svc.timers = true
  · rw [if_pos hbound]
    cases (svc.scheduled (CaseWorkflowService.opened a d now) d asOf d.clocks).2 with
    | none => simp
    | some e => simp [hbound]
  · rw [if_neg hbound]
    simp [hbound]

theorem performed_openingClocks (a : OpenArgs) (d : WorkflowDefinition) (now asOf : DateTime)
    (w : World) (hcompletes : svc.Completes d (a.openedAt now)) :
    ((svc.scheduleClocks (CaseWorkflowService.opened a d now) d asOf).performed localPorts
        w).countP isFallible = if svc.timers then d.openingClocks.length else 0 := by
  simp only [CaseWorkflowService.scheduleClocks]
  by_cases hbound : svc.timers = true
  · rw [if_pos hbound, if_pos hbound, performed_scheduleLoop]
    rcases scheduled_cases svc (CaseWorkflowService.opened a d now) d asOf d.clocks with
      ⟨ts, hts, hall⟩ | ⟨spec, hspec, hstarted, hdue⟩
    · rw [hts, ← openingClocks_eq a d now, hall.length_eq]
      simp [List.countP_map, isFallible, Function.comp_def]
    · have hopening : spec ∈ d.openingClocks := by
        rw [← openingClocks_eq a d now]
        exact List.mem_filter.mpr ⟨hspec, hstarted⟩
      exact absurd ((hasDue_opened hopening).mpr (hcompletes hbound spec hopening)) hdue
  · rw [if_neg hbound, if_neg hbound]
    rfl

/-- What an open does between its write and its record. -/
def CaseWorkflowService.openQuietly (svc : CaseWorkflowService) (c : Case)
    (d : WorkflowDefinition) : Service Unit :=
  svc.scheduleClocks c d c.openedAt >>= fun _ => svc.emit "case.opened" c

theorem openQuietly_only : (svc.openQuietly c d).Only (fun op => isQuiet op = true) :=
  (scheduleClocks_only (fun _ _ => rfl)).bind (fun _ => emit_only (fun _ => rfl) "case.opened" c)

theorem exec_definition_faulty {caseType : String}
    (hdefinition : svc.definitions.definition caseType = some d) {α : Type}
    (next : WorkflowDefinition → Service α) (s : World × List Bool) :
    (svc.definition caseType >>= next).exec faultyPorts s = (next d).exec faultyPorts s := by
  rw [exec_bind, CaseWorkflowService.definition, hdefinition]
  rfl

theorem openCase_faulty (a : OpenArgs) (r : Readings) (plan : List Bool) (w : World) :
    FaultyEffect svc ⟨⟨.openCase a, r⟩, plan⟩ w
      (faultyServeCase svc w ⟨⟨.openCase a, r⟩, plan⟩) := by
  have hserve : faultyServeCase svc w ⟨⟨.openCase a, r⟩, plan⟩ =
      ((svc.openCase a r).exec faultyPorts (w, plan)).2.1 := by
    simp only [faultyServeCase, CaseRequest.program, exec_bind_pure]
  cases hdefinition : svc.definitions.definition a.caseType with
  | none =>
    have hworld : faultyServeCase svc w ⟨⟨.openCase a, r⟩, plan⟩ = w := by
      rw [hserve, CaseWorkflowService.openCase, exec_bind, CaseWorkflowService.definition,
        hdefinition]
      rfl
    rw [hworld]
    refine .quiet [] (by simp) rfl rfl (List.append_nil _).symm ?_
    intro d hd
    cases hdefinition.symm.trans hd
  | some d =>
    generalize hc : CaseWorkflowService.opened a d r.now = c
    have hprogram : (svc.openCase a r).exec faultyPorts (w, plan) =
        (svc.openQuietly c d >>= fun _ =>
          port (.record (.caseAction (svc.openEvent a c r.timestamp))) >>= fun _ => pure c :
            Service Case).exec faultyPorts ({ w with cases := w.cases.upsert c }, plan) := by
      subst hc
      rw [CaseWorkflowService.openCase, exec_definition_faulty hdefinition]
      simp only [CaseWorkflowService.openQuietly, bind_assoc]
      rfl
    obtain ⟨recorded, hrecorded, hgrown⟩ := exec_quiet_record openQuietly_only
      (.caseAction (svc.openEvent a c r.timestamp)) c { w with cases := w.cases.upsert c } plan
    rw [← hprogram, ← hserve] at hgrown
    refine .opened a d c recorded rfl hdefinition hc.symm ?_ hgrown.cases hgrown.reviews hgrown.log
    subst hc
    rw [hrecorded, CaseWorkflowService.openQuietly, exec_then_emit, exec_openingClocks]
    apply and_congr_right
    intro hcompletes
    rw [performed_then_emit _ _ ((exec_openingClocks a d r.now _ _).mpr hcompletes),
      performed_openingClocks a d r.now _ _ hcompletes]
    rfl

theorem exec_load_faulty (w : World) (tenant caseId : String) (plan : List Bool) :
    (CaseWorkflowService.load tenant caseId).exec faultyPorts (w, plan) =
      (match w.getCase tenant caseId with
        | none => .error (.caseNotFound caseId)
        | some c => .ok c, w, plan) := by
  have hget : @exec _ _ _ (Option Case) _ faultyPorts (port (.caseGet tenant caseId)) (w, plan) =
    (.ok (w.getCase tenant caseId), w, plan) := rfl
  simp only [CaseWorkflowService.load, exec_bind, hget]
  cases w.getCase tenant caseId <;> rfl

/-- A call on a stored case goes on with the case and its workflow. -/
theorem exec_found_faulty {α : Type} {w : World} {tenant caseId : String}
    (hfound : svc.found w tenant caseId = some (c, d))
    (next : Case → WorkflowDefinition → Service α) (plan : List Bool) :
    (CaseWorkflowService.load tenant caseId >>= fun c =>
      svc.definition c.caseType >>= next c).exec faultyPorts (w, plan) =
        (next c d).exec faultyPorts (w, plan) := by
  obtain ⟨hget, hdefinition⟩ := CaseWorkflowService.found_eq_some.mp hfound
  rw [exec_bind, exec_load_faulty, hget]
  exact exec_definition_faulty hdefinition (next c) (w, plan)

theorem exec_missing_faulty {α : Type} {w : World} {tenant caseId : String}
    (hfound : svc.found w tenant caseId = none) (next : Case → WorkflowDefinition → Service α)
    (plan : List Bool) :
    ((CaseWorkflowService.load tenant caseId >>= fun c =>
      svc.definition c.caseType >>= next c).exec faultyPorts (w, plan)).2.1 = w := by
  rw [exec_bind, exec_load_faulty]
  cases hget : w.getCase tenant caseId with
  | none => rfl
  | some c =>
    have hnone : svc.definitions.definition c.caseType = none := by
      simpa [CaseWorkflowService.found, hget] using hfound
    dsimp only
    rw [exec_bind, CaseWorkflowService.definition, hnone]
    rfl

/-- What an accepted move does between its write and its record. -/
def CaseWorkflowService.moveQuietly (svc : CaseWorkflowService) (moved : Case)
    (d : WorkflowDefinition) : Service Unit :=
  (if d.isTerminal moved.state then svc.cancelClocks moved d else pure ()) >>= fun _ =>
    svc.emit "case.transitioned" moved

theorem moveQuietly_only : (svc.moveQuietly c d).Only (fun op => isQuiet op = true) := by
  refine Only.bind ?_ (fun _ => emit_only (fun _ => rfl) "case.transitioned" c)
  split
  · exact cancelClocks_only d (fun _ => rfl)
  · exact only_pure ()

theorem exec_moveQuietly (w : World) : ((svc.moveQuietly c d).exec localPorts w).1 = .ok () ∧
    ((svc.moveQuietly c d).performed localPorts w).countP isFallible + 1 =
      svc.moveCalls d c.state := by
  have hcancel : ((if d.isTerminal c.state then svc.cancelClocks c d else pure () :
      Service Unit).exec localPorts w).1 = .ok () := by
    split
    · rw [exec_cancelClocks]
    · rfl
  refine ⟨?_, ?_⟩
  · rw [CaseWorkflowService.moveQuietly, exec_then_emit, hcancel]
  · rw [CaseWorkflowService.moveQuietly, performed_then_emit _ _ hcancel]
    have hcount : ((if d.isTerminal c.state then svc.cancelClocks c d else pure () :
        Service Unit).performed localPorts w).countP isFallible =
          if d.isTerminal c.state ∧ svc.timers then d.clocks.length else 0 := by
      simp only [CaseWorkflowService.cancelClocks]
      cases d.isTerminal c.state with
      | false => rfl
      | true =>
        cases svc.timers with
        | false => rfl
        | true =>
          simp only [if_true, performed_cancelLoop]
          simp [List.countP_map, isFallible, Function.comp_def]
    rw [hcount]
    rfl

theorem transitionCase_faulty (a : TransitionArgs) (r : Readings) (plan : List Bool) (w : World) :
    FaultyEffect svc ⟨⟨.transitionCase a, r⟩, plan⟩ w
      (faultyServeCase svc w ⟨⟨.transitionCase a, r⟩, plan⟩) := by
  have hserve : faultyServeCase svc w ⟨⟨.transitionCase a, r⟩, plan⟩ =
      ((svc.transitionCase a r).exec faultyPorts (w, plan)).2.1 := by
    simp only [faultyServeCase, CaseRequest.program, exec_bind_pure]
  cases hfound : svc.found w a.tenant a.caseId with
  | none =>
    have hworld : faultyServeCase svc w ⟨⟨.transitionCase a, r⟩, plan⟩ = w := by
      rw [hserve]
      exact exec_missing_faulty hfound _ plan
    rw [hworld]
    refine .quiet [] (by simp) rfl rfl (List.append_nil _).symm ?_
    intro c d hd
    cases hfound.symm.trans hd
  | some found =>
    obtain ⟨c, d⟩ := found
    have hstart : (svc.transitionCase a r).exec faultyPorts (w, plan) = _ :=
      exec_found_faulty hfound _ plan
    rcases transition_cases c a.toState a.actor a.reason (a.asOf.getD r.now) d with
      ⟨hlegal, hmove⟩ | ⟨hlegal, hmove⟩
    · rw [hmove] at hstart
      have hrun : (svc.transitionCase a r).exec faultyPorts (w, plan) =
          (port (.record (.caseAction (svc.refusalEvent a c r.timestamp))) >>= fun _ =>
            .raise (.illegalTransition c.state a.toState) : Service Case).exec faultyPorts
              (w, plan) := hstart
      rw [hserve, hrun, exec_bind, exec_faulty_record]
      have htraceable : Traceable svc w ⟨⟨.transitionCase a, r⟩, plan⟩ := by
        intro c' d' hfound' hlegal'
        cases hfound.symm.trans hfound'
        cases hlegal.symm.trans hlegal'
      cases plan.headD false with
      | true => exact .quiet [] (by simp) rfl rfl (List.append_nil _).symm htraceable
      | false =>
        refine .quiet [.caseAction (svc.refusalEvent a c r.timestamp)] ?_ rfl rfl rfl htraceable
        intro e he
        cases List.mem_singleton.mp he
        simp [CaseWorkflowService.refusalEvent, CaseWorkflowService.auditEvent]
    · rw [hmove] at hstart
      generalize hmoved : CaseWorkflowService.advanced c a r.now = moved
      have hrun : (svc.transitionCase a r).exec faultyPorts (w, plan) =
          (svc.moveQuietly moved d >>= fun _ =>
            port (.record (.caseAction (svc.transitionEvent a c moved r.timestamp))) >>= fun _ =>
              pure moved : Service Case).exec faultyPorts
                ({ w with cases := w.cases.upsert moved }, plan) := by
        have hmoved : c.moved a.toState a.actor a.reason (a.asOf.getD r.now) = moved := hmoved
        rw [hmoved] at hstart
        rw [hstart, CaseWorkflowService.moveQuietly]
        by_cases hterminal : d.isTerminal moved.state = true
        · simp only [if_pos hterminal, bind_assoc]
          rfl
        · simp only [if_neg hterminal, pure_bind]
          rfl
      obtain ⟨recorded, hrecorded, hgrown⟩ := exec_quiet_record moveQuietly_only
        (.caseAction (svc.transitionEvent a c moved r.timestamp)) moved
        { w with cases := w.cases.upsert moved } plan
      rw [← hrun, ← hserve] at hgrown
      refine .moved a c moved d recorded rfl hfound hlegal hmoved.symm ?_ hgrown.cases
        hgrown.reviews hgrown.log
      obtain ⟨hok, hcount⟩ := @exec_moveQuietly svc moved d { w with cases := w.cases.upsert moved }
      rw [hrecorded, hcount, and_iff_right hok, ← hmoved]
      rfl

theorem exec_faulty_put {item : ReviewItem} {reviews : LocalReviewStore} {w : World}
    (hput : w.reviews.put item = .ok reviews) (plan : List Bool) :
    @exec _ _ _ Unit _ faultyPorts (port (.reviewPut item)) (w, plan) =
      if plan.headD false then (.error .portFailure, w, plan.tail)
      else (.ok (), { w with reviews }, plan.tail) := by
  rw [port, exec_perform, faultyPorts,
    withFaults_of_fallible localPorts isFallible .portFailure (.reviewPut item) rfl]
  simp only [localPorts, hput]

theorem HandedOver.refl (tenant caseId reviewId : String) (w : World) :
    HandedOver tenant caseId reviewId w w none [] :=
  ⟨by simp, rfl, rfl, (List.append_nil _).symm⟩

theorem route_faulty (console : ConsoleService) (c : Case) (assessment : CaseAssessment)
    (routing : Routing) (w : World) (plan : List Bool) :
    ∃ stored submitted, (stored.isSome = true ↔ spares plan 1 = true) ∧
      HandedOver c.tenant c.caseId routing.reviewId w
        ((console.route c assessment (CaseWorkflowService.routingMaker c) routing).exec faultyPorts
          (w, plan)).2.1 stored submitted := by
  generalize hitem : CaseWorkflowService.routedItem console c assessment routing = item
  have hsource : item.request.sourceKey = "" := by
    simp [← hitem, CaseWorkflowService.routedItem, ConsoleService.newItem,
      ConsoleService.routedReview]
  have hkey : item.key = (c.tenant, routing.reviewId) := by
    rw [← hitem, CaseWorkflowService.routedItem, ConsoleService.newItem_key]
    rfl
  have hcase : item.request.caseRef = c.caseId := by
    simp [← hitem, CaseWorkflowService.routedItem, ConsoleService.newItem,
      ConsoleService.routedReview]
  obtain ⟨reviews, hput⟩ := w.reviews.put_of_no_source hsource
  have hprogram : (console.route c assessment (CaseWorkflowService.routingMaker c) routing).exec
      faultyPorts (w, plan) = (port (.reviewPut item) >>= fun _ => port (.record (.signOff
        (console.submitEvent item routing.readings.timestamp))) >>= fun _ => pure () :
          Service Unit).exec faultyPorts (w, plan) := by
    subst hitem
    rfl
  have hspared : spares plan 1 = !plan.headD false := by simp [spares_succ]
  rw [hprogram, exec_bind, exec_faulty_put hput, hspared]
  cases plan.headD false with
  | true => exact ⟨none, [], by simp, .refl _ _ _ w⟩
  | false =>
    have hstored : reviews.table = w.reviews.table.upsert item := LocalReviewStore.put_table hput
    have hof : ∀ i ∈ some item, i.key = (c.tenant, routing.reviewId) ∧
        i.request.caseRef = c.caseId := by
      rintro _ ⟨⟩
      exact ⟨hkey, hcase⟩
    simp only [Bool.false_eq_true, if_false, exec_bind, exec_faulty_record]
    cases plan.tail.headD false with
    | true => exact ⟨some item, [], by simp, hof, rfl, hstored, (List.append_nil _).symm⟩
    | false => exact ⟨some item, [_], by simp, hof, rfl, hstored, rfl⟩

theorem HandedOver.of_grown {tenant caseId reviewId : String} {w w' w'' : World}
    {stored : Option ReviewItem} {submitted : List SignOffEvent} (h : w.Grown w' [])
    (h' : HandedOver tenant caseId reviewId w' w'' stored submitted) :
    HandedOver tenant caseId reviewId w w'' stored submitted where
  of_case := h'.of_case
  cases := h'.cases.trans h.cases
  reviews := by rw [h'.reviews, h.reviews]
  log := by rw [h'.log, h.log, List.append_nil]

theorem escalate_faulty (svc : CaseWorkflowService) (c : Case) (assessment : CaseAssessment)
    (routing : Routing) (w : World) (plan : List Bool) :
    ∃ stored submitted, (stored.isSome = true ↔ svc.reviewRouter.isSome = true ∧
        spares plan ((if svc.events then 1 else 0) + 1) = true) ∧
      HandedOver c.tenant c.caseId routing.reviewId w
        ((svc.escalate c assessment routing).exec faultyPorts (w, plan)).2.1 stored submitted := by
  have honly : (svc.emit "case.escalated" c).Only (fun op => isQuiet op = true) :=
    emit_only (fun _ => rfl) "case.escalated" c
  have hemit := exec_quiet honly w plan
  have hspares := exec_withFaults_of_spares localPorts isFallible .portFailure
    (svc.emit "case.escalated" c) w plan
  have hfault := exec_withFaults_of_not_spares localPorts isFallible .portFailure
    (svc.emit "case.escalated" c) w plan
  have hcount : ((svc.emit "case.escalated" c).performed localPorts w).countP isFallible =
      if svc.events then 1 else 0 := by
    simp only [CaseWorkflowService.emit]
    cases svc.events <;> rfl
  rw [hcount] at hspares hfault
  rw [CaseWorkflowService.escalate, exec_bind, spares_add]
  rcases hrun : (svc.emit "case.escalated" c).exec faultyPorts (w, plan) with ⟨result, w', rest⟩
  rw [hrun] at hemit hspares hfault
  cases hspared : spares plan (if svc.events then 1 else 0) with
  | false =>
    cases hfault hspared
    exact ⟨none, [], by simp, .of_grown hemit (.refl _ _ _ w')⟩
  | true =>
    rw [exec_emit] at hspares
    cases hspares hspared
    cases hrouter : svc.reviewRouter with
    | none => exact ⟨none, [], by simp, .of_grown hemit (.refl _ _ _ _)⟩
    | some console =>
      obtain ⟨stored, submitted, hstored, hhanded⟩ := route_faulty console c assessment routing
        (w.withEvent svc "case.escalated" c) (plan.drop (if svc.events then 1 else 0))
      exact ⟨stored, submitted, by simpa using hstored, .of_grown hemit hhanded⟩

/-- What an evaluation does once it has assessed its case: it records the assessment and hands
the case over if it asks for review. -/
theorem exec_assessed_faulty {a : EvaluateArgs} {r : Readings} {w : World} {c : Case}
    {d : WorkflowDefinition} {assessment : CaseAssessment}
    (hfound : svc.found w a.tenant a.caseId = some (c, d))
    (hassess : assess c d (a.asOf.getD r.now) svc.holidays = .ok assessment) (routing : Routing)
    (plan : List Bool) : (svc.evaluateCase a r routing).exec faultyPorts (w, plan) =
      (svc.reported a c assessment r routing).exec faultyPorts (w, plan) := by
  obtain ⟨hget, hdefinition⟩ := CaseWorkflowService.found_eq_some.mp hfound
  obtain ⟨next, heq, hnext⟩ := evaluateCase_assessed hdefinition hassess routing
  rw [heq, ← hnext, ← hget]
  rfl

theorem evaluateCase_escalated_faulty {a : EvaluateArgs} {r : Readings} {w : World} {c : Case}
    {d : WorkflowDefinition} {assessment : CaseAssessment}
    (hfound : svc.found w a.tenant a.caseId = some (c, d))
    (hassess : assess c d (a.asOf.getD r.now) svc.holidays = .ok assessment)
    (hreview : assessment.requiresHumanReview = true) (routing : Routing) (plan : List Bool) :
    FaultyEffect svc ⟨⟨.evaluateCase a routing, r⟩, plan⟩ w
      ((svc.evaluateCase a r routing).exec faultyPorts (w, plan)).2.1 := by
  rw [exec_assessed_faulty hfound hassess, CaseWorkflowService.reported,
    CaseWorkflowService.handOver, hreview, if_pos rfl, exec_bind, exec_faulty_record]
  cases hhead : plan.headD false with
  | true =>
    refine .quiet [] (by simp) rfl rfl (List.append_nil _).symm ?_
    intro c' d' assessment' _ _ _
    exact Or.inl hhead
  | false =>
    obtain ⟨stored, submitted, hstored, hhanded⟩ := escalate_faulty svc c assessment routing
      (w.audited (svc.evaluationEvent a c assessment r.timestamp)) plan.tail
    obtain ⟨htenant, hcase⟩ := Prod.mk.inj (World.key_of_getCase
      (CaseWorkflowService.found_eq_some.mp hfound).1)
    rw [show c.tenant = a.tenant from htenant, show c.caseId = a.caseId from hcase] at hhanded
    have hspares : spares plan svc.escalationCalls =
        spares plan.tail ((if svc.events then 1 else 0) + 1) := by
      rw [CaseWorkflowService.escalationCalls, Nat.add_comm, spares_succ, hhead]
      rfl
    rw [← hspares] at hstored
    refine .escalated a routing c d assessment submitted stored rfl hfound hassess hreview
      hhead hstored ?_
    simp only [Bool.false_eq_true, if_false]
    rw [exec_bind_pure faultyPorts _ (fun _ => assessment)]
    exact hhanded

theorem evaluateCase_faulty (a : EvaluateArgs) (routing : Routing) (r : Readings)
    (plan : List Bool) (w : World) :
    FaultyEffect svc ⟨⟨.evaluateCase a routing, r⟩, plan⟩ w
      (faultyServeCase svc w ⟨⟨.evaluateCase a routing, r⟩, plan⟩) := by
  have hserve : faultyServeCase svc w ⟨⟨.evaluateCase a routing, r⟩, plan⟩ =
      ((svc.evaluateCase a r routing).exec faultyPorts (w, plan)).2.1 := by
    simp only [faultyServeCase, CaseRequest.program, exec_bind_pure]
  rw [hserve]
  cases hfound : svc.found w a.tenant a.caseId with
  | none =>
    have hmissing : ((svc.evaluateCase a r routing).exec faultyPorts (w, plan)).2.1 = w :=
      exec_missing_faulty hfound _ plan
    rw [hmissing]
    refine .quiet [] (by simp) rfl rfl (List.append_nil _).symm ?_
    intro c d assessment hd
    cases hfound.symm.trans hd
  | some found =>
    obtain ⟨c, d⟩ := found
    cases hassess : assess c d (a.asOf.getD r.now) svc.holidays with
    | error e =>
      have hstart : (svc.evaluateCase a r routing).exec faultyPorts (w, plan) = _ :=
        exec_found_faulty hfound _ plan
      rw [hassess] at hstart
      rw [hstart]
      refine .quiet [] (by simp) rfl rfl (List.append_nil _).symm ?_
      intro c' d' assessment hfound' hassess'
      cases hfound.symm.trans hfound'
      cases hassess.symm.trans hassess'
    | ok assessment =>
      cases hreview : assessment.requiresHumanReview with
      | true => exact evaluateCase_escalated_faulty hfound hassess hreview routing plan
      | false =>
        have htraceable : Traceable svc w ⟨⟨.evaluateCase a routing, r⟩, plan⟩ := by
          intro c' d' assessment' hfound' hassess' hreview'
          cases hfound.symm.trans hfound'
          cases hassess.symm.trans hassess'
          cases hreview.symm.trans hreview'
        rw [exec_assessed_faulty hfound hassess, CaseWorkflowService.reported,
          CaseWorkflowService.handOver, hreview, if_neg Bool.false_ne_true, exec_bind,
          exec_faulty_record]
        cases plan.headD false with
        | true => exact .quiet [] (by simp) rfl rfl (List.append_nil _).symm htraceable
        | false =>
          refine .quiet [.caseAction (svc.evaluationEvent a c assessment r.timestamp)] ?_ rfl rfl
            rfl htraceable
          intro e he
          cases List.mem_singleton.mp he
          simp [CaseWorkflowService.evaluationEvent, CaseWorkflowService.auditEvent, hreview]

end

/-- Inversion: what a call does when its ports may fail. -/
theorem faultyEffect (svc : CaseWorkflowService) (w : World) (r : FaultyCaseRequest) :
    FaultyEffect svc r w (faultyServeCase svc w r) := by
  obtain ⟨⟨call, readings⟩, plan⟩ := r
  cases call with
  | openCase a => exact openCase_faulty a readings plan w
  | transitionCase a => exact transitionCase_faulty a readings plan w
  | evaluateCase a routing => exact evaluateCase_faulty a routing readings plan w
  | get tenant caseId =>
    have hworld : faultyServeCase svc w ⟨⟨.get tenant caseId, readings⟩, plan⟩ = w := by
      simp only [faultyServeCase, CaseRequest.program, exec_bind_pure, CaseWorkflowService.get,
        exec_load_faulty]
    rw [hworld]
    exact .quiet [] (by simp) rfl rfl (List.append_nil _).symm trivial
  | listCases tenant => exact .quiet [] (by simp) rfl rfl (List.append_nil _).symm trivial

section
variable {svc : CaseWorkflowService} {r : FaultyCaseRequest} {w w' : World}

theorem Case.TracedBy.mono {c : Case} {trail trail' : List CaseAuditEvent} (h : c.TracedBy trail)
    (hsub : trail ⊆ trail') : c.TracedBy trail' where
  opened := by
    obtain ⟨e, he, hopen⟩ := h.opened
    exact ⟨e, hsub he, hopen⟩
  moved t ht := by
    obtain ⟨e, he, hmoves⟩ := h.moved t ht
    exact ⟨e, hsub he, hmoves⟩

theorem World.mem_caseTrail {tenant caseId : String} {e : CaseAuditEvent} :
    e ∈ w.caseTrail tenant caseId ↔
      .caseAction e ∈ w.log ∧ e.tenant = tenant ∧ e.caseId = caseId := by
  simp only [caseTrail, List.mem_filterMap]
  constructor
  · rintro ⟨event, hevent, hkept⟩
    cases event with
    | signOff e => cases hkept
    | caseAction e =>
      simp only [Option.ite_none_right_eq_some, Option.some.injEq] at hkept
      obtain ⟨hkey, rfl⟩ := hkept
      exact ⟨hevent, hkey⟩
  · rintro ⟨hevent, hkey⟩
    exact ⟨_, hevent, if_pos hkey⟩

theorem World.caseTrail_subset {events : List AuditEvent} (hlog : w'.log = w.log ++ events)
    (tenant caseId : String) : w.caseTrail tenant caseId ⊆ w'.caseTrail tenant caseId := by
  intro e he
  obtain ⟨hevent, hkey⟩ := mem_caseTrail.mp he
  exact mem_caseTrail.mpr ⟨hlog ▸ List.mem_append_left _ hevent, hkey⟩

theorem tracedBy_moved {c : Case} {toState actor reason : String} {asOf : DateTime}
    {trail : List CaseAuditEvent} :
    (c.moved toState actor reason asOf).TracedBy trail ↔
      c.TracedBy trail ∧ ∃ e ∈ trail, e.Moves c.state toState actor := by
  constructor
  · intro h
    refine ⟨⟨h.opened, fun t ht => h.moved t (List.mem_append_left _ ht)⟩, ?_⟩
    exact h.moved (c.entry toState actor reason asOf) (List.mem_append_right _ (by simp))
  · rintro ⟨h, hmove⟩
    refine ⟨h.opened, fun t ht => ?_⟩
    rw [Case.moved_history, List.mem_append, List.mem_singleton] at ht
    rcases ht with ht | rfl
    · exact h.moved t ht
    · exact hmove

theorem traced_cases_of_upsert {c : Case} {events : List AuditEvent}
    (hcases : w'.cases = w.cases.upsert c) (hlog : w'.log = w.log ++ events) (h : Traced w) :
    (∀ tenant caseId c', w'.getCase tenant caseId = some c' →
        c'.TracedBy (w'.caseTrail tenant caseId)) ↔
      c.TracedBy (w'.caseTrail c.tenant c.caseId) := by
  constructor
  · intro hall
    exact hall c.tenant c.caseId c ((World.getCase_of_upsert hcases _ _).trans (if_pos rfl))
  · intro hc tenant caseId c' hget
    rw [World.getCase_of_upsert hcases] at hget
    split at hget
    · rename_i hkey
      cases hget
      cases hkey
      exact hc
    · exact (h.cases tenant caseId c' hget).mono (World.caseTrail_subset hlog tenant caseId)

theorem traced_escalations_of_quiet {events : List AuditEvent}
    (hreviews : w'.reviews = w.reviews) (hlog : w'.log = w.log ++ events)
    (hevents : ∀ e, .caseAction e ∈ events → e.decision ≠ .escalated) (h : Traced w) :
    ∀ e, .caseAction e ∈ w'.log → e.decision = .escalated → w'.HasReview e.tenant e.caseId := by
  intro e he hescalated
  rw [hlog, List.mem_append] at he
  rcases he with he | he
  · obtain ⟨item, hitem, hof⟩ := h.escalations e he hescalated
    exact ⟨item, hreviews ▸ hitem, hof⟩
  · exact absurd hescalated (hevents e he)

theorem exists_recorded_iff {tenant caseId : String} {event : CaseAuditEvent} {recorded : Bool}
    {P : CaseAuditEvent → Prop}
    (hlog : w'.log = w.log ++ if recorded then [.caseAction event] else [])
    (hevent : event.tenant = tenant ∧ event.caseId = caseId) (hP : P event) :
    (∃ e ∈ w'.caseTrail tenant caseId, P e) ↔
      recorded = true ∨ ∃ e ∈ w.caseTrail tenant caseId, P e := by
  cases recorded with
  | true =>
    exact iff_of_true ⟨event, World.mem_caseTrail.mpr ⟨by simp [hlog], hevent⟩, hP⟩ (Or.inl rfl)
  | false =>
    have hsame : w'.log = w.log := by simpa using hlog
    rw [World.caseTrail_of_same hsame]
    simp

theorem quiet_of_recorded {event : CaseAuditEvent} {recorded : Bool}
    (hevent : event.decision ≠ .escalated) :
    ∀ e, .caseAction e ∈ (if recorded then [.caseAction event] else [] : List AuditEvent) →
      e.decision ≠ .escalated := by
  intro e he
  cases recorded with
  | true =>
    cases List.mem_singleton.mp he
    exact hevent
  | false => cases he

theorem traced_iff_of_opened {a : OpenArgs} {d : WorkflowDefinition} {recorded : Bool}
    {now timestamp : DateTime}
    (hcases : w'.cases = w.cases.upsert (CaseWorkflowService.opened a d now))
    (hreviews : w'.reviews = w.reviews)
    (hlog : w'.log = w.log ++ if recorded then [.caseAction (svc.openEvent a
      (CaseWorkflowService.opened a d now) timestamp)] else []) (h : Traced w) :
    Traced w' ↔ recorded = true ∨ ∃ e ∈ w.caseTrail a.tenant a.caseId, e.action = "open" := by
  have hevent := exists_recorded_iff (P := fun e => e.action = "open") hlog ⟨rfl, rfl⟩ rfl
  have hquiet : (svc.openEvent a (CaseWorkflowService.opened a d now) timestamp).decision ≠
      .escalated := by
    simp [CaseWorkflowService.openEvent, CaseWorkflowService.auditEvent]
  constructor
  · intro h'
    exact hevent.mp ((traced_cases_of_upsert hcases hlog h).mp h'.cases).opened
  · intro hopen
    exact ⟨(traced_cases_of_upsert hcases hlog h).mpr ⟨hevent.mpr hopen, fun t ht => by cases ht⟩,
      traced_escalations_of_quiet hreviews hlog (quiet_of_recorded hquiet) h⟩

theorem traced_iff_of_moved {a : TransitionArgs} {c : Case} {recorded : Bool}
    {now timestamp : DateTime} (hget : w.getCase a.tenant a.caseId = some c)
    (hcases : w'.cases = w.cases.upsert (CaseWorkflowService.advanced c a now))
    (hreviews : w'.reviews = w.reviews)
    (hlog : w'.log = w.log ++ if recorded then [.caseAction (svc.transitionEvent a c
      (CaseWorkflowService.advanced c a now) timestamp)] else []) (h : Traced w) :
    Traced w' ↔ recorded = true ∨
      ∃ e ∈ w.caseTrail a.tenant a.caseId, e.Moves c.state a.toState a.actor := by
  obtain ⟨htenant, hcase⟩ := Prod.mk.inj (World.key_of_getCase hget)
  have hevent := exists_recorded_iff (P := fun e => e.Moves c.state a.toState a.actor) hlog
    ⟨htenant, hcase⟩ ⟨rfl, rfl, rfl, rfl, rfl⟩
  have hquiet :
      (svc.transitionEvent a c (CaseWorkflowService.advanced c a now) timestamp).decision ≠
        .escalated := by
    simp [CaseWorkflowService.transitionEvent, CaseWorkflowService.auditEvent]
  have htrail : w'.caseTrail (CaseWorkflowService.advanced c a now).tenant
      (CaseWorkflowService.advanced c a now).caseId = w'.caseTrail a.tenant a.caseId :=
    congrArg₂ w'.caseTrail htenant hcase
  have hcases' := traced_cases_of_upsert hcases hlog h
  rw [htrail, CaseWorkflowService.advanced, tracedBy_moved] at hcases'
  constructor
  · intro h'
    exact hevent.mp (hcases'.mp h'.cases).2
  · intro hmoves
    have hold := (h.cases a.tenant a.caseId c hget).mono
      (World.caseTrail_subset hlog a.tenant a.caseId)
    exact ⟨hcases'.mpr ⟨hold, hevent.mpr hmoves⟩,
      traced_escalations_of_quiet hreviews hlog (quiet_of_recorded hquiet) h⟩

theorem HandedOver.hasReview {tenant caseId reviewId : String} {stored : Option ReviewItem}
    {submitted : List SignOffEvent}
    (h : HandedOver tenant caseId reviewId w w' stored submitted)
    (hfresh : w.reviews.get tenant reviewId = none) {t k : String} :
    w'.HasReview t k ↔ w.HasReview t k ∨ (stored.isSome = true ∧ (tenant, caseId) = (t, k)) := by
  simp only [World.HasReview, h.reviews]
  cases stored with
  | none => simp
  | some item =>
    obtain ⟨hkey, hcase⟩ := h.of_case item rfl
    have htenant : item.tenant = tenant := congrArg Prod.fst hkey
    have hrows : (w.reviews.table.upsert item).rows = w.reviews.table.rows ++ [item] :=
      KeyedTable.rows_upsert_of_fresh (hkey ▸ hfresh)
    simp only [Option.map_some, Option.getD_some, hrows, List.mem_append, List.mem_singleton]
    constructor
    · rintro ⟨row, hrow | rfl, hof⟩
      · exact Or.inl ⟨row, hrow, hof⟩
      · exact Or.inr ⟨rfl, by rw [← hof.1, ← hof.2, htenant, hcase]⟩
    · rintro (⟨row, hrow, hof⟩ | ⟨-, hsame⟩)
      · exact ⟨row, Or.inl hrow, hof⟩
      · obtain ⟨rfl, rfl⟩ := Prod.mk.inj hsame
        exact ⟨item, Or.inr rfl, htenant, hcase⟩

theorem traced_iff_of_escalated {a : EvaluateArgs} {c : Case} {assessment : CaseAssessment}
    {timestamp : DateTime} {reviewId : String} {stored : Option ReviewItem}
    {submitted : List SignOffEvent} (hget : w.getCase a.tenant a.caseId = some c)
    (hreview : assessment.requiresHumanReview = true)
    (hhanded : HandedOver a.tenant a.caseId reviewId
      (w.audited (svc.evaluationEvent a c assessment timestamp)) w' stored submitted)
    (hfresh : w.reviews.get a.tenant reviewId = none) (h : Traced w) :
    Traced w' ↔ stored.isSome = true ∨ w.HasReview a.tenant a.caseId := by
  obtain ⟨htenant, hcase⟩ := Prod.mk.inj (World.key_of_getCase hget)
  have hlog : w'.log = w.log ++ .caseAction (svc.evaluationEvent a c assessment timestamp) ::
      submitted.map .signOff := by
    rw [hhanded.log, World.audited_log, List.append_assoc]
    rfl
  have hreviews {t k : String} : w'.HasReview t k ↔
      w.HasReview t k ∨ (stored.isSome = true ∧ (a.tenant, a.caseId) = (t, k)) :=
    hhanded.hasReview hfresh
  constructor
  · intro h'
    have hescalated := h'.escalations (svc.evaluationEvent a c assessment timestamp)
      (by simp [hlog])
      (by simp [CaseWorkflowService.evaluationEvent, CaseWorkflowService.auditEvent, hreview])
    have hhas : w'.HasReview a.tenant a.caseId := by
      rw [← htenant, ← hcase]
      exact hescalated
    rcases hreviews.mp hhas with hold | ⟨hstored, -⟩
    · exact Or.inr hold
    · exact Or.inl hstored
  · intro hcovered
    refine ⟨?_, ?_⟩
    · intro tenant caseId c' hc'
      rw [World.getCase_of_same (hhanded.cases.trans (World.audited_cases _ _))] at hc'
      exact (h.cases tenant caseId c' hc').mono (World.caseTrail_subset hlog tenant caseId)
    · intro e he hescalated
      rw [hlog, List.mem_append, List.mem_cons] at he
      rcases he with he | he | he
      · exact hreviews.mpr (Or.inl (h.escalations e he hescalated))
      · cases he
        have hthis : w'.HasReview a.tenant a.caseId := by
          rw [hreviews]
          rcases hcovered with hstored | hold
          · exact Or.inr ⟨hstored, rfl⟩
          · exact Or.inl hold
        rw [← htenant, ← hcase] at hthis
        exact hthis
      · obtain ⟨e', -, he'⟩ := List.mem_map.mp he
        cases he'

/-- A call keeps everything traced if and only if it is traceable. -/
theorem traced_step_iff (h : Traced w) (hfresh : RoutedFresh w r)
    (heffect : FaultyEffect svc r w w') : Traced w' ↔ Traceable svc w r := by
  cases heffect with
  | quiet events hevents hcases hreviews hlog htraceable =>
    refine iff_of_true ⟨?_, traced_escalations_of_quiet hreviews hlog hevents h⟩ htraceable
    intro tenant caseId c hget
    rw [World.getCase_of_same hcases] at hget
    exact (h.cases tenant caseId c hget).mono (World.caseTrail_subset hlog tenant caseId)
  | opened a d c recorded hcall hdefinition hcase hrecorded hcases hreviews hlog =>
    subst hcase
    rw [traced_iff_of_opened hcases hreviews hlog h, hrecorded]
    simp only [Traceable, hcall, hdefinition, Option.some.injEq, forall_eq']
  | moved a c moved d recorded hcall hfound hlegal hmoved hrecorded hcases hreviews hlog =>
    subst hmoved
    have hget := (CaseWorkflowService.found_eq_some.mp hfound).1
    rw [traced_iff_of_moved hget hcases hreviews hlog h, hrecorded]
    simp only [Traceable, hcall, hfound, Option.some.injEq, Prod.mk.injEq, and_imp, forall_eq',
      forall_apply_eq_imp_iff, hlegal, forall_const]
  | escalated a routing c d assessment submitted stored hcall hfound hassess hreview hrecord hstored
      hhanded =>
    have hget := (CaseWorkflowService.found_eq_some.mp hfound).1
    simp only [RoutedFresh, hcall] at hfresh
    rw [traced_iff_of_escalated hget hreview hhanded hfresh h, hstored]
    simp only [Traceable, hcall, hfound]
    constructor
    · intro hcovered _ _ _ _ _ _
      exact Or.inr hcovered
    · intro hall
      rcases hall c d assessment rfl hassess hreview with hhead | hcovered
      · cases hrecord.symm.trans hhead
      · exact hcovered

end

/-- In every state of a run of case actions whose ports may raise everything is traced, if and
only if every call of the run is traceable. -/
theorem actions_traced_iff (svc : CaseWorkflowService) (rs : List FaultyCaseRequest)
    (hfresh : Along (faultyServeCase svc) RoutedFresh World.empty rs) :
    Always (faultyServeCase svc) Traced World.empty rs ↔
      Along (faultyServeCase svc) (Traceable svc) World.empty rs := by
  have hempty : Traced World.empty := by
    constructor
    · intro tenant caseId c hget
      cases hget
    · intro e he
      cases he
  exact always_iff_along (fun _ => True) RoutedFresh (fun _ _ _ _ _ _ => trivial)
    (fun w r _ h hr => traced_step_iff h hr (faultyEffect svc w r)) trivial hempty hfresh

namespace Demo

/-- A complaint opened, and opened once more while the timers are down; moved, and evaluated when
it is overdue while the trail of the console is down. -/
def tracedRun : List FaultyCaseRequest :=
  [⟨openCase "complaint", []⟩, ⟨openCase "complaint", [true]⟩, ⟨moveTo "under_review", []⟩,
    ⟨evaluateAfter 40 "rev-1", [false, false, false, true]⟩]

/-- The record of an open raises, after its two timers and its lifecycle event. -/
def lostOpen : List FaultyCaseRequest := [⟨openCase "complaint", [false, false, false, true]⟩]

end Demo

theorem demo_actions_traced :
    Always (faultyServeCase Demo.complaints) Traced World.empty Demo.tracedRun ∧
      ∃ e, .caseAction e ∈ (Demo.tracedRun.foldl (faultyServeCase Demo.complaints) .empty).log ∧
        e.decision = .escalated := by
  constructor
  · refine (actions_traced_iff Demo.complaints Demo.tracedRun
      ⟨trivial, trivial, trivial, rfl, trivial⟩).mpr ⟨?_, ?_, ?_, ?_, trivial⟩
    · intro d hd
      cases hd
      exact Or.inl ⟨by decide, rfl⟩
    · intro d hd
      exact Or.inr ⟨_, List.mem_singleton_self _, rfl⟩
    · intro c d hfound hlegal
      exact Or.inl rfl
    · intro c d assessment hfound hassess hreview
      exact Or.inr (Or.inl ⟨rfl, rfl⟩)
  · exact ⟨_, List.mem_of_getElem? (i := 2) rfl, rfl⟩

/-- A case that was stored before its record raised has no open event. -/
theorem open_without_record : ¬ ∀ (svc : CaseWorkflowService) (rs : List FaultyCaseRequest),
    Along (faultyServeCase svc) RoutedFresh World.empty rs →
      Always (faultyServeCase svc) Traced World.empty rs := by
  intro h
  have htraced := h Demo.complaints Demo.lostOpen ⟨trivial, trivial⟩ Demo.lostOpen
    (List.prefix_refl _)
  obtain ⟨e, he, -⟩ := (htraced.cases "demo-bank" "case-1" _ rfl).opened
  cases he

end ReviewConsole

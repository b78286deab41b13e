import ReviewConsole.CaseWorkflowService
import ReviewConsole.ConsoleRuns

/-!
# Runs of the case engine

A run of the engine is a list of calls on one service. As for the console, one inversion
theorem says what a call can do to the world, and the invariants are read off it.
-/
namespace ReviewConsole
open PortPrograms GuardedRuns KeyedTables

inductive CaseCall where
  | openCase (a : OpenArgs)
  | transitionCase (a : TransitionArgs)
  | evaluateCase (a : EvaluateArgs) (routing : Routing)
  | get (tenant caseId : String)
  | listCases (tenant : String)
  deriving DecidableEq, Repr

inductive CaseResponse where
  | case (c : Case)
  | assessment (assessment : CaseAssessment)
  | cases (cs : List Case)
  deriving DecidableEq, Repr

structure CaseRequest where
  call : CaseCall
  readings : Readings
  deriving DecidableEq, Repr

variable (svc : CaseWorkflowService)

def CaseRequest.program (r : CaseRequest) : Service CaseResponse :=
  match r.call with
  | .openCase a => do
    let c ← svc.openCase a r.readings
    pure (.case c)
  | .transitionCase a => do
    let c ← svc.transitionCase a r.readings
    pure (.case c)
  | .evaluateCase a routing => do
    let assessment ← svc.evaluateCase a r.readings routing
    pure (.assessment assessment)
  | .get tenant caseId => do
    let c ← CaseWorkflowService.get tenant caseId
    pure (.case c)
  | .listCases tenant => do
    let cs ← CaseWorkflowService.listCases tenant
    pure (.cases cs)

/-- The response of a call and the world after it, when no port fails. -/
def answerCase (w : World) (r : CaseRequest) : Except ServiceError CaseResponse × World :=
  (r.program svc).exec localPorts w

def serveCase (w : World) (r : CaseRequest) : World := (answerCase svc w r).2

def engineAfter (rs : List CaseRequest) : World := run (serveCase svc) World.empty rs

@[simp] theorem engineAfter_snoc (rs : List CaseRequest) (r : CaseRequest) :
    engineAfter svc (rs ++ [r]) = serveCase svc (engineAfter svc rs) r := run_snoc _ _ _ _

namespace CaseWorkflowService

/-- The timers that the loop of `_schedule_clocks` schedules, and the error that ends it. -/
def scheduled (c : Case) (definition : WorkflowDefinition) (asOf : DateTime) :
    List ClockSpec → List Timer × Option ClockError
  | [] => ([], none)
  | spec :: specs =>
    match deadlineFor spec (c.firstEntered spec.startState definition.initial) asOf
        svc.holidays with
    | .error e => ([], some e)
    | .ok status =>
      let rest := scheduled c definition asOf specs
      match status.dueAt with
      | some due => (⟨c.tenant, c.caseId, spec.name, due⟩ :: rest.1, rest.2)
      | none => rest

/-- The case and the workflow that a call on a stored case finds. -/
def found (w : World) (tenant caseId : String) :
    Option (Case × WorkflowDefinition) :=
  (w.getCase tenant caseId).bind (fun c => (svc.definitions.definition c.caseType).map (c, ·))

/-- The case that `open_case` stores. -/
def opened (a : OpenArgs) (definition : WorkflowDefinition) (now : DateTime) : Case :=
  newCase a.caseId a.tenant definition a.severity (a.asOf.getD now) a.attributes a.citations

def advanced (c : Case) (a : TransitionArgs) (now : DateTime) : Case :=
  c.moved a.toState a.actor a.reason (a.asOf.getD now)

def openEvent (a : OpenArgs) (c : Case) (timestamp : DateTime) : CaseAuditEvent :=
  svc.auditEvent c "open" a.actor "" c.state .allowed
    (if a.summary = "" then a.caseType else a.summary) [] timestamp

def refusalEvent (a : TransitionArgs) (c : Case) (timestamp : DateTime) : CaseAuditEvent :=
  svc.auditEvent c "transition" a.actor c.state a.toState .rejected a.reason [] timestamp

def transitionEvent (a : TransitionArgs) (c moved : Case) (timestamp : DateTime) : CaseAuditEvent :=
  svc.auditEvent moved "transition" a.actor c.state moved.state .allowed a.reason [] timestamp

def evaluationEvent (a : EvaluateArgs) (c : Case) (assessment : CaseAssessment)
    (timestamp : DateTime) : CaseAuditEvent :=
  svc.auditEvent c "evaluate" a.actor c.state c.state
    (if assessment.requiresHumanReview then .escalated else .allowed) c.caseType
    assessment.findings timestamp

/-- The review that an escalation submits to the console. -/
def routedItem (console : ConsoleService) (c : Case) (assessment : CaseAssessment)
    (routing : Routing) : ReviewItem :=
  console.newItem (console.routedReview c assessment (routingMaker c) routing.reviewId)
    routing.readings.now

/-- What an evaluation makes of the review store, and the events of the review it routes. -/
def routed (c : Case) (assessment : CaseAssessment) (routing : Routing)
    (reviews : LocalReviewStore) :
    Except ServiceError (LocalReviewStore × List AuditEvent) :=
  if assessment.requiresHumanReview then
    match svc.reviewRouter with
    | none => .ok (reviews, [])
    | some console =>
      (reviews.put (routedItem console c assessment routing)).map (fun reviews =>
        (reviews, [.signOff (console.submitEvent (routedItem console c assessment routing)
          routing.readings.timestamp)]))
  else .ok (reviews, [])

end CaseWorkflowService

namespace World

variable (w : World)

/-- The world after the clocks of an opened case were scheduled. -/
def withTimers (timers : List Timer) : World :=
  { w with timers := timers.foldl KeyedTable.upsert w.timers }

/-- The world after the clocks of a case were cancelled. -/
def withoutClocks (c : Case) (specs : List ClockSpec) : World :=
  { w with timers := specs.foldl (fun t spec => t.erase (c.tenant, c.caseId, spec.name)) w.timers }

def withEvent (svc : CaseWorkflowService) (eventType : String) (c : Case) : World :=
  if svc.events then
    { w with published := w.published ++ [CaseWorkflowService.lifecycleEvent eventType c] }
  else w

def audited (e : CaseAuditEvent) : World := { w with log := w.log ++ [.caseAction e] }

section
variable (timers : List Timer) (c : Case) (specs : List ClockSpec) (svc : CaseWorkflowService)
variable (eventType : String) (e : CaseAuditEvent)

@[simp] theorem withTimers_cases : (w.withTimers timers).cases = w.cases := rfl

@[simp] theorem withTimers_log : (w.withTimers timers).log = w.log := rfl

@[simp] theorem withoutClocks_cases : (w.withoutClocks c specs).cases = w.cases := rfl

@[simp] theorem withoutClocks_log : (w.withoutClocks c specs).log = w.log := rfl

@[simp] theorem withEvent_cases : (w.withEvent svc eventType c).cases = w.cases := by
  simp only [withEvent]
  split <;> rfl

@[simp] theorem withEvent_timers : (w.withEvent svc eventType c).timers = w.timers := by
  simp only [withEvent]
  split <;> rfl

@[simp] theorem withEvent_log : (w.withEvent svc eventType c).log = w.log := by
  simp only [withEvent]
  split <;> rfl

@[simp] theorem audited_cases : (w.audited e).cases = w.cases := rfl

@[simp] theorem audited_timers : (w.audited e).timers = w.timers := rfl

@[simp] theorem audited_log : (w.audited e).log = w.log ++ [.caseAction e] := rfl

end

variable {w} {w' : World}

theorem getCase_of_upsert {c : Case} (h : w'.cases = w.cases.upsert c) (tenant caseId : String) :
    w'.getCase tenant caseId =
      if (tenant, caseId) = c.key then some c else w.getCase tenant caseId := by
  rw [getCase, h]
  exact KeyedTable.find?_upsert

theorem getCase_of_same (h : w'.cases = w.cases) (tenant caseId : String) :
    w'.getCase tenant caseId = w.getCase tenant caseId := by
  rw [getCase, h, getCase]

theorem key_of_getCase {tenant caseId : String} {c : Case} (h : w.getCase tenant caseId = some c) :
    c.key = (tenant, caseId) :=
  KeyedTable.key_of_find? h

theorem caseTrail_of_log {e : CaseAuditEvent} (h : w'.log = w.log ++ [.caseAction e])
    (tenant caseId : String) : w'.caseTrail tenant caseId =
      w.caseTrail tenant caseId ++ if (e.tenant, e.caseId) = (tenant, caseId) then [e] else [] := by
  rw [caseTrail, h, List.filterMap_append]
  congr 1
  by_cases h : e.tenant = tenant ∧ e.caseId = caseId
  · simp [h]
  · simp [h]

theorem caseTrail_of_signOff {e : SignOffEvent} (h : w'.log = w.log ++ [.signOff e])
    (tenant caseId : String) : w'.caseTrail tenant caseId = w.caseTrail tenant caseId := by
  rw [caseTrail, h, List.filterMap_append, caseTrail]
  simp

theorem caseTrail_of_same (h : w'.log = w.log) (tenant caseId : String) :
    w'.caseTrail tenant caseId = w.caseTrail tenant caseId := by
  rw [caseTrail, h, caseTrail]

/-- When a case was written and one event of it recorded, no other case and no other trail has
changed. -/
theorem case_recorded {c : Case} {e : CaseAuditEvent} (hcases : w'.cases = w.cases.upsert c)
    (hlog : w'.log = w.log ++ [.caseAction e]) (hkey : (e.tenant, e.caseId) = c.key)
    (tenant caseId : String) :
    (c.key = (tenant, caseId) ∧ w'.getCase tenant caseId = some c ∧
      w'.caseTrail tenant caseId = w.caseTrail tenant caseId ++ [e]) ∨
    (c.key ≠ (tenant, caseId) ∧ w'.getCase tenant caseId = w.getCase tenant caseId ∧
      w'.caseTrail tenant caseId = w.caseTrail tenant caseId) := by
  have hget := getCase_of_upsert hcases tenant caseId
  have htrail := caseTrail_of_log hlog tenant caseId
  rw [hkey] at htrail
  by_cases hthis : c.key = (tenant, caseId)
  · rw [if_pos hthis.symm] at hget
    rw [if_pos hthis] at htrail
    exact Or.inl ⟨hthis, hget, htrail⟩
  · rw [if_neg (Ne.symm hthis)] at hget
    rw [if_neg hthis, List.append_nil] at htrail
    exact Or.inr ⟨hthis, hget, htrail⟩

end World

section
open Program
variable {svc : CaseWorkflowService} {w : World}

theorem exec_scheduleLoop (c : Case) (definition : WorkflowDefinition) (asOf : DateTime)
    (specs : List ClockSpec) (w : World) :
    (svc.scheduleLoop c definition asOf specs).exec localPorts w =
      (match (svc.scheduled c definition asOf specs).2 with
        | none => .ok ()
        | some e => .error (.clock e),
      w.withTimers (svc.scheduled c definition asOf specs).1) := by
  induction specs generalizing w with
  | nil => rfl
  | cons spec specs ih =>
    simp only [CaseWorkflowService.scheduleLoop, CaseWorkflowService.scheduled]
    cases deadlineFor spec (c.firstEntered spec.startState definition.initial) asOf
        svc.holidays with
    | error e => rfl
    | ok status =>
      cases hdue : status.dueAt with
      | none =>
        simp only [hdue]
        exact ih w
      | some due =>
        simp only [hdue]
        rw [exec_bind]
        exact ih _

theorem exec_cancelLoop (c : Case) (specs : List ClockSpec) (w : World) :
    (CaseWorkflowService.cancelLoop c specs).exec localPorts w =
      (.ok (), w.withoutClocks c specs) := by
  induction specs generalizing w with
  | nil => rfl
  | cons spec specs ih =>
    simp only [CaseWorkflowService.cancelLoop]
    rw [exec_bind]
    exact ih _

theorem exec_scheduleClocks (c : Case) (definition : WorkflowDefinition) (asOf : DateTime)
    (w : World) :
    (svc.scheduleClocks c definition asOf).exec localPorts w =
      if svc.timers then
        (match (svc.scheduled c definition asOf definition.clocks).2 with
          | none => .ok ()
          | some e => .error (.clock e),
        w.withTimers (svc.scheduled c definition asOf definition.clocks).1)
      else (.ok (), w) := by
  simp only [CaseWorkflowService.scheduleClocks]
  split
  · exact exec_scheduleLoop c definition asOf definition.clocks w
  · rfl

theorem exec_cancelClocks (c : Case) (definition : WorkflowDefinition) (w : World) :
    (svc.cancelClocks c definition).exec localPorts w =
      (.ok (), if svc.timers then w.withoutClocks c definition.clocks else w) := by
  simp only [CaseWorkflowService.cancelClocks]
  split
  · exact exec_cancelLoop c definition.clocks w
  · rfl

theorem exec_emit (eventType : String) (c : Case) (w : World) :
    (svc.emit eventType c).exec localPorts w = (.ok (), w.withEvent svc eventType c) := by
  simp only [CaseWorkflowService.emit, World.withEvent]
  split <;> rfl

theorem exec_caseRecord (c : Case) (action actor fromState toState : String)
    (decision : CaseDecision) (summary : String) (findings : List CaseFinding)
    (timestamp : DateTime) (w : World) :
    (svc.record c action actor fromState toState decision summary findings timestamp).exec
      localPorts w =
      (.ok (), w.audited
        (svc.auditEvent c action actor fromState toState decision summary findings
          timestamp)) := rfl

end

/-- The call finds no workflow or no case to act on, only reads, or cannot assess its case. -/
def Idle (w : World) (r : CaseRequest) : Prop :=
  match r.call with
  | .openCase a => svc.definitions.definition a.caseType = none
  | .transitionCase a => ∀ c, w.getCase a.tenant a.caseId = some c →
      svc.definitions.definition c.caseType = none
  | .evaluateCase a _ => ∀ c d, w.getCase a.tenant a.caseId = some c →
      svc.definitions.definition c.caseType = some d →
      ∃ e, assess c d (a.asOf.getD r.readings.now) svc.holidays = .error e
  | _ => True

/-- Everything a call on the engine can do. -/
inductive CaseEffect (r : CaseRequest) (w : World) (response : Except ServiceError CaseResponse)
    (w' : World) : Prop
  | untouched (hidle : Idle svc w r)
      (hresponse : ∀ s t, response ≠ .error (.illegalTransition s t)) (hworld : w' = w)
  | opened (a : OpenArgs) (d : WorkflowDefinition) (c : Case) (timers : List Timer)
      (hcall : r.call = .openCase a) (hdefinition : svc.definitions.definition a.caseType = some d)
      (hcase : c = CaseWorkflowService.opened a d r.readings.now)
      (htimers : if svc.timers then svc.scheduled c d c.openedAt d.clocks = (timers, none)
        else timers = [])
      (hresponse : response = .ok (.case c))
      (hworld : w' = ((({ w with cases := w.cases.upsert c } : World).withTimers timers).withEvent
        svc "case.opened" c).audited (svc.openEvent a c r.readings.timestamp))
  | openedPartly (a : OpenArgs) (d : WorkflowDefinition) (c : Case) (timers : List Timer)
      (e : ClockError) (hcall : r.call = .openCase a)
      (hdefinition : svc.definitions.definition a.caseType = some d)
      (hcase : c = CaseWorkflowService.opened a d r.readings.now)
      (hbound : svc.timers = true)
      (htimers : svc.scheduled c d c.openedAt d.clocks = (timers, some e))
      (hresponse : response = .error (.clock e))
      (hworld : w' = ({ w with cases := w.cases.upsert c } : World).withTimers timers)
  | refused (a : TransitionArgs) (c : Case) (d : WorkflowDefinition)
      (hcall : r.call = .transitionCase a) (hget : w.getCase a.tenant a.caseId = some c)
      (hdefinition : svc.definitions.definition c.caseType = some d)
      (hlegal : d.isLegal c.state a.toState = false)
      (hresponse : response = .error (.illegalTransition c.state a.toState))
      (hworld : w' = w.audited (svc.refusalEvent a c r.readings.timestamp))
  | moved (a : TransitionArgs) (c moved : Case) (d : WorkflowDefinition)
      (hcall : r.call = .transitionCase a) (hget : w.getCase a.tenant a.caseId = some c)
      (hdefinition : svc.definitions.definition c.caseType = some d)
      (hlegal : d.isLegal c.state a.toState = true)
      (hmoved : moved = CaseWorkflowService.advanced c a r.readings.now)
      (hresponse : response = .ok (.case moved))
      (hworld : w' = ((if svc.timers ∧ d.isTerminal moved.state then
          ({ w with cases := w.cases.upsert moved } : World).withoutClocks moved d.clocks
        else { w with cases := w.cases.upsert moved }).withEvent svc "case.transitioned"
          moved).audited (svc.transitionEvent a c moved r.readings.timestamp))
  | evaluated (a : EvaluateArgs) (routing : Routing) (c : Case) (d : WorkflowDefinition)
      (assessment : CaseAssessment) (reviews : LocalReviewStore) (submitted : List AuditEvent)
      (hcall : r.call = .evaluateCase a routing) (hget : w.getCase a.tenant a.caseId = some c)
      (hdefinition : svc.definitions.definition c.caseType = some d)
      (hassess : assess c d (a.asOf.getD r.readings.now) svc.holidays = .ok assessment)
      (hrouted : svc.routed c assessment routing w.reviews = .ok (reviews, submitted))
      (hresponse : response = .ok (.assessment assessment))
      (hworld : w' = { w with
        reviews
        published := if assessment.requiresHumanReview ∧ svc.events then
          w.published ++ [CaseWorkflowService.lifecycleEvent "case.escalated" c] else w.published
        log := w.log ++ .caseAction (svc.evaluationEvent a c assessment r.readings.timestamp) ::
          submitted })

section
open Program
variable {svc : CaseWorkflowService} {w : World} {readings : Readings}

theorem CaseWorkflowService.found_eq_some {tenant caseId : String} {c : Case}
    {d : WorkflowDefinition} : svc.found w tenant caseId = some (c, d) ↔
      w.getCase tenant caseId = some c ∧ svc.definitions.definition c.caseType = some d := by
  simp only [CaseWorkflowService.found, Option.bind_eq_some_iff, Option.map_eq_some_iff,
    Prod.mk.injEq]
  constructor
  · rintro ⟨c, hget, d, hdefinition, rfl, rfl⟩
    exact ⟨hget, hdefinition⟩
  · rintro ⟨hget, hdefinition⟩
    exact ⟨c, hget, d, hdefinition, rfl, rfl⟩

private theorem exec_caseGet (tenant caseId : String) :
    (CaseWorkflowService.load tenant caseId).exec localPorts w =
      (match w.getCase tenant caseId with
        | none => .error (.caseNotFound caseId)
        | some c => .ok c, w) := by
  have hget : @exec _ _ _ (Option Case) _ localPorts (port (.caseGet tenant caseId)) w =
    (.ok (w.getCase tenant caseId), w) := rfl
  simp only [CaseWorkflowService.load, exec_bind, hget]
  cases w.getCase tenant caseId <;> rfl

private theorem exec_definition (caseType : String) :
    (svc.definition caseType).exec localPorts w =
      (match svc.definitions.definition caseType with
        | none => .error (.unknownWorkflow caseType)
        | some d => .ok d, w) := by
  simp only [CaseWorkflowService.definition]
  cases svc.definitions.definition caseType <;> rfl

private theorem exec_casePut (c : Case) :
    @exec _ _ _ Unit _ localPorts (port (.casePut c)) w =
      (.ok (), { w with cases := w.cases.upsert c }) := rfl

private theorem exec_route {console : ConsoleService} {c : Case} {assessment : CaseAssessment}
    {routing : Routing} {reviews : LocalReviewStore}
    (hput : w.reviews.put (CaseWorkflowService.routedItem console c assessment routing) =
      .ok reviews) :
    (console.route c assessment (CaseWorkflowService.routingMaker c) routing).exec localPorts w =
      (.ok (), { w with
        reviews
        log := w.log ++ [.signOff (console.submitEvent
          (CaseWorkflowService.routedItem console c assessment routing)
          routing.readings.timestamp)] }) := by
  have hop : @exec _ _ _ Unit _ localPorts (port (.reviewPut
      (CaseWorkflowService.routedItem console c assessment routing))) w =
        (.ok (), { w with reviews }) := by
    simp only [port, perform, exec, localPorts, hput]
  rw [CaseWorkflowService.routedItem] at hop
  simp only [ConsoleService.route, ConsoleService.submit, exec_bind, hop]
  rfl

theorem routed_ok (svc : CaseWorkflowService) (c : Case) (assessment : CaseAssessment)
    (routing : Routing) (reviews : LocalReviewStore) :
    ∃ answer, svc.routed c assessment routing reviews = .ok answer := by
  simp only [CaseWorkflowService.routed]
  cases assessment.requiresHumanReview with
  | false => exact ⟨_, rfl⟩
  | true =>
    cases svc.reviewRouter with
    | none => exact ⟨_, rfl⟩
    | some console =>
      have hsource :
          (CaseWorkflowService.routedItem console c assessment routing).request.sourceKey = "" := by
        simp [CaseWorkflowService.routedItem, ConsoleService.newItem, ConsoleService.routedReview]
      obtain ⟨reviews', hput⟩ := reviews.put_of_no_source hsource
      exact ⟨_, congrArg (Except.map _) hput⟩

theorem routed_cases {c : Case} {assessment : CaseAssessment} {routing : Routing}
    {reviews reviews' : LocalReviewStore} {submitted : List AuditEvent}
    (h : svc.routed c assessment routing reviews = .ok (reviews', submitted)) :
    ((assessment.requiresHumanReview = false ∨ svc.reviewRouter = none) ∧ reviews' = reviews ∧
      submitted = []) ∨
    ∃ console, assessment.requiresHumanReview = true ∧ svc.reviewRouter = some console ∧
      reviews.put (CaseWorkflowService.routedItem console c assessment routing) = .ok reviews' ∧
      submitted = [.signOff (console.submitEvent
        (CaseWorkflowService.routedItem console c assessment routing)
        routing.readings.timestamp)] := by
  simp only [CaseWorkflowService.routed] at h
  split at h
  · rename_i hreview
    cases hrouter : svc.reviewRouter with
    | none =>
      rw [hrouter] at h
      cases h
      exact Or.inl ⟨Or.inr rfl, rfl, rfl⟩
    | some console =>
      rw [hrouter] at h
      dsimp only at h
      cases hput : reviews.put (CaseWorkflowService.routedItem console c assessment routing) with
      | error e =>
        rw [hput] at h
        cases h
      | ok stored =>
        rw [hput] at h
        cases h
        exact Or.inr ⟨console, hreview, rfl, hput, rfl⟩
  · rename_i hreview
    cases h
    exact Or.inl ⟨Or.inl (by simpa using hreview), rfl, rfl⟩

private theorem openCase_effect (a : OpenArgs) :
    CaseEffect svc ⟨.openCase a, readings⟩ w (answerCase svc w ⟨.openCase a, readings⟩).1
      (answerCase svc w ⟨.openCase a, readings⟩).2 := by
  cases hdef : svc.definitions.definition a.caseType with
  | none =>
    have hexec : answerCase svc w ⟨.openCase a, readings⟩ =
        (.error (.unknownWorkflow a.caseType), w) := by
      simp only [answerCase, CaseRequest.program, CaseWorkflowService.openCase, exec_bind,
        exec_definition, hdef]
    rw [hexec]
    exact .untouched (by simp [Idle, hdef]) (by simp) rfl
  | some d =>
    generalize hc : CaseWorkflowService.opened a d readings.now = c
    have hexec : answerCase svc w ⟨.openCase a, readings⟩ =
        match (svc.scheduleClocks c d c.openedAt).exec localPorts
            { w with cases := w.cases.upsert c } with
        | (.error e, w') => (.error e, w')
        | (.ok _, w') => (.ok (.case c),
            (w'.withEvent svc "case.opened" c).audited (svc.openEvent a c readings.timestamp)) := by
      subst hc
      simp only [answerCase, CaseRequest.program, CaseWorkflowService.openCase, exec_bind,
        exec_definition, hdef, exec_casePut, exec_emit, exec_caseRecord, exec_pure,
        CaseWorkflowService.opened]
      rcases (svc.scheduleClocks _ d _).exec localPorts _ with ⟨_ | _, w'⟩ <;> rfl
    rw [exec_scheduleClocks] at hexec
    by_cases hbound : svc.timers = true
    · rw [if_pos hbound] at hexec
      rcases hscheduled : svc.scheduled c d c.openedAt d.clocks with ⟨timers, _ | e⟩
      · rw [hscheduled] at hexec
        rw [hexec]
        exact .opened a d c timers rfl hdef hc.symm (by rw [if_pos hbound]; exact hscheduled) rfl
          rfl
      · rw [hscheduled] at hexec
        rw [hexec]
        exact .openedPartly a d c timers e rfl hdef hc.symm hbound hscheduled rfl rfl
    · rw [if_neg hbound] at hexec
      rw [hexec]
      exact .opened a d c [] rfl hdef hc.symm (by rw [if_neg hbound]) rfl rfl

private theorem transitionCase_effect (a : TransitionArgs) :
    CaseEffect svc ⟨.transitionCase a, readings⟩ w
      (answerCase svc w ⟨.transitionCase a, readings⟩).1
      (answerCase svc w ⟨.transitionCase a, readings⟩).2 := by
  cases hget : w.getCase a.tenant a.caseId with
  | none =>
    have hexec : answerCase svc w ⟨.transitionCase a, readings⟩ =
        (.error (.caseNotFound a.caseId), w) := by
      simp only [answerCase, CaseRequest.program, CaseWorkflowService.transitionCase, exec_bind,
        exec_caseGet, hget]
    rw [hexec]
    exact .untouched (by simp [Idle, hget]) (by simp) rfl
  | some c =>
    cases hdef : svc.definitions.definition c.caseType with
    | none =>
      have hexec : answerCase svc w ⟨.transitionCase a, readings⟩ =
          (.error (.unknownWorkflow c.caseType), w) := by
        simp only [answerCase, CaseRequest.program, CaseWorkflowService.transitionCase, exec_bind,
          exec_caseGet, hget, exec_definition, hdef]
      rw [hexec]
      exact .untouched (by simp [Idle, hget, hdef]) (by simp) rfl
    | some d =>
      rcases transition_cases c a.toState a.actor a.reason (a.asOf.getD readings.now) d with
        ⟨hlegal, htransition⟩ | ⟨hlegal, htransition⟩
      · have hexec : answerCase svc w ⟨.transitionCase a, readings⟩ =
            (.error (.illegalTransition c.state a.toState),
              w.audited (svc.refusalEvent a c readings.timestamp)) := by
          simp only [answerCase, CaseRequest.program, CaseWorkflowService.transitionCase, exec_bind,
            exec_caseGet, hget, exec_definition, hdef, htransition, exec_caseRecord, exec_raise]
          rfl
        rw [hexec]
        exact .refused a c d rfl hget hdef hlegal rfl rfl
      · generalize hmoved : CaseWorkflowService.advanced c a readings.now = moved
        change transition c _ _ _ _ d =
          .ok (CaseWorkflowService.advanced c a readings.now) at htransition
        rw [hmoved] at htransition
        have hexec : answerCase svc w ⟨.transitionCase a, readings⟩ = (.ok (.case moved),
            (((if svc.timers ∧ d.isTerminal moved.state then
              ({ w with cases := w.cases.upsert moved } : World).withoutClocks moved d.clocks
            else { w with cases := w.cases.upsert moved }) : World).withEvent svc
              "case.transitioned" moved).audited
                (svc.transitionEvent a c moved readings.timestamp)) := by
          simp only [answerCase, CaseRequest.program, CaseWorkflowService.transitionCase, exec_bind,
            exec_caseGet, hget, exec_definition, hdef, htransition, exec_casePut]
          cases hterminal : d.isTerminal moved.state with
          | true =>
            simp only [if_true, exec_bind, exec_cancelClocks, exec_emit, exec_caseRecord, exec_pure,
              and_true]
            rfl
          | false =>
            simp only [Bool.false_eq_true, if_false, exec_bind, exec_emit, exec_caseRecord,
              exec_pure, and_false]
            rfl
        rw [hexec]
        exact .moved a c moved d rfl hget hdef hlegal hmoved.symm rfl rfl

private theorem evaluateCase_effect (a : EvaluateArgs) (routing : Routing) :
    CaseEffect svc ⟨.evaluateCase a routing, readings⟩ w
      (answerCase svc w ⟨.evaluateCase a routing, readings⟩).1
      (answerCase svc w ⟨.evaluateCase a routing, readings⟩).2 := by
  cases hget : w.getCase a.tenant a.caseId with
  | none =>
    have hexec : answerCase svc w ⟨.evaluateCase a routing, readings⟩ =
        (.error (.caseNotFound a.caseId), w) := by
      simp only [answerCase, CaseRequest.program, CaseWorkflowService.evaluateCase, exec_bind,
        exec_caseGet, hget]
    rw [hexec]
    exact .untouched (by simp [Idle, hget]) (by simp) rfl
  | some c =>
    cases hdef : svc.definitions.definition c.caseType with
    | none =>
      have hexec : answerCase svc w ⟨.evaluateCase a routing, readings⟩ =
          (.error (.unknownWorkflow c.caseType), w) := by
        simp only [answerCase, CaseRequest.program, CaseWorkflowService.evaluateCase, exec_bind,
          exec_caseGet, hget, exec_definition, hdef]
      rw [hexec]
      refine .untouched ?_ (by simp) rfl
      intro c' d hc' hd
      cases hget.symm.trans hc'
      cases hdef.symm.trans hd
    | some d =>
      cases hassess : assess c d (a.asOf.getD readings.now) svc.holidays with
      | error e =>
        have hexec : answerCase svc w ⟨.evaluateCase a routing, readings⟩ =
            (.error (.clock e), w) := by
          simp only [answerCase, CaseRequest.program, CaseWorkflowService.evaluateCase, exec_bind,
            exec_caseGet, hget, exec_definition, hdef, hassess, exec_raise]
        rw [hexec]
        refine .untouched ?_ (by simp) rfl
        intro c' d' hc' hd'
        cases hget.symm.trans hc'
        cases hdef.symm.trans hd'
        exact ⟨e, hassess⟩
      | ok assessment =>
        obtain ⟨⟨reviews, submitted⟩, hrouted⟩ := routed_ok svc c assessment routing w.reviews
        have hexec : answerCase svc w ⟨.evaluateCase a routing, readings⟩ =
            (.ok (.assessment assessment),
            { w with
              reviews
              published := if assessment.requiresHumanReview ∧ svc.events then
                w.published ++ [CaseWorkflowService.lifecycleEvent "case.escalated" c]
              else w.published
              log := w.log ++
                .caseAction (svc.evaluationEvent a c assessment readings.timestamp) ::
                  submitted }) := by
          simp only [answerCase, CaseRequest.program, CaseWorkflowService.evaluateCase, exec_bind,
            exec_caseGet, hget, exec_definition, hdef, hassess, exec_caseRecord,
            CaseWorkflowService.evaluationEvent]
          rcases routed_cases hrouted with ⟨hquiet | hrouter, rfl, rfl⟩ |
            ⟨console, hreview, hrouter, hput, rfl⟩
          · simp only [hquiet, Bool.false_eq_true, if_false, exec_pure, false_and]
            rfl
          · cases hreview : assessment.requiresHumanReview with
            | false =>
              simp only [Bool.false_eq_true, if_false, exec_pure, false_and]
              rfl
            | true =>
              simp only [if_true, CaseWorkflowService.escalate, exec_bind, exec_emit, true_and,
                hrouter, exec_pure, World.withEvent]
              cases svc.events <;> rfl
          · have hput' : ((w.audited (svc.auditEvent c "evaluate" a.actor c.state c.state
                .escalated c.caseType assessment.findings readings.timestamp)).withEvent svc
                  "case.escalated" c).reviews.put
                (CaseWorkflowService.routedItem console c assessment routing) = .ok reviews := by
              rw [← hput, World.withEvent]
              split <;> rfl
            simp only [hreview, if_true, CaseWorkflowService.escalate, exec_bind, exec_emit,
              true_and, hrouter, exec_route hput', exec_pure]
            simp only [World.withEvent, World.audited]
            cases svc.events <;> simp
        rw [hexec]
        exact .evaluated a routing c d assessment reviews submitted rfl hget hdef hassess hrouted
          rfl rfl

/-- Inversion: what a call on the engine does. -/
theorem caseEffect (svc : CaseWorkflowService) (w : World) (r : CaseRequest) :
    CaseEffect svc r w (answerCase svc w r).1 (answerCase svc w r).2 := by
  obtain ⟨call, readings⟩ := r
  cases call with
  | openCase a => exact openCase_effect a
  | transitionCase a => exact transitionCase_effect a
  | evaluateCase a routing => exact evaluateCase_effect a routing
  | get tenant caseId =>
    have hexec : answerCase svc w ⟨.get tenant caseId, readings⟩ =
        (match w.getCase tenant caseId with
          | none => .error (.caseNotFound caseId)
          | some c => .ok (.case c), w) := by
      simp only [answerCase, CaseRequest.program, CaseWorkflowService.get, exec_bind, exec_caseGet]
      cases w.getCase tenant caseId <;> rfl
    rw [hexec]
    refine .untouched trivial ?_ rfl
    cases w.getCase tenant caseId <;> simp
  | listCases tenant =>
    have hexec : answerCase svc w ⟨.listCases tenant, readings⟩ =
        (.ok (.cases (w.cases.rows.filter (fun c => c.tenant = tenant))), w) := rfl
    rw [hexec]
    exact .untouched (by simp [Idle]) (by simp) rfl

end

def escalates (svc : CaseWorkflowService) (w : World) (a : EvaluateArgs) (readings : Readings) :
    Bool :=
  match w.getCase a.tenant a.caseId with
  | none => false
  | some c =>
    match svc.definitions.definition c.caseType with
    | none => false
    | some d =>
      match assess c d (a.asOf.getD readings.now) svc.holidays with
      | .error _ => false
      | .ok assessment => assessment.requiresHumanReview

section
variable {svc : CaseWorkflowService} {w : World} {a : EvaluateArgs} {readings : Readings}
variable {c : Case} {d : WorkflowDefinition}

theorem escalates_of_assessed {assessment : CaseAssessment}
    (hget : w.getCase a.tenant a.caseId = some c)
    (hdefinition : svc.definitions.definition c.caseType = some d)
    (hassess : assess c d (a.asOf.getD readings.now) svc.holidays = .ok assessment) :
    escalates svc w a readings = assessment.requiresHumanReview := by
  simp only [escalates, hget, hdefinition, hassess]

theorem escalates_of_idle {routing : Routing}
    (hidle : Idle svc w ⟨.evaluateCase a routing, readings⟩) :
    escalates svc w a readings = false := by
  simp only [escalates]
  split
  · rfl
  · rename_i c hget
    split
    · rfl
    · rename_i d hdefinition
      obtain ⟨e, he⟩ := hidle c d hget hdefinition
      simp only [he]

end

namespace Demo

/-- `COMPLAINT_WORKFLOW`. -/
def complaint : WorkflowDefinition where
  caseType := "complaint"
  states := ["received", "under_review", "awaiting_customer", "escalated", "resolved", "closed"]
  initial := "received"
  terminal := {"resolved", "closed"}
  transitions := {("received", "under_review"), ("under_review", "awaiting_customer"),
    ("awaiting_customer", "under_review"), ("under_review", "escalated"),
    ("escalated", "under_review"), ("under_review", "resolved"), ("escalated", "resolved"),
    ("resolved", "closed")}
  clocks := [⟨"acknowledgement", .business, 2, "received", .ok 1⟩,
    ⟨"resolution", .business, 20, "received", .ok 4⟩]
  escalateOn := {.slaBreach, .stuckInState}
  stuckAfterDays
    | "awaiting_customer" => some 30
    | "under_review" => some 15
    | _ => none

/-- The engine over one workflow, with every port bound and nothing to redact. -/
def engine (d : WorkflowDefinition) : CaseWorkflowService :=
  { definitions := .single d, reviewRouter := some console, redact := id }

/-- The engine over the sample registry. -/
def complaints : CaseWorkflowService := engine complaint

def openCase (caseType : String) : CaseRequest where
  call := .openCase { caseId := "case-1", tenant := "demo-bank", caseType, actor := "demo.agent" }
  readings

def moveTo (toState : String) : CaseRequest where
  call := .transitionCase {
    caseId := "case-1"
    tenant := "demo-bank"
    toState
    actor := "demo.agent"
    reason := "ok" }
  readings

def evaluateAfter (days : ℤ) (reviewId : String) : CaseRequest where
  call := .evaluateCase {
    caseId := "case-1"
    tenant := "demo-bank"
    asOf := some (noon.addDays days) } ⟨reviewId, readings⟩
  readings

def underReview : List CaseRequest := [openCase "complaint", moveTo "under_review"]

def resolved : List CaseRequest := underReview ++ [moveTo "resolved"]

end Demo
end ReviewConsole

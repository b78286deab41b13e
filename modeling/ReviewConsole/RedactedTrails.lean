import ReviewConsole.TenantViews
import ReviewConsole.TimerSchedules

/-!
# What reaches the audit trail past the redactor

Both services pass text through `redact` before they write an audit event. Here the events of
one call are read off the state it finds, next to the strings it hands to `redact` and the
text it copies as it is.
-/
namespace ReviewConsole
open PortPrograms Program

def AuditEvent.stamped (t : DateTime) : AuditEvent → AuditEvent
  | .signOff e => .signOff { e with timestamp := t }
  | .caseAction e => .caseAction { e with timestamp := t }

def ServiceCall.recorded (w : World) (call : ServiceCall) : List AuditEvent :=
  (call.answer w).2.log.drop w.log.length

def ConsoleService.withRedact (svc : ConsoleService) (redact : String → String) : ConsoleService :=
  { svc with redact }

def CaseWorkflowService.withRedact (svc : CaseWorkflowService) (redact : String → String) :
    CaseWorkflowService :=
  { svc with redact, reviewRouter := svc.reviewRouter.map (·.withRedact redact) }

def ServiceCall.withRedact (redact : String → String) : ServiceCall → ServiceCall
  | .console r => .console { r with service := r.service.withRedact redact }
  | .engine svc r => .engine (svc.withRedact redact) r

/-- The submission stores a new item. -/
def ConsoleRequest.Stores (r : ConsoleRequest) (w : World) : Prop :=
  match r.call with
  | .submit s => ¬ w.reviews.SourceTaken (r.service.newItem s r.readings.now)
  | .submitIdempotent s => s.sourceKey = "" ∨
      (w.reviews.findBySourceKey s.tenant s.sourceKey = none ∧
        w.reviews.get s.tenant s.reviewId = none)
  | _ => False

instance (r : ConsoleRequest) (w : World) : Decidable (r.Stores w) := by
  unfold ConsoleRequest.Stores
  match r.call with
  | .submit s => dsimp only; infer_instance
  | .submitIdempotent s => dsimp only; infer_instance
  | .dispose _ | .getBySourceKey _ _ | .listQueue _ | .listAll _ | .get _ _ =>
    exact instDecidableFalse

/-- The stored item that a disposition finds open. -/
def DisposeArgs.openItem (d : DisposeArgs) (w : World) : Option ReviewItem :=
  (w.reviews.get d.checkerTenant d.reviewId).filter (fun stored => !stored.isTerminal)

def ConsoleRequest.events (r : ConsoleRequest) (w : World) : List AuditEvent :=
  match r.call with
  | .submit s | .submitIdempotent s =>
    if r.Stores w then
      [.signOff (r.service.submitEvent (r.service.newItem s r.readings.now) r.readings.timestamp)]
    else []
  | .dispose d =>
    match w.reviews.get d.checkerTenant d.reviewId with
    | none => []
    | some stored =>
      match r.service.engine.dispose (r.service.withEffectiveRouting stored)
          (d.decision r.readings.now) d.asOf with
      | .error _ => []
      | .ok outcome => [.signOff (r.service.disposeEvent d outcome r.readings.timestamp)]
  | .getBySourceKey _ _ | .listQueue _ | .listAll _ | .get _ _ => []

def CaseRequest.events (svc : CaseWorkflowService) (r : CaseRequest) (w : World) :
    List AuditEvent :=
  match r.call with
  | .openCase a =>
    match svc.definitions.definition a.caseType with
    | none => []
    | some d =>
      if svc.Completes d (a.openedAt r.readings.now) then
        [.caseAction (svc.openEvent a (CaseWorkflowService.opened a d r.readings.now)
          r.readings.timestamp)]
      else []
  | .transitionCase a =>
    match svc.found w a.tenant a.caseId with
    | none => []
    | some (c, d) =>
      if d.isLegal c.state a.toState then
        [.caseAction (svc.transitionEvent a c (CaseWorkflowService.advanced c a r.readings.now)
          r.readings.timestamp)]
      else [.caseAction (svc.refusalEvent a c r.readings.timestamp)]
  | .evaluateCase a routing =>
    match svc.found w a.tenant a.caseId with
    | none => []
    | some (c, d) =>
      match assess c d (a.asOf.getD r.readings.now) svc.holidays with
      | .error _ => []
      | .ok assessment =>
        .caseAction (svc.evaluationEvent a c assessment r.readings.timestamp) ::
          match assessment.requiresHumanReview, svc.reviewRouter with
          | true, some console => [.signOff (console.submitEvent
              (CaseWorkflowService.routedItem console c assessment routing)
              routing.readings.timestamp)]
          | _, _ => []
  | .get _ _ | .listCases _ => []

def ServiceCall.events (call : ServiceCall) (w : World) : List AuditEvent :=
  match call with
  | .console r => r.events w
  | .engine svc r => r.events svc w

/-- The strings that a request on the console hands to `redact`. -/
def ConsoleRequest.handed (r : ConsoleRequest) (w : World) : List String :=
  match r.call with
  | .submit s | .submitIdempotent s =>
    if r.Stores w then ["submitted for review", s.subject ++ " :: " ++ s.summary] else []
  | .dispose d =>
    match d.openItem w with
    | none => []
    | some stored => [d.reason, stored.request.subject ++ " :: " ++ stored.request.summary]
  | .getBySourceKey _ _ | .listQueue _ | .listAll _ | .get _ _ => []

/-- The strings that routing a case hands to `redact`: its own two, then the console's. -/
def ConsoleService.handedByRoute (console : ConsoleService) (c : Case)
    (assessment : CaseAssessment) : List String :=
  let joined := ", ".intercalate (assessment.findings.map CaseFinding.value)
  let findings := if joined = "" then "escalated" else joined
  let subject := "Case " ++ c.caseId ++ " (" ++ c.caseType ++ ") in state " ++ c.state
  let summary := "Escalated on: " ++ findings
  [subject, summary, "submitted for review",
    console.redact subject ++ " :: " ++ console.redact summary]

/-- The strings that a call on the engine hands to `redact`. -/
def CaseRequest.handed (svc : CaseWorkflowService) (r : CaseRequest) (w : World) : List String :=
  match r.call with
  | .openCase a =>
    match svc.definitions.definition a.caseType with
    | none => []
    | some d =>
      if svc.Completes d (a.openedAt r.readings.now) then
        [(if a.summary = "" then a.caseType else a.summary) ++ " :: " ++
          CaseWorkflowService.attrBlob (CaseWorkflowService.opened a d r.readings.now)]
      else []
  | .transitionCase a =>
    match svc.found w a.tenant a.caseId with
    | none => []
    | some (c, _) => [a.reason ++ " :: " ++ CaseWorkflowService.attrBlob c]
  | .evaluateCase a _ =>
    match svc.found w a.tenant a.caseId with
    | none => []
    | some (c, d) =>
      match assess c d (a.asOf.getD r.readings.now) svc.holidays with
      | .error _ => []
      | .ok assessment =>
        (c.caseType ++ " :: " ++ CaseWorkflowService.attrBlob c) ::
          match assessment.requiresHumanReview, svc.reviewRouter with
          | true, some console => console.handedByRoute c assessment
          | _, _ => []
  | .get _ _ | .listCases _ => []

def ServiceCall.handed (call : ServiceCall) (w : World) : List String :=
  match call with
  | .console r => r.handed w
  | .engine svc r => r.handed svc w

/-- The text of a request on the console that its events carry as it is. -/
def ConsoleRequest.copied (r : ConsoleRequest) (w : World) : List Citation :=
  match r.call with
  | .submit s | .submitIdempotent s => if r.Stores w then s.citations else []
  | .dispose _ | .getBySourceKey _ _ | .listQueue _ | .listAll _ | .get _ _ => []

/-- The text of a call on the engine that its events carry as it is: the citations of a case
it opens, and the state it asks for. -/
def CaseRequest.copied (svc : CaseWorkflowService) (r : CaseRequest) : List Citation × String :=
  match r.call with
  | .openCase a =>
    match svc.definitions.definition a.caseType with
    | none => ([], "")
    | some d =>
      if svc.Completes d (a.openedAt r.readings.now) then (a.citations, "") else ([], "")
  | .transitionCase a => ([], a.toState)
  | .evaluateCase _ _ | .get _ _ | .listCases _ => ([], "")

def ServiceCall.copied (call : ServiceCall) (w : World) : List Citation × String :=
  match call with
  | .console r => (r.copied w, "")
  | .engine svc r => r.copied svc

def Submission.SameButText (s s' : Submission) : Prop :=
  s' = { s with subject := s'.subject, summary := s'.summary, citations := s'.citations } ∧
    s'.citations.map Citation.sourceId = s.citations.map Citation.sourceId

def DisposeArgs.SameButText (d d' : DisposeArgs) : Prop := d' = { d with reason := d'.reason }

def OpenArgs.SameButText (a a' : OpenArgs) : Prop :=
  a' = { a with summary := a'.summary, attributes := a'.attributes, citations := a'.citations } ∧
    a'.attributes.map Prod.fst = a.attributes.map Prod.fst ∧
    a'.citations.map Citation.sourceId = a.citations.map Citation.sourceId

/-- The transition asks for a state that its case cannot move to. -/
def TransitionArgs.Refused (svc : CaseWorkflowService) (w : World) (a : TransitionArgs) : Prop :=
  ∃ found ∈ svc.found w a.tenant a.caseId, found.2.isLegal found.1.state a.toState = false

def TransitionArgs.SameButText (svc : CaseWorkflowService) (w : World) (a a' : TransitionArgs) :
    Prop :=
  a' = { a with reason := a'.reason, toState := a'.toState } ∧
    (a'.toState = a.toState ∨ (a.Refused svc w ∧ a'.Refused svc w))

/-- Two calls that differ in caller-supplied text only, made at the same time of the clock that
decides. -/
inductive ServiceCall.SameButText (w : World) : ServiceCall → ServiceCall → Prop
  | submit (svc : ConsoleService) {s s' : Submission} {r r' : Readings}
      (h : s.SameButText s') (hnow : r'.now = r.now) :
      SameButText w (.console ⟨svc, .submit s, r⟩) (.console ⟨svc, .submit s', r'⟩)
  | submitIdempotent (svc : ConsoleService) {s s' : Submission} {r r' : Readings}
      (h : s.SameButText s') (hnow : r'.now = r.now) :
      SameButText w (.console ⟨svc, .submitIdempotent s, r⟩)
        (.console ⟨svc, .submitIdempotent s', r'⟩)
  | dispose (svc : ConsoleService) {d d' : DisposeArgs} {r r' : Readings}
      (h : d.SameButText d') (hnow : r'.now = r.now) :
      SameButText w (.console ⟨svc, .dispose d, r⟩) (.console ⟨svc, .dispose d', r'⟩)
  | openCase (svc : CaseWorkflowService) {a a' : OpenArgs} {r r' : Readings}
      (h : a.SameButText a') (hnow : r'.now = r.now) :
      SameButText w (.engine svc ⟨.openCase a, r⟩) (.engine svc ⟨.openCase a', r'⟩)
  | transitionCase (svc : CaseWorkflowService) {a a' : TransitionArgs} {r r' : Readings}
      (h : a.SameButText svc w a') (hnow : r'.now = r.now) :
      SameButText w (.engine svc ⟨.transitionCase a, r⟩) (.engine svc ⟨.transitionCase a', r'⟩)
  | evaluateCase (svc : CaseWorkflowService) (a : EvaluateArgs) {routing routing' : Routing}
      {r r' : Readings} (hid : routing'.reviewId = routing.reviewId)
      (hrouted : routing'.readings.now = routing.readings.now) (hnow : r'.now = r.now) :
      SameButText w (.engine svc ⟨.evaluateCase a routing, r⟩)
        (.engine svc ⟨.evaluateCase a routing', r'⟩)

section
variable {svc : ConsoleService} {s s' : Submission} {r r' : Readings} {w : World}

theorem ConsoleService.submitEvent_newItem (svc : ConsoleService) (s : Submission)
    (now timestamp : DateTime) : svc.submitEvent (svc.newItem s now) timestamp =
      { action := "submit"
        reviewId := s.reviewId
        tenant := s.tenant
        maker := s.maker
        checker := ""
        disposition := .amend
        decision := .allowed
        state := .pending
        severity := s.severity
        redactedReason := svc.redact "submitted for review"
        redactedSummary := svc.redact (s.subject ++ " :: " ++ s.summary)
        citations := s.citations
        timestamp } := by
  simp only [submitEvent, signOffEvent, newItem, withEffectiveRouting_eq]

theorem written_submit (w : World) : ConsoleRequest.written ⟨svc, .submit s, r⟩ w =
    if ConsoleRequest.Stores ⟨svc, .submit s, r⟩ w then some (svc.newItem s r.now) else none := by
  simp only [ConsoleRequest.written, ConsoleRequest.Stores, ite_not]

theorem written_submitIdempotent (w : World) :
    ConsoleRequest.written ⟨svc, .submitIdempotent s, r⟩ w =
      if ConsoleRequest.Stores ⟨svc, .submitIdempotent s, r⟩ w then some (svc.newItem s r.now)
      else none := by
  have hstores : (∃ reviews, w.reviews.putIfAbsentBySourceKey (svc.newItem s r.now) =
      .ok ((svc.newItem s r.now, true), reviews)) ↔
        ConsoleRequest.Stores ⟨svc, .submitIdempotent s, r⟩ w := by
    rw [LocalReviewStore.putIfAbsentBySourceKey_created]
    simp [ConsoleRequest.Stores, ConsoleService.newItem, ReviewItem.tenant, ReviewItem.reviewId]
  simp only [ConsoleRequest.written]
  rcases w.reviews.putIfAbsentBySourceKey_cases (svc.newItem s r.now) with
    ⟨e, hput⟩ | ⟨row, -, -, -, -, hput⟩ | ⟨reviews, -, -, hput⟩
  · have hnot : ¬ ConsoleRequest.Stores ⟨svc, .submitIdempotent s, r⟩ w := by simp [← hstores, hput]
    simp only [hput, if_neg hnot]
  · have hnot : ¬ ConsoleRequest.Stores ⟨svc, .submitIdempotent s, r⟩ w := by simp [← hstores, hput]
    simp only [hput, if_neg hnot]
  · simp only [hput, if_pos (hstores.mp ⟨reviews, hput⟩)]

theorem submission_text (svc : ConsoleService) (r : Readings) {call : ConsoleCall}
    (hcall : call = .submit s ∨ call = .submitIdempotent s) (w : World) :
    ConsoleRequest.events ⟨svc, call, r⟩ w =
      (if ConsoleRequest.Stores ⟨svc, call, r⟩ w then
        [.signOff (svc.submitEvent (svc.newItem s r.now) r.timestamp)] else []) ∧
    ConsoleRequest.handed ⟨svc, call, r⟩ w =
      (if ConsoleRequest.Stores ⟨svc, call, r⟩ w then
        ["submitted for review", s.subject ++ " :: " ++ s.summary] else []) ∧
    ConsoleRequest.copied ⟨svc, call, r⟩ w =
      (if ConsoleRequest.Stores ⟨svc, call, r⟩ w then s.citations else []) := by
  rcases hcall with rfl | rfl
  · exact ⟨rfl, rfl, rfl⟩
  · exact ⟨rfl, rfl, rfl⟩

theorem submission_log {call : ConsoleCall}
    (hcall : call = .submit s ∨ call = .submitIdempotent s) (w : World) :
    (answer w ⟨svc, call, r⟩).2.log = w.log ++ ConsoleRequest.events ⟨svc, call, r⟩ w := by
  have hwritten : ConsoleRequest.written ⟨svc, call, r⟩ w =
      if ConsoleRequest.Stores ⟨svc, call, r⟩ w then some (svc.newItem s r.now) else none := by
    rcases hcall with rfl | rfl
    · exact written_submit w
    · exact written_submitIdempotent w
  rw [(submission_text svc r hcall w).1]
  have heffect := consoleEffect_answer w ⟨svc, call, r⟩
  generalize answer w ⟨svc, call, r⟩ = x at heffect
  obtain ⟨response, w'⟩ := x
  by_cases hstores : ConsoleRequest.Stores ⟨svc, call, r⟩ w
  · rw [if_pos hstores] at hwritten ⊢
    cases heffect with
    | untouched _ hnone _ => cases hwritten.symm.trans hnone
    | submitted s' item reviews hcall' hitem hput hsome =>
      cases hwritten.symm.trans hsome
      rfl
    | refused d stored e hd => rcases hcall with rfl | rfl <;> cases hd
    | denied d stored findings outcome hd => rcases hcall with rfl | rfl <;> cases hd
    | disposed d stored reviews outcome hd => rcases hcall with rfl | rfl <;> cases hd
  · rw [if_neg hstores] at hwritten ⊢
    cases heffect with
    | untouched _ hnone _ => exact (List.append_nil _).symm
    | submitted s' item reviews hcall' hitem hput hsome => cases hwritten.symm.trans hsome
    | refused d stored e hd => rcases hcall with rfl | rfl <;> cases hd
    | denied d stored findings outcome hd => rcases hcall with rfl | rfl <;> cases hd
    | disposed d stored reviews outcome hd => rcases hcall with rfl | rfl <;> cases hd

theorem dispose_log (d : DisposeArgs) (w : World) : (answer w ⟨svc, .dispose d, r⟩).2.log =
    w.log ++ ConsoleRequest.events ⟨svc, .dispose d, r⟩ w := by
  have hread : @exec _ _ _ (Option ReviewItem) _ localPorts
      (port (.reviewGet d.checkerTenant d.reviewId)) w =
        (.ok (w.reviews.get d.checkerTenant d.reviewId), w) := rfl
  simp only [answer, ConsoleRequest.program, ConsoleService.dispose, ConsoleRequest.events,
    exec_bind, hread]
  cases hget : w.reviews.get d.checkerTenant d.reviewId with
  | none => exact (List.append_nil _).symm
  | some stored =>
    rcases MakerCheckerService.dispose_cases svc.engine (svc.withEffectiveRouting stored)
      (d.decision r.now) d.asOf
      with ⟨-, e, hdispose⟩ | ⟨-, findings, -, -, hdispose⟩ | ⟨-, -, hdispose⟩
    · simp only [hdispose]
      exact (List.append_nil _).symm
    · simp only [hdispose]
      rfl
    · obtain ⟨reviews, hput⟩ := LocalReviewStore.put_of_get hget (svc.disposed stored d r.now)
        (by simp) (by simp)
      have hwrite : @exec _ _ _ Unit _ localPorts
          (port (.reviewPut (svc.disposed stored d r.now))) w = (.ok (), { w with reviews }) := by
        simp only [port, perform, exec, localPorts, hput]
      have hdisposed :
          svc.engine.dispose (svc.withEffectiveRouting stored) (d.decision r.now) d.asOf =
            .ok ⟨svc.disposed stored d r.now, .allowed, []⟩ := hdispose
      simp only [hdisposed, DispositionOutcome.allowed_allowed, if_true, exec_bind, hwrite]
      rfl

theorem ConsoleRequest.answer_log (r : ConsoleRequest) (w : World) :
    (answer w r).2.log = w.log ++ r.events w := by
  obtain ⟨svc, call, readings⟩ := r
  cases call with
  | submit s => exact submission_log (Or.inl rfl) w
  | submitIdempotent s => exact submission_log (Or.inr rfl) w
  | dispose d => exact dispose_log d w
  | getBySourceKey tenant sourceKey => exact (List.append_nil _).symm
  | listQueue tenant => exact (List.append_nil _).symm
  | listAll tenant => exact (List.append_nil _).symm
  | get tenant reviewId =>
    have heffect := consoleEffect_answer w ⟨svc, .get tenant reviewId, readings⟩
    generalize answer w ⟨svc, .get tenant reviewId, readings⟩ = x at heffect
    obtain ⟨response, w'⟩ := x
    cases heffect with
    | untouched => exact (List.append_nil _).symm
    | submitted s item reviews hcall => rcases hcall with hcall | hcall <;> cases hcall
    | refused d stored e hcall => cases hcall
    | denied d stored findings outcome hcall => cases hcall
    | disposed d stored reviews outcome hcall => cases hcall

end

section
variable {svc : CaseWorkflowService} {w : World}

theorem routed_events {c : Case} {assessment : CaseAssessment} {routing : Routing}
    {reviews reviews' : LocalReviewStore} {submitted : List AuditEvent}
    (h : svc.routed c assessment routing reviews = .ok (reviews', submitted)) :
    submitted = match assessment.requiresHumanReview, svc.reviewRouter with
      | true, some console => [.signOff (console.submitEvent
          (CaseWorkflowService.routedItem console c assessment routing)
          routing.readings.timestamp)]
      | _, _ => [] := by
  rcases routed_cases h with ⟨hnone, -, rfl⟩ | ⟨console, hreview, hrouter, -, rfl⟩
  · rcases hnone with hreview | hrouter
    · simp only [hreview]
    · rw [hrouter]
      cases assessment.requiresHumanReview <;> rfl
  · simp only [hreview, hrouter]

theorem events_of_idle {r : CaseRequest} (h : Idle svc w r) : r.events svc w = [] := by
  obtain ⟨call, readings⟩ := r
  cases call with
  | openCase a =>
    have hdefinition : svc.definitions.definition a.caseType = none := h
    simp only [CaseRequest.events, hdefinition]
  | transitionCase a =>
    simp only [CaseRequest.events]
    cases hfound : svc.found w a.tenant a.caseId with
    | none => rfl
    | some found =>
      obtain ⟨hget, hdefinition⟩ := CaseWorkflowService.found_eq_some.mp hfound
      cases hdefinition.symm.trans (h _ hget)
  | evaluateCase a routing =>
    simp only [CaseRequest.events]
    cases hfound : svc.found w a.tenant a.caseId with
    | none => rfl
    | some found =>
      obtain ⟨hget, hdefinition⟩ := CaseWorkflowService.found_eq_some.mp hfound
      obtain ⟨e, hassess⟩ := h _ _ hget hdefinition
      simp only [hassess]
  | get tenant caseId => rfl
  | listCases tenant => rfl

theorem CaseRequest.answer_log (r : CaseRequest) (w : World) :
    (answerCase svc w r).2.log = w.log ++ r.events svc w := by
  cases caseEffect svc w r with
  | untouched hidle hresponse hworld => rw [hworld, events_of_idle hidle, List.append_nil]
  | opened a d c timers hcall hdefinition hcase htimers hresponse hworld =>
    have hcompletes : svc.Completes d (a.openedAt r.readings.now) := by
      rw [completes_iff svc d a r.readings.now c.openedAt, ← hcase]
      intro hbound
      rw [if_pos hbound] at htimers
      rw [htimers]
    subst hcase
    simp [hworld, events, hcall, hdefinition, hcompletes]
  | openedPartly a d c timers e hcall hdefinition hcase hbound htimers hresponse hworld =>
    have hcompletes : ¬ svc.Completes d (a.openedAt r.readings.now) := by
      rw [completes_iff svc d a r.readings.now c.openedAt, ← hcase, htimers]
      simp [hbound]
    simp [hworld, events, hcall, hdefinition, hcompletes]
  | refused a c d hcall hget hdefinition hlegal hresponse hworld =>
    simp [hworld, events, hcall, CaseWorkflowService.found_eq_some.mpr ⟨hget, hdefinition⟩, hlegal]
  | moved a c moved d hcall hget hdefinition hlegal hmoved hresponse hworld =>
    subst hmoved
    have hlog : (answerCase svc w r).2.log = w.log ++ [.caseAction (svc.transitionEvent a c
        (CaseWorkflowService.advanced c a r.readings.now) r.readings.timestamp)] := by
      rw [hworld, World.audited_log, World.withEvent_log]
      split <;> rfl
    simp [hlog, events, hcall, CaseWorkflowService.found_eq_some.mpr ⟨hget, hdefinition⟩, hlegal]
  | evaluated a routing c d assessment reviews submitted hcall hget hdefinition hassess hrouted
      hresponse hworld =>
    simp only [hworld, events, hcall, CaseWorkflowService.found_eq_some.mpr ⟨hget, hdefinition⟩,
      hassess, routed_events hrouted]

end

/-- A call appends its events to the trail. -/
theorem ServiceCall.recorded_eq (w : World) (call : ServiceCall) :
    call.recorded w = call.events w := by
  have hlog : (call.answer w).2.log = w.log ++ call.events w := by
    cases call with
    | console r =>
      simp only [answer, program, exec_bind_pure]
      exact r.answer_log w
    | engine svc r =>
      simp only [answer, program, exec_bind_pure]
      exact r.answer_log w
  rw [recorded, hlog, List.drop_left]

section
variable {redact : String → String} {svc : ConsoleService} {r r' : Readings} {w : World}

theorem stores_of_sameButText {s s' : Submission} (hsame : s.SameButText s')
    {call call' : ConsoleCall} (hcalls : (call = .submit s ∧ call' = .submit s') ∨
      (call = .submitIdempotent s ∧ call' = .submitIdempotent s')) (hnow : r'.now = r.now) :
    ConsoleRequest.Stores ⟨svc, call', r'⟩ w ↔ ConsoleRequest.Stores ⟨svc, call, r⟩ w := by
  obtain ⟨subject, summary, citations, rfl⟩ : ∃ subject summary citations,
      s' = { s with subject, summary, citations } := ⟨_, _, _, hsame.1⟩
  rcases hcalls with ⟨rfl, rfl⟩ | ⟨rfl, rfl⟩
  · simp only [ConsoleRequest.Stores, hnow]
    apply not_congr
    apply LocalReviewStore.sourceTaken_congr
    · simp [ConsoleService.newItem_key]
    · simp [ConsoleService.newItem]
  · rfl

theorem submission_trail (svc : ConsoleService) {s s' : Submission} (hsame : s.SameButText s')
    {call call' : ConsoleCall}
    (hcalls : (call = .submit s ∧ call' = .submit s') ∨
      (call = .submitIdempotent s ∧ call' = .submitIdempotent s')) (hnow : r'.now = r.now)
    (himages : (ConsoleRequest.handed ⟨svc, call, r⟩ w).map svc.redact =
      (ConsoleRequest.handed ⟨svc, call', r'⟩ w).map svc.redact) (t : DateTime) :
    (ConsoleRequest.events ⟨svc, call, r⟩ w).map (AuditEvent.stamped t) =
        (ConsoleRequest.events ⟨svc, call', r'⟩ w).map (AuditEvent.stamped t) ↔
      ConsoleRequest.copied ⟨svc, call, r⟩ w = ConsoleRequest.copied ⟨svc, call', r'⟩ w := by
  have hstores : ConsoleRequest.Stores ⟨svc, call', r'⟩ w ↔
      ConsoleRequest.Stores ⟨svc, call, r⟩ w := stores_of_sameButText hsame hcalls hnow
  obtain ⟨hevents, hhanded, hcopied⟩ := submission_text svc r (hcalls.imp And.left And.left) w
  obtain ⟨hevents', hhanded', hcopied'⟩ :=
    submission_text svc r' (hcalls.imp And.right And.right) w
  rw [hhanded, hhanded'] at himages
  rw [hevents, hevents', hcopied, hcopied']
  obtain ⟨subject, summary, citations, rfl⟩ : ∃ subject summary citations,
      s' = { s with subject, summary, citations } := ⟨_, _, _, hsame.1⟩
  by_cases h : ConsoleRequest.Stores ⟨svc, call, r⟩ w
  · have h' := hstores.mpr h
    simp only [if_pos h, if_pos h', List.map_cons, List.map_nil, List.cons.injEq, and_true,
      true_and] at himages ⊢
    rw [ConsoleService.submitEvent_newItem, ConsoleService.submitEvent_newItem]
    simp [AuditEvent.stamped, himages]
  · have h' := hstores.not.mpr h
    simp only [if_neg h, if_neg h']

theorem dispose_events (svc : ConsoleService) (d : DisposeArgs) (r : Readings) (w : World) :
    ConsoleRequest.events ⟨svc, .dispose d, r⟩ w =
      match d.openItem w with
      | none => []
      | some stored =>
        let item := svc.withEffectiveRouting stored
        let findings :=
          svc.engine.checkEligibility item d.checker d.checkerTenant d.checkerGroups
        [.signOff {
          action := "dispose"
          reviewId := item.request.reviewId
          tenant := item.request.tenant
          maker := item.request.maker
          checker := d.checker
          disposition := d.disposition
          decision := if findings ≠ [] then .denied else .allowed
          state := if findings ≠ [] then item.state else (svc.disposed stored d r.now).state
          severity := item.request.severity
          redactedReason := svc.redact d.reason
          redactedSummary := svc.redact (stored.request.subject ++ " :: " ++ stored.request.summary)
          findings
          citations := item.request.citations
          timestamp := r.timestamp }] := by
  simp only [ConsoleRequest.events, DisposeArgs.openItem]
  cases hget : w.reviews.get d.checkerTenant d.reviewId with
  | none => rfl
  | some stored =>
    have hrequest : (svc.withEffectiveRouting stored).request.subject = stored.request.subject ∧
        (svc.withEffectiveRouting stored).request.summary = stored.request.summary := by
      rw [ConsoleService.withEffectiveRouting_eq]
      exact ⟨rfl, rfl⟩
    rcases MakerCheckerService.dispose_cases svc.engine (svc.withEffectiveRouting stored)
      (d.decision r.now) d.asOf with ⟨hstate, e, hdispose⟩ |
        ⟨hstate, findings, hne, hfindings, hdispose⟩ | ⟨hstate, hel, hdispose⟩
    · have hitem : (some stored).filter (fun stored => !stored.isTerminal) = none := by
        simpa [ReviewItem.isTerminal] using hstate
      rw [hitem]
      simp only [hdispose]
    · have hitem : (some stored).filter (fun stored => !stored.isTerminal) = some stored := by
        simpa [ReviewItem.isTerminal] using hstate
      rw [hitem]
      have hne' : svc.engine.checkEligibility (svc.withEffectiveRouting stored) d.checker
          d.checkerTenant d.checkerGroups ≠ [] := fun hnil => hne (hfindings.trans hnil)
      subst hfindings
      simp only [hdispose, if_pos hne', ← hrequest.1, ← hrequest.2]
      rfl
    · have hitem : (some stored).filter (fun stored => !stored.isTerminal) = some stored := by
        simpa [ReviewItem.isTerminal] using hstate
      rw [hitem]
      have hnil : svc.engine.checkEligibility (svc.withEffectiveRouting stored) d.checker
          d.checkerTenant d.checkerGroups = [] :=
        MakerCheckerService.checkEligibility_eq_nil.mpr hel
      have hdisposed : svc.engine.dispose (svc.withEffectiveRouting stored) (d.decision r.now)
          d.asOf = .ok ⟨svc.disposed stored d r.now, .allowed, []⟩ := hdispose
      simp only [hdisposed, hnil, ne_eq, not_true_eq_false, if_false, ← hrequest.1, ← hrequest.2,
        ConsoleService.disposeEvent, ConsoleService.signOffEvent, ConsoleService.disposed_request]

theorem disposed_state_of_reason (svc : ConsoleService) (stored : ReviewItem) (d : DisposeArgs)
    (reason : String) (now : DateTime) :
    (svc.disposed stored { d with reason } now).state = (svc.disposed stored d now).state := by
  simp only [ConsoleService.disposed, DisposeArgs.decision, MakerCheckerService.applied]
  split <;> rfl

theorem disposition_trail (svc : ConsoleService) {d d' : DisposeArgs} (hsame : d.SameButText d')
    (hnow : r'.now = r.now)
    (himages : (ConsoleRequest.handed ⟨svc, .dispose d, r⟩ w).map svc.redact =
      (ConsoleRequest.handed ⟨svc, .dispose d', r'⟩ w).map svc.redact) (t : DateTime) :
    (ConsoleRequest.events ⟨svc, .dispose d, r⟩ w).map (AuditEvent.stamped t) =
      (ConsoleRequest.events ⟨svc, .dispose d', r'⟩ w).map (AuditEvent.stamped t) := by
  obtain ⟨reason, rfl⟩ : ∃ reason, d' = { d with reason } := ⟨_, hsame⟩
  have hopen : DisposeArgs.openItem { d with reason } w = d.openItem w := rfl
  simp only [dispose_events, ConsoleRequest.handed, hopen, hnow] at himages ⊢
  cases hitem : d.openItem w with
  | none => rfl
  | some stored =>
    simp only [hitem, List.map_cons, List.map_nil, List.cons.injEq, and_true] at himages
    simp [AuditEvent.stamped, himages, disposed_state_of_reason]

end

section
variable {svc : CaseWorkflowService} {r r' : Readings} {w : World}

theorem openEvent_opened (svc : CaseWorkflowService) (a : OpenArgs) (d : WorkflowDefinition)
    (now timestamp : DateTime) :
    svc.openEvent a (CaseWorkflowService.opened a d now) timestamp =
      { action := "open"
        caseId := a.caseId
        tenant := a.tenant
        actor := a.actor
        fromState := ""
        toState := d.initial
        decision := .allowed
        severity := a.severity
        redactedSummary := svc.redact
          ((if a.summary = "" then a.caseType else a.summary) ++ " :: " ++
            CaseWorkflowService.attrBlob (CaseWorkflowService.opened a d now))
        citations := a.citations
        timestamp } := rfl

theorem open_trail (svc : CaseWorkflowService) {a a' : OpenArgs} (hsame : a.SameButText a')
    (hnow : r'.now = r.now)
    (himages : (CaseRequest.handed svc ⟨.openCase a, r⟩ w).map svc.redact =
      (CaseRequest.handed svc ⟨.openCase a', r'⟩ w).map svc.redact) (t : DateTime) :
    (CaseRequest.events svc ⟨.openCase a, r⟩ w).map (AuditEvent.stamped t) =
        (CaseRequest.events svc ⟨.openCase a', r'⟩ w).map (AuditEvent.stamped t) ↔
      CaseRequest.copied svc ⟨.openCase a, r⟩ = CaseRequest.copied svc ⟨.openCase a', r'⟩ := by
  obtain ⟨summary, attributes, citations, rfl⟩ : ∃ summary attributes citations,
      a' = { a with summary, attributes, citations } := ⟨_, _, _, hsame.1⟩
  simp only [CaseRequest.events, CaseRequest.handed, CaseRequest.copied, hnow] at himages ⊢
  cases hdefinition : svc.definitions.definition a.caseType with
  | none => exact iff_of_true rfl rfl
  | some d =>
    by_cases h : svc.Completes d (a.openedAt r.now)
    · have h' :
          svc.Completes d (OpenArgs.openedAt { a with summary, attributes, citations } r.now) :=
        h
      simp only [hdefinition, if_pos h, if_pos h', List.map_cons, List.map_nil, List.cons.injEq,
        and_true] at himages
      simp only [if_pos h, if_pos h', openEvent_opened, List.map_cons, List.map_nil,
        AuditEvent.stamped, himages]
      simp
    · have h' : ¬ svc.Completes d
          (OpenArgs.openedAt { a with summary, attributes, citations } r.now) := h
      simp only [if_neg h, if_neg h']

theorem transitionEvent_advanced (svc : CaseWorkflowService) (a : TransitionArgs) (c : Case)
    (now timestamp : DateTime) :
    svc.transitionEvent a c (CaseWorkflowService.advanced c a now) timestamp =
      { action := "transition"
        caseId := c.caseId
        tenant := c.tenant
        actor := a.actor
        fromState := c.state
        toState := a.toState
        decision := .allowed
        severity := c.severity
        redactedSummary := svc.redact (a.reason ++ " :: " ++ CaseWorkflowService.attrBlob c)
        citations := c.citations
        timestamp } := rfl

theorem refusalEvent_eq (svc : CaseWorkflowService) (a : TransitionArgs) (c : Case)
    (timestamp : DateTime) : svc.refusalEvent a c timestamp =
      { action := "transition"
        caseId := c.caseId
        tenant := c.tenant
        actor := a.actor
        fromState := c.state
        toState := a.toState
        decision := .rejected
        severity := c.severity
        redactedSummary := svc.redact (a.reason ++ " :: " ++ CaseWorkflowService.attrBlob c)
        citations := c.citations
        timestamp } := rfl

/-- The events of two transitions that differ in text only differ in the requested state alone,
and then both are refused. -/
theorem transition_trail (svc : CaseWorkflowService) {a a' : TransitionArgs}
    (hsame : a.SameButText svc w a') (hnow : r'.now = r.now)
    (himages : (CaseRequest.handed svc ⟨.transitionCase a, r⟩ w).map svc.redact =
      (CaseRequest.handed svc ⟨.transitionCase a', r'⟩ w).map svc.redact) (t : DateTime) :
    (CaseRequest.events svc ⟨.transitionCase a, r⟩ w).map (AuditEvent.stamped t) =
        (CaseRequest.events svc ⟨.transitionCase a', r'⟩ w).map (AuditEvent.stamped t) ↔
      CaseRequest.copied svc ⟨.transitionCase a, r⟩ =
        CaseRequest.copied svc ⟨.transitionCase a', r'⟩ := by
  obtain ⟨reason, toState, rfl⟩ : ∃ reason toState,
      a' = { a with reason, toState } := ⟨_, _, hsame.1⟩
  simp only [CaseRequest.events, CaseRequest.handed, CaseRequest.copied, hnow] at himages ⊢
  rcases hsame.2 with rfl | ⟨⟨⟨c, d⟩, hfound, hlegal⟩, ⟨_, hfound', hlegal'⟩⟩
  · cases hfound : svc.found w a.tenant a.caseId with
    | none => exact iff_of_true rfl rfl
    | some found =>
      simp only [hfound, List.map_cons, List.map_nil, List.cons.injEq, and_true] at himages
      refine iff_of_true ?_ rfl
      by_cases hlegal : found.2.isLegal found.1.state a.toState = true
      · simp only [if_pos hlegal, transitionEvent_advanced, List.map_cons, List.map_nil,
          AuditEvent.stamped, himages]
      · simp only [if_neg hlegal, refusalEvent_eq, List.map_cons, List.map_nil,
          AuditEvent.stamped, himages]
  · cases hfound.symm.trans hfound'
    have hfound : svc.found w a.tenant a.caseId = some (c, d) := hfound
    simp only [hfound, List.map_cons, List.map_nil, List.cons.injEq, and_true] at himages
    simp only [hfound, hlegal, hlegal', Bool.false_eq_true, if_false, refusalEvent_eq,
      List.map_cons, List.map_nil, AuditEvent.stamped, himages]
    simp

theorem evaluation_trail (a : EvaluateArgs) {routing routing' : Routing}
    (hid : routing'.reviewId = routing.reviewId)
    (hrouted : routing'.readings.now = routing.readings.now) (hnow : r'.now = r.now)
    (t : DateTime) :
    (CaseRequest.events svc ⟨.evaluateCase a routing, r⟩ w).map (AuditEvent.stamped t) =
      (CaseRequest.events svc ⟨.evaluateCase a routing', r'⟩ w).map (AuditEvent.stamped t) := by
  simp only [CaseRequest.events, hnow]
  cases hfound : svc.found w a.tenant a.caseId with
  | none => rfl
  | some found =>
    obtain ⟨c, d⟩ := found
    cases hassess : assess c d (a.asOf.getD r.now) svc.holidays with
    | error e => simp only [hassess]
    | ok assessment =>
      simp only [hassess, CaseWorkflowService.routedItem, hid, hrouted]
      cases assessment.requiresHumanReview with
      | false => rfl
      | true => cases svc.reviewRouter <;> rfl

end

section
variable {f g : String → String} {w : World}

theorem ConsoleRequest.events_of_agree (svc : ConsoleService) (call : ConsoleCall) (r : Readings)
    (h : ∀ x ∈ ConsoleRequest.handed ⟨svc.withRedact f, call, r⟩ w, f x = g x) :
    ConsoleRequest.events ⟨svc.withRedact f, call, r⟩ w =
      ConsoleRequest.events ⟨svc.withRedact g, call, r⟩ w := by
  have hsubmission {s : Submission} (hcall : call = .submit s ∨ call = .submitIdempotent s) :
      ConsoleRequest.events ⟨svc.withRedact f, call, r⟩ w =
        ConsoleRequest.events ⟨svc.withRedact g, call, r⟩ w := by
    have hstores : ConsoleRequest.Stores ⟨svc.withRedact g, call, r⟩ w ↔
        ConsoleRequest.Stores ⟨svc.withRedact f, call, r⟩ w := by
      rcases hcall with rfl | rfl <;> rfl
    rw [(submission_text _ r hcall w).2.1] at h
    rw [(submission_text _ r hcall w).1, (submission_text _ r hcall w).1]
    by_cases hs : ConsoleRequest.Stores ⟨svc.withRedact f, call, r⟩ w
    · rw [if_pos hs, List.forall_mem_cons, List.forall_mem_singleton] at h
      simp only [if_pos hs, if_pos (hstores.mpr hs), ConsoleService.submitEvent_newItem]
      simp [ConsoleService.withRedact, h]
    · rw [if_neg hs, if_neg (hstores.not.mpr hs)]
  cases call with
  | submit s => exact hsubmission (Or.inl rfl)
  | submitIdempotent s => exact hsubmission (Or.inr rfl)
  | dispose d =>
    simp only [ConsoleRequest.handed] at h
    simp only [dispose_events]
    cases hitem : d.openItem w with
    | none => rfl
    | some stored =>
      rw [hitem, List.forall_mem_cons, List.forall_mem_singleton] at h
      obtain ⟨hreason, hsummary⟩ := h
      dsimp only [ConsoleService.withRedact]
      rw [hreason, hsummary]
      rfl
  | getBySourceKey tenant sourceKey => rfl
  | listQueue tenant => rfl
  | listAll tenant => rfl
  | get tenant reviewId => rfl

theorem routed_of_agree (console : ConsoleService) (c : Case) (assessment : CaseAssessment)
    (routing : Routing)
    (h : ∀ x ∈ (console.withRedact f).handedByRoute c assessment, f x = g x) :
    (console.withRedact f).submitEvent (CaseWorkflowService.routedItem (console.withRedact f) c
        assessment routing) routing.readings.timestamp =
      (console.withRedact g).submitEvent (CaseWorkflowService.routedItem (console.withRedact g) c
        assessment routing) routing.readings.timestamp := by
  simp only [ConsoleService.handedByRoute, List.forall_mem_cons] at h
  obtain ⟨hsubject, hsummary, hreason, hjoined, -⟩ := h
  simp only [CaseWorkflowService.routedItem, ConsoleService.submitEvent_newItem,
    ConsoleService.routedReview]
  dsimp only [ConsoleService.withRedact] at hjoined ⊢
  rw [hjoined, hreason, hsubject, hsummary]

theorem CaseRequest.events_of_agree (svc : CaseWorkflowService) (call : CaseCall) (r : Readings)
    (h : ∀ x ∈ CaseRequest.handed (svc.withRedact f) ⟨call, r⟩ w, f x = g x) :
    CaseRequest.events (svc.withRedact f) ⟨call, r⟩ w =
      CaseRequest.events (svc.withRedact g) ⟨call, r⟩ w := by
  cases call with
  | openCase a =>
    have hdef (e : String → String) : (svc.withRedact e).definitions = svc.definitions := rfl
    simp only [CaseRequest.handed, CaseRequest.events, openEvent_opened, hdef] at h ⊢
    cases hdefinition : svc.definitions.definition a.caseType with
    | none => rfl
    | some d =>
      have hcompletes : (svc.withRedact g).Completes d (a.openedAt r.now) ↔
        (svc.withRedact f).Completes d (a.openedAt r.now) := Iff.rfl
      by_cases hc : (svc.withRedact f).Completes d (a.openedAt r.now)
      · simp only [hdefinition, if_pos hc, List.forall_mem_singleton] at h
        simp only [if_pos hc, if_pos (hcompletes.mpr hc)]
        dsimp only [CaseWorkflowService.withRedact]
        rw [h]
      · simp only [if_neg hc, if_neg (hcompletes.not.mpr hc)]
  | transitionCase a =>
    simp only [CaseRequest.handed, CaseRequest.events, transitionEvent_advanced,
      refusalEvent_eq] at h ⊢
    have hfound : (svc.withRedact g).found w a.tenant a.caseId =
      (svc.withRedact f).found w a.tenant a.caseId := rfl
    rw [hfound]
    cases hitem : (svc.withRedact f).found w a.tenant a.caseId with
    | none => rfl
    | some found =>
      simp only [hitem, List.forall_mem_singleton] at h
      dsimp only [CaseWorkflowService.withRedact]
      rw [h]
  | evaluateCase a routing =>
    simp only [CaseRequest.handed, CaseRequest.events] at h ⊢
    have hfound : (svc.withRedact g).found w a.tenant a.caseId =
      (svc.withRedact f).found w a.tenant a.caseId := rfl
    rw [hfound]
    cases hitem : (svc.withRedact f).found w a.tenant a.caseId with
    | none => rfl
    | some found =>
      obtain ⟨c, d⟩ := found
      have hholidays (e : String → String) : (svc.withRedact e).holidays = svc.holidays := rfl
      simp only [hitem, hholidays] at h ⊢
      cases hassess : assess c d (a.asOf.getD r.now) svc.holidays with
      | error e => rfl
      | ok assessment =>
        simp only [hassess, List.forall_mem_cons] at h ⊢
        have hevent : (svc.withRedact f).evaluationEvent a c assessment r.timestamp =
            (svc.withRedact g).evaluationEvent a c assessment r.timestamp := by
          dsimp only [CaseWorkflowService.evaluationEvent, CaseWorkflowService.auditEvent,
            CaseWorkflowService.withRedact]
          rw [h.1]
        rw [hevent]
        have hrouted := h.2
        cases hreview : assessment.requiresHumanReview with
        | false => rfl
        | true =>
          cases hrouter : svc.reviewRouter with
          | none => simp [CaseWorkflowService.withRedact, hrouter]
          | some console =>
            simp only [CaseWorkflowService.withRedact, hrouter, hreview,
              Option.map_some] at hrouted ⊢
            rw [routed_of_agree console c assessment routing hrouted]
  | get tenant caseId => rfl
  | listCases tenant => rfl

end

/-- The events of a call depend on the redactor through the strings handed to it alone. -/
theorem ServiceCall.events_of_agree {f g : String → String} {w : World} (call : ServiceCall)
    (h : ∀ x ∈ (call.withRedact f).handed w, f x = g x) :
    (call.withRedact f).events w = (call.withRedact g).events w := by
  cases call with
  | console r => exact ConsoleRequest.events_of_agree r.service r.call r.readings h
  | engine svc r => exact CaseRequest.events_of_agree svc r.call r.readings h

/-- Two calls that differ in caller-supplied text only, where `redact` maps the strings handed
to it to the same images, leave the same events apart from their timestamps if and only if they
agree on the text that is copied past it. -/
theorem trail_redacted_iff (redact : String → String) {w : World} {call call' : ServiceCall}
    (hsame : call.SameButText w call')
    (himages : ((call.withRedact redact).handed w).map redact =
      ((call'.withRedact redact).handed w).map redact) (t : DateTime) :
    ((call.withRedact redact).recorded w).map (AuditEvent.stamped t) =
        ((call'.withRedact redact).recorded w).map (AuditEvent.stamped t) ↔
      call.copied w = call'.copied w := by
  rw [ServiceCall.recorded_eq, ServiceCall.recorded_eq]
  cases hsame with
  | submit svc h hnow =>
    have htrail := submission_trail (svc.withRedact redact) h (Or.inl ⟨rfl, rfl⟩) hnow himages t
    simp only [ServiceCall.copied, Prod.mk.injEq, and_true]
    exact htrail
  | submitIdempotent svc h hnow =>
    have htrail := submission_trail (svc.withRedact redact) h (Or.inr ⟨rfl, rfl⟩) hnow himages t
    simp only [ServiceCall.copied, Prod.mk.injEq, and_true]
    exact htrail
  | dispose svc h hnow =>
    exact iff_of_true (disposition_trail (svc.withRedact redact) h hnow himages t) rfl
  | openCase svc h hnow => exact open_trail (w := w) (svc.withRedact redact) h hnow himages t
  | transitionCase svc h hnow => exact transition_trail (svc.withRedact redact) h hnow himages t
  | evaluateCase svc a hid hrouted hnow =>
    exact iff_of_true (evaluation_trail a hid hrouted hnow t) rfl

namespace Demo

/-- A redactor that lets nothing through. -/
def masked (_ : String) : String := "[redacted]"

def submitAbout (subject snippet : String) : ServiceCall :=
  .console { submit with call := .submit { submission .medium with
    subject
    citations := [⟨"doc-1", "Account statement", snippet⟩] } }

end Demo

/-- The subject of a review reaches the trail through the redactor alone. -/
theorem demo_trail_redacted :
    ((Demo.submitAbout "Acme" "").withRedact Demo.masked |>.recorded World.empty).map
        (AuditEvent.stamped Demo.noon) =
      ((Demo.submitAbout "Bolt" "").withRedact Demo.masked |>.recorded World.empty).map
        (AuditEvent.stamped Demo.noon) :=
  (trail_redacted_iff Demo.masked (.submit Demo.console ⟨rfl, rfl⟩ rfl) rfl Demo.noon).mpr rfl

/-- The snippet of a citation reaches it as it is. -/
theorem snippet_recorded : ¬ ∀ (redact : String → String) (w : World) (call call' : ServiceCall),
    call.SameButText w call' →
    ((call.withRedact redact).handed w).map redact =
      ((call'.withRedact redact).handed w).map redact →
    ∀ t, ((call.withRedact redact).recorded w).map (AuditEvent.stamped t) =
      ((call'.withRedact redact).recorded w).map (AuditEvent.stamped t) := by
  intro h
  have hsame : (Demo.submitAbout "Acme" "IBAN A").SameButText World.empty
      (Demo.submitAbout "Acme" "IBAN B") := .submit Demo.console ⟨rfl, rfl⟩ rfl
  have hevents := h Demo.masked World.empty _ _ hsame rfl Demo.noon
  revert hevents
  decide

end ReviewConsole

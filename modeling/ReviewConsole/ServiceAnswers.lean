import ReviewConsole.TimerSchedules

/-!
# What the methods answer

For each method of the two services, its answer over the local adapters as a function of the
stores. What the method does to the stores is the matter of the inversion theorems.
-/
namespace ReviewConsole
open PortPrograms Program

section
variable (console : ConsoleService) (r : Readings) (w : World)

theorem submit_answer {s : Submission} (hsource : s.sourceKey = "") :
    ((console.submit s r).exec localPorts w).1 = .ok (console.newItem s r.now) := by
  have hkey : (console.newItem s r.now).request.sourceKey = "" := by
    rw [ConsoleService.newItem_sourceKey, hsource]
  obtain ⟨reviews, hput⟩ := w.reviews.put_of_no_source hkey
  have hop : @exec _ _ _ Unit _ localPorts (port (.reviewPut (console.newItem s r.now))) w =
      (.ok (), { w with reviews }) := by
    simp only [port, perform, exec, localPorts, hput]
  simp only [ConsoleService.submit, exec_bind, hop]
  rfl

theorem submitIdempotent_answer (s : Submission) :
    ((console.submitIdempotent s r).exec localPorts w).1 =
      (w.reviews.putIfAbsentBySourceKey (console.newItem s r.now)).map
        (fun answer => console.withEffectiveRouting answer.1.1) := by
  simp only [ConsoleService.submitIdempotent, exec_bind]
  cases hput : w.reviews.putIfAbsentBySourceKey (console.newItem s r.now) with
  | error e =>
    have hop : @exec _ _ _ (ReviewItem × Bool) _ localPorts
        (port (.reviewPutIfAbsentBySourceKey (console.newItem s r.now))) w = (.error e, w) := by
      simp only [port, perform, exec, localPorts, hput]
    rw [hop]
    rfl
  | ok answer =>
    obtain ⟨⟨row, created⟩, reviews⟩ := answer
    have hop : @exec _ _ _ (ReviewItem × Bool) _ localPorts
        (port (.reviewPutIfAbsentBySourceKey (console.newItem s r.now))) w =
          (.ok (row, created), { w with reviews }) := by
      simp only [port, perform, exec, localPorts, hput]
    rw [hop]
    cases created <;> rfl

theorem get_answer (tenant id : String) :
    ((console.get tenant id).exec localPorts w).1 = match w.reviews.get tenant id with
      | none => .error (.reviewNotFound id)
      | some item => .ok (console.withEffectiveRouting item) := by
  have hop : @exec _ _ _ (Option ReviewItem) _ localPorts (port (.reviewGet tenant id)) w =
      (.ok (w.reviews.get tenant id), w) := rfl
  simp only [ConsoleService.get, exec_bind, hop]
  cases w.reviews.get tenant id <;> rfl

/-- The engine decides on the stored item as the policy in force routes it; what it decides can
always be written back. -/
theorem dispose_answer (d : DisposeArgs) :
    ((console.dispose d r).exec localPorts w).1 =
      match w.reviews.get d.checkerTenant d.reviewId with
      | none => .error (.reviewNotFound d.reviewId)
      | some stored =>
        match console.engine.dispose (console.withEffectiveRouting stored) (d.decision r.now)
            d.asOf with
        | .error e => .error (.alreadyResolved e.message)
        | .ok outcome => .ok outcome := by
  have hop : @exec _ _ _ (Option ReviewItem) _ localPorts
      (port (.reviewGet d.checkerTenant d.reviewId)) w =
        (.ok (w.reviews.get d.checkerTenant d.reviewId), w) := rfl
  simp only [ConsoleService.dispose, exec_bind, hop]
  cases hget : w.reviews.get d.checkerTenant d.reviewId with
  | none => rfl
  | some stored =>
    dsimp only
    rcases MakerCheckerService.dispose_cases console.engine (console.withEffectiveRouting stored)
      (d.decision r.now) d.asOf with ⟨-, e, h⟩ | ⟨-, findings, -, -, h⟩ | ⟨-, -, h⟩
    · rw [h]
      rfl
    · rw [h]
      rfl
    · rw [h]
      obtain ⟨reviews, hput⟩ := LocalReviewStore.put_of_get hget
        (console.disposed stored d r.now) (by simp) (by simp)
      have hwrite : @exec _ _ _ Unit _ localPorts
          (port (.reviewPut (console.engine.applied (console.withEffectiveRouting stored)
            (d.decision r.now) (d.asOf.getD (d.decision r.now).decidedAt)))) w =
              (.ok (), { w with reviews }) := by
        change w.reviews.put (console.engine.applied (console.withEffectiveRouting stored)
          (d.decision r.now) (d.asOf.getD (d.decision r.now).decidedAt)) = .ok reviews at hput
        simp only [port, perform, exec, localPorts, hput]
      simp only [DispositionOutcome.allowed_allowed, if_true, exec_bind, hwrite]
      rfl

end

section
variable (svc : CaseWorkflowService) (r : Readings) (w : World)

private theorem load_exec (tenant id : String) :
    (CaseWorkflowService.load tenant id).exec localPorts w =
      (match w.getCase tenant id with
        | none => .error (.caseNotFound id)
        | some c => .ok c, w) := by
  have hop : @exec _ _ _ (Option Case) _ localPorts (port (.caseGet tenant id)) w =
      (.ok (w.getCase tenant id), w) := rfl
  simp only [CaseWorkflowService.load, exec_bind, hop]
  cases w.getCase tenant id <;> rfl

private theorem definition_exec (caseType : String) :
    (svc.definition caseType).exec localPorts w =
      (match svc.definitions.definition caseType with
        | none => .error (.unknownWorkflow caseType)
        | some d => .ok d, w) := by
  simp only [CaseWorkflowService.definition]
  cases svc.definitions.definition caseType <;> rfl

theorem getCase_answer (tenant id : String) :
    ((CaseWorkflowService.get tenant id).exec localPorts w).1 =
      match w.getCase tenant id with
      | none => .error (.caseNotFound id)
      | some c => .ok c := by
  rw [CaseWorkflowService.get, load_exec]

/-- Opening a case is refused when a clock that starts with it has no due date. -/
theorem openCase_answer (a : OpenArgs) :
    ((svc.openCase a r).exec localPorts w).1 =
      match svc.definitions.definition a.caseType with
      | none => .error (.unknownWorkflow a.caseType)
      | some d =>
        let c := CaseWorkflowService.opened a d r.now
        match if svc.timers then (svc.scheduled c d c.openedAt d.clocks).2 else none with
        | some e => .error (.clock e)
        | none => .ok c := by
  simp only [CaseWorkflowService.openCase, exec_bind, definition_exec]
  cases svc.definitions.definition a.caseType with
  | none => rfl
  | some d =>
    have hop : @exec _ _ _ Unit _ localPorts
        (port (.casePut (CaseWorkflowService.opened a d r.now))) w =
          (.ok (), { w with cases := w.cases.upsert (CaseWorkflowService.opened a d r.now) }) := rfl
    simp only [CaseWorkflowService.opened] at hop ⊢
    simp only [hop, exec_scheduleClocks]
    cases htimers : svc.timers with
    | false => simp [exec_emit, exec_caseRecord]
    | true =>
      simp only [if_true]
      cases (svc.scheduled (newCase a.caseId a.tenant d a.severity (a.asOf.getD r.now) a.attributes
        a.citations) d _ d.clocks).2 with
      | some e => rfl
      | none => simp [exec_emit, exec_caseRecord]

theorem transitionCase_answer (a : TransitionArgs) :
    ((svc.transitionCase a r).exec localPorts w).1 =
      match w.getCase a.tenant a.caseId with
      | none => .error (.caseNotFound a.caseId)
      | some c =>
        match svc.definitions.definition c.caseType with
        | none => .error (.unknownWorkflow c.caseType)
        | some d =>
          if d.isLegal c.state a.toState then .ok (CaseWorkflowService.advanced c a r.now)
          else .error (.illegalTransition c.state a.toState) := by
  simp only [CaseWorkflowService.transitionCase, exec_bind, load_exec]
  cases w.getCase a.tenant a.caseId with
  | none => rfl
  | some c =>
    simp only [definition_exec]
    cases svc.definitions.definition c.caseType with
    | none => rfl
    | some d =>
      dsimp only
      rcases transition_cases c a.toState a.actor a.reason (a.asOf.getD r.now) d with
        ⟨hlegal, h⟩ | ⟨hlegal, h⟩
      · simp [h, hlegal, exec_bind, exec_caseRecord]
      · rw [← CaseWorkflowService.advanced] at h
        have hop : @exec _ _ _ Unit _ localPorts
            (port (.casePut (CaseWorkflowService.advanced c a r.now))) w =
              (.ok (), { w with
                cases := w.cases.upsert (CaseWorkflowService.advanced c a r.now) }) := rfl
        simp only [h, hlegal, if_true, exec_bind, hop]
        split
        · simp only [exec_bind, exec_cancelClocks, exec_emit, exec_caseRecord, exec_pure]
        · simp only [exec_bind, exec_emit, exec_caseRecord, exec_pure]

private theorem escalate_exec (c : Case) (assessment : CaseAssessment) (routing : Routing) :
    ((svc.escalate c assessment routing).exec localPorts w).1 = .ok () := by
  simp only [CaseWorkflowService.escalate, exec_bind, exec_emit]
  cases svc.reviewRouter with
  | none => rfl
  | some console =>
    have hsubmit := submit_answer console routing.readings (w.withEvent svc "case.escalated" c)
      (s := console.routedReview c assessment (CaseWorkflowService.routingMaker c) routing.reviewId)
      rfl
    simp only [ConsoleService.route, exec_bind]
    rcases h : (console.submit (console.routedReview c assessment
      (CaseWorkflowService.routingMaker c) routing.reviewId) routing.readings).exec localPorts
        (w.withEvent svc "case.escalated" c) with ⟨x, w'⟩
    rw [h] at hsubmit
    cases hsubmit
    rfl

theorem evaluateCase_answer (a : EvaluateArgs) (routing : Routing) :
    ((svc.evaluateCase a r routing).exec localPorts w).1 =
      match w.getCase a.tenant a.caseId with
      | none => .error (.caseNotFound a.caseId)
      | some c =>
        match svc.definitions.definition c.caseType with
        | none => .error (.unknownWorkflow c.caseType)
        | some d =>
          match assess c d (a.asOf.getD r.now) svc.holidays with
          | .error e => .error (.clock e)
          | .ok assessment => .ok assessment := by
  simp only [CaseWorkflowService.evaluateCase, exec_bind, load_exec]
  cases w.getCase a.tenant a.caseId with
  | none => rfl
  | some c =>
    simp only [definition_exec]
    cases svc.definitions.definition c.caseType with
    | none => rfl
    | some d =>
      dsimp only
      cases assess c d (a.asOf.getD r.now) svc.holidays with
      | error e => rfl
      | ok assessment =>
        simp only [exec_bind, exec_caseRecord]
        split
        · generalize World.audited w _ = w'
          have hescalate := escalate_exec svc w' c assessment routing
          rw [exec_bind]
          rcases h : (svc.escalate c assessment routing).exec localPorts w' with ⟨x, w''⟩
          rw [h] at hescalate
          cases hescalate
          rfl
        · rfl

end
end ReviewConsole

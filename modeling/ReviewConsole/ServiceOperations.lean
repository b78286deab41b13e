import ReviewConsole.CaseRuns

/-!
# Which operations the methods can reach

For each method of the two services, the operations it performs and whose they are: first the
lookup, if it has one, and then operations on what was found. Later modules read off these
theorems which ports a call touches and for which tenant.
-/
namespace ReviewConsole
open PortPrograms Program

section
variable {console : ConsoleService}

theorem submit_only (s : Submission) (r : Readings) {P : PortOp → Prop}
    (hput : ∀ item, item.key = (s.tenant, s.reviewId) → P (.reviewPut item))
    (hrecord : ∀ e : SignOffEvent, e.findings = [] → P (.record (.signOff e))) :
    (console.submit s r).Only P := by
  refine (only_perform (hput _ ?_)).bind (fun _ => ?_)
  · exact ConsoleService.newItem_key
  · exact (only_perform (hrecord _ rfl)).bind (fun _ => only_pure _)

theorem submitIdempotent_only (s : Submission) (r : Readings) {P : PortOp → Prop}
    (hput : ∀ item, item.key = (s.tenant, s.reviewId) → P (.reviewPutIfAbsentBySourceKey item))
    (hrecord : ∀ e : SignOffEvent, e.findings = [] → P (.record (.signOff e))) :
    (console.submitIdempotent s r).Only P := by
  refine (only_perform (hput _ ?_)).bind (fun answer => ?_)
  · exact ConsoleService.newItem_key
  · dsimp only
    split
    · exact (only_perform (hrecord _ rfl)).bind (fun _ => only_pure _)
    · exact only_pure _

theorem get_only {tenant reviewId : String} {P : PortOp → Prop}
    (hget : P (.reviewGet tenant reviewId)) : (console.get tenant reviewId).Only P := by
  refine (only_perform hget).bind (fun found => ?_)
  cases found with
  | none => exact only_raise _
  | some item => exact only_pure _

variable (console) in
/-- A disposition looks one review up, and writes it back under its source key. On a review of
its own tenant it does not find the tenant wrong. -/
theorem dispose_call (d : DisposeArgs) (r : Readings) :
    ∃ next : Option ReviewItem → Service DispositionOutcome,
      console.dispose d r = .call (.reviewGet d.checkerTenant d.reviewId) next ∧
        next none = .raise (.reviewNotFound d.reviewId) ∧
        ∀ stored (P : PortOp → Prop), stored.tenant = d.checkerTenant →
          (∀ item, item.key = stored.key →
            item.request.sourceKey = stored.request.sourceKey → P (.reviewPut item)) →
          (∀ e : SignOffEvent, e.action = "dispose" → .wrongTenant ∉ e.findings →
            P (.record (.signOff e))) →
          (next (some stored)).Only P := by
  refine ⟨_, rfl, rfl, ?_⟩
  intro stored P htenant hput hrecord
  have hkey : (console.withEffectiveRouting stored).key = stored.key := by simp
  have hsource : (console.withEffectiveRouting stored).request.sourceKey =
      stored.request.sourceKey := by simp
  dsimp only [Program.bind]
  generalize console.withEffectiveRouting stored = item at hkey hsource
  have heligible : d.checkerTenant = item.request.tenant :=
    htenant.symm.trans (congrArg Prod.fst hkey).symm
  rcases MakerCheckerService.dispose_cases console.engine item (d.decision r.now) d.asOf with
    ⟨-, e, h⟩ | ⟨-, findings, -, hfindings, h⟩ | ⟨-, -, h⟩
  · rw [h]
    exact only_raise _
  · rw [h]
    refine (only_perform (hrecord _ rfl ?_)).bind (fun _ => only_pure _)
    change .wrongTenant ∉ findings
    rw [hfindings, MakerCheckerService.wrongTenant_mem_iff]
    exact not_not.mpr heligible
  · rw [h]
    refine (only_perform (hput _ ?_ ?_)).bind (fun _ => ?_)
    · exact (MakerCheckerService.applied_key _ _).trans hkey
    · rw [MakerCheckerService.applied_request]
      exact hsource
    · exact (only_perform (hrecord _ rfl (List.not_mem_nil))).bind (fun _ => only_pure _)

end

section
variable {svc : CaseWorkflowService} {P : PortOp → Prop}

theorem load_only {tenant caseId : String} (hget : P (.caseGet tenant caseId)) :
    (CaseWorkflowService.load tenant caseId).Only P := by
  refine (only_perform hget).bind (fun c => ?_)
  cases c with
  | none => exact only_raise _
  | some c => exact only_pure c

theorem definition_only (caseType : String) : (svc.definition caseType).Only P := by
  unfold CaseWorkflowService.definition
  split
  · exact only_raise _
  · exact only_pure _

theorem scheduleLoop_only {c : Case} {d : WorkflowDefinition} {asOf : DateTime}
    (hschedule : ∀ clock due, P (.timerSchedule ⟨c.tenant, c.caseId, clock, due⟩))
    (specs : List ClockSpec) : (svc.scheduleLoop c d asOf specs).Only P := by
  induction specs with
  | nil => exact only_pure ()
  | cons spec specs ih =>
    simp only [CaseWorkflowService.scheduleLoop]
    split
    · exact only_raise _
    · rename_i status _
      cases status.dueAt with
      | none => exact ih
      | some due => exact (only_perform (hschedule spec.name due)).bind (fun _ => ih)

theorem scheduleClocks_only {c : Case} {d : WorkflowDefinition} {asOf : DateTime}
    (hschedule : ∀ clock due, P (.timerSchedule ⟨c.tenant, c.caseId, clock, due⟩)) :
    (svc.scheduleClocks c d asOf).Only P := by
  unfold CaseWorkflowService.scheduleClocks
  split
  · exact scheduleLoop_only hschedule d.clocks
  · exact only_pure ()

theorem cancelLoop_only {c : Case} (hcancel : ∀ clock, P (.timerCancel c.tenant c.caseId clock))
    (specs : List ClockSpec) : (CaseWorkflowService.cancelLoop c specs).Only P := by
  induction specs with
  | nil => exact only_pure ()
  | cons spec specs ih => exact (only_perform (hcancel spec.name)).bind (fun _ => ih)

theorem cancelClocks_only {c : Case} (d : WorkflowDefinition)
    (hcancel : ∀ clock, P (.timerCancel c.tenant c.caseId clock)) :
    (svc.cancelClocks c d).Only P := by
  unfold CaseWorkflowService.cancelClocks
  split
  · exact cancelLoop_only hcancel d.clocks
  · exact only_pure ()

theorem emit_only (hpublish : ∀ e, P (.publish e)) (eventType : String) (c : Case) :
    (svc.emit eventType c).Only P := by
  unfold CaseWorkflowService.emit
  split
  · exact only_perform (hpublish _)
  · exact only_pure ()

theorem escalate_only {c : Case} (hpublish : ∀ e, P (.publish e))
    (hput : ∀ item, item.tenant = c.tenant → P (.reviewPut item))
    (hrecord : ∀ e : SignOffEvent, e.findings = [] → P (.record (.signOff e)))
    (assessment : CaseAssessment) (routing : Routing) :
    (svc.escalate c assessment routing).Only P := by
  refine (emit_only hpublish _ c).bind (fun _ => ?_)
  split
  · exact only_pure ()
  · rename_i console _
    refine Only.bind (submit_only _ _ ?_ hrecord) (fun _ => only_pure ())
    intro item hitem
    exact hput item (congrArg Prod.fst hitem)

/-- Opening a case writes it first; what comes after schedules its timers and reports it. -/
theorem openCase_call {a : OpenArgs} {d : WorkflowDefinition}
    (hdefinition : svc.definitions.definition a.caseType = some d) (r : Readings) :
    ∃ next : Unit → Service Case,
      svc.openCase a r = .call (.casePut (CaseWorkflowService.opened a d r.now)) next ∧
        ∀ P : PortOp → Prop,
          (∀ clock due, P (.timerSchedule ⟨a.tenant, a.caseId, clock, due⟩)) →
          (∀ e, P (.publish e)) → (∀ e, P (.record (.caseAction e))) → (next ()).Only P := by
  simp only [CaseWorkflowService.openCase, CaseWorkflowService.definition, hdefinition]
  refine ⟨_, rfl, ?_⟩
  intro P hschedule hpublish hrecord
  change (svc.scheduleClocks (CaseWorkflowService.opened a d r.now) d _ >>= _ : Service Case).Only P
  refine (scheduleClocks_only hschedule).bind (fun _ => (emit_only hpublish _ _).bind (fun _ => ?_))
  exact (only_perform (hrecord _)).bind (fun _ => only_pure _)

variable (svc) in
/-- A transition loads one case, writes that case, and cancels and reports it. -/
theorem transitionCase_call (a : TransitionArgs) (r : Readings) :
    ∃ next : Option Case → Service Case,
      svc.transitionCase a r = .call (.caseGet a.tenant a.caseId) next ∧
        next none = .raise (.caseNotFound a.caseId) ∧
        ∀ c (P : PortOp → Prop),
          (∀ moved, moved.key = c.key → moved.caseType = c.caseType → P (.casePut moved)) →
          (∀ clock, P (.timerCancel c.tenant c.caseId clock)) → (∀ e, P (.publish e)) →
          (∀ e, P (.record (.caseAction e))) → (next (some c)).Only P := by
  refine ⟨_, rfl, rfl, ?_⟩
  intro c P hput hcancel hpublish hrecord
  change (svc.definition c.caseType >>= _ : Service Case).Only P
  refine (definition_only c.caseType).bind (fun d => ?_)
  rcases transition_cases c a.toState a.actor a.reason (a.asOf.getD r.now) d with
    ⟨-, h⟩ | ⟨-, h⟩
  · rw [h]
    exact (only_perform (hrecord _)).bind (fun _ => only_raise _)
  · rw [h]
    generalize hmoved : c.moved a.toState a.actor a.reason (a.asOf.getD r.now) = moved
    have hkey : moved.key = c.key := hmoved ▸ rfl
    have htype : moved.caseType = c.caseType := hmoved ▸ rfl
    refine (only_perform (hput moved hkey htype)).bind (fun _ => ?_)
    have hsettled : (svc.emit "case.transitioned" moved >>= fun _ =>
        svc.record moved "transition" a.actor c.state moved.state .allowed a.reason []
          r.timestamp >>= fun _ => pure moved).Only P :=
      (emit_only hpublish _ moved).bind (fun _ =>
        (only_perform (hrecord _)).bind (fun _ => only_pure moved))
    have hcancel' : ∀ clock, P (.timerCancel moved.tenant moved.caseId clock) := hmoved ▸ hcancel
    dsimp only
    split
    · exact (cancelClocks_only d hcancel').bind (fun _ => hsettled)
    · exact hsettled

variable (svc) in
/-- What an evaluation does once its assessment is recorded. -/
def CaseWorkflowService.handOver (c : Case) (assessment : CaseAssessment) (routing : Routing) :
    Service CaseAssessment := do
  if assessment.requiresHumanReview then
    svc.escalate c assessment routing
  pure assessment

variable (svc) in
/-- What an evaluation does with its assessment. -/
def CaseWorkflowService.reported (a : EvaluateArgs) (c : Case) (assessment : CaseAssessment)
    (r : Readings) (routing : Routing) : Service CaseAssessment := do
  port (.record (.caseAction (svc.evaluationEvent a c assessment r.timestamp)))
  svc.handOver c assessment routing

theorem evaluateCase_assessed {a : EvaluateArgs} {r : Readings} {c : Case} {d : WorkflowDefinition}
    {assessment : CaseAssessment} (hdefinition : svc.definitions.definition c.caseType = some d)
    (hassess : assess c d (a.asOf.getD r.now) svc.holidays = .ok assessment) (routing : Routing) :
    ∃ next : Option Case → Service CaseAssessment,
      svc.evaluateCase a r routing = .call (.caseGet a.tenant a.caseId) next ∧
        next (some c) = svc.reported a c assessment r routing := by
  refine ⟨_, rfl, ?_⟩
  change (svc.definition c.caseType >>= _ : Service CaseAssessment) = _
  have hbind (k : WorkflowDefinition → Service CaseAssessment) :
      svc.definition c.caseType >>= k = k d := by
    rw [CaseWorkflowService.definition, hdefinition]
    rfl
  rw [hbind, hassess]
  rfl

theorem emit_satisfies (eventType : String) (c : Case) :
    (svc.emit eventType c).Satisfies (fun _ => True) (fun x => x = .ok ()) := by
  unfold CaseWorkflowService.emit
  split
  · exact ⟨trivial, fun _ => rfl⟩
  · rfl

theorem escalate_satisfies (c : Case) (assessment : CaseAssessment) (routing : Routing) :
    (svc.escalate c assessment routing).Satisfies (fun _ => True) (fun x => x = .ok ()) := by
  refine Satisfies.bind ((emit_satisfies _ c).mono (fun _ h => h) ?_)
  rintro x rfl
  dsimp only
  split
  · rfl
  · exact ⟨trivial, fun _ => ⟨trivial, fun _ => rfl⟩⟩

theorem reported_satisfies (a : EvaluateArgs) (c : Case) (assessment : CaseAssessment)
    (r : Readings) (routing : Routing) : (svc.reported a c assessment r routing).Satisfies
      (fun _ => True) (fun x => x = .ok assessment) := by
  refine Satisfies.bind ⟨trivial, fun _ => ?_⟩
  unfold CaseWorkflowService.handOver
  split
  · refine Satisfies.bind ((escalate_satisfies c assessment routing).mono (fun _ h => h) ?_)
    rintro x rfl
    rfl
  · rfl

theorem handOver_only {c : Case} (hpublish : ∀ e, P (.publish e))
    (hput : ∀ item, item.tenant = c.tenant → P (.reviewPut item))
    (hrecord : ∀ e : SignOffEvent, e.findings = [] → P (.record (.signOff e)))
    (assessment : CaseAssessment) (routing : Routing) :
    (svc.handOver c assessment routing).Only P := by
  unfold CaseWorkflowService.handOver
  split
  · exact (escalate_only hpublish hput hrecord _ routing).bind (fun _ => only_pure _)
  · exact only_pure _

variable (svc) in
theorem evaluateCase_call (a : EvaluateArgs) (r : Readings) (routing : Routing) :
    ∃ next : Option Case → Service CaseAssessment,
      svc.evaluateCase a r routing = .call (.caseGet a.tenant a.caseId) next ∧
        next none = .raise (.caseNotFound a.caseId) ∧
        ∀ c (P : PortOp → Prop), (∀ e, P (.publish e)) → (∀ e, P (.record (.caseAction e))) →
          (∀ item, item.tenant = c.tenant → P (.reviewPut item)) →
          (∀ e : SignOffEvent, e.findings = [] → P (.record (.signOff e))) →
          (next (some c)).Only P := by
  refine ⟨_, rfl, rfl, ?_⟩
  intro c P hpublish hrecord hput hsign
  change (svc.definition c.caseType >>= _ : Service CaseAssessment).Only P
  refine (definition_only c.caseType).bind (fun d => ?_)
  split
  · exact only_raise _
  · exact (only_perform (hrecord _)).bind (fun _ => handOver_only hpublish hput hsign _ routing)

end
end ReviewConsole

import ReviewConsole.CaseRuns

/-!
# The case engine and its audit trail

A stored case has walked a legal path of its workflow, numbered without a gap, and the
allowed transition events of its trail tell the same path. Refused transitions and
evaluations change no case and no timer; each refusal leaves one event.
-/
namespace ReviewConsole
open GuardedRuns KeyedTables

/-- An opened case uses a case id its tenant has not used. -/
def FreshCase (w : World) (r : CaseRequest) : Prop :=
  match r.call with
  | .openCase a => w.getCase a.tenant a.caseId = none
  | _ => True

instance (w : World) (r : CaseRequest) : Decidable (FreshCase w r) := by
  unfold FreshCase
  match r.call with
  | .openCase a => dsimp only; infer_instance
  | .transitionCase _ | .evaluateCase _ _ | .get _ _ | .listCases _ => exact instDecidableTrue

/-- What a call does to one case and to its trail: nothing that concerns its transitions, or it
opens the case, refuses a transition of it, or makes one. -/
inductive CaseStep (svc : CaseWorkflowService) (r : CaseRequest) (w w' : World)
    (response : Except ServiceError CaseResponse) (tenant caseId : String) : Prop
  | quiet (es : List CaseAuditEvent)
      (hresponse : ∀ a, r.call = .transitionCase a → (a.tenant, a.caseId) = (tenant, caseId) →
        ∀ s t, response ≠ .error (.illegalTransition s t))
      (hget : w'.getCase tenant caseId = w.getCase tenant caseId)
      (htrail : w'.caseTrail tenant caseId = w.caseTrail tenant caseId ++ es)
      (hes : ∀ e ∈ es, e.action ≠ "transition" ∧ e.decision ≠ .rejected)
  | opened (a : OpenArgs) (d : WorkflowDefinition) (es : List CaseAuditEvent)
      (hcall : r.call = .openCase a) (hkey : (a.tenant, a.caseId) = (tenant, caseId))
      (hdefinition : svc.definitions.definition a.caseType = some d)
      (hget : w'.getCase tenant caseId = some (CaseWorkflowService.opened a d r.readings.now))
      (htrail : w'.caseTrail tenant caseId = w.caseTrail tenant caseId ++ es)
      (hes : ∀ e ∈ es, e.action ≠ "transition" ∧ e.decision ≠ .rejected)
  | refused (a : TransitionArgs) (c : Case) (d : WorkflowDefinition)
      (hcall : r.call = .transitionCase a) (hkey : (a.tenant, a.caseId) = (tenant, caseId))
      (hold : w.getCase tenant caseId = some c)
      (hdefinition : svc.definitions.definition c.caseType = some d)
      (hlegal : d.isLegal c.state a.toState = false)
      (hresponse : response = .error (.illegalTransition c.state a.toState))
      (hget : w'.getCase tenant caseId = some c)
      (htrail : w'.caseTrail tenant caseId =
        w.caseTrail tenant caseId ++ [svc.refusalEvent a c r.readings.timestamp])
  | moved (a : TransitionArgs) (c moved : Case) (d : WorkflowDefinition)
      (hcall : r.call = .transitionCase a) (hkey : (a.tenant, a.caseId) = (tenant, caseId))
      (hold : w.getCase tenant caseId = some c)
      (hdefinition : svc.definitions.definition c.caseType = some d)
      (hlegal : d.isLegal c.state a.toState = true)
      (hmoved : moved = CaseWorkflowService.advanced c a r.readings.now)
      (hresponse : response = .ok (.case moved))
      (hget : w'.getCase tenant caseId = some moved)
      (htrail : w'.caseTrail tenant caseId =
        w.caseTrail tenant caseId ++ [svc.transitionEvent a c moved r.readings.timestamp])

section
variable {svc : CaseWorkflowService} {r : CaseRequest} {w w' : World}
variable {response : Except ServiceError CaseResponse}

theorem CaseEffect.case_step (h : CaseEffect svc r w response w') (tenant caseId : String) :
    CaseStep svc r w w' response tenant caseId := by
  cases h with
  | untouched hidle hresponse hworld =>
    subst hworld
    exact .quiet [] (fun _ _ _ => hresponse) rfl (by simp) (by simp)
  | opened a d c timers hcall hdefinition hcase htimers hresponse hworld =>
    have hkey : c.key = (a.tenant, a.caseId) := by rw [hcase]; rfl
    have hcases : w'.cases = w.cases.upsert c := by simp [hworld]
    have hlog : w'.log = w.log ++ [.caseAction (svc.openEvent a c r.readings.timestamp)] := by
      simp [hworld]
    have hopen : ∀ e ∈ [svc.openEvent a c r.readings.timestamp],
        e.action ≠ "transition" ∧ e.decision ≠ .rejected := by
      simp [CaseWorkflowService.openEvent, CaseWorkflowService.auditEvent]
    rcases World.case_recorded hcases hlog rfl tenant caseId with
      ⟨hthis, hget, htrail⟩ | ⟨-, hget, htrail⟩
    · exact .opened a d _ hcall (hkey.symm.trans hthis) hdefinition (hcase ▸ hget) htrail hopen
    · exact .quiet [] (by simp [hresponse]) hget (by simp [htrail]) (by simp)
  | openedPartly a d c timers e hcall hdefinition hcase hbound htimers hresponse hworld =>
    have hkey : c.key = (a.tenant, a.caseId) := by rw [hcase]; rfl
    have hcases : w'.cases = w.cases.upsert c := by simp [hworld]
    have hget := World.getCase_of_upsert hcases tenant caseId
    have hlog : w'.log = w.log := by simp [hworld]
    have htrail := World.caseTrail_of_same hlog tenant caseId
    by_cases hthis : c.key = (tenant, caseId)
    · rw [if_pos hthis.symm, hcase] at hget
      exact .opened a d [] hcall (hkey.symm.trans hthis) hdefinition hget (by simp [htrail])
        (by simp)
    · rw [if_neg (Ne.symm hthis)] at hget
      exact .quiet [] (by simp [hresponse]) hget (by simp [htrail]) (by simp)
  | refused a c d hcall hold hdefinition hlegal hresponse hworld =>
    have hkey := World.key_of_getCase hold
    have hcases : w'.cases = w.cases := by simp [hworld]
    have hget := World.getCase_of_same hcases tenant caseId
    have hlog : w'.log = w.log ++ [.caseAction (svc.refusalEvent a c r.readings.timestamp)] := by
      simp [hworld]
    have htrail := World.caseTrail_of_log hlog tenant caseId
    change _ = _ ++ if c.key = (tenant, caseId) then _ else _ at htrail
    rw [hkey] at htrail
    by_cases hthis : (a.tenant, a.caseId) = (tenant, caseId)
    · rw [if_pos hthis] at htrail
      cases hthis
      exact .refused a c d hcall rfl hold hdefinition hlegal hresponse (hget.trans hold) htrail
    · rw [if_neg hthis] at htrail
      refine .quiet _ ?_ hget htrail (by simp)
      intro a' hcall' hkey'
      cases hcall.symm.trans hcall'
      exact absurd hkey' hthis
  | moved a c moved d hcall hold hdefinition hlegal hmoved hresponse hworld =>
    have hkey : moved.key = (a.tenant, a.caseId) := by
      rw [hmoved, ← World.key_of_getCase hold]
      rfl
    have hcases : w'.cases = w.cases.upsert moved := by
      rw [hworld, World.audited_cases, World.withEvent_cases]
      split <;> rfl
    have hlog : w'.log =
        w.log ++ [.caseAction (svc.transitionEvent a c moved r.readings.timestamp)] := by
      rw [hworld, World.audited_log, World.withEvent_log]
      split <;> rfl
    rcases World.case_recorded hcases hlog rfl tenant caseId with
      ⟨hthis, hget, htrail⟩ | ⟨-, hget, htrail⟩
    · rw [hkey] at hthis
      cases hthis
      exact .moved a c moved d hcall rfl hold hdefinition hlegal hmoved hresponse hget htrail
    · exact .quiet [] (by simp [hresponse]) hget (by simp [htrail]) (by simp)
  | evaluated a routing c d assessment reviews submitted hcall hold hdefinition hassess hrouted
      hresponse hworld =>
    have hcases : w'.cases = w.cases := by simp [hworld]
    have hget := World.getCase_of_same hcases tenant caseId
    generalize hevent : svc.evaluationEvent a c assessment r.readings.timestamp = e at hworld
    have htrail : w'.caseTrail tenant caseId = (w.audited e).caseTrail tenant caseId := by
      rcases routed_cases hrouted with ⟨-, -, hsubmitted⟩ | ⟨console, -, -, -, hsubmitted⟩
      · exact World.caseTrail_of_same (by simp [hworld, hsubmitted]) tenant caseId
      · have hlog : w'.log = (w.audited e).log ++ [.signOff (console.submitEvent
            (CaseWorkflowService.routedItem console c assessment routing)
            routing.readings.timestamp)] := by
          simp [hworld, hsubmitted]
        exact World.caseTrail_of_signOff hlog tenant caseId
    rw [World.caseTrail_of_log (World.audited_log w e)] at htrail
    refine .quiet _ (by simp [hresponse]) hget htrail ?_
    have hquiet : e.action ≠ "transition" ∧ e.decision ≠ .rejected := by
      rw [← hevent]
      simp only [CaseWorkflowService.evaluationEvent, CaseWorkflowService.auditEvent]
      split <;> simp
    split
    · simpa using hquiet
    · simp

end

/-- The from-state, to-state and actor of the allowed transition events. -/
def allowedMoves (trail : List CaseAuditEvent) : List (String × String × String) :=
  (trail.filter (fun e => e.action = "transition" ∧ e.decision = .allowed)).map
    (fun e => (e.fromState, e.toState, e.actor))

def refusals (trail : List CaseAuditEvent) : List CaseAuditEvent :=
  trail.filter (fun e => e.decision = .rejected)

/-- The from-state, to-state and actor of a history. -/
def recordedMoves (history : List Transition) : List (String × String × String) :=
  history.map (fun t => (t.fromState, t.toState, t.actor))

section
variable {trail es : List CaseAuditEvent}

private theorem filter_quiet {p : CaseAuditEvent → Bool} (hes : ∀ e ∈ es, p e = false) :
    (trail ++ es).filter p = trail.filter p := by
  have hnil : es.filter p = [] := by
    rw [List.filter_eq_nil_iff]
    exact fun e he => by simp [hes e he]
  rw [List.filter_append, hnil, List.append_nil]

theorem allowedMoves_quiet (hes : ∀ e ∈ es, e.action ≠ "transition" ∧ e.decision ≠ .rejected) :
    allowedMoves (trail ++ es) = allowedMoves trail := by
  rw [allowedMoves, filter_quiet (fun e he => by simp [(hes e he).1]), allowedMoves]

theorem refusals_quiet (hes : ∀ e ∈ es, e.action ≠ "transition" ∧ e.decision ≠ .rejected) :
    refusals (trail ++ es) = refusals trail := by
  rw [refusals, filter_quiet (fun e he => by simp [(hes e he).2]), refusals]

variable (svc : CaseWorkflowService) (a : TransitionArgs) (c moved : Case) (timestamp : DateTime)

theorem allowedMoves_refused :
    allowedMoves (trail ++ [svc.refusalEvent a c timestamp]) = allowedMoves trail := by
  simp [allowedMoves, CaseWorkflowService.refusalEvent, CaseWorkflowService.auditEvent]

theorem allowedMoves_moved : allowedMoves (trail ++ [svc.transitionEvent a c moved timestamp]) =
    allowedMoves trail ++ [(c.state, moved.state, a.actor)] := by
  simp [allowedMoves, CaseWorkflowService.transitionEvent, CaseWorkflowService.auditEvent]

theorem refusals_refused : refusals (trail ++ [svc.refusalEvent a c timestamp]) =
    refusals trail ++ [svc.refusalEvent a c timestamp] := by
  simp [refusals, CaseWorkflowService.refusalEvent, CaseWorkflowService.auditEvent]

theorem refusals_moved :
    refusals (trail ++ [svc.transitionEvent a c moved timestamp]) = refusals trail := by
  simp [refusals, CaseWorkflowService.transitionEvent, CaseWorkflowService.auditEvent]

end

/-- A stored case has walked a legal path of its workflow, and its trail tells that path; a
case that is not stored has no allowed transition on its trail. -/
structure CaseInStep (svc : CaseWorkflowService) (w : World) (tenant caseId : String) : Prop where
  absent : w.getCase tenant caseId = none → allowedMoves (w.caseTrail tenant caseId) = []
  path : ∀ c, w.getCase tenant caseId = some c → ∃ d,
    svc.definitions.definition c.caseType = some d ∧ LegalHistory d c.history c.state
  told : ∀ c, w.getCase tenant caseId = some c →
    allowedMoves (w.caseTrail tenant caseId) = recordedMoves c.history

section
variable {svc : CaseWorkflowService} {r : CaseRequest} {w w' : World} {tenant caseId : String}
variable {response : Except ServiceError CaseResponse}

/-- The step of the invariant. -/
theorem CaseInStep.step (h : CaseInStep svc w tenant caseId) (hfresh : FreshCase w r)
    (hstep : CaseStep svc r w w' response tenant caseId) : CaseInStep svc w' tenant caseId := by
  cases hstep with
  | quiet es hresponse hget htrail hes =>
    constructor
    · rw [hget, htrail, allowedMoves_quiet hes]
      exact h.absent
    · rw [hget]
      exact h.path
    · rw [hget, htrail, allowedMoves_quiet hes]
      exact h.told
  | opened a d es hcall hkey hdefinition hget htrail hes =>
    obtain ⟨rfl, rfl⟩ := Prod.mk.inj hkey
    have hnone : w.getCase a.tenant a.caseId = none := by simpa only [FreshCase, hcall] using hfresh
    constructor
    · simp [hget]
    · intro c hc
      cases hget.symm.trans hc
      refine ⟨d, ?_, .opened⟩
      change svc.definitions.definition d.caseType = some d
      rw [svc.definitions.keyed _ _ hdefinition]
      exact hdefinition
    · intro c hc
      cases hget.symm.trans hc
      rw [htrail, allowedMoves_quiet hes, h.absent hnone]
      rfl
  | refused a c d hcall hkey hold hdefinition hlegal hresponse hget htrail =>
    constructor
    · simp [hget]
    · rw [hget, ← hold]
      exact h.path
    · rw [hget, ← hold, htrail, allowedMoves_refused]
      exact h.told
  | moved a c moved d hcall hkey hold hdefinition hlegal hmoved hresponse hget htrail =>
    constructor
    · simp [hget]
    · intro c' hc'
      cases hget.symm.trans hc'
      obtain ⟨d', hd', hpath⟩ := h.path c hold
      cases hd'.symm.trans hdefinition
      subst hmoved
      exact ⟨d, hdefinition, hpath.case_moved hlegal _ _ _⟩
    · intro c' hc'
      cases hget.symm.trans hc'
      rw [htrail, allowedMoves_moved, h.told c hold, hmoved]
      simp [recordedMoves, CaseWorkflowService.advanced, Case.entry]

end

/-- The response of a transition that was refused as illegal. -/
def isRefusal : Except ServiceError CaseResponse → Bool
  | .error (.illegalTransition _ _) => true
  | _ => false

def transitionsOf (tenant caseId : String) (r : CaseRequest) : Bool :=
  match r.call with
  | .transitionCase a => (a.tenant, a.caseId) = (tenant, caseId)
  | _ => false

/-- A transition of this case that the engine refuses as illegal. -/
def refusesTransition (svc : CaseWorkflowService) (tenant caseId : String) (w : World)
    (r : CaseRequest) : Bool :=
  transitionsOf tenant caseId r && isRefusal (answerCase svc w r).1

section
variable {svc : CaseWorkflowService} {r : CaseRequest} {w w' : World} {tenant caseId : String}
variable {response : Except ServiceError CaseResponse}

theorem isRefusal_iff : isRefusal response = true ↔
    ∃ s t, response = .error (.illegalTransition s t) := by
  constructor
  · intro h
    simp only [isRefusal] at h
    split at h
    · exact ⟨_, _, rfl⟩
    · cases h
  · rintro ⟨s, t, rfl⟩
    rfl

theorem CaseStep.refusals (h : CaseStep svc r w w' response tenant caseId) :
    (refusals (w'.caseTrail tenant caseId)).length = (refusals (w.caseTrail tenant caseId)).length +
      (transitionsOf tenant caseId r && isRefusal response).toNat := by
  cases h with
  | quiet es hresponse hget htrail hes =>
    have hno : (transitionsOf tenant caseId r && isRefusal response) = false := by
      rw [Bool.and_eq_false_iff, or_iff_not_imp_left, Bool.not_eq_false]
      intro hthis
      simp only [transitionsOf] at hthis
      split at hthis
      · rename_i a hcall
        rw [← Bool.not_eq_true, isRefusal_iff]
        rintro ⟨s, t, hrefused⟩
        exact hresponse a hcall (of_decide_eq_true hthis) s t hrefused
      · cases hthis
    rw [htrail, refusals_quiet hes, hno]
    rfl
  | opened a d es hcall hkey hdefinition hget htrail hes =>
    rw [htrail, refusals_quiet hes]
    simp [transitionsOf, hcall]
  | refused a c d hcall hkey hold hdefinition hlegal hresponse hget htrail =>
    rw [htrail, refusals_refused, List.length_append, hresponse]
    simp [transitionsOf, hcall, hkey, isRefusal]
  | moved a c moved d hcall hkey hold hdefinition hlegal hmoved hresponse hget htrail =>
    rw [htrail, refusals_moved, hresponse]
    simp [isRefusal]

theorem CaseStep.history_grows (h : CaseStep svc r w w' response tenant caseId)
    (hfresh : FreshCase w r) {c : Case} (hold : w.getCase tenant caseId = some c) :
    ∃ c', w'.getCase tenant caseId = some c' ∧ c.history <+: c'.history := by
  cases h with
  | quiet es hresponse hget => exact ⟨c, hget.trans hold, List.prefix_refl _⟩
  | opened a d es hcall hkey =>
    obtain ⟨rfl, rfl⟩ := Prod.mk.inj hkey
    have hnone : w.getCase a.tenant a.caseId = none := by simpa only [FreshCase, hcall] using hfresh
    cases hnone.symm.trans hold
  | refused a c' d hcall hkey hold' hdefinition hlegal hresponse hget =>
    exact ⟨c, hget.trans (hold'.symm.trans hold), List.prefix_refl _⟩
  | moved a c' moved d hcall hkey hold' hdefinition hlegal hmoved hresponse hget =>
    cases hold'.symm.trans hold
    exact ⟨moved, hget, by rw [hmoved]; exact List.prefix_append _ _⟩

theorem CaseEffect.unchanged (h : CaseEffect svc r w response w')
    (hr : isRefusal response = true ∨ ∃ a routing, r.call = .evaluateCase a routing) :
    w'.cases = w.cases ∧ w'.timers = w.timers := by
  cases h with
  | untouched hidle hresponse hworld =>
    rw [hworld]
    exact ⟨rfl, rfl⟩
  | refused a c d hcall hold hdefinition hlegal hresponse hworld =>
    rw [hworld]
    exact ⟨rfl, rfl⟩
  | evaluated a routing c d assessment reviews submitted hcall hold hdefinition hassess hrouted
      hresponse hworld =>
    rw [hworld]
    exact ⟨rfl, rfl⟩
  | opened a d c timers hcall hdefinition hcase htimers hresponse =>
    rcases hr with hr | ⟨_, _, hr⟩
    · cases hresponse ▸ hr
    · cases hcall.symm.trans hr
  | openedPartly a d c timers e hcall hdefinition hcase hbound htimers hresponse =>
    rcases hr with hr | ⟨_, _, hr⟩
    · cases hresponse ▸ hr
    · cases hcall.symm.trans hr
  | moved a c moved d hcall hold hdefinition hlegal hmoved hresponse =>
    rcases hr with hr | ⟨_, _, hr⟩
    · cases hresponse ▸ hr
    · cases hcall.symm.trans hr

end

section
variable {svc : CaseWorkflowService} {rs : List CaseRequest}

theorem caseInStep_run (h : Along (serveCase svc) FreshCase World.empty rs)
    (tenant caseId : String) :
    CaseInStep svc (engineAfter svc rs) tenant caseId := by
  refine run_invariant (I := fun w => CaseInStep svc w tenant caseId) ?_ ?_ h
  · intro w r hw hfresh
    exact hw.step hfresh ((caseEffect svc w r).case_step tenant caseId)
  · have hnone : World.empty.getCase tenant caseId = none := rfl
    constructor
    · intro _
      rfl
    · intro c hc
      cases hnone.symm.trans hc
    · intro c hc
      cases hnone.symm.trans hc

/-- The refusals on a case's trail are as many as its refused transitions. -/
theorem refusals_run (svc : CaseWorkflowService) (rs : List CaseRequest) (tenant caseId : String) :
    (refusals ((engineAfter svc rs).caseTrail tenant caseId)).length =
      countAlong (serveCase svc) (refusesTransition svc tenant caseId) World.empty rs := by
  have hcount : (refusals ((engineAfter svc rs).caseTrail tenant caseId)).length =
      (refusals (World.empty.caseTrail tenant caseId)).length +
        countAlong (serveCase svc) (refusesTransition svc tenant caseId) World.empty rs :=
    count_run (fun w => (refusals (w.caseTrail tenant caseId)).length)
      (fun w r => ((caseEffect svc w r).case_step tenant caseId).refusals)
  have hempty : (refusals (World.empty.caseTrail tenant caseId)).length = 0 := rfl
  rw [hcount, hempty, Nat.zero_add]

end

/-- What a stored case and its audit trail tell of one another after a run. -/
structure HistoryTells (svc : CaseWorkflowService) (rs : List CaseRequest) (tenant caseId : String)
    (c : Case) (d : WorkflowDefinition) : Prop where
  seqs : c.history.map Transition.seq = List.range' 1 c.history.length
  linked : c.history.map Transition.fromState ++ [c.state] =
    d.initial :: c.history.map Transition.toState
  edges : ∀ t ∈ c.history, (t.fromState, t.toState) ∈ d.transitions
  moves : allowedMoves ((engineAfter svc rs).caseTrail tenant caseId) = recordedMoves c.history

/-- The state machine of the case engine and its audit trail agree over whole runs. -/
theorem state_machine_told_by_trail (svc : CaseWorkflowService) (rs : List CaseRequest)
    (hfresh : Along (serveCase svc) FreshCase World.empty rs) :
    (∀ tenant caseId c, (engineAfter svc rs).getCase tenant caseId = some c → ∃ d,
      svc.definitions.definition c.caseType = some d ∧ HistoryTells svc rs tenant caseId c d) ∧
    (∀ pre r post, rs = pre ++ r :: post →
      (∀ tenant caseId c, (engineAfter svc pre).getCase tenant caseId = some c → ∃ c',
        (engineAfter svc (pre ++ [r])).getCase tenant caseId = some c' ∧ c.history <+: c'.history) ∧
      (isRefusal (answerCase svc (engineAfter svc pre) r).1 = true ∨
          (∃ a routing, r.call = .evaluateCase a routing) →
        (engineAfter svc (pre ++ [r])).cases = (engineAfter svc pre).cases ∧
        (engineAfter svc (pre ++ [r])).timers = (engineAfter svc pre).timers)) ∧
    ∀ tenant caseId, (refusals ((engineAfter svc rs).caseTrail tenant caseId)).length =
      countAlong (serveCase svc) (refusesTransition svc tenant caseId) World.empty rs := by
  refine ⟨?_, ?_, refusals_run svc rs⟩
  · intro tenant caseId c hc
    have hstep := caseInStep_run hfresh tenant caseId
    obtain ⟨d, hd, hpath⟩ := hstep.path c hc
    exact ⟨d, hd, hpath.seqs, hpath.linked, hpath.edges, hstep.told c hc⟩
  · intro pre r post hrs
    rw [hrs] at hfresh
    have hr : FreshCase (engineAfter svc pre) r := (along_append.mp hfresh).2.1
    have heffect := caseEffect svc (engineAfter svc pre) r
    rw [engineAfter_snoc]
    constructor
    · intro tenant caseId c hc
      exact (heffect.case_step tenant caseId).history_grows hr hc
    · exact heffect.unchanged

/-- A complaint is reviewed, cannot be closed yet, is evaluated late, and is resolved. -/
def Demo.complaintRun : List CaseRequest :=
  [openCase "complaint", moveTo "under_review", moveTo "closed", evaluateAfter 30 "rev-1",
    moveTo "resolved"]

theorem demo_state_machine_told_by_trail : ∃ c,
    (engineAfter Demo.complaints Demo.complaintRun).getCase "demo-bank" "case-1" = some c ∧
    c.state = "resolved" ∧ ∃ d, Demo.complaints.definitions.definition c.caseType = some d ∧
      HistoryTells Demo.complaints Demo.complaintRun "demo-bank" "case-1" c d :=
  ⟨_, rfl, rfl, (state_machine_told_by_trail Demo.complaints Demo.complaintRun (by decide)).1
    "demo-bank" "case-1" _ rfl⟩

end ReviewConsole

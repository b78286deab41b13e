import Mathlib.Tactic.TFAE
import ReviewConsole.ServerCases
import ReviewConsole.WalkedGraphs

/-!
# The ways a case can take

A workflow lists its transitions, and requests move a case along them one at a time. Whoever asks,
and in whatever order, the states that a case is moved to make a walk of the workflow; and every
walk is open to any one principal of the tenant.
-/
namespace ReviewConsole
open PortPrograms GuardedRuns WalkedGraphs

def ApiRequest.Opens (r : ApiRequest) (id : String) : Prop :=
  ∃ request, r.call = .user (.openCase request) ∧ r.moment.uuid = id

def Case.visited (c : Case) : List String := c.history.map Transition.toState

/-- A case of the type stands in the state, and was moved to these states before. -/
def World.Stands (tenant id caseType : String) (w : World) (place : List String × String) : Prop :=
  ∃ c, w.getCase tenant id = some c ∧ c.caseType = caseType ∧ (c.visited, c.state) = place

def WorkflowDefinition.Edge (d : WorkflowDefinition) (fromState toState : String) : Prop :=
  d.isLegal fromState toState = true

theorem Case.visited_advanced (c : Case) (a : TransitionArgs) (now : DateTime) :
    (CaseWorkflowService.advanced c a now).visited = c.visited ++ [a.toState] := List.map_append

def ApiRequest.transition (headers : RequestHeaders) (m : Moment) (id toState : String) :
    ApiRequest :=
  ⟨headers, .user (.transitionCase id { toState }), m⟩

namespace ConsoleApi

variable {api : ConsoleApi} {w : World} {r : ApiRequest} {principal : Principal}
variable {headers : RequestHeaders} {tenant id : String} {c : Case} {d : WorkflowDefinition}

theorem serviceCall_openCase {svc : CaseWorkflowService} {call : CaseRequest} {a : OpenArgs}
    (h : api.serviceCall r = some (.engine svc call)) (ha : call.call = .openCase a) :
    r.Opens a.caseId := by
  rcases serviceCall_cases h with ⟨user, principal, hcall, hprincipal, h⟩ | ⟨request, -, -, h⟩
  · cases user with
    | openCase request =>
      simp only [userServiceCall] at h
      split at h
      · cases h
      · cases h
        cases ha
        exact ⟨request, hcall, rfl⟩
    | _ => cases h <;> cases ha
  · cases h

/-- A case that no request opens anew stays where it is, or is moved along its workflow. -/
theorem stands_step (hdefinition : api.definitions.definition d.caseType = some d)
    (hopens : ¬ r.Opens id) {place : List String × String}
    (h : w.Stands tenant id d.caseType place) :
    (api.serve w r).Stands tenant id d.caseType place ∨
      ∃ place', Logged d.Edge place place' ∧
        (api.serve w r).Stands tenant id d.caseType place' := by
  obtain ⟨c, hget, htype, rfl⟩ := h
  have hquiet (hsame : (api.serve w r).getCase tenant id = w.getCase tenant id) :
      (api.serve w r).Stands tenant id d.caseType (c.visited, c.state) :=
    ⟨c, hsame.trans hget, htype, rfl⟩
  rcases Server.getCase_step ⟨true, true⟩ ⟨api, w⟩ r with hsame | ⟨call, hcall, hworld⟩
  · exact Or.inl (hquiet (hsame tenant id))
  · have hworld' : api.serve w r = serveCase api.caseService w call := hworld
    have hstep := (caseEffect api.caseService w call).case_step tenant id
    rw [← serveCase, ← hworld'] at hstep
    cases hstep with
    | quiet es hresponse hsame => exact Or.inl (hquiet hsame)
    | opened a d' es hopen hkey =>
      have hid : a.caseId = id := congrArg Prod.snd hkey
      have hopened : r.Opens a.caseId := serviceCall_openCase hcall hopen
      rw [hid] at hopened
      exact absurd hopened hopens
    | refused a c' d' htransition hkey hold hdefinition' hlegal hresponse hleft =>
      exact Or.inl (hquiet (hleft.trans hold.symm))
    | moved a c' moved d' htransition hkey hold hdefinition' hlegal hmoved hresponse hleft =>
      cases hold.symm.trans hget
      have hsame : some d' = some d := by
        rw [← hdefinition, ← htype]
        exact hdefinition'.symm
      cases hsame
      right
      refine ⟨(c.visited ++ [a.toState], a.toState), ⟨hlegal, rfl⟩, moved, hleft, ?_, ?_⟩
      · rw [hmoved]
        exact htype
      · rw [hmoved, Case.visited_advanced]
        rfl

theorem stands_transition (hdefinition : api.definitions.definition d.caseType = some d)
    (hprincipal : api.getPrincipal headers = .ok principal) (m : Moment)
    {place place' : List String × String} (h : w.Stands principal.tenant id d.caseType place)
    (hedge : Logged d.Edge place place') :
    (api.serve w (.transition headers m id place'.2)).Stands principal.tenant id d.caseType
      place' := by
  obtain ⟨c, hget, htype, rfl⟩ := h
  obtain ⟨visited, toState⟩ := place'
  obtain ⟨hlegal, hlog⟩ := hedge
  change visited = c.visited ++ [toState] at hlog
  subst hlog
  have hdefinition' : api.definitions.definition c.caseType = some d := by
    rw [htype]
    exact hdefinition
  have hservice : api.serviceCall (.transition headers m id toState) =
      some (.engine api.caseService ⟨.transitionCase (TransitionRequest.args { toState } id
        principal.tenant (api.actor principal)), m.readings⟩) := by
    simp only [serviceCall, ApiRequest.transition, hprincipal, userServiceCall]
  have hworld : api.serve w (.transition headers m id toState) =
      serveCase api.caseService w ⟨.transitionCase (TransitionRequest.args { toState } id
        principal.tenant (api.actor principal)), m.readings⟩ := by
    rw [serve, handle_world, hservice, called, ServiceCall.engine_world]
  have heffect := caseEffect api.caseService w ⟨.transitionCase (TransitionRequest.args
    { toState } id principal.tenant (api.actor principal)), m.readings⟩
  rw [← serveCase, ← hworld] at heffect
  cases heffect with
  | untouched hidle =>
    have hnone : api.definitions.definition c.caseType = none := hidle c hget
    cases hdefinition'.symm.trans hnone
  | opened a d' c' timers hcall => cases hcall
  | openedPartly a d' c' timers e hcall => cases hcall
  | refused a c' d' hcall hget' hdefinition'' hrefused =>
    cases hcall
    cases hget'.symm.trans hget
    cases hdefinition''.symm.trans hdefinition'
    cases hrefused.symm.trans hlegal
  | moved a c' moved d' hcall hget' hdefinition'' hlegal' hmoved hanswer hleft =>
    cases hcall
    cases hget'.symm.trans hget
    have hcases : (api.serve w (.transition headers m id toState)).cases =
        w.cases.upsert moved := by
      rw [hleft, World.audited_cases, World.withEvent_cases]
      split <;> rfl
    have hkey : moved.key = (principal.tenant, id) := by
      rw [hmoved, ← World.key_of_getCase hget]
      rfl
    refine ⟨moved, ?_, ?_, ?_⟩
    · rw [World.getCase_of_upsert hcases, if_pos hkey.symm]
    · rw [hmoved]
      exact htype
    · rw [hmoved, Case.visited_advanced]
      rfl
  | evaluated a routing c' d' assessment reviews submitted hcall => cases hcall

end ConsoleApi

section
variable {api : ConsoleApi} {w : World} {headers : RequestHeaders} {principal : Principal}
variable {id : String} {c : Case} {d : WorkflowDefinition}

/-- From any state that has the case, these say the same of a list of states: it is a walk of the
workflow from the state the case is in; requests of any kind and order, none of which opens the
case anew, can move the case through it; and one principal of the tenant can, by transition
requests alone. -/
theorem case_walks_its_workflow (hget : w.getCase principal.tenant id = some c)
    (hdefinition : api.definitions.definition c.caseType = some d)
    (hprincipal : api.getPrincipal headers = .ok principal) (m : Moment) (path : List String) :
    [List.IsChain d.Edge (c.state :: path),
      ∃ state, Reaches api.serve (World.Stands principal.tenant id c.caseType)
        (fun r => ¬ r.Opens id) w (c.visited ++ path, state),
      ∃ state, Reaches api.serve (World.Stands principal.tenant id c.caseType)
        (fun r => ∃ toState, r = .transition headers m id toState) w
        (c.visited ++ path, state)].TFAE := by
  have htype : d.caseType = c.caseType := api.definitions.keyed _ _ hdefinition
  rw [← htype] at hdefinition ⊢
  have hs : w.Stands principal.tenant id d.caseType (c.visited, c.state) :=
    ⟨c, hget, htype.symm, rfl⟩
  tfae_have 1 → 3 := by
    intro hwalk
    obtain ⟨state, hreach⟩ := logged_of_walk hwalk
    refine ⟨state, run_of_reachable ?_ hs hreach⟩
    intro s place place' h hedge
    exact ⟨.transition headers m id place'.2, ⟨place'.2, rfl⟩,
      ConsoleApi.stands_transition hdefinition hprincipal m h hedge⟩
  tfae_have 3 → 2 := by
    intro h
    obtain ⟨state, rs, hrs, hrun⟩ := h
    refine ⟨state, rs, ?_, hrun⟩
    intro r hr hopens
    obtain ⟨toState, rfl⟩ := hrs r hr
    obtain ⟨request, hcall, -⟩ := hopens
    cases hcall
  tfae_have 2 → 1 := by
    intro h
    obtain ⟨state, rs, hrs, hrun⟩ := h
    obtain ⟨place, hstands, hreach⟩ := reachable_of_run
      (fun w r place hr hstands => ConsoleApi.stands_step hdefinition hr hstands) hs hrs
    obtain ⟨walk, hlog, hwalk, -⟩ := walk_of_logged hreach
    obtain ⟨c', hget', -, hplace⟩ := hrun
    obtain ⟨c'', hget'', -, rfl⟩ := hstands
    cases hget'.symm.trans hget''
    have hvisited : c'.visited = c.visited ++ path := congrArg Prod.fst hplace
    have hsame : path = walk := List.append_cancel_left (hvisited.symm.trans hlog)
    rw [hsame]
    exact hwalk
  tfae_finish

end

/-- The complaint that the analyst opened can be escalated twice before it is resolved, by the
approver alone. -/
theorem demo_case_walks_its_workflow :
    ∃ state, Reaches Demo.api.serve (World.Stands "demo-bank" "case-1" "complaint")
      (fun r => ∃ toState, r = .transition [("x-dev-persona", "approver")] (Demo.moment "" "")
        "case-1" toState)
      (Demo.api.serve World.empty Demo.askOpen)
      (["under_review", "escalated", "under_review", "escalated", "resolved", "closed"],
        state) := by
  have hprincipal := Eq.refl (Demo.api.getPrincipal [("x-dev-persona", "approver")])
  have hget : (Demo.api.serve World.empty Demo.askOpen).getCase "demo-bank" "case-1" = some _ := rfl
  have htfae := case_walks_its_workflow hget rfl hprincipal (Demo.moment "" "")
    ["under_review", "escalated", "under_review", "escalated", "resolved", "closed"]
  have hwalk : List.IsChain
      (fun fromState toState => Demo.complaint.isLegal fromState toState = true)
      ["received", "under_review", "escalated", "under_review", "escalated", "resolved",
        "closed"] := by decide
  exact (htfae.out 0 2).mp hwalk

end ReviewConsole

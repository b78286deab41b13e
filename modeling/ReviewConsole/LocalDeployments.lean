import ReviewConsole.DeployedPostures
import ReviewConsole.ServerMakers
import ReviewConsole.ServerSignOffs
import ReviewConsole.SignOffQuorums

/-!
# What a local deployment can sign off

A deployment whose profile is local keeps its stores beside the process and knows five personas. So
it can be counted which reviews it is able to approve, and told who approved the others.
-/
namespace ReviewConsole
open PortPrograms GuardedRuns Ballots

/-- What a deployment is made of next to its environment: the libraries, the policy document that
it reads, and the registry of its workflows. -/
structure Host where
  py : Python
  kit : IdentityKit
  corsAllowlist : String → EnvSetting → Except SettingError (List String)
  authenticate : String → RequestHeaders → Except HttpException Unit
  policy : RoutingPolicy
  redact : String → String
  definitions : WorkflowRegistry
  actor : Principal → String

/-- A process that has started, and whose settings were loaded. -/
structure Deployment (host : Host) (env : Environment) where
  app : StartedApp
  settings : Settings
  started : startApp host.py env host.corsAllowlist = .ok app
  loaded : Settings.load (reprText host.py) env = .ok settings

namespace Deployment

variable {host : Host} {env : Environment} (deployment : Deployment host env)

def api : ConsoleApi where
  console := { engine := ⟨host.policy⟩, redact := host.redact }
  definitions := host.definitions
  identity := (bindIdentity host.py host.kit deployment.settings).map BoundAdapter.resolve
  serviceCaller := requireServiceCaller host.py {
    choice := deployment.app.choice
    callers := deployment.app.callers
    identity := (bindIdentity host.py host.kit deployment.settings).map BoundAdapter.identity
    authenticate := host.authenticate }
  actor := host.actor
  repr := reprText host.py

variable {deployment} {headers : RequestHeaders} {principal : Principal}

theorem getPrincipal_iff : deployment.api.getPrincipal headers = .ok principal ↔
    Resolves host.py host.kit deployment.settings headers principal := by
  simp only [ConsoleApi.getPrincipal, api, Resolves]
  cases bindIdentity host.py host.kit deployment.settings with
  | error fault => simp [Except.map]
  | ok adapter =>
    simp only [Except.map, Except.ok.injEq, exists_eq_left']
    cases adapter.resolve headers with
    | error fault => simp
    | ok found => simp

/-- The settings have the profile that the process started with. -/
theorem choice_eq (deployment : Deployment host env) : deployment.app.choice =
    ⟨deployment.settings.profile, deployment.settings.profileExplicit⟩ :=
  Except.ok.inj ((startApp_ok deployment.started).1.symm.trans
    (resolveProfile_of_load deployment.loaded))

theorem persona_of_getPrincipal (hlocal : deployment.app.choice.profile = "local")
    (h : deployment.api.getPrincipal headers = .ok principal) :
    deployment.app.choice.explicit = true ∧ principal ∈ seededPersonas := by
  rw [choice_eq] at hlocal ⊢
  rcases resolves_cases (getPrincipal_iff.mp h) with ⟨-, hexplicit, hpersona⟩ | ⟨hedge, -⟩
  · exact ⟨hexplicit, hpersona⟩
  · rw [show deployment.settings.profile = "local" from hlocal] at hedge
    exact absurd hedge local_not_mem_iapEdgeProfiles

theorem getPrincipal_of_resolvePersona (hchoice : deployment.app.choice = ⟨"local", true⟩)
    (h : host.kit.resolvePersona seededPersonas (loweredKeys host.py headers) = .ok principal) :
    deployment.api.getPrincipal headers = .ok principal := by
  rw [getPrincipal_iff]
  obtain ⟨hprofile, hexplicit⟩ := ProfileChoice.mk.inj (deployment.choice_eq.symm.trans hchoice)
  have hnone : localIdentityRefusal host.py deployment.settings = none :=
    localIdentityRefusal_eq_none.mpr ⟨hprofile, hexplicit⟩
  rcases identityAdapterClass_cases deployment.settings with ⟨-, hclass⟩ | ⟨hedge, -⟩ | ⟨honprem, -⟩
  · have hbind : ∃ adapter, bindIdentity host.py host.kit deployment.settings = .ok adapter ∧
        adapter.resolve headers = (host.kit.resolvePersona seededPersonas
          (loweredKeys host.py headers)).mapError .identityError := by
      rw [bindIdentity, hclass]
      simp only [hnone]
      exact ⟨_, rfl, rfl⟩
    obtain ⟨adapter, hadapter, hresolve⟩ := hbind
    rw [h] at hresolve
    exact ⟨adapter, hadapter, hresolve⟩
  · rw [hprofile] at hedge
    exact absurd hedge local_not_mem_iapEdgeProfiles
  · rw [hprofile] at honprem
    exact absurd honprem (by decide)

end Deployment

def localCheckers (engine : MakerCheckerService) (item : ReviewItem) : List Principal :=
  seededPersonas.filter
    (fun p => engine.checkEligibility item p.subject p.tenant p.principals = [])

theorem subjects_nodup : (seededPersonas.map Principal.subject).Nodup := by decide

theorem localCheckers_nodup (engine : MakerCheckerService) (item : ReviewItem) :
    ((localCheckers engine item).map Principal.subject).Nodup := by
  apply List.Nodup.sublist _ subjects_nodup
  exact List.filter_sublist.map _

section
variable {host : Host} {env : Environment} {deployment : Deployment host env} {item : ReviewItem}

theorem mem_localCheckers {engine : MakerCheckerService} {p : Principal} :
    p ∈ localCheckers engine item ↔ p ∈ seededPersonas ∧
      MakerCheckerService.Eligible engine item.unsigned p.subject p.tenant p.principals ∧
        p.subject ∉ item.approvers := by
  have heligible := @MakerCheckerService.eligible_iff_unsigned engine item item p.subject p.tenant
    p.principals rfl rfl rfl
  rw [localCheckers, List.mem_filter, decide_eq_true_eq,
    MakerCheckerService.checkEligibility_eq_nil, heligible]

/-- Whom the ballot of an item admits in a local deployment, and who has not voted. -/
theorem admits_iff_localChecker (hchoice : deployment.app.choice = ⟨"local", true⟩)
    (hpicks : ∀ p ∈ seededPersonas, ∃ headers,
      host.kit.resolvePersona seededPersonas (loweredKeys host.py headers) = .ok p)
    (hactor : ∀ p ∈ seededPersonas, host.actor p = p.subject) {checker : String} :
    deployment.api.Admits item checker ∧ checker ∉ item.approvers ↔
      checker ∈ (localCheckers deployment.api.console.engine item).map Principal.subject := by
  have hlocal : deployment.app.choice.profile = "local" := by rw [hchoice]
  rw [List.mem_map]
  constructor
  · intro h
    obtain ⟨⟨headers, p, hprincipal, rfl, heligible⟩, hnew⟩ := h
    obtain ⟨-, hpersona⟩ := Deployment.persona_of_getPrincipal hlocal hprincipal
    have hsubject : deployment.api.actor p = p.subject := hactor p hpersona
    rw [hsubject] at heligible hnew ⊢
    exact ⟨p, mem_localCheckers.mpr ⟨hpersona, heligible, hnew⟩, rfl⟩
  · intro h
    obtain ⟨p, hp, rfl⟩ := h
    obtain ⟨hpersona, heligible, hnew⟩ := mem_localCheckers.mp hp
    obtain ⟨headers, hpick⟩ := hpicks p hpersona
    exact ⟨⟨headers, p, Deployment.getPrincipal_of_resolvePersona hchoice hpick, hactor p hpersona,
      heligible⟩, hnew⟩

/-- A local deployment that was chosen, whose personas can each be picked, can approve a pending
review, by any requests none of which gives its id to another, exactly when at least one persona
may approve it and there are as many of them as it still needs. -/
theorem local_approvable_iff (deployment : Deployment host env)
    (hchoice : deployment.app.choice = ⟨"local", true⟩)
    (hpicks : ∀ p ∈ seededPersonas, ∃ headers,
      host.kit.resolvePersona seededPersonas (loweredKeys host.py headers) = .ok p)
    (hactor : ∀ p ∈ seededPersonas, host.actor p = p.subject) (m : Moment) {w : World}
    (hget : w.reviews.get item.tenant item.reviewId = some item)
    (hpending : item.state = .pending) :
    (∃ rs approved, (∀ r ∈ rs, ¬ ApiRequest.Draws r item.reviewId) ∧
        (run deployment.api.serve w rs).reviews.get item.tenant item.reviewId = some approved ∧
        approved.state = .approved) ↔
      0 < (localCheckers deployment.api.console.engine item).length ∧
        deployment.api.console.engine.requiredApprovals item ≤
          item.approvals.length + (localCheckers deployment.api.console.engine item).length := by
  rw [approved_iff_passes m hget hpending, passes_iff,
    enough_iff_list (localCheckers_nodup _ _)
      (fun checker => admits_iff_localChecker hchoice hpicks hactor)]
  simp only [List.length_map, ReviewItem.approvers]

end

def IsLocal (api : ConsoleApi) : Prop :=
  ∃ (host : Host) (env : Environment) (deployment : Deployment host env),
    deployment.app.choice.profile = "local" ∧ api = deployment.api

/-- The principal is a seeded persona, and the deployment in force one whose profile was chosen. -/
structure ChosenPersona (s : Server) (p : Principal) : Prop where
  persona : p ∈ seededPersonas
  chosen : ∃ (host : Host) (env : Environment) (deployment : Deployment host env),
    deployment.app.choice = ⟨"local", true⟩ ∧ s.api = deployment.api

section
variable {disk : Disk} {api : ConsoleApi} {es : List ServerEvent}

theorem isLocal_after (hapi : IsLocal api) (hes : ∀ api', .restart api' ∈ es → IsLocal api') :
    IsLocal (Server.after disk api es).api := by
  induction es using List.reverseRecOn with
  | nil => exact hapi
  | append_singleton es event ih =>
    have hbefore : IsLocal (Server.after disk api es).api :=
      ih (fun api' h => hes api' (List.mem_append_left _ h))
    rw [Server.after, run_snoc]
    cases event with
    | request r => exact hbefore
    | restart api' => exact hes api' (List.mem_append_right _ (List.mem_singleton_self _))

theorem chosenPersona_of_getPrincipal (hapi : IsLocal api)
    (hes : ∀ api', .restart api' ∈ es → IsLocal api') {before after : List ServerEvent}
    {r : ApiRequest} (hsplit : es = before ++ .request r :: after) {p : Principal}
    (hverified : (Server.after disk api before).api.getPrincipal r.headers = .ok p) :
    ChosenPersona (Server.after disk api before) p := by
  have hlocal : IsLocal (Server.after disk api before).api := by
    apply isLocal_after hapi
    intro api' h
    apply hes
    rw [hsplit]
    exact List.mem_append_left _ h
  obtain ⟨host, env, deployment, hprofile, hsame⟩ := hlocal
  rw [hsame] at hverified
  obtain ⟨hexplicit, hpersona⟩ := Deployment.persona_of_getPrincipal hprofile hverified
  exact ⟨hpersona, host, env, deployment, congrArg₂ ProfileChoice.mk hprofile hexplicit, hsame⟩

/-- With the review table on disk, in every state that is reached through any requests to local
deployments and any restarts into others, whatever their policies and workflows: each approval of
a review was given, and each transition of a case made, by a request of the run as a seeded
persona, while the profile was chosen. -/
theorem local_deployments_account_for_actors (hreviews : disk.reviews = true)
    (hapi : IsLocal api) (hes : ∀ api', .restart api' ∈ es → IsLocal api') :
    (∀ item ∈ (Server.after disk api es).world.reviews.table.rows, ∀ approval ∈ item.approvals,
      ∃ before r after p, es = before ++ .request r :: after ∧
        SignedBy (Server.after disk api before) r p item approval ∧
        ChosenPersona (Server.after disk api before) p) ∧
    ∀ c ∈ (Server.after disk api es).world.cases.rows, ∀ t ∈ c.history,
      ∃ before r after p, es = before ++ .request r :: after ∧
        MovedBy (Server.after disk api before) r p c t ∧
        ChosenPersona (Server.after disk api before) p := by
  constructor
  · intro item hitem approval happroval
    have hget := LocalReviewStore.get_of_mem hitem
    rw [(Server.after_queue hreviews api es).reviews] at hget
    have hsigned := signedOff_run _ hget
    obtain ⟨before, r, after, p, hsplit, hby⟩ :=
      signedBy_of_givenIn hreviews (hsigned.given approval happroval)
    exact ⟨before, r, after, p, hsplit, hby,
      chosenPersona_of_getPrincipal hapi hes hsplit hby.verified⟩
  · intro c hc t ht
    obtain ⟨before, r, after, p, hsplit, hby⟩ :=
      movedIn_run disk api es (KeyedTables.KeyedTable.find?_of_mem hc) t ht
    exact ⟨before, r, after, p, hsplit, hby,
      chosenPersona_of_getPrincipal hapi hes hsplit hby.verified⟩

end

namespace Demo

def localEnvironment : Environment := fun name =>
  if name = "REVIEW_PROFILE" then some "local" else none

def host : Host where
  py := python
  kit := identityKit
  corsAllowlist := fun _ _ => .ok []
  authenticate := fun _ _ => .ok ()
  policy := defaultRouting
  redact := id
  definitions := .single complaint
  actor := Principal.subject

def localApp : StartedApp where
  choice := ⟨"local", true⟩
  callers := ∅
  frameAncestors := "'self'"
  corsOrigins := []
  endUserAuthenticated := false
  bindProfile := "local"

theorem localProfile_mem : "local" ∈ runtimeProfiles := by decide

def localSettings : Settings where
  profile := "local"
  profileExplicit := true
  region := defaultRegion
  reviewDbPath := "review-console.sqlite3"
  auditPath := ":memory:"
  auditAnchorPath := ""
  policyPath := "config/policy.json"
  iapAudience := ""
  iapEntitlementsJson := ""
  profile_mem := localProfile_mem
  region_mem := edgeRegion_mem

theorem localApp_started : startApp host.py localEnvironment host.corsAllowlist = .ok localApp :=
  rfl

theorem localSettings_loaded :
    Settings.load (reprText host.py) localEnvironment = .ok localSettings := rfl

def deployment : Deployment host localEnvironment :=
  ⟨localApp, localSettings, localApp_started, localSettings_loaded⟩

/-- A transfer of high severity. -/
def transferBy (maker : String) : ReviewItem :=
  console.newItem {
    reviewId := "rev-2"
    maker
    tenant := "demo-bank"
    action := "transfer"
    subject := "Acme (FICTIONAL)"
    summary := "transfer funds"
    severity := .high } noon

def askTransferAs (persona : String) : ApiRequest :=
  { askTransfer with headers := [("X-Dev-Persona", persona)] }

theorem personas_picked : ∀ p ∈ seededPersonas, ∃ headers,
    host.kit.resolvePersona seededPersonas (loweredKeys host.py headers) = .ok p := by
  simp only [seededPersonas, List.forall_mem_cons]
  refine ⟨?_, ?_, ?_, ?_, ?_, by simp⟩
  · exact ⟨[("X-Dev-Persona", "analyst")], rfl⟩
  · exact ⟨[("X-Dev-Persona", "approver")], rfl⟩
  · exact ⟨[("X-Dev-Persona", "second-approver")], rfl⟩
  · exact ⟨[("X-Dev-Persona", "auditor")], rfl⟩
  · exact ⟨[("X-Dev-Persona", "other-tenant")], rfl⟩

end Demo

/-- The transfer that the analyst submits can be approved. The one that an approver submits cannot,
since one approver is left for the two approvals it needs. -/
theorem demo_local_approvable_iff :
    (∃ rs approved, (∀ r ∈ rs, ¬ ApiRequest.Draws r "rev-2") ∧
      (run Demo.deployment.api.serve (Demo.deployment.api.serve World.empty
        (Demo.askTransferAs "analyst")) rs).reviews.get "demo-bank" "rev-2" = some approved ∧
      approved.state = .approved) ∧
    ¬ ∃ rs approved, (∀ r ∈ rs, ¬ ApiRequest.Draws r "rev-2") ∧
      (run Demo.deployment.api.serve (Demo.deployment.api.serve World.empty
        (Demo.askTransferAs "approver")) rs).reviews.get "demo-bank" "rev-2" = some approved ∧
      approved.state = .approved := by
  have hiff {item : ReviewItem} {persona : String} :=
    @local_approvable_iff _ _ item Demo.deployment rfl Demo.personas_picked (fun _ _ => rfl)
      (Demo.moment "" "") (Demo.deployment.api.serve World.empty (Demo.askTransferAs persona))
  constructor
  · have hanalyst := @hiff (Demo.transferBy "demo.analyst@bank.example") "analyst" rfl rfl
    exact hanalyst.mpr (by decide)
  · have happrover := @hiff (Demo.transferBy "demo.approver@bank.example") "approver" rfl rfl
    exact fun h => absurd (happrover.mp h) (by decide)

namespace Demo

def localNight : List ServerEvent :=
  [.request ⟨[("X-Dev-Persona", "analyst")], .user (.submitReview {
      action := "disburse"
      subject := "Acme (FICTIONAL)"
      summary := "disburse facility"
      ge := singleApproval_ge
      le := singleApproval_le }), moment "rev-1" ""⟩,
    .restart deployment.api,
    .request ⟨[("X-Dev-Persona", "second-approver")],
      .user (.decideReview "rev-1" { disposition := .approve, reason := "ok" }), moment "" ""⟩]

theorem deployment_isLocal : IsLocal deployment.api := ⟨_, _, deployment, rfl, rfl⟩

end Demo

/-- The approval of the facility is that of the second approver. -/
theorem demo_local_deployments_account_for_actors :
    ∃ item ∈
        (Server.after ⟨true, false⟩ Demo.deployment.api Demo.localNight).world.reviews.table.rows,
      item.state = .approved ∧ ∀ approval ∈ item.approvals,
        ∃ before r after p, Demo.localNight = before ++ .request r :: after ∧
          SignedBy (Server.after ⟨true, false⟩ Demo.deployment.api before) r p item approval ∧
          ChosenPersona (Server.after ⟨true, false⟩ Demo.deployment.api before) p := by
  have hes : ∀ api', .restart api' ∈ Demo.localNight → IsLocal api' := by
    intro api' h
    simp only [Demo.localNight, List.mem_cons, reduceCtorEq, false_or, List.not_mem_nil, or_false,
      ServerEvent.restart.injEq] at h
    rw [h]
    exact Demo.deployment_isLocal
  have haccount := @local_deployments_account_for_actors ⟨true, false⟩ _ _ rfl
    Demo.deployment_isLocal hes
  refine ⟨_, List.Mem.head _, rfl, ?_⟩
  exact haccount.1 _ (List.Mem.head _)

end ReviewConsole

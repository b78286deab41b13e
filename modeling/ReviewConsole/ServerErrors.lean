import ReviewConsole.ApiResponses
import ReviewConsole.ServerRuns

/-!
# Requests that end in an internal error

Whatever the services refuse the routes turn into a response, with three exceptions: an
idempotent submission under a used id, and a clock without a due date when a case is opened or
evaluated.
-/
namespace ReviewConsole
open PortPrograms GuardedRuns

/-- No route has turned the exception into a response. -/
def ApiResponse.isInternal : ApiResponse → Bool
  | .raised _ | .keyError _ => true
  | .reply _ _ | .refusal _ => false

/-- The call of a user, made at `now`, that ends in an internal error: it opens or evaluates a case
of which a started clock has no due date. -/
def UserCall.Fails (s : Server) (principal : Principal) (now : DateTime) : UserCall → Prop
  | .openCase request => ∃ d, s.api.definitions.definition request.caseType = some d ∧
      ∃ spec ∈ d.openingClocks, ¬ spec.HasDue now ∅
  | .evaluateCase caseId => ∃ c d, s.world.getCase principal.tenant caseId = some c ∧
      s.api.definitions.definition c.caseType = some d ∧
      ∃ spec ∈ d.clocks, ∃ anchor, c.firstEntered spec.startState d.initial = some anchor ∧
        ¬ spec.HasDue anchor ∅
  | _ => False

/-- The request that ends in an internal error. A service's does when its source key is new and
the review id drawn for it is not. -/
def ApiRequest.Fails (s : Server) (r : ApiRequest) : Prop :=
  match r.call with
  | .user call => ∃ principal, s.api.getPrincipal r.headers = .ok principal ∧
      call.Fails s principal r.moment.readings.now
  | .submitReviewService request => s.api.serviceCaller r.headers = .ok () ∧
      request.sourceKey ≠ "" ∧
      s.world.reviews.findBySourceKey request.tenant request.sourceKey = none ∧
      (s.world.reviews.get request.tenant r.moment.uuid).isSome

/-- The registry in force has the workflow of every stored case. -/
def Server.Registered (s : Server) : Prop :=
  ∀ tenant id c, s.world.getCase tenant id = some c →
    ∃ d, s.api.definitions.definition c.caseType = some d

section
variable {disk : Disk} {s : Server}

theorem Server.Registered.step (h : s.Registered) (event : ServerEvent) :
    (Server.step disk s event).Registered := by
  cases event with
  | restart api =>
    intro tenant id c hget
    cases hget
  | request r =>
    intro tenant id c hget
    rcases Server.getCase_step disk s r with hsame | ⟨call, -, hworld⟩
    · exact h tenant id c ((hsame tenant id).symm.trans hget)
    · rw [hworld] at hget
      have hstep := (caseEffect s.api.caseService s.world call).case_step tenant id
      cases hstep with
      | quiet events hresponse hsame => exact h tenant id c (hsame.symm.trans hget)
      | opened a d events hopen hkey hdefinition hnew =>
        cases hnew.symm.trans hget
        refine ⟨d, ?_⟩
        change s.api.definitions.definition d.caseType = some d
        rw [s.api.definitions.keyed _ _ hdefinition]
        exact hdefinition
      | refused a old d htransition hkey hold hdefinition hlegal hresponse hsame =>
        cases hsame.symm.trans hget
        exact ⟨d, hdefinition⟩
      | moved a old new d htransition hkey hold hdefinition hlegal hmoved hresponse hnew =>
        cases hnew.symm.trans hget
        rw [hmoved]
        exact ⟨d, hdefinition⟩

variable (disk) in
theorem Server.registered_after (api : ConsoleApi) (es : List ServerEvent) :
    (Server.after disk api es).Registered := by
  have halong : Along (Server.step disk) (fun _ _ => True) ⟨api, .empty⟩ es :=
    along_of_forall (fun _ _ => trivial)
  refine run_invariant (fun s event h _ => h.step event) ?_ halong
  intro tenant id c hget
  cases hget

end

namespace LocalReviewStore

theorem putIfAbsentBySourceKey_fails (store : LocalReviewStore) {item : ReviewItem}
    {tenant reviewId : String} (hkey : item.key = (tenant, reviewId)) :
    (∃ e, store.putIfAbsentBySourceKey item = .error e) ↔ item.request.sourceKey ≠ "" ∧
      store.findBySourceKey tenant item.request.sourceKey = none ∧
      (store.get tenant reviewId).isSome := by
  obtain ⟨rfl, rfl⟩ := Prod.mk.inj hkey
  simp only [putIfAbsentBySourceKey]
  by_cases hkey : item.request.sourceKey = ""
  · obtain ⟨reviews, hput⟩ := store.put_of_no_source hkey
    simp [hkey, hput, Except.map]
  · simp only [hkey, if_false]
    cases hfind : store.findBySourceKey item.tenant item.request.sourceKey with
    | some row => simp
    | none =>
      cases hget : store.get item.tenant item.reviewId with
      | some old => simp [hkey]
      | none =>
        obtain ⟨reviews, hput⟩ := put_of_not_found hfind
        simp [hput, Except.map]

end LocalReviewStore

section
variable {s : Server} {r : ApiRequest} {principal : Principal}

private theorem service_internal (request : ServiceSubmitRequest) :
    (s.api.submitReviewService localPorts request r.moment s.world).1.isInternal = true ↔
      request.sourceKey ≠ "" ∧
      s.world.reviews.findBySourceKey request.tenant request.sourceKey = none ∧
      (s.world.reviews.get request.tenant r.moment.uuid).isSome := by
  have hkey : (s.api.console.newItem (request.submission r.moment.uuid)
      r.moment.readings.now).key = (request.tenant, r.moment.uuid) := ConsoleService.newItem_key
  have hfails := s.world.reviews.putIfAbsentBySourceKey_fails hkey
  rw [ConsoleService.newItem_sourceKey] at hfails
  change _ ↔ request.sourceKey ≠ "" ∧ s.world.reviews.findBySourceKey request.tenant
    request.sourceKey = none ∧ (s.world.reviews.get request.tenant r.moment.uuid).isSome at hfails
  rw [← hfails, ConsoleApi.submitReviewService_response]
  cases s.world.reviews.putIfAbsentBySourceKey (s.api.console.newItem
      (request.submission r.moment.uuid) r.moment.readings.now) with
  | error e => exact iff_of_true rfl ⟨e, rfl⟩
  | ok answer =>
    refine iff_of_false Bool.false_ne_true ?_
    rintro ⟨e, he⟩
    cases he

private theorem openCase_internal (request : OpenCaseRequest) (principal : Principal) (m : Moment) :
    (s.api.openCase localPorts request principal m s.world).1.isInternal = true ↔
      ∃ d, s.api.definitions.definition request.caseType = some d ∧
        ∃ spec ∈ d.openingClocks, ¬ spec.HasDue m.readings.now ∅ := by
  cases hdefinition : s.api.definitions.definition request.caseType with
  | none =>
    simp only [ConsoleApi.openCase]
    rw [if_pos hdefinition]
    exact iff_of_false Bool.false_ne_true (by simp)
  | some d =>
    have hcompletes : s.api.caseService.Completes d m.readings.now ↔ _ := completes_iff
      s.api.caseService d
      (request.args m.uuid principal.tenant (s.api.actor principal)) m.readings.now
      (CaseWorkflowService.opened (request.args m.uuid principal.tenant (s.api.actor principal)) d
        m.readings.now).openedAt
    have hopening : (∃ d', some d = some d' ∧
        ∃ spec ∈ d'.openingClocks, ¬ spec.HasDue m.readings.now ∅) ↔
        ¬ s.api.caseService.Completes d m.readings.now := by
      simp [CaseWorkflowService.Completes, ConsoleApi.caseService]
    have htimers : s.api.caseService.timers = true := rfl
    rw [hopening, hcompletes, ConsoleApi.openCase_response _ _ _ _ hdefinition]
    simp only [htimers, true_imp_iff]
    cases (s.api.caseService.scheduled _ d _ d.clocks).2 with
    | none => exact iff_of_false Bool.false_ne_true (by simp)
    | some e => exact iff_of_true rfl (by simp)

private theorem evaluateCase_internal (hregistered : s.Registered) (caseId : String)
    (principal : Principal) (m : Moment) :
    (s.api.evaluateCase localPorts caseId principal m s.world).1.isInternal = true ↔
      ∃ c d, s.world.getCase principal.tenant caseId = some c ∧
        s.api.definitions.definition c.caseType = some d ∧
        ∃ spec ∈ d.clocks, ∃ anchor, c.firstEntered spec.startState d.initial = some anchor ∧
          ¬ spec.HasDue anchor ∅ := by
  rw [ConsoleApi.evaluateCase_response]
  cases hget : s.world.getCase principal.tenant caseId with
  | none => exact iff_of_false Bool.false_ne_true (by simp)
  | some c =>
    obtain ⟨d, hdefinition⟩ := hregistered _ _ _ hget
    have hassessable : (∃ c' d', some c = some c' ∧
        s.api.definitions.definition c'.caseType = some d' ∧
        ∃ spec ∈ d'.clocks, ∃ anchor, c'.firstEntered spec.startState d'.initial = some anchor ∧
          ¬ spec.HasDue anchor ∅) ↔ ¬ c.Assessable d ∅ := by
      simp only [Option.some.injEq, exists_and_left, exists_eq_left', hdefinition,
        Case.not_assessable_iff]
    rw [hassessable]
    simp only [hdefinition]
    cases hassess : assess c d m.readings.now ∅ with
    | error e =>
      refine iff_of_true rfl ?_
      intro h
      obtain ⟨a, ha⟩ := assess_returns_iff.mpr h
      cases hassess.symm.trans ha
    | ok assessment =>
      exact iff_of_false Bool.false_ne_true (not_not.mpr (assess_returns_iff.mp ⟨_, hassess⟩))

private theorem decideReview_internal (reviewId : String) (request : DecisionRequest)
    (principal : Principal) (m : Moment) :
    (s.api.decideReview localPorts reviewId request principal m s.world).1.isInternal = false := by
  rw [ConsoleApi.decideReview_response]
  cases s.world.reviews.get principal.tenant reviewId with
  | none => rfl
  | some stored =>
    dsimp only
    cases s.api.console.engine.dispose (s.api.console.withEffectiveRouting stored)
      ((request.args reviewId (s.api.actor principal) principal).decision m.readings.now) none <;>
      rfl

private theorem transitionCase_internal (hregistered : s.Registered) (caseId : String)
    (request : TransitionRequest) (principal : Principal) (m : Moment) :
    (s.api.transitionCase localPorts caseId request principal m s.world).1.isInternal = false := by
  rw [ConsoleApi.transitionCase_response]
  cases hget : s.world.getCase principal.tenant caseId with
  | none => rfl
  | some c =>
    obtain ⟨d, hdefinition⟩ := hregistered _ _ _ hget
    simp only [hdefinition]
    cases d.isLegal c.state request.toState <;> rfl

private theorem user_internal (hregistered : s.Registered) (call : UserCall) (principal : Principal)
    (m : Moment) : (s.api.userRoute localPorts call principal m s.world).1.isInternal = true ↔
      call.Fails s principal m.readings.now := by
  cases call with
  | submitReview request =>
    refine iff_of_false ?_ not_false
    rw [ConsoleApi.userRoute, ConsoleApi.submitReview_response]
    exact Bool.false_ne_true
  | listReviews => exact iff_of_false Bool.false_ne_true not_false
  | getReview reviewId =>
    refine iff_of_false ?_ not_false
    rw [ConsoleApi.userRoute, ConsoleApi.getReview_response]
    cases s.world.reviews.get principal.tenant reviewId <;> exact Bool.false_ne_true
  | decideReview reviewId request =>
    refine iff_of_false ?_ not_false
    exact Bool.eq_false_iff.mp (decideReview_internal reviewId request principal m)
  | openCase request => exact openCase_internal request principal m
  | listCases => exact iff_of_false Bool.false_ne_true not_false
  | getCase caseId =>
    refine iff_of_false ?_ not_false
    rw [ConsoleApi.userRoute, ConsoleApi.getCase_response]
    cases hget : s.world.getCase principal.tenant caseId with
    | none => exact Bool.false_ne_true
    | some c =>
      obtain ⟨d, hdefinition⟩ := hregistered _ _ _ hget
      simp only [ConsoleApi.caseReply, hdefinition]
      exact Bool.false_ne_true
  | transitionCase caseId request =>
    refine iff_of_false ?_ not_false
    exact Bool.eq_false_iff.mp
      (transitionCase_internal hregistered caseId request principal m)
  | evaluateCase caseId => exact evaluateCase_internal hregistered caseId principal m

end

/-- In every state that the server reaches, a request ends in an internal error exactly when it
submits a new source key under a used review id, or opens or evaluates a case of which a started
clock has no due date. Everything else that a service refuses becomes a response. -/
theorem internal_error_iff (disk : Disk) (api : ConsoleApi) (es : List ServerEvent)
    (r : ApiRequest) :
    ((Server.after disk api es).api.handle localPorts r
        (Server.after disk api es).world).1.isInternal = true ↔
      r.Fails (Server.after disk api es) := by
  have hregistered := Server.registered_after disk api es
  generalize Server.after disk api es = s at hregistered
  simp only [ApiRequest.Fails]
  cases hcall : r.call with
  | user call =>
    cases hprincipal : s.api.getPrincipal r.headers with
    | error e =>
      rw [ConsoleApi.handle_user_refused hcall hprincipal]
      exact iff_of_false Bool.false_ne_true (by simp)
    | ok principal =>
      rw [ConsoleApi.handle_user hcall hprincipal, user_internal hregistered]
      simp
  | submitReviewService request =>
    cases hcaller : s.api.serviceCaller r.headers with
    | error e =>
      rw [ConsoleApi.handle_service_refused hcall hcaller]
      exact iff_of_false Bool.false_ne_true (by simp)
    | ok caller =>
      rw [ConsoleApi.handle_service hcall hcaller, service_internal]
      simp

end ReviewConsole

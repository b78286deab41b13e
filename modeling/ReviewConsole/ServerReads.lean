import ReviewConsole.RefusedRequests
import ReviewConsole.ServerErrors
import ReviewConsole.GuardedRuns

/-!
# What a read returns

A review is in many of the responses: to its submission, to a decision on it, to a read, in a
listing. None of them is stale, and a later read returns what was shown last. To its clients, all
together, a review is one register, through restarts that keep the table and the console.
-/
namespace ReviewConsole
open PortPrograms GuardedRuns

def ConsoleApi.serve (api : ConsoleApi) (w : World) (r : ApiRequest) : World :=
  (api.handle localPorts r w).2

def ApiResponse.reviews : ApiResponse → List ReviewItemModel
  | .reply _ (.review item) => [item]
  | .reply _ (.decision decision) => [decision.item]
  | .reply _ (.reviews items) => items
  | _ => []

namespace ConsoleApi

variable (api : ConsoleApi)

def readReview (tenant id : String) (w : World) : Option ReviewItemModel :=
  (w.reviews.get tenant id).map (fun item => .fromDomain (api.console.withEffectiveRouting item))

def shownReview (tenant id : String) (w : World) (r : ApiRequest) : Option ReviewItemModel :=
  (api.handle localPorts r w).1.reviews.find?
    (fun item => item.tenant = tenant ∧ item.reviewId = id)

variable {api} {tenant id : String} {w : World} {r : ApiRequest} {principal : Principal}

private theorem shown_item (item : ReviewItem) :
    [ReviewItemModel.fromDomain item].find?
        (fun shown => shown.tenant = tenant ∧ shown.reviewId = id) =
      if item.key = (tenant, id) then some (.fromDomain item) else none := by
  have hkey : item.key = (tenant, id) ↔ item.tenant = tenant ∧ item.reviewId = id := Prod.mk_inj
  rw [List.find?_singleton]
  apply if_congr _ rfl rfl
  rw [hkey, decide_eq_true_eq]
  rfl

theorem withEffectiveRouting_disposed (console : ConsoleService) (stored : ReviewItem)
    (d : DisposeArgs) (now : DateTime) :
    console.withEffectiveRouting (console.disposed stored d now) =
      console.disposed stored d now := by
  have hthreshold : console.engine.requiredApprovals (console.disposed stored d now) =
      (console.disposed stored d now).request.requiredApprovals := by
    have h := console.requiredApprovals_withEffectiveRouting stored
    simp only [MakerCheckerService.requiredApprovals, ConsoleService.disposed_request] at h ⊢
    exact h
  rw [ConsoleService.withEffectiveRouting_eq, hthreshold]

private theorem read_put {reviews : LocalReviewStore} {item : ReviewItem}
    (hput : w.reviews.put item = .ok reviews)
    (hrouted : api.console.withEffectiveRouting item = item)
    {w' : World} (hw' : w'.reviews = reviews) :
    api.readReview tenant id w' = ([ReviewItemModel.fromDomain item].find?
      (fun shown => shown.tenant = tenant ∧ shown.reviewId = id)).or
        (api.readReview tenant id w) := by
  rw [shown_item, readReview, hw', LocalReviewStore.get_put hput]
  by_cases hkey : item.key = (tenant, id)
  · rw [if_pos hkey, if_pos hkey.symm]
    simp [hrouted]
  · rw [if_neg hkey, if_neg (Ne.symm hkey)]
    rfl

private theorem read_shown {items : List ReviewItem}
    (hget : ∀ item ∈ items, w.reviews.get item.tenant item.reviewId = some item) :
    api.readReview tenant id w =
      (((items.map api.console.withEffectiveRouting).map ReviewItemModel.fromDomain).find?
        (fun shown => shown.tenant = tenant ∧ shown.reviewId = id)).or
          (api.readReview tenant id w) := by
  cases hfind : ((items.map api.console.withEffectiveRouting).map ReviewItemModel.fromDomain).find?
      (fun shown => shown.tenant = tenant ∧ shown.reviewId = id) with
  | none => rfl
  | some shown =>
    have hkey := List.find?_some hfind
    have hmem := List.mem_of_find?_eq_some hfind
    obtain ⟨_, hrouted, rfl⟩ := List.mem_map.mp hmem
    obtain ⟨item, hitem, rfl⟩ := List.mem_map.mp hrouted
    rw [decide_eq_true_eq] at hkey
    change (api.console.withEffectiveRouting item).request.tenant = tenant ∧
      (api.console.withEffectiveRouting item).request.reviewId = id at hkey
    rw [ConsoleService.withEffectiveRouting_tenant,
      ConsoleService.withEffectiveRouting_reviewId] at hkey
    obtain ⟨rfl, rfl⟩ := hkey
    have hstored : w.reviews.get item.request.tenant item.request.reviewId = some item :=
      hget item hitem
    simp only [readReview, hstored]
    rfl

private theorem read_shown_one {item : ReviewItem}
    (hget : w.reviews.get item.tenant item.reviewId = some item) :
    api.readReview tenant id w =
      ([ReviewItemModel.fromDomain (api.console.withEffectiveRouting item)].find?
        (fun shown => shown.tenant = tenant ∧ shown.reviewId = id)).or
          (api.readReview tenant id w) := by
  have hall : ∀ other ∈ [item], w.reviews.get other.tenant other.reviewId = some other :=
    List.forall_mem_singleton.mpr hget
  exact read_shown hall

private theorem read_quiet (hresponse : (api.handle localPorts r w).1.reviews = [])
    (hreviews : (api.serve w r).reviews = w.reviews) :
    api.readReview tenant id (api.serve w r) =
      (api.shownReview tenant id w r).or (api.readReview tenant id w) := by
  simp only [shownReview, hresponse, readReview, hreviews]
  rfl

private theorem decideReview_step {reviewId : String} {request : DecisionRequest}
    (hcall : r.call = .user (.decideReview reviewId request))
    (hprincipal : api.getPrincipal r.headers = .ok principal) :
    api.readReview tenant id (api.serve w r) =
      (api.shownReview tenant id w r).or (api.readReview tenant id w) := by
  have hservice : api.serviceCall r = some (.console ⟨api.console, .dispose
      (request.args reviewId (api.actor principal) principal), r.moment.readings⟩) := by
    simp only [serviceCall, hcall, hprincipal]
    rfl
  have hworld : api.serve w r = ReviewConsole.serve w ⟨api.console, .dispose
      (request.args reviewId (api.actor principal) principal), r.moment.readings⟩ := by
    rw [ConsoleApi.serve, handle_world, hservice, called, ServiceCall.console_world]
  have heffect := consoleEffect_answer w ⟨api.console, .dispose
    (request.args reviewId (api.actor principal) principal), r.moment.readings⟩
  have hresponse : (api.handle localPorts r w).1 =
      (api.decideReview localPorts reviewId request principal r.moment w).1 := by
    rw [handle_user hcall hprincipal]
    rfl
  rw [decideReview_response] at hresponse
  have houtcome {outcome : DispositionOutcome}
      (h : (answer w ⟨api.console, .dispose (request.args reviewId (api.actor principal) principal),
        r.moment.readings⟩).1 = .ok (.outcome outcome)) :
      api.shownReview tenant id w r = [ReviewItemModel.fromDomain outcome.item].find?
        (fun shown => shown.tenant = tenant ∧ shown.reviewId = id) := by
    simp only [shownReview, handle_decideReview hcall hprincipal h]
    rfl
  rw [hworld, ReviewConsole.serve]
  generalize hanswer : (answer w ⟨api.console, .dispose
    (request.args reviewId (api.actor principal) principal), r.moment.readings⟩).1 = response
    at heffect houtcome
  generalize (answer w ⟨api.console, .dispose
    (request.args reviewId (api.actor principal) principal), r.moment.readings⟩).2 = w' at heffect ⊢
  cases heffect with
  | untouched response hwritten h =>
    have hnone : w.reviews.get principal.tenant reviewId = none := h _ rfl
    rw [hnone] at hresponse
    simp only [shownReview, hresponse]
    rfl
  | refused d stored e hd hget hstate hwritten =>
    cases hd
    have hget' : w.reviews.get principal.tenant reviewId = some stored := hget
    have hterminal : (api.console.withEffectiveRouting stored).state ≠ .pending := by
      rwa [ConsoleService.withEffectiveRouting_state]
    rcases MakerCheckerService.dispose_cases api.console.engine
      (api.console.withEffectiveRouting stored)
      ((request.args reviewId (api.actor principal) principal).decision r.moment.readings.now) none
      with ⟨-, e', herror⟩ | ⟨hpending, -⟩ | ⟨hpending, -⟩
    · rw [hget'] at hresponse
      simp only [herror] at hresponse
      simp only [shownReview, hresponse]
      rfl
    · exact absurd hpending hterminal
    · exact absurd hpending hterminal
  | submitted s item reviews hd => rcases hd with hd | hd <;> cases hd
  | denied d stored findings outcome hd hget hstate hfindings hwritten hdenied =>
    rw [houtcome rfl, hdenied]
    obtain ⟨htenant, hid⟩ := LocalReviewStore.key_of_get hget
    rw [← htenant, ← hid] at hget
    exact read_shown_one hget
  | disposed d stored reviews outcome hd hget hstate heligible hput hwritten hdisposed =>
    rw [houtcome rfl]
    refine read_put hput ?_ (World.noted_reviews _ _ _)
    rw [hdisposed]
    exact withEffectiveRouting_disposed _ _ _ _

theorem serveCase_get {svc : CaseWorkflowService} {call : CaseRequest}
    (h : ∀ a routing, call.call = .evaluateCase a routing → routing.reviewId ≠ id) :
    (serveCase svc w call).reviews.get tenant id = w.reviews.get tenant id := by
  rw [(serveCase_queue svc w call).reviews]
  rcases svc.routedRequests_cases w call with hnone |
    ⟨a, routing, c, d, assessment, console, hescalates, hone⟩
  · rw [hnone]
    rfl
  · rw [hone]
    rcases (consoleEffect_answer w _).review_step tenant id with ⟨hsame, -⟩ |
      ⟨s, item, hs, hitem, hkey, -⟩ | ⟨d, stored, findings, hget, -, -, hget', -⟩ |
      ⟨d, stored, item, hd, -⟩
    · exact hsame
    · rcases hs with hs | hs
      · cases hs
        rw [hitem, ConsoleService.newItem_key] at hkey
        exact absurd (congrArg Prod.snd hkey) (h a routing hescalates.call)
      · cases hs
    · exact hget'.trans hget.symm
    · cases hd

private theorem serve_reading {q : ConsoleRequest} (hsubmit : ∀ s, q.call ≠ .submit s)
    (hidempotent : ∀ s, q.call ≠ .submitIdempotent s) (hdispose : ∀ d, q.call ≠ .dispose d) :
    ReviewConsole.serve w q = w := by
  have heffect := consoleEffect_answer w q
  rw [ReviewConsole.serve]
  generalize (answer w q).1 = response at heffect
  generalize (answer w q).2 = w' at heffect ⊢
  cases heffect with
  | untouched => rfl
  | refused => rfl
  | submitted s item reviews hcall =>
    rcases hcall with hcall | hcall
    · exact absurd hcall (hsubmit s)
    · exact absurd hcall (hidempotent s)
  | denied d stored findings outcome hcall => exact absurd hcall (hdispose d)
  | disposed d stored reviews outcome hcall => exact absurd hcall (hdispose d)

private theorem serve_submitIdempotent (console : ConsoleService) (s : Submission) (m : Readings) :
    (ReviewConsole.serve w ⟨console, .submitIdempotent s, m⟩).reviews =
      match w.reviews.putIfAbsentBySourceKey (console.newItem s m.now) with
      | .ok (_, reviews) => reviews
      | .error _ => w.reviews := by
  simp only [ReviewConsole.serve, answer, ConsoleRequest.program, ConsoleService.submitIdempotent,
    Program.exec_bind]
  cases hput : w.reviews.putIfAbsentBySourceKey (console.newItem s m.now) with
  | error e =>
    have hop : @Program.exec _ _ _ (ReviewItem × Bool) _ localPorts
        (port (.reviewPutIfAbsentBySourceKey (console.newItem s m.now))) w = (.error e, w) := by
      simp only [port, Program.perform, Program.exec, localPorts, hput]
    rw [hop]
  | ok answer =>
    obtain ⟨⟨row, created⟩, reviews⟩ := answer
    have hop : @Program.exec _ _ _ (ReviewItem × Bool) _ localPorts
        (port (.reviewPutIfAbsentBySourceKey (console.newItem s m.now))) w =
          (.ok (row, created), { w with reviews }) := by
      simp only [port, Program.perform, Program.exec, localPorts, hput]
    rw [hop]
    cases created <;> rfl

private theorem service_step {request : ServiceSubmitRequest}
    (hcall : r.call = .submitReviewService request)
    (hcaller : api.serviceCaller r.headers = .ok ()) :
    api.readReview tenant id (api.serve w r) =
      (api.shownReview tenant id w r).or (api.readReview tenant id w) := by
  have hservice : api.serviceCall r = some (.console ⟨api.console, .submitIdempotent
      (request.submission r.moment.uuid), r.moment.readings⟩) := by
    simp only [serviceCall, hcall, hcaller]
  have hworld : api.serve w r = ReviewConsole.serve w ⟨api.console, .submitIdempotent
      (request.submission r.moment.uuid), r.moment.readings⟩ := by
    rw [ConsoleApi.serve, handle_world, hservice, called, ServiceCall.console_world]
  have hreviews := serve_submitIdempotent (w := w) api.console
    (request.submission r.moment.uuid) r.moment.readings
  have hresponse : (api.handle localPorts r w).1 =
      (api.submitReviewService localPorts request r.moment w).1 := by
    rw [handle_service hcall hcaller]
  rw [submitReviewService_response] at hresponse
  rw [← hworld] at hreviews
  rcases w.reviews.putIfAbsentBySourceKey_cases
    (api.console.newItem (request.submission r.moment.uuid) r.moment.readings.now) with
    ⟨e, hput⟩ | ⟨row, hrow, -, -, -, hput⟩ | ⟨reviews, hstored, -, hput⟩
  · rw [hput] at hresponse hreviews
    apply read_quiet _ hreviews
    rw [hresponse]
    rfl
  · rw [hput] at hresponse hreviews
    have hsame : api.readReview tenant id (api.serve w r) = api.readReview tenant id w := by
      simp only [readReview, hreviews]
    rw [hsame, shownReview, hresponse]
    exact read_shown_one (LocalReviewStore.get_of_mem hrow)
  · rw [hput] at hresponse hreviews
    rw [shownReview, hresponse]
    dsimp only
    rw [ConsoleService.withEffectiveRouting_newItem]
    exact read_put hstored ConsoleService.withEffectiveRouting_newItem hreviews

private theorem submitReview_step {request : SubmitRequest}
    (hcall : r.call = .user (.submitReview request))
    (hprincipal : api.getPrincipal r.headers = .ok principal) :
    api.readReview tenant id (api.serve w r) =
      (api.shownReview tenant id w r).or (api.readReview tenant id w) := by
  have hservice : api.serviceCall r = some (.console ⟨api.console, .submit
      (request.submission r.moment.uuid (api.actor principal) principal.tenant),
      r.moment.readings⟩) := by
    simp only [serviceCall, hcall, hprincipal]
    rfl
  have hsource : (api.submittedItem principal r.moment request).request.sourceKey = "" :=
    ConsoleService.newItem_sourceKey
  obtain ⟨reviews, hput⟩ := w.reviews.put_of_no_source hsource
  have hreviews : (api.serve w r).reviews = reviews := by
    rw [ConsoleApi.serve, handle_world, hservice, called, ServiceCall.console_world,
      serve_submit _ _ _ hput]
  have hresponse : (api.handle localPorts r w).1 =
      (api.submitReview localPorts request principal r.moment w).1 := by
    rw [handle_user hcall hprincipal]
    rfl
  rw [submitReview_response] at hresponse
  rw [shownReview, hresponse]
  exact read_put hput ConsoleService.withEffectiveRouting_newItem hreviews

private theorem engine_step {svc : CaseWorkflowService} {call : CaseRequest}
    (hservice : api.serviceCall r = some (.engine svc call))
    (hrouted : ∀ a routing, call.call = .evaluateCase a routing → routing.reviewId ≠ id)
    (hresponse : (api.handle localPorts r w).1.reviews = []) :
    api.readReview tenant id (api.serve w r) =
      (api.shownReview tenant id w r).or (api.readReview tenant id w) := by
  have hget : (api.serve w r).reviews.get tenant id = w.reviews.get tenant id := by
    rw [ConsoleApi.serve, handle_world, hservice, called, ServiceCall.engine_world]
    exact serveCase_get hrouted
  simp only [shownReview, hresponse, readReview, hget]
  rfl

private theorem caseReply_reviews (statusCode : ℕ) (c : Case) :
    (api.caseReply statusCode c).reviews = [] := by
  simp only [caseReply]
  cases api.definitions.definition c.caseType <;> rfl

private theorem user_step (h : r.moment.routing.reviewId ≠ id) {user : UserCall}
    (hcall : r.call = .user user) (hprincipal : api.getPrincipal r.headers = .ok principal) :
    api.readReview tenant id (api.serve w r) =
      (api.shownReview tenant id w r).or (api.readReview tenant id w) := by
  have hservice : api.serviceCall r = api.userServiceCall user principal r.moment := by
    simp only [serviceCall, hcall, hprincipal]
  have hroute : api.handle localPorts r = api.userRoute localPorts user principal r.moment :=
    handle_user hcall hprincipal
  cases user with
  | submitReview request => exact submitReview_step hcall hprincipal
  | listReviews =>
    have hworld : api.serve w r = w := by
      rw [ConsoleApi.serve, handle_world, hservice, userServiceCall, called,
        ServiceCall.console_world]
      exact serve_reading (by simp) (by simp) (by simp)
    have hresponse : (api.handle localPorts r w).1 =
        (api.listReviews localPorts principal w).1 := by
      rw [hroute]
      rfl
    rw [listReviews_response] at hresponse
    rw [hworld, shownReview, hresponse]
    apply read_shown
    intro item hitem
    exact LocalReviewStore.get_of_mem (LocalReviewStore.mem_listPending.mp hitem).1.1
  | getReview reviewId =>
    have hworld : api.serve w r = w := by
      rw [ConsoleApi.serve, handle_world, hservice, userServiceCall, called,
        ServiceCall.console_world]
      exact serve_reading (by simp) (by simp) (by simp)
    have hresponse : (api.handle localPorts r w).1 =
        (api.getReview localPorts reviewId principal w).1 := by
      rw [hroute]
      rfl
    rw [getReview_response] at hresponse
    rw [hworld, shownReview, hresponse]
    cases hget : w.reviews.get principal.tenant reviewId with
    | none => rfl
    | some item =>
      obtain ⟨htenant, hid⟩ := LocalReviewStore.key_of_get hget
      rw [← htenant, ← hid] at hget
      exact read_shown_one hget
  | decideReview reviewId request => exact decideReview_step hcall hprincipal
  | openCase request =>
    cases hdefinition : api.definitions.definition request.caseType with
    | none =>
      have hhandle : api.handle localPorts r w =
          (.refusal ⟨422, "unknown case_type " ++ api.repr request.caseType⟩, w) := by
        rw [hroute]
        exact if_pos hdefinition
      apply read_quiet
      · rw [hhandle]
        rfl
      · rw [ConsoleApi.serve, hhandle]
    | some d =>
      rw [userServiceCall, if_neg (by simp [hdefinition])] at hservice
      apply engine_step hservice (by simp)
      rw [hroute, userRoute, openCase_response _ _ _ _ hdefinition]
      dsimp only
      split <;> rfl
  | listCases =>
    apply engine_step hservice (by simp)
    rw [hroute]
    rfl
  | getCase caseId =>
    apply engine_step hservice (by simp)
    rw [hroute, userRoute, getCase_response]
    cases w.getCase principal.tenant caseId with
    | none => rfl
    | some c => exact caseReply_reviews 200 c
  | transitionCase caseId request =>
    apply engine_step hservice (by simp)
    rw [hroute, userRoute, transitionCase_response]
    split
    · rfl
    · split
      · rfl
      · split <;> rfl
  | evaluateCase caseId =>
    apply engine_step hservice
    · intro a routing heq
      cases heq
      exact h
    · rw [hroute, userRoute, evaluateCase_response]
      split
      · rfl
      · split
        · rfl
        · split <;> rfl

/-- A request changes a review with a response that shows it. -/
theorem readReview_step (h : r.moment.routing.reviewId ≠ id) :
    api.readReview tenant id (api.serve w r) =
      (api.shownReview tenant id w r).or (api.readReview tenant id w) := by
  cases hcall : r.call with
  | submitReviewService request =>
    cases hcaller : api.serviceCaller r.headers with
    | error e =>
      apply read_quiet
      · rw [handle_service_refused hcall hcaller]
        rfl
      · rw [ConsoleApi.serve, handle_service_refused hcall hcaller]
    | ok caller => exact service_step hcall hcaller
  | user user =>
    cases hprincipal : api.getPrincipal r.headers with
    | error e =>
      apply read_quiet
      · rw [handle_user_refused hcall hprincipal]
        rfl
      · rw [ConsoleApi.serve, handle_user_refused hcall hprincipal]
    | ok principal => exact user_step h hcall hprincipal

end ConsoleApi

namespace Server

variable (disk : Disk) (tenant id : String)

def readReview (s : Server) : Option ReviewItemModel := s.api.readReview tenant id s.world

def shownReview (s : Server) : ServerEvent → Option ReviewItemModel
  | .request r => s.api.shownReview tenant id s.world r
  | .restart _ => none

/-- No review is routed under the id, and a new process finds the table and has the same
console. -/
def Keeps (s : Server) : ServerEvent → Prop
  | .request r => r.moment.routing.reviewId ≠ id
  | .restart api => disk.reviews = true ∧ api.console = s.api.console

variable {disk tenant id}

theorem readReview_step (s : Server) (event : ServerEvent) (h : Keeps disk id s event) :
    (step disk s event).readReview tenant id =
      (s.shownReview tenant id event).or (s.readReview tenant id) := by
  cases event with
  | request r => exact ConsoleApi.readReview_step h
  | restart api =>
    obtain ⟨hreviews, hconsole⟩ := h
    have hkept : (s.world.restarted disk).reviews = s.world.reviews := by
      simp only [World.restarted, hreviews, if_true]
    change api.readReview tenant id (s.world.restarted disk) = s.api.readReview tenant id s.world
    simp only [ConsoleApi.readReview, hkept, hconsole]

end Server

def ApiResponse.ofReview : Option ReviewItemModel → ApiResponse
  | none => .refusal ⟨404, "review not found"⟩
  | some item => .reply 200 (.review item)

/-- A read of a review returns it as the last response that showed it did, whoever was answered
and by whichever process: in a run in which no escalation takes its id and each new process finds
the table and has the same console. -/
theorem review_reads_as_last_shown {disk : Disk} {s : Server} {es : List ServerEvent}
    {id : String} (hkeeps : Along (Server.step disk) (Server.Keeps disk id) s es)
    {r : ApiRequest} (hcall : r.call = .user (.getReview id)) {principal : Principal}
    (hprincipal : (run (Server.step disk) s es).api.getPrincipal r.headers = .ok principal) :
    ((run (Server.step disk) s es).api.handle localPorts r
        (run (Server.step disk) s es).world).1 =
      .ofReview ((lastShown (Server.step disk) (Server.shownReview principal.tenant id) s es).or
        (s.readReview principal.tenant id)) := by
  have hread := read_run (Server.readReview principal.tenant id)
    (fun s event h => Server.readReview_step s event h) hkeeps
  rw [← hread, ConsoleApi.handle_user hcall hprincipal, ConsoleApi.userRoute,
    ConsoleApi.getReview_response, Server.readReview, ConsoleApi.readReview]
  cases (run (Server.step disk) s es).world.reviews.get principal.tenant id <;> rfl

namespace Demo

/-- Another user of the tenant looks the facility up. -/
def lookUp : ApiRequest :=
  ⟨[("x-dev-persona", "analyst")], .user (.getReview "rev-1"), moment "" ""⟩

end Demo

/-- The facility submitted before the restart is read back approved. -/
theorem demo_review_reads_as_last_shown :
    ∃ principal item, Demo.api.getPrincipal Demo.lookUp.headers = .ok principal ∧
      ((Server.after ⟨true, false⟩ Demo.api Demo.night).api.handle localPorts Demo.lookUp
        (Server.after ⟨true, false⟩ Demo.api Demo.night).world).1 = .ofReview (some item) ∧
      lastShown (Server.step ⟨true, false⟩) (Server.shownReview principal.tenant "rev-1")
        ⟨Demo.api, .empty⟩ Demo.night = some item ∧ item.state = "approved" := by
  have hid : "" ≠ "rev-1" := by decide
  have hkeeps : Along (Server.step ⟨true, false⟩) (Server.Keeps ⟨true, false⟩ "rev-1")
      ⟨Demo.api, .empty⟩ Demo.night := ⟨hid, ⟨rfl, rfl⟩, hid, trivial⟩
  have hcall : Demo.lookUp.call = .user (.getReview "rev-1") := rfl
  refine ⟨_, _, rfl, ?_, rfl, rfl⟩
  exact review_reads_as_last_shown hkeeps hcall (Eq.refl (Except.ok _))

end ReviewConsole

import ReviewConsole.Ballots
import ReviewConsole.ServerMakers
import ReviewConsole.ServerReads
import ReviewConsole.WalkedGraphs

/-!
# Which reviews can still be approved

The requests of a server take a stored review through a ballot: its voters are the checkers whom
the identity adapter can verify and who may act on the review. So whether a pending review can be
approved at all is a count of those checkers.
-/
namespace ReviewConsole
open PortPrograms GuardedRuns WalkedGraphs Ballots

def ReviewState.phase : ReviewState → Phase
  | .pending => .counting
  | .approved => .passed
  | .rejected | .amended => .closed

def ReviewItem.ballot (item : ReviewItem) : Ballot String := ⟨item.state.phase, item.approvers⟩

@[simp] theorem ReviewItem.ballot_withApproval (item : ReviewItem) (approval : Approval)
    (s : ReviewState) :
    (item.withApproval approval s).ballot = ⟨s.phase, item.approvers ++ [approval.checker]⟩ := by
  rw [ballot, withApproval_state, withApproval_approvers]

theorem ReviewState.phase_passed {s : ReviewState} (h : s.phase = .passed) : s = .approved := by
  cases s with
  | approved => rfl
  | pending => cases h
  | rejected => cases h
  | amended => cases h

theorem ReviewState.phase_counting {s : ReviewState} (h : s.phase = .counting) : s = .pending := by
  cases s with
  | pending => rfl
  | approved => cases h
  | rejected => cases h
  | amended => cases h

/-- The request would give the id to a review. -/
def ApiRequest.Draws (r : ApiRequest) (id : String) : Prop :=
  match r.call with
  | .user (.submitReview _) | .submitReviewService _ => r.moment.uuid = id
  | .user (.evaluateCase _) => r.moment.routing.reviewId = id
  | _ => False

def ReviewItem.unsigned (item : ReviewItem) : ReviewItem := { item with approvals := [] }

namespace MakerCheckerService

variable {engine : MakerCheckerService} {item item' : ReviewItem} {checker tenant : String}
variable {groups : List String}

theorem eligible_iff_unsigned (htenant : item.request.tenant = item'.request.tenant)
    (hmaker : item.request.maker = item'.request.maker)
    (hsod : item.request.sodGroup = item'.request.sodGroup) :
    Eligible engine item checker tenant groups ↔
      Eligible engine item'.unsigned checker tenant groups ∧ checker ∉ item.approvers := by
  constructor
  · intro h
    refine ⟨⟨?_, ?_, ?_, h.role, by simp [ReviewItem.unsigned, ReviewItem.approvers]⟩, h.distinct⟩
    · exact h.tenant.trans htenant
    · exact hmaker ▸ h.maker
    · exact hsod ▸ h.sod
  · intro h
    obtain ⟨h, hdistinct⟩ := h
    refine ⟨?_, ?_, ?_, h.role, hdistinct⟩
    · exact h.tenant.trans htenant.symm
    · exact hmaker ▸ h.maker
    · exact hsod ▸ h.sod

end MakerCheckerService

namespace ConsoleApi

variable (api : ConsoleApi)

/-- The identity adapter can verify somebody who acts under the name and may check the item. -/
def Admits (item : ReviewItem) (checker : String) : Prop :=
  ∃ headers principal, api.getPrincipal headers = .ok principal ∧ api.actor principal = checker ∧
    MakerCheckerService.Eligible api.console.engine item.unsigned checker principal.tenant
      principal.principals

/-- A review as submitted, under the ballot that its approvals and its state make. -/
def Ballots (item : ReviewItem) (w : World) (b : Ballot String) : Prop :=
  ∃ stored, w.reviews.get item.tenant item.reviewId = some stored ∧ stored.ballot = b ∧
    (api.console.withEffectiveRouting stored).request =
      (api.console.withEffectiveRouting item).request

variable {api} {item stored : ReviewItem} {w : World} {r : ApiRequest} {b : Ballot String}

private theorem same_facts (h : (api.console.withEffectiveRouting stored).request =
      (api.console.withEffectiveRouting item).request) :
    stored.request.tenant = item.request.tenant ∧ stored.request.maker = item.request.maker ∧
      stored.request.sodGroup = item.request.sodGroup ∧
      api.console.engine.requiredApprovals stored = api.console.engine.requiredApprovals item := by
  refine ⟨?_, ?_, ?_, ?_⟩
  · have htenant := congrArg ReviewRequest.tenant h
    simpa using htenant
  · have hmaker := congrArg ReviewRequest.maker h
    simpa using hmaker
  · have hsod := congrArg ReviewRequest.sodGroup h
    simpa using hsod
  · have hthreshold := congrArg ReviewRequest.requiredApprovals h
    simpa [ConsoleService.withEffectiveRouting_requiredApprovals] using hthreshold

private theorem eligible_iff_admits (h : (api.console.withEffectiveRouting stored).request =
      (api.console.withEffectiveRouting item).request) {checker tenant : String}
    {groups : List String} :
    MakerCheckerService.Eligible api.console.engine (api.console.withEffectiveRouting stored)
        checker tenant groups ↔
      MakerCheckerService.Eligible api.console.engine item.unsigned checker tenant groups ∧
        checker ∉ stored.approvers := by
  obtain ⟨htenant, hmaker, hsod, -⟩ := same_facts h
  rw [← ConsoleService.withEffectiveRouting_approvers api.console stored]
  apply MakerCheckerService.eligible_iff_unsigned
  · rw [ConsoleService.withEffectiveRouting_tenant, htenant]
  · rw [ConsoleService.withEffectiveRouting_maker, hmaker]
  · rw [ConsoleService.withEffectiveRouting_sodGroup, hsod]

private theorem ballots_approved {d : DisposeArgs} {now : DateTime}
    (hfacts : (api.console.withEffectiveRouting stored).request =
      (api.console.withEffectiveRouting item).request)
    (hget : w.reviews.get item.tenant item.reviewId = some (api.console.disposed stored d now))
    (happrove : d.disposition = .approve) :
    api.Ballots item w
      ⟨tallied (api.console.engine.requiredApprovals item) (stored.approvers.length + 1),
        stored.approvers ++ [d.checker]⟩ := by
  obtain ⟨-, -, -, hneeded⟩ := same_facts hfacts
  refine ⟨_, hget, ?_, ?_⟩
  · have hlength : stored.approvers.length = stored.approvals.length := List.length_map _
    rw [ConsoleService.disposed_approve api.console stored d now happrove, hneeded,
      ReviewItem.ballot_withApproval, ConsoleService.withEffectiveRouting_approvers, tallied,
      hlength]
    split <;> rfl
  · rw [withEffectiveRouting_disposed, ConsoleService.disposed_request, hfacts]

private theorem ballots_closed {d : DisposeArgs} {now : DateTime}
    (hfacts : (api.console.withEffectiveRouting stored).request =
      (api.console.withEffectiveRouting item).request)
    (hget : w.reviews.get item.tenant item.reviewId = some (api.console.disposed stored d now))
    (hclose : d.disposition ≠ .approve) :
    api.Ballots item w ⟨.closed, stored.approvers⟩ := by
  obtain ⟨state, hresolved, hdisposed⟩ :=
    ConsoleService.disposed_resolved api.console stored d now hclose
  refine ⟨_, hget, ?_, ?_⟩
  · rw [hdisposed, ReviewItem.ballot]
    rcases hresolved with ⟨-, rfl⟩ | ⟨-, rfl⟩
    · exact congrArg (Ballot.mk _) (ConsoleService.withEffectiveRouting_approvers _ _)
    · exact congrArg (Ballot.mk _) (ConsoleService.withEffectiveRouting_approvers _ _)
  · rw [withEffectiveRouting_disposed, ConsoleService.disposed_request, hfacts]

theorem ballot_pending (hstate : stored.state = .pending) :
    stored.ballot = ⟨.counting, stored.approvers⟩ := by
  rw [ReviewItem.ballot, hstate]
  rfl

theorem ballots_step (hdraws : ¬ r.Draws item.reviewId) (h : api.Ballots item w b) :
    api.Ballots item (api.serve w r) b ∨
      ∃ b', Step (api.Admits item) (api.console.engine.requiredApprovals item) b b' ∧
        api.Ballots item (api.serve w r) b' := by
  obtain ⟨stored, hget, rfl, hfacts⟩ := h
  have hquiet (hsame : (api.serve w r).reviews.get item.tenant item.reviewId =
      w.reviews.get item.tenant item.reviewId) : api.Ballots item (api.serve w r) stored.ballot :=
    ⟨stored, hsame.trans hget, rfl, hfacts⟩
  cases hservice : api.serviceCall r with
  | none =>
    left
    apply hquiet
    rw [serve, handle_world, hservice, called]
  | some call =>
    cases call with
    | engine svc call =>
      left
      apply hquiet
      rw [serve, handle_world, hservice, called, ServiceCall.engine_world]
      apply serveCase_get
      intro a routing hevaluate hrouted
      obtain ⟨caseId, principal, hcall, -, rfl⟩ := serviceCall_evaluate hservice hevaluate
      cases hevaluate
      apply hdraws
      rw [ApiRequest.Draws, hcall]
      exact hrouted
    | console q =>
      have hworld : api.serve w r = ReviewConsole.serve w q := by
        rw [serve, handle_world, hservice, called, ServiceCall.console_world]
      have heffect := consoleEffect_answer w q
      rw [← ReviewConsole.serve, ← hworld] at heffect
      generalize (answer w q).1 = response at heffect
      generalize hafter : api.serve w r = w' at heffect hquiet
      cases heffect with
      | untouched => exact Or.inl (hquiet rfl)
      | refused => exact Or.inl (hquiet rfl)
      | denied => exact Or.inl (hquiet (by rw [World.noted_reviews]))
      | submitted s new reviews hcall hitem hput =>
        left
        apply hquiet
        rw [World.noted_reviews, LocalReviewStore.get_put hput, hitem, ConsoleService.newItem_key]
        apply if_neg
        intro hkey
        have hid : item.reviewId = s.reviewId := congrArg Prod.snd hkey
        apply hdraws
        rcases serviceCall_submission hservice hcall with
          ⟨request, principal, hroute, -, rfl, -⟩ | ⟨request, hroute, -, rfl, -⟩
        · rw [ApiRequest.Draws, hroute]
          exact hid.symm
        · rw [ApiRequest.Draws, hroute]
          exact hid.symm
      | disposed d found reviews outcome hcall hfound hstate hel hput hwritten houtcome =>
        obtain ⟨reviewId, request, principal, -, hprincipal, rfl⟩ :=
          serviceCall_dispose hservice hcall
        cases hcall
        have hkey : outcome.item.key = (principal.tenant, reviewId) := by
          obtain ⟨h1, h2⟩ := LocalReviewStore.key_of_get hfound
          rw [houtcome, ConsoleService.disposed_key, ReviewItem.key, h1, h2]
          rfl
        by_cases hthis : (item.tenant, item.reviewId) = outcome.item.key
        · right
          obtain ⟨htenant, hid⟩ := Prod.mk.inj (hthis.trans hkey)
          have hfound' : w.reviews.get item.tenant item.reviewId = some found := by
            rw [htenant, hid]
            exact hfound
          cases hget.symm.trans hfound'
          obtain ⟨heligible, hnew⟩ := (eligible_iff_admits hfacts).mp hel
          have hadmits : api.Admits item (api.actor principal) :=
            ⟨r.headers, principal, hprincipal, rfl, heligible⟩
          rw [ballot_pending hstate]
          generalize hleft : World.noted _ _ _ = left
          have hdisposed : left.reviews.get item.tenant item.reviewId = some (api.console.disposed
              stored (request.args reviewId (api.actor principal) principal)
              r.moment.readings.now) := by
            rw [← hleft, World.noted_reviews, LocalReviewStore.get_put hput, if_pos hthis, houtcome]
          by_cases happrove : request.disposition = .approve
          · exact ⟨_, .vote _ _ hadmits hnew, ballots_approved hfacts hdisposed happrove⟩
          · exact ⟨_, .close _ _ hadmits hnew, ballots_closed hfacts hdisposed happrove⟩
        · left
          apply hquiet
          rw [World.noted_reviews, LocalReviewStore.get_put hput, if_neg hthis]

/-- What an eligible checker's disposition of a pending item leaves in the queue. -/
theorem serve_dispose {console : ConsoleService} {d : DisposeArgs} {m : Readings}
    (hget : w.reviews.get d.checkerTenant d.reviewId = some stored)
    (hstate : stored.state = .pending)
    (hel : MakerCheckerService.Eligible console.engine (console.withEffectiveRouting stored)
      d.checker d.checkerTenant d.checkerGroups) :
    (ReviewConsole.serve w ⟨console, .dispose d, m⟩).reviews.get d.checkerTenant d.reviewId =
      some (console.disposed stored d m.now) := by
  have hallowed : ∃ outcome, ((console.dispose d m).exec localPorts w).1 = .ok outcome ∧
      outcome.allowed = true := by
    rw [dispose_answer, hget]
    rcases MakerCheckerService.dispose_cases console.engine (console.withEffectiveRouting stored)
      (d.decision m.now) d.asOf with ⟨hterminal, -⟩ | ⟨-, findings, hne, hfindings, -⟩ | ⟨-, -, h⟩
    · rw [ConsoleService.withEffectiveRouting_state] at hterminal
      exact absurd hstate hterminal
    · exact absurd (hfindings.trans (MakerCheckerService.checkEligibility_eq_nil.mpr hel)) hne
    · simp only [h]
      exact ⟨_, rfl, rfl⟩
  obtain ⟨outcome, hexec, hallowed⟩ := hallowed
  have hanswer : (answer w ⟨console, .dispose d, m⟩).1 = .ok (.outcome outcome) := by
    rw [answer, ConsoleRequest.program, Program.exec_bind_pure, hexec]
    rfl
  have heffect := consoleEffect_answer w ⟨console, .dispose d, m⟩
  rw [hanswer] at heffect
  rw [ReviewConsole.serve]
  generalize hresponse : (.ok (.outcome outcome) : Except ServiceError ConsoleResponse) = response
    at heffect
  generalize (answer w ⟨console, .dispose d, m⟩).2 = w' at heffect ⊢
  cases heffect with
  | untouched response hwritten hnone => cases (hnone d rfl).symm.trans hget
  | refused => cases hresponse
  | submitted s new reviews hcall => rcases hcall with hcall | hcall <;> cases hcall
  | denied d' stored' findings outcome' hcall hget' hstate' hne hwritten houtcome =>
    cases hresponse
    rw [houtcome, DispositionOutcome.allowed_denied] at hallowed
    cases hallowed
  | disposed d' stored' reviews outcome' hcall hget' hstate' hel' hput hwritten houtcome =>
    cases hcall
    cases hget'.symm.trans hget
    obtain ⟨htenant, hid⟩ := LocalReviewStore.key_of_get hget
    have hkey : outcome'.item.key = (d.checkerTenant, d.reviewId) := by
      rw [houtcome, ConsoleService.disposed_key, ReviewItem.key, htenant, hid]
    rw [World.noted_reviews, LocalReviewStore.get_put hput, if_pos hkey.symm, houtcome]

def decision (item : ReviewItem) (headers : RequestHeaders) (m : Moment)
    (disposition : Disposition) : ApiRequest :=
  ⟨headers, .user (.decideReview item.reviewId { disposition }), m⟩

theorem not_draws_decision (headers : RequestHeaders) (m : Moment) (disposition : Disposition) :
    ¬ (decision item headers m disposition).Draws item.reviewId := fun h => h

private theorem serve_decision {headers : RequestHeaders} {principal : Principal} {m : Moment}
    {disposition : Disposition} (hprincipal : api.getPrincipal headers = .ok principal)
    (htenant : principal.tenant = item.tenant)
    (hget : w.reviews.get item.tenant item.reviewId = some stored)
    (hstate : stored.state = .pending)
    (hel : MakerCheckerService.Eligible api.console.engine (api.console.withEffectiveRouting stored)
      (api.actor principal) principal.tenant principal.principals) :
    (api.serve w (decision item headers m disposition)).reviews.get item.tenant item.reviewId =
      some (api.console.disposed stored (DecisionRequest.args { disposition } item.reviewId
        (api.actor principal) principal) m.readings.now) := by
  have hservice : api.serviceCall (decision item headers m disposition) =
      some (.console ⟨api.console, .dispose (DecisionRequest.args { disposition } item.reviewId
        (api.actor principal) principal), m.readings⟩) := by
    simp only [serviceCall, decision, hprincipal]
    rfl
  rw [serve, handle_world, hservice, called, ServiceCall.console_world]
  have hserve := @serve_dispose stored w api.console (DecisionRequest.args { disposition }
    item.reviewId (api.actor principal) principal) m.readings
  change w.reviews.get principal.tenant item.reviewId = some stored → _ → _ →
    (ReviewConsole.serve w _).reviews.get principal.tenant item.reviewId = _ at hserve
  rw [htenant] at hserve
  exact hserve hget hstate hel

theorem ballots_take {b' : Ballot String} (m : Moment) (h : api.Ballots item w b)
    (hstep : Step (api.Admits item) (api.console.engine.requiredApprovals item) b b') :
    ∃ r, ¬ r.Draws item.reviewId ∧ api.Ballots item (api.serve w r) b' := by
  obtain ⟨stored, hget, hballot, hfacts⟩ := h
  have hserve {x : String} (hstate : stored.state = .pending) (hadmits : api.Admits item x)
      (hnew : x ∉ stored.approvers) (disposition : Disposition) : ∃ d headers,
        d.disposition = disposition ∧ d.checker = x ∧
        (api.serve w (decision item headers m disposition)).reviews.get item.tenant item.reviewId =
          some (api.console.disposed stored d m.readings.now) := by
    obtain ⟨headers, principal, hprincipal, rfl, heligible⟩ := hadmits
    exact ⟨_, headers, rfl, rfl, serve_decision hprincipal heligible.tenant hget hstate
      ((eligible_iff_admits hfacts).mpr ⟨heligible, hnew⟩)⟩
  cases hstep with
  | vote x voted hadmits hnew =>
    have hstate : stored.state = .pending :=
      ReviewState.phase_counting (congrArg Ballot.phase hballot)
    obtain rfl : stored.approvers = voted := congrArg Ballot.voted hballot
    obtain ⟨d, headers, happrove, rfl, hget'⟩ := hserve hstate hadmits hnew .approve
    exact ⟨_, not_draws_decision headers m .approve, ballots_approved hfacts hget' happrove⟩
  | close x voted hadmits hnew =>
    have hstate : stored.state = .pending :=
      ReviewState.phase_counting (congrArg Ballot.phase hballot)
    obtain rfl : stored.approvers = voted := congrArg Ballot.voted hballot
    obtain ⟨d, headers, hreject, rfl, hget'⟩ := hserve hstate hadmits hnew .reject
    have hclose : d.disposition ≠ .approve := by
      rw [hreject]
      decide
    exact ⟨_, not_draws_decision headers m .reject, ballots_closed hfacts hget' hclose⟩

end ConsoleApi

section
variable {api : ConsoleApi} {w : World} {item : ReviewItem}

/-- Requests get a pending review approved when its ballot can be passed. -/
theorem approved_iff_passes (m : Moment)
    (hget : w.reviews.get item.tenant item.reviewId = some item)
    (hpending : item.state = .pending) :
    (∃ rs approved, (∀ r ∈ rs, ¬ ApiRequest.Draws r item.reviewId) ∧
        (run api.serve w rs).reviews.get item.tenant item.reviewId = some approved ∧
        approved.state = .approved) ↔
      ∃ b, Relation.ReflTransGen
        (Step (api.Admits item) (api.console.engine.requiredApprovals item))
        ⟨.counting, item.approvers⟩ b ∧ b.phase = .passed := by
  have hs : api.Ballots item w ⟨.counting, item.approvers⟩ :=
    ⟨item, hget, ConsoleApi.ballot_pending hpending, rfl⟩
  constructor
  · intro h
    obtain ⟨rs, approved, hrs, hget', happroved⟩ := h
    obtain ⟨b, hballot, hreach⟩ := reachable_of_run
      (fun w (r : ApiRequest) b (hr : ¬ r.Draws item.reviewId) hballot =>
        ConsoleApi.ballots_step hr hballot) hs hrs
    obtain ⟨stored, hstored, rfl, -⟩ := hballot
    cases hstored.symm.trans hget'
    refine ⟨_, hreach, ?_⟩
    rw [ReviewItem.ballot, happroved]
    rfl
  · intro h
    obtain ⟨b, hreach, hpassed⟩ := h
    obtain ⟨rs, hrs, stored, hstored, rfl, -⟩ := run_of_reachable
      (fun w b b' hballot hstep => ConsoleApi.ballots_take m hballot hstep) hs hreach
    exact ⟨rs, stored, hrs, hstored, ReviewState.phase_passed hpassed⟩

/-- From any state that has a pending review, requests of any kind and order, none of which gives
its id to another review, can get it approved exactly when enough checkers are left whom the
identity adapter can verify and who may check it; and a threshold that is met already, because it
was lowered, still takes one of them. -/
theorem approvable_iff (m : Moment) (hget : w.reviews.get item.tenant item.reviewId = some item)
    (hpending : item.state = .pending) :
    (∃ rs approved, (∀ r ∈ rs, ¬ ApiRequest.Draws r item.reviewId) ∧
        (run api.serve w rs).reviews.get item.tenant item.reviewId = some approved ∧
        approved.state = .approved) ↔
      Enough (api.Admits item) (api.console.engine.requiredApprovals item) item.approvers := by
  rw [approved_iff_passes m hget hpending]
  exact passes_iff

end

namespace Demo

theorem singleApproval_ge : (1 : ℤ) ≤ 1 := Int.le_refl 1

theorem singleApproval_le : (1 : ℤ) ≤ 8 := by omega

def askTransfer : ApiRequest :=
  ⟨[("x-dev-persona", "analyst")], .user (.submitReview {
    action := "transfer"
    subject := "Acme (FICTIONAL)"
    summary := "transfer funds"
    severity := .high
    ge := singleApproval_ge
    le := singleApproval_le }), moment "rev-2" ""⟩

def transfer : ReviewItem :=
  console.newItem {
    reviewId := "rev-2"
    maker := "demo.analyst@bank.example"
    tenant := "demo-bank"
    action := "transfer"
    subject := "Acme (FICTIONAL)"
    summary := "transfer funds"
    severity := .high } noon

theorem getPrincipal_cases {headers : RequestHeaders} {principal : Principal}
    (h : api.getPrincipal headers = .ok principal) :
    principal.subject = "demo.approver@bank.example" ∨
      "group:approver" ∉ principal.principals := by
  simp only [ConsoleApi.getPrincipal, api, persona] at h
  split at h
  · cases h
  · rename_i hpersona
    cases h
    split at hpersona
    · cases hpersona
      exact Or.inr (by decide)
    · cases hpersona
      exact Or.inl rfl
    · cases hpersona

end Demo

/-- Two checkers are asked of the transfer, and the demonstration knows one: whatever is requested,
the transfer is never approved. -/
theorem demo_approvable_iff :
    ¬ ∃ rs approved, (∀ r ∈ rs, ¬ ApiRequest.Draws r "rev-2") ∧
      (run Demo.api.serve (Demo.api.serve World.empty Demo.askTransfer) rs).reviews.get "demo-bank"
        "rev-2" = some approved ∧ approved.state = .approved := by
  intro h
  have hget : (Demo.api.serve World.empty Demo.askTransfer).reviews.get Demo.transfer.tenant
    Demo.transfer.reviewId = some Demo.transfer := rfl
  obtain ⟨voters, -, hvoters, henough⟩ := (approvable_iff (Demo.moment "" "") hget rfl).mp h
  have hone : voters.card ≤ 1 := by
    rw [Finset.card_le_one]
    have happrover : ∀ x ∈ voters, x = "demo.approver@bank.example" := by
      intro x hx
      obtain ⟨⟨headers, principal, hprincipal, rfl, heligible⟩, -⟩ := hvoters x hx
      rcases Demo.getPrincipal_cases hprincipal with hsubject | hrole
      · exact hsubject
      · exact absurd heligible.role hrole
    intro x hx y hy
    rw [happrover x hx, happrover y hy]
  change (2 : ℤ) ≤ 0 + voters.card at henough
  omega

end ReviewConsole

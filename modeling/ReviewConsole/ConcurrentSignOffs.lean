import ReviewConsole.ConcurrentCalls
import ReviewConsole.ServerMakers

/-!
# Sign-offs given at once

Decisions that run at once may overwrite each other, so an approval can be lost. None can be
forged: what is stored has a history of calls that acted one after the other, so four eyes hold of
it as they do in a serial run, and each approval was given by a decision of its own.
-/
namespace ReviewConsole
open PortPrograms GuardedRuns InterleavedPools

/-- The checkers are distinct and not the maker, fewer than asked for while the item is pending,
and as many as asked for once it is approved. -/
structure ReviewItem.FourEyes (item : ReviewItem) : Prop where
  distinct : item.approvers.Nodup
  maker : item.request.maker ∉ item.approvers
  pending : item.state = .pending → (item.approvals.length : ℤ) < item.request.requiredApprovals
  approved : item.state = .approved →
    (item.approvals.length : ℤ) = item.request.requiredApprovals

section
variable {console : ConsoleService} {stored : ReviewItem} {d : DisposeArgs} {now : DateTime}

theorem SignedOff.fourEyes {rs : List ConsoleRequest} {item : ReviewItem} (h : SignedOff rs item) :
    item.FourEyes :=
  ⟨h.distinct, h.maker, h.pending, fun happroved => (h.approved happroved).1⟩

theorem ReviewItem.FourEyes.newItem (console : ConsoleService) (s : Submission) (now : DateTime) :
    (console.newItem s now).FourEyes :=
  (@SignedOff.newItem [] console s now).fourEyes

private theorem fourEyes_approve (h : stored.FourEyes) (hstate : stored.state = .pending)
    (hel : MakerCheckerService.Eligible console.engine (console.withEffectiveRouting stored)
      d.checker d.checkerTenant d.checkerGroups) (hd : d.disposition = .approve) :
    (console.disposed stored d now).FourEyes := by
  have hitem := console.disposed_approve stored d now hd
  have hshort := h.pending hstate
  have hreq : stored.request.requiredApprovals ≤ console.engine.requiredApprovals stored :=
    console.engine.policy.requested_le_requiredApprovals _ _
  have hdistinct := hel.distinct
  have hmaker := hel.maker
  rw [ConsoleService.withEffectiveRouting_approvers] at hdistinct
  rw [ConsoleService.withEffectiveRouting_maker] at hmaker
  rw [hitem]
  constructor
  · rw [ReviewItem.withApproval_approvers, ConsoleService.withEffectiveRouting_approvers]
    refine List.nodup_append.mpr ⟨h.distinct, by simp, ?_⟩
    rintro a ha b hb rfl
    rw [List.mem_singleton.mp hb] at ha
    exact hdistinct ha
  · rw [ReviewItem.withApproval_approvers, ConsoleService.withEffectiveRouting_approvers]
    simp [h.maker, Ne.symm hmaker]
  · intro hpending
    rw [ReviewItem.withApproval_state] at hpending
    split at hpending
    · cases hpending
    · simp only [ReviewItem.withApproval_approvals, ReviewItem.withApproval_request,
        ConsoleService.withEffectiveRouting_approvals, List.length_append, List.length_singleton,
        ConsoleService.withEffectiveRouting_requiredApprovals]
      omega
  · intro happroved
    rw [ReviewItem.withApproval_state] at happroved
    split at happroved
    · simp only [ReviewItem.withApproval_approvals, ReviewItem.withApproval_request,
        ConsoleService.withEffectiveRouting_approvals, List.length_append, List.length_singleton,
        ConsoleService.withEffectiveRouting_requiredApprovals]
      omega
    · cases happroved

theorem ReviewItem.FourEyes.disposed (h : stored.FourEyes) (hstate : stored.state = .pending)
    (hel : MakerCheckerService.Eligible console.engine (console.withEffectiveRouting stored)
      d.checker d.checkerTenant d.checkerGroups) : (console.disposed stored d now).FourEyes := by
  by_cases hd : d.disposition = .approve
  · exact fourEyes_approve h hstate hel hd
  · obtain ⟨state, hs, hitem⟩ := console.disposed_resolved stored d now hd
    rw [hitem]
    refine ⟨by simpa using h.distinct, by simpa using h.maker, ?_, ?_⟩
    · rcases hs with ⟨-, rfl⟩ | ⟨-, rfl⟩ <;> simp
    · rcases hs with ⟨-, rfl⟩ | ⟨-, rfl⟩ <;> simp

end

/-- The request disposes of the review, and its disposition is accepted. -/
structure Disposes (tenant id : String) (r : ConsoleRequest) (d : DisposeArgs)
    (stored : ReviewItem) : Prop where
  call : r.call = .dispose d
  key : d.checkerTenant = tenant ∧ d.reviewId = id
  pending : stored.state = .pending
  eligible : MakerCheckerService.Eligible r.service.engine (r.service.withEffectiveRouting stored)
    d.checker d.checkerTenant d.checkerGroups

section
variable {tenant id : String}

private theorem serve_review (w : World) (r : ConsoleRequest) :
    (serve w r).reviews.get tenant id = w.reviews.get tenant id ∨
    (∃ s, (r.call = .submit s ∨ r.call = .submitIdempotent s) ∧
      (serve w r).reviews.get tenant id = some (r.service.newItem s r.readings.now)) ∨
    ∃ d stored, Disposes tenant id r d stored ∧ w.reviews.get tenant id = some stored ∧
      (serve w r).reviews.get tenant id = some (r.service.disposed stored d r.readings.now) ∧
      (answer w r).1 =
        .ok (.outcome ⟨r.service.disposed stored d r.readings.now, .allowed, []⟩) := by
  have heffect := consoleEffect_answer w r
  cases hget : (serve w r).reviews.get tenant id with
  | none =>
    rcases heffect.review_step tenant id with
      ⟨hsame, -⟩ | ⟨s, item, -, -, -, -, hsome, -⟩ | ⟨d, stored, -, -, -, -, hsome, -⟩ |
        ⟨d, stored, item, -, -, -, -, -, hsome, -⟩
    · exact Or.inl (hget.symm.trans hsame)
    · cases hget.symm.trans hsome
    · cases hget.symm.trans hsome
    · cases hget.symm.trans hsome
  | some item =>
    rcases heffect.origin hget with
      hold | ⟨s, hcall, rfl⟩ | ⟨d, stored, hcall, htenant, hid, hstored, hstate, hel, rfl, hanswer⟩
    · exact Or.inl hold.symm
    · exact Or.inr (Or.inl ⟨s, hcall, rfl⟩)
    · exact Or.inr (Or.inr
        ⟨d, stored, ⟨hcall, ⟨htenant, hid⟩, hstate, hel⟩, hstored, rfl, hanswer⟩)

/-- A call leaves a review, replaces it by a new one, or settles or approves it as an accepted
disposition does. -/
theorem acts_review {call : ServiceCall} {v v' : Option ReviewItem}
    {x : Except ServiceError ServiceResponse}
    (h : call.Acts (fun w => w.reviews.get tenant id) v x v') :
    v' = v ∨ (∃ w q s, call.Submits w q s ∧ v' = some (q.service.newItem s q.readings.now)) ∨
    ∃ r d stored, call = .console r ∧ Disposes tenant id r d stored ∧ v = some stored ∧
      v' = some (r.service.disposed stored d r.readings.now) ∧
      x = .ok (.console (.outcome ⟨r.service.disposed stored d r.readings.now, .allowed, []⟩)) := by
  obtain ⟨w, rfl, rfl, rfl⟩ := h
  cases call with
  | console r =>
    rw [ServiceCall.console_world]
    have hanswer : ((ServiceCall.console r).answer w).1 = (answer w r).1.map .console := by
      rw [ServiceCall.answer, ServiceCall.program, Program.exec_bind_pure]
      rfl
    rcases @serve_review tenant id w r with
      hsame | ⟨s, hsubmits, hnew⟩ | ⟨d, stored, hdisposes, hget, hleft, hresponse⟩
    · exact Or.inl hsame
    · exact Or.inr (Or.inl ⟨w, r, s, ⟨hsubmits, rfl⟩, hnew⟩)
    · refine Or.inr (Or.inr ⟨r, d, stored, rfl, hdisposes, hget, hleft, ?_⟩)
      rw [hanswer, hresponse]
      rfl
  | engine svc q =>
    rw [ServiceCall.engine_world]
    dsimp only
    rw [(serveCase_queue svc w q).reviews]
    rcases svc.routedRequests_cases w q with hnone |
      ⟨a, routing, c, d, assessment, console, -, hone⟩
    · rw [hnone]
      exact Or.inl rfl
    · rw [hone]
      change (serve w _).reviews.get tenant id = _ ∨ _
      rcases @serve_review tenant id w ⟨console, .submit (console.routedReview c assessment
        (CaseWorkflowService.routingMaker c) routing.reviewId), routing.readings⟩ with
        hsame | ⟨s, hsubmits, hnew⟩ | ⟨d, stored, hdisposes, -⟩
      · exact Or.inl hsame
      · have hrouted : (⟨console, .submit (console.routedReview c assessment
            (CaseWorkflowService.routingMaker c) routing.reviewId), routing.readings⟩ :
            ConsoleRequest) ∈ svc.routedRequests w q := hone ▸ List.mem_singleton_self _
        exact Or.inr (Or.inl ⟨w, _, s, ⟨hsubmits, hrouted⟩, hnew⟩)
      · cases hdisposes.call

/-- The call has given the approval to the review under the key, and `x` is its answer. -/
def ServiceCall.Gave (call : ServiceCall) (tenant id : String)
    (x : Except ServiceError ServiceResponse) (approval : Approval) : Prop :=
  ∃ r d outcome, call = .console r ∧ r.call = .dispose d ∧ d.disposition = .approve ∧
    d.checker = approval.checker ∧ d.checkerTenant = tenant ∧ d.reviewId = id ∧
    r.service.engine.policy.approverGroup ∈ d.checkerGroups ∧
    x = .ok (.console (.outcome outcome)) ∧ outcome.allowed = true ∧
    outcome.item.approvals.getLast? = some approval

def storedApprovals (v : Option ReviewItem) : List Approval := (v.map ReviewItem.approvals).getD []

/-- The call has submitted the review, as it is now if it is still there. -/
def ServiceCall.Submitted (call : ServiceCall) (v : Option ReviewItem) : Prop :=
  ∃ w q s, call.Submits w q s ∧ ∀ item, v = some item → item.SubmittedAs s q.readings.now

/-- A call submits a review anew, without approvals; or the review stays what it was submitted as,
and keeps its approvals or is given one. -/
private theorem acts_approvals {call : ServiceCall} {v v' : Option ReviewItem}
    {x : Except ServiceError ServiceResponse}
    (h : call.Acts (fun w => w.reviews.get tenant id) v x v') :
    (storedApprovals v' = [] ∧ call.Submitted v') ∨
      ((∀ call' : ServiceCall, call'.Submitted v → call'.Submitted v') ∧
        (storedApprovals v' = storedApprovals v ∨
          ∃ b, storedApprovals v' = storedApprovals v ++ [b] ∧ call.Gave tenant id x b)) := by
  rcases acts_review h with
    rfl | ⟨w, q, s, hsubmits, rfl⟩ | ⟨r, d, stored, rfl, hdisposes, rfl, rfl, rfl⟩
  · exact Or.inr ⟨fun _ h => h, Or.inl rfl⟩
  · refine Or.inl ⟨by simp [storedApprovals], w, q, s, hsubmits, ?_⟩
    rintro item ⟨⟩
    exact submittedAs_newItem q.service
  · refine Or.inr ⟨?_, ?_⟩
    · rintro call' ⟨w, q, s, hsubmits, hstored⟩
      refine ⟨w, q, s, hsubmits, ?_⟩
      rintro item ⟨⟩
      exact submittedAs_disposed (hstored stored rfl) r.service d r.readings.now
    · by_cases hd : d.disposition = .approve
      · have hitem := r.service.disposed_approve stored d r.readings.now hd
        refine Or.inr ⟨⟨d.checker, d.reason, d.asOf.getD (d.asOf.getD r.readings.now)⟩, ?_,
          r, d, _, rfl, hdisposes.call, hd, rfl, hdisposes.key.1, hdisposes.key.2,
          hdisposes.eligible.role, rfl, rfl, ?_⟩
        · simp [storedApprovals, hitem]
        · simp [hitem]
      · obtain ⟨state, -, hitem⟩ := r.service.disposed_resolved stored d r.readings.now hd
        exact Or.inl (by simp [storedApprovals, hitem])

private theorem acts_fourEyes {call : ServiceCall} {v v' : Option ReviewItem}
    {x : Except ServiceError ServiceResponse}
    (h : call.Acts (fun w => w.reviews.get tenant id) v x v')
    (hv : ∀ item, v = some item → item.FourEyes) : ∀ item, v' = some item → item.FourEyes := by
  rcases acts_review h with
    rfl | ⟨w, q, s, -, rfl⟩ | ⟨r, d, stored, rfl, hdisposes, rfl, rfl, rfl⟩
  · exact hv
  · rintro item ⟨⟩
    exact .newItem q.service s q.readings.now
  · rintro item ⟨⟩
    exact (hv stored rfl).disposed hdisposes.pending hdisposes.eligible

end

/-- The calls that the requests make, after a schedule of their port operations. -/
def Server.atOnce (s : Server) (rs : List ApiRequest) (is : List ℕ) :
    Pool PortOp PortOp.Ret ServiceError ServiceResponse World :=
  calling s.world (rs.filterMap s.api.serviceCall) is

/-- The `i`-th call is the decision of the principal, who holds the approver group of the policy
in force in the item's tenant; if it has returned, it returned the approval. -/
structure SignsAtOnce (s : Server) (rs : List ApiRequest) (is : List ℕ) (item : ReviewItem) (i : ℕ)
    (r : ApiRequest) (principal : Principal) (approval : Approval) : Prop where
  thread : (rs.filterMap s.api.serviceCall)[i]? = s.api.serviceCall r
  verified : s.api.getPrincipal r.headers = .ok principal
  checker : s.api.actor principal = approval.checker
  tenant : principal.tenant = item.tenant
  role : s.api.console.engine.policy.approverGroup ∈ principal.principals
  call : ∃ request, r.call = .user (.decideReview item.reviewId request) ∧
    request.disposition = .approve
  returned : ∀ x, (s.atOnce rs is).threads[i]? = some (.ended x) → ∃ outcome,
    x = .ok (.console (.outcome outcome)) ∧ outcome.allowed = true ∧
      outcome.item.approvals.getLast? = some approval

/-- The `i`-th call is that of a request that submits the review anew. -/
def ResubmitsAtOnce (s : Server) (rs : List ApiRequest) (item : ReviewItem) (i : ℕ) : Prop :=
  ∃ r ∈ rs, (rs.filterMap s.api.serviceCall)[i]? = s.api.serviceCall r ∧
    ∃ w, MadeBy ⟨s.api, w⟩ r item

section
variable {s : Server} {rs : List ApiRequest} {is : List ℕ} {item : ReviewItem}

private theorem resubmitsAtOnce_of_submitted {i : ℕ} {v : Option ReviewItem}
    (h : ∃ call, (rs.filterMap s.api.serviceCall)[i]? = some call ∧ call.Submitted v)
    (hitem : v = some item) : ResubmitsAtOnce s rs item i := by
  obtain ⟨call, hi, w, q, s', hsubmits, hsubmitted⟩ := h
  obtain ⟨r, hr, hcall⟩ := List.mem_filterMap.mp (List.mem_of_getElem? hi)
  exact ⟨r, hr, hi.trans hcall.symm, w, madeBy_of_submits hcall hsubmits (hsubmitted item hitem)⟩

private theorem signsAtOnce_of_gave {e : ℕ × Except ServiceError ServiceResponse}
    {approval : Approval}
    (hended : ∀ x, (s.atOnce rs is).threads[e.1]? = some (.ended x) → x = e.2)
    (h : ∃ call, (rs.filterMap s.api.serviceCall)[e.1]? = some call ∧
      call.Gave item.tenant item.reviewId e.2 approval) :
    ∃ r ∈ rs, ∃ principal, SignsAtOnce s rs is item e.1 r principal approval := by
  obtain ⟨call, hi, q, d, outcome, rfl, hd, happrove, hchecker, htenant, hid, hrole, hx, hallowed,
    hlast⟩ := h
  obtain ⟨r, hr, hcall⟩ := List.mem_filterMap.mp (List.mem_of_getElem? hi)
  obtain ⟨reviewId, request, principal, hroute, hprincipal, rfl⟩ :=
    ConsoleApi.serviceCall_dispose hcall hd
  cases hd
  refine ⟨r, hr, principal, hi.trans hcall.symm, hprincipal, hchecker, htenant, hrole, ?_, ?_⟩
  · have hid' : reviewId = item.reviewId := hid
    exact ⟨request, hid' ▸ hroute, happrove⟩
  · intro x hended'
    exact ⟨outcome, (hended x hended').trans hx, hallowed, hlast⟩

end

/-- With the review table on disk, take any state that the server reaches and any requests that it
then handles at once, their port operations falling between each other in any way. An approved
review holds exactly the approvals it asks for, by distinct checkers who are not its maker. Its
approvals are those it had, or none where one of the requests submitted it anew, and then one for
each of some of the requests, whose principal is of its tenant and entitled and who was answered
with it. -/
theorem decisions_at_once_sign_off (disk : Disk) (hreviews : disk.reviews = true)
    (api : ConsoleApi) (es : List ServerEvent) (rs : List ApiRequest) (is : List ℕ) :
    ∀ item ∈ ((Server.after disk api es).atOnce rs is).shared.reviews.table.rows,
      (item.state = .approved →
        (item.approvals.length : ℤ) = item.request.requiredApprovals) ∧
      item.approvers.Nodup ∧ item.request.maker ∉ item.approvers ∧
      ∃ before added givers, item.approvals = before ++ added ∧
        List.Forall₂ (fun i approval => ∃ r ∈ rs, ∃ principal,
          SignsAtOnce (Server.after disk api es) rs is item i r principal approval)
          givers added ∧
        ((before = storedApprovals ((Server.after disk api es).world.reviews.get item.tenant
            item.reviewId) ∧ givers.Nodup) ∨
          (before = [] ∧ ∃ i, ResubmitsAtOnce (Server.after disk api es) rs item i ∧
            (i :: givers).Nodup)) := by
  intro item hitem
  have hget := LocalReviewStore.get_of_mem hitem
  obtain ⟨order, hnodup, hmade, hended⟩ := review_explained (Server.after disk api es).world
    (rs.filterMap (Server.after disk api es).api.serviceCall) is item.tenant item.reviewId
  have hstart : ∀ old, (Server.after disk api es).world.reviews.get item.tenant item.reviewId =
      some old → old.FourEyes := by
    intro old hold
    rw [(Server.after_queue hreviews api es).reviews] at hold
    exact (signedOff_run _ hold).fourEyes
  have hfour : item.FourEyes := hmade.invariant
    (I := fun v => ∀ item, v = some item → ReviewItem.FourEyes item)
    (fun _ _ _ _ ⟨_, _, hacts⟩ => acts_fourEyes hacts) hstart item hget
  obtain ⟨before, added, entries, happrovals, hall, horigin⟩ := hmade.log storedApprovals
    (fun e b => ∃ call, (rs.filterMap (Server.after disk api es).api.serviceCall)[e.1]? =
      some call ∧ call.Gave item.tenant item.reviewId e.2 b)
    (fun e v => ∃ call, (rs.filterMap (Server.after disk api es).api.serviceCall)[e.1]? =
      some call ∧ call.Submitted v)
    (by
      rintro i v x v' ⟨call, hi, hacts⟩
      rcases acts_approvals hacts with ⟨hnone, hsubmitted⟩ | ⟨hkeep, hsame | ⟨b, hadd, hgave⟩⟩
      · exact Or.inl ⟨hnone, call, hi, hsubmitted⟩
      · exact Or.inr ⟨fun e ⟨call', hi', h⟩ => ⟨call', hi', hkeep call' h⟩, Or.inl hsame⟩
      · exact Or.inr ⟨fun e ⟨call', hi', h⟩ => ⟨call', hi', hkeep call' h⟩,
          Or.inr ⟨b, hadd, call, hi, hgave⟩⟩)
  have hsub : entries.Sublist order := by
    rcases horigin with ⟨-, hsub⟩ | ⟨-, e, -, hsub⟩
    · exact hsub
    · exact (List.sublist_cons_self e entries).trans hsub
  refine ⟨hfour.approved, hfour.distinct, hfour.maker, before, added, entries.map Prod.fst, ?_, ?_,
    ?_⟩
  · have hstored : storedApprovals (some item) = before ++ added := by
      rw [← happrovals]
      exact congrArg storedApprovals hget.symm
    exact hstored
  · rw [List.forall₂_map_left_iff]
    have hboth := (List.forall₂_and_left _ _).mpr ⟨fun e he => hended e (hsub.subset he), hall⟩
    exact hboth.imp (fun e b h => signsAtOnce_of_gave h.1 h.2)
  · rcases horigin with ⟨hbefore, -⟩ | ⟨hbefore, e, hsubmitted, hsub'⟩
    · exact Or.inl ⟨hbefore, (hsub.map _).nodup hnodup⟩
    · exact Or.inr ⟨hbefore, e.1, resubmitsAtOnce_of_submitted hsubmitted hget,
        (hsub'.map Prod.fst).nodup hnodup⟩

namespace Demo

def decideFacility (disposition : Disposition) : ApiRequest where
  headers := [("x-dev-persona", "approver")]
  call := .user (.decideReview "rev-1" { disposition, reason := "ok" })
  moment := moment "" ""

def bothDecisions : List ApiRequest := [decideFacility .reject, decideFacility .approve]

/-- Both read the facility, then the rejection is written and then the approval. -/
def approvalLast : List ℕ := [0, 1, 0, 0, 1, 1]

end Demo

/-- The approval that overwrites the rejection is one that its request gave. -/
theorem demo_decisions_at_once_sign_off :
    ∃ item, item.state = .approved ∧ item.approvers = ["demo.approver@bank.example"] ∧
      (item.approvals.length : ℤ) = item.request.requiredApprovals ∧
      ∃ i, ∃ r ∈ Demo.bothDecisions, ∃ principal approval,
        SignsAtOnce (Server.after ⟨true, false⟩ Demo.api [Demo.submitFacility]) Demo.bothDecisions
          Demo.approvalLast item i r principal approval := by
  obtain ⟨item, hget, hstate, happrovers⟩ : ∃ item,
      ((Server.after ⟨true, false⟩ Demo.api [Demo.submitFacility]).atOnce Demo.bothDecisions
        Demo.approvalLast).shared.reviews.get "demo-bank" "rev-1" = some item ∧
      item.state = .approved ∧ item.approvers = ["demo.approver@bank.example"] :=
    ⟨_, rfl, rfl, rfl⟩
  have h := decisions_at_once_sign_off ⟨true, false⟩ rfl Demo.api [Demo.submitFacility]
    Demo.bothDecisions Demo.approvalLast item (LocalReviewStore.mem_of_get hget)
  obtain ⟨hcount, -, -, before, added, givers, happrovals, hall, horigin⟩ := h
  obtain ⟨htenant, hid⟩ := LocalReviewStore.key_of_get hget
  have hnone : before = [] := by
    rcases horigin with ⟨rfl, -⟩ | ⟨hnone, -⟩
    · rw [htenant, hid]
      decide
    · exact hnone
  rw [hnone, List.nil_append] at happrovals
  refine ⟨item, hstate, happrovers, hcount hstate, ?_⟩
  cases hall with
  | nil =>
    rw [ReviewItem.approvers, happrovals] at happrovers
    cases happrovers
  | cons hgiven hrest =>
    obtain ⟨r, hr, principal, hsigns⟩ := hgiven
    exact ⟨_, r, hr, principal, _, hsigns⟩

end ReviewConsole

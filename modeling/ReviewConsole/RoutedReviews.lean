import ReviewConsole.CaseTrails

/-!
# The reviews that escalations route

Every evaluation that escalates submits a review of its own to the console; nothing asks
whether the case is already under review. A case has at most one pending review as long as
each escalation finds none.
-/
namespace ReviewConsole
open PortPrograms GuardedRuns KeyedTables

/-- What reaches a case under escalation: an evaluation, or a disposition of some review. -/
inductive Delivery where
  | evaluate (a : EvaluateArgs) (readings : Readings) (routing : Routing)
  | dispose (console : ConsoleService) (d : DisposeArgs) (readings : Readings)

def deliver (svc : CaseWorkflowService) (w : World) : Delivery → World
  | .evaluate a readings routing => serveCase svc w ⟨.evaluateCase a routing, readings⟩
  | .dispose console d readings => serve w ⟨console, .dispose d, readings⟩

def World.pendingFor (w : World) (tenant caseId : String) : List ReviewItem :=
  w.reviews.table.rows.filter
    (fun item => item.tenant = tenant ∧ item.request.caseRef = caseId ∧ item.state = .pending)

/-- The evaluations are of this case, and a review they route has an unused id. -/
def OnCase (tenant caseId : String) (w : World) : Delivery → Prop
  | .evaluate a _ routing =>
    a.tenant = tenant ∧ a.caseId = caseId ∧ w.reviews.get tenant routing.reviewId = none
  | .dispose _ _ _ => True

/-- An evaluation that escalates finds no pending review of the case. -/
def OneAtATime (svc : CaseWorkflowService) (tenant caseId : String) (w : World) : Delivery → Prop
  | .evaluate a readings _ => escalates svc w a readings = true → w.pendingFor tenant caseId = []
  | .dispose _ _ _ => True

instance (tenant caseId : String) (w : World) (r : Delivery) :
    Decidable (OnCase tenant caseId w r) := by
  unfold OnCase
  split <;> infer_instance

instance (svc : CaseWorkflowService) (tenant caseId : String) (w : World) (r : Delivery) :
    Decidable (OneAtATime svc tenant caseId w r) := by
  unfold OneAtATime
  split <;> infer_instance

section
variable {svc : CaseWorkflowService} {w : World} {tenant caseId : String}

theorem routedItem_pending (console : ConsoleService) (c : Case) (assessment : CaseAssessment)
    (routing : Routing) :
    (CaseWorkflowService.routedItem console c assessment routing).key =
      (c.tenant, routing.reviewId) ∧
    (CaseWorkflowService.routedItem console c assessment routing).tenant = c.tenant ∧
    (CaseWorkflowService.routedItem console c assessment routing).request.caseRef = c.caseId ∧
    (CaseWorkflowService.routedItem console c assessment routing).state = .pending := by
  have hkey : (CaseWorkflowService.routedItem console c assessment routing).key =
      (c.tenant, routing.reviewId) := ConsoleService.newItem_key
  refine ⟨hkey, congrArg Prod.fst hkey, ?_, ConsoleService.newItem_state⟩
  simp [CaseWorkflowService.routedItem, ConsoleService.newItem, ConsoleService.routedReview]

/-- An evaluation of the case adds one pending review if it escalates, and none otherwise. -/
theorem pendingFor_evaluate {console : ConsoleService} (hrouter : svc.reviewRouter = some console)
    {a : EvaluateArgs} {readings : Readings} {routing : Routing}
    (hon : OnCase tenant caseId w (.evaluate a readings routing)) :
    ((deliver svc w (.evaluate a readings routing)).pendingFor tenant caseId).length =
      (w.pendingFor tenant caseId).length + (escalates svc w a readings).toNat := by
  obtain ⟨htenant, hid, hfresh⟩ := hon
  have heffect := caseEffect svc w ⟨.evaluateCase a routing, readings⟩
  simp only [deliver, serveCase]
  cases heffect with
  | untouched hidle hresponse hworld =>
    rw [hworld, escalates_of_idle hidle]
    rfl
  | evaluated a' routing' c d assessment reviews submitted hcall hget hdefinition hassess hrouted
      hresponse hworld =>
    cases hcall
    rw [hworld, escalates_of_assessed hget hdefinition hassess]
    rcases routed_cases hrouted with ⟨hquiet, rfl, -⟩ | ⟨router, hreview, -, hput, -⟩
    · have hno : assessment.requiresHumanReview = false := hquiet.resolve_right (by simp [hrouter])
      rw [hno]
      rfl
    · have hcase : c.key = (tenant, caseId) := by
        rw [← htenant, ← hid]
        exact KeyedTable.key_of_find? hget
      obtain ⟨hc, hi⟩ := Prod.mk.inj hcase
      obtain ⟨hkey, hitemTenant, hcaseRef, hstate⟩ := routedItem_pending router c assessment routing
      have hrows : reviews.table.rows =
          w.reviews.table.rows ++ [CaseWorkflowService.routedItem router c assessment routing] := by
        rw [LocalReviewStore.put_table hput]
        apply KeyedTable.rows_upsert_of_fresh
        rw [hkey, hc]
        exact hfresh
      simp only [World.pendingFor]
      rw [hrows, List.filter_append, List.length_append, hreview]
      simp [hitemTenant, hcaseRef, hstate, hc, hi]
  | opened a' d c timers hcall => cases hcall
  | openedPartly a' d c timers e hcall => cases hcall
  | refused a' c d hcall => cases hcall
  | moved a' c moved d hcall => cases hcall

theorem pendingFor_dispose (svc : CaseWorkflowService) (w : World) (tenant caseId : String)
    (console : ConsoleService) (d : DisposeArgs) (readings : Readings) :
    ((deliver svc w (.dispose console d readings)).pendingFor tenant caseId).length ≤
      (w.pendingFor tenant caseId).length := by
  have heffect := consoleEffect_answer w ⟨console, .dispose d, readings⟩
  simp only [deliver, serve]
  generalize (answer w ⟨console, .dispose d, readings⟩).1 = response at heffect
  generalize (answer w ⟨console, .dispose d, readings⟩).2 = w' at heffect ⊢
  cases heffect with
  | untouched => exact le_refl _
  | refused => exact le_refl _
  | submitted s item reviews hcall => cases hcall <;> contradiction
  | denied => exact le_refl _
  | disposed d' stored reviews outcome hcall hget hstate heligible hput hwritten houtcome =>
    rw [World.pendingFor, World.noted_reviews, LocalReviewStore.put_table hput, houtcome]
    have hkey := console.disposed_key stored d' readings.now
    have hcaseRef : (console.disposed stored d' readings.now).request.caseRef =
        stored.request.caseRef := by simp
    apply KeyedTable.length_filter_upsert_le
    · rw [hkey, KeyedTable.key_of_find? hget]
      exact hget
    · intro hp
      have htenant : (console.disposed stored d' readings.now).tenant = stored.tenant :=
        congrArg Prod.fst hkey
      simp only [decide_eq_true_eq, htenant, hcaseRef] at hp ⊢
      exact ⟨hp.1, hp.2.1, hstate⟩

end

/-- Over the deliveries to a case and the dispositions between them, the case has at most one
pending review at every moment exactly when each escalation finds none. -/
theorem one_pending_review_iff (svc : CaseWorkflowService) (console : ConsoleService)
    (hrouter : svc.reviewRouter = some console) (tenant caseId : String) (w : World)
    (hstart : (w.pendingFor tenant caseId).length ≤ 1) (rs : List Delivery)
    (hon : Along (deliver svc) (OnCase tenant caseId) w rs) :
    Always (deliver svc) (fun w => (w.pendingFor tenant caseId).length ≤ 1) w rs ↔
      Along (deliver svc) (OneAtATime svc tenant caseId) w rs := by
  refine always_iff_along (fun _ => True) (OnCase tenant caseId) (fun _ _ _ _ _ _ => trivial) ?_
    trivial hstart hon
  intro w r _ hone hr
  cases r with
  | evaluate a readings routing =>
    rw [pendingFor_evaluate hrouter hr]
    change _ ↔ (escalates svc w a readings = true → w.pendingFor tenant caseId = [])
    cases escalates svc w a readings with
    | false => simp [hone]
    | true =>
      rw [← List.length_eq_zero_iff]
      simp
  | dispose console d readings =>
    have hle := pendingFor_dispose svc w tenant caseId console d readings
    exact ⟨fun _ => trivial, fun _ => hle.trans hone⟩

namespace Demo

/-- The deadline timer of the complaint, delivered five weeks after noon. -/
def delivery (reviewId : String) : Delivery :=
  .evaluate {
    caseId := "case-1"
    tenant := "demo-bank"
    asOf := some (noon.addDays 35) } readings ⟨reviewId, readings⟩

def rejection : Delivery :=
  .dispose console (disposition "demo.approver@bank.example" .reject) readings

end Demo

/-- A late complaint is reviewed, rejected and reviewed again. -/
theorem demo_one_pending_review :
    Always (deliver Demo.complaints) (fun w => (w.pendingFor "demo-bank" "case-1").length ≤ 1)
      (engineAfter Demo.complaints [Demo.openCase "complaint"])
      [Demo.delivery "rev-1", Demo.rejection, Demo.delivery "rev-2"] :=
  (one_pending_review_iff Demo.complaints Demo.console rfl "demo-bank" "case-1" _ (by decide) _
    (by decide)).mpr (by decide)

/-- Delivered twice, the timer of a late complaint routes two reviews of it. -/
theorem two_pending_reviews : ¬ ∀ (svc : CaseWorkflowService) (console : ConsoleService)
    (start : List CaseRequest) (tenant caseId : String) (rs : List Delivery),
    svc.reviewRouter = some console → Along (serveCase svc) FreshCase World.empty start →
    (engineAfter svc start).pendingFor tenant caseId = [] →
    Along (deliver svc) (OnCase tenant caseId) (engineAfter svc start) rs →
    Always (deliver svc) (fun w => (w.pendingFor tenant caseId).length ≤ 1) (engineAfter svc start)
      rs := by
  intro h
  have hone := h Demo.complaints Demo.console [Demo.openCase "complaint"] "demo-bank" "case-1"
    [Demo.delivery "rev-1", Demo.delivery "rev-2"] rfl (by decide) (by decide) (by decide) _
    (List.prefix_refl _)
  revert hone
  decide

end ReviewConsole

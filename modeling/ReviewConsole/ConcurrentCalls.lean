import ReviewConsole.BranchedCells
import ReviewConsole.ConcurrentDispositions
import ReviewConsole.ConcurrentTransitions
import ReviewConsole.TenantViews

/-!
# Calls that run at once

The routes run in a pool of threads, so the port operations of one call fall between those of
another. A call writes at most one review and at most one case, and what it writes it would have
written alone: every stored row has a history of calls that acted one after the other.
-/
namespace ReviewConsole
open PortPrograms Program GuardedRuns InterleavedPools

def calling (w : World) (calls : List ServiceCall) (is : List ℕ) :
    Pool PortOp PortOp.Ret ServiceError ServiceResponse World :=
  run (Pool.step localPorts) (.start w (calls.map ServiceCall.program)) is

/-- Alone, in stores where the content is `v`, the call is answered `x` and leaves `v'`. -/
def ServiceCall.Acts {V : Type} (content : World → V) (call : ServiceCall) (v : V)
    (x : Except ServiceError ServiceResponse) (v' : V) : Prop :=
  ∃ w, content w = v ∧ (call.answer w).1 = x ∧ content (call.answer w).2 = v'

/-- Some of the calls, each at most once and one after the other, make `v` of `v₀`, and each of
them that has returned was answered as it is there. -/
def Explained {V : Type} (content : World → V) (calls : List ServiceCall)
    (p : Pool PortOp PortOp.Ret ServiceError ServiceResponse World) (v₀ v : V) : Prop :=
  ∃ order, (order.map Prod.fst).Nodup ∧
    Made (fun i v x v' => ∃ call, calls[i]? = some call ∧ call.Acts content v x v') v₀ order v ∧
    ∀ e ∈ order, ∀ x, p.threads[e.1]? = some (.ended x) → x = e.2

def PortOp.IsReport : PortOp → Prop
  | .publish _ | .record _ | .timerSchedule _ | .timerCancel _ _ _ => True
  | _ => False

def PortOp.IsLookup : PortOp → Prop
  | .reviewGet _ _ | .reviewFindBySourceKey _ _ | .reviewListPending _ | .reviewListAll _
  | .caseGet _ _ | .caseListByTenant _ => True
  | _ => False

section
variable {console : ConsoleService} {svc : CaseWorkflowService}

private theorem report_record (e : AuditEvent) :
    (port (.record e) : Service Unit).Only PortOp.IsReport :=
  only_perform (show PortOp.IsReport (.record e) from trivial)

variable (console) in
theorem submit_steps (s : Submission) (r : Readings) : ∃ next, console.submit s r =
    .call (.reviewPut (console.newItem s r.now)) next ∧ ∀ a, (next a).Only PortOp.IsReport :=
  ⟨_, rfl, fun _ => (report_record _).bind (fun _ => only_pure _)⟩

variable (console) in
theorem submitIdempotent_steps (s : Submission) (r : Readings) : ∃ next,
    console.submitIdempotent s r =
      .call (.reviewPutIfAbsentBySourceKey (console.newItem s r.now)) next ∧
        ∀ a, (next a).Only PortOp.IsReport := by
  refine ⟨_, rfl, fun answer => ?_⟩
  dsimp only [Program.bind]
  split
  · exact (report_record _).bind (fun _ => only_pure _)
  · exact only_pure _

variable (console) in
theorem dispose_steps (d : DisposeArgs) (r : Readings) : ∃ next, console.dispose d r =
    .call (.reviewGet d.checkerTenant d.reviewId) next ∧
      next none = .raise (.reviewNotFound d.reviewId) ∧
      ∀ stored, (next (some stored)).Only PortOp.IsReport ∨
        ∃ after, next (some stored) =
          .call (.reviewPut (console.disposed stored d r.now)) after ∧
            ∀ a, (after a).Only PortOp.IsReport := by
  refine ⟨_, rfl, rfl, fun stored => ?_⟩
  dsimp only [Program.bind]
  rcases MakerCheckerService.dispose_cases console.engine (console.withEffectiveRouting stored)
    (d.decision r.now) d.asOf with
    ⟨-, e, hdispose⟩ | ⟨-, findings, -, -, hdispose⟩ | ⟨-, -, hdispose⟩
  · rw [hdispose]
    exact Or.inl (only_raise _)
  · rw [hdispose]
    exact Or.inl ((report_record _).bind (fun _ => only_pure _))
  · rw [hdispose]
    exact Or.inr ⟨_, rfl, fun _ => (report_record _).bind (fun _ => only_pure _)⟩

variable (svc) in
theorem openCase_steps (a : OpenArgs) (r : Readings) :
    svc.openCase a r = .raise (.unknownWorkflow a.caseType) ∨
    ∃ d next, svc.openCase a r =
      .call (.casePut (CaseWorkflowService.opened a d r.now)) next ∧
        ∀ u, (next u).Only PortOp.IsReport := by
  cases hdefinition : svc.definitions.definition a.caseType with
  | none =>
    left
    simp only [CaseWorkflowService.openCase, CaseWorkflowService.definition, hdefinition]
    rfl
  | some d =>
    obtain ⟨next, heq, hnext⟩ := openCase_call hdefinition r
    exact Or.inr ⟨d, next, heq, fun _ => hnext _ (fun _ _ => trivial) (fun _ => trivial)
      (fun _ => trivial)⟩

private theorem definition_eq {caseType : String} {d : WorkflowDefinition}
    (h : svc.definitions.definition caseType = some d) : svc.definition caseType = pure d := by
  simp only [CaseWorkflowService.definition, h]

private theorem definition_raise {caseType : String}
    (h : svc.definitions.definition caseType = none) :
    svc.definition caseType = .raise (.unknownWorkflow caseType) := by
  simp only [CaseWorkflowService.definition, h]

variable (svc) in
theorem transitionCase_steps (a : TransitionArgs) (r : Readings) : ∃ next,
    svc.transitionCase a r = .call (.caseGet a.tenant a.caseId) next ∧
      next none = .raise (.caseNotFound a.caseId) ∧
      ∀ c, (next (some c)).Only PortOp.IsReport ∨
        ∃ after, next (some c) =
          .call (.casePut (CaseWorkflowService.advanced c a r.now)) after ∧
            ∀ u, (after u).Only PortOp.IsReport := by
  refine ⟨_, rfl, rfl, fun c => ?_⟩
  change (svc.definition c.caseType >>= _ : Service Case).Only _ ∨
    ∃ after, (svc.definition c.caseType >>= _ : Service Case) = _ ∧ _
  cases hdefinition : svc.definitions.definition c.caseType with
  | none =>
    rw [definition_raise hdefinition]
    exact Or.inl (only_raise _)
  | some d =>
    rw [definition_eq hdefinition, pure_bind]
    rcases transition_cases c a.toState a.actor a.reason (a.asOf.getD r.now) d with
      ⟨-, hmove⟩ | ⟨-, hmove⟩
    · rw [hmove]
      exact Or.inl ((report_record _).bind (fun _ => only_raise _))
    · rw [hmove]
      refine Or.inr ⟨_, rfl, fun _ => ?_⟩
      have hemitted : (svc.emit "case.transitioned" (CaseWorkflowService.advanced c a r.now) >>=
          fun _ => svc.record (CaseWorkflowService.advanced c a r.now) "transition" a.actor c.state
            (CaseWorkflowService.advanced c a r.now).state .allowed a.reason [] r.timestamp >>=
          fun _ => pure (CaseWorkflowService.advanced c a r.now)).Only PortOp.IsReport :=
        (emit_only (fun _ => trivial) _ _).bind
          (fun _ => (report_record _).bind (fun _ => only_pure _))
      dsimp only [Program.bind]
      split
      · exact (cancelClocks_only d (fun _ => trivial)).bind (fun _ => hemitted)
      · exact hemitted

variable (svc) in
theorem evaluateCase_steps (a : EvaluateArgs) (r : Readings) (routing : Routing) : ∃ next,
    svc.evaluateCase a r routing = .call (.caseGet a.tenant a.caseId) next ∧
      next none = .raise (.caseNotFound a.caseId) ∧
      ∀ c, (next (some c)).Only PortOp.IsReport ∨
        ∃ console d assessment before, svc.definitions.definition c.caseType = some d ∧
          assess c d (a.asOf.getD r.now) svc.holidays = .ok assessment ∧
          assessment.requiresHumanReview = true ∧ svc.reviewRouter = some console ∧
          before.Only PortOp.IsReport ∧
          (∀ w, ∃ w', before.exec localPorts w = (.ok (), w') ∧ w'.reviews = w.reviews) ∧
          next (some c) = (before : Service Unit) >>= fun _ =>
            console.submit (console.routedReview c assessment
              (CaseWorkflowService.routingMaker c) routing.reviewId) routing.readings >>=
            fun _ => pure assessment := by
  refine ⟨_, rfl, rfl, fun c => ?_⟩
  change (svc.definition c.caseType >>= _ : Service CaseAssessment).Only _ ∨
    ∃ console d assessment before, _ ∧ _ ∧ _ ∧ _ ∧ _ ∧ _ ∧
      (svc.definition c.caseType >>= _ : Service CaseAssessment) = _
  cases hdefinition : svc.definitions.definition c.caseType with
  | none =>
    rw [definition_raise hdefinition]
    exact Or.inl (only_raise _)
  | some d =>
    rw [definition_eq hdefinition, pure_bind]
    cases hassess : assess c d (a.asOf.getD r.now) svc.holidays with
    | error e => exact Or.inl (only_raise _)
    | ok assessment =>
      dsimp only
      cases hreview : assessment.requiresHumanReview with
      | false => exact Or.inl ((report_record _).bind (fun _ => only_pure _))
      | true =>
        simp only [if_true, CaseWorkflowService.escalate]
        cases hrouter : svc.reviewRouter with
        | none =>
          have hemitted : (svc.emit "case.escalated" c >>= fun _ =>
              (pure () : Service Unit)).Only PortOp.IsReport :=
            (emit_only (fun _ => trivial) _ _).bind (fun _ => only_pure _)
          exact Or.inl ((report_record _).bind (fun _ => hemitted.bind (fun _ => only_pure _)))
        | some console =>
          refine Or.inr ⟨console, d, assessment, svc.record c "evaluate" a.actor c.state c.state
            .escalated c.caseType assessment.findings r.timestamp >>= fun _ =>
              svc.emit "case.escalated" c, rfl, hassess, hreview, rfl, ?_, ?_, ?_⟩
          · exact (report_record _).bind (fun _ => emit_only (fun _ => trivial) _ _)
          · intro w
            refine ⟨_, by rw [exec_bind, exec_caseRecord]; exact exec_emit _ _ _, ?_⟩
            simp only [World.withEvent, World.audited]
            split <;> rfl
          · simp only [ConsoleService.route, bind_assoc, pure_bind]

end

/-- A cell of the stores: reports say nothing to it, lookups leave it, and writes of reviews count
as writes. -/
structure IsRow {V : Type} (c : Cell localPorts V) : Prop where
  report : ∀ op, op.IsReport → c.Mute op
  lookup : ∀ op, op.IsLookup → c.writes op = false
  put : ∀ item, c.writes (.reviewPut item) = true
  putIfAbsent : ∀ item, c.writes (.reviewPutIfAbsentBySourceKey item) = true

theorem reviewCell_isRow (tenant id : String) : IsRow (reviewCell tenant id) where
  report op h := by cases op <;> first | exact ⟨rfl, fun _ _ => rfl⟩ | exact h.elim
  lookup op h := by cases op <;> first | rfl | exact h.elim
  put _ := rfl
  putIfAbsent _ := rfl

theorem caseCell_isRow (tenant caseId : String) : IsRow (caseCell tenant caseId) where
  report op h := by cases op <;> first | exact ⟨rfl, fun _ _ => rfl⟩ | exact h.elim
  lookup op h := by cases op <;> first | rfl | exact h.elim
  put _ := rfl
  putIfAbsent _ := rfl

section
variable {V α : Type} {c : Cell localPorts V} {seen : V → Prop} {p : Service α}

theorem IsRow.mute (hc : IsRow c) (hp : p.Only PortOp.IsReport) : p.Only c.Mute :=
  Confined.mono (fun _ _ _ h => h) hc.report (fun _ h => h) hp

theorem IsRow.silent (hc : IsRow c) (hp : p.Only PortOp.IsReport) :
    p.Only (fun op => c.writes op = false) :=
  Confined.mono (fun _ _ _ h => h) (fun op hop => (hc.report op hop).silent) (fun _ h => h) hp

theorem IsRow.silent_openCase (hc : IsRow c) (svc : CaseWorkflowService) (a : OpenArgs)
    (r : Readings) (hput : ∀ moved, c.writes (.casePut moved) = false) :
    (svc.openCase a r).Only (fun op => c.writes op = false) := by
  rcases openCase_steps svc a r with heq | ⟨d, next, heq, hnext⟩
  · rw [heq]
    exact only_raise _
  · rw [heq]
    exact ⟨hput _, fun u _ => hc.silent (hnext u)⟩

theorem IsRow.silent_transitionCase (hc : IsRow c) (svc : CaseWorkflowService) (a : TransitionArgs)
    (r : Readings) (hput : ∀ moved, c.writes (.casePut moved) = false) :
    (svc.transitionCase a r).Only (fun op => c.writes op = false) := by
  obtain ⟨next, heq, hnone, hsome⟩ := transitionCase_steps svc a r
  rw [heq]
  refine ⟨hc.lookup _ trivial, fun found _ => ?_⟩
  cases found with
  | none =>
    rw [hnone]
    exact only_raise _
  | some found =>
    rcases hsome found with hsilent | ⟨after, hnext, hafter⟩
    · exact hc.silent hsilent
    · rw [hnext]
      exact ⟨hput _, fun u _ => hc.silent (hafter u)⟩

theorem IsRow.lookups (hc : IsRow c) (hp : p.Only PortOp.IsLookup) :
    c.Revises (c.Alone p) seen p :=
  .of_silent (Confined.mono (fun _ _ _ h => h) hc.lookup (fun _ h => h) hp)

theorem IsRow.submit (hc : IsRow c) (console : ConsoleService) (s : Submission) (r : Readings) :
    c.Revises (c.Alone (console.submit s r)) seen (console.submit s r) := by
  obtain ⟨next, heq, hnext⟩ := submit_steps console s r
  rw [heq]
  exact Cell.revises_of_write (hc.put _) (fun a => hc.mute (hnext a))

theorem IsRow.submitIdempotent (hc : IsRow c) (console : ConsoleService) (s : Submission)
    (r : Readings) :
    c.Revises (c.Alone (console.submitIdempotent s r)) seen (console.submitIdempotent s r) := by
  obtain ⟨next, heq, hnext⟩ := submitIdempotent_steps console s r
  rw [heq]
  exact Cell.revises_of_write (hc.putIfAbsent _) (fun a => hc.mute (hnext a))

/-- A write that is refused changes nothing. -/
theorem localPorts_put (item : ReviewItem) (w : World) :
    (∃ e, localPorts (.reviewPut item) w = (.error e, w)) ∨
      ∃ reviews, w.reviews.put item = .ok reviews ∧
        localPorts (.reviewPut item) w = (.ok (), { w with reviews }) := by
  simp only [localPorts]
  cases w.reviews.put item with
  | error e => exact Or.inl ⟨e, rfl⟩
  | ok reviews => exact Or.inr ⟨reviews, rfl, rfl⟩

end

section
variable {tenant id : String} {seen : Option ReviewItem → Prop}

private theorem dispose_review (console : ConsoleService) (d : DisposeArgs) (r : Readings) :
    (reviewCell tenant id).Revises ((reviewCell tenant id).Alone (console.dispose d r)) seen
      (console.dispose d r) := by
  have hrow := reviewCell_isRow tenant id
  obtain ⟨next, heq, hnone, hsome⟩ := dispose_steps console d r
  rw [heq]
  refine Cell.revises_of_update rfl (fun _ => rfl) (fun w found hfound => ?_)
  cases found with
  | none =>
    rw [hnone]
    exact Or.inl (only_raise _)
  | some stored =>
    have hget : w.reviews.get d.checkerTenant d.reviewId = some stored := Except.ok.inj hfound
    rcases hsome stored with hsilent | ⟨after, hnext, hafter⟩
    · exact Or.inl (hrow.silent hsilent)
    · refine Or.inr ⟨_, after, hnext, rfl, fun a => hrow.mute (hafter a), ?_⟩
      obtain ⟨htenant, hid⟩ := LocalReviewStore.key_of_get hget
      have hkey : (console.disposed stored d r.now).key = (d.checkerTenant, d.reviewId) := by
        rw [ConsoleService.disposed_key, ReviewItem.key, htenant, hid]
      by_cases hthis : d.checkerTenant = tenant ∧ d.reviewId = id
      · obtain ⟨rfl, rfl⟩ := hthis
        refine Or.inr ⟨by simp [reviewCell, hget], fun t => ?_⟩
        obtain ⟨reviews, hput⟩ := LocalReviewStore.put_of_get hget
          (console.disposed stored d r.now) (by simp) (by simp)
        have hread : localPorts (.reviewPut (console.disposed stored d r.now)) w =
            (.ok (), { w with reviews }) := by
          simp only [localPorts, hput]
        rcases localPorts_put (console.disposed stored d r.now) t with ⟨e, h⟩ | ⟨left, hleft, h⟩
        · exact Or.inl (by rw [h])
        · refine Or.inr ⟨?_, by rw [h, hread]⟩
          rw [h, hread]
          change left.get _ _ = reviews.get _ _
          rw [LocalReviewStore.get_put hleft, LocalReviewStore.get_put hput, if_pos hkey.symm,
            if_pos hkey.symm]
      · refine Or.inl (fun t => ?_)
        rcases localPorts_put (console.disposed stored d r.now) t with ⟨e, h⟩ | ⟨left, hleft, h⟩
        · rw [h]
        · rw [h]
          change left.get _ _ = t.reviews.get _ _
          rw [LocalReviewStore.get_put hleft, hkey, if_neg]
          rintro ⟨⟩
          exact hthis ⟨rfl, rfl⟩

private theorem exec_put_congr {α : Type} {item : ReviewItem} {after : Unit → Service α}
    (hafter : ∀ a, (after a).Only PortOp.IsReport) {w w' : World} (h : w.reviews = w'.reviews) :
    (Program.exec localPorts (.call (.reviewPut item) after) w).1 =
        (Program.exec localPorts (.call (.reviewPut item) after) w').1 ∧
      (Program.exec localPorts (.call (.reviewPut item) after) w).2.reviews.get tenant id =
        (Program.exec localPorts (.call (.reviewPut item) after) w').2.reviews.get tenant id := by
  have hmute (a : Unit) := (reviewCell_isRow tenant id).mute (hafter a)
  simp only [exec, localPorts, h]
  cases w'.reviews.put item with
  | error e => exact ⟨rfl, by rw [h]⟩
  | ok reviews =>
    obtain ⟨hend, hleft⟩ := Cell.Mute.exec (hmute ()) { w with reviews } { w' with reviews }
    obtain ⟨-, hleft'⟩ := Cell.Mute.exec (hmute ()) { w' with reviews } { w with reviews }
    exact ⟨hend, hleft.trans hleft'.symm⟩

private theorem evaluate_review (svc : CaseWorkflowService) (a : EvaluateArgs) (r : Readings)
    (routing : Routing) :
    (reviewCell tenant id).Revises ((reviewCell tenant id).Alone (svc.evaluateCase a r routing))
      seen (svc.evaluateCase a r routing) := by
  have hrow := reviewCell_isRow tenant id
  obtain ⟨next, heq, hnone, hsome⟩ := evaluateCase_steps svc a r routing
  rw [heq]
  refine (Cell.revises_silent rfl).mpr (fun w found hfound => ?_)
  cases found with
  | none =>
    rw [hnone]
    trivial
  | some c =>
    have hget : w.getCase a.tenant a.caseId = some c := Except.ok.inj hfound
    rcases hsome c with hsilent |
      ⟨console, d, assessment, before, -, -, -, -, hbefore, hexec, hnext⟩
    · exact .of_silent (hrow.silent hsilent)
    · obtain ⟨after, hsubmit, hafter⟩ := submit_steps console (console.routedReview c assessment
        (CaseWorkflowService.routingMaker c) routing.reviewId) routing.readings
      have hrest : ∃ after' : Unit → Service CaseAssessment,
          (∀ u, (after' u).Only PortOp.IsReport) ∧
          (console.submit (console.routedReview c assessment (CaseWorkflowService.routingMaker c)
            routing.reviewId) routing.readings >>= fun _ => pure assessment) =
            .call (.reviewPut (CaseWorkflowService.routedItem console c assessment routing))
              after' := by
        rw [hsubmit]
        exact ⟨_, fun u => (hafter u).bind (fun _ => only_pure _), rfl⟩
      obtain ⟨after', hafter', hwrite⟩ := hrest
      rw [hnext]
      refine Cell.Revises.after_silent (hrow.silent hbefore) (fun _ => ?_)
      rw [hwrite]
      have hmute (u : Unit) := hrow.mute (hafter' u)
      refine (Cell.revises_of_write rfl hmute).mono (fun _ h => h) ?_
      rintro v x v' ⟨t, rfl, rfl, rfl⟩
      -- Alone, the evaluation finds the case that was read, in front of these reviews.
      obtain ⟨t', ht', hreviews⟩ := hexec { t with cases := w.cases }
      have halone : Program.exec localPorts (.call (.caseGet a.tenant a.caseId) next)
          { t with cases := w.cases } = Program.exec localPorts (.call (.reviewPut
            (CaseWorkflowService.routedItem console c assessment routing)) after') t' := by
        have hread : localPorts (.caseGet a.tenant a.caseId) { t with cases := w.cases } =
            (.ok (some c), { t with cases := w.cases }) := by
          simp only [localPorts]
          exact congrArg (fun found => (Except.ok found, _)) hget
        have hstep : Program.exec localPorts (.call (.caseGet a.tenant a.caseId) next)
            { t with cases := w.cases } =
              Program.exec localPorts (next (some c)) { t with cases := w.cases } := by
          simp only [exec, hread]
        rw [hstep, hnext, hwrite, exec_bind, ht']
      obtain ⟨hend, hleft⟩ := @exec_put_congr tenant id _ _ _ hafter' t' t hreviews
      refine ⟨{ t with cases := w.cases }, rfl, ?_, ?_⟩
      · rw [halone, hend]
      · rw [halone]
        exact hleft

end

section
variable {tenant caseId : String} {seen : Option Case → Prop}

private theorem caseCell_put (item : ReviewItem) (w : World) :
    (caseCell tenant caseId).content (localPorts (.reviewPut item) w).2 =
      (caseCell tenant caseId).content w := by
  rcases localPorts_put item w with ⟨e, h⟩ | ⟨reviews, -, h⟩
  · rw [h]
  · rw [h]
    rfl

private theorem dispose_case (console : ConsoleService) (d : DisposeArgs) (r : Readings) :
    (caseCell tenant caseId).Revises ((caseCell tenant caseId).Alone (console.dispose d r)) seen
      (console.dispose d r) := by
  have hrow := caseCell_isRow tenant caseId
  obtain ⟨next, heq, hnone, hsome⟩ := dispose_steps console d r
  rw [heq]
  refine Cell.revises_of_update rfl (fun _ => rfl) (fun w found _ => ?_)
  cases found with
  | none =>
    rw [hnone]
    exact Or.inl (only_raise _)
  | some stored =>
    rcases hsome stored with hsilent | ⟨after, hnext, hafter⟩
    · exact Or.inl (hrow.silent hsilent)
    · exact Or.inr ⟨_, after, hnext, rfl, fun a => hrow.mute (hafter a), Or.inl (caseCell_put _)⟩

private theorem open_case (svc : CaseWorkflowService) (a : OpenArgs) (r : Readings) :
    (caseCell tenant caseId).Revises ((caseCell tenant caseId).Alone (svc.openCase a r)) seen
      (svc.openCase a r) := by
  rcases openCase_steps svc a r with heq | ⟨d, next, heq, hnext⟩
  · rw [heq]
    trivial
  · rw [heq]
    exact Cell.revises_of_write rfl (fun u => (caseCell_isRow tenant caseId).mute (hnext u))

private theorem transition_case (svc : CaseWorkflowService) (a : TransitionArgs) (r : Readings) :
    (caseCell tenant caseId).Revises ((caseCell tenant caseId).Alone (svc.transitionCase a r)) seen
      (svc.transitionCase a r) := by
  have hrow := caseCell_isRow tenant caseId
  obtain ⟨next, heq, hnone, hsome⟩ := transitionCase_steps svc a r
  rw [heq]
  refine Cell.revises_of_update rfl (fun _ => rfl) (fun w found hfound => ?_)
  cases found with
  | none =>
    rw [hnone]
    exact Or.inl (only_raise _)
  | some c =>
    have hget : w.getCase a.tenant a.caseId = some c := Except.ok.inj hfound
    rcases hsome c with hsilent | ⟨after, hnext, hafter⟩
    · exact Or.inl (hrow.silent hsilent)
    · refine Or.inr ⟨_, after, hnext, rfl, fun u => hrow.mute (hafter u), ?_⟩
      have hkey : (CaseWorkflowService.advanced c a r.now).key = (a.tenant, a.caseId) := by
        rw [← World.key_of_getCase hget]
        rfl
      have hleft (t : World) : (caseCell tenant caseId).content
          (localPorts (.casePut (CaseWorkflowService.advanced c a r.now)) t).2 =
            if (tenant, caseId) = (a.tenant, a.caseId) then
              some (CaseWorkflowService.advanced c a r.now)
            else t.getCase tenant caseId := by
        rw [← hkey]
        exact World.getCase_of_upsert rfl tenant caseId
      by_cases hthis : (tenant, caseId) = (a.tenant, a.caseId)
      · refine Or.inr ⟨?_, fun t => Or.inr ⟨?_, rfl⟩⟩
        · cases hthis
          simp [caseCell, hget]
        · rw [hleft, hleft, if_pos hthis, if_pos hthis]
      · refine Or.inl (fun t => ?_)
        rw [hleft, if_neg hthis]
        rfl

private theorem evaluate_case (svc : CaseWorkflowService) (a : EvaluateArgs) (r : Readings)
    (routing : Routing) :
    (caseCell tenant caseId).Revises ((caseCell tenant caseId).Alone (svc.evaluateCase a r routing))
      seen (svc.evaluateCase a r routing) := by
  have hrow := caseCell_isRow tenant caseId
  obtain ⟨next, heq, hnone, hsome⟩ := evaluateCase_steps svc a r routing
  rw [heq]
  refine (Cell.revises_silent rfl).mpr (fun w found _ => ?_)
  cases found with
  | none =>
    rw [hnone]
    trivial
  | some c =>
    rcases hsome c with hsilent | ⟨console, d, assessment, before, -, -, -, -, hbefore, -, hnext⟩
    · exact .of_silent (hrow.silent hsilent)
    · obtain ⟨after, hsubmit, hafter⟩ := submit_steps console (console.routedReview c assessment
        (CaseWorkflowService.routingMaker c) routing.reviewId) routing.readings
      rw [hnext]
      refine Cell.Revises.after_silent (hrow.silent hbefore) (fun _ => ?_)
      rw [hsubmit]
      refine (Cell.revises_write (hrow.put _)).mpr (fun t => Or.inl ⟨caseCell_put _ t, ?_⟩)
      cases (localPorts (.reviewPut (console.newItem (console.routedReview c assessment
        (CaseWorkflowService.routingMaker c) routing.reviewId) routing.readings.now)) t).1 with
      | error e => trivial
      | ok u =>
        have hrest : (after u >>= fun _ => pure assessment : Service CaseAssessment).Only
            PortOp.IsReport := (hafter u).bind (fun _ => only_pure _)
        exact (Cell.settles_of_mute (hrow.mute hrest) t).mono (fun _ h => h) (fun _ _ => trivial)

end

section
variable {V : Type} {c : Cell localPorts V} {seen : V → Prop}

private theorem IsRow.call (hc : IsRow c)
    (hdispose : ∀ console d r, c.Revises (c.Alone (ConsoleService.dispose console d r)) seen
      (ConsoleService.dispose console d r))
    (hopen : ∀ svc a r, c.Revises (c.Alone (CaseWorkflowService.openCase svc a r)) seen
      (CaseWorkflowService.openCase svc a r))
    (htransition : ∀ svc a r, c.Revises (c.Alone (CaseWorkflowService.transitionCase svc a r)) seen
      (CaseWorkflowService.transitionCase svc a r))
    (hevaluate : ∀ svc a r routing,
      c.Revises (c.Alone (CaseWorkflowService.evaluateCase svc a r routing)) seen
        (CaseWorkflowService.evaluateCase svc a r routing)) (call : ServiceCall) :
    c.Revises (call.Acts c.content) seen call.program := by
  cases call with
  | console r =>
    obtain ⟨console, call, readings⟩ := r
    refine Cell.Revises.alone_map _ ?_
    cases call with
    | submit s => exact .alone_map _ (hc.submit console s readings)
    | submitIdempotent s => exact .alone_map _ (hc.submitIdempotent console s readings)
    | dispose d => exact .alone_map _ (hdispose console d readings)
    | getBySourceKey t key =>
      exact .alone_map _ (hc.lookups (only_perform (show PortOp.IsLookup _ from trivial)))
    | listQueue t =>
      exact .alone_map _ (.alone_map _
        (hc.lookups (only_perform (show PortOp.IsLookup (.reviewListPending t) from trivial))))
    | listAll t =>
      exact .alone_map _ (.alone_map _
        (hc.lookups (only_perform (show PortOp.IsLookup (.reviewListAll t) from trivial))))
    | get t i => exact .alone_map _ (hc.lookups (get_only trivial))
  | engine svc r =>
    obtain ⟨call, readings⟩ := r
    refine Cell.Revises.alone_map _ ?_
    cases call with
    | openCase a => exact .alone_map _ (hopen svc a readings)
    | transitionCase a => exact .alone_map _ (htransition svc a readings)
    | evaluateCase a routing => exact .alone_map _ (hevaluate svc a readings routing)
    | get t i => exact .alone_map _ (hc.lookups (load_only trivial))
    | listCases t =>
      exact .alone_map _ (hc.lookups (only_perform
        (show PortOp.IsLookup (.caseListByTenant t) from trivial)))

end

/-- In every interleaving of any number of calls, a row that each call by itself would revise
alone has a history. -/
private theorem explained {V : Type} {c : Cell localPorts V} (calls : List ServiceCall)
    (hcalls : ∀ call : ServiceCall, c.Revises (call.Acts c.content) (fun _ => False) call.program)
    (w : World) (is : List ℕ) :
    Explained c.content calls (calling w calls is) (c.content w)
      (c.content (calling w calls is).shared) := by
  have hps (i : ℕ) (q : Service ServiceResponse)
      (hq : (calls.map ServiceCall.program)[i]? = some q) : c.Revises
        (fun v x v' => ∃ call, calls[i]? = some call ∧ call.Acts c.content v x v')
        (fun _ => False) q := by
    rw [List.getElem?_map] at hq
    obtain ⟨call, hi, rfl⟩ := Option.map_eq_some_iff.mp hq
    exact (hcalls call).mono (fun _ h => h) (fun _ _ _ h => ⟨call, hi, h⟩)
  obtain ⟨order, hnodup, hmade, hthreads⟩ := (Cell.branched_run hps w is).content
  refine ⟨order, hnodup, hmade, fun e he x hx => ?_⟩
  exact (@Program.satisfies_ended _ _ _ _ _ (fun x => x = e.2) x).mp ((hthreads e he).2 _ hx)

variable (w : World) (calls : List ServiceCall) (is : List ℕ) (tenant id : String)

theorem review_explained : Explained (fun w => w.reviews.get tenant id) calls (calling w calls is)
    (w.reviews.get tenant id) ((calling w calls is).shared.reviews.get tenant id) :=
  @explained _ (reviewCell tenant id) calls ((reviewCell_isRow tenant id).call dispose_review
    (fun svc a r => .of_silent
      ((reviewCell_isRow tenant id).silent_openCase svc a r (fun _ => rfl)))
    (fun svc a r => .of_silent
      ((reviewCell_isRow tenant id).silent_transitionCase svc a r (fun _ => rfl)))
    evaluate_review) w is

theorem case_explained : Explained (fun w => w.getCase tenant id) calls (calling w calls is)
    (w.getCase tenant id) ((calling w calls is).shared.getCase tenant id) :=
  @explained _ (caseCell tenant id) calls ((caseCell_isRow tenant id).call dispose_case open_case
    transition_case evaluate_case) w is

/-- Whatever calls run at once and however their port operations fall between each other, every
review and every case that is stored has a history of its own: some of the calls, each at most
once, make it of what was stored under its key at the start, one after the other and each as if it
ran alone; and a call of the history that has returned was answered as it is there. -/
theorem interleaved_rows_explained :
    Explained (fun w => w.reviews.get tenant id) calls (calling w calls is)
      (w.reviews.get tenant id) ((calling w calls is).shared.reviews.get tenant id) ∧
    Explained (fun w => w.getCase tenant id) calls (calling w calls is)
      (w.getCase tenant id) ((calling w calls is).shared.getCase tenant id) :=
  ⟨review_explained w calls is tenant id, case_explained w calls is tenant id⟩

end ReviewConsole

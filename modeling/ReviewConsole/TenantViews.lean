import ReviewConsole.GuardedRuns
import ReviewConsole.ServiceOperations

/-!
# What one tenant sees

Both services over the same stores, serving every tenant. A tenant's view is its rows of the
stores and its timers; the calls of one tenant depend on its view alone, and those of the
others leave it alone.
-/
namespace ReviewConsole
open PortPrograms GuardedRuns KeyedTables Program

/-- A call on either service. Instances may differ from one call to the next. -/
inductive ServiceCall where
  | console (r : ConsoleRequest)
  | engine (svc : CaseWorkflowService) (r : CaseRequest)

inductive ServiceResponse where
  | console (response : ConsoleResponse)
  | engine (response : CaseResponse)
  deriving DecidableEq, Repr

def ConsoleRequest.tenant (r : ConsoleRequest) : String :=
  match r.call with
  | .submit s | .submitIdempotent s => s.tenant
  | .dispose d => d.checkerTenant
  | .getBySourceKey tenant _ | .listQueue tenant | .listAll tenant | .get tenant _ => tenant

def CaseRequest.tenant (r : CaseRequest) : String :=
  match r.call with
  | .openCase a => a.tenant
  | .transitionCase a => a.tenant
  | .evaluateCase a _ => a.tenant
  | .get tenant _ | .listCases tenant => tenant

namespace ServiceCall

def tenant : ServiceCall → String
  | .console r => r.tenant
  | .engine _ r => r.tenant

def program : ServiceCall → Service ServiceResponse
  | .console r => do
    let response ← r.program
    pure (.console response)
  | .engine svc r => do
    let response ← r.program svc
    pure (.engine response)

def answer (w : World) (call : ServiceCall) : Except ServiceError ServiceResponse × World :=
  call.program.exec localPorts w

def reviewNotFound (w : World) (tenant id : String) : Option ServiceError :=
  if (w.reviews.get tenant id).isNone then some (.reviewNotFound id) else none

def caseNotFound (w : World) (tenant id : String) : Option ServiceError :=
  if (w.getCase tenant id).isNone then some (.caseNotFound id) else none

/-- The error for the id that a call looks up, if its tenant has nothing under it. -/
def notFound (w : World) : ServiceCall → Option ServiceError
  | .console r => match r.call with
    | .get tenant id => reviewNotFound w tenant id
    | .dispose d => reviewNotFound w d.checkerTenant d.reviewId
    | .submit _ | .submitIdempotent _ | .getBySourceKey _ _ | .listQueue _ | .listAll _ => none
  | .engine _ r => match r.call with
    | .get tenant id => caseNotFound w tenant id
    | .transitionCase a => caseNotFound w a.tenant a.caseId
    | .evaluateCase a _ => caseNotFound w a.tenant a.caseId
    | .openCase _ | .listCases _ => none

variable {w : World} {tenant id : String} {e : ServiceError}

theorem of_reviewNotFound (h : reviewNotFound w tenant id = some e) :
    w.reviews.get tenant id = none ∧ e = .reviewNotFound id := by
  simp only [reviewNotFound, Option.ite_none_right_eq_some, Option.isNone_iff_eq_none,
    Option.some.injEq] at h
  exact ⟨h.1, h.2.symm⟩

theorem of_caseNotFound (h : caseNotFound w tenant id = some e) :
    w.getCase tenant id = none ∧ e = .caseNotFound id := by
  simp only [caseNotFound, Option.ite_none_right_eq_some, Option.isNone_iff_eq_none,
    Option.some.injEq] at h
  exact ⟨h.1, h.2.symm⟩

end ServiceCall

def ofTenant {κ : Type} (tenant : String) (k : String × κ) : Bool := k.1 = tenant

/-- The rows of one tenant. -/
def LocalReviewStore.restrict (store : LocalReviewStore) (tenant : String) : LocalReviewStore where
  table := store.table.restrict (ofTenant tenant)
  sourceUnique a ha b hb := store.sourceUnique a (KeyedTable.mem_restrict.mp ha).1 b
    (KeyedTable.mem_restrict.mp hb).1

/-- What one tenant sees: its reviews, its cases and its timers. -/
def World.view (tenant : String) (w : World) : World where
  reviews := w.reviews.restrict tenant
  cases := w.cases.restrict (ofTenant tenant)
  timers := w.timers.restrict (ofTenant tenant)
  published := []
  log := []

/-- The tenant whose stored state an operation is about. -/
def PortOp.tenant : PortOp → Option String
  | .reviewPut item | .reviewPutIfAbsentBySourceKey item => some item.tenant
  | .reviewGet tenant _ | .reviewFindBySourceKey tenant _ | .reviewListPending tenant
  | .reviewListAll tenant | .caseGet tenant _ | .caseListByTenant tenant
  | .timerCancel tenant _ _ => some tenant
  | .casePut c => some c.tenant
  | .timerSchedule timer => some timer.tenant
  | .publish _ | .record _ => none

namespace LocalReviewStore

variable {store : LocalReviewStore} {tenant : String} {item : ReviewItem}

theorem get_restrict (id : String) : (store.restrict tenant).get tenant id = store.get tenant id :=
  KeyedTable.find?_restrict (by simp [ofTenant])

theorem findBySourceKey_restrict (sourceKey : String) :
    (store.restrict tenant).findBySourceKey tenant sourceKey =
      store.findBySourceKey tenant sourceKey := by
  simp only [findBySourceKey, restrict, KeyedTable.restrict, List.find?_filter]
  split
  · rfl
  · apply congrArg (fun q => store.table.rows.find? q)
    funext row
    by_cases h : row.tenant = tenant <;> simp [ofTenant, ReviewItem.key, h]

theorem listAll_restrict : (store.restrict tenant).listAll tenant = store.listAll tenant := by
  have hrows : (store.restrict tenant).table.rows.filter (fun row => row.tenant = tenant) =
      store.table.rows.filter (fun row => row.tenant = tenant) := by
    simp only [restrict, KeyedTable.restrict, List.filter_filter]
    apply List.filter_congr
    intro row _
    by_cases h : row.tenant = tenant <;> simp [ofTenant, ReviewItem.key, h]
  simp only [listAll, hrows]

theorem listPending_restrict :
    (store.restrict tenant).listPending tenant = store.listPending tenant := by
  simp only [listPending, listAll_restrict]

theorem sourceTaken_restrict (h : item.tenant = tenant) :
    (store.restrict tenant).SourceTaken item ↔ store.SourceTaken item := by
  constructor
  · rintro ⟨row, hrow, hne, hsame⟩
    exact ⟨row, (KeyedTable.mem_restrict.mp hrow).1, hne, hsame⟩
  · rintro ⟨row, hrow, hne, hsame⟩
    refine ⟨row, KeyedTable.mem_restrict.mpr ⟨hrow, ?_⟩, hne, hsame⟩
    simp [ofTenant, ReviewItem.key, ← hsame.2.1, h]

theorem put_restrict (h : item.tenant = tenant) :
    (store.restrict tenant).put item = (store.put item).map (fun s => s.restrict tenant) := by
  by_cases htaken : store.SourceTaken item
  · rw [put, put, dif_pos htaken, dif_pos ((sourceTaken_restrict h).mpr htaken)]
    rfl
  · rw [put, put, dif_neg htaken, dif_neg (fun ht => htaken ((sourceTaken_restrict h).mp ht))]
    simp only [Except.map, Except.ok.injEq]
    ext1
    exact (KeyedTable.restrict_upsert_of_pos (by simp [ofTenant, ReviewItem.key, h])).symm

theorem put_restrict_of_ne {store' : LocalReviewStore} (h : item.tenant ≠ tenant)
    (hput : store.put item = .ok store') : store'.restrict tenant = store.restrict tenant := by
  ext1
  change store'.table.restrict _ = store.table.restrict _
  rw [put_table hput]
  exact KeyedTable.restrict_upsert_of_neg (by simp [ofTenant, ReviewItem.key, h])

theorem putIfAbsentBySourceKey_restrict (h : item.tenant = tenant) :
    (store.restrict tenant).putIfAbsentBySourceKey item =
      (store.putIfAbsentBySourceKey item).map (fun x => (x.1, x.2.restrict tenant)) := by
  subst h
  have hput := @put_restrict store item.tenant item rfl
  simp only [putIfAbsentBySourceKey, findBySourceKey_restrict, get_restrict, hput]
  split
  · cases store.put item <;> rfl
  · split
    · rfl
    · split
      · rfl
      · cases store.put item <;> rfl

end LocalReviewStore

section
variable {tenant : String} {w : World} {op : PortOp}

@[simp] theorem LocalReviewStore.restrict_restrict (store : LocalReviewStore) :
    (store.restrict tenant).restrict tenant = store.restrict tenant := by
  ext1
  exact KeyedTable.restrict_restrict

@[simp] theorem World.view_view : (w.view tenant).view tenant = w.view tenant := by
  simp [World.view]

/-- An operation on the tenant's own state answers, and leaves for the tenant, what it would
if the tenant's state were all there is. -/
theorem localPorts_view (hop : ∀ t ∈ op.tenant, t = tenant) :
    (localPorts op (w.view tenant)).1 = (localPorts op w).1 ∧
      (localPorts op (w.view tenant)).2.view tenant = (localPorts op w).2.view tenant := by
  cases op with
  | reviewPut item =>
    have hitem : item.tenant = tenant := hop _ rfl
    simp only [localPorts, World.view, LocalReviewStore.put_restrict hitem]
    cases w.reviews.put item <;> simp [Except.map]
  | reviewPutIfAbsentBySourceKey item =>
    have hitem : item.tenant = tenant := hop _ rfl
    simp only [localPorts, World.view, LocalReviewStore.putIfAbsentBySourceKey_restrict hitem]
    cases w.reviews.putIfAbsentBySourceKey item <;> simp [Except.map]
  | reviewGet t id =>
    cases hop _ rfl
    exact ⟨congrArg Except.ok (LocalReviewStore.get_restrict id), World.view_view⟩
  | reviewFindBySourceKey t sourceKey =>
    cases hop _ rfl
    exact ⟨congrArg Except.ok (LocalReviewStore.findBySourceKey_restrict sourceKey),
      World.view_view⟩
  | reviewListPending t =>
    cases hop _ rfl
    exact ⟨congrArg Except.ok LocalReviewStore.listPending_restrict, World.view_view⟩
  | reviewListAll t =>
    cases hop _ rfl
    exact ⟨congrArg Except.ok LocalReviewStore.listAll_restrict, World.view_view⟩
  | casePut c =>
    have hc : ofTenant tenant c.key = true := by simp [ofTenant, Case.key, hop _ rfl]
    simp [localPorts, World.view, KeyedTable.restrict_upsert_of_pos hc]
  | caseGet t id =>
    cases hop _ rfl
    exact ⟨congrArg Except.ok (KeyedTable.find?_restrict (by simp [ofTenant])), World.view_view⟩
  | caseListByTenant t =>
    cases hop _ rfl
    refine ⟨congrArg Except.ok ?_, World.view_view⟩
    simp only [World.view, KeyedTable.restrict, List.filter_filter]
    apply List.filter_congr
    intro c _
    by_cases h : c.tenant = tenant <;> simp [ofTenant, Case.key, h]
  | timerSchedule timer =>
    have ht : ofTenant tenant timer.key = true := by simp [ofTenant, Timer.key, hop _ rfl]
    simp [localPorts, World.view, KeyedTable.restrict_upsert_of_pos ht]
  | timerCancel t id clock =>
    simp [localPorts, World.view, KeyedTable.restrict_erase]
  | publish e => exact ⟨rfl, World.view_view⟩
  | record e => exact ⟨rfl, World.view_view⟩

/-- An operation on the state of another tenant leaves the view alone. -/
theorem localPorts_frame (hop : ∀ t ∈ op.tenant, t ≠ tenant) :
    (localPorts op w).2.view tenant = w.view tenant := by
  cases op with
  | reviewPut item =>
    simp only [localPorts]
    cases hput : w.reviews.put item with
    | error e => rfl
    | ok reviews => simp [World.view, LocalReviewStore.put_restrict_of_ne (hop _ rfl) hput]
  | reviewPutIfAbsentBySourceKey item =>
    simp only [localPorts]
    rcases w.reviews.putIfAbsentBySourceKey_cases item with
      ⟨e, h⟩ | ⟨row, -, -, -, -, h⟩ | ⟨reviews, hput, -, h⟩
    · simp [h]
    · simp [h]
    · simp [h, World.view, LocalReviewStore.put_restrict_of_ne (hop _ rfl) hput]
  | casePut c =>
    have hc : ofTenant tenant c.key = false := decide_eq_false (hop _ rfl)
    simp [localPorts, World.view, KeyedTable.restrict_upsert_of_neg hc]
  | timerSchedule timer =>
    have ht : ofTenant tenant timer.key = false := decide_eq_false (hop _ rfl)
    simp [localPorts, World.view, KeyedTable.restrict_upsert_of_neg ht]
  | timerCancel t id clock =>
    have ht : ofTenant tenant (t, id, clock) = false := decide_eq_false (hop _ rfl)
    simp [localPorts, World.view, KeyedTable.restrict_erase_of_neg ht]
  | _ => rfl

end

/-- What is looked up for a tenant belongs to it. -/
def Owned : (op : PortOp) → op.Ret → Prop
  | .reviewGet tenant _, found => ∀ item ∈ found, item.tenant = tenant
  | .caseGet tenant _, found => ∀ c ∈ found, c.tenant = tenant
  | _, _ => True

/-- An operation that a call for this tenant may perform. -/
structure TenantOp (tenant : String) (op : PortOp) : Prop where
  state : ∀ t ∈ op.tenant, t = tenant
  findings : ∀ e, op = .record (.signOff e) → .wrongTenant ∉ e.findings

theorem localPorts_owned (P : PortOp → Prop) : Allows localPorts Owned P := by
  intro op w found _ hfound
  cases op with
  | reviewGet tenant id =>
    cases hfound
    intro item hitem
    exact (LocalReviewStore.key_of_get hitem).1
  | caseGet tenant id =>
    cases hfound
    intro c hc
    exact congrArg Prod.fst (World.key_of_getCase hc)
  | _ => trivial

section
variable {tenant : String}

theorem tenantOp_of_state {op : PortOp} (hop : ∀ t ∈ op.tenant, t = tenant)
    (hrecord : ∀ e, op ≠ .record (.signOff e)) : TenantOp tenant op :=
  ⟨hop, fun e he => absurd he (hrecord e)⟩

theorem tenantOp_signOff {e : SignOffEvent} (h : .wrongTenant ∉ e.findings) :
    TenantOp tenant (.record (.signOff e)) := by
  refine ⟨by simp [PortOp.tenant], ?_⟩
  rintro _ ⟨⟩
  exact h

theorem tenantOp_publish (e : PublishedEvent) : TenantOp tenant (.publish e) :=
  tenantOp_of_state (by simp [PortOp.tenant]) (by simp)

theorem tenantOp_caseAction (e : CaseAuditEvent) : TenantOp tenant (.record (.caseAction e)) :=
  tenantOp_of_state (by simp [PortOp.tenant]) (by simp)

theorem tenantOp_submitted (e : SignOffEvent) (h : e.findings = []) :
    TenantOp tenant (.record (.signOff e)) :=
  tenantOp_signOff (by simp [h])

theorem tenantOp_reviewPut {item : ReviewItem} (h : item.tenant = tenant) :
    TenantOp tenant (.reviewPut item) :=
  tenantOp_of_state (by simpa [PortOp.tenant] using h) (by simp)

private theorem confined_wrap {α β : Type} {p : Service α} {f : α → β}
    (hp : p.Confined Owned (TenantOp tenant) (fun _ => True)) :
    (p >>= fun a => pure (f a)).Confined Owned (TenantOp tenant) (fun _ => True) :=
  Confined.bind (Confined.mono (fun _ _ _ h => h) (fun _ h => h) (fun _ _ => trivial) hp)

theorem dispose_confined (console : ConsoleService) (d : DisposeArgs) (r : Readings) :
    (console.dispose d r).Confined Owned (TenantOp d.checkerTenant) (fun _ => True) := by
  obtain ⟨next, heq, hnone, hsome⟩ := dispose_call console d r
  rw [heq]
  refine ⟨tenantOp_of_state (by simp [PortOp.tenant]) (by simp), fun found hfound => ?_⟩
  cases found with
  | none =>
    rw [hnone]
    trivial
  | some stored =>
    have htenant : stored.tenant = d.checkerTenant := hfound stored rfl
    refine Only.confined (hsome stored _ htenant (fun item hitem _ => ?_) (fun e _ he => ?_))
    · exact tenantOp_reviewPut ((congrArg Prod.fst hitem).trans htenant)
    · exact tenantOp_signOff he

/-- A call of the console performs only operations on its own tenant's state, and records no
wrong tenant. -/
theorem ConsoleRequest.confined (r : ConsoleRequest) :
    r.program.Confined Owned (TenantOp r.tenant) (fun _ => True) := by
  obtain ⟨console, call, readings⟩ := r
  cases call with
  | submit s =>
    refine confined_wrap (Only.confined (submit_only s readings ?_ tenantOp_submitted))
    intro item hitem
    exact tenantOp_reviewPut (congrArg Prod.fst hitem)
  | submitIdempotent s =>
    refine confined_wrap (Only.confined (submitIdempotent_only s readings ?_ tenantOp_submitted))
    intro item hitem
    have htenant : item.tenant = s.tenant := congrArg Prod.fst hitem
    refine tenantOp_of_state ?_ (by simp)
    rintro t ⟨⟩
    exact htenant
  | dispose d => exact confined_wrap (dispose_confined console d readings)
  | getBySourceKey t sourceKey =>
    exact confined_wrap (Only.confined (only_perform
      (tenantOp_of_state (by simp [PortOp.tenant, tenant]) (by simp))))
  | listQueue t =>
    exact confined_wrap (confined_wrap (Only.confined (only_perform
      (tenantOp_of_state (by simp [PortOp.tenant, tenant]) (by simp)))))
  | listAll t =>
    exact confined_wrap (confined_wrap (Only.confined (only_perform
      (tenantOp_of_state (by simp [PortOp.tenant, tenant]) (by simp)))))
  | get t id =>
    exact confined_wrap (Only.confined (get_only
      (tenantOp_of_state (by simp [PortOp.tenant, tenant]) (by simp))))

theorem openCase_confined (svc : CaseWorkflowService) (a : OpenArgs) (r : Readings) :
    (svc.openCase a r).Confined Owned (TenantOp a.tenant) (fun _ => True) := by
  cases hdefinition : svc.definitions.definition a.caseType with
  | none =>
    simp only [CaseWorkflowService.openCase, CaseWorkflowService.definition, hdefinition]
    trivial
  | some d =>
    obtain ⟨next, heq, hnext⟩ := openCase_call hdefinition r
    rw [heq]
    refine ⟨tenantOp_of_state ?_ (by simp), fun _ _ => Only.confined (hnext _ ?_ tenantOp_publish
      tenantOp_caseAction)⟩
    · rintro t ⟨⟩
      rfl
    · intro clock due
      exact tenantOp_of_state (by simp [PortOp.tenant]) (by simp)

theorem transitionCase_confined (svc : CaseWorkflowService) (a : TransitionArgs) (r : Readings) :
    (svc.transitionCase a r).Confined Owned (TenantOp a.tenant) (fun _ => True) := by
  obtain ⟨next, heq, hnone, hsome⟩ := transitionCase_call svc a r
  rw [heq]
  refine ⟨tenantOp_of_state (by simp [PortOp.tenant]) (by simp), fun found hfound => ?_⟩
  cases found with
  | none =>
    rw [hnone]
    trivial
  | some c =>
    have htenant : c.tenant = a.tenant := hfound c rfl
    refine Only.confined (hsome c _ ?_ ?_ tenantOp_publish tenantOp_caseAction)
    · intro moved hmoved _
      refine tenantOp_of_state ?_ (by simp)
      rintro t ⟨⟩
      exact (congrArg Prod.fst hmoved).trans htenant
    · intro clock
      exact tenantOp_of_state (by simpa [PortOp.tenant] using htenant) (by simp)

theorem evaluateCase_confined (svc : CaseWorkflowService) (a : EvaluateArgs) (r : Readings)
    (routing : Routing) :
    (svc.evaluateCase a r routing).Confined Owned (TenantOp a.tenant) (fun _ => True) := by
  obtain ⟨next, heq, hnone, hsome⟩ := evaluateCase_call svc a r routing
  rw [heq]
  refine ⟨tenantOp_of_state (by simp [PortOp.tenant]) (by simp), fun found hfound => ?_⟩
  cases found with
  | none =>
    rw [hnone]
    trivial
  | some c =>
    refine Only.confined (hsome c _ tenantOp_publish tenantOp_caseAction ?_ tenantOp_submitted)
    intro item hitem
    exact tenantOp_reviewPut (hitem.trans (hfound c rfl))

theorem CaseRequest.confined (svc : CaseWorkflowService) (r : CaseRequest) :
    (r.program svc).Confined Owned (TenantOp r.tenant) (fun _ => True) := by
  obtain ⟨call, readings⟩ := r
  cases call with
  | openCase a => exact confined_wrap (openCase_confined svc a readings)
  | transitionCase a => exact confined_wrap (transitionCase_confined svc a readings)
  | evaluateCase a routing => exact confined_wrap (evaluateCase_confined svc a readings routing)
  | get t id =>
    exact confined_wrap (Only.confined (load_only
      (tenantOp_of_state (by simp [PortOp.tenant, tenant]) (by simp))))
  | listCases t =>
    exact confined_wrap (Only.confined (only_perform
      (tenantOp_of_state (by simp [PortOp.tenant, tenant]) (by simp))))

theorem ServiceCall.confined (call : ServiceCall) :
    call.program.Confined Owned (TenantOp call.tenant) (fun _ => True) := by
  cases call with
  | console r => exact confined_wrap r.confined
  | engine svc r => exact confined_wrap (r.confined svc)

end

def isFor (tenant : String) (call : ServiceCall) : Bool := call.tenant = tenant

/-- The calls of a tenant depend on its view, and the calls of the others leave it alone. -/
theorem calls_unwind (tenant : String) :
    Unwinds ServiceCall.answer (World.view tenant) (isFor tenant) where
  own_congr w w' call hcall hview := by
    have htenant : call.tenant = tenant := of_decide_eq_true hcall
    have hop (op : PortOp) (w w' : World) (hop : TenantOp call.tenant op)
        (hsame : w.view tenant = w'.view tenant) :
        (localPorts op w).1 = (localPorts op w').1 ∧
          (localPorts op w).2.view tenant = (localPorts op w').2.view tenant := by
      obtain ⟨hanswer, hleft⟩ := @localPorts_view tenant w op (htenant ▸ hop.state)
      obtain ⟨hanswer', hleft'⟩ := @localPorts_view tenant w' op (htenant ▸ hop.state)
      rw [← hanswer, ← hanswer', ← hleft, ← hleft', hsame]
      exact ⟨rfl, rfl⟩
    exact call.confined.exec_congr localPorts (localPorts_owned _) hop hview
  frame w call hcall := by
    have htenant : call.tenant ≠ tenant := of_decide_eq_false hcall
    have hop (op : PortOp) (w' : World) (hop : TenantOp call.tenant op)
        (hview : w'.view tenant = w.view tenant) :
        (localPorts op w').2.view tenant = w.view tenant := by
      rw [localPorts_frame (fun t ht => (hop.state t ht).symm ▸ htenant), hview]
    exact call.confined.exec_invariant localPorts (localPorts_owned _) hop rfl

def worldAfter (calls : List ServiceCall) : World :=
  run (GuardedRuns.stateAfter ServiceCall.answer) World.empty calls

/-- No sign-off event on the log finds the tenant wrong. -/
def NoWrongTenant (w : World) : Prop := ∀ e, .signOff e ∈ w.log → .wrongTenant ∉ e.findings

theorem noWrongTenant_next {w : World} (h : NoWrongTenant w) (call : ServiceCall) :
    NoWrongTenant (GuardedRuns.stateAfter ServiceCall.answer w call) := by
  have hop (op : PortOp) (w : World) (hop : TenantOp call.tenant op) (hw : NoWrongTenant w) :
      NoWrongTenant (localPorts op w).2 := by
    intro e he
    rw [localPorts_log, List.mem_append] at he
    rcases he with he | he
    · exact hw e he
    · cases op with
      | record event =>
        exact hop.findings e (congrArg PortOp.record (List.mem_singleton.mp he).symm)
      | _ => cases he
  exact call.confined.exec_invariant localPorts (localPorts_owned _) hop h

section
variable {w : World} {tenant id : String} {e : ServiceError}

private theorem exec_of_no_review {α : Type} {p : Service α}
    {next : Option ReviewItem → Service α} (heq : p = .call (.reviewGet tenant id) next)
    (hnone : next none = .raise (.reviewNotFound id))
    (h : ServiceCall.reviewNotFound w tenant id = some e) :
    p.exec localPorts w = (.error e, w) := by
  obtain ⟨hget, rfl⟩ := ServiceCall.of_reviewNotFound h
  rw [heq]
  change (next (w.reviews.get tenant id)).exec localPorts w = _
  rw [hget, hnone]
  rfl

private theorem exec_of_no_case {α : Type} {p : Service α}
    {next : Option Case → Service α} (heq : p = .call (.caseGet tenant id) next)
    (hnone : next none = .raise (.caseNotFound id))
    (h : ServiceCall.caseNotFound w tenant id = some e) :
    p.exec localPorts w = (.error e, w) := by
  obtain ⟨hget, rfl⟩ := ServiceCall.of_caseNotFound h
  rw [heq]
  change (next (w.getCase tenant id)).exec localPorts w = _
  rw [hget, hnone]
  rfl

theorem answer_of_notFound {call : ServiceCall} (h : call.notFound w = some e) :
    call.answer w = (.error e, w) := by
  have hwrap {α β : Type} {p : Service α} {f : α → β} (hp : p.exec localPorts w = (.error e, w)) :
      (p >>= fun a => pure (f a)).exec localPorts w = (.error e, w) := by
    rw [exec_bind_pure, hp]
    rfl
  cases call with
  | console r =>
    obtain ⟨console, call, readings⟩ := r
    refine hwrap ?_
    cases call with
    | get t id => exact hwrap (exec_of_no_review rfl rfl h)
    | dispose d =>
      obtain ⟨next, heq, hnone, -⟩ := dispose_call console d readings
      exact hwrap (exec_of_no_review heq hnone h)
    | _ => cases h
  | engine svc r =>
    obtain ⟨call, readings⟩ := r
    refine hwrap ?_
    cases call with
    | get t id => exact hwrap (exec_of_no_case rfl rfl h)
    | transitionCase a =>
      obtain ⟨next, heq, hnone, -⟩ := transitionCase_call svc a readings
      exact hwrap (exec_of_no_case heq hnone h)
    | evaluateCase a routing =>
      obtain ⟨next, heq, hnone, -⟩ := evaluateCase_call svc a readings routing
      exact hwrap (exec_of_no_case heq hnone h)
    | _ => cases h

end

/-- For every tenant, leaving out the calls of all other tenants changes neither what its own
calls return or raise nor its reviews, cases and timers. An id of another tenant's review or
case behaves as one that does not exist, and no disposition is ever refused for its tenant. -/
theorem tenant_noninterference (tenant : String) (calls : List ServiceCall) :
    transcript ServiceCall.answer (isFor tenant) World.empty calls =
      transcript ServiceCall.answer (isFor tenant) World.empty (calls.filter (isFor tenant)) ∧
    (worldAfter calls).view tenant = (worldAfter (calls.filter (isFor tenant))).view tenant ∧
    (∀ (call : ServiceCall) e, call.notFound (worldAfter calls) = some e →
      call.answer (worldAfter calls) = (.error e, worldAfter calls)) ∧
    NoWrongTenant (worldAfter calls) := by
  obtain ⟨htranscript, hview⟩ := (calls_unwind tenant).filter rfl calls
  refine ⟨htranscript, hview, fun call e h => answer_of_notFound h, ?_⟩
  exact run_invariant (fun w call hw _ => noWrongTenant_next hw call)
    (by simp [NoWrongTenant, World.empty]) (along_of_forall (fun _ _ => trivial))

end ReviewConsole

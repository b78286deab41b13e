import ReviewConsole.CloudTaskTimers
import ReviewConsole.IapIdentities
import ReviewConsole.ServiceOperations

/-!
# Deadline timers that call the service back

Under the managed profile a scheduled clock becomes a task, and the queue posts that task to
the evaluation endpoint of the same service. The endpoint works for the tenant of the
principal that the identity adapter makes of the request.
-/
namespace ReviewConsole
open PortPrograms GuardedRuns KeyedTables Program

/-- What the queue and the stores of the managed profile hold. `created` remembers every timer
for which a task was created, and `trail` every record that the audit sink has taken. The ports
of no interest here act on a state of their own. -/
structure ManagedWorld (ρ : Type) where
  cases : KeyedTable Case.key
  queue : KeyedTable HttpTask.name
  created : List Timer
  trail : List AuditEvent
  others : ρ

/-- The managed adapters of the case store and the timers, next to any adapters of the other
ports. Documents of a collection are read in the order of their ids. -/
def managedPorts {ρ : Type} (tasks : CloudTasksTimerAdapter)
    (others : Handler PortOp PortOp.Ret ServiceError ρ) :
    Handler PortOp PortOp.Ret ServiceError (ManagedWorld ρ)
  | .casePut c, w => (.ok (), { w with cases := w.cases.upsert c })
  | .caseGet tenant caseId, w => (.ok (w.cases.find? (tenant, caseId)), w)
  | .caseListByTenant tenant, w =>
    (.ok ((w.cases.rows.filter (fun c => c.tenant = tenant)).insertionSort
      (fun a b => ¬ b.caseId < a.caseId)), w)
  | .timerSchedule timer, w =>
    (.ok (), { w with queue := tasks.schedule w.queue timer, created := w.created ++ [timer] })
  | .timerCancel tenant caseId clock, w =>
    (.ok (), { w with queue := tasks.cancel w.queue tenant caseId clock })
  | .record event, w => match others (.record event) w.others with
    | (.ok _, s) => (.ok (), { w with trail := w.trail ++ [event], others := s })
    | (.error e, s) => (.error e, { w with others := s })
  | op, w => ((others op w.others).1, { w with others := (others op w.others).2 })

abbrev HttpHeaders := List (String × String)

/-- The service as it is bound under the managed profile. `actor` is the property of the
principal that the routes pass on. -/
structure ManagedProfile where
  svc : CaseWorkflowService
  tasks : CloudTasksTimerAdapter
  identity : IapIdentityAdapter HttpHeaders
  actor : Principal → String

/-- The path of the evaluation route: one segment that is not empty stands for the case id. -/
def caseIdOfPath (path : String) : Option String :=
  match (path.toList.splitOn '/').map String.ofList with
  | ["", "v1", "cases", caseId, "evaluate"] => if caseId = "" then none else some caseId
  | _ => none

/-- `uuid4().hex`, the id that both entry points give to a case they open. -/
def IsUuidHex (id : String) : Prop :=
  id.toList.length = 32 ∧ id.toList.all (fun ch => ch ∈ "0123456789abcdef".toList) = true

instance (id : String) : Decidable (IsUuidHex id) := by
  unfold IsUuidHex
  infer_instance

inductive HttpResponse where
  | assessed (assessment : CaseAssessment)
  | refused (status : ℕ) (detail : String)

/-- One delivery of the task of a timer, with the headers that the queue and the frontend
attach to the task's own. -/
structure TaskDelivery where
  timer : Timer
  attached : HttpHeaders
  readings : Readings
  routing : Routing

namespace TaskDelivery

variable (m : ManagedProfile) (d : TaskDelivery)

def headers : HttpHeaders := (m.tasks.task d.timer).headers ++ d.attached

/-- What the service sees of the URL: the part after the callback URL. -/
def path : String :=
  String.ofList ((m.tasks.task d.timer).url.toList.drop m.tasks.callback.toList.length)

/-- The evaluation that the route asks for when the principal is known. -/
def args (principal : Principal) : EvaluateArgs where
  caseId := d.timer.caseId
  tenant := principal.tenant
  actor := m.actor principal

def program : Except HttpResponse (Service CaseAssessment) :=
  match caseIdOfPath (d.path m) with
  | none => .error (.refused 404 "Not Found")
  | some caseId =>
    match m.identity.resolve (d.headers m) with
    | .error _ => .error (.refused 401 "authentication required")
    | .ok principal => .ok (m.svc.evaluateCase
        { caseId, tenant := principal.tenant, actor := m.actor principal } d.readings d.routing)

end TaskDelivery

/-- A call on the engine, from anywhere, or the delivery of a task. -/
inductive ManagedEvent where
  | call (r : CaseRequest)
  | deliver (d : TaskDelivery)

namespace ManagedWorld

variable {ρ : Type} (m : ManagedProfile) (others : Handler PortOp PortOp.Ret ServiceError ρ)

def start (s : ρ) : ManagedWorld ρ := ⟨.empty, .empty, [], [], s⟩

/-- The response to a delivery, and the state afterwards. -/
def post (w : ManagedWorld ρ) (d : TaskDelivery) : HttpResponse × ManagedWorld ρ :=
  match d.program m with
  | .error response => (response, w)
  | .ok program =>
    match program.exec (managedPorts m.tasks others) w with
    | (.ok assessment, w') => (.assessed assessment, w')
    | (.error (.caseNotFound _), w') => (.refused 404 "case not found", w')
    | (.error _, w') => (.refused 500 "Internal Server Error", w')

def serve (w : ManagedWorld ρ) : ManagedEvent → ManagedWorld ρ
  | .call r => ((r.program m.svc).exec (managedPorts m.tasks others) w).2
  | .deliver d => (w.post m others d).2

/-- What can happen: cases are opened under fresh ids, and a delivery brings the task of a
scheduled timer, authenticated as the invoker, which the identity adapter resolves. -/
def Admissible (w : ManagedWorld ρ) : ManagedEvent → Prop
  | .call r => ∀ a, r.call = .openCase a → IsUuidHex a.caseId
  | .deliver d => d.timer ∈ w.created ∧
      (∃ claims, m.identity.Authenticated (d.headers m) claims ∧
        strip claims.email = m.tasks.invoker) ∧
      ∃ principal, m.identity.resolve (d.headers m) = .ok principal

/-- A delivery evaluates the case its timer was scheduled for: the response is the assessment of
that case as it is stored, and the trail gets the event of its evaluation by the principal. -/
def EvaluatesItsCase (w : ManagedWorld ρ) : ManagedEvent → Prop
  | .call _ => True
  | .deliver d => ∃ principal c definition assessment later,
      m.identity.resolve (d.headers m) = .ok principal ∧
      w.cases.find? (d.timer.tenant, d.timer.caseId) = some c ∧
      m.svc.definitions.definition c.caseType = some definition ∧
      assess c definition d.readings.now m.svc.holidays = .ok assessment ∧
      (w.post m others d).1 = .assessed assessment ∧
      (w.post m others d).2.trail = w.trail ++ .caseAction
        (m.svc.evaluationEvent (d.args m principal) c assessment d.readings.timestamp) :: later

/-- A delivery is for a timer of this tenant, every started clock of the timer's case has a due
date, and no port raises on the way. -/
def Evaluable (tenant : String) (w : ManagedWorld ρ) : ManagedEvent → Prop
  | .call _ => True
  | .deliver d => d.timer.tenant = tenant ∧
      (∀ c definition, w.cases.find? (d.timer.tenant, d.timer.caseId) = some c →
        m.svc.definitions.definition c.caseType = some definition →
        c.Assessable definition m.svc.holidays) ∧
      ∀ program, d.program m = .ok program → program.Answered (managedPorts m.tasks others) w

section
variable {m : ManagedProfile} {others : Handler PortOp PortOp.Ret ServiceError ρ} {d : TaskDelivery}
variable {w : ManagedWorld ρ} {principal : Principal}

theorem path_eq : d.path m = CloudTasksTimerAdapter.evaluatePath d.timer.caseId := by
  simp [TaskDelivery.path, CloudTasksTimerAdapter.task]

theorem caseIdOfPath_evaluatePath {id : String} (hid : IsUuidHex id) :
    caseIdOfPath (CloudTasksTimerAdapter.evaluatePath id) = some id := by
  have hslash : '/' ∉ id.toList :=
    fun hmem => absurd (List.all_eq_true.mp hid.2 _ hmem) (by decide)
  have hne : id ≠ "" := by
    rintro rfl
    exact absurd hid.1 (by decide)
  have hpath : (CloudTasksTimerAdapter.evaluatePath id).toList =
      [] ++ '/' :: ("v1".toList ++ '/' :: ("cases".toList ++ '/' ::
        (id.toList ++ '/' :: "evaluate".toList))) := by
    simp [CloudTasksTimerAdapter.evaluatePath]
  have hsplit : (CloudTasksTimerAdapter.evaluatePath id).toList.splitOn '/' =
      [[], "v1".toList, "cases".toList, id.toList, "evaluate".toList] := by
    rw [hpath, List.splitOn_append_cons_self_of_not_mem (by simp),
      List.splitOn_append_cons_self_of_not_mem (by decide),
      List.splitOn_append_cons_self_of_not_mem (by decide),
      List.splitOn_append_cons_self_of_not_mem hslash,
      List.splitOn_eq_singleton (by decide)]
  simp [caseIdOfPath, hsplit, hne]

theorem program_eq (hid : IsUuidHex d.timer.caseId)
    (hresolve : m.identity.resolve (d.headers m) = .ok principal) :
    d.program m = .ok (m.svc.evaluateCase (d.args m principal) d.readings d.routing) := by
  simp only [TaskDelivery.program, path_eq, caseIdOfPath_evaluatePath hid, hresolve,
    TaskDelivery.args]

variable (others w) in
theorem post_of_resolved (hid : IsUuidHex d.timer.caseId)
    (hresolve : m.identity.resolve (d.headers m) = .ok principal) :
    (w.post m others d).2 = ((m.svc.evaluateCase (d.args m principal) d.readings d.routing).exec
        (managedPorts m.tasks others) w).2 ∧
      ∀ assessment, (w.post m others d).1 = .assessed assessment ↔
        ((m.svc.evaluateCase (d.args m principal) d.readings d.routing).exec
          (managedPorts m.tasks others) w).1 = .ok assessment := by
  simp only [post, program_eq hid hresolve]
  split <;> simp_all

end

/-- The case of key `k` is stored and has a generated id. -/
def Stored (w : ManagedWorld ρ) (k : String × String) : Prop :=
  IsUuidHex k.2 ∧ (w.cases.find? k).isSome

/-- Every timer for which a task was created belongs to a stored case, and every stored case is
of a registered type. -/
structure Consistent (w : ManagedWorld ρ) : Prop where
  created : ∀ t ∈ w.created, Stored w (t.tenant, t.caseId)
  registered : ∀ k c, w.cases.find? k = some c →
    (m.svc.definitions.definition c.caseType).isSome

section
variable {m : ManagedProfile} {others : Handler PortOp PortOp.Ret ServiceError ρ} {d : TaskDelivery}
variable {w : ManagedWorld ρ} {principal : Principal}

theorem managedPorts_cases (op : PortOp) : (managedPorts m.tasks others op w).2.cases =
    match op with
    | .casePut c => w.cases.upsert c
    | _ => w.cases := by
  cases op with
  | record event =>
    simp only [managedPorts]
    split <;> rfl
  | _ => rfl

theorem managedPorts_created (op : PortOp) : (managedPorts m.tasks others op w).2.created =
    match op with
    | .timerSchedule timer => w.created ++ [timer]
    | _ => w.created := by
  cases op with
  | record event =>
    simp only [managedPorts]
    split <;> rfl
  | _ => rfl

theorem managedPorts_trail (op : PortOp) :
    ∃ later, (managedPorts m.tasks others op w).2.trail = w.trail ++ later := by
  cases op with
  | record event =>
    simp only [managedPorts]
    split
    · exact ⟨[event], rfl⟩
    · exact ⟨[], (List.append_nil _).symm⟩
  | _ => exact ⟨[], (List.append_nil _).symm⟩

theorem exec_trail {α : Type} (p : Service α) :
    ∃ later, (p.exec (managedPorts m.tasks others) w).2.trail = w.trail ++ later := by
  induction p generalizing w with
  | done a => exact ⟨[], (List.append_nil _).symm⟩
  | raise e => exact ⟨[], (List.append_nil _).symm⟩
  | call op next ih =>
    obtain ⟨later, hlater⟩ : ∃ later,
        (managedPorts m.tasks others op w).2.trail = w.trail ++ later := managedPorts_trail op
    simp only [exec]
    rcases hanswer : managedPorts m.tasks others op w with ⟨_ | answer, w'⟩
    · rw [hanswer] at hlater
      exact ⟨later, hlater⟩
    · obtain ⟨more, hmore⟩ := ih answer (w := w')
      rw [hanswer] at hlater
      exact ⟨later ++ more, by rw [hmore, hlater, List.append_assoc]⟩

theorem recorded_trail {event : AuditEvent} {answer : Unit} {w' : ManagedWorld ρ}
    (h : managedPorts m.tasks others (.record event) w = (.ok answer, w')) :
    w'.trail = w.trail ++ [event] := by
  simp only [managedPorts] at h
  split at h
  · cases h
    rfl
  · cases h

theorem reported_trail {a : EvaluateArgs} {r : Readings} {routing : Routing} {c : Case}
    {assessment answer : CaseAssessment}
    (h : ((m.svc.reported a c assessment r routing).exec (managedPorts m.tasks others) w).1 =
      .ok answer) :
    ∃ later, ((m.svc.reported a c assessment r routing).exec
        (managedPorts m.tasks others) w).2.trail =
      w.trail ++ .caseAction (m.svc.evaluationEvent a c assessment r.timestamp) :: later := by
  rw [CaseWorkflowService.reported, exec_bind, port, exec_perform] at h ⊢
  rcases hanswer : managedPorts m.tasks others
    (.record (.caseAction (m.svc.evaluationEvent a c assessment r.timestamp))) w with ⟨_ | _, w'⟩
  · rw [hanswer] at h
    cases h
  · obtain ⟨later, hlater⟩ : ∃ later, ((m.svc.handOver c assessment routing).exec
        (managedPorts m.tasks others) w').2.trail = w'.trail ++ later := exec_trail _
    refine ⟨later, ?_⟩
    rw [recorded_trail hanswer, List.append_assoc] at hlater
    exact hlater

theorem exec_load_managed (tenant caseId : String) :
    (CaseWorkflowService.load tenant caseId).exec (managedPorts m.tasks others) w =
      (match w.cases.find? (tenant, caseId) with
        | none => .error (.caseNotFound caseId)
        | some c => .ok c, w) := by
  have hget : @exec _ _ _ (Option Case) _ (managedPorts m.tasks others)
    (port (.caseGet tenant caseId)) w = (.ok (w.cases.find? (tenant, caseId)), w) := rfl
  simp only [CaseWorkflowService.load, exec_bind, hget]
  cases w.cases.find? (tenant, caseId) <;> rfl

variable (others) in
theorem evaluateCase_stored {a : EvaluateArgs} {r : Readings} {c : Case}
    {definition : WorkflowDefinition} {assessment : CaseAssessment}
    (hget : w.cases.find? (a.tenant, a.caseId) = some c)
    (hdefinition : m.svc.definitions.definition c.caseType = some definition)
    (hassess : assess c definition (a.asOf.getD r.now) m.svc.holidays = .ok assessment)
    (routing : Routing) :
    (m.svc.evaluateCase a r routing).exec (managedPorts m.tasks others) w =
        (m.svc.reported a c assessment r routing).exec (managedPorts m.tasks others) w ∧
      ((m.svc.evaluateCase a r routing).Answered (managedPorts m.tasks others) w ↔
        (m.svc.reported a c assessment r routing).Answered (managedPorts m.tasks others) w) := by
  obtain ⟨next, heq, hnext⟩ := evaluateCase_assessed hdefinition hassess routing
  rw [heq, ← hnext, ← hget]
  exact ⟨rfl, Iff.rfl⟩

/-- An evaluation that returns has found a case of its tenant that can be assessed. -/
theorem evaluateCase_returned {a : EvaluateArgs} {r : Readings} {routing : Routing}
    {answer : CaseAssessment}
    (h : ((m.svc.evaluateCase a r routing).exec (managedPorts m.tasks others) w).1 = .ok answer) :
    ∃ c definition assessment, w.cases.find? (a.tenant, a.caseId) = some c ∧
      m.svc.definitions.definition c.caseType = some definition ∧
      assess c definition (a.asOf.getD r.now) m.svc.holidays = .ok assessment := by
  rw [CaseWorkflowService.evaluateCase, exec_bind, exec_load_managed] at h
  cases hget : w.cases.find? (a.tenant, a.caseId) with
  | none =>
    rw [hget] at h
    cases h
  | some c =>
    rw [hget] at h
    dsimp only at h
    cases hdefinition : m.svc.definitions.definition c.caseType with
    | none =>
      rw [exec_bind, CaseWorkflowService.definition, hdefinition] at h
      cases h
    | some definition =>
      rw [exec_bind, CaseWorkflowService.definition, hdefinition] at h
      cases hassess : assess c definition (a.asOf.getD r.now) m.svc.holidays with
      | error e =>
        simp only [exec_pure, hassess] at h
        cases h
      | ok assessment => exact ⟨c, definition, assessment, rfl, hdefinition, hassess⟩

theorem evaluable_of_evaluatesItsCase (h : Consistent m w) (hcreated : d.timer ∈ w.created)
    (hresolve : m.identity.resolve (d.headers m) = .ok principal)
    (hevaluates : EvaluatesItsCase m others w (.deliver d)) :
    Evaluable m others principal.tenant w (.deliver d) := by
  obtain ⟨hid, -⟩ := h.created d.timer hcreated
  obtain ⟨hstate, hresponse⟩ := post_of_resolved others w hid hresolve
  obtain ⟨_, c, definition, assessment, later, -, hget, hdefinition, hassess, hreturns, htrail⟩ :=
    hevaluates
  rw [hresponse] at hreturns
  rw [hstate] at htrail
  obtain ⟨c', definition', assessment', hget', hdefinition', hassess'⟩ :=
    evaluateCase_returned hreturns
  obtain ⟨hexec, -⟩ := evaluateCase_stored others hget' hdefinition' hassess' d.routing
  rw [hexec] at hreturns htrail
  -- what the trail says of the case evaluated gives its tenant
  obtain ⟨later', htrail'⟩ := reported_trail hreturns
  have hevents := List.cons.inj (List.append_cancel_left (htrail.symm.trans htrail'))
  have hevent : c.tenant = c'.tenant :=
    congrArg CaseAuditEvent.tenant (AuditEvent.caseAction.inj hevents.1)
  have htenant : c.tenant = d.timer.tenant := congrArg Prod.fst (KeyedTable.key_of_find? hget)
  have htenant' : c'.tenant = principal.tenant :=
    congrArg Prod.fst (KeyedTable.key_of_find? hget')
  refine ⟨htenant.symm.trans (hevent.trans htenant'), ?_, ?_⟩
  · intro c'' definition'' hget'' hdefinition''
    cases hget.symm.trans hget''
    cases hdefinition.symm.trans hdefinition''
    exact assess_returns_iff.mp ⟨assessment, hassess⟩
  · intro program hprogram
    cases (program_eq hid hresolve).symm.trans hprogram
    exact answered_of_returns _ (hexec ▸ hreturns)

theorem evaluatesItsCase_of_evaluable (h : Consistent m w) (hcreated : d.timer ∈ w.created)
    (hresolve : m.identity.resolve (d.headers m) = .ok principal)
    (hevaluable : Evaluable m others principal.tenant w (.deliver d)) :
    EvaluatesItsCase m others w (.deliver d) := by
  obtain ⟨hid, hstored⟩ := h.created d.timer hcreated
  obtain ⟨hstate, hresponse⟩ := post_of_resolved others w hid hresolve
  obtain ⟨htenant, hassessable, hanswered⟩ := hevaluable
  obtain ⟨c, hget⟩ := Option.isSome_iff_exists.mp hstored
  obtain ⟨definition, hdefinition⟩ := Option.isSome_iff_exists.mp (h.registered _ _ hget)
  obtain ⟨assessment, hassess⟩ :
      ∃ a, assess c definition d.readings.now m.svc.holidays = .ok a :=
    assess_returns_iff.mpr (hassessable c definition hget hdefinition)
  have hfound : w.cases.find? ((d.args m principal).tenant, (d.args m principal).caseId) =
      some c := by
    rw [← hget, htenant]
    rfl
  obtain ⟨hexec, hiff⟩ := evaluateCase_stored (a := d.args m principal) (r := d.readings)
    others hfound hdefinition hassess d.routing
  have hreturns := (reported_satisfies (d.args m principal) c assessment d.readings
    d.routing).exec_of_answered _ (hiff.mp (hanswered _ (program_eq hid hresolve)))
  obtain ⟨later, htrail⟩ := reported_trail hreturns
  refine ⟨principal, c, definition, assessment, later, hresolve, hget, hdefinition, hassess, ?_, ?_⟩
  · rw [hresponse, hexec]
    exact hreturns
  · rw [hstate, hexec]
    exact htrail

theorem evaluatesItsCase_iff (h : Consistent m w) (hcreated : d.timer ∈ w.created)
    (hresolve : m.identity.resolve (d.headers m) = .ok principal) :
    EvaluatesItsCase m others w (.deliver d) ↔
      Evaluable m others principal.tenant w (.deliver d) :=
  ⟨evaluable_of_evaluatesItsCase h hcreated hresolve,
    evaluatesItsCase_of_evaluable h hcreated hresolve⟩

theorem consistent_start (s : ρ) : Consistent m (start s) := by
  constructor
  · intro t ht
    cases ht
  · intro k c hget
    cases hget

theorem stored_op {k : String × String} (op : PortOp) (h : Stored w k) :
    Stored (managedPorts m.tasks others op w).2 k := by
  refine ⟨h.1, ?_⟩
  rw [managedPorts_cases]
  cases op with
  | casePut c =>
    rw [KeyedTable.find?_upsert]
    split
    · rfl
    · exact h.2
  | _ => exact h.2

/-- An operation keeps the invariant if the timer it schedules is of a stored case, and the case
it writes of a registered type. -/
theorem consistent_op (op : PortOp)
    (hschedule : ∀ t, op = .timerSchedule t → Stored w (t.tenant, t.caseId))
    (hput : ∀ c, op = .casePut c → (m.svc.definitions.definition c.caseType).isSome)
    (h : Consistent m w) : Consistent m (managedPorts m.tasks others op w).2 := by
  constructor
  · intro t ht
    refine stored_op op ?_
    rw [managedPorts_created] at ht
    cases op with
    | timerSchedule timer =>
      rcases List.mem_append.mp ht with hmem | hmem
      · exact h.created t hmem
      · rw [List.mem_singleton.mp hmem]
        exact hschedule timer rfl
    | _ => exact h.created t ht
  · intro k c hget
    rw [managedPorts_cases] at hget
    cases op with
    | casePut c' =>
      rw [KeyedTable.find?_upsert] at hget
      split at hget
      · cases hget
        exact hput c rfl
      · exact h.registered k c hget
    | _ => exact h.registered k c hget

/-- A program that schedules no timer, and writes cases of registered types only, keeps the
invariant. -/
theorem consistent_exec {α : Type} {p : Service α}
    (hp : p.Only (fun op => (∀ t, op ≠ .timerSchedule t) ∧
      ∀ c, op = .casePut c → (m.svc.definitions.definition c.caseType).isSome))
    (h : Consistent m w) : Consistent m (p.exec (managedPorts m.tasks others) w).2 :=
  hp.exec_invariant _
    (fun op _ hop hw => consistent_op op (fun t ht => absurd ht (hop.1 t)) hop.2 hw) h

theorem consistent_openCase {a : OpenArgs} (r : Readings) (hid : IsUuidHex a.caseId)
    (h : Consistent m w) :
    Consistent m ((m.svc.openCase a r).exec (managedPorts m.tasks others) w).2 := by
  cases hdefinition : m.svc.definitions.definition a.caseType with
  | none =>
    simp only [CaseWorkflowService.openCase, CaseWorkflowService.definition, hdefinition]
    exact h
  | some definition =>
    let c := CaseWorkflowService.opened a definition r.now
    let w' : ManagedWorld ρ := { w with cases := w.cases.upsert c }
    obtain ⟨next, heq, hnext⟩ := openCase_call hdefinition r
    have hrest : (next ()).Only (fun op =>
        (∀ t, op = .timerSchedule t → (t.tenant, t.caseId) = c.key) ∧ ∀ c', op ≠ .casePut c') := by
      refine hnext _ ?_ (by simp) (by simp)
      intro clock due
      refine ⟨?_, by simp⟩
      rintro t ⟨⟩
      rfl
    have hstored : Stored w' c.key := by
      refine ⟨hid, ?_⟩
      rw [KeyedTable.find?_upsert_self]
      rfl
    have htype : (m.svc.definitions.definition c.caseType).isSome := by
      change (m.svc.definitions.definition definition.caseType).isSome
      rw [m.svc.definitions.keyed _ _ hdefinition, hdefinition]
      rfl
    have hw' : Consistent m w' := @consistent_op ρ m others w (.casePut c) (by simp)
      (by rintro c' ⟨⟩; exact htype) h
    have hkeep : ∀ op (w : ManagedWorld ρ),
        ((∀ t, op = .timerSchedule t → (t.tenant, t.caseId) = c.key) ∧ ∀ c', op ≠ .casePut c') →
        Consistent m w ∧ Stored w c.key →
        Consistent m (managedPorts m.tasks others op w).2 ∧
          Stored (managedPorts m.tasks others op w).2 c.key := by
      rintro op w hop ⟨hw, hc⟩
      refine ⟨consistent_op op (fun t ht => ?_) (fun c' hc' => absurd hc' (hop.2 c')) hw,
        stored_op op hc⟩
      rw [hop.1 t ht]
      exact hc
    rw [heq]
    change Consistent m ((next ()).exec (managedPorts m.tasks others) w').2
    exact (hrest.exec_invariant _ hkeep ⟨hw', hstored⟩).1

theorem consistent_evaluateCase (a : EvaluateArgs) (r : Readings) (routing : Routing)
    (h : Consistent m w) :
    Consistent m ((m.svc.evaluateCase a r routing).exec (managedPorts m.tasks others) w).2 := by
  refine consistent_exec ?_ h
  obtain ⟨next, heq, hnone, hsome⟩ := evaluateCase_call m.svc a r routing
  rw [heq]
  refine ⟨by simp, fun found _ => ?_⟩
  cases found with
  | none =>
    rw [hnone]
    exact only_raise _
  | some c => exact hsome c _ (by simp) (by simp) (by simp) (by simp)

theorem consistent_transitionCase (a : TransitionArgs) (r : Readings) (h : Consistent m w) :
    Consistent m ((m.svc.transitionCase a r).exec (managedPorts m.tasks others) w).2 := by
  obtain ⟨next, heq, hnone, hsome⟩ := transitionCase_call m.svc a r
  rw [heq]
  change Consistent m ((next (w.cases.find? (a.tenant, a.caseId))).exec
    (managedPorts m.tasks others) w).2
  cases hget : w.cases.find? (a.tenant, a.caseId) with
  | none =>
    rw [hnone]
    exact h
  | some c =>
    refine consistent_exec (hsome c _ ?_ (by simp) (by simp) (by simp)) h
    intro moved _ htype
    refine ⟨by simp, ?_⟩
    rintro c' ⟨⟩
    rw [htype]
    exact h.registered _ _ hget

theorem consistent_serve (e : ManagedEvent) (he : Admissible m w e) (h : Consistent m w) :
    Consistent m (w.serve m others e) := by
  cases e with
  | deliver d =>
    obtain ⟨hcreated, -, principal, hresolve⟩ := he
    obtain ⟨hstate, -⟩ := post_of_resolved others w
      (h.created d.timer hcreated).1 hresolve
    rw [serve, hstate]
    exact consistent_evaluateCase _ _ _ h
  | call r =>
    obtain ⟨call, readings⟩ := r
    cases call with
    | openCase a =>
      simp only [serve, CaseRequest.program, exec_bind_pure]
      exact consistent_openCase readings (he a rfl) h
    | transitionCase a =>
      simp only [serve, CaseRequest.program, exec_bind_pure]
      exact consistent_transitionCase a readings h
    | evaluateCase a routing =>
      simp only [serve, CaseRequest.program, exec_bind_pure]
      exact consistent_evaluateCase a readings routing h
    | get tenant caseId =>
      simp only [serve, CaseRequest.program, exec_bind_pure]
      exact consistent_exec (load_only (by simp)) h
    | listCases tenant =>
      simp only [serve, CaseRequest.program, exec_bind_pure]
      exact consistent_exec (only_perform (by simp)) h

end

end ManagedWorld

/-- In every run a delivery evaluates the case of its timer exactly when the timer's tenant is
the one tenant that the entitlement mapping gives to the invoker, the case has its due dates and
the ports answer. -/
theorem callbacks_evaluate_iff {ρ : Type} (m : ManagedProfile)
    (others : Handler PortOp PortOp.Ret ServiceError ρ) {entitlement : Entitlement}
    (hentry : m.identity.entitlements.get m.tasks.invoker = some entitlement) (s : ρ)
    {events : List ManagedEvent}
    (hevents : Along (ManagedWorld.serve m others) (ManagedWorld.Admissible m)
      (ManagedWorld.start s) events) :
    Along (ManagedWorld.serve m others) (ManagedWorld.EvaluatesItsCase m others)
        (ManagedWorld.start s) events ↔
      Along (ManagedWorld.serve m others)
        (ManagedWorld.Evaluable m others (strip entitlement.tenant))
        (ManagedWorld.start s) events := by
  refine along_congr (ManagedWorld.Consistent m) (ManagedWorld.Admissible m)
    (fun w e hw he _ => ManagedWorld.consistent_serve e he hw) ?_
    (ManagedWorld.consistent_start s) hevents
  intro w e hw he
  cases e with
  | call r => exact Iff.rfl
  | deliver d =>
    obtain ⟨hcreated, ⟨claims, hclaims, hemail⟩, principal, hresolve⟩ := he
    rw [← hemail] at hentry
    rw [ManagedWorld.evaluatesItsCase_iff hw hcreated hresolve,
      IapIdentityAdapter.resolve_tenant hresolve hclaims hentry]

namespace Demo

/-- The sample registry under the managed profile. The invoker is entitled for `demo-bank`. -/
def managed : ManagedProfile where
  svc := complaints
  tasks := ⟨"queue", "https://console.example/", "invoker@console.example"⟩
  identity := {
    audience := "/projects/1/apps/app"
    entitlements := ⟨[("invoker@console.example", ⟨"demo-bank", some [], ""⟩)], by decide⟩
    selectAssertion := fun headers =>
      match headers.lookup "x-goog-iap-jwt-assertion" with
      | some assertion => .ok assertion
      | none => .error "no assertion"
    verifiedClaims := fun assertion =>
      if assertion = "signed" then .ok ⟨"invoker@console.example", ""⟩
      else .error (.identityError "not signed") }
  actor := Principal.subject

/-- The task of the first deadline of a complaint, delivered five days after it was opened. -/
def taskDelivery (tenant : String) : TaskDelivery where
  timer := ⟨tenant, "0123456789abcdef0123456789abcdef", "acknowledgement", noon.addDays 2⟩
  attached := [("x-goog-iap-jwt-assertion", "signed")]
  readings := ⟨noon.addDays 5, noon.addDays 5⟩
  routing := ⟨"rev-1", ⟨noon.addDays 5, noon.addDays 5⟩⟩

/-- A complaint is opened in a tenant, and its first deadline is delivered. -/
def callback (tenant : String) : List ManagedEvent :=
  [.call ⟨.openCase {
      caseId := "0123456789abcdef0123456789abcdef"
      tenant
      caseType := "complaint"
      actor := "demo.agent" }, readings⟩,
    .deliver (taskDelivery tenant)]

theorem callback_admissible (tenant : String) (h : tenant = "demo-bank" ∨ tenant = "other-bank") :
    Along (ManagedWorld.serve managed localPorts) (ManagedWorld.Admissible managed)
      (ManagedWorld.start World.empty) (callback tenant) := by
  refine ⟨?_, ⟨?_, ⟨⟨"invoker@console.example", ""⟩, ⟨"signed", rfl, rfl⟩, by decide⟩, ?_⟩, trivial⟩
  · rintro a ⟨⟩
    exact (by decide : IsUuidHex "0123456789abcdef0123456789abcdef")
  · rcases h with rfl | rfl <;> decide
  · rcases h with rfl | rfl <;> exact ⟨_, rfl⟩

end Demo

/-- The overdue timer of the tenant that the invoker works for evaluates its case. -/
theorem demo_callback_evaluates : Along (ManagedWorld.serve Demo.managed localPorts)
    (ManagedWorld.EvaluatesItsCase Demo.managed localPorts) (ManagedWorld.start World.empty)
    (Demo.callback "demo-bank") := by
  refine (callbacks_evaluate_iff Demo.managed localPorts rfl World.empty
    (Demo.callback_admissible "demo-bank" (Or.inl rfl))).mpr ⟨trivial, ⟨?_, ?_, ?_⟩, trivial⟩
  · exact (by decide : "demo-bank" = strip "demo-bank")
  · intro c definition hget hdefinition
    cases hget
    cases hdefinition
    decide
  · intro program hprogram
    have hid : IsUuidHex (Demo.taskDelivery "demo-bank").timer.caseId :=
      (by decide : IsUuidHex "0123456789abcdef0123456789abcdef")
    have hresolve : Demo.managed.identity.resolve ((Demo.taskDelivery "demo-bank").headers
        Demo.managed) = .ok ⟨"invoker@console.example", ["user:invoker@console.example"],
          "demo-bank", "iap", "gcp-iap"⟩ := rfl
    cases (ManagedWorld.program_eq hid hresolve).symm.trans hprogram
    exact answered_of_returns _ rfl

/-- The timer of a second tenant never reaches its case. -/
theorem foreign_callback_misses : ¬ ∀ (m : ManagedProfile) (entitlement : Entitlement),
    m.identity.entitlements.get m.tasks.invoker = some entitlement →
    ∀ events, Along (ManagedWorld.serve m localPorts) (ManagedWorld.Admissible m)
      (ManagedWorld.start World.empty) events →
    Along (ManagedWorld.serve m localPorts) (ManagedWorld.EvaluatesItsCase m localPorts)
      (ManagedWorld.start World.empty) events := by
  intro h
  have hdom := Demo.callback_admissible "other-bank" (Or.inr rfl)
  obtain ⟨-, hevaluates, -⟩ := h Demo.managed _ rfl _ hdom
  have hconsistent := @ManagedWorld.consistent_serve _ Demo.managed localPorts _ _ hdom.1
    (ManagedWorld.consistent_start World.empty)
  obtain ⟨-, ⟨hcreated, ⟨claims, hclaims, hemail⟩, principal, hresolve⟩, -⟩ := hdom
  obtain ⟨htenant, -⟩ :=
    (ManagedWorld.evaluatesItsCase_iff hconsistent hcreated hresolve).mp hevaluates
  rw [IapIdentityAdapter.resolve_tenant hresolve hclaims (by rw [hemail]; rfl)] at htenant
  exact absurd htenant (by decide)

end ReviewConsole

import ReviewConsole.GuardedRuns
import ReviewConsole.LocalPorts
import Mathlib.Data.List.DropRight

/-!
# The two timer adapters

The local adapter keeps a register of timers under the triple of tenant, case and clock. The
managed adapter keeps a task under a name made from that triple. The register and the queue
are run side by side over the same calls.
-/
namespace ReviewConsole
open GuardedRuns KeyedTables

/-- A character a task id may hold: `[A-Za-z0-9_-]`. -/
def isTaskChar (ch : Char) : Bool := ch.isAlphanum || ch = '_' || ch = '-'

/-- The parts of the raw task id, joined by two hyphens. -/
def rawTaskId (tenant caseId clock : String) : String :=
  tenant ++ "--" ++ caseId ++ "--" ++ clock

/-- The raw id with every other character replaced, cut off at 500 characters. -/
def taskId (tenant caseId clock : String) : String :=
  String.ofList (((rawTaskId tenant caseId clock).toList.map
    (fun ch => if isTaskChar ch then ch else '-')).take 500)

/-- A task of the queue: one HTTP request at a given time. -/
structure HttpTask where
  name : String
  scheduleTime : DateTime
  httpMethod : String
  url : String
  headers : List (String × String)
  serviceAccountEmail : String
  deriving DecidableEq, Repr

/-- The settings of the managed adapter. `queuePath` is what the client makes of project,
region and queue. -/
structure CloudTasksTimerAdapter where
  queuePath : String
  callbackUrl : String
  invoker : String

namespace CloudTasksTimerAdapter

variable (adapter : CloudTasksTimerAdapter)

def taskName (tenant caseId clock : String) : String :=
  adapter.queuePath ++ "/tasks/" ++ taskId tenant caseId clock

/-- `callbackUrl.rstrip("/")`. -/
def callback : String := String.ofList (adapter.callbackUrl.toList.rdropWhile (· = '/'))

def evaluatePath (caseId : String) : String := "/v1/cases/" ++ caseId ++ "/evaluate"

def task (t : Timer) : HttpTask where
  name := adapter.taskName t.tenant t.caseId t.clock
  scheduleTime := t.fireAt
  httpMethod := "POST"
  url := adapter.callback ++ evaluatePath t.caseId
  headers := [("X-Case-Tenant", t.tenant), ("X-Case-Clock", t.clock)]
  serviceAccountEmail := adapter.invoker

/-- Delete the task of this name, if there is one, and create the new one. -/
def schedule (queue : KeyedTable HttpTask.name) (t : Timer) : KeyedTable HttpTask.name :=
  (queue.erase (adapter.taskName t.tenant t.caseId t.clock)).upsert (adapter.task t)

def cancel (queue : KeyedTable HttpTask.name) (tenant caseId clock : String) :
    KeyedTable HttpTask.name :=
  queue.erase (adapter.taskName tenant caseId clock)

variable {adapter}

theorem taskName_inj {tenant caseId clock tenant' caseId' clock' : String} :
    adapter.taskName tenant caseId clock = adapter.taskName tenant' caseId' clock' ↔
      taskId tenant caseId clock = taskId tenant' caseId' clock' := by
  simp [taskName]

/-- A task tells which timer it is for: the headers hold the tenant and the clock, the URL
the case. -/
theorem task_injective : Function.Injective adapter.task := by
  rintro ⟨tenant, caseId, clock, fireAt⟩ ⟨tenant', caseId', clock', fireAt'⟩ h
  have hcase : "/v1/cases/" ++ caseId ++ "/evaluate" = "/v1/cases/" ++ caseId' ++ "/evaluate" := by
    have hurl := congrArg HttpTask.url h
    simpa [task, evaluatePath] using hurl
  have htime := congrArg HttpTask.scheduleTime h
  have hheaders := congrArg HttpTask.headers h
  simp_all [task]

theorem mem_schedule {queue : KeyedTable HttpTask.name} {t : Timer} {x : HttpTask} :
    x ∈ (adapter.schedule queue t).rows ↔
      x = adapter.task t ∨ (x ∈ queue.rows ∧ x.name ≠ (adapter.task t).name) := by
  rw [schedule, KeyedTable.mem_upsert]
  simp [KeyedTable.erase, task]

end CloudTasksTimerAdapter

/-- A call on the timer port. -/
inductive TimerCall where
  | schedule (timer : Timer)
  | cancel (tenant caseId clock : String)
  deriving DecidableEq, Repr

def TimerCall.key : TimerCall → String × String × String
  | .schedule timer => timer.key
  | .cancel tenant caseId clock => (tenant, caseId, clock)

/-- The local register and the managed queue, side by side. -/
structure TimerStores where
  register : KeyedTable Timer.key
  queue : KeyedTable HttpTask.name

namespace TimerStores

variable (adapter : CloudTasksTimerAdapter)

def empty : TimerStores := ⟨.empty, .empty⟩

def serve (s : TimerStores) : TimerCall → TimerStores
  | .schedule timer => ⟨s.register.upsert timer, adapter.schedule s.queue timer⟩
  | .cancel tenant caseId clock =>
    ⟨s.register.erase (tenant, caseId, clock), adapter.cancel s.queue tenant caseId clock⟩

/-- The tasks of the queue are those of the registered timers, one for each. -/
def Correspond (s : TimerStores) : Prop := s.queue.rows.Perm (s.register.rows.map adapter.task)

/-- The call leaves the task of every timer that is registered under another triple. -/
def KeepsOthers (s : TimerStores) (call : TimerCall) : Prop :=
  ∀ t ∈ s.register.rows, t.key ≠ call.key → adapter.task t ∈ (s.serve adapter call).queue.rows

/-- No timer that is registered under another triple has the task id of the call. -/
def NoClash (s : TimerStores) (call : TimerCall) : Prop :=
  ∀ t ∈ s.register.rows, t.key ≠ call.key →
    taskId t.tenant t.caseId t.clock ≠ taskId call.key.1 call.key.2.1 call.key.2.2

instance (s : TimerStores) (call : TimerCall) : Decidable (NoClash s call) := by
  unfold NoClash
  infer_instance

variable {adapter} {s : TimerStores} {call : TimerCall}

/-- Neither store holds a row twice, so they correspond when they hold the same rows. -/
theorem correspond_iff : Correspond adapter s ↔
    ∀ x, x ∈ s.queue.rows ↔ ∃ t ∈ s.register.rows, adapter.task t = x := by
  have hqueue : s.queue.rows.Nodup := s.queue.unique.of_map
  have hregister : (s.register.rows.map adapter.task).Nodup :=
    s.register.unique.of_map.map CloudTasksTimerAdapter.task_injective
  rw [Correspond, List.perm_ext_iff_of_nodup hqueue hregister]
  simp only [List.mem_map]

theorem Correspond.mem_iff (h : Correspond adapter s) {t : Timer} :
    adapter.task t ∈ s.queue.rows ↔ t ∈ s.register.rows := by
  rw [correspond_iff.mp h]
  constructor
  · rintro ⟨t', ht', he⟩
    rwa [← CloudTasksTimerAdapter.task_injective he]
  · intro ht
    exact ⟨t, ht, rfl⟩

theorem mem_register_serve {t : Timer} : t ∈ (s.serve adapter call).register.rows ↔
    call = .schedule t ∨ (t ∈ s.register.rows ∧ t.key ≠ call.key) := by
  cases call with
  | schedule timer =>
    simp only [serve, KeyedTable.mem_upsert, TimerCall.schedule.injEq, TimerCall.key, eq_comm]
  | cancel tenant caseId clock => simp [serve, KeyedTable.erase, TimerCall.key]

theorem mem_queue_serve {x : HttpTask} : x ∈ (s.serve adapter call).queue.rows ↔
    (∃ t, call = .schedule t ∧ adapter.task t = x) ∨
      (x ∈ s.queue.rows ∧ x.name ≠ adapter.taskName call.key.1 call.key.2.1 call.key.2.2) := by
  cases call with
  | schedule timer =>
    simp only [serve, CloudTasksTimerAdapter.mem_schedule, TimerCall.schedule.injEq,
      exists_eq_left', eq_comm]
    rfl
  | cancel tenant caseId clock =>
    simp [serve, CloudTasksTimerAdapter.cancel, KeyedTable.erase, TimerCall.key]

theorem keepsOthers_iff (h : Correspond adapter s) :
    KeepsOthers adapter s call ↔ NoClash s call := by
  constructor
  · intro hkeeps t ht hkey hid
    rcases mem_queue_serve.mp (hkeeps t ht hkey) with ⟨t', rfl, he⟩ | ⟨-, hname⟩
    · exact hkey (congrArg Timer.key (CloudTasksTimerAdapter.task_injective he)).symm
    · exact hname (CloudTasksTimerAdapter.taskName_inj.mpr hid)
  · intro hclash t ht hkey
    refine mem_queue_serve.mpr (Or.inr ⟨h.mem_iff.mpr ht, fun hname => ?_⟩)
    exact hclash t ht hkey (CloudTasksTimerAdapter.taskName_inj.mp hname)

/-- Corresponding stores still correspond after a call exactly when its task id is that of no
other registered timer. -/
theorem correspond_serve_iff (h : Correspond adapter s) :
    Correspond adapter (s.serve adapter call) ↔ NoClash s call := by
  constructor
  · intro h'
    refine (keepsOthers_iff h).mp (fun t ht hkey => ?_)
    exact h'.mem_iff.mpr (mem_register_serve.mpr (Or.inr ⟨ht, hkey⟩))
  · intro hclash
    refine correspond_iff.mpr (fun x => ?_)
    rw [mem_queue_serve]
    constructor
    · rintro (⟨t, hcall, rfl⟩ | ⟨hx, hname⟩)
      · exact ⟨t, mem_register_serve.mpr (Or.inl hcall), rfl⟩
      · obtain ⟨t, ht, rfl⟩ := (correspond_iff.mp h x).mp hx
        have hkey : t.key ≠ call.key := fun he => hname (by
          rw [← he]
          rfl)
        exact ⟨t, mem_register_serve.mpr (Or.inr ⟨ht, hkey⟩), rfl⟩
    · rintro ⟨t, ht, rfl⟩
      rcases mem_register_serve.mp ht with hcall | ⟨ht, hkey⟩
      · exact Or.inl ⟨t, hcall, rfl⟩
      · refine Or.inr ⟨h.mem_iff.mpr ht, fun hname => ?_⟩
        exact hclash t ht hkey (CloudTasksTimerAdapter.taskName_inj.mp hname)

theorem correspond_empty : Correspond adapter empty := List.Perm.nil

theorem always_correspond_iff (adapter : CloudTasksTimerAdapter) (calls : List TimerCall) :
    Always (serve adapter) (Correspond adapter) empty calls ↔
      Along (serve adapter) NoClash empty calls :=
  always_iff_along (fun _ => True) (fun _ _ => True) (fun _ _ _ _ _ _ => trivial)
    (fun _ _ _ h _ => correspond_serve_iff h) trivial correspond_empty
    (along_of_forall (fun _ _ => trivial))

/-- The queue follows the register in every state of a run, and equally no call touches the
task of another triple, exactly when no call meets a registered timer of another triple with
its own task id. -/
theorem timers_correspond_iff (adapter : CloudTasksTimerAdapter) (calls : List TimerCall) :
    (Always (serve adapter) (Correspond adapter) empty calls ↔
      Along (serve adapter) NoClash empty calls) ∧
    (Along (serve adapter) (KeepsOthers adapter) empty calls ↔
      Along (serve adapter) NoClash empty calls) := by
  constructor
  · exact always_correspond_iff adapter calls
  · refine along_congr (Correspond adapter) (fun _ _ => True) ?_
      (fun s call h _ => keepsOthers_iff h) correspond_empty (along_of_forall (fun _ _ => trivial))
    intro s call h _ hkeeps
    exact (correspond_serve_iff h).mpr ((keepsOthers_iff h).mp hkeeps)

/-- Two clocks of one case, `reply 1` and `reply-1`, share a task: the second replaces the
first, which stays registered locally. -/
theorem clocks_share_task : ¬ ∀ (adapter : CloudTasksTimerAdapter) (calls : List TimerCall),
    Always (serve adapter) (Correspond adapter) empty calls := by
  intro h
  have hrun := h ⟨"queue", "https://console.example", "invoker"⟩
    [.schedule ⟨"demo-bank", "case-1", "reply 1", ⟨739772, 0⟩⟩,
      .schedule ⟨"demo-bank", "case-1", "reply-1", ⟨739773, 0⟩⟩] _ (List.prefix_refl _)
  have hlength := hrun.length_eq
  revert hlength
  decide

end TimerStores

/-- What keeps task ids apart: nothing is replaced or cut off, the first two hyphens in a row
are those after the tenant, and the case id holds no hyphen. -/
structure PlainTriple (key : String × String × String) : Prop where
  chars : ∀ ch ∈ (rawTaskId key.1 key.2.1 key.2.2).toList, isTaskChar ch = true
  short : (rawTaskId key.1 key.2.1 key.2.2).toList.length ≤ 500
  tenant : ¬ ['-', '-'] <:+: (key.1.toList ++ ['-'])
  caseId : '-' ∉ key.2.1.toList

section
variable {α : Type} {d : α} {a a' r r' : List α}

private theorem eq_of_append_single (h : a ++ d :: r = a' ++ d :: r') (ha : d ∉ a) (ha' : d ∉ a') :
    a = a' ∧ r = r' := by
  induction a generalizing a' with
  | nil =>
    cases a' with
    | nil => exact ⟨rfl, List.tail_eq_of_cons_eq h⟩
    | cons y a' => exact absurd (List.head_eq_of_cons_eq h) (fun he => ha' (by simp [he]))
  | cons x a ih =>
    cases a' with
    | nil => exact absurd (List.head_eq_of_cons_eq h) (fun he => ha (by simp [he]))
    | cons y a' =>
      obtain ⟨rfl, htail⟩ := List.cons.inj h
      obtain ⟨rfl, hr⟩ := ih htail (fun hd => ha (List.mem_cons_of_mem _ hd))
        (fun hd => ha' (List.mem_cons_of_mem _ hd))
      exact ⟨rfl, hr⟩

private theorem pair_infix_of_append (h : d :: d :: r = a ++ d :: d :: r') (hne : a ≠ []) :
    [d, d] <:+: a ++ [d] := by
  rcases a with _ | ⟨x, _ | ⟨y, a⟩⟩
  · exact absurd rfl hne
  · obtain ⟨rfl, -⟩ := List.cons.inj h
    exact List.infix_refl _
  · obtain ⟨rfl, htail⟩ := List.cons.inj h
    obtain ⟨rfl, -⟩ := List.cons.inj htail
    exact ⟨[], a ++ [d], rfl⟩

private theorem eq_of_append_pair (h : a ++ d :: d :: r = a' ++ d :: d :: r')
    (ha : ¬ [d, d] <:+: a ++ [d]) (ha' : ¬ [d, d] <:+: a' ++ [d]) : a = a' ∧ r = r' := by
  induction a generalizing a' with
  | nil =>
    by_cases hnil : a' = []
    · subst hnil
      exact ⟨rfl, List.tail_eq_of_cons_eq (List.tail_eq_of_cons_eq h)⟩
    · exact absurd (pair_infix_of_append h hnil) ha'
  | cons x a ih =>
    cases a' with
    | nil => exact absurd (pair_infix_of_append h.symm (List.cons_ne_nil x a)) ha
    | cons y a' =>
      obtain ⟨rfl, htail⟩ := List.cons.inj h
      obtain ⟨rfl, hr⟩ := ih htail (fun hd => ha (List.infix_cons hd))
        (fun hd => ha' (List.infix_cons hd))
      exact ⟨rfl, hr⟩
end

theorem PlainTriple.taskId_toList {key : String × String × String} (h : PlainTriple key) :
    (taskId key.1 key.2.1 key.2.2).toList =
      key.1.toList ++ '-' :: '-' :: (key.2.1.toList ++ '-' :: '-' :: key.2.2.toList) := by
  have hchars : (rawTaskId key.1 key.2.1 key.2.2).toList.map
      (fun ch => if isTaskChar ch then ch else '-') = (rawTaskId key.1 key.2.1 key.2.2).toList := by
    refine (List.map_congr_left ?_).trans (List.map_id _)
    intro ch hch
    simp [h.chars ch hch]
  rw [taskId, String.toList_ofList, hchars, List.take_of_length_le h.short]
  simp [rawTaskId]

/-- Plain triples with the same task id are the same triple. -/
theorem PlainTriple.eq_of_taskId {key key' : String × String × String} (h : PlainTriple key)
    (h' : PlainTriple key')
    (hid : taskId key.1 key.2.1 key.2.2 = taskId key'.1 key'.2.1 key'.2.2) : key = key' := by
  have hlist := congrArg String.toList hid
  rw [h.taskId_toList, h'.taskId_toList] at hlist
  obtain ⟨htenant, hrest⟩ := eq_of_append_pair hlist h.tenant h'.tenant
  obtain ⟨hcase, hrest⟩ := eq_of_append_single hrest h.caseId h'.caseId
  have hclock : key.2.2.toList = key'.2.2.toList := List.cons_inj_right _ |>.mp hrest
  exact Prod.ext (String.toList_injective htenant)
    (Prod.ext (String.toList_injective hcase) (String.toList_injective hclock))

namespace TimerStores

/-- Over calls for plain triples the two adapters stay in step. -/
theorem correspond_of_plain (adapter : CloudTasksTimerAdapter) {calls : List TimerCall}
    (h : ∀ call ∈ calls, PlainTriple call.key) :
    Always (serve adapter) (Correspond adapter) empty calls := by
  refine (always_correspond_iff adapter calls).mpr ?_
  refine along_of_invariant (fun s => ∀ t ∈ s.register.rows, PlainTriple t.key) ?_ ?_
    (by simp [empty, KeyedTable.empty]) h
  · intro s call hs hcall t ht
    rcases mem_register_serve.mp ht with rfl | ⟨ht, -⟩
    · exact hcall
    · exact hs t ht
  · intro s call hs hcall t ht hkey hid
    exact hkey ((hs t ht).eq_of_taskId hcall hid)

end TimerStores
end ReviewConsole

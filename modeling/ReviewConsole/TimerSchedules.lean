import ReviewConsole.CaseTrails
import Mathlib.Data.List.Forall2
import Mathlib.Data.List.Perm.Basic

/-!
# The clocks of a case and their timers

Opening a case schedules the clocks that start in the initial state, a terminal state
cancels every clock, and no other step touches a timer. So the timers of a case are its
running clocks exactly as long as no clock starts later and no terminal state is left, and
a timer fires at the one instant at which its clock is not yet breached.
-/
namespace ReviewConsole
open GuardedRuns KeyedTables

/-- The timer fires when the clock is due. -/
structure Wakes (svc : CaseWorkflowService) (c : Case) (d : WorkflowDefinition) (spec : ClockSpec)
    (t : Timer) : Prop where
  key : t.key = (c.tenant, c.caseId, spec.name)
  due : ∀ asOf, ∃ status, c.clockStatus d asOf svc.holidays spec = .ok status ∧
    status.dueAt = some t.fireAt

/-- The timers are the running clocks: none in a terminal state, else one for each started
clock. -/
def ExactFor (svc : CaseWorkflowService) (c : Case) (d : WorkflowDefinition) (timers : List Timer) :
    Prop :=
  if d.isTerminal c.state then timers = []
  else ∃ ts, List.Forall₂ (Wakes svc c d) (d.clocks.filter (c.started d)) ts ∧ timers.Perm ts

/-- The timers of every stored case are its running clocks. -/
def TimersExact (svc : CaseWorkflowService) (w : World) : Prop :=
  ∀ tenant caseId c d, w.getCase tenant caseId = some c →
    svc.definitions.definition c.caseType = some d → ExactFor svc c d (w.timersOf tenant caseId)

def WorkflowDefinition.openingClocks (d : WorkflowDefinition) : List ClockSpec :=
  d.clocks.filter (fun spec => spec.startState = d.initial)

def OpenArgs.openedAt (a : OpenArgs) (now : DateTime) : DateTime := a.asOf.getD now

/-- An open at the instant gets past the clocks to its record: it has no timers to schedule, or
every clock that starts with the case has a due date. -/
def CaseWorkflowService.Completes (svc : CaseWorkflowService) (d : WorkflowDefinition)
    (openedAt : DateTime) : Prop :=
  svc.timers = true → ∀ spec ∈ d.openingClocks, spec.HasDue openedAt svc.holidays

instance (svc : CaseWorkflowService) (d : WorkflowDefinition) (openedAt : DateTime) :
    Decidable (svc.Completes d openedAt) := by
  unfold CaseWorkflowService.Completes
  infer_instance

/-- The call keeps the timers of its case in step with its clocks. An open starts clocks
with different names and due dates, or, in a workflow that opens in a terminal state, it
schedules none. A move to an open state starts no clock, and leaves a terminal state only
if no clock has started. -/
def TimersFollow (svc : CaseWorkflowService) (w : World) (r : CaseRequest) : Prop :=
  match r.call with
  | .openCase a =>
    match svc.definitions.definition a.caseType with
    | none => True
    | some d =>
      if d.isTerminal d.initial then ∀ spec ∈ d.openingClocks.head?,
        ¬ spec.HasDue (a.openedAt r.readings.now) svc.holidays
      else (d.openingClocks.map ClockSpec.name).Nodup ∧
        ∀ spec ∈ d.openingClocks, spec.HasDue (a.openedAt r.readings.now) svc.holidays
  | .transitionCase a =>
    match w.getCase a.tenant a.caseId with
    | none => True
    | some c =>
      match svc.definitions.definition c.caseType with
      | none => True
      | some d => d.isLegal c.state a.toState = true → d.isTerminal a.toState = false →
          (∀ spec ∈ d.clocks, spec.startState = a.toState → c.started d spec = true) ∧
          (d.isTerminal c.state = true → ∀ spec ∈ d.clocks, c.started d spec = false)
  | _ => True

instance (svc : CaseWorkflowService) (w : World) (r : CaseRequest) :
    Decidable (TimersFollow svc w r) := by
  unfold TimersFollow
  match r.call with
  | .openCase a =>
    dsimp only
    match svc.definitions.definition a.caseType with
    | none => exact instDecidableTrue
    | some d => dsimp only; infer_instance
  | .transitionCase a =>
    dsimp only
    match w.getCase a.tenant a.caseId with
    | none => exact instDecidableTrue
    | some c =>
      dsimp only
      match svc.definitions.definition c.caseType with
      | none => exact instDecidableTrue
      | some d => dsimp only; infer_instance
  | .evaluateCase _ _ | .get _ _ | .listCases _ => exact instDecidableTrue

section
variable {svc : CaseWorkflowService} {c : Case} {d : WorkflowDefinition} {spec : ClockSpec}
variable {t : Timer} {ts timers : List Timer} {specs : List ClockSpec} {asOf : DateTime}

theorem wakes_iff : Wakes svc c d spec t ↔ ∃ anchor due,
    c.firstEntered spec.startState d.initial = some anchor ∧
    spec.dueFrom anchor svc.holidays = .ok due ∧ t = ⟨c.tenant, c.caseId, spec.name, due⟩ := by
  constructor
  · rintro ⟨hkey, hdue⟩
    obtain ⟨status, hstatus, hfire⟩ := hdue c.openedAt
    simp only [Case.clockStatus] at hstatus
    cases hanchor : c.firstEntered spec.startState d.initial with
    | none =>
      rw [hanchor] at hstatus
      cases hstatus
      cases hfire
    | some anchor =>
      rw [hanchor] at hstatus
      cases hfrom : spec.dueFrom anchor svc.holidays with
      | error e =>
        rw [deadlineFor_of_error hfrom] at hstatus
        cases hstatus
      | ok due =>
        rw [deadlineFor_of_due hfrom] at hstatus
        cases hstatus
        refine ⟨anchor, due, rfl, hfrom, ?_⟩
        obtain ⟨tenant, caseId, clock, fireAt⟩ := t
        cases hkey
        cases hfire
        rfl
  · rintro ⟨anchor, due, hanchor, hfrom, rfl⟩
    refine ⟨rfl, fun asOf => ?_⟩
    rw [Case.clockStatus, hanchor, deadlineFor_of_due hfrom]
    exact ⟨_, rfl, rfl⟩

theorem Wakes.started (h : Wakes svc c d spec t) : c.started d spec = true := by
  obtain ⟨anchor, due, hanchor, -⟩ := wakes_iff.mp h
  simp [Case.started, hanchor]

theorem Wakes.hasDue (h : Wakes svc c d spec t) : c.HasDue d svc.holidays spec := by
  obtain ⟨anchor, due, hanchor, hfrom, -⟩ := wakes_iff.mp h
  exact hasDue_iff.mpr ⟨anchor, hanchor, due, hfrom⟩

theorem Wakes.unique {t' : Timer} (h : Wakes svc c d spec t) (h' : Wakes svc c d spec t') :
    t = t' := by
  obtain ⟨anchor, due, hanchor, hfrom, rfl⟩ := wakes_iff.mp h
  obtain ⟨anchor', due', hanchor', hfrom', rfl⟩ := wakes_iff.mp h'
  cases hanchor.symm.trans hanchor'
  cases hfrom.symm.trans hfrom'
  rfl

/-- The loop over the clocks passes by a clock that has not started, schedules a started one
at its due date, and stops at one that has no due date. -/
theorem scheduled_cons (svc : CaseWorkflowService) (c : Case) (d : WorkflowDefinition)
    (asOf : DateTime) (spec : ClockSpec) (specs : List ClockSpec) :
    (c.started d spec = false ∧
      svc.scheduled c d asOf (spec :: specs) = svc.scheduled c d asOf specs) ∨
    (c.started d spec = true ∧ ¬ c.HasDue d svc.holidays spec ∧
      ∃ e, svc.scheduled c d asOf (spec :: specs) = ([], some e)) ∨
    ∃ t, Wakes svc c d spec t ∧ svc.scheduled c d asOf (spec :: specs) =
      (t :: (svc.scheduled c d asOf specs).1, (svc.scheduled c d asOf specs).2) := by
  simp only [CaseWorkflowService.scheduled, Case.started]
  cases hanchor : c.firstEntered spec.startState d.initial with
  | none => exact Or.inl ⟨rfl, rfl⟩
  | some anchor =>
    apply Or.inr
    cases hfrom : spec.dueFrom anchor svc.holidays with
    | error e =>
      refine Or.inl ⟨rfl, ?_, e, by rw [deadlineFor_of_error hfrom]⟩
      intro hdue
      obtain ⟨anchor', hanchor', due, hdue⟩ := hasDue_iff.mp hdue
      cases hanchor.symm.trans hanchor'
      cases hfrom.symm.trans hdue
    | ok due =>
      exact Or.inr ⟨_, wakes_iff.mpr ⟨anchor, due, hanchor, hfrom, rfl⟩, by
        rw [deadlineFor_of_due hfrom]⟩

/-- The loop schedules one timer for each started clock, or meets a started clock without a
due date. -/
theorem scheduled_cases (svc : CaseWorkflowService) (c : Case) (d : WorkflowDefinition)
    (asOf : DateTime) (specs : List ClockSpec) :
    (∃ ts, svc.scheduled c d asOf specs = (ts, none) ∧
      List.Forall₂ (Wakes svc c d) (specs.filter (c.started d)) ts) ∨
    ∃ spec ∈ specs, c.started d spec = true ∧ ¬ c.HasDue d svc.holidays spec := by
  induction specs with
  | nil => exact Or.inl ⟨[], rfl, .nil⟩
  | cons spec specs ih =>
    rcases scheduled_cons svc c d asOf spec specs with ⟨hstarted, hloop⟩ | ⟨hstarted, hdue, -⟩ |
      ⟨t, ht, hloop⟩
    · rw [hloop, List.filter_cons_of_neg (by simp [hstarted])]
      rcases ih with hall | ⟨spec', hspec', hbad⟩
      · exact Or.inl hall
      · exact Or.inr ⟨spec', List.mem_cons_of_mem _ hspec', hbad⟩
    · exact Or.inr ⟨spec, List.mem_cons_self, hstarted, hdue⟩
    · rw [hloop, List.filter_cons_of_pos ht.started]
      rcases ih with ⟨ts, hts, hall⟩ | ⟨spec', hspec', hbad⟩
      · exact Or.inl ⟨t :: ts, by rw [hts], .cons ht hall⟩
      · exact Or.inr ⟨spec', List.mem_cons_of_mem _ hspec', hbad⟩

/-- The loop runs through when every started clock has a due date. -/
theorem scheduled_returns_iff (svc : CaseWorkflowService) (c : Case) (d : WorkflowDefinition)
    (asOf : DateTime) (specs : List ClockSpec) : (svc.scheduled c d asOf specs).2 = none ↔
    ∀ spec ∈ specs.filter (c.started d), c.HasDue d svc.holidays spec := by
  induction specs with
  | nil => exact iff_of_true rfl (fun spec hspec => by cases hspec)
  | cons spec specs ih =>
    rcases scheduled_cons svc c d asOf spec specs with ⟨hstarted, hloop⟩ |
      ⟨hstarted, hdue, e, hloop⟩ | ⟨t, ht, hloop⟩
    · rw [hloop, List.filter_cons_of_neg (by simp [hstarted])]
      exact ih
    · rw [hloop, List.filter_cons_of_pos hstarted, List.forall_mem_cons]
      exact iff_of_false (by simp) (fun h => hdue h.1)
    · rw [hloop, List.filter_cons_of_pos ht.started, List.forall_mem_cons]
      exact ih.trans (iff_and_self.mpr (fun _ => ht.hasDue))

theorem scheduled_key (ht : t ∈ (svc.scheduled c d asOf specs).1) :
    t.tenant = c.tenant ∧ t.caseId = c.caseId := by
  induction specs with
  | nil => cases ht
  | cons spec specs ih =>
    rcases scheduled_cons svc c d asOf spec specs with ⟨-, hloop⟩ | ⟨-, -, e, hloop⟩ |
      ⟨t', ht', hloop⟩
    · exact ih (hloop ▸ ht)
    · rw [hloop] at ht
      cases ht
    · rw [hloop] at ht
      rcases List.mem_cons.mp ht with rfl | ht
      · obtain ⟨anchor, due, -, -, rfl⟩ := wakes_iff.mp ht'
        exact ⟨rfl, rfl⟩
      · exact ih ht

theorem scheduled_eq_nil_iff (svc : CaseWorkflowService) (c : Case) (d : WorkflowDefinition)
    (asOf : DateTime) (specs : List ClockSpec) : (svc.scheduled c d asOf specs).1 = [] ↔
    ∀ spec ∈ (specs.filter (c.started d)).head?, ¬ c.HasDue d svc.holidays spec := by
  induction specs with
  | nil => simp [CaseWorkflowService.scheduled]
  | cons spec specs ih =>
    rcases scheduled_cons svc c d asOf spec specs with ⟨hstarted, hloop⟩ |
      ⟨hstarted, hdue, e, hloop⟩ | ⟨t, ht, hloop⟩
    · rw [hloop, List.filter_cons_of_neg (by simp [hstarted]), ih]
    · rw [hloop, List.filter_cons_of_pos hstarted]
      simp [hdue]
    · rw [hloop, List.filter_cons_of_pos ht.started]
      simp [ht.hasDue]

theorem wakes_unique {ts' : List Timer} (h : List.Forall₂ (Wakes svc c d) specs ts)
    (h' : List.Forall₂ (Wakes svc c d) specs ts') : ts = ts' :=
  List.right_unique_forall₂' (fun _ _ _ hone hother => hone.unique hother) h h'

theorem wakes_hasDue (h : List.Forall₂ (Wakes svc c d) specs ts) :
    ∀ spec ∈ specs, c.HasDue d svc.holidays spec := by
  induction h with
  | nil => simp
  | cons hone hrest ih => exact List.forall_mem_cons.mpr ⟨hone.hasDue, ih⟩

theorem wakes_keys (h : List.Forall₂ (Wakes svc c d) specs ts) :
    ts.map Timer.key = specs.map (fun spec => (c.tenant, c.caseId, spec.name)) := by
  induction h with
  | nil => rfl
  | cons hone hrest ih => rw [List.map_cons, List.map_cons, hone.key, ih]

theorem wakes_keys_nodup (h : List.Forall₂ (Wakes svc c d) specs ts) :
    (ts.map Timer.key).Nodup ↔ (specs.map ClockSpec.name).Nodup := by
  have hmap : ts.map Timer.key =
      (specs.map ClockSpec.name).map (fun name => (c.tenant, c.caseId, name)) := by
    rw [wakes_keys h, List.map_map]
    rfl
  rw [hmap, List.nodup_map_iff]
  intro name name' he
  exact (Prod.mk.inj (Prod.mk.inj he).2).2

theorem openingClocks_eq (a : OpenArgs) (d : WorkflowDefinition) (now : DateTime) :
    d.clocks.filter ((CaseWorkflowService.opened a d now).started d) = d.openingClocks := by
  apply List.filter_congr
  intro spec _
  by_cases h : spec.startState = d.initial <;>
    simp [Case.started, Case.firstEntered, CaseWorkflowService.opened, newCase, h]

/-- The clocks that start with the case start when it is opened. -/
theorem hasDue_opened {a : OpenArgs} {now : DateTime} (hspec : spec ∈ d.openingClocks) :
    (CaseWorkflowService.opened a d now).HasDue d svc.holidays spec ↔
      spec.HasDue (a.openedAt now) svc.holidays := by
  have hstart : spec.startState = d.initial := of_decide_eq_true (List.mem_filter.mp hspec).2
  rw [hasDue_iff, Case.firstEntered, if_pos hstart]
  simp only [Option.some.injEq, exists_eq_left']
  rfl

theorem scheduled_opened_eq_nil_iff (svc : CaseWorkflowService) (a : OpenArgs)
    (d : WorkflowDefinition) (now asOf : DateTime) :
    (svc.scheduled (CaseWorkflowService.opened a d now) d asOf d.clocks).1 = [] ↔
      ∀ spec ∈ d.openingClocks.head?, ¬ spec.HasDue (a.openedAt now) svc.holidays := by
  rw [scheduled_eq_nil_iff, openingClocks_eq]
  exact forall₂_congr (fun _ hspec => (hasDue_opened (List.mem_of_mem_head? hspec)).not)

theorem completes_iff (svc : CaseWorkflowService) (d : WorkflowDefinition) (a : OpenArgs)
    (now asOf : DateTime) : svc.Completes d (a.openedAt now) ↔ (svc.timers = true →
      (svc.scheduled (CaseWorkflowService.opened a d now) d asOf d.clocks).2 = none) := by
  rw [scheduled_returns_iff, openingClocks_eq]
  exact imp_congr_right (fun _ => forall₂_congr (fun _ hspec => (hasDue_opened hspec).symm))

/-- What an open schedules is right exactly when its clocks have different names and due
dates, or when it opens a terminal state and schedules nothing. -/
theorem exactFor_opened {a : OpenArgs} {now : DateTime} {e : Option ClockError}
    (hc : c = CaseWorkflowService.opened a d now)
    (hscheduled : svc.scheduled c d asOf d.clocks = (ts, e)) :
    ExactFor svc c d (ts.foldl KeyedTable.upsert (.empty : KeyedTable Timer.key)).rows ↔
      if d.isTerminal d.initial then ∀ spec ∈ d.openingClocks.head?,
        ¬ spec.HasDue (a.openedAt now) svc.holidays
      else (d.openingClocks.map ClockSpec.name).Nodup ∧
        ∀ spec ∈ d.openingClocks, spec.HasDue (a.openedAt now) svc.holidays := by
  have hstate : c.state = d.initial := by rw [hc]; rfl
  have hclocks : d.clocks.filter (c.started d) = d.openingClocks := by
    rw [hc, openingClocks_eq]
  have hdue : ∀ spec ∈ d.openingClocks, (c.HasDue d svc.holidays spec ↔
      spec.HasDue (a.openedAt now) svc.holidays) := by
    rw [hc]
    exact fun _ => hasDue_opened
  simp only [ExactFor]
  rw [hstate, hclocks]
  split
  · have hnil := scheduled_opened_eq_nil_iff svc a d now asOf
    rw [← hc, hscheduled] at hnil
    rw [← hnil]
    constructor
    · exact KeyedTable.foldl_upsert_eq_empty
    · rintro rfl
      rfl
  · rcases scheduled_cases svc c d asOf d.clocks with
      ⟨ts', hts', hall⟩ | ⟨spec, hspec, hstarted, hbad⟩
    · cases hscheduled.symm.trans hts'
      rw [hclocks] at hall
      constructor
      · rintro ⟨ts', hall', hperm⟩
        cases wakes_unique hall hall'
        have hnodup := (hperm.map Timer.key).nodup_iff.mp (KeyedTable.unique _)
        exact ⟨(wakes_keys_nodup hall).mp hnodup,
          fun spec hspec => (hdue spec hspec).mp (wakes_hasDue hall spec hspec)⟩
      · rintro ⟨hnodup, -⟩
        have hrows : (ts.foldl KeyedTable.upsert (.empty : KeyedTable Timer.key)).rows = ts :=
          KeyedTable.rows_foldl_upsert ((wakes_keys_nodup hall).mpr hnodup)
        exact ⟨ts, hall, by rw [hrows]⟩
    · have hopening : spec ∈ d.openingClocks := by
        rw [← hclocks]
        exact List.mem_filter.mpr ⟨hspec, hstarted⟩
      constructor
      · rintro ⟨ts', hall', -⟩
        exact absurd (wakes_hasDue hall' spec hopening) hbad
      · rintro ⟨-, hall⟩
        exact absurd ((hdue spec hopening).mpr (hall spec hopening)) hbad

end

section
variable {svc : CaseWorkflowService} {c : Case} {d : WorkflowDefinition} {spec : ClockSpec}
variable {t : Timer} {timers : List Timer} {toState actor reason : String} {asOf : DateTime}

theorem started_moved : (c.moved toState actor reason asOf).started d spec =
    (c.started d spec || decide (spec.startState = toState)) := by
  simp only [Case.started]
  rw [Case.firstEntered_moved]
  cases c.firstEntered spec.startState d.initial with
  | some anchor => rfl
  | none => by_cases h : toState = spec.startState <;> simp [h, Ne.symm]

theorem Wakes.moved (h : Wakes svc c d spec t) :
    Wakes svc (c.moved toState actor reason asOf) d spec t := by
  obtain ⟨anchor, due, hanchor, hfrom, rfl⟩ := wakes_iff.mp h
  refine wakes_iff.mpr ⟨anchor, due, ?_, hfrom, rfl⟩
  rw [Case.firstEntered_moved, hanchor]
  rfl

/-- A move into an open state keeps the timers right exactly when it starts no clock and
revives none. -/
theorem exactFor_moved (h : ExactFor svc c d timers) (hopen : d.isTerminal toState = false) :
    ExactFor svc (c.moved toState actor reason asOf) d timers ↔
      (∀ spec ∈ d.clocks, spec.startState = toState → c.started d spec = true) ∧
      (d.isTerminal c.state = true → ∀ spec ∈ d.clocks, c.started d spec = false) := by
  have hsub : (d.clocks.filter (c.started d)).Sublist
      (d.clocks.filter ((c.moved toState actor reason asOf).started d)) := by
    apply List.monotone_filter_right
    intro spec hspec
    simp [started_moved, hspec]
  have hsame : (∀ spec ∈ d.clocks, spec.startState = toState → c.started d spec = true) →
      d.clocks.filter ((c.moved toState actor reason asOf).started d) =
        d.clocks.filter (c.started d) := by
    intro hno
    apply List.filter_congr
    intro spec hspec
    rw [started_moved]
    by_cases hstart : spec.startState = toState
    · simp [hno spec hspec hstart]
    · simp [hstart]
  simp only [ExactFor] at h ⊢
  rw [Case.moved_state, if_neg (by simp [hopen])]
  cases hterminal : d.isTerminal c.state with
  | true =>
    rw [if_pos hterminal] at h
    subst h
    constructor
    · rintro ⟨ts, hall, hperm⟩
      cases hperm.nil_eq
      have hnone := List.filter_eq_nil_iff.mp (List.forall₂_nil_right_iff.mp hall)
      simp only [started_moved, Bool.or_eq_true, decide_eq_true_eq, not_or,
        Bool.not_eq_true] at hnone
      exact ⟨fun spec hspec hstart => absurd hstart (hnone spec hspec).2,
        fun _ spec hspec => (hnone spec hspec).1⟩
    · rintro ⟨hno, hnone⟩
      have hnil : d.clocks.filter (c.started d) = [] := by
        rw [List.filter_eq_nil_iff]
        intro spec hspec
        simp [hnone rfl spec hspec]
      rw [hsame hno, hnil]
      exact ⟨[], .nil, .refl _⟩
  | false =>
    rw [if_neg (by simp [hterminal])] at h
    obtain ⟨ts, hall, hperm⟩ := h
    constructor
    · rintro ⟨ts', hall', hperm'⟩
      have hlength : (d.clocks.filter (c.started d)).length =
          (d.clocks.filter ((c.moved toState actor reason asOf).started d)).length := by
        rw [hall.length_eq, hall'.length_eq, ← hperm.length_eq, ← hperm'.length_eq]
      have heq := hsub.eq_of_length hlength
      refine ⟨?_, by simp⟩
      intro spec hspec hstart
      have hmem : spec ∈ d.clocks.filter (c.started d) := by
        rw [heq, List.mem_filter]
        exact ⟨hspec, by simp [started_moved, hstart]⟩
      exact (List.mem_filter.mp hmem).2
    · rintro ⟨hno, -⟩
      rw [hsame hno]
      exact ⟨ts, hall.imp (fun _ _ => Wakes.moved), hperm⟩

theorem exactFor_cancelled (h : ExactFor svc c d timers) (hterminal : d.isTerminal toState = true) :
    ExactFor svc (c.moved toState actor reason asOf) d (timers.filter (fun t =>
      t.key ∉ d.clocks.map (fun spec => (c.tenant, c.caseId, spec.name)))) := by
  simp only [ExactFor] at h ⊢
  rw [Case.moved_state, if_pos hterminal, List.filter_eq_nil_iff]
  intro t ht
  cases hstate : d.isTerminal c.state with
  | true =>
    rw [if_pos hstate] at h
    simp [h] at ht
  | false =>
    rw [if_neg (by simp [hstate])] at h
    obtain ⟨ts, hall, hperm⟩ := h
    have hkey : t.key ∈ ts.map Timer.key := List.mem_map_of_mem (hperm.mem_iff.mp ht)
    rw [wakes_keys hall] at hkey
    obtain ⟨spec, hspec, he⟩ := List.mem_map.mp hkey
    simp only [decide_eq_true_eq, not_not]
    exact List.mem_map.mpr ⟨spec, List.mem_of_mem_filter hspec, he⟩

end

namespace World

variable {w w' : World} {tenant caseId tenant' caseId' : String} {ts : List Timer}
variable {ks : List (String × String × String)}

def caseTimers (w : World) (tenant caseId : String) : KeyedTable Timer.key :=
  w.timers.restrict (fun k => k.1 = tenant ∧ k.2.1 = caseId)

theorem caseTimers_eq_empty (h : w.timersOf tenant caseId = []) :
    w.caseTimers tenant caseId = .empty :=
  KeyedTable.ext h

theorem timersOf_of_same (h : w'.timers = w.timers) (tenant caseId : String) :
    w'.timersOf tenant caseId = w.timersOf tenant caseId := by
  rw [timersOf, h, timersOf]

/-- The timers of a case after timers of that case were scheduled. -/
theorem timersOf_of_scheduled (h : w'.timers = ts.foldl KeyedTable.upsert w.timers)
    (hts : ∀ t ∈ ts, t.tenant = tenant ∧ t.caseId = caseId) :
    w'.timersOf tenant caseId = (ts.foldl KeyedTable.upsert (w.caseTimers tenant caseId)).rows := by
  have hall : ∀ t ∈ ts, decide (t.key.1 = tenant ∧ t.key.2.1 = caseId) = true :=
    fun t ht => decide_eq_true (hts t ht)
  change (w'.caseTimers tenant caseId).rows = _
  rw [caseTimers, h, KeyedTable.restrict_foldl_upsert_of_pos hall, caseTimers]

theorem timersOf_of_scheduled_other (h : w'.timers = ts.foldl KeyedTable.upsert w.timers)
    (hts : ∀ t ∈ ts, t.tenant = tenant ∧ t.caseId = caseId)
    (hne : (tenant, caseId) ≠ (tenant', caseId')) :
    w'.timersOf tenant' caseId' = w.timersOf tenant' caseId' := by
  have hnone : ∀ t ∈ ts, decide (t.key.1 = tenant' ∧ t.key.2.1 = caseId') = false := by
    intro t ht
    obtain ⟨rfl, rfl⟩ := hts t ht
    exact decide_eq_false (fun he => hne (Prod.ext he.1 he.2))
  change (w'.caseTimers tenant' caseId').rows = _
  rw [caseTimers, h, KeyedTable.restrict_foldl_upsert_of_neg hnone]
  rfl

theorem timersOf_of_cancelled (h : w'.timers = ks.foldl KeyedTable.erase w.timers)
    (tenant caseId : String) :
    w'.timersOf tenant caseId = (w.timersOf tenant caseId).filter (fun t => t.key ∉ ks) := by
  rw [timersOf, h, KeyedTable.rows_foldl_erase, List.filter_comm, timersOf]
  exact List.filter_congr (fun t _ => decide_eq_decide.mpr Iff.rfl)

end World

/-- What a call does to the cases and the timers, when timers are bound. -/
inductive TimerStep (svc : CaseWorkflowService) (r : CaseRequest) (w w' : World) : Prop
  | quiet (hfollow : TimersFollow svc w r)
      (hopen : ∀ a, r.call = .openCase a → svc.definitions.definition a.caseType = none)
      (hcases : w'.cases = w.cases) (htimers : w'.timers = w.timers)
  | opened (a : OpenArgs) (d : WorkflowDefinition) (c : Case) (ts : List Timer)
      (e : Option ClockError) (hcall : r.call = .openCase a)
      (hdefinition : svc.definitions.definition a.caseType = some d)
      (hcase : c = CaseWorkflowService.opened a d r.readings.now)
      (hscheduled : svc.scheduled c d c.openedAt d.clocks = (ts, e))
      (hcases : w'.cases = w.cases.upsert c)
      (htimers : w'.timers = ts.foldl KeyedTable.upsert w.timers)
  | moved (a : TransitionArgs) (c moved : Case) (d : WorkflowDefinition)
      (hcall : r.call = .transitionCase a) (hold : w.getCase a.tenant a.caseId = some c)
      (hdefinition : svc.definitions.definition c.caseType = some d)
      (hlegal : d.isLegal c.state a.toState = true)
      (hmoved : moved = CaseWorkflowService.advanced c a r.readings.now)
      (hcases : w'.cases = w.cases.upsert moved)
      (htimers : w'.timers = if d.isTerminal a.toState then
        (d.clocks.map (fun spec => (c.tenant, c.caseId, spec.name))).foldl KeyedTable.erase w.timers
        else w.timers)

section
variable {svc : CaseWorkflowService} {r : CaseRequest} {w w' : World}
variable {response : Except ServiceError CaseResponse}

theorem CaseEffect.timer_step (hbound : svc.timers = true) (h : CaseEffect svc r w response w') :
    TimerStep svc r w w' := by
  cases h with
  | untouched hidle hresponse hworld =>
    subst hworld
    have hopen (a : OpenArgs) (hcall : r.call = .openCase a) :
        svc.definitions.definition a.caseType = none := by
      simpa only [Idle, hcall] using hidle
    refine .quiet ?_ hopen rfl rfl
    simp only [TimersFollow]
    cases hcall : r.call with
    | openCase a => simp [hopen a hcall]
    | transitionCase a =>
      simp only [Idle, hcall] at hidle
      cases hget : w'.getCase a.tenant a.caseId with
      | none => simp [hget]
      | some c => simp [hget, hidle c hget]
    | _ => trivial
  | opened a d c timers hcall hdefinition hcase htimers hresponse hworld =>
    rw [if_pos hbound] at htimers
    exact .opened a d c timers none hcall hdefinition hcase htimers (by simp [hworld])
      (by simp [hworld, World.withTimers])
  | openedPartly a d c timers e hcall hdefinition hcase hbound htimers hresponse hworld =>
    exact .opened a d c timers (some e) hcall hdefinition hcase htimers (by simp [hworld])
      (by simp [hworld, World.withTimers])
  | refused a c d hcall hold hdefinition hlegal hresponse hworld =>
    refine .quiet ?_ (by simp [hcall]) (by simp [hworld]) (by simp [hworld])
    simp [TimersFollow, hcall, hold, hdefinition, hlegal]
  | moved a c moved d hcall hold hdefinition hlegal hmoved hresponse hworld =>
    refine .moved a c moved d hcall hold hdefinition hlegal hmoved ?_ ?_
    · rw [hworld, World.audited_cases, World.withEvent_cases]
      split <;> rfl
    · rw [hworld, World.audited_timers, World.withEvent_timers, hbound, List.foldl_map]
      subst hmoved
      cases hterminal : d.isTerminal a.toState with
      | true => rw [if_pos ⟨rfl, hterminal⟩]; rfl
      | false => rw [if_neg (fun h => by simp [CaseWorkflowService.advanced, hterminal] at h)]; rfl
  | evaluated a routing c d assessment reviews submitted hcall hold hdefinition hassess hrouted
      hresponse hworld =>
    refine .quiet ?_ (by simp [hcall]) (by simp [hworld]) (by simp [hworld])
    simp [TimersFollow, hcall]

/-- A stored case runs a known workflow, and only stored cases have timers. -/
structure TimersOwned (svc : CaseWorkflowService) (w : World) : Prop where
  unstored : ∀ tenant caseId, w.getCase tenant caseId = none → w.timersOf tenant caseId = []
  defined : ∀ tenant caseId c, w.getCase tenant caseId = some c →
    ∃ d, svc.definitions.definition c.caseType = some d

theorem definition_opened {a : OpenArgs} {d : WorkflowDefinition} {now : DateTime}
    (h : svc.definitions.definition a.caseType = some d) :
    svc.definitions.definition (CaseWorkflowService.opened a d now).caseType = some d := by
  change svc.definitions.definition d.caseType = some d
  rw [svc.definitions.keyed _ _ h]
  exact h

theorem TimerStep.owned (h : TimerStep svc r w w') (hw : TimersOwned svc w) :
    TimersOwned svc w' := by
  cases h with
  | quiet hfollow hopen hcases htimers =>
    constructor
    · intro tenant caseId hnone
      rw [World.timersOf_of_same htimers]
      exact hw.unstored _ _ ((World.getCase_of_same hcases _ _).symm.trans hnone)
    · intro tenant caseId c hget
      exact hw.defined _ _ c ((World.getCase_of_same hcases _ _).symm.trans hget)
  | opened a d c ts e hcall hdefinition hcase hscheduled hcases htimers =>
    have hts : ∀ t ∈ ts, t.tenant = c.tenant ∧ t.caseId = c.caseId := by
      intro t ht
      exact scheduled_key (by rw [hscheduled]; exact ht)
    constructor
    · intro tenant caseId hnone
      rw [World.getCase_of_upsert hcases] at hnone
      split at hnone
      · cases hnone
      · rename_i hne
        rw [World.timersOf_of_scheduled_other htimers hts (Ne.symm hne)]
        exact hw.unstored _ _ hnone
    · intro tenant caseId c' hget
      rw [World.getCase_of_upsert hcases] at hget
      split at hget
      · cases hget
        rw [hcase]
        exact ⟨d, definition_opened hdefinition⟩
      · exact hw.defined _ _ c' hget
  | moved a c moved d hcall hold hdefinition hlegal hmoved hcases htimers =>
    constructor
    · intro tenant caseId hnone
      rw [World.getCase_of_upsert hcases] at hnone
      split at hnone
      · cases hnone
      · have hold := hw.unstored _ _ hnone
        split at htimers
        · rw [World.timersOf_of_cancelled htimers, hold]
          rfl
        · rw [World.timersOf_of_same htimers, hold]
    · intro tenant caseId c' hget
      rw [World.getCase_of_upsert hcases] at hget
      split at hget
      · cases hget
        rw [hmoved]
        exact ⟨d, hdefinition⟩
      · exact hw.defined _ _ c' hget

theorem timersExact_iff_of_one {tenant caseId : String} {c : Case} {d : WorkflowDefinition}
    (hexact : TimersExact svc w) (hget : w'.getCase tenant caseId = some c)
    (hdefinition : svc.definitions.definition c.caseType = some d)
    (hothers : ∀ tenant' caseId', (tenant', caseId') ≠ (tenant, caseId) →
      w'.getCase tenant' caseId' = w.getCase tenant' caseId' ∧
      w'.timersOf tenant' caseId' = w.timersOf tenant' caseId') :
    TimersExact svc w' ↔ ExactFor svc c d (w'.timersOf tenant caseId) := by
  constructor
  · intro h
    exact h tenant caseId c d hget hdefinition
  · intro hone tenant' caseId' c' d' hget' hdefinition'
    by_cases hthis : (tenant', caseId') = (tenant, caseId)
    · cases hthis
      cases hget.symm.trans hget'
      cases hdefinition.symm.trans hdefinition'
      exact hone
    · obtain ⟨hsame, htimers⟩ := hothers tenant' caseId' hthis
      rw [htimers]
      exact hexact tenant' caseId' c' d' (hsame.symm.trans hget') hdefinition'

/-- A call keeps the timers exact exactly when they follow its clocks. -/
theorem TimerStep.exact_iff (h : TimerStep svc r w w') (hw : TimersOwned svc w)
    (hfresh : FreshCase w r) (hexact : TimersExact svc w) :
    TimersExact svc w' ↔ TimersFollow svc w r := by
  cases h with
  | quiet hfollow hopen hcases htimers =>
    refine ⟨fun _ => hfollow, ?_⟩
    intro _ tenant caseId c d hget hdefinition
    rw [World.timersOf_of_same htimers]
    exact hexact _ _ c d ((World.getCase_of_same hcases _ _).symm.trans hget) hdefinition
  | opened a d c ts e hcall hdefinition hcase hscheduled hcases htimers =>
    have hts : ∀ t ∈ ts, t.tenant = c.tenant ∧ t.caseId = c.caseId := by
      intro t ht
      exact scheduled_key (by rw [hscheduled]; exact ht)
    have hnone : w.getCase a.tenant a.caseId = none := by simpa only [FreshCase, hcall] using hfresh
    have htimersOf : w'.timersOf c.tenant c.caseId =
        (ts.foldl KeyedTable.upsert (.empty : KeyedTable Timer.key)).rows := by
      have hempty : w.timersOf c.tenant c.caseId = [] := by
        rw [hcase]
        exact hw.unstored _ _ hnone
      rw [World.timersOf_of_scheduled htimers hts, World.caseTimers_eq_empty hempty]
    have hget : w'.getCase c.tenant c.caseId = some c := by
      rw [World.getCase_of_upsert hcases]
      exact if_pos rfl
    have hfollow : TimersFollow svc w r ↔ ExactFor svc c d (w'.timersOf c.tenant c.caseId) := by
      rw [htimersOf, exactFor_opened hcase hscheduled]
      simp only [TimersFollow, hcall, hdefinition]
    rw [hfollow]
    apply timersExact_iff_of_one hexact hget (by rw [hcase]; exact definition_opened hdefinition)
    intro tenant caseId hne
    refine ⟨?_, World.timersOf_of_scheduled_other htimers hts (Ne.symm hne)⟩
    rw [World.getCase_of_upsert hcases]
    exact if_neg hne
  | moved a c moved d hcall hold hdefinition hlegal hmoved hcases htimers =>
    obtain ⟨htenant, hid⟩ := Prod.mk.inj (World.key_of_getCase hold)
    have hkey : moved.key = (a.tenant, a.caseId) := by
      rw [hmoved, ← World.key_of_getCase hold]
      rfl
    have hbefore := hexact _ _ c d hold hdefinition
    have hget : w'.getCase a.tenant a.caseId = some moved := by
      rw [World.getCase_of_upsert hcases, hkey]
      exact if_pos rfl
    have hothers (tenant caseId : String) (hne : (tenant, caseId) ≠ (a.tenant, a.caseId)) :
        w'.getCase tenant caseId = w.getCase tenant caseId ∧
        w'.timersOf tenant caseId = w.timersOf tenant caseId := by
      refine ⟨by rw [World.getCase_of_upsert hcases, hkey, if_neg hne], ?_⟩
      split at htimers
      · rw [World.timersOf_of_cancelled htimers, List.filter_eq_self]
        intro t ht
        obtain ⟨ht1, ht2⟩ := of_decide_eq_true (List.mem_filter.mp ht).2
        rw [decide_eq_true_eq, List.mem_map]
        rintro ⟨spec, -, he⟩
        obtain ⟨he1, he2⟩ := Prod.mk.inj he
        exact hne (Prod.ext (ht1.symm.trans (he1.symm.trans htenant))
          (ht2.symm.trans ((Prod.mk.inj he2).1.symm.trans hid)))
      · exact World.timersOf_of_same htimers _ _
    have hfollow : TimersFollow svc w r ↔ ExactFor svc moved d (w'.timersOf a.tenant a.caseId) := by
      simp only [TimersFollow, hcall, hold, hdefinition, hlegal, true_implies]
      rw [hmoved]
      cases hterminal : d.isTerminal a.toState with
      | true =>
        rw [if_pos hterminal] at htimers
        rw [World.timersOf_of_cancelled htimers]
        exact ⟨fun _ => exactFor_cancelled hbefore hterminal, fun _ h => by cases h⟩
      | false =>
        rw [if_neg (by simp [hterminal])] at htimers
        rw [World.timersOf_of_same htimers]
        exact ⟨fun h => (exactFor_moved hbefore hterminal).mpr (h rfl),
          fun h _ => (exactFor_moved hbefore hterminal).mp h⟩
    rw [hfollow]
    exact timersExact_iff_of_one hexact hget (by rw [hmoved]; exact hdefinition) hothers

end

private theorem forall₂_mem_left {α β : Type} {R : α → β → Prop} {as : List α} {bs : List β} {a : α}
    (h : List.Forall₂ R as bs) (ha : a ∈ as) : ∃ b ∈ bs, R a b := by
  induction h with
  | nil => cases ha
  | cons hone hrest ih =>
    rcases List.mem_cons.mp ha with rfl | ha
    · exact ⟨_, List.mem_cons_self, hone⟩
    · obtain ⟨b, hb, hR⟩ := ih ha
      exact ⟨b, List.mem_cons_of_mem _ hb, hR⟩

/-- While a case is open, its assessment reports the clock of a timer breached exactly after
the timer has fired. -/
theorem reports_iff {svc : CaseWorkflowService} {c : Case} {d : WorkflowDefinition}
    {timers : List Timer} {t : Timer} (hopen : d.isTerminal c.state = false)
    (hexact : ExactFor svc c d timers) (hunique : (timers.map Timer.key).Nodup) (ht : t ∈ timers)
    (asOf : DateTime) :
    ReportsBreached (assess c d asOf svc.holidays) t.clock ↔ t.fireAt < asOf := by
  simp only [ExactFor] at hexact
  rw [if_neg (by simp [hopen])] at hexact
  obtain ⟨ts, hall, hperm⟩ := hexact
  have hwakes (spec : ClockSpec) (hspec : spec ∈ d.clocks) (hstarted : c.started d spec = true) :
      ∃ t ∈ ts, Wakes svc c d spec t :=
    forall₂_mem_left hall (List.mem_filter.mpr ⟨hspec, hstarted⟩)
  have hreturns : c.Assessable d svc.holidays := by
    intro spec hspec hstarted
    obtain ⟨t', -, ht'⟩ := hwakes spec hspec hstarted
    exact ht'.hasDue
  have hmem : t ∈ ts := hperm.mem_iff.mp ht
  have hnodup : (ts.map Timer.key).Nodup := (hperm.map Timer.key).nodup_iff.mp hunique
  rw [reportsBreached_iff]
  constructor
  · rintro ⟨-, spec, hspec, hname, hoverdue⟩
    obtain ⟨anchor, due, hanchor, hfrom, hlt⟩ := overdue_iff.mp hoverdue
    obtain ⟨t', ht', hwake⟩ := hwakes spec hspec (by simp [Case.started, hanchor])
    obtain ⟨spec', -, hwake'⟩ := forall₂_mem_left hall.flip hmem
    -- Clocks of one name have one timer, so the two timers are the same.
    have hkey : t'.key = t.key := by
      obtain ⟨_, due', -, -, rfl⟩ := wakes_iff.mp hwake'
      rw [hwake.key, hname]
      rfl
    cases List.inj_on_of_nodup_map hnodup ht' hmem hkey
    obtain ⟨anchor', due', hanchor', hfrom', rfl⟩ := wakes_iff.mp hwake
    cases hanchor.symm.trans hanchor'
    cases hfrom.symm.trans hfrom'
    exact hlt
  · intro hlt
    obtain ⟨spec, hspec, hwake⟩ := forall₂_mem_left hall.flip hmem
    obtain ⟨anchor, due, hanchor, hfrom, rfl⟩ := wakes_iff.mp hwake
    exact ⟨hreturns, spec, List.mem_of_mem_filter hspec, rfl,
      overdue_iff.mpr ⟨anchor, due, hanchor, hfrom, hlt⟩⟩

/-- Delivered at its fire time, every scheduled timer finds its clock reported breached. -/
def WakeUpsTell (svc : CaseWorkflowService) (w : World) : Prop :=
  ∀ t ∈ w.timers.rows, ∀ c d, w.getCase t.tenant t.caseId = some c →
    svc.definitions.definition c.caseType = some d →
    ReportsBreached (assess c d t.fireAt svc.holidays) t.clock

/-- An opened case has no clock to schedule. -/
def SchedulesNothing (svc : CaseWorkflowService) (r : CaseRequest) : Prop :=
  match r.call with
  | .openCase a =>
    match svc.definitions.definition a.caseType with
    | none => True
    | some d => ∀ spec ∈ d.openingClocks.head?,
      ¬ spec.HasDue (a.openedAt r.readings.now) svc.holidays
  | _ => True

instance (svc : CaseWorkflowService) (r : CaseRequest) : Decidable (SchedulesNothing svc r) := by
  unfold SchedulesNothing
  match r.call with
  | .openCase a =>
    dsimp only
    match svc.definitions.definition a.caseType with
    | none => exact instDecidableTrue
    | some d => dsimp only; infer_instance
  | .transitionCase _ | .evaluateCase _ _ | .get _ _ | .listCases _ => exact instDecidableTrue

section
variable {svc : CaseWorkflowService} {r : CaseRequest} {w w' : World}

/-- A timer's case is stored and open. -/
theorem timer_case {t : Timer} (hw : TimersOwned svc w) (hexact : TimersExact svc w)
    (ht : t ∈ w.timers.rows) : ∃ c d, w.getCase t.tenant t.caseId = some c ∧
      svc.definitions.definition c.caseType = some d ∧ d.isTerminal c.state = false := by
  have hmem : t ∈ w.timersOf t.tenant t.caseId := List.mem_filter.mpr ⟨ht, by simp⟩
  cases hget : w.getCase t.tenant t.caseId with
  | none =>
    rw [hw.unstored _ _ hget] at hmem
    cases hmem
  | some c =>
    obtain ⟨d, hdefinition⟩ := hw.defined _ _ c hget
    refine ⟨c, d, rfl, hdefinition, ?_⟩
    rw [← Bool.not_eq_true]
    intro hterminal
    have hnil := hexact _ _ c d hget hdefinition
    rw [ExactFor, if_pos hterminal] at hnil
    rw [hnil] at hmem
    cases hmem

/-- With exact timers, the clock of a timer is reported breached exactly after the timer's
fire time. -/
theorem timer_reports_iff {t : Timer} {c : Case} {d : WorkflowDefinition} (hw : TimersOwned svc w)
    (hexact : TimersExact svc w) (ht : t ∈ w.timers.rows)
    (hget : w.getCase t.tenant t.caseId = some c)
    (hdefinition : svc.definitions.definition c.caseType = some d) (asOf : DateTime) :
    ReportsBreached (assess c d asOf svc.holidays) t.clock ↔ t.fireAt < asOf := by
  obtain ⟨c', d', hget', hdefinition', hopen⟩ := timer_case hw hexact ht
  cases hget.symm.trans hget'
  cases hdefinition.symm.trans hdefinition'
  exact reports_iff hopen (hexact _ _ c d hget hdefinition) (w.caseTimers t.tenant t.caseId).unique
    (List.mem_filter.mpr ⟨ht, by simp⟩) asOf

theorem wakeUpsTell_iff (hw : TimersOwned svc w) (hexact : TimersExact svc w) :
    WakeUpsTell svc w ↔ w.timers.rows = [] := by
  constructor
  · intro htell
    rw [List.eq_nil_iff_forall_not_mem]
    intro t ht
    obtain ⟨c, d, hget, hdefinition, -⟩ := timer_case hw hexact ht
    have htells := htell t ht c d hget hdefinition
    exact lt_irrefl _ ((timer_reports_iff hw hexact ht hget hdefinition _).mp htells)
  · intro hnil t ht
    rw [hnil] at ht
    cases ht

theorem TimerStep.nothing_iff (h : TimerStep svc r w w') (hnil : w.timers.rows = []) :
    w'.timers.rows = [] ↔ SchedulesNothing svc r := by
  cases h with
  | quiet hfollow hopen hcases htimers =>
    rw [htimers]
    refine ⟨fun _ => ?_, fun _ => hnil⟩
    simp only [SchedulesNothing]
    cases hcall : r.call with
    | openCase a => simp [hopen a hcall]
    | _ => trivial
  | opened a d c ts e hcall hdefinition hcase hscheduled hcases htimers =>
    have hempty : w.timers = .empty := KeyedTable.ext hnil
    have hloop := scheduled_opened_eq_nil_iff svc a d r.readings.now c.openedAt
    rw [← hcase, hscheduled] at hloop
    simp only [SchedulesNothing, hcall, hdefinition]
    rw [← hloop, htimers, hempty]
    constructor
    · exact KeyedTable.foldl_upsert_eq_empty
    · rintro rfl
      rfl
  | moved a c moved d hcall hold hdefinition hlegal hmoved hcases htimers =>
    refine ⟨fun _ => by simp [SchedulesNothing, hcall], fun _ => ?_⟩
    rw [htimers]
    split
    · rw [KeyedTable.rows_foldl_erase, hnil]
      rfl
    · exact hnil

end

/-- In a run that uses fresh case ids, every state has exact timers that wake their cases in
time exactly when each call lets the timers follow the clocks and no open schedules anything.
The timers alone are exact exactly when each call lets them follow, and then a timer's clock is
reported breached at every instant after its fire time and at no other. -/
theorem timers_exact_iff (svc : CaseWorkflowService) (hbound : svc.timers = true)
    (rs : List CaseRequest) (hfresh : Along (serveCase svc) FreshCase World.empty rs) :
    (Always (serveCase svc) (fun w => TimersExact svc w ∧ WakeUpsTell svc w) World.empty rs ↔
      Along (serveCase svc) (fun w r => TimersFollow svc w r ∧ SchedulesNothing svc r)
        World.empty rs) ∧
    (Always (serveCase svc) (TimersExact svc) World.empty rs ↔
      Along (serveCase svc) (TimersFollow svc) World.empty rs) ∧
    (Along (serveCase svc) (TimersFollow svc) World.empty rs →
      ∀ t ∈ (engineAfter svc rs).timers.rows, ∀ c d,
        (engineAfter svc rs).getCase t.tenant t.caseId = some c →
        svc.definitions.definition c.caseType = some d → ∀ asOf,
        ReportsBreached (assess c d asOf svc.holidays) t.clock ↔ t.fireAt < asOf) := by
  have hstep (w : World) (r : CaseRequest) : TimerStep svc r w (serveCase svc w r) :=
    (caseEffect svc w r).timer_step hbound
  have howned : TimersOwned svc World.empty :=
    ⟨fun _ _ _ => rfl, fun _ _ _ h => by cases h⟩
  have hexact : TimersExact svc World.empty := fun _ _ _ _ h => by cases h
  have hiff : Always (serveCase svc) (TimersExact svc) World.empty rs ↔
      Along (serveCase svc) (TimersFollow svc) World.empty rs :=
    always_iff_along (TimersOwned svc) FreshCase (fun w r hw _ _ _ => (hstep w r).owned hw)
      (fun w r hw h hr => (hstep w r).exact_iff hw hr h) howned hexact hfresh
  refine ⟨?_, hiff, ?_⟩
  · refine always_iff_along (TimersOwned svc) FreshCase (fun w r hw _ _ _ => (hstep w r).owned hw)
      ?_ howned ⟨hexact, fun t ht => by cases ht⟩ hfresh
    intro w r hw ⟨hexact, htell⟩ hr
    have hnil := (wakeUpsTell_iff hw hexact).mp htell
    rw [← (hstep w r).exact_iff hw hr hexact, ← (hstep w r).nothing_iff hnil]
    exact and_congr_right (fun h => wakeUpsTell_iff ((hstep w r).owned hw) h)
  · intro hfollow t ht c d hget hdefinition asOf
    have howned' : TimersOwned svc (engineAfter svc rs) :=
      run_invariant (fun w r hw _ => (hstep w r).owned hw) howned hfollow
    have hexact' := hiff.mpr hfollow rs (List.prefix_refl _)
    exact timer_reports_iff howned' hexact' ht hget hdefinition asOf

/-- The sample workflow starts every clock when it opens. -/
theorem demo_timers_exact : Always (serveCase Demo.complaints) (TimersExact Demo.complaints)
    World.empty Demo.resolved :=
  (timers_exact_iff Demo.complaints rfl _ (by decide)).2.1.mpr (by decide)

/-- A workflow with a clock that starts with the review. -/
def Demo.reviewed : WorkflowDefinition :=
  { complaint with clocks := [⟨"decision", .business, 5, "under_review", .ok 1⟩] }

/-- The clock that starts with the review has no timer. -/
theorem started_clock_without_timer : ¬ ∀ (svc : CaseWorkflowService), svc.timers = true →
    ∀ rs, Along (serveCase svc) FreshCase World.empty rs →
      Always (serveCase svc) (fun w => TimersExact svc w ∧ WakeUpsTell svc w) World.empty rs := by
  intro h
  have hexact := (h (Demo.engine Demo.reviewed) rfl Demo.underReview (by decide) Demo.underReview
    (List.prefix_refl _)).1 "demo-bank" "case-1" _ Demo.reviewed rfl rfl
  obtain ⟨ts, hall, hperm⟩ := hexact
  cases hperm.nil_eq
  cases List.forall₂_nil_right_iff.mp hall

end ReviewConsole

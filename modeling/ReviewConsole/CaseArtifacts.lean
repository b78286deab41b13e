import ReviewConsole.ReviewArtifacts
import Mathlib.Data.Finset.Insert

/-!
# The case artifacts and the state machine

A consumer supplies a workflow: its states, the legal edges between them, the clocks and
what escalates. A case carries its current state and the history of its transitions; the
state machine appends to that history or refuses the edge.
-/
namespace ReviewConsole

/-- How the duration of a deadline is counted. -/
inductive ClockKind where
  | calendar | business
  deriving DecidableEq, Repr

def ClockKind.value : ClockKind → String
  | .calendar => "calendar" | .business => "business"

inductive CaseFinding where
  | slaBreach | approachingDeadline | stuckInState | illegalTransition
  deriving DecidableEq, Repr

def CaseFinding.value : CaseFinding → String
  | .slaBreach => "sla_breach" | .approachingDeadline => "approaching_deadline"
  | .stuckInState => "stuck_in_state" | .illegalTransition => "illegal_transition"

inductive CaseDecision where
  | allowed | escalated | rejected
  deriving DecidableEq, Repr

/-- The redacted record of one case action. -/
structure CaseAuditEvent where
  action : String
  caseId : String
  tenant : String
  actor : String
  fromState : String
  toState : String
  decision : CaseDecision
  severity : Severity
  redactedSummary : String
  findings : List CaseFinding := []
  citations : List Citation := []
  timestamp : DateTime
  deriving DecidableEq, Repr

/-- What the arithmetic of a clock raises. The text of an `OverflowError` is the interpreter's. -/
inductive ClockError where
  | valueError (message : String)
  | overflowError
  deriving DecidableEq, Repr

/-- A named deadline of `durationDays` from a start state. `warnThreshold` is what
`math.ceil((1.0 - warn_ratio) * duration_days)` comes to in floating point: an integer, or the
error of a ratio that is no finite number. -/
structure ClockSpec where
  name : String
  kind : ClockKind
  durationDays : ℤ
  startState : String
  warnThreshold : Except ClockError ℤ
  deriving DecidableEq, Repr

/-- The consumer's workflow. -/
structure WorkflowDefinition where
  caseType : String
  states : List String
  initial : String
  terminal : Finset String
  transitions : Finset (String × String)
  clocks : List ClockSpec := []
  escalateOn : Finset CaseFinding := ∅
  stuckAfterDays : String → Option ℤ := fun _ => none

namespace WorkflowDefinition

def isLegal (definition : WorkflowDefinition) (fromState toState : String) : Bool :=
  (fromState, toState) ∈ definition.transitions

def isTerminal (definition : WorkflowDefinition) (state : String) : Bool :=
  state ∈ definition.terminal

end WorkflowDefinition

/-- One recorded state change. -/
structure Transition where
  seq : ℕ
  fromState : String
  toState : String
  actor : String
  reason : String
  «at» : DateTime
  deriving DecidableEq, Repr

structure Case where
  caseId : String
  tenant : String
  caseType : String
  state : String
  severity : Severity
  openedAt : DateTime
  history : List Transition := []
  attributes : List (String × String) := []
  citations : List Citation := []
  deriving DecidableEq, Repr

namespace Case

def key (c : Case) : String × String := (c.tenant, c.caseId)

def nextSeq (c : Case) : ℕ := c.history.length + 1

def enteredCurrentAt (c : Case) : DateTime :=
  (c.history.getLast?.map Transition.at).getD c.openedAt

def firstEntered (c : Case) (state initial : String) : Option DateTime :=
  if state = initial then some c.openedAt
  else (c.history.find? (fun t => t.toState = state)).map Transition.at

end Case

def newCase (caseId tenant : String) (definition : WorkflowDefinition) (severity : Severity)
    (openedAt : DateTime) (attributes : List (String × String)) (citations : List Citation) :
    Case where
  caseId := caseId
  tenant := tenant
  caseType := definition.caseType
  state := definition.initial
  severity := severity
  openedAt := openedAt
  attributes := attributes
  citations := citations

/-- The edge is not in the workflow definition. -/
structure IllegalTransition where
  fromState : String
  toState : String
  deriving DecidableEq, Repr

def legalNextStates (c : Case) (definition : WorkflowDefinition) : List String :=
  definition.states.filter (definition.isLegal c.state)

def Case.entry (c : Case) (toState actor reason : String) (asOf : DateTime) : Transition where
  seq := c.nextSeq
  fromState := c.state
  toState := toState
  actor := actor
  reason := reason
  «at» := asOf

def Case.moved (c : Case) (toState actor reason : String) (asOf : DateTime) : Case :=
  { c with state := toState, history := c.history ++ [c.entry toState actor reason asOf] }

/-- Advance the case to `toState` if the edge is legal, appending to its history. -/
def transition (c : Case) (toState actor reason : String) (asOf : DateTime)
    (definition : WorkflowDefinition) : Except IllegalTransition Case :=
  if ¬ definition.isLegal c.state toState then .error ⟨c.state, toState⟩
  else .ok (c.moved toState actor reason asOf)

section
variable (c : Case) (toState actor reason : String) (asOf : DateTime)

@[simp] theorem Case.moved_key : (c.moved toState actor reason asOf).key = c.key := rfl

@[simp] theorem Case.moved_state : (c.moved toState actor reason asOf).state = toState := rfl

@[simp] theorem Case.moved_caseType :
    (c.moved toState actor reason asOf).caseType = c.caseType := rfl

@[simp] theorem Case.moved_openedAt :
    (c.moved toState actor reason asOf).openedAt = c.openedAt := rfl

@[simp] theorem Case.moved_history : (c.moved toState actor reason asOf).history =
    c.history ++ [c.entry toState actor reason asOf] := rfl

theorem transition_cases (definition : WorkflowDefinition) :
    (definition.isLegal c.state toState = false ∧
      transition c toState actor reason asOf definition = .error ⟨c.state, toState⟩) ∨
    (definition.isLegal c.state toState = true ∧
      transition c toState actor reason asOf definition =
        .ok (c.moved toState actor reason asOf)) := by
  cases h : definition.isLegal c.state toState with
  | false => exact Or.inl ⟨rfl, by simp [transition, h]⟩
  | true => exact Or.inr ⟨rfl, by simp [transition, h]⟩

theorem mem_legalNextStates {definition : WorkflowDefinition} :
    toState ∈ legalNextStates c definition ↔
      toState ∈ definition.states ∧ definition.isLegal c.state toState = true := List.mem_filter

theorem Case.firstEntered_moved (state initial : String) :
    (c.moved toState actor reason asOf).firstEntered state initial =
      (c.firstEntered state initial).or (if toState = state then some asOf else none) := by
  simp only [firstEntered]
  split
  · rfl
  · rw [moved_history, List.find?_append]
    cases c.history.find? (fun t => t.toState = state) with
    | some t => rfl
    | none => by_cases h : toState = state <;> simp [entry, h]

end

/-- The states a history passes through are legal moves from `initial`, numbered from 1
without a gap. -/
inductive LegalHistory (definition : WorkflowDefinition) : List Transition → String → Prop
  | opened : LegalHistory definition [] definition.initial
  | moved {history : List Transition} {state : String} (h : LegalHistory definition history state)
      (t : Transition) (hseq : t.seq = history.length + 1) (hfrom : t.fromState = state)
      (hlegal : definition.isLegal state t.toState = true) :
      LegalHistory definition (history ++ [t]) t.toState

theorem LegalHistory.case_moved {definition : WorkflowDefinition} {c : Case}
    (h : LegalHistory definition c.history c.state) {toState : String}
    (hlegal : definition.isLegal c.state toState = true) (actor reason : String) (asOf : DateTime) :
    LegalHistory definition (c.moved toState actor reason asOf).history
      (c.moved toState actor reason asOf).state :=
  h.moved (c.entry toState actor reason asOf) rfl rfl hlegal

section
variable {definition : WorkflowDefinition} {history : List Transition} {state : String}

theorem LegalHistory.seqs (h : LegalHistory definition history state) :
    history.map Transition.seq = List.range' 1 history.length := by
  induction h with
  | opened => rfl
  | @moved history state h t hseq hfrom hlegal ih =>
    rw [List.map_append, ih, List.length_append, List.length_singleton, List.range'_concat]
    simp [hseq, Nat.add_comm]

/-- The first move leaves the initial state, each later one the state the move before it
entered, and the last enters the current state. -/
theorem LegalHistory.linked (h : LegalHistory definition history state) :
    history.map Transition.fromState ++ [state] =
      definition.initial :: history.map Transition.toState := by
  induction h with
  | opened => rfl
  | @moved history state h t hseq hfrom hlegal ih =>
    calc (history ++ [t]).map Transition.fromState ++ [t.toState]
        = (history.map Transition.fromState ++ [state]) ++ [t.toState] := by simp [hfrom]
      _ = definition.initial :: (history ++ [t]).map Transition.toState := by rw [ih]; simp

theorem LegalHistory.edges (h : LegalHistory definition history state) :
    ∀ t ∈ history, (t.fromState, t.toState) ∈ definition.transitions := by
  induction h with
  | opened => simp
  | @moved history state h t hseq hfrom hlegal ih =>
    intro t' ht'
    rw [List.mem_append, List.mem_singleton] at ht'
    rcases ht' with ht' | rfl
    · exact ih t' ht'
    · rw [hfrom]
      simpa [WorkflowDefinition.isLegal] using hlegal

end

end ReviewConsole

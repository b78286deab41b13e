import ReviewConsole.MakerCheckerEngine
import ReviewConsole.KeyedTables

/-!
# The routing policy document

An institution's policy file may name approval floors, the segregation of duties and the
approver entitlement. What the loader makes of the section, and what becomes of a severity
that a section with floors leaves out.
-/
namespace ReviewConsole
open KeyedTables

/-- What loading a policy document can raise. -/
inductive PolicyError where
  | valueError (message : String)
  | typeError (message : String)
  deriving DecidableEq, Repr

/-- A parsed value that is no mapping, by what `int`, `bool` and `str` make of it. -/
structure Scalar where
  int : Except PolicyError ℤ
  bool : Bool
  str : String

/-- A dictionary with string keys, in iteration order. -/
abbrev Mapping (V : Type) := KeyedTable (Prod.fst : String × V → String)

def Mapping.get {V : Type} (m : Mapping V) (key : String) : Option V :=
  (m.find? key).map Prod.snd

/-- A value of the section: `None`, a dictionary together with its `str`, or another value. -/
inductive Value where
  | null
  | mapping (entries : Mapping Scalar) (str : String)
  | scalar (s : Scalar)

namespace Value

def bool : Value → Bool
  | .null => false
  | .mapping entries _ => !entries.rows.isEmpty
  | .scalar s => s.bool

def str : Value → String
  | .null => "None"
  | .mapping _ str => str
  | .scalar s => s.str

end Value

/-- `raw.get(key)`, which does not tell a missing key from `None`. -/
def Mapping.given (raw : Mapping Value) (key : String) : Option Value :=
  match raw.get key with
  | none | some .null => none
  | some v => some v

-- `Severity(text)`: the lenient lookup of the shared kit, or the error it raises.
variable (severityOf : String → Except PolicyError Severity)

/-- The comprehension over the named floors. A later entry overrides an earlier one. -/
def floorsLoop : List (String × Scalar) → (Severity → Option ℤ) →
    Except PolicyError (Severity → Option ℤ)
  | [], floors => .ok floors
  | (key, value) :: entries, floors => do
    let severity ← severityOf key
    let count ← value.int
    floorsLoop entries (fun s => if s = severity then some count else floors s)

/-- The floors of the section, or the reference floors when it has none. -/
def readFloors (raw : Mapping Value) : Except PolicyError (Severity → Option ℤ) :=
  match raw.given "min_approvals_by_severity" with
  | none => .ok defaultRouting.minApprovalsBySeverity
  | some (.mapping entries _) => floorsLoop severityOf entries.rows (fun _ => none)
  | some _ => .error (.valueError "policy.routing.min_approvals_by_severity must be a mapping")

/-- Build a routing policy from the `policy.routing` section. -/
def RoutingPolicy.fromMapping (raw : Mapping Value) : Except PolicyError RoutingPolicy := do
  let floors ← readFloors severityOf raw
  if [Severity.critical, .high, .medium, .low].any (fun s => (floors s).any (· < 1)) then
    .error (.valueError "policy.routing severity floors must be at least 1")
  else pure {
    minApprovalsBySeverity := floors
    enforceSod := match raw.given "enforce_sod" with
      | none => defaultRouting.enforceSod
      | some v => v.bool
    approverGroup := match raw.given "approver_group" with
      | none => defaultRouting.approverGroup
      | some v => if v.bool then v.str else defaultRouting.approverGroup }

/-- The policy a container binds: the reference policy when there is no policy file, else what
the loader makes of the file's section, which is empty when the file has none. -/
def routingPolicy (file : Option (Option (Mapping Value))) : Except PolicyError RoutingPolicy :=
  match file with
  | none => .ok defaultRouting
  | some routing => RoutingPolicy.fromMapping severityOf (routing.getD .empty)

/-- The floor that the last of the entries naming a severity gives it. -/
def floorIn (severity : Severity) : List (String × Scalar) → Option ℤ
  | [] => none
  | (key, value) :: entries => (floorIn severity entries).or
      (if severityOf key = .ok severity then value.int.toOption else none)

/-- The floor the section names for a severity. -/
def Mapping.namedFloor (raw : Mapping Value) (severity : Severity) : Option ℤ :=
  match raw.given "min_approvals_by_severity" with
  | some (.mapping entries _) => floorIn severityOf severity entries.rows
  | _ => none

/-- The policy differs from the reference policy only in what the section names, as far as one
severity and requested count can tell. -/
structure ChangesOnlyNamed (raw : Mapping Value) (policy : RoutingPolicy) (severity : Severity)
    (requested : ℤ) : Prop where
  named : ∀ floor, raw.namedFloor severityOf severity = some floor →
    policy.requiredApprovals severity requested = max (max 1 requested) floor
  unnamed : raw.namedFloor severityOf severity = none →
    policy.requiredApprovals severity requested =
      defaultRouting.requiredApprovals severity requested
  sodNamed : ∀ v, raw.given "enforce_sod" = some v → policy.enforceSod = v.bool
  sodUnnamed : raw.given "enforce_sod" = none → policy.enforceSod = defaultRouting.enforceSod
  groupNamed : ∀ v, raw.given "approver_group" = some v → v.bool = true →
    policy.approverGroup = v.str
  groupUnnamed : (∀ v, raw.given "approver_group" = some v → v.bool = false) →
    policy.approverGroup = defaultRouting.approverGroup

section
variable {severityOf} {raw : Mapping Value} {policy : RoutingPolicy} {severity : Severity}
variable {entries : List (String × Scalar)} {floors floors' : Severity → Option ℤ}

/-- The floors read are the named ones, over what was there before. -/
theorem floorsLoop_ok (h : floorsLoop severityOf entries floors = .ok floors')
    (severity : Severity) : floors' severity = (floorIn severityOf severity entries).or
      (floors severity) := by
  induction entries generalizing floors with
  | nil =>
    cases h
    rfl
  | cons entry entries ih =>
    obtain ⟨key, value⟩ := entry
    simp only [floorsLoop] at h
    cases hkey : severityOf key with
    | error e =>
      rw [hkey] at h
      cases h
    | ok named =>
      cases hcount : value.int with
      | error e =>
        rw [hkey, hcount] at h
        cases h
      | ok count =>
        rw [hkey, hcount] at h
        rw [ih h, floorIn, hkey, hcount, Option.or_assoc]
        by_cases hs : severity = named
        · simp [hs, Except.toOption]
        · simp [hs, Ne.symm hs]

theorem fromMapping_ok (h : RoutingPolicy.fromMapping severityOf raw = .ok policy) :
    readFloors severityOf raw = .ok policy.minApprovalsBySeverity ∧
      policy.enforceSod = (match raw.given "enforce_sod" with
        | none => defaultRouting.enforceSod
        | some v => v.bool) ∧
      policy.approverGroup = (match raw.given "approver_group" with
        | none => defaultRouting.approverGroup
        | some v => if v.bool then v.str else defaultRouting.approverGroup) := by
  simp only [RoutingPolicy.fromMapping] at h
  cases hfloors : readFloors severityOf raw with
  | error e =>
    rw [hfloors] at h
    cases h
  | ok floors =>
    rw [hfloors] at h
    simp only [bind, Except.bind] at h
    split at h
    · cases h
    · cases h
      exact ⟨rfl, rfl, rfl⟩

theorem readFloors_of_absent (h : raw.given "min_approvals_by_severity" = none) :
    readFloors severityOf raw = .ok defaultRouting.minApprovalsBySeverity ∧
      raw.namedFloor severityOf severity = none := by
  simp only [readFloors, Mapping.namedFloor, h, and_self]

/-- The section names floors: the policy has those and no others. -/
theorem readFloors_of_given {v : Value} (hgiven : raw.given "min_approvals_by_severity" = some v)
    (h : readFloors severityOf raw = .ok floors) :
    floors severity = raw.namedFloor severityOf severity := by
  simp only [readFloors, hgiven] at h
  simp only [Mapping.namedFloor, hgiven]
  split at h
  · contradiction
  · rename_i entries str hv
    cases hv
    rw [floorsLoop_ok h severity, Option.or_none]
  · cases h

end

/-- The segregation of duties and the entitlement always follow the section, so only the
thresholds are left to look at. -/
theorem changesOnlyNamed_of_required {severityOf : String → Except PolicyError Severity}
    {raw : Mapping Value} {policy : RoutingPolicy} {severity : Severity} {requested : ℤ}
    (h : RoutingPolicy.fromMapping severityOf raw = .ok policy)
    (hnamed : ∀ floor, raw.namedFloor severityOf severity = some floor →
      policy.requiredApprovals severity requested = max (max 1 requested) floor)
    (hunnamed : raw.namedFloor severityOf severity = none →
      policy.requiredApprovals severity requested =
        defaultRouting.requiredApprovals severity requested) :
    ChangesOnlyNamed severityOf raw policy severity requested := by
  obtain ⟨-, hsod, hgroup⟩ := fromMapping_ok h
  refine ⟨hnamed, hunnamed, ?_, ?_, ?_, ?_⟩
  · intro v hv
    rw [hsod, hv]
  · intro hnone
    rw [hsod, hnone]
  · intro v hv hbool
    rw [hgroup, hv]
    exact if_pos hbool
  · intro hfalse
    rw [hgroup]
    cases hv : raw.given "approver_group" with
    | none => rfl
    | some v => exact if_neg (by simp [hfalse v hv])

/-- An accepted section changes only what it names, for a severity and a requested count, exactly
when it names that severity, or names no floors, or the reference floor asks for no more than the
request does. -/
theorem partial_policy_iff (severityOf : String → Except PolicyError Severity)
    (raw : Mapping Value) (policy : RoutingPolicy)
    (h : RoutingPolicy.fromMapping severityOf raw = .ok policy) (severity : Severity)
    (requested : ℤ) :
    ChangesOnlyNamed severityOf raw policy severity requested ↔
      (raw.namedFloor severityOf severity).isSome ∨
      raw.given "min_approvals_by_severity" = none ∨
      defaultRouting.floor severity ≤ max 1 requested := by
  obtain ⟨hfloors, -, -⟩ := fromMapping_ok h
  cases hgiven : raw.given "min_approvals_by_severity" with
  | none =>
    obtain ⟨hdefault, hnone⟩ :
        readFloors severityOf raw = .ok defaultRouting.minApprovalsBySeverity ∧
        raw.namedFloor severityOf severity = none := readFloors_of_absent hgiven
    refine iff_of_true (changesOnlyNamed_of_required h ?_ ?_) (Or.inr (Or.inl rfl))
    · intro floor hfloor
      cases hnone.symm.trans hfloor
    · intro _
      have hsame : policy.minApprovalsBySeverity = defaultRouting.minApprovalsBySeverity :=
        Except.ok.inj (hfloors.symm.trans hdefault)
      simp only [RoutingPolicy.requiredApprovals, RoutingPolicy.floor, hsame]
  | some v =>
    have hsame : policy.minApprovalsBySeverity severity = raw.namedFloor severityOf severity :=
      readFloors_of_given hgiven hfloors
    cases hnamed : raw.namedFloor severityOf severity with
    | some floor =>
      refine iff_of_true (changesOnlyNamed_of_required h ?_ ?_) (Or.inl rfl)
      · intro floor' hfloor'
        cases hnamed.symm.trans hfloor'
        simp only [RoutingPolicy.requiredApprovals, RoutingPolicy.floor, hsame, hnamed,
          Option.getD_some]
      · intro hnone
        cases hnamed.symm.trans hnone
    | none =>
      -- The severity falls back to the lookup's own default of 1.
      have hone : policy.requiredApprovals severity requested = max 1 requested := by
        simp only [RoutingPolicy.requiredApprovals, RoutingPolicy.floor, hsame, hnamed,
          Option.getD_none]
        omega
      have hdefault : defaultRouting.requiredApprovals severity requested =
          max (max 1 requested) (defaultRouting.floor severity) := rfl
      constructor
      · intro hchanges
        have heq := hchanges.unnamed hnamed
        exact Or.inr (Or.inr (by omega))
      · rintro (hsome | habsent | hle)
        · cases hsome
        · cases habsent
        · refine changesOnlyNamed_of_required h ?_ ?_
          · intro floor hfloor
            cases hnamed.symm.trans hfloor
          · intro _
            omega

namespace Demo

def severityNamed : String → Except PolicyError Severity
  | "low" => .ok .low
  | "medium" => .ok .medium
  | "high" => .ok .high
  | "critical" => .ok .critical
  | text => .error (.valueError (text ++ " is not a valid Severity"))

/-- A section that retunes one severity. -/
def retuned (severity : String) (floor : ℤ) : Mapping Value :=
  ⟨[("min_approvals_by_severity", .mapping ⟨[(severity, ⟨.ok floor, true, ""⟩)], by simp⟩ "")],
    by simp⟩

/-- The policy that comes of retuning `low` or `medium`. -/
def retunedPolicy (severity : Severity) (floor : ℤ) : RoutingPolicy where
  minApprovalsBySeverity s := if s = severity then some floor else none

end Demo

/-- Dual control for `medium` leaves a `low` request as it was. -/
theorem demo_partial_policy :
    ChangesOnlyNamed Demo.severityNamed (Demo.retuned "medium" 2)
      (Demo.retunedPolicy .medium 2) .low 1 :=
  (partial_policy_iff Demo.severityNamed (Demo.retuned "medium" 2)
    (Demo.retunedPolicy .medium 2) rfl .low 1).mpr (Or.inr (Or.inr (by decide)))

/-- Dual control for `medium` takes it away from `critical`. -/
theorem unnamed_floor_lowered : ¬ ∀ (severityOf : String → Except PolicyError Severity)
    (raw : Mapping Value) (policy : RoutingPolicy),
    RoutingPolicy.fromMapping severityOf raw = .ok policy →
    ∀ severity requested, ChangesOnlyNamed severityOf raw policy severity requested := by
  intro h
  have hchanges := h Demo.severityNamed (Demo.retuned "medium" 2) (Demo.retunedPolicy .medium 2) rfl
    .critical 1
  have hlowered := hchanges.unnamed rfl
  revert hlowered
  decide

end ReviewConsole

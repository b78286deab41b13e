import ReviewConsole.CaseArtifacts
import Mathlib.Data.Finset.Card

/-!
# The deadline clocks

Business-day and calendar deadlines as pure functions of an anchor, an instant and a
holiday set. The business-day loop runs past weekends and holidays; it always ends,
because every day it passes is a business day, uses up a holiday, or belongs to a weekend.
-/
namespace ReviewConsole

/-- The `OverflowError` of a sum whose date the calendar does not have. -/
def Calendar.check (cal : Calendar) (d : DateTime) : Except ClockError DateTime :=
  if cal.has d.date then .ok d else .error .overflowError

/-- A weekday that is not a configured holiday. -/
def isBusinessDay (day : Date) (holidays : Finset Date) : Bool :=
  weekday day < 5 ∧ day ∉ holidays

/-- The loop of `add_business_days`: step a day at a time until `n` business days have been
counted. `none` means that the fuel ran out first. -/
def businessDayLoop (holidays : Finset Date) (n : ℤ) : ℕ → Date → ℤ → Option Date
  | fuel, day, counted =>
    if counted < n then
      match fuel with
      | 0 => none
      | fuel + 1 =>
        let day := day + 1
        if isBusinessDay day holidays then businessDayLoop holidays n fuel day (counted + 1)
        else businessDayLoop holidays n fuel day counted
    else some day

theorem businessDayLoop_next {holidays : Finset Date} {n counted : ℤ} {day : Date}
    (h : counted < n) (fuel : ℕ) : businessDayLoop holidays n (fuel + 1) day counted =
      businessDayLoop holidays n fuel (day + 1)
        (if isBusinessDay (day + 1) holidays then counted + 1 else counted) := by
  simp only [businessDayLoop, if_pos h]
  split <;> rfl

/-- How many holidays lie after `day`. -/
def holidaysAfter (holidays : Finset ℤ) (day : ℤ) : ℕ := (holidays.filter (day < ·)).card

/-- How many days of the weekend come before the next weekday. -/
def weekendAhead (day : Date) : ℕ :=
  if weekday day = 4 then 2 else if weekday day = 5 then 1 else 0

/-- How many days the loop can still take. -/
def businessDayFuel (holidays : Finset Date) (n : ℤ) (day : Date) (counted : ℤ) : ℕ :=
  3 * ((n - counted).toNat + holidaysAfter holidays day) + weekendAhead day

private theorem holidaysAfter_of_mem {holidays : Finset ℤ} {day : ℤ} (h : day + 1 ∈ holidays) :
    holidaysAfter holidays day = holidaysAfter holidays (day + 1) + 1 := by
  simp only [holidaysAfter]
  have hinsert : holidays.filter (day < ·) =
      insert (day + 1) (holidays.filter (day + 1 < ·)) := by
    ext d
    simp only [Finset.mem_filter, Finset.mem_insert]
    constructor
    · rintro ⟨hd, hlt⟩
      by_cases he : d = day + 1
      · exact Or.inl he
      · exact Or.inr ⟨hd, by omega⟩
    · rintro (rfl | ⟨hd, hlt⟩)
      · exact ⟨h, by omega⟩
      · exact ⟨hd, by omega⟩
  rw [hinsert, Finset.card_insert_of_notMem]
  simp

private theorem holidaysAfter_mono (holidays : Finset ℤ) (day : ℤ) :
    holidaysAfter holidays (day + 1) ≤ holidaysAfter holidays day := by
  apply Finset.card_le_card
  intro d
  simp only [Finset.mem_filter]
  exact fun h => ⟨h.1, by omega⟩

private theorem weekendAhead_step (day : Date) :
    (weekday (day + 1) < 5 ∧ weekendAhead (day + 1) < weekendAhead day + 3) ∨
    (5 ≤ weekday (day + 1) ∧ weekendAhead (day + 1) < weekendAhead day) := by
  have hweek : weekday (day + 1) = (weekday day + 1) % 7 := by
    simp only [weekday]
    omega
  have hrange : 0 ≤ weekday day ∧ weekday day < 7 := by
    simp only [weekday]
    omega
  simp only [weekendAhead]
  rw [hweek]
  split_ifs <;> omega

theorem businessDayFuel_step (holidays : Finset Date) (n : ℤ) (day : Date) (counted : ℤ)
    (h : counted < n) :
    businessDayFuel holidays n (day + 1)
      (if isBusinessDay (day + 1) holidays then counted + 1 else counted) <
      businessDayFuel holidays n day counted := by
  have hmono := holidaysAfter_mono holidays day
  simp only [businessDayFuel]
  rcases weekendAhead_step day with ⟨hday, hahead⟩ | ⟨hday, hahead⟩
  · by_cases hd : day + 1 ∈ holidays
    · have hafter := holidaysAfter_of_mem hd
      simp only [isBusinessDay, hd, not_true_eq_false, and_false, decide_false,
        Bool.false_eq_true, if_false]
      omega
    · simp only [isBusinessDay, hd, not_false_eq_true, hday, and_true, decide_true, if_true]
      omega
  · have hno : isBusinessDay (day + 1) holidays = false := by
      simp only [isBusinessDay, decide_eq_false_iff_not, not_and]
      omega
    simp only [hno, Bool.false_eq_true, if_false]
    omega

theorem businessDayLoop_returns (holidays : Finset Date) (n : ℤ) (fuel : ℕ) (day : Date)
    (counted : ℤ) (h : businessDayFuel holidays n day counted ≤ fuel) :
    (businessDayLoop holidays n fuel day counted).isSome := by
  induction fuel generalizing day counted with
  | zero =>
    by_cases hc : counted < n
    · have hf := businessDayFuel_step holidays n day counted hc
      omega
    · simp [businessDayLoop, hc]
  | succ fuel ih =>
    by_cases hc : counted < n
    · have hf := businessDayFuel_step holidays n day counted hc
      rw [businessDayLoop_next hc]
      exact ih _ _ (by omega)
    · simp [businessDayLoop, hc]

/-- `start` advanced by `n` business days, the time of day kept. Counting begins on the
day after `start`. The days of the loop only grow, so it leaves the calendar exactly when its
last day does. -/
def addBusinessDays (start : DateTime) (n : ℤ) (holidays : Finset Date)
    (cal : Calendar := .python) : Except ClockError DateTime :=
  if n < 0 then .error (.valueError "add_business_days requires n >= 0")
  else cal.check
    ⟨(businessDayLoop holidays n (businessDayFuel holidays n start.date 0) start.date 0).get
      (businessDayLoop_returns _ _ _ _ _ le_rfl), start.time⟩

def businessDaysLoop (holidays : Finset Date) : ℕ → Date → ℤ → ℤ
  | 0, _, count => count
  | k + 1, day, count =>
    let day := day + 1
    businessDaysLoop holidays k day (if isBusinessDay day holidays then count + 1 else count)

/-- Signed count of the business days after the earlier end up to the later one. -/
def businessDaysBetween (start finish : DateTime) (holidays : Finset Date) : ℤ :=
  if finish = start then 0
  else
    let sign := if finish > start then 1 else -1
    let (lo, hi) := if finish > start then (start, finish) else (finish, start)
    sign * businessDaysLoop holidays (hi.date - lo.date).toNat lo.date 0

def addCalendarDays (start : DateTime) (n : ℤ) (cal : Calendar := .python) :
    Except ClockError DateTime :=
  cal.check (start.addDays n)

def calendarDaysBetween (start finish : DateTime) : ℤ := finish.date - start.date

/-- The status of one clock against an instant. -/
structure DeadlineStatus where
  clock : String
  kind : String
  dueAt : Option DateTime
  remainingDays : ℤ
  breached : Bool
  approaching : Bool
  deriving DecidableEq, Repr

/-- One clock's status. `anchor` is when its start state was entered; `none` means that the
clock has not started. -/
def deadlineFor (spec : ClockSpec) (anchor : Option DateTime) (asOf : DateTime)
    (holidays : Finset Date) (cal : Calendar := .python) : Except ClockError DeadlineStatus :=
  match anchor with
  | none => .ok ⟨spec.name, spec.kind.value, none, spec.durationDays, false, false⟩
  | some anchor => do
    let (dueAt, remaining) ← match spec.kind with
      | .business => do
        let dueAt ← addBusinessDays anchor spec.durationDays holidays cal
        pure (dueAt, businessDaysBetween asOf dueAt holidays)
      | .calendar => do
        let dueAt ← addCalendarDays anchor spec.durationDays cal
        pure (dueAt, calendarDaysBetween asOf dueAt)
    let breached : Bool := asOf > dueAt
    let warnThreshold ← spec.warnThreshold
    let approaching : Bool := ¬ breached ∧ remaining ≤ warnThreshold
    pure ⟨spec.name, spec.kind.value, some dueAt, remaining, breached, approaching⟩

/-- The instant a clock started at `anchor` is due, or the error that `deadlineFor` raises. -/
def ClockSpec.dueFrom (spec : ClockSpec) (anchor : DateTime) (holidays : Finset Date)
    (cal : Calendar := .python) : Except ClockError DateTime := do
  let dueAt ← match spec.kind with
    | .business => addBusinessDays anchor spec.durationDays holidays cal
    | .calendar => addCalendarDays anchor spec.durationDays cal
  let _ ← spec.warnThreshold
  pure dueAt

/-- A clock started at `anchor` has a status: nothing in it raises. -/
def ClockSpec.HasDue (spec : ClockSpec) (anchor : DateTime) (holidays : Finset Date) : Prop :=
  ∃ due, spec.dueFrom anchor holidays = .ok due

instance (spec : ClockSpec) (anchor : DateTime) (holidays : Finset Date) :
    Decidable (spec.HasDue anchor holidays) :=
  match h : spec.dueFrom anchor holidays with
  | .ok due => isTrue ⟨due, h⟩
  | .error _ => isFalse (fun ⟨_, hdue⟩ => nomatch h.symm.trans hdue)

def ClockSpec.remaining (spec : ClockSpec) (asOf due : DateTime) (holidays : Finset Date) : ℤ :=
  match spec.kind with
  | .business => businessDaysBetween asOf due holidays
  | .calendar => calendarDaysBetween asOf due

def ClockSpec.warnDays (spec : ClockSpec) : ℤ :=
  match spec.warnThreshold with
  | .ok days => days
  | .error _ => 0

section
variable {spec : ClockSpec} {anchor asOf due : DateTime} {holidays : Finset Date} {cal : Calendar}

theorem check_ok_iff {d d' : DateTime} :
    cal.check d = .ok d' ↔ d = d' ∧ cal.has d.date = true := by
  by_cases h : cal.has d.date <;> simp [Calendar.check, h]

@[simp] theorem check_endless (d : DateTime) : Calendar.endless.check d = .ok d := rfl

theorem DateTime.le_max {d : DateTime} (h : d.date ≤ DateTime.max.date) : d ≤ DateTime.max := by
  rw [DateTime.le_iff]
  rcases h.lt_or_eq with hlt | heq
  · exact Or.inl hlt
  · exact Or.inr ⟨heq, Fin.le_def.mpr (Nat.le_of_lt_succ d.time.isLt)⟩

/-- The sum is made first, and then the threshold. -/
theorem dueFrom_ok_iff : spec.dueFrom anchor holidays cal = .ok due ↔
    (match spec.kind with
      | .business => addBusinessDays anchor spec.durationDays holidays cal
      | .calendar => addCalendarDays anchor spec.durationDays cal) = .ok due ∧
    ∃ days, spec.warnThreshold = .ok days := by
  simp only [ClockSpec.dueFrom]
  cases spec.kind with
  | business =>
    cases addBusinessDays anchor spec.durationDays holidays cal <;>
      cases spec.warnThreshold <;> simp [bind, Except.bind, pure, Except.pure]
  | calendar =>
    cases addCalendarDays anchor spec.durationDays cal <;>
      cases spec.warnThreshold <;> simp [bind, Except.bind, pure, Except.pure]

theorem dueFrom_le_max (h : spec.dueFrom anchor holidays = .ok due) : due ≤ DateTime.max := by
  have hcheck {d : DateTime} (hd : Calendar.python.check d = .ok due) : due ≤ DateTime.max := by
    obtain ⟨rfl, hhas⟩ := check_ok_iff.mp hd
    exact DateTime.le_max (of_decide_eq_true hhas).2
  have hsum := (dueFrom_ok_iff.mp h).1
  cases hkind : spec.kind with
  | business =>
    rw [hkind] at hsum
    simp only [addBusinessDays] at hsum
    split at hsum
    · cases hsum
    · exact hcheck hsum
  | calendar =>
    rw [hkind] at hsum
    exact hcheck hsum

/-- Without an end to the calendar only a negative number of business days has no due date. -/
theorem dueFrom_endless {days : ℤ} (hwarn : spec.warnThreshold = .ok days)
    (h : 0 ≤ spec.durationDays) : ∃ due, spec.dueFrom anchor holidays .endless = .ok due := by
  simp only [dueFrom_ok_iff, exists_and_right]
  refine ⟨?_, days, hwarn⟩
  cases spec.kind with
  | calendar => exact ⟨_, rfl⟩
  | business =>
    simp only [addBusinessDays, if_neg (not_lt.mpr h)]
    exact ⟨_, rfl⟩

/-- The status of a started clock follows from its due date, and raises what that raises. -/
theorem deadlineFor_eq : deadlineFor spec (some anchor) asOf holidays cal =
    (spec.dueFrom anchor holidays cal).map (fun due =>
      ⟨spec.name, spec.kind.value, some due, spec.remaining asOf due holidays,
        decide (due < asOf),
        decide (¬ due < asOf ∧ spec.remaining asOf due holidays ≤ spec.warnDays)⟩) := by
  cases hkind : spec.kind with
  | business =>
    simp only [deadlineFor, ClockSpec.dueFrom, ClockSpec.remaining, ClockSpec.warnDays, hkind]
    cases addBusinessDays anchor spec.durationDays holidays cal with
    | error e => rfl
    | ok due =>
      cases hwarn : spec.warnThreshold <;>
        simp [bind, Except.bind, pure, Except.pure, Except.map]
  | calendar =>
    simp only [deadlineFor, ClockSpec.dueFrom, ClockSpec.remaining, ClockSpec.warnDays, hkind]
    cases addCalendarDays anchor spec.durationDays cal with
    | error e => rfl
    | ok due =>
      cases hwarn : spec.warnThreshold <;>
        simp [bind, Except.bind, pure, Except.pure, Except.map]

theorem deadlineFor_of_error {e : ClockError} (h : spec.dueFrom anchor holidays cal = .error e) :
    deadlineFor spec (some anchor) asOf holidays cal = .error e := by
  rw [deadlineFor_eq, h]
  rfl

theorem deadlineFor_of_due (h : spec.dueFrom anchor holidays cal = .ok due) :
    deadlineFor spec (some anchor) asOf holidays cal =
      .ok ⟨spec.name, spec.kind.value, some due, spec.remaining asOf due holidays,
        decide (due < asOf),
        decide (¬ due < asOf ∧ spec.remaining asOf due holidays ≤ spec.warnDays)⟩ := by
  rw [deadlineFor_eq, h]
  rfl

end

/-- Two business days from Thursday 4 June 2026 is Monday 8 June; from 31 December 9999 there
is no next one. -/
example : addBusinessDays ⟨739771, 32400000000⟩ 2 ∅ = .ok ⟨739775, 32400000000⟩ ∧
    addBusinessDays DateTime.max 1 ∅ = .error .overflowError := by decide

end ReviewConsole

import ReviewConsole.BusinessDayAlgebra
import ReviewConsole.CaseAssessments

/-!
# Clocks that run on

What one clock, and the assessment of one case, say at an instant against what they say at
a later one. A status never contradicts itself and never goes back; findings persist, except
that a breach takes the place of an approaching deadline. Whether escalation persists is then
a question about the set the workflow escalates on.
-/
namespace ReviewConsole
open SignedCounts

/-- What a status says of the deadline and of the days left fits together. -/
structure DeadlineStatus.Consistent (status : DeadlineStatus) : Prop where
  exclusive : ¬ (status.breached = true ∧ status.approaching = true)
  positive : 0 < status.remainingDays → status.breached = false
  negative : status.remainingDays < 0 → status.breached = true

/-- The second status may be that of a later instant than the first. -/
structure DeadlineStatus.MovesTo (before after : DeadlineStatus) : Prop where
  breached : before.breached = true → after.breached = true
  approaching : before.approaching = true → after.approaching = true ∨ after.breached = true
  remaining : after.remainingDays ≤ before.remainingDays
  due : after.dueAt = before.dueAt

section
variable {spec : ClockSpec} {anchor due s t : DateTime} {holidays : Finset Date} {cal : Calendar}

theorem remaining_antitone (h : s ≤ t) :
    spec.remaining t due holidays ≤ spec.remaining s due holidays := by
  have hdate := DateTime.date_le h
  simp only [ClockSpec.remaining]
  cases spec.kind with
  | business =>
    rw [businessDaysBetween_eq, businessDaysBetween_eq]
    have hadd := signedCount_add (businessDays holidays) s.date t.date due.date
    have hnonneg := @signedCount_nonneg (businessDays holidays) s.date t.date hdate
    dsimp only
    omega
  | calendar => exact Int.sub_le_sub_left hdate due.date

theorem date_lt_of_remaining_pos (h : 0 < spec.remaining s due holidays) : s.date < due.date := by
  by_contra hle
  simp only [ClockSpec.remaining] at h
  cases hk : spec.kind with
  | business =>
    simp only [hk] at h
    rw [businessDaysBetween_eq, signedCount_antisymm] at h
    have hnonneg := @signedCount_nonneg (businessDays holidays) due.date s.date (not_lt.mp hle)
    omega
  | calendar =>
    simp only [hk, calendarDaysBetween] at h
    exact hle (Int.sub_pos.mp h)

theorem date_lt_of_remaining_neg (h : spec.remaining s due holidays < 0) : due.date < s.date := by
  by_contra hle
  simp only [ClockSpec.remaining] at h
  cases hk : spec.kind with
  | business =>
    simp only [hk] at h
    rw [businessDaysBetween_eq] at h
    have hnonneg := @signedCount_nonneg (businessDays holidays) s.date due.date (not_lt.mp hle)
    omega
  | calendar =>
    simp only [hk, calendarDaysBetween] at h
    exact hle (sub_neg.mp h)

theorem deadlineFor_consistent {status : DeadlineStatus}
    (hdue : spec.dueFrom anchor holidays cal = .ok due)
    (h : deadlineFor spec (some anchor) s holidays cal = .ok status) : status.Consistent := by
  rw [deadlineFor_of_due hdue] at h
  cases h
  refine ⟨?_, ?_, ?_⟩
  · intro hboth
    simp only [decide_eq_true_eq] at hboth
    exact hboth.2.1 hboth.1
  · intro hpos
    have hlt : s < due := DateTime.lt_iff.mpr (Or.inl (date_lt_of_remaining_pos hpos))
    exact decide_eq_false hlt.not_gt
  · intro hneg
    exact decide_eq_true (DateTime.lt_iff.mpr (Or.inl (date_lt_of_remaining_neg hneg)))

theorem deadlineFor_moves {before after : DeadlineStatus} (hst : s ≤ t)
    (hdue : spec.dueFrom anchor holidays cal = .ok due)
    (hbefore : deadlineFor spec (some anchor) s holidays cal = .ok before)
    (hafter : deadlineFor spec (some anchor) t holidays cal = .ok after) :
    before.MovesTo after := by
  rw [deadlineFor_of_due hdue] at hbefore hafter
  cases hbefore
  cases hafter
  have hremaining := @remaining_antitone spec due s t holidays hst
  refine ⟨?_, ?_, hremaining, rfl⟩
  · intro h
    exact decide_eq_true ((of_decide_eq_true h).trans_le hst)
  · intro h
    obtain ⟨-, hwarn⟩ := of_decide_eq_true h
    -- Inside the warning window the clock either is past its deadline or still warns.
    by_cases hlate : due < t
    · exact Or.inr (decide_eq_true hlate)
    · exact Or.inl (decide_eq_true ⟨hlate, hremaining.trans hwarn⟩)

theorem DeadlineStatus.MovesTo.refl (status : DeadlineStatus) : status.MovesTo status :=
  ⟨id, Or.inl, le_rfl, rfl⟩

end

section
variable {c : Case} {definition : WorkflowDefinition} {s t asOf : DateTime}
variable {holidays : Finset Date} {spec : ClockSpec} {a a' : CaseAssessment}

theorem clockStatus_moves {before : DeadlineStatus} (hst : s ≤ t)
    (h : c.clockStatus definition s holidays spec = .ok before) :
    ∃ after, c.clockStatus definition t holidays spec = .ok after ∧ before.MovesTo after := by
  simp only [Case.clockStatus] at h ⊢
  cases hanchor : c.firstEntered spec.startState definition.initial with
  | none =>
    rw [hanchor] at h
    exact ⟨before, h, .refl before⟩
  | some anchor =>
    rw [hanchor] at h
    cases hfrom : spec.dueFrom anchor holidays with
    | error e =>
      rw [deadlineFor_of_error hfrom] at h
      cases h
    | ok due =>
      have hafter := @deadlineFor_of_due spec anchor t due holidays .python hfrom
      exact ⟨_, hafter, deadlineFor_moves hst hfrom h hafter⟩

theorem mem_findings_iff (ha : assess c definition asOf holidays = .ok a) {f : CaseFinding} :
    f ∈ a.findings ↔ c.found definition asOf a.deadlines f = true := by
  obtain ⟨deadlines, hloop, rfl⟩ := assess_ok_iff.mp ha
  rw [List.mem_filter]
  constructor
  · exact And.right
  · intro hfound
    refine ⟨?_, hfound⟩
    cases f with
    | illegalTransition => cases hfound
    | _ => simp [findingOrder]

theorem requiresHumanReview_eq_true (ha : assess c definition asOf holidays = .ok a) :
    a.requiresHumanReview = true ↔ ∃ f ∈ a.findings, f ∈ definition.escalateOn := by
  obtain ⟨deadlines, hloop, rfl⟩ := assess_ok_iff.mp ha
  simp only [List.any_eq_true, decide_eq_true_eq]

theorem any_deadlines_iff (ha : assess c definition asOf holidays = .ok a)
    (p : DeadlineStatus → Bool) : a.deadlines.any p = true ↔ ∃ spec ∈ definition.clocks,
      ∃ status, c.clockStatus definition asOf holidays spec = .ok status ∧ p status = true := by
  rw [List.any_eq_true]
  constructor
  · intro h
    obtain ⟨status, hstatus, hp⟩ := h
    obtain ⟨spec, hspec, hone⟩ := assess_clock ha hstatus
    exact ⟨spec, hspec, status, hone, hp⟩
  · intro h
    obtain ⟨spec, hspec, status, hone, hp⟩ := h
    obtain ⟨i, hi⟩ := List.getElem?_of_mem hspec
    obtain ⟨status', hstatus', hone'⟩ := assess_status ha hi
    rw [hone] at hone'
    cases hone'
    exact ⟨status, List.mem_of_getElem? hstatus', hp⟩

theorem assess_later (t : DateTime) (ha : assess c definition s holidays = .ok a) :
    ∃ a', assess c definition t holidays = .ok a' :=
  assess_returns_iff.mpr (assess_returns_iff.mp ⟨a, ha⟩)

theorem slaBreach_persists (hst : s ≤ t) (ha : assess c definition s holidays = .ok a)
    (ha' : assess c definition t holidays = .ok a') (h : .slaBreach ∈ a.findings) :
    .slaBreach ∈ a'.findings := by
  rw [mem_findings_iff ha, Case.found, any_deadlines_iff ha] at h
  rw [mem_findings_iff ha', Case.found, any_deadlines_iff ha']
  obtain ⟨spec, hspec, before, hbefore, hbreached⟩ := h
  obtain ⟨after, hafter, hmoves⟩ := clockStatus_moves hst hbefore
  exact ⟨spec, hspec, after, hafter, hmoves.breached hbreached⟩

theorem stuckInState_persists (hst : s ≤ t) (ha : assess c definition s holidays = .ok a)
    (ha' : assess c definition t holidays = .ok a') (h : .stuckInState ∈ a.findings) :
    .stuckInState ∈ a'.findings := by
  rw [mem_findings_iff ha, Case.found, Case.stuck, Bool.and_eq_true] at h
  rw [mem_findings_iff ha', Case.found, Case.stuck, Bool.and_eq_true]
  obtain ⟨hterminal, hlimit⟩ := h
  refine ⟨hterminal, ?_⟩
  cases hstuck : definition.stuckAfterDays c.state with
  | none =>
    rw [hstuck] at hlimit
    cases hlimit
  | some limit =>
    rw [hstuck] at hlimit
    have hdays : calendarDaysBetween c.enteredCurrentAt s ≤
        calendarDaysBetween c.enteredCurrentAt t :=
      Int.sub_le_sub_right (DateTime.date_le hst) _
    exact decide_eq_true ((of_decide_eq_true hlimit).trans hdays)

theorem approachingDeadline_persists (hst : s ≤ t) (ha : assess c definition s holidays = .ok a)
    (ha' : assess c definition t holidays = .ok a') (h : .approachingDeadline ∈ a.findings) :
    .approachingDeadline ∈ a'.findings ∨ .slaBreach ∈ a'.findings := by
  rw [mem_findings_iff ha, Case.found, any_deadlines_iff ha] at h
  rw [mem_findings_iff ha', mem_findings_iff ha', Case.found, Case.found,
    any_deadlines_iff ha', any_deadlines_iff ha']
  obtain ⟨spec, hspec, before, hbefore, happroaching⟩ := h
  rw [Bool.and_eq_true] at happroaching
  obtain ⟨after, hafter, hmoves⟩ := clockStatus_moves hst hbefore
  cases hbreached : after.breached with
  | true => exact Or.inr ⟨spec, hspec, after, hafter, hbreached⟩
  | false =>
    rcases hmoves.approaching happroaching.2 with happ | hbr
    · exact Or.inl ⟨spec, hspec, after, hafter, by rw [hbreached, happ]; rfl⟩
    · rw [hbreached] at hbr
      cases hbr

end

/-- A clock that has started, read at two instants. -/
structure ClockProgress (cal : Calendar) (spec : ClockSpec) (anchor s t : DateTime)
    (holidays : Finset Date) (before after : DeadlineStatus) : Prop where
  first : deadlineFor spec (some anchor) s holidays cal = .ok before
  second : deadlineFor spec (some anchor) t holidays cal = .ok after
  moves : before.MovesTo after
  consistent : before.Consistent
  consistent_later : after.Consistent

theorem clockProgress_of_due {cal : Calendar} {spec : ClockSpec} {anchor due s t : DateTime}
    {holidays : Finset Date} (hst : s ≤ t) (hdue : spec.dueFrom anchor holidays cal = .ok due) :
    ∃ before after, ClockProgress cal spec anchor s t holidays before after := by
  have hbefore := @deadlineFor_of_due spec anchor s due holidays cal hdue
  have hafter := @deadlineFor_of_due spec anchor t due holidays cal hdue
  exact ⟨_, _, hbefore, hafter, deadlineFor_moves hst hdue hbefore hafter,
    deadlineFor_consistent hdue hbefore, deadlineFor_consistent hdue hafter⟩

/-- An assessment of an untouched case at two instants. -/
structure FindingProgress (before after : CaseAssessment) : Prop where
  slaBreach : .slaBreach ∈ before.findings → .slaBreach ∈ after.findings
  stuckInState : .stuckInState ∈ before.findings → .stuckInState ∈ after.findings
  approachingDeadline : .approachingDeadline ∈ before.findings →
    .approachingDeadline ∈ after.findings ∨ .slaBreach ∈ after.findings

/-- The status of a clock only moves forward and never contradicts itself, and so do the
findings of an assessment. It is there at both instants or at neither; where the calendar has no
end it is there for every duration that is not negative. -/
theorem clock_status_moves_forward (holidays : Finset Date) (s t : DateTime) (hst : s ≤ t) :
    (∀ (spec : ClockSpec) (anchor : DateTime) (days : ℤ), 0 ≤ spec.durationDays →
      spec.warnThreshold = .ok days →
        ∃ before after, ClockProgress .endless spec anchor s t holidays before after) ∧
    (∀ (spec : ClockSpec) (anchor : DateTime),
      (∃ before after, ClockProgress .python spec anchor s t holidays before after) ∨
      ∃ e, deadlineFor spec (some anchor) s holidays = .error e ∧
        deadlineFor spec (some anchor) t holidays = .error e) ∧
    ∀ (definition : WorkflowDefinition) (c : Case) (a : CaseAssessment),
      assess c definition s holidays = .ok a →
        ∃ a', assess c definition t holidays = .ok a' ∧ FindingProgress a a' := by
  refine ⟨?_, ?_, ?_⟩
  · intro spec anchor days hduration hwarn
    obtain ⟨due, hdue⟩ := @dueFrom_endless spec anchor holidays days hwarn hduration
    exact clockProgress_of_due hst hdue
  · intro spec anchor
    cases hdue : spec.dueFrom anchor holidays with
    | ok due => exact Or.inl (clockProgress_of_due hst hdue)
    | error e => exact Or.inr ⟨e, deadlineFor_of_error hdue, deadlineFor_of_error hdue⟩
  · intro definition c a ha
    obtain ⟨a', ha'⟩ := assess_later t ha
    exact ⟨a', ha', slaBreach_persists hst ha ha', stuckInState_persists hst ha ha',
      approachingDeadline_persists hst ha ha'⟩

/-- A clock of two business days over a weekend, from Friday noon to Monday noon. -/
theorem demo_clock_status_moves_forward : ∃ before after,
    ClockProgress .python ⟨"ack", .business, 2, "received", .ok 1⟩ ⟨739772, 43200000000⟩
      ⟨739772, 43200000000⟩ ⟨739775, 43200000000⟩ ∅ before after ∧
    before.remainingDays = 2 ∧ after.remainingDays = 1 ∧ after.approaching = true := by
  rcases (clock_status_moves_forward ∅ ⟨739772, 43200000000⟩ ⟨739775, 43200000000⟩ (by decide)).2.1
    ⟨"ack", .business, 2, "received", .ok 1⟩ ⟨739772, 43200000000⟩ with
    ⟨before, after, hprogress⟩ | ⟨e, herror, -⟩
  · have hbefore : (deadlineFor ⟨"ack", .business, 2, "received", .ok 1⟩
        (some ⟨739772, 43200000000⟩) ⟨739772, 43200000000⟩ ∅).toOption.map
          DeadlineStatus.remainingDays = some 2 := by decide
    have hafter : (deadlineFor ⟨"ack", .business, 2, "received", .ok 1⟩
        (some ⟨739772, 43200000000⟩) ⟨739775, 43200000000⟩ ∅).toOption.map
          (fun status => (status.remainingDays, status.approaching)) = some (1, true) := by decide
    rw [hprogress.first] at hbefore
    rw [hprogress.second] at hafter
    obtain ⟨hremaining, happroaching⟩ := Prod.mk.inj (Option.some.inj hafter)
    exact ⟨before, after, hprogress, Option.some.inj hbefore, hremaining, happroaching⟩
  · have hok : (deadlineFor ⟨"ack", .business, 2, "received", .ok 1⟩
        (some ⟨739772, 43200000000⟩) ⟨739772, 43200000000⟩ ∅).toOption.isSome = true := by decide
    rw [herror] at hok
    cases hok

section
variable {c : Case} {definition : WorkflowDefinition} {s t : DateTime}
variable {holidays : Finset Date} {a a' : CaseAssessment}

/-- After an escalation a later assessment escalates too, unless the only findings to escalate
on were approaching deadlines and a breach has taken their place. -/
theorem escalation_persists_iff (hst : s ≤ t) (ha : assess c definition s holidays = .ok a)
    (ha' : assess c definition t holidays = .ok a') (h : a.requiresHumanReview = true) :
    a'.requiresHumanReview = true ↔ .slaBreach ∈ definition.escalateOn ∨
      .approachingDeadline ∉ definition.escalateOn ∨ .approachingDeadline ∈ a'.findings ∨
      (.stuckInState ∈ definition.escalateOn ∧ .stuckInState ∈ a'.findings) := by
  rw [requiresHumanReview_eq_true ha] at h
  rw [requiresHumanReview_eq_true ha']
  constructor
  · intro hlater
    obtain ⟨f, hf, he⟩ := hlater
    cases f with
    | slaBreach => exact Or.inl he
    | approachingDeadline => exact Or.inr (Or.inr (Or.inl hf))
    | stuckInState => exact Or.inr (Or.inr (Or.inr ⟨he, hf⟩))
    | illegalTransition =>
      rw [mem_findings_iff ha'] at hf
      cases hf
  · intro hcases
    obtain ⟨f, hf, he⟩ := h
    cases f with
    | slaBreach => exact ⟨_, slaBreach_persists hst ha ha' hf, he⟩
    | stuckInState => exact ⟨_, stuckInState_persists hst ha ha' hf, he⟩
    | approachingDeadline =>
      rcases hcases with hbreach | hwarn | hwarned | ⟨hstuck, hfound⟩
      · rcases approachingDeadline_persists hst ha ha' hf with hstill | hbreached
        · exact ⟨_, hstill, he⟩
        · exact ⟨_, hbreached, hbreach⟩
      · exact absurd he hwarn
      · exact ⟨_, hwarned, he⟩
      · exact ⟨_, hfound, hstuck⟩
    | illegalTransition =>
      rw [mem_findings_iff ha] at hf
      cases hf

end

/-- One clock that is due at once, in a workflow that escalates on `escalateOn`. -/
def dueAtOnce (escalateOn : Finset CaseFinding) : WorkflowDefinition where
  caseType := "complaint"
  states := ["received"]
  initial := "received"
  terminal := ∅
  transitions := ∅
  clocks := [⟨"ack", .calendar, 0, "received", .ok 0⟩]
  escalateOn := escalateOn

def openedAtNoon : Case :=
  newCase "c1" "demo-bank" (dueAtOnce ∅) .medium ⟨739772, 43200000000⟩ [] []

section
variable (escalateOn : Finset CaseFinding)

theorem dueAtOnce_warns : ∃ a, assess openedAtNoon (dueAtOnce escalateOn)
    ⟨739772, 43200000000⟩ ∅ = .ok a ∧ a.findings = [.approachingDeadline] := ⟨_, rfl, rfl⟩

theorem dueAtOnce_breaches : ∃ a, assess openedAtNoon (dueAtOnce escalateOn)
    ⟨739773, 43200000000⟩ ∅ = .ok a ∧ a.findings = [.slaBreach] := ⟨_, rfl, rfl⟩

end

/-- Every escalation of a workflow with this set persists while the case is not touched. -/
def EscalationPersists (escalateOn : Finset CaseFinding) : Prop :=
  ∀ (definition : WorkflowDefinition), definition.escalateOn = escalateOn →
    ∀ (c : Case) (holidays : Finset Date) (s t : DateTime) (a : CaseAssessment), s ≤ t →
      assess c definition s holidays = .ok a → a.requiresHumanReview = true →
        ∃ a', assess c definition t holidays = .ok a' ∧ a'.requiresHumanReview = true

/-- Escalation persists in every workflow of a set that has the breach if it has the approaching
deadline, and in no other set; where it does not persist is said assessment by assessment. -/
theorem worsening_case_escalates :
    (∀ escalateOn, EscalationPersists escalateOn ↔
      (.approachingDeadline ∈ escalateOn → .slaBreach ∈ escalateOn)) ∧
    ∀ (definition : WorkflowDefinition) (c : Case) (holidays : Finset Date) (s t : DateTime)
      (a : CaseAssessment), s ≤ t → assess c definition s holidays = .ok a →
        a.requiresHumanReview = true → ∃ a', assess c definition t holidays = .ok a' ∧
          (a'.requiresHumanReview = true ↔ .slaBreach ∈ definition.escalateOn ∨
            .approachingDeadline ∉ definition.escalateOn ∨ .approachingDeadline ∈ a'.findings ∨
            (.stuckInState ∈ definition.escalateOn ∧ .stuckInState ∈ a'.findings)) := by
  constructor
  · intro escalateOn
    constructor
    · intro h hwarn
      obtain ⟨a, ha, hfindings⟩ := dueAtOnce_warns escalateOn
      obtain ⟨b, hb, hfindings'⟩ := dueAtOnce_breaches escalateOn
      have hreview : a.requiresHumanReview = true := by
        rw [requiresHumanReview_eq_true ha, hfindings]
        exact ⟨_, List.mem_singleton_self _, hwarn⟩
      obtain ⟨a', ha', hreview'⟩ := h (dueAtOnce escalateOn) rfl openedAtNoon ∅ _
        ⟨739773, 43200000000⟩ a (by decide) ha hreview
      rw [requiresHumanReview_eq_true ha'] at hreview'
      obtain ⟨f, hf, he⟩ := hreview'
      rw [hb] at ha'
      cases ha'
      rw [hfindings', List.mem_singleton] at hf
      exact hf ▸ he
    · intro himp definition hset c holidays s t a hst ha hreview
      obtain ⟨a', ha'⟩ := assess_later t ha
      refine ⟨a', ha', (escalation_persists_iff hst ha ha' hreview).mpr ?_⟩
      rw [hset]
      by_cases hwarn : CaseFinding.approachingDeadline ∈ escalateOn
      · exact Or.inl (himp hwarn)
      · exact Or.inr (Or.inl hwarn)
  · intro definition c holidays s t a hst ha hreview
    obtain ⟨a', ha'⟩ := assess_later t ha
    exact ⟨a', ha', escalation_persists_iff hst ha ha' hreview⟩

/-- A workflow that escalates on the approaching deadline only lets go of the case once the
deadline has passed. -/
theorem breach_stops_escalation :
    (∃ a, assess openedAtNoon (dueAtOnce {.approachingDeadline}) ⟨739772, 43200000000⟩ ∅ = .ok a ∧
      a.requiresHumanReview = true) ∧
    ∃ a, assess openedAtNoon (dueAtOnce {.approachingDeadline}) ⟨739773, 43200000000⟩ ∅ = .ok a ∧
      a.requiresHumanReview = false := ⟨⟨_, rfl, by decide⟩, _, rfl, by decide⟩

end ReviewConsole

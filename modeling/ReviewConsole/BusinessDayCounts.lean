import ReviewConsole.DeadlineClocks
import Mathlib.Data.Int.SuccPred
import Mathlib.Data.Int.Interval
import Mathlib.Data.Int.ConditionallyCompleteOrder

/-!
# Counting business days

The two loops of the clock maths against the set of business days they count: the loop of
`add_business_days` stops on the first day that completes the count, and the loop of
`business_days_between` counts the same set.
-/
namespace ReviewConsole

noncomputable def businessDaysIn (holidays : Finset Date) (lo hi : ℤ) : Finset ℤ :=
  (Finset.Ioc lo hi).filter (fun day => isBusinessDay day holidays = true)

section
variable {holidays : Finset Date} {lo hi day result n counted : ℤ} {fuel : ℕ}

theorem mem_businessDaysIn {d : ℤ} : d ∈ businessDaysIn holidays lo hi ↔
    (lo < d ∧ d ≤ hi) ∧ isBusinessDay d holidays = true := by
  rw [businessDaysIn, Finset.mem_filter, Finset.mem_Ioc]

theorem businessDaysIn_self (holidays : Finset Date) (day : ℤ) :
    businessDaysIn holidays day day = ∅ := by
  simp [businessDaysIn]

theorem card_businessDaysIn_step (h : lo < hi) :
    ((businessDaysIn holidays lo hi).card : ℤ) =
      (if isBusinessDay (lo + 1) holidays then 1 else 0) +
        (businessDaysIn holidays (lo + 1) hi).card := by
  split
  · rename_i hb
    have hinsert : businessDaysIn holidays lo hi =
        insert (lo + 1) (businessDaysIn holidays (lo + 1) hi) := by
      ext d
      rw [Finset.mem_insert, mem_businessDaysIn, mem_businessDaysIn]
      constructor
      · rintro ⟨hd, hbd⟩
        by_cases he : d = lo + 1
        · exact Or.inl he
        · exact Or.inr ⟨by omega, hbd⟩
      · rintro (rfl | ⟨hd, hbd⟩)
        · exact ⟨by omega, hb⟩
        · exact ⟨by omega, hbd⟩
    have hnew : lo + 1 ∉ businessDaysIn holidays (lo + 1) hi := by
      rw [mem_businessDaysIn]
      omega
    rw [hinsert, Finset.card_insert_of_notMem hnew]
    omega
  · rename_i hb
    have hsame : businessDaysIn holidays lo hi = businessDaysIn holidays (lo + 1) hi := by
      ext d
      rw [mem_businessDaysIn, mem_businessDaysIn]
      constructor
      · rintro ⟨hd, hbd⟩
        have hne : d ≠ lo + 1 := by
          rintro rfl
          exact hb hbd
        exact ⟨by omega, hbd⟩
      · rintro ⟨hd, hbd⟩
        exact ⟨by omega, hbd⟩
    rw [hsame]
    omega

theorem card_businessDaysIn_lt {d : ℤ} (hlo : lo < hi) (hb : isBusinessDay hi holidays = true)
    (hd : d < hi) : (businessDaysIn holidays lo d).card < (businessDaysIn holidays lo hi).card := by
  apply Finset.card_lt_card
  refine ⟨?_, ?_⟩
  · intro e
    rw [mem_businessDaysIn, mem_businessDaysIn]
    rintro ⟨he, hbe⟩
    exact ⟨by omega, hbe⟩
  · intro hsub
    have hmem : hi ∈ businessDaysIn holidays lo d :=
      hsub (mem_businessDaysIn.mpr ⟨⟨hlo, le_refl _⟩, hb⟩)
    rw [mem_businessDaysIn] at hmem
    omega

theorem businessDayLoop_stop (h : ¬ counted < n) :
    businessDayLoop holidays n fuel day counted = some day := by
  cases fuel <;> simp only [businessDayLoop, h, if_false]

/-- What the loop has counted and what lies between here and its result make `n`. -/
theorem businessDayLoop_counts (hcounted : counted ≤ n)
    (h : businessDayLoop holidays n fuel day counted = some result) :
    day ≤ result ∧ counted + (businessDaysIn holidays day result).card = n ∧
      (counted < n → day < result ∧ isBusinessDay result holidays = true) := by
  induction fuel generalizing day counted with
  | zero =>
    rw [businessDayLoop] at h
    split at h
    · cases h
    · cases h
      refine ⟨le_refl _, ?_, fun hlt => absurd hlt ‹_›⟩
      rw [businessDaysIn_self, Finset.card_empty]
      omega
  | succ fuel ih =>
    by_cases hlt : counted < n
    · rw [businessDayLoop_next hlt] at h
      have hnext : (if isBusinessDay (day + 1) holidays then counted + 1 else counted) ≤ n := by
        split <;> omega
      obtain ⟨hle, hcard, hlast⟩ := ih hnext h
      have hstep := @card_businessDaysIn_step holidays day result (by omega)
      refine ⟨by omega, ?_, fun _ => ⟨by omega, ?_⟩⟩
      · split at hcard
        · rename_i hb
          rw [if_pos hb] at hstep
          omega
        · rename_i hb
          rw [if_neg hb] at hstep
          omega
      · -- The last day taken is the one that completed the count.
        by_cases hdone : (if isBusinessDay (day + 1) holidays then counted + 1 else counted) < n
        · exact (hlast hdone).2
        · have hb : isBusinessDay (day + 1) holidays = true := by
            by_contra hno
            rw [if_neg hno] at hdone
            omega
          rw [businessDayLoop_stop hdone] at h
          cases h
          exact hb
    · rw [businessDayLoop_stop hlt] at h
      cases h
      refine ⟨le_refl _, ?_, fun h => absurd h hlt⟩
      rw [businessDaysIn_self, Finset.card_empty]
      omega

theorem businessDayLoop_more (h : businessDayLoop holidays n fuel day counted = some result)
    (more : ℕ) : businessDayLoop holidays n (fuel + more) day counted = some result := by
  induction fuel generalizing day counted with
  | zero =>
    rw [businessDayLoop] at h
    split at h
    · cases h
    · rename_i hstop
      rw [businessDayLoop_stop hstop]
      exact h
  | succ fuel ih =>
    rw [Nat.add_right_comm]
    by_cases hlt : counted < n
    · rw [businessDayLoop_next hlt] at h ⊢
      exact ih h
    · rw [businessDayLoop_stop hlt] at h ⊢
      exact h

theorem businessDaysLoop_counts (holidays : Finset Date) (k : ℕ) (day count : ℤ) :
    businessDaysLoop holidays k day count =
      count + (businessDaysIn holidays day (day + k)).card := by
  induction k generalizing day count with
  | zero => simp [businessDaysLoop, businessDaysIn]
  | succ k ih =>
    have hend : day + ((k + 1 : ℕ) : ℤ) = day + 1 + k := by omega
    have hstep := @card_businessDaysIn_step holidays day (day + 1 + k) (by omega)
    rw [businessDaysLoop, ih, hend, hstep]
    split <;> omega

theorem businessDaysBetween_of_lt {start finish : DateTime} (h : start < finish) :
    businessDaysBetween start finish holidays =
      (businessDaysIn holidays start.date finish.date).card := by
  have hle : (start.date : ℤ) ≤ finish.date := by
    rcases DateTime.lt_iff.mp h with hlt | ⟨heq, -⟩
    · exact hlt.le
    · exact heq.le
  have hdays : (start.date : ℤ) + ((finish.date - start.date : ℤ).toNat : ℤ) = finish.date := by
    rw [Int.toNat_of_nonneg (sub_nonneg.mpr hle)]
    exact add_sub_cancel start.date finish.date
  simp only [businessDaysBetween, if_neg h.ne', if_pos h]
  rw [businessDaysLoop_counts, hdays]
  omega

end

/-- The sum is the date on which the loop stops, if the calendar has it. -/
theorem addBusinessDays_loop (holidays : Finset Date) (start : DateTime) {n : ℤ} (hn : 0 ≤ n) :
    ∃ fuel last, businessDayLoop holidays n fuel start.date 0 = some last ∧
      ∀ cal : Calendar, addBusinessDays start n holidays cal = cal.check ⟨last, start.time⟩ := by
  obtain ⟨last, hloop⟩ := Option.isSome_iff_exists.mp (businessDayLoop_returns holidays n
    (businessDayFuel holidays n start.date 0) start.date 0 le_rfl)
  refine ⟨_, last, hloop, ?_⟩
  intro cal
  simp only [addBusinessDays, if_neg (not_lt.mpr hn), hloop, Option.get_some]

/-- `result` is `start` moved on by exactly `n` business days. -/
structure ExactlyAfter (holidays : Finset Date) (start : DateTime) (n : ℤ) (result : DateTime) :
    Prop where
  /-- The loop ends, however long it is allowed to run. -/
  terminates : ∃ fuel, ∀ more,
    businessDayLoop holidays n (fuel + more) start.date 0 = some result.date
  counted : (businessDaysIn holidays start.date result.date).card = n
  least : 1 ≤ n → isBusinessDay result.date holidays = true ∧
    IsLeast {day | (businessDaysIn holidays start.date day).card = n} result.date
  zero : n = 0 → result = start
  time : result.time = start.time
  between : businessDaysBetween start result holidays = n

/-- The `n`-th business day after the start is what adding `n` business days returns in a
calendar without end, and in that of the standard library wherever it has that day. A business
clock that has just started has its whole duration left. -/
theorem add_business_days_exact (holidays : Finset Date) (start : DateTime) (n : ℤ) (hn : 0 ≤ n) :
    ∃ result, addBusinessDays start n holidays .endless = .ok result ∧
      ExactlyAfter holidays start n result ∧
      addBusinessDays start n holidays = Calendar.python.check result ∧
      ∀ (spec : ClockSpec) (days : ℤ), spec.kind = .business → spec.durationDays = n →
        spec.warnThreshold = .ok days →
        ∃ status, deadlineFor spec (some start) start holidays .endless = .ok status ∧
          status.dueAt = some result ∧ status.remainingDays = spec.durationDays := by
  obtain ⟨fuel, last, hloop, hresult⟩ := addBusinessDays_loop holidays start hn
  obtain ⟨-, hcard, hlast⟩ := businessDayLoop_counts hn hloop
  rw [zero_add] at hcard
  have hzero : n = 0 → last = start.date := by
    rintro rfl
    rw [businessDayLoop_stop (lt_irrefl 0)] at hloop
    exact (Option.some.inj hloop).symm
  have hbetween : businessDaysBetween start ⟨last, start.time⟩ holidays = n := by
    rcases hn.lt_or_eq with hpos | h
    · have hlt : start < ⟨last, start.time⟩ := DateTime.lt_iff.mpr (Or.inl (hlast hpos).1)
      rw [businessDaysBetween_of_lt hlt]
      exact hcard
    · rw [hzero h.symm, ← h]
      simp [businessDaysBetween]
  refine ⟨⟨last, start.time⟩, hresult .endless, ?_, hresult .python, ?_⟩
  · refine ⟨⟨_, businessDayLoop_more hloop⟩, hcard, ?_, ?_, rfl, hbetween⟩
    · intro hpos
      obtain ⟨hlt, hb⟩ := hlast (by omega)
      refine ⟨hb, hcard, ?_⟩
      intro day hday
      by_contra hbefore
      have hfewer := card_businessDaysIn_lt hlt hb (not_le.mp hbefore)
      have hcount : ((businessDaysIn holidays start.date day).card : ℤ) = n := hday
      omega
    · intro h
      rw [hzero h]
  · rintro spec days hkind hduration hwarn
    have hdue : spec.dueFrom start holidays .endless = .ok ⟨last, start.time⟩ := by
      simp only [ClockSpec.dueFrom, hkind, hduration, hwarn, hresult, check_endless]
      rfl
    refine ⟨_, deadlineFor_of_due hdue, rfl, ?_⟩
    rw [hduration, ← hbetween]
    simp only [ClockSpec.remaining, hkind]

/-- Two business days from Thursday 4 June 2026, counted. -/
theorem demo_add_business_days_exact :
    addBusinessDays ⟨739771, 32400000000⟩ 2 ∅ = .ok ⟨739775, 32400000000⟩ ∧
      ExactlyAfter ∅ ⟨739771, 32400000000⟩ 2 ⟨739775, 32400000000⟩ := by
  obtain ⟨result, hresult, hexact, hpython, -⟩ :=
    add_business_days_exact ∅ ⟨739771, 32400000000⟩ 2 (by decide)
  have hdue : addBusinessDays ⟨739771, 32400000000⟩ 2 ∅ .endless =
      .ok ⟨739775, 32400000000⟩ := by decide
  cases hdue.symm.trans hresult
  exact ⟨hpython.trans (by decide), hexact⟩

end ReviewConsole

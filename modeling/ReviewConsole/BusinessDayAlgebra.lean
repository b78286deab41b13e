import ReviewConsole.BusinessDayCounts
import ReviewConsole.SignedCounts

/-!
# The algebra of the business-day clock

The counter of the clock is the signed count of the business days between two dates, and
the loop of `add_business_days` stops on the `n`-th of them. The laws of the clock are the
laws of such counts, with the time of day carried along.
-/
namespace ReviewConsole
open SignedCounts

/-- The business days as marks on the calendar. -/
def businessDays (holidays : Finset Date) : ℤ → Bool := fun day => isBusinessDay day holidays

section
variable {holidays : Finset Date} {start a b c result : DateTime} {n m : ℤ}

theorem businessDaysIn_eq (holidays : Finset Date) (lo hi : ℤ) :
    businessDaysIn holidays lo hi = markedIn (businessDays holidays) lo hi := rfl

theorem businessDaysBetween_swap (h : a ≠ b) :
    businessDaysBetween a b holidays = -businessDaysBetween b a holidays := by
  rcases lt_or_gt_of_ne h with hlt | hlt
  · simp only [businessDaysBetween, gt_iff_lt, if_neg h, if_neg h.symm, if_pos hlt,
      if_neg hlt.not_gt]
    omega
  · simp only [businessDaysBetween, gt_iff_lt, if_neg h, if_neg h.symm, if_pos hlt,
      if_neg hlt.not_gt]
    omega

/-- The counter only looks at the dates: instants of one day are no days apart. -/
theorem businessDaysBetween_eq (holidays : Finset Date) (a b : DateTime) :
    businessDaysBetween a b holidays = signedCount (businessDays holidays) a.date b.date := by
  rcases lt_trichotomy a b with h | rfl | h
  · rw [businessDaysBetween_of_lt h, businessDaysIn_eq, signedCount_of_le (DateTime.date_le h.le)]
  · rw [signedCount_self]
    simp [businessDaysBetween]
  · rw [businessDaysBetween_swap h.ne', businessDaysBetween_of_lt h, businessDaysIn_eq,
      signedCount_antisymm, signedCount_of_le (DateTime.date_le h.le)]

/-- Adding `n` business days goes to the `n`-th business day and keeps the time of day. -/
theorem addBusinessDays_isNth (holidays : Finset Date) (start : DateTime) (hn : 0 ≤ n) :
    ∃ result, addBusinessDays start n holidays .endless = .ok result ∧
      IsNth (businessDays holidays) start.date n result.date ∧ result.time = start.time := by
  obtain ⟨fuel, last, hloop, hresult⟩ := addBusinessDays_loop holidays start hn
  refine ⟨⟨last, start.time⟩, hresult .endless, ?_, rfl⟩
  obtain ⟨hle, hcard, hlast⟩ := businessDayLoop_counts hn hloop
  rw [businessDaysIn_eq, ← signedCount_of_le hle, zero_add] at hcard
  refine ⟨⟨hle, hcard.ge⟩, ?_⟩
  · intro e he
    obtain ⟨hae, hne⟩ := he
    by_contra hbefore
    rcases hn.lt_or_eq with hpos | hzero
    · obtain ⟨hlt, hb⟩ := hlast hpos
      have hfewer := card_businessDaysIn_lt hlt hb (not_le.mp hbefore)
      rw [businessDaysIn_eq, businessDaysIn_eq] at hfewer
      rw [signedCount_of_le hae] at hne
      rw [signedCount_of_le hle] at hcard
      omega
    · rw [← hzero, businessDayLoop_stop (lt_irrefl 0)] at hloop
      cases hloop
      exact hbefore hae

end

/-- The laws of the business-day clock over one set of holidays. -/
structure BusinessDayLaws (holidays : Finset Date) : Prop where
  antisymmetric (a b : DateTime) :
    businessDaysBetween a b holidays = -businessDaysBetween b a holidays
  additive (a b c : DateTime) : businessDaysBetween a c holidays =
    businessDaysBetween a b holidays + businessDaysBetween b c holidays
  composed (a : DateTime) (m n : ℤ) : 0 ≤ m → 0 ≤ n →
    ∃ middle result, addBusinessDays a m holidays .endless = .ok middle ∧
      addBusinessDays middle n holidays .endless = .ok result ∧
      addBusinessDays a (m + n) holidays .endless = .ok result
  /-- A later start ends on no earlier day, and at no earlier instant unless the two walks end
  on the same day and the later start has the earlier time of day. -/
  start (a b : DateTime) (n : ℤ) : 0 ≤ n → a ≤ b →
    ∃ result result', addBusinessDays a n holidays .endless = .ok result ∧
      addBusinessDays b n holidays .endless = .ok result' ∧ result.date ≤ result'.date ∧
      (result ≤ result' ↔
        n = 0 ∨ 0 < businessDaysBetween a b holidays ∨ a.time ≤ b.time)
  count (a : DateTime) (m n : ℤ) : 0 ≤ m → m ≤ n →
    ∃ result result', addBusinessDays a m holidays .endless = .ok result ∧
      addBusinessDays a n holidays .endless = .ok result' ∧ result ≤ result'
  calendar (a : DateTime) (n : ℤ) : 0 ≤ n →
    ∃ result later, addBusinessDays a n holidays .endless = .ok result ∧
      addCalendarDays a n .endless = .ok later ∧ later ≤ result
  enlarged (more : Finset Date) : holidays ⊆ more → ∀ (a : DateTime) (n : ℤ), 0 ≤ n →
    ∃ result result', addBusinessDays a n holidays .endless = .ok result ∧
      addBusinessDays a n more .endless = .ok result' ∧ result ≤ result'
  /-- A calendar that ends raises for the sums that it does not have. -/
  checked (cal : Calendar) (a : DateTime) (n : ℤ) : 0 ≤ n →
    ∃ result, addBusinessDays a n holidays .endless = .ok result ∧
      addBusinessDays a n holidays cal = cal.check result
  /-- From a date that the calendar has, two sums in a row raise just when their sum does. -/
  chained (cal : Calendar) (a : DateTime) (m n : ℤ) : cal.has a.date = true → 0 ≤ m → 0 ≤ n →
    (addBusinessDays a m holidays cal >>= fun middle => addBusinessDays middle n holidays cal) =
      addBusinessDays a (m + n) holidays cal

section
variable {holidays : Finset Date} {start a b c result result' : DateTime} {m n : ℤ}

theorem le_of_date_le (hdate : a.date ≤ b.date) (htime : a.time ≤ b.time) : a ≤ b := by
  rw [DateTime.le_iff]
  rcases hdate.lt_or_eq with hlt | heq
  · exact Or.inl hlt
  · exact Or.inr ⟨heq, htime⟩

theorem addBusinessDays_check (cal : Calendar) (hn : 0 ≤ n)
    (h : addBusinessDays start n holidays .endless = .ok result) :
    addBusinessDays start n holidays cal = cal.check result := by
  obtain ⟨-, last, -, hresult⟩ := addBusinessDays_loop holidays start hn
  rw [hresult, check_endless] at h
  cases h
  exact hresult cal

theorem not_has_of_le {cal : Calendar} (hstart : cal.has a.date = true)
    (hab : a.date ≤ b.date) (hb : ¬ cal.has b.date = true) (hbc : b.date ≤ c.date) :
    ¬ cal.has c.date = true := by
  cases cal with
  | python =>
    simp only [Calendar.has, decide_eq_true_eq] at hstart hb ⊢
    intro hc
    exact hb ⟨hstart.1.trans hab, hbc.trans hc.2⟩
  | endless => exact absurd rfl hb

/-- Two walks of one length end in the order of their starts, except on a common day. -/
theorem addBusinessDays_start (hn : 0 ≤ n) (hab : a ≤ b)
    (hresult : IsNth (businessDays holidays) a.date n result.date) (htime : result.time = a.time)
    (hresult' : IsNth (businessDays holidays) b.date n result'.date)
    (htime' : result'.time = b.time) :
    result.date ≤ result'.date ∧
      (result ≤ result' ↔ n = 0 ∨ 0 < businessDaysBetween a b holidays ∨ a.time ≤ b.time) := by
  have hle := hresult.mono_start (DateTime.date_le hab) hresult'
  refine ⟨hle, ?_⟩
  rcases hn.eq_or_lt with hzero | hpos
  · subst hzero
    have hdate := hresult.unique (isNth_zero _ _)
    have hdate' := hresult'.unique (isNth_zero _ _)
    rw [DateTime.le_iff] at hab ⊢
    rw [hdate, hdate', htime, htime']
    simp [hab]
  · rw [businessDaysBetween_eq, ← hresult.lt_iff hpos (DateTime.date_le hab) hresult',
      DateTime.le_iff, htime, htime']
    constructor
    · intro h
      rcases h with hlt | ⟨-, ht⟩
      · exact Or.inr (Or.inl hlt)
      · exact Or.inr (Or.inr ht)
    · intro h
      rcases h with hzero | hlt | ht
      · omega
      · exact Or.inl hlt
      · rcases hle.lt_or_eq with hlt | heq
        · exact Or.inl hlt
        · exact Or.inr ⟨heq, ht⟩

theorem addBusinessDays_composed (holidays : Finset Date) (a : DateTime) (hm : 0 ≤ m)
    (hn : 0 ≤ n) :
    ∃ middle result, addBusinessDays a m holidays .endless = .ok middle ∧
      addBusinessDays middle n holidays .endless = .ok result ∧
      addBusinessDays a (m + n) holidays .endless = .ok result := by
  obtain ⟨middle, hmiddle, hfirst, htime⟩ := addBusinessDays_isNth holidays a hm
  obtain ⟨result, hresult, hsecond, htime'⟩ := addBusinessDays_isNth holidays middle hn
  obtain ⟨whole, hwhole, hnth, htime''⟩ := addBusinessDays_isNth holidays a (add_nonneg hm hn)
  have hdate := hnth.unique (hfirst.add hm hn hsecond)
  have htimes : whole.time = result.time := htime''.trans (htime'.trans htime).symm
  have heq : whole = result :=
    le_antisymm (le_of_date_le hdate.le htimes.le) (le_of_date_le hdate.ge htimes.ge)
  exact ⟨middle, result, hmiddle, hresult, heq ▸ hwhole⟩

theorem addBusinessDays_le (hn : 0 ≤ n)
    (h : addBusinessDays start n holidays .endless = .ok result) : start.date ≤ result.date := by
  obtain ⟨result', hresult', hnth, -⟩ := addBusinessDays_isNth holidays start hn
  cases hresult'.symm.trans h
  exact hnth.1.1

end

/-- The business-day clock counts and adds as the business days of the calendar do. -/
theorem business_day_laws (holidays : Finset Date) : BusinessDayLaws holidays where
  antisymmetric := by
    intro a b
    rw [businessDaysBetween_eq, businessDaysBetween_eq]
    exact signedCount_antisymm _ _ _
  additive := by
    intro a b c
    rw [businessDaysBetween_eq, businessDaysBetween_eq, businessDaysBetween_eq]
    exact (signedCount_add _ _ _ _).symm
  composed a m n hm hn := addBusinessDays_composed holidays a hm hn
  start := by
    intro a b n hn hab
    obtain ⟨result, hresult, hnth, htime⟩ := addBusinessDays_isNth holidays a hn
    obtain ⟨result', hresult', hnth', htime'⟩ := addBusinessDays_isNth holidays b hn
    exact ⟨result, result', hresult, hresult',
      addBusinessDays_start hn hab hnth htime hnth' htime'⟩
  count := by
    intro a m n hm hmn
    obtain ⟨result, hresult, hnth, htime⟩ := addBusinessDays_isNth holidays a hm
    obtain ⟨result', hresult', hnth', htime'⟩ := addBusinessDays_isNth holidays a (hm.trans hmn)
    refine ⟨result, result', hresult, hresult', ?_⟩
    exact le_of_date_le (hnth.mono_count hmn hnth') (htime.trans htime'.symm).le
  calendar := by
    intro a n hn
    obtain ⟨result, hresult, hnth, htime⟩ := addBusinessDays_isNth holidays a hn
    exact ⟨result, _, hresult, rfl, le_of_date_le hnth.add_le htime.ge⟩
  enlarged := by
    intro more hsub a n hn
    obtain ⟨result, hresult, hnth, htime⟩ := addBusinessDays_isNth holidays a hn
    obtain ⟨result', hresult', hnth', htime'⟩ := addBusinessDays_isNth more a hn
    have hfewer : ∀ d, businessDays more d = true → businessDays holidays d = true := by
      intro d hd
      simp only [businessDays, isBusinessDay, decide_eq_true_eq] at hd ⊢
      exact ⟨hd.1, fun hmem => hd.2 (hsub hmem)⟩
    refine ⟨result, result', hresult, hresult', ?_⟩
    exact le_of_date_le (hnth.mono_marked hfewer hnth') (htime.trans htime'.symm).le
  checked := by
    intro cal a n hn
    obtain ⟨result, hresult, -⟩ := addBusinessDays_isNth holidays a hn
    exact ⟨result, hresult, addBusinessDays_check cal hn hresult⟩
  chained := by
    intro cal a m n hstart hm hn
    obtain ⟨middle, result, hmiddle, hresult, hwhole⟩ := addBusinessDays_composed holidays a hm hn
    rw [addBusinessDays_check cal hm hmiddle,
      addBusinessDays_check cal (add_nonneg hm hn) hwhole]
    by_cases hhas : cal.has middle.date = true
    · rw [Calendar.check, if_pos hhas]
      exact addBusinessDays_check cal hn hresult
    · have hpast : ¬ cal.has result.date = true :=
        not_has_of_le hstart (addBusinessDays_le hm hmiddle) hhas (addBusinessDays_le hn hresult)
      rw [Calendar.check, if_neg hhas, Calendar.check, if_neg hpast]
      rfl

/-- One business day from Friday at 17:00 ends after one business day from the next morning. -/
theorem weekend_start_ends_earlier :
    (⟨739772, 61200000000⟩ : DateTime) ≤ ⟨739773, 32400000000⟩ ∧
    addBusinessDays ⟨739772, 61200000000⟩ 1 ∅ = .ok ⟨739775, 61200000000⟩ ∧
    addBusinessDays ⟨739773, 32400000000⟩ 1 ∅ = .ok ⟨739775, 32400000000⟩ ∧
    ¬ (⟨739775, 61200000000⟩ : DateTime) ≤ ⟨739775, 32400000000⟩ := by decide

end ReviewConsole

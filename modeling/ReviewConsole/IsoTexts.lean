import ReviewConsole.DateTimes
import ReviewConsole.PaddedTexts
import Mathlib.Data.String.Basic
import Mathlib.Tactic.SplitIfs

/-!
# The text order of instants

`isoformat` writes an instant as numerals of a fixed width, most significant first, and
leaves the fraction out when it is zero. Its text order is the order of the instants, because
the calendar counts days in the order of year, month and day, and because the sign that
follows a whole second sorts before the point of a fraction.
-/
namespace ReviewConsole
open PaddedTexts

def isLeap (year : ℕ) : Bool := year % 4 = 0 ∧ (year % 100 ≠ 0 ∨ year % 400 = 0)

def daysBeforeYear (year : ℕ) : ℕ :=
  (year - 1) * 365 + (year - 1) / 4 - (year - 1) / 100 + (year - 1) / 400

/-- Month and day of the `n`-th day after 1 January. -/
def monthDay (leap : Bool) (n : ℕ) : ℕ × ℕ :=
  let month := (n + 50) / 32
  let preceding := daysBeforeMonth month + if 2 < month ∧ leap then 1 else 0
  if n < preceding then
    let month := month - 1
    let preceding := preceding - (daysInMonth month + if month = 2 ∧ leap then 1 else 0)
    (month, n - preceding + 1)
  else (month, n - preceding + 1)

theorem monthDay_step : ∀ leap : Bool, ∀ n < 365,
    (monthDay leap n).1 < (monthDay leap (n + 1)).1 ∨
      ((monthDay leap n).1 = (monthDay leap (n + 1)).1 ∧
        (monthDay leap n).2 < (monthDay leap (n + 1)).2) := by decide +kernel

theorem monthDay_lt_hundred : ∀ leap : Bool, ∀ n < 366,
    (monthDay leap n).1 < 100 ∧ (monthDay leap n).2 < 100 := by decide +kernel

theorem monthDay_strictMono (leap : Bool) {m n : ℕ} (hmn : m < n) (hn : n < 366) :
    (monthDay leap m).1 < (monthDay leap n).1 ∨
      ((monthDay leap m).1 = (monthDay leap n).1 ∧
        (monthDay leap m).2 < (monthDay leap n).2) := by
  induction n with
  | zero => omega
  | succ n ih =>
    have hstep := monthDay_step leap n (by omega)
    rcases Nat.lt_succ_iff_lt_or_eq.mp hmn with hlt | heq
    · have hbefore := ih hlt (by omega)
      omega
    · rw [heq]
      exact hstep

theorem daysBeforeYear_cycles (a : ℕ) {b c d : ℕ} (hb : b ≤ 3) (hc : c ≤ 24) (hd : d ≤ 3) :
    daysBeforeYear (a * 400 + 1 + b * 100 + c * 4 + d) =
      146097 * a + 36524 * b + 1461 * c + 365 * d := by
  have hyear : a * 400 + 1 + b * 100 + c * 4 + d - 1 = a * 400 + b * 100 + c * 4 + d := by omega
  have h4 : (a * 400 + b * 100 + c * 4 + d) / 4 = a * 100 + b * 25 + c := by omega
  have h100 : (a * 400 + b * 100 + c * 4 + d) / 100 = a * 4 + b := by omega
  have h400 : (a * 400 + b * 100 + c * 4 + d) / 400 = a := by omega
  rw [daysBeforeYear, hyear, h4, h100, h400]
  omega

/-- The day counter finds the year and the day of the year, and the month and day from it. -/
theorem ordToYmd_spec (k : ℕ) : ∃ year n,
    1 ≤ year ∧ n < (if isLeap year then 366 else 365) ∧ k = daysBeforeYear year + n ∧
      ordToYmd (k + 1) = (year, monthDay (isLeap year) n) := by
  have hk : ((k : ℤ) + 1 - 1).toNat = k := by omega
  simp only [ordToYmd, hk]
  generalize ha : k / 146097 = a
  generalize hr : k % 146097 = r
  generalize hb : r / 36524 = b
  generalize hs : r % 36524 = s
  generalize hc : s / 1461 = c
  generalize ht : s % 1461 = t
  generalize hd : t / 365 = d
  generalize hn : t % 365 = n
  have hsum : k = 146097 * a + 36524 * b + 1461 * c + 365 * d + n := by omega
  have hbounds : b ≤ 4 ∧ c ≤ 24 ∧ d ≤ 4 ∧ n < 365 := by omega
  split
  · -- The last day of a leap year, counted as the first of the year after.
    rename_i hlast
    have hleap : isLeap (a * 400 + 1 + b * 100 + c * 4 + d - 1) = true := by
      simp only [isLeap, decide_eq_true_eq]
      omega
    refine ⟨a * 400 + 1 + b * 100 + c * 4 + d - 1, 365, by omega, ?_, ?_, ?_⟩
    · rw [hleap]
      decide
    · rcases hlast with hd4 | hb4
      · have hyear : a * 400 + 1 + b * 100 + c * 4 + d - 1 = a * 400 + 1 + b * 100 + c * 4 + 3 := by
          omega
        rw [hyear, daysBeforeYear_cycles a (by omega) (by omega) (by omega)]
        omega
      · have hyear : a * 400 + 1 + b * 100 + c * 4 + d - 1 =
            a * 400 + 1 + 3 * 100 + 24 * 4 + 3 := by omega
        rw [hyear, daysBeforeYear_cycles a (by omega) (by omega) (by omega)]
        omega
    · rw [hleap]
      rfl
  · rename_i hlast
    have hleap : isLeap (a * 400 + 1 + b * 100 + c * 4 + d) =
        decide (d = 3 ∧ (c ≠ 24 ∨ b = 3)) := by
      simp only [isLeap]
      apply decide_eq_decide.mpr
      omega
    refine ⟨a * 400 + 1 + b * 100 + c * 4 + d, n, by omega, ?_, ?_, ?_⟩
    · split <;> omega
    · rw [daysBeforeYear_cycles a (by omega) (by omega) (by omega)]
      omega
    · rw [hleap]
      simp only [monthDay, decide_eq_true_eq]
      exact (apply_ite (Prod.mk _) _ _ _).symm

theorem daysBeforeYear_succ {year : ℕ} (h : 1 ≤ year) :
    daysBeforeYear (year + 1) = daysBeforeYear year + (if isLeap year then 366 else 365) := by
  obtain ⟨u, rfl⟩ := Nat.exists_eq_add_of_le' h
  have h4 : (u + 1) / 4 = u / 4 + if (u + 1) % 4 = 0 then 1 else 0 := by split <;> omega
  have h100 : (u + 1) / 100 = u / 100 + if (u + 1) % 100 = 0 then 1 else 0 := by split <;> omega
  have h400 : (u + 1) / 400 = u / 400 + if (u + 1) % 400 = 0 then 1 else 0 := by split <;> omega
  have hle : u / 100 ≤ u / 4 := by omega
  have hcentury : (u + 1) % 100 = 0 → (u + 1) % 4 = 0 := by omega
  have hcycle : (u + 1) % 400 = 0 → (u + 1) % 100 = 0 := by omega
  simp only [daysBeforeYear, isLeap, Nat.add_sub_cancel, decide_eq_true_eq]
  rw [h4, h100, h400]
  generalize u / 4 = q4 at *
  generalize u / 100 = q100 at *
  generalize u / 400 = q400 at *
  clear h4 h100 h400
  split_ifs <;> omega

theorem daysBeforeYear_le {year year' : ℕ} (h : 1 ≤ year) (hlt : year < year') :
    daysBeforeYear year + (if isLeap year then 366 else 365) ≤ daysBeforeYear year' := by
  induction year', hlt using Nat.le_induction with
  | base => exact (daysBeforeYear_succ h).ge
  | succ year' hle ih =>
    have hnext := @daysBeforeYear_succ year' (by omega)
    omega

theorem ordToYmd_strictMono {k m : ℕ} (h : k < m) :
    (ordToYmd (k + 1)).1 < (ordToYmd (m + 1)).1 ∨
    ((ordToYmd (k + 1)).1 = (ordToYmd (m + 1)).1 ∧
      ((ordToYmd (k + 1)).2.1 < (ordToYmd (m + 1)).2.1 ∨
      ((ordToYmd (k + 1)).2.1 = (ordToYmd (m + 1)).2.1 ∧
        (ordToYmd (k + 1)).2.2 < (ordToYmd (m + 1)).2.2))) := by
  obtain ⟨year, n, hyear, hn, hk, hymd⟩ := ordToYmd_spec k
  obtain ⟨year', n', hyear', hn', hm, hymd'⟩ := ordToYmd_spec m
  rw [hymd, hymd']
  rcases lt_trichotomy year year' with hlt | heq | hgt
  · exact Or.inl hlt
  · subst heq
    refine Or.inr ⟨rfl, monthDay_strictMono _ (by omega) ?_⟩
    split at hn' <;> omega
  · have hover := daysBeforeYear_le hyear' hgt
    omega

theorem ordToYmd_bounds {k : ℕ} (h : k < 3652059) : (ordToYmd (k + 1)).1 < 10 ^ 4 ∧
    (ordToYmd (k + 1)).2.1 < 10 ^ 2 ∧ (ordToYmd (k + 1)).2.2 < 10 ^ 2 := by
  obtain ⟨year, n, hyear, hn, hk, hymd⟩ := ordToYmd_spec k
  rw [hymd]
  refine ⟨?_, monthDay_lt_hundred _ n ?_⟩
  · by_contra hlarge
    have hover := @daysBeforeYear_le 9999 year (by decide) (by omega)
    have hend : daysBeforeYear 9999 + (if isLeap 9999 then 366 else 365) = 3652059 := by decide
    omega
  · split at hn <;> omega

/-- What follows the seconds: the fraction unless it is zero, and the offset. -/
def isoSuffix (micros : ℕ) : List Char :=
  (if micros = 0 then [] else '.' :: digits 6 micros) ++ "+00:00".toList

theorem isoSuffix_strictMono {m n : ℕ} (hmn : m < n) (hn : n < 10 ^ 6) :
    isoSuffix m < isoSuffix n := by
  rw [isoSuffix, isoSuffix, if_neg (by omega : ¬ n = 0), List.cons_append]
  split
  · -- The sign of the offset sorts before the point of the fraction.
    exact List.cons_lt_cons_iff.mpr (Or.inl (by decide))
  · rw [List.cons_append]
    refine List.cons_lt_cons_iff.mpr (Or.inr ⟨rfl, ?_⟩)
    exact (digits_append_lt_iff (by omega) hn).mpr (Or.inl hmn)

def DateTime.InRange (d : DateTime) : Prop := 1 ≤ d.date ∧ d.date ≤ 3652059

theorem zeroPad_toList {w n : ℕ} (hw : 0 < w) (hn : n < 10 ^ w) :
    (zeroPad w n).toList = digits w n := by
  rw [zeroPad, String.toList_ofList]
  exact replicate_append_toDigits hw hn

/-- The text of an instant, numeral by numeral. -/
theorem isoformat_toList {k : ℕ} (hk : k < 3652059) (time : Fin microsPerDay) :
    (DateTime.mk (k + 1) time).isoformat.toList =
      digits 4 (ordToYmd (k + 1)).1 ++ '-' :: (digits 2 (ordToYmd (k + 1)).2.1 ++
        '-' :: (digits 2 (ordToYmd (k + 1)).2.2 ++ 'T' :: (digits 2 (time / 1000000 / 3600) ++
          ':' :: (digits 2 (time / 1000000 / 60 % 60) ++
            ':' :: (digits 2 (time / 1000000 % 60) ++ isoSuffix (time % 1000000)))))) := by
  obtain ⟨hyear, hmonth, hday⟩ := ordToYmd_bounds hk
  have htime : time.val < 86400000000 := time.isLt
  have hhour : time.val / 1000000 / 3600 < 10 ^ 2 := by omega
  have hminute : time.val / 1000000 / 60 % 60 < 10 ^ 2 := by omega
  have hsecond : time.val / 1000000 % 60 < 10 ^ 2 := by omega
  have hmicros : time.val % 1000000 < 10 ^ 6 := by omega
  simp only [DateTime.isoformat, String.toList_append, zeroPad_toList (by decide : 0 < 4) hyear,
    zeroPad_toList (by decide : 0 < 2) hmonth, zeroPad_toList (by decide : 0 < 2) hday,
    zeroPad_toList (by decide : 0 < 2) hhour, zeroPad_toList (by decide : 0 < 2) hminute,
    zeroPad_toList (by decide : 0 < 2) hsecond, isoSuffix]
  split
  · simp
  · simp [zeroPad_toList (by decide : 0 < 6) hmicros]

private theorem exists_ordinal {day : ℤ} (h : 1 ≤ day) (h' : day ≤ 3652059) :
    ∃ k : ℕ, k < 3652059 ∧ day = k + 1 := ⟨(day - 1).toNat, by omega, by omega⟩

theorem time_lt {s t : ℕ} (h : s < t) :
    s / 1000000 / 3600 < t / 1000000 / 3600 ∨
    (s / 1000000 / 3600 = t / 1000000 / 3600 ∧
      (s / 1000000 / 60 % 60 < t / 1000000 / 60 % 60 ∨
      (s / 1000000 / 60 % 60 = t / 1000000 / 60 % 60 ∧
        (s / 1000000 % 60 < t / 1000000 % 60 ∨
        (s / 1000000 % 60 = t / 1000000 % 60 ∧ s % 1000000 < t % 1000000))))) := by
  omega

/-- An earlier instant has the earlier text. -/
theorem isoformat_strictMono {a b : DateTime} (ha : a.InRange) (hb : b.InRange) (h : a < b) :
    a.isoformat < b.isoformat := by
  obtain ⟨date, time⟩ := a
  obtain ⟨date', time'⟩ := b
  obtain ⟨k, hk, rfl⟩ := exists_ordinal ha.1 ha.2
  obtain ⟨m, hm, rfl⟩ := exists_ordinal hb.1 hb.2
  obtain ⟨hyear, hmonth, hday⟩ := ordToYmd_bounds hk
  obtain ⟨hyear', hmonth', hday'⟩ := ordToYmd_bounds hm
  have htime : time.val < 86400000000 := time.isLt
  have htime' : time'.val < 86400000000 := time'.isLt
  rw [String.lt_iff, isoformat_toList hk, isoformat_toList hm, digits_cons_lt_iff hyear hyear',
    digits_cons_lt_iff hmonth hmonth', digits_cons_lt_iff hday hday',
    digits_cons_lt_iff (by omega) (by omega), digits_cons_lt_iff (by omega) (by omega),
    digits_append_lt_iff (by omega) (by omega)]
  rcases DateTime.lt_iff.mp h with hdate | ⟨hdate, hlt⟩
  · have hcast : (k : ℤ) + 1 < m + 1 := hdate
    have hkm : k < m := by omega
    rcases ordToYmd_strictMono hkm with hy | ⟨hy, hmo | ⟨hmo, hd⟩⟩
    · exact Or.inl hy
    · exact Or.inr ⟨hy, Or.inl hmo⟩
    · exact Or.inr ⟨hy, Or.inr ⟨hmo, Or.inl hd⟩⟩
  · have hcast : (k : ℤ) + 1 = m + 1 := hdate
    have hkm : k = m := by omega
    subst hkm
    refine Or.inr ⟨rfl, Or.inr ⟨rfl, Or.inr ⟨rfl, ?_⟩⟩⟩
    rcases time_lt (Fin.lt_def.mp hlt) with hh | ⟨hh, hmin | ⟨hmin, hsec | ⟨hsec, hmicro⟩⟩⟩
    · exact Or.inl hh
    · exact Or.inr ⟨hh, Or.inl hmin⟩
    · exact Or.inr ⟨hh, Or.inr ⟨hmin, Or.inl hsec⟩⟩
    · exact Or.inr ⟨hh, Or.inr ⟨hmin, Or.inr ⟨hsec, isoSuffix_strictMono hmicro (by omega)⟩⟩⟩

theorem isoformat_lt_iff {a b : DateTime} (ha : a.InRange) (hb : b.InRange) :
    a.isoformat < b.isoformat ↔ a < b := by
  constructor
  · intro htext
    rcases lt_trichotomy a b with hlt | heq | hgt
    · exact hlt
    · rw [heq] at htext
      exact absurd htext (lt_irrefl _)
    · exact absurd htext (isoformat_strictMono hb ha hgt).not_gt
  · exact isoformat_strictMono ha hb

theorem isoformat_inj {a b : DateTime} (ha : a.InRange) (hb : b.InRange) :
    a.isoformat = b.isoformat ↔ a = b := by
  constructor
  · intro htext
    rcases lt_trichotomy a b with hlt | heq | hgt
    · exact absurd htext (isoformat_strictMono ha hb hlt).ne
    · exact heq
    · exact absurd htext (isoformat_strictMono hb ha hgt).ne'
  · intro h
    rw [h]

end ReviewConsole

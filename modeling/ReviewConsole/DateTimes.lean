import Mathlib.Algebra.GroupWithZero.Nat
import Mathlib.Data.Prod.Lex
import Mathlib.Order.Fin.Basic
import Mathlib.Data.Int.Order.Basic

/-!
# Dates and instants

Every `datetime` the service handles is aware and in UTC, so it is a date and a time of day
and it is compared date first. Dates are proleptic ordinals. The type has them all; the dates
that the standard library has end with the year 9999, and where date arithmetic can leave them
the calendar says so.
-/
namespace ReviewConsole

/-- `date.toordinal()`: day 1 is 1 January of year 1, a Monday. -/
abbrev Date := ℤ

def weekday (day : Date) : ℤ := (day + 6) % 7

abbrev microsPerDay : ℕ := 86400000000

instance : NeZero microsPerDay := ⟨by decide⟩

/-- An aware UTC `datetime`: its date and the microseconds since midnight. -/
structure DateTime where
  date : Date
  time : Fin microsPerDay
  deriving DecidableEq, Repr

namespace DateTime

instance : LinearOrder DateTime :=
  LinearOrder.lift' (fun d => toLex (d.date, d.time)) (by
    rintro ⟨a, s⟩ ⟨b, t⟩ h
    simpa using h)

theorem lt_iff {a b : DateTime} :
    a < b ↔ a.date < b.date ∨ a.date = b.date ∧ a.time < b.time := Prod.Lex.toLex_lt_toLex

theorem le_iff {a b : DateTime} :
    a ≤ b ↔ a.date < b.date ∨ a.date = b.date ∧ a.time ≤ b.time := Prod.Lex.toLex_le_toLex

theorem date_le {a b : DateTime} (h : a ≤ b) : a.date ≤ b.date := by
  rcases le_iff.mp h with hlt | ⟨heq, -⟩
  · exact hlt.le
  · exact heq.le

/-- `start + timedelta(days=n)`. -/
def addDays (start : DateTime) (n : ℤ) : DateTime := { start with date := start.date + n }

/-- `datetime.max`, the last microsecond of 31 December 9999. -/
def max : DateTime := ⟨3652059, 86399999999⟩

end DateTime

/-- The dates that date arithmetic can reach: those of the standard library, or all. -/
inductive Calendar where
  | python | endless
  deriving DecidableEq, Repr

def Calendar.has : Calendar → Date → Bool
  | .python, day => 1 ≤ day ∧ day ≤ DateTime.max.date
  | .endless, _ => true

def daysBeforeMonth (month : ℕ) : ℕ :=
  [0, 0, 31, 59, 90, 120, 151, 181, 212, 243, 273, 304, 334].getD month 0

def daysInMonth (month : ℕ) : ℕ :=
  [0, 31, 28, 31, 30, 31, 30, 31, 31, 30, 31, 30, 31].getD month 0

/-- Year, month and day of a date of year 1 or later, as the standard library counts them. -/
def ordToYmd (day : Date) : ℕ × ℕ × ℕ :=
  let n := (day - 1).toNat
  let n400 := n / 146097
  let n := n % 146097
  let n100 := n / 36524
  let n := n % 36524
  let n4 := n / 1461
  let n := n % 1461
  let n1 := n / 365
  let n := n % 365
  let year := n400 * 400 + 1 + n100 * 100 + n4 * 4 + n1
  if n1 = 4 ∨ n100 = 4 then (year - 1, 12, 31)
  else
    let leap := n1 = 3 ∧ (n4 ≠ 24 ∨ n100 = 3)
    let month := (n + 50) / 32
    let preceding := daysBeforeMonth month + if 2 < month ∧ leap then 1 else 0
    -- The first guess of the month can be one too high.
    if n < preceding then
      let month := month - 1
      let preceding := preceding - (daysInMonth month + if month = 2 ∧ leap then 1 else 0)
      (year, month, n - preceding + 1)
    else (year, month, n - preceding + 1)

/-- The decimal digits of `n`, filled up with zeros to `width`. -/
def zeroPad (width n : ℕ) : String :=
  let digits := Nat.toDigits 10 n
  String.ofList (List.replicate (width - digits.length) '0' ++ digits)

/-- `datetime.isoformat()` in UTC: the fraction is left out when it is zero. -/
def DateTime.isoformat (d : DateTime) : String :=
  let (year, month, day) := ordToYmd d.date
  let micros := d.time.val % 1000000
  let seconds := d.time.val / 1000000
  zeroPad 4 year ++ "-" ++ zeroPad 2 month ++ "-" ++ zeroPad 2 day ++ "T" ++
    zeroPad 2 (seconds / 3600) ++ ":" ++ zeroPad 2 (seconds / 60 % 60) ++ ":" ++
    zeroPad 2 (seconds % 60) ++ (if micros = 0 then "" else "." ++ zeroPad 6 micros) ++ "+00:00"

/-- 5 June 2026 is a Friday, and its noon is written without a fraction. -/
example : weekday 739772 = 4 ∧
    (DateTime.mk 739772 43200000000).isoformat = "2026-06-05T12:00:00+00:00" := by decide

end ReviewConsole

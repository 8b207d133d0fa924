import Mathlib.Tactic

/-!
# Calendar time by the second

Dates from 2000 to 2099 with the time of day.  A `DateTime` carries the ranges
of its fields, so an invalid one cannot be built.  `next` is the time one second
later; after the last second of 2099 the century starts again, as a clock with
two digits for the year does.
-/

namespace OpenKernel
namespace Time

def leapYear (year : Nat) : Bool :=
  year % 4 == 0 && (year % 100 != 0 || year % 400 == 0)

def daysInMonth (year month : Nat) : Nat :=
  match month with
  | 2 => if leapYear year then 29 else 28
  | 4 | 6 | 9 | 11 => 30
  | _ => 31

theorem daysInMonth_range
    (year month : Nat) :
    1 ≤ daysInMonth year month ∧ daysInMonth year month ≤ 31 := by
  unfold daysInMonth
  split
  · cases leapYear year <;> simp
  all_goals simp

structure DateTime where
  year : Nat
  month : Nat
  day : Nat
  hour : Nat
  minute : Nat
  second : Nat
  year_range : 2000 ≤ year ∧ year < 2100
  month_range : 1 ≤ month ∧ month ≤ 12
  day_range : 1 ≤ day ∧ day ≤ daysInMonth year month
  hour_lt : hour < 24
  minute_lt : minute < 60
  second_lt : second < 60
deriving DecidableEq

namespace DateTime

/-- The first second of a day. -/
def midnight
    (year month day : Nat)
    (year_range : 2000 ≤ year ∧ year < 2100)
    (month_range : 1 ≤ month ∧ month ≤ 12)
    (day_range : 1 ≤ day ∧ day ≤ daysInMonth year month) :
    DateTime where
  year := year
  month := month
  day := day
  hour := 0
  minute := 0
  second := 0
  year_range := year_range
  month_range := month_range
  day_range := day_range
  hour_lt := by decide
  minute_lt := by decide
  second_lt := by decide

def nextDay (t : DateTime) : DateTime :=
  if hday : t.day < daysInMonth t.year t.month then
    midnight t.year t.month (t.day + 1) t.year_range t.month_range ⟨by omega, hday⟩
  else if hmonth : t.month < 12 then
    midnight t.year (t.month + 1) 1 t.year_range ⟨by omega, hmonth⟩
      ⟨Nat.le_refl 1, (daysInMonth_range _ _).1⟩
  else if hyear : t.year + 1 < 2100 then
    have hfrom := t.year_range.1
    midnight (t.year + 1) 1 1 ⟨by omega, hyear⟩ (by decide) (by simp [daysInMonth])
  else
    midnight 2000 1 1 (by decide) (by decide) (by decide)

def next (t : DateTime) : DateTime :=
  if hsecond : t.second + 1 < 60 then
    { t with second := t.second + 1, second_lt := hsecond }
  else if hminute : t.minute + 1 < 60 then
    { t with
      minute := t.minute + 1, minute_lt := hminute
      second := 0, second_lt := by decide }
  else if hhour : t.hour + 1 < 24 then
    { t with
      hour := t.hour + 1, hour_lt := hhour
      minute := 0, minute_lt := by decide
      second := 0, second_lt := by decide }
  else
    t.nextDay

theorem day_le
    (t : DateTime) :
    t.day ≤ 31 :=
  Nat.le_trans t.day_range.2 (daysInMonth_range _ _).2

end DateTime

end Time
end OpenKernel

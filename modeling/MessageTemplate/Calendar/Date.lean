/-!
# Dates of the Gregorian calendar

A date holds a proof that it exists. Years may be negative; the rule for leap
years goes on unchanged in both directions. `next` and `previous` step by one day.
-/

namespace MessageTemplate
namespace Calendar

def isLeapYear (year : Int) : Bool :=
  (year % 4 == 0 && year % 100 != 0) || year % 400 == 0

/-- The number of days of a month, which counts from one. -/
def daysInMonth (year : Int) (month : Nat) : Nat :=
  match month with
  | 2 => if isLeapYear year then 29 else 28
  | 4 | 6 | 9 | 11 => 30
  | _ => 31

theorem daysInMonth_ge (year : Int) (month : Nat) : 28 ≤ daysInMonth year month := by
  unfold daysInMonth
  split
  · split <;> omega
  all_goals omega

structure Date where
  year : Int
  month : Nat
  day : Nat
  month_bounds : 1 ≤ month ∧ month ≤ 12
  day_bounds : 1 ≤ day ∧ day ≤ daysInMonth year month
deriving DecidableEq

namespace Date

/-- The date with the given parts, if there is one. -/
def of? (year : Int) (month day : Nat) : Option Date :=
  if h : (1 ≤ month ∧ month ≤ 12) ∧ 1 ≤ day ∧ day ≤ daysInMonth year month then
    some ⟨year, month, day, h.1, h.2⟩
  else none

theorem of?_parts (date : Date) : of? date.year date.month date.day = some date := by
  unfold of?
  rw [dif_pos ⟨date.month_bounds, date.day_bounds⟩]

/-- The first day of a month. -/
def firstOf (year : Int) (month : Nat) (h : 1 ≤ month ∧ month ≤ 12) : Date :=
  ⟨year, month, 1, h, Nat.le_refl 1, Nat.le_trans (by decide) (daysInMonth_ge year month)⟩

/-- The last day of a month. -/
def lastOf (year : Int) (month : Nat) (h : 1 ≤ month ∧ month ≤ 12) : Date :=
  ⟨year, month, daysInMonth year month, h,
    Nat.le_trans (by decide) (daysInMonth_ge year month), Nat.le_refl _⟩

def next (date : Date) : Date :=
  if h : date.day < daysInMonth date.year date.month then
    { date with day := date.day + 1, day_bounds := ⟨Nat.le_add_left 1 date.day, h⟩ }
  else if hmonth : date.month < 12 then
    firstOf date.year (date.month + 1) ⟨Nat.le_add_left 1 date.month, hmonth⟩
  else firstOf (date.year + 1) 1 (by decide)

def previous (date : Date) : Date :=
  if h : 1 < date.day then
    { date with
      day := date.day - 1
      day_bounds := ⟨Nat.le_sub_of_add_le h, Nat.le_trans (Nat.sub_le _ _) date.day_bounds.2⟩ }
  else if hmonth : 1 < date.month then
    lastOf date.year (date.month - 1)
      ⟨Nat.le_sub_of_add_le hmonth, Nat.le_trans (Nat.sub_le _ _) date.month_bounds.2⟩
  else lastOf (date.year - 1) 12 (by decide)

end Date
end Calendar
end MessageTemplate

import MessageTemplate.Calendar.Date

/-!
# Instants

An instant is a date and a time of day in universal time. Second 60 is a leap
second; it may stand in any minute and is kept as it is. A local time with an
offset from universal time is at most a day away from it.
-/

namespace MessageTemplate
namespace Calendar

structure TimeOfDay where
  hour : Fin 24
  minute : Fin 60
  second : Fin 61
  nanosecond : Fin 1000000000
deriving DecidableEq

namespace TimeOfDay

def of? (hour minute second nanosecond : Nat) : Option TimeOfDay :=
  if h : hour < 24 ∧ minute < 60 ∧ second < 61 ∧ nanosecond < 1000000000 then
    some ⟨⟨hour, h.1⟩, ⟨minute, h.2.1⟩, ⟨second, h.2.2.1⟩, ⟨nanosecond, h.2.2.2⟩⟩
  else none

/-- Whole minutes since the day began. -/
def minutes (time : TimeOfDay) : Nat := 60 * time.hour + time.minute

/-- The same seconds in another minute of the day. -/
def withMinutes (time : TimeOfDay) (minutes : Nat) : TimeOfDay :=
  { time with
    hour := ⟨minutes / 60 % 24, Nat.mod_lt _ (by decide)⟩
    minute := ⟨minutes % 60, Nat.mod_lt _ (by decide)⟩ }

theorem minutes_lt (time : TimeOfDay) : time.minutes < 1440 := by
  unfold minutes
  omega

@[simp] theorem withMinutes_minutes (time : TimeOfDay) : time.withMinutes time.minutes = time := by
  obtain ⟨⟨hour, hhour⟩, ⟨minute, hminute⟩, second, nanosecond⟩ := time
  simp only [withMinutes, minutes, TimeOfDay.mk.injEq, Fin.mk.injEq, and_true]
  omega

end TimeOfDay

/-- A point in universal time. -/
structure Instant where
  date : Date
  time : TimeOfDay
deriving DecidableEq

namespace Instant

/-- The first instant of March 2024. -/
def newMonth : Instant :=
  ⟨.firstOf 2024 3 (by decide), ⟨⟨0, by decide⟩, ⟨0, by decide⟩, ⟨0, by decide⟩, ⟨0, by decide⟩⟩⟩

/-- The instant at which clocks that are `offset` minutes ahead of universal time show the given
date and time. -/
def ofLocal (date : Date) (time : TimeOfDay) (offset : Int) : Instant :=
  let minutes := (time.minutes : Int) - offset
  if minutes < 0 then ⟨date.previous, time.withMinutes (minutes + 1440).toNat⟩
  else if 1440 ≤ minutes then ⟨date.next, time.withMinutes (minutes - 1440).toNat⟩
  else ⟨date, time.withMinutes minutes.toNat⟩

@[simp] theorem ofLocal_zero (date : Date) (time : TimeOfDay) :
    ofLocal date time 0 = ⟨date, time⟩ := by
  have := time.minutes_lt
  unfold ofLocal
  simp only [Int.sub_zero]
  rw [if_neg (by omega), if_neg (by omega)]
  simp

end Instant
end Calendar
end MessageTemplate

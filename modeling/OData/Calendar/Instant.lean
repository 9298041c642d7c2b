import OData.Calendar.Date

/-!
# Instants

An instant is a date, a second of that day and the nanoseconds within the
second, all in universal time.  A leap second is the second before it with a
thousand million nanoseconds or more, so that the order of instants is the
order of their parts and a day never has more than 86400 seconds.

The representation, the range of the calendar and the rules of reading are taken
from the documentation of the calendar library, `chrono`.  So is that any second
may have a leap second behind it, not only the last one of a minute.  A time of
day that is read has none elsewhere (`OnClock`).
-/

namespace OData

/-- A moment in universal time. -/
structure Instant where
  /-- The day. -/
  date : Date
  /-- The second of the day. -/
  second : Nat
  /-- The nanoseconds within the second, beyond a thousand million in a leap second. -/
  nanos : Nat
  /-- A day has 86400 seconds. -/
  second_lt : second < 86400
  /-- A leap second has one second's nanoseconds like any other. -/
  nanos_lt : nanos < 2000000000
deriving DecidableEq

namespace Instant

/-- The instant with the given parts, if they are parts of one. -/
def of? (date : Date) (second nanos : Nat) : Option Instant :=
  if hs : second < 86400 then
    if hn : nanos < 2000000000 then some ⟨date, second, nanos, hs, hn⟩ else none
  else none

/-- A clock shows a leap second only behind the last second of a minute. -/
def OnClock (t : Instant) : Prop := 1000000000 ≤ t.nanos → t.second % 60 = 59

instance : DecidablePred OnClock := fun _ => inferInstanceAs (Decidable (_ → _))

/-- The instant on a date at a time of day.  The sixtieth second is a leap second. -/
def atTime? (date : Date) (hour minute second nanos : Nat) : Option Instant :=
  if 23 < hour || 59 < minute || 60 < second || 999999999 < nanos then none
  else if second = 60 then of? date (hour * 3600 + minute * 60 + 59) (nanos + 1000000000)
  else of? date (hour * 3600 + minute * 60 + second) nanos

/-- The first instant of a date. -/
def midnight (date : Date) : Instant := ⟨date, 0, 0, by decide, by decide⟩

/-! ## Parts -/

/-- The hour of the day. -/
def hour (t : Instant) : Nat := t.second / 3600

/-- The minute of the hour. -/
def minute (t : Instant) : Nat := t.second / 60 % 60

/-- The second of the minute.  A leap second counts as the second before it. -/
def secondOfMinute (t : Instant) : Nat := t.second % 60

/-! ## Order and shifts -/

/-- The order of instants. -/
protected def compare (a b : Instant) : Ordering :=
  (a.date.compare b.date).then ((compare a.second b.second).then (compare a.nanos b.nanos))

/-- The instant some seconds earlier, for less than a day in either direction. -/
def earlier? (t : Instant) (seconds : Int) : Option Instant :=
  let second := (t.second : Int) - seconds
  if second < 0 then t.date.previous?.bind fun date => of? date (second + 86400).toNat t.nanos
  else if 86400 ≤ second then t.date.next?.bind fun date => of? date (second - 86400).toNat t.nanos
  else of? t.date second.toNat t.nanos

/-! ## Counting from 1970 -/

/-- The seconds from the start of 1970 to an instant, leap seconds not counted. -/
def unixSeconds (t : Instant) : Int := t.date.dayNumber * 86400 + t.second

/-- The instant some milliseconds after the start of 1970, if the calendar has it. -/
def ofUnixMillis? (millis : Int) : Option Instant := do
  let date ← Date.ofDayNumber? (millis / 86400000)
  let rest := (millis % 86400000).toNat
  of? date (rest / 1000) (rest % 1000 * 1000000)

example : (ofUnixMillis? (-1)).map (·.second) = some 86399 := by decide
example : ((ofUnixMillis? 951868800000).bind (·.earlier? 1)).map (·.date.day) = some 29 := by decide

end Instant

end OData

import OData.Calendar.Instant
import OData.Number.Decimal
import OData.Text.Blank

/-!
# Timestamps

Instants are written in one form, `YYYY-MM-DDTHH:MM:SS.mmmZ`, and read from
four.  The first is the strict form of internet timestamps, with an offset.
The others have no offset and are in universal time: a date and a time with
seconds, a date and a time without, and a date.  Those three are lenient: white
space may stand before each number, a number may have fewer digits than its
place, and a year may have a sign and then any number of digits.

A fraction of a second may have any number of digits, of which nine count.

The forms belong to the calendar library, `chrono`, and what they take is taken
from its documentation.  The first form is its one of RFC 3339, the others are
`%Y-%m-%dT%H:%M:%S%.f`, `%Y-%m-%dT%H:%M` and `%Y-%m-%d`.  So is that the written
form drops what is less than a millisecond, and that a leap second is written as
the second `60`.
-/

namespace OData.Timestamp

/-! ## Parts of a text -/

/-- A reader of the start of a text, which gives what it read and leaves the rest. -/
abbrev Scan := StateT (List Char) Option

/-- A run of digits of at least and at most some length. -/
def digits (least most : Nat) : Scan Nat := fun cs =>
  let run := (cs.take most).takeWhile Char.isDigit
  if run.length < least then none else some (Decimal.digitsValue run, cs.drop run.length)

/-- One of some characters. -/
def mark (allowed : List Char) : Scan Unit
  | c :: cs => if c ∈ allowed then some ((), cs) else none
  | [] => none

/-- The end of the text. -/
def atEnd : Scan Unit := fun cs => if cs.isEmpty then some ((), cs) else none

/-- A fraction of a second in nanoseconds.  It needs a digit, and digits behind the ninth are dropped. -/
def fraction : Scan Nat
  | '.' :: cs =>
    let (run, rest) := cs.span Char.isDigit
    let kept := run.take 9
    if run.isEmpty then none
    else some (Decimal.digitsValue kept * Nat.pow 10 (9 - kept.length), rest)
  | cs => some (0, cs)

/-! ## The form with an offset -/

/-- An offset from universal time in seconds, of less than a day. -/
def offset : Scan Int := do
  match ← get with
  | 'Z' :: cs | 'z' :: cs => set cs; return 0
  | sign :: cs =>
    set cs
    guard (sign = '+' || sign = '-' || sign = '\u2212')
    let hours ← digits 2 2
    mark [':']
    let minutes ← digits 2 2
    guard (minutes < 60 && hours < 24)
    let seconds : Int := hours * 3600 + minutes * 60
    return if sign = '+' then seconds else -seconds
  | [] => failure

/-- A date and a time with an offset. -/
def withOffset : Scan Instant := do
  let year ← digits 4 4
  mark ['-']
  let month ← digits 2 2
  mark ['-']
  let day ← digits 2 2
  mark ['T', 't', ' ']
  let hour ← digits 2 2
  mark [':']
  let minute ← digits 2 2
  mark [':']
  let second ← digits 2 2
  let nanos ← fraction
  let seconds ← offset
  atEnd
  let date ← Date.of? year month day
  let wall ← Instant.atTime? date hour minute second nanos
  wall.earlier? seconds

/-! ## The forms without an offset -/

/-- A number of one digit or more, at most some, behind white space. -/
def field (most : Nat) : Scan Nat := do
  modify Text.trimStart
  digits 1 most

/-- A year behind white space: four digits at most, or a sign and any number of digits. -/
def year : Scan Int := do
  modify Text.trimStart
  match ← get with
  | '-' :: cs => set cs; return -((← digits 1 cs.length) : Int)
  | '+' :: cs => set cs; digits 1 cs.length
  | _ => digits 1 4

/-- A date. -/
def date : Scan Date := do
  let year ← year
  mark ['-']
  let month ← field 2
  mark ['-']
  let day ← field 2
  Date.of? year month day

/-- A date and a time with seconds. -/
def toSeconds : Scan Instant := do
  let date ← date
  mark ['T']
  let hour ← field 2
  mark [':']
  let minute ← field 2
  mark [':']
  let second ← field 2
  let nanos ← fraction
  atEnd
  Instant.atTime? date hour minute second nanos

/-- A date and a time without seconds. -/
def toMinutes : Scan Instant := do
  let date ← date
  mark ['T']
  let hour ← field 2
  mark [':']
  let minute ← field 2
  atEnd
  Instant.atTime? date hour minute 0 0

/-- A date, which stands for its midnight. -/
def dateOnly : Scan Instant := do
  let date ← date
  atEnd
  return .midnight date

/-- The instant that a text writes, white space around it aside. -/
def read? (text : List Char) : Option Instant :=
  let text := Text.trim text
  (withOffset.run' text <|> toSeconds.run' text) <|> (toMinutes.run' text <|> dateOnly.run' text)

/-! ## Writing -/

/-- A number with zeros before it up to a width. -/
def padded (width n : Nat) : List Char :=
  let digits := Nat.toDigits 10 n
  List.replicate (width - digits.length) '0' ++ digits

/-- A year, with a sign when it does not have four digits. -/
def writeYear (year : Int) : List Char :=
  let digits := padded 4 year.natAbs
  if year < 0 then '-' :: digits
  else if 9999 < year then '+' :: digits
  else digits

/-- An instant as text, its nanoseconds cut to milliseconds. -/
def write (t : Instant) : List Char :=
  let leapSecond := t.nanos / 1000000000
  let millis := t.nanos % 1000000000 / 1000000
  writeYear t.date.year ++ '-' :: (padded 2 t.date.month ++ '-' :: (padded 2 t.date.day ++
    'T' :: (padded 2 t.hour ++ ':' :: (padded 2 t.minute ++
      ':' :: (padded 2 (t.secondOfMinute + leapSecond) ++ '.' :: (padded 3 millis ++ ['Z']))))))

/-- An instant as a string. -/
def toText (t : Instant) : String := String.ofList (write t)

/-- The greatest timestamp of four digits for the year. -/
def greatest : String := "9999-12-31T23:59:59.999Z"

/-- The least timestamp of four digits for the year, year zero aside. -/
def least : String := "0001-01-01T00:00:00.000Z"

end OData.Timestamp

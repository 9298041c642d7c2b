import OData.Filter.Evaluation
import OData.Config
import OData.Text.Case
import OData.Text.Pieces

/-!
# The functions of filters

The functions on text take the text of any operand.  Positions and lengths
count characters.  The functions on dates give zero for what is no instant, and
those on numbers give zero for what is no number.  A missing argument counts as
absent, except that the functions which look for one text in another fail
without two arguments.

The time of `now` is an argument of the table.
-/

namespace OData.Filter.Builtin

/-! ## Arguments -/

/-- The argument at a place, absent if missing. -/
def arg (args : List Operand) (place : Nat) : Operand := args[place]?.getD .absent

/-- The text of the argument at a place. -/
def argText (args : List Operand) (place : Nat) : List Char := (arg args place).text

/-- A text as a string. -/
def ofText (cs : List Char) : Operand := .string (String.ofList cs)

/-- A count as a number.  Counts stay at the greatest of 32 bits. -/
def ofCount (n : Nat) : Operand := .number (.ofNat (min n 0xffffffff))

/-- A number as a position: nothing below zero, and nothing behind the point. -/
def toPosition (x : Binary64) : Nat := x.toNatWithin greatestSize

/-- The position that an operand gives, zero if it is no number. -/
def position (operand : Operand) : Nat := (operand.number?.map toPosition).getD 0

/-! ## Text -/

/-- A test of two texts, false without both. -/
def textTest (test : List Char → List Char → Bool) : Function := fun args =>
  .bool (2 ≤ args.length && test (argText args 0) (argText args 1))

/-- Whether the second text stands in the first. -/
def contains : Function := textTest fun text needle => Text.occurs needle text

/-- Whether the first text starts with the second. -/
def startswith : Function := textTest fun text needle => needle.isPrefixOf text

/-- Whether the first text ends with the second. -/
def endswith : Function := textTest fun text needle => needle.isSuffixOf text

/-- The number of characters of a text. -/
def length : Function := fun args => ofCount (argText args 0).length

/-- A text in small letters. -/
def tolower : Function := fun args => ofText (Text.toLower (argText args 0))

/-- A text in capital letters. -/
def toupper : Function := fun args => ofText (Text.toUpper (argText args 0))

/-- A text without the white space around it. -/
def trim : Function := fun args => ofText (Text.trim (argText args 0))

/-- The part of a text from a position on, of some length if there is a third argument. -/
def substring : Function := fun args =>
  let tail := (argText args 0).drop (position (arg args 1))
  ofText (match args[2]? with
    | some length => tail.take (position length)
    | none => tail)

/-- The position of the second text in the first, minus one if it is not there. -/
def indexof : Function := fun args =>
  if args.length < 2 then .number (.ofInt (-1))
  else match Text.find? (argText args 1) (argText args 0) with
    | some place => ofCount place
    | none => .number (.ofInt (-1))

/-- All texts in a row. -/
def concat : Function := fun args => ofText (args.flatMap Operand.text)

/-! ## Dates -/

/-- A part of an instant as a number, zero without an instant. -/
def instantPart (part : Instant → Int) : Function := fun args =>
  .number (.ofInt (((arg args 0).instant?.map part).getD 0))

/-- The year of an instant. -/
def year : Function := instantPart fun t => t.date.year

/-- The month of an instant. -/
def month : Function := instantPart fun t => t.date.month

/-- The day of the month of an instant. -/
def day : Function := instantPart fun t => t.date.day

/-- The hour of an instant. -/
def hour : Function := instantPart fun t => t.hour

/-- The minute of an instant. -/
def minute : Function := instantPart fun t => t.minute

/-- The second of an instant. -/
def second : Function := instantPart fun t => t.secondOfMinute

/-- The time at which the table was made. -/
def now (time : Instant) : Function := fun _ => .string (Timestamp.toText time)

/-- The greatest timestamp. -/
def maxdatetime : Function := fun _ => .string Timestamp.greatest

/-- The least timestamp. -/
def mindatetime : Function := fun _ => .string Timestamp.least

/-! ## Numbers -/

/-- A function of one number, zero without a number. -/
def ofNumber (f : Binary64 → Binary64) : Function := fun args =>
  .number (((arg args 0).number?.map f).getD .zero)

/-- The nearest whole number. -/
def round : Function := ofNumber Binary64.round

/-- The whole number below. -/
def floor : Function := ofNumber Binary64.floor

/-- The whole number above. -/
def ceiling : Function := ofNumber Binary64.ceiling

end OData.Filter.Builtin

namespace OData.Filter

/-! ## The table -/

/-- The functions that every filter may call, at some time. -/
def FunctionTable.builtin (time : Instant) : FunctionTable :=
  .registerAll .empty [
    ("contains", Builtin.contains), ("startswith", Builtin.startswith),
    ("endswith", Builtin.endswith), ("length", Builtin.length), ("tolower", Builtin.tolower),
    ("toupper", Builtin.toupper), ("trim", Builtin.trim), ("substring", Builtin.substring),
    ("indexof", Builtin.indexof), ("concat", Builtin.concat), ("year", Builtin.year),
    ("month", Builtin.month), ("day", Builtin.day), ("hour", Builtin.hour),
    ("minute", Builtin.minute), ("second", Builtin.second), ("round", Builtin.round),
    ("floor", Builtin.floor), ("ceiling", Builtin.ceiling), ("now", Builtin.now time),
    ("maxdatetime", Builtin.maxdatetime), ("mindatetime", Builtin.mindatetime)]

end OData.Filter

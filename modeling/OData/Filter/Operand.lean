import OData.Calendar.Timestamp
import OData.Filter.Expr
import OData.Json.Printer
import OData.Number.Rounding

/-!
# Operands

The values that an expression has while a filter runs.  A path that leads
nowhere is absent, which counts as null.  Arrays and objects are kept as they
stand in the record.

Every operand has a truth value and a text.  A number is read from numbers and
from strings that write a finite one.  An instant is read from instants, from
strings that write one, and from numbers as milliseconds since the start of
1970.

Two operands of one kind have their natural order: truth values with false
first, numbers by value, strings by code points, instants by time.  A string
beside an instant is read as an instant.  All other pairs have no order, and
neither has a pair with a number that is not one.  Equality follows that order,
with two additions.  Null and absent equal each other and nothing else, and
arrays and objects are equal when they are at every depth.  The four other
comparisons hold only of operands that have an order.
-/

namespace OData.Filter

/-- The value of an expression. -/
inductive Operand where
  /-- What a path that leads nowhere gives. -/
  | absent
  /-- The null value. -/
  | null
  /-- A truth value. -/
  | bool (b : Bool)
  /-- A number. -/
  | number (x : Binary64)
  /-- A string. -/
  | string (s : String)
  /-- An instant. -/
  | instant (t : Instant)
  /-- An array or an object. -/
  | structured (v : Json)

namespace Operand

/-! ## From values -/

/-- The operand of a value in a record. -/
def ofJson : Json → Operand
  | .null => .null
  | .bool b => .bool b
  | .number n => .number n.value
  | .string s => .string s
  | .array items => .structured (.array items)
  | .object members => .structured (.object members)

/-- The operand of a literal. -/
def ofLiteral : Literal → Operand
  | .null => .null
  | .bool b => .bool b
  | .number x => .number x
  | .string s => .string s
  | .instant t => .instant t

/-! ## Readings -/

/-- Whether an operand is null or absent. -/
def isNullish : Operand → Bool
  | .absent | .null => true
  | _ => false

/-- Whether an operand counts as true.  Null, false, zero, NaN and the empty string do not. -/
def truthy : Operand → Bool
  | .absent | .null => false
  | .bool b => b
  | .number x => !x.isZero && !x.isNaN
  | .string s => !s.isEmpty
  | .instant _ | .structured _ => true

/-- The text of an operand. -/
def text : Operand → List Char
  | .absent | .null => []
  | .bool true => ['t', 'r', 'u', 'e']
  | .bool false => ['f', 'a', 'l', 's', 'e']
  | .number x => x.write .plain
  | .string s => s.toList
  | .instant t => Timestamp.write t
  | .structured v => v.write

/-- The number of an operand. -/
def number? : Operand → Option Binary64
  | .number x => some x
  | .string s => (Binary64.read? (Text.trim s.toList)).filter Binary64.isFinite
  | _ => none

/-- The instant some milliseconds after the start of 1970. -/
def instantOfMillis? (millis : Binary64) : Option Instant :=
  if millis.isFinite then Instant.ofUnixMillis? (millis.toIntWithin (-0x8000000000000000) 0x7fffffffffffffff)
  else none

/-- The instant of an operand. -/
def instant? : Operand → Option Instant
  | .instant t => some t
  | .string s => Timestamp.read? s.toList
  | .number x => instantOfMillis? x
  | _ => none

end Operand

/-! ## Comparing -/

/-- The order of two operands, if they have one. -/
def naturalOrder? : Operand → Operand → Option Ordering
  | .bool a, .bool b => some (compare a b)
  | .number x, .number y => x.compare? y
  | .string s, .string t => some (compare s t)
  | .instant a, .instant b => some (a.compare b)
  | .instant a, .string s => (Timestamp.read? s.toList).map fun b => a.compare b
  | .string s, .instant b => (Timestamp.read? s.toList).map fun a => a.compare b
  | _, _ => none

/-- Whether two operands are equal. -/
def equal (a b : Operand) : Bool :=
  if a.isNullish || b.isNullish then a.isNullish && b.isNullish
  else match a, b with
    | .structured x, .structured y => x.equal y
    | a, b => naturalOrder? a b == some .eq

/-- Whether a comparison holds of two operands. -/
def Comparison.holds (op : Comparison) (a b : Operand) : Bool :=
  match op with
  | .eq => equal a b
  | .ne => !equal a b
  | .gt => naturalOrder? a b == some .gt
  | .ge => naturalOrder? a b == some .gt || naturalOrder? a b == some .eq
  | .lt => naturalOrder? a b == some .lt
  | .le => naturalOrder? a b == some .lt || naturalOrder? a b == some .eq

end OData.Filter

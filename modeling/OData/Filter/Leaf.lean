import OData.Calendar.Timestamp
import OData.Filter.Expr

/-!
# Words as leaves

A word of a filter that is neither a keyword nor the name of a function is a
leaf.  Three words are literals by name.  A word that starts like a number is a
finite number if it reads as one, and else a timestamp if it reads as one.
Every other word is a property path.
-/

namespace OData.Filter

/-- The words that are never values. -/
def keywords : List String := ["and", "or", "not", "in", "eq", "ne", "gt", "ge", "lt", "le"]

/-- Whether a word is a keyword. -/
def isKeyword (w : String) : Bool := keywords.contains w

/-- Whether a word may name a function: ASCII letters, digits, underscores and points only. -/
def isFunctionName (w : String) : Bool :=
  w.toList.all fun c => c.isAlphanum || c = '_' || c = '.'

/-- Whether a word starts like a number: with a digit, a sign or a point. -/
def startsNumber : List Char → Bool
  | [] => false
  | c :: _ => c.isDigit || c = '+' || c = '-' || c = '.'

/-- The finite number that a word writes. -/
def finiteNumber? (cs : List Char) : Option Binary64 :=
  (Binary64.read? cs).filter Binary64.isFinite

/-- The literal that a word writes, if it does not name a property. -/
def literal? (w : String) : Option Literal :=
  if w = "null" then some .null
  else if w = "true" then some (.bool true)
  else if w = "false" then some (.bool false)
  else if startsNumber w.toList then
    (finiteNumber? w.toList).map Literal.number <|> (Timestamp.read? w.toList).map Literal.instant
  else none

/-- The leaf that a word writes. -/
def leaf (w : String) : Expr :=
  match literal? w with
  | some value => .literal value
  | none => .property (.ofText w)

end OData.Filter

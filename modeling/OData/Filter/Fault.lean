import OData.Filter.Token

/-!
# Faults of a filter

A filter is refused for one of the causes below.  Each has one wording, and a
token that stands where it should not is named in it.
-/

namespace OData.Filter

/-- A token as faults name it. -/
def Token.describe : Token → String
  | .opening => "'('"
  | .closing => "')'"
  | .comma => "','"
  | .quoted content => "string literal '" ++ content ++ "'"
  | .word w => "'" ++ w ++ "'"

/-- What was found in a place, which may be the end. -/
def describeFound : Option Token → String
  | some t => t.describe
  | none => "end of expression"

/-- Why a filter is refused. -/
inductive Fault where
  /-- The text is longer than allowed. -/
  | tooLong (limit : Nat)
  /-- A quoted text is not closed. -/
  | openQuote (position : Nat)
  /-- There is no token. -/
  | empty
  /-- Tokens follow the expression. -/
  | trailing (found : Token)
  /-- The expression is nested deeper than allowed. -/
  | tooDeep (limit : Nat)
  /-- The expression has more nodes than allowed. -/
  | tooManyNodes (count limit : Nat)
  /-- A comparison follows a comparison. -/
  | chained (first second : String)
  /-- A keyword stands in place of a value. -/
  | keywordOperand (keyword : String)
  /-- Something else stands in place of a value. -/
  | noOperand (found : Option Token)
  /-- A group is not closed where it should be. -/
  | noClosing (found : Option Token)
  /-- No parenthesis follows `in`. -/
  | noListOpening (found : Option Token)
  /-- Something other than a comma or the end follows an item. -/
  | strayInList (found : Token)
  /-- The list of an `in` is not closed. -/
  | openList
  /-- Something other than a comma or the end follows an argument. -/
  | strayInCall (name : String) (found : Token)
  /-- A call is not closed. -/
  | openCall (name : String)
deriving DecidableEq, Repr

namespace Fault

/-- The wording of a fault. -/
def message : Fault → String
  | .tooLong limit => s!"Filter expression exceeds maximum length of {limit} characters"
  | .openQuote position => s!"unterminated string literal starting at position {position}"
  | .empty => "empty expression"
  | .trailing found => "unexpected " ++ found.describe ++ " after end of expression"
  | .tooDeep limit => s!"expression nesting exceeds maximum depth of {limit}"
  | .tooManyNodes count limit => s!"Filter too complex: {count} nodes (max: {limit})"
  | .chained first second =>
    "comparison operators cannot be chained ('" ++ first ++ "' followed by '" ++ second ++ "')"
  | .keywordOperand keyword => "expected an operand, found keyword '" ++ keyword ++ "'"
  | .noOperand found => "expected an operand, found " ++ describeFound found
  | .noClosing found => "expected ')', found " ++ describeFound found
  | .noListOpening found => "expected '(' after 'in', found " ++ describeFound found
  | .strayInList found => "expected ',' or ')' in 'in' list, found " ++ found.describe
  | .openList => "unbalanced parentheses: 'in' list is not closed"
  | .strayInCall name found =>
    "expected ',' or ')' in arguments of '" ++ name ++ "', found " ++ found.describe
  | .openCall name => "unbalanced parentheses: call to '" ++ name ++ "' is not closed"

/-- The wording of a fault for the client. -/
def display (fault : Fault) : String := "invalid $filter: " ++ fault.message

end Fault

end OData.Filter

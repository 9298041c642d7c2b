import OData.Calendar.Timestamp
import OData.Filter.Expr
import OData.Number.Layout

/-!
# Filters as text

An expression is written so that it reads back as the same tree.  A connective
puts parentheses around its sides that are conjunctions or disjunctions, and a
comparison or a membership around everything that is no leaf or call.  The
arguments of a call need none.
-/

namespace OData.Filter

/-- A literal as text. -/
def Literal.write : Literal → List Char
  | .null => ['n', 'u', 'l', 'l']
  | .bool true => ['t', 'r', 'u', 'e']
  | .bool false => ['f', 'a', 'l', 's', 'e']
  | .number x => x.write .plain
  | .string s => '\'' :: (s.toList ++ ['\''])
  | .instant t => Timestamp.write t

/-- Texts with a comma and a blank between them. -/
def separated : List (List Char) → List Char := List.intercalate [',', ' ']

/-- A text in parentheses. -/
def grouped (cs : List Char) : List Char := '(' :: (cs ++ [')'])

/-- A keyword with a blank on each side. -/
def between (keyword : String) : List Char := ' ' :: (keyword.toList ++ [' '])

namespace Expr

/-- Whether an expression is a conjunction or a disjunction. -/
def isLogical : Expr → Bool
  | .and .. | .or .. => true
  | _ => false

/-- Whether an expression may stand beside a comparison without parentheses. -/
def isOperand : Expr → Bool
  | .property _ | .literal _ | .call .. => true
  | _ => false

/-- The text of an expression as a side of a connective. -/
def asTerm (e : Expr) (text : List Char) : List Char := if e.isLogical then grouped text else text

/-- The text of an expression as a side of a comparison. -/
def asOperand (e : Expr) (text : List Char) : List Char := if e.isOperand then text else grouped text

mutual
/-- An expression as text. -/
def write : Expr → List Char
  | .and l r => l.asTerm l.write ++ between "and" ++ r.asTerm r.write
  | .or l r => l.asTerm l.write ++ between "or" ++ r.asTerm r.write
  | .not e => ['n', 'o', 't', ' '] ++ e.asTerm e.write
  | .compare l op r => l.asOperand l.write ++ between op.keyword ++ r.asOperand r.write
  | .isIn e items => e.asOperand e.write ++ between "in" ++ grouped (separated (writeItems items))
  | .call name args => name.toList ++ grouped (separated (writeArgs args))
  | .property path => path.toText.toList
  | .literal value => value.write

/-- The items of a list, each as a side of a comparison. -/
def writeItems : List Expr → List (List Char)
  | [] => []
  | e :: es => e.asOperand e.write :: writeItems es

/-- The arguments of a call. -/
def writeArgs : List Expr → List (List Char)
  | [] => []
  | e :: es => e.write :: writeArgs es
end

/-- An expression as a string. -/
def toText (e : Expr) : String := String.ofList e.write

end Expr

end OData.Filter

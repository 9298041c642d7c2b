import OData.Calendar.Instant
import OData.Json.Basic
import OData.Text.Pieces

/-!
# Filter expressions

A filter is a tree.  Its leaves are literals and property paths.  Above them
stand calls of functions, comparisons, memberships in a list, and the three
logical connectives.

The size of a tree is its number of nodes, where the items of a list and the
arguments of a call are nodes beside their parent.  The height counts a leaf
as one.
-/

namespace OData.Filter

/-! ## Leaves -/

/-- A value written in a filter. -/
inductive Literal where
  /-- The literal `null`. -/
  | null
  /-- A truth value. -/
  | bool (b : Bool)
  /-- A number. -/
  | number (x : Binary64)
  /-- A quoted text, with its quotes inside still doubled. -/
  | string (s : String)
  /-- A date or a date and time. -/
  | instant (t : Instant)
deriving DecidableEq

/-- The names that lead from a record to a value in it. -/
structure PropertyPath where
  /-- The names, outermost first. -/
  segments : List String
deriving DecidableEq, Repr

namespace PropertyPath

/-- The path written with slashes between its names. -/
def ofText (text : String) : PropertyPath := ⟨(Text.pieces '/' text.toList).map String.ofList⟩

/-- A path as text. -/
def toText (path : PropertyPath) : String := "/".intercalate path.segments

/-- What the names lead to, if every value on the way is an object that has the next one. -/
def resolveFrom : List String → Json → Option Json
  | [], v => some v
  | key :: keys, v => (v.member? key).bind (resolveFrom keys)

/-- What a path leads to in a record. -/
def resolve (path : PropertyPath) (record : Json) : Option Json := resolveFrom path.segments record

end PropertyPath

/-- How two values are compared. -/
inductive Comparison where
  /-- Equal. -/
  | eq
  /-- Not equal. -/
  | ne
  /-- Greater. -/
  | gt
  /-- Greater or equal. -/
  | ge
  /-- Less. -/
  | lt
  /-- Less or equal. -/
  | le
deriving DecidableEq, Repr

namespace Comparison

/-- All comparisons. -/
def all : List Comparison := [.eq, .ne, .gt, .ge, .lt, .le]

/-- The keyword of a comparison. -/
def keyword : Comparison → String
  | .eq => "eq"
  | .ne => "ne"
  | .gt => "gt"
  | .ge => "ge"
  | .lt => "lt"
  | .le => "le"

/-- The comparison of a keyword. -/
def ofKeyword? (w : String) : Option Comparison := all.find? fun op => op.keyword = w

/-- A comparison is found by its keyword. -/
theorem ofKeyword?_keyword (op : Comparison) : ofKeyword? op.keyword = some op := by
  cases op <;> decide

end Comparison

/-! ## Trees -/

/-- A filter expression. -/
inductive Expr where
  /-- Both hold. -/
  | and (left right : Expr)
  /-- One of them holds. -/
  | or (left right : Expr)
  /-- The expression does not hold. -/
  | not (inner : Expr)
  /-- Two values compared. -/
  | compare (left : Expr) (op : Comparison) (right : Expr)
  /-- A value that equals one of a list. -/
  | isIn (value : Expr) (items : List Expr)
  /-- A function called. -/
  | call (name : String) (args : List Expr)
  /-- A property of the record. -/
  | property (path : PropertyPath)
  /-- A value written out. -/
  | literal (value : Literal)

namespace Expr

instance : Inhabited Expr := ⟨.literal .null⟩

mutual
/-- The number of nodes. -/
def size : Expr → Nat
  | .and l r | .or l r | .compare l _ r => 1 + l.size + r.size
  | .not e => 1 + e.size
  | .isIn e items => 1 + e.size + sizeAll items
  | .call _ args => 1 + sizeAll args
  | .property _ | .literal _ => 1

/-- The number of nodes of some expressions. -/
def sizeAll : List Expr → Nat
  | [] => 0
  | e :: es => e.size + sizeAll es
end

mutual
/-- The number of nodes on the longest way down. -/
def height : Expr → Nat
  | .and l r | .or l r | .compare l _ r => 1 + max l.height r.height
  | .not e => 1 + e.height
  | .isIn e items => 1 + max e.height (heightAll items)
  | .call _ args => 1 + heightAll args
  | .property _ | .literal _ => 1

/-- The greatest height of some expressions. -/
def heightAll : List Expr → Nat
  | [] => 0
  | e :: es => max e.height (heightAll es)
end

end Expr

/-! ## Sameness -/

/-- Whether two literals have one value.  A number that is NaN has none. -/
def Literal.same : Literal → Literal → Bool
  | .number x, .number y => x.equal y
  | a, b => a = b

namespace Expr

mutual
/-- Whether two trees have one shape and the same leaves. -/
def same : Expr → Expr → Bool
  | .and a b, .and c d => same a c && same b d
  | .or a b, .or c d => same a c && same b d
  | .not a, .not b => same a b
  | .compare a op b, .compare c op' d => op = op' && same a c && same b d
  | .isIn a as, .isIn b bs => same a b && sameAll as bs
  | .call f as, .call g bs => f = g && sameAll as bs
  | .property p, .property q => p = q
  | .literal v, .literal w => v.same w
  | _, _ => false

/-- Whether two lists of trees agree place by place. -/
def sameAll : List Expr → List Expr → Bool
  | [], [] => true
  | a :: as, b :: bs => same a b && sameAll as bs
  | _, _ => false
end

end Expr

end OData.Filter

import OData.Filter.Parser

/-!
# Parsing a filter with counters

The parser of `OData.Filter.Parser` is built level by level.  The parser here
has the same grammar and one level only: it walks over the tokens with two
counters, the place of the next token and the depth.

The depth is raised by one for whatever goes one level deeper, and lowered again
behind it.  A chain groups to the right, so every further member of it raises
the depth by one, and all of that is lowered at once when the chain ends.

The depth is a size, so it cannot be raised beyond the greatest one.  Then the
parser breaks off or the depth starts again at zero (`Overflow`).

Nothing in the definitions says that the walk ends, so a run may have no outcome
at all.  `OData.Proofs.Balance` proves that it has one, that it is the one of
the parser by levels, and that the depth is lowered by what it was raised.
-/

namespace OData.Filter

/-- What becomes of a counter that is raised beyond the greatest size. -/
inductive Overflow where
  /-- The parser breaks off. -/
  | panics
  /-- The counter starts again at zero. -/
  | wraps
deriving DecidableEq, Repr

/-- A parser that walks over tokens: what stays the same on its way. -/
structure Walker where
  /-- The tokens. -/
  tokens : List Token
  /-- Their number is a size. -/
  tokens_le : tokens.length ≤ greatestSize := by decide
  /-- The deepest level. -/
  limit : Nat
  /-- The deepest level is a size. -/
  limit_le : limit ≤ greatestSize := by decide
  /-- What becomes of the depth beyond the greatest size. -/
  overflow : Overflow
  /-- A depth lowered by some levels, which is a difference that is never below zero. -/
  lower : Nat → Nat → Nat := fun depth levels => depth - levels
  /-- Lowering undoes raising.  What becomes of a lesser depth is left open here, since it does not matter. -/
  lower_add : ∀ depth levels, lower (depth + levels) levels = depth := by
    exact Nat.add_sub_cancel

namespace Walker

/-! ## Runs -/

/-- Where a parser stands. -/
structure Cursor where
  /-- The place of the next token. -/
  pos : Nat
  /-- The number of levels that have been entered and not been left. -/
  depth : Nat
deriving DecidableEq, Repr

/-- Why a parser gives no value. -/
inductive Stop where
  /-- The tokens are refused. -/
  | fault (fault : Fault)
  /-- The depth was raised beyond the greatest size. -/
  | overflow

/-- A part of the parser moves the cursor and gives a value or stops, if it ends. -/
abbrev Run (α : Type) := StateT Cursor (ExceptT Stop Option) α

/-- The outcome of a part of the parser from a cursor.  There is none if it does not end. -/
def run {α : Type} (part : Run α) (c : Cursor) : Option (Except Stop (α × Cursor)) :=
  (StateT.run part c).run

section Steps

variable (s : Walker)

/-- Refuses the tokens. -/
def refuse {α : Type} (fault : Fault) : Run α := throw (.fault fault)

/-- The next token, which is left where it is. -/
def peek : Run (Option Token) := do return s.tokens[(← get).pos]?

/-- The next token, which is read. -/
def advance : Run (Option Token) := do
  let found ← peek s
  if found.isSome then modify fun c => { c with pos := c.pos + 1 }
  return found

/-- Reads a keyword, if it is next. -/
def eatWord (keyword : String) : Run Bool := do
  if (← peek s) = some (.word keyword) then
    modify fun c => { c with pos := c.pos + 1 }
    return true
  else return false

/-- Reads a token that has to be next. -/
def expect (expected : Token) (fault : Option Token → Fault) : Run Unit := do
  let found ← advance s
  if found = some expected then return () else refuse (fault found)

/-- The depth raised by one. -/
def raised (depth : Nat) : Run Nat :=
  if depth < greatestSize then return depth + 1
  else match s.overflow with
    | .panics => throw .overflow
    | .wraps => return 0

/-- Goes one level deeper. -/
def enter : Run Unit := do
  let depth ← raised s (← get).depth
  modify fun c => { c with depth := depth }
  if s.limit < depth then refuse (.tooDeep s.limit)

/-- Comes back from some levels. -/
def leave (levels : Nat) : Run Unit := modify fun c => { c with depth := s.lower c.depth levels }

end Steps

/-! ## Chains and lists -/

/-- What joins the members of a chain. -/
inductive Connective where
  /-- The keyword `or`, between conjunctions. -/
  | or
  /-- The keyword `and`, between negations. -/
  | and
deriving DecidableEq, Repr

/-- The keyword of a connective. -/
def Connective.keyword : Connective → String
  | .or => "or"
  | .and => "and"

/-- Two expressions joined by a connective. -/
def Connective.join : Connective → Expr → Expr → Expr
  | .or => .or
  | .and => .and

/-- The members of a chain, grouped to the right. -/
def groupRight (join : Expr → Expr → Expr) (first : Expr) : List Expr → Expr
  | [] => first
  | next :: later => join first (groupRight join next later)

/-- What stands in parentheses with commas between its items. -/
inductive Listing where
  /-- The list behind an `in`. -/
  | list
  /-- The arguments of a call. -/
  | call (name : String)
deriving DecidableEq, Repr

/-- The fault of a token that neither goes on with a listing nor ends it. -/
def Listing.stray : Listing → Token → Fault
  | .list => .strayInList
  | .call name => .strayInCall name

/-- The fault of a listing without an end. -/
def Listing.unclosed : Listing → Fault
  | .list => .openList
  | .call name => .openCall name

/-! ## The parser -/

mutual
/-- A chain: its first member and all others.  The others are counted, so that the depth can be lowered. -/
def chain (s : Walker) (k : Connective) : Run Expr := do
  let first ← s |>.member k
  let later ← s |>.others k
  leave s later.length
  return groupRight k.join first later
partial_fixpoint

/-- A member of a chain. -/
def member (s : Walker) : Connective → Run Expr
  | .or => s |>.chain .and
  | .and => s |>.negation
partial_fixpoint

/-- The members of a chain behind the first one, each behind its keyword and one level deeper. -/
def others (s : Walker) (k : Connective) : Run (List Expr) := do
  if ← eatWord s k.keyword then
    enter s
    let next ← s |>.member k
    let later ← s |>.others k
    return next :: later
  else return []
partial_fixpoint

/-- A comparison, or a negation of what follows `not`. -/
def negation (s : Walker) : Run Expr := do
  if ← eatWord s "not" then
    enter s
    let inner ← s |>.negation
    leave s 1
    return .not inner
  else s |>.comparison
partial_fixpoint

/-- An operand, or a comparison or membership that begins with one. -/
def comparison (s : Walker) : Run Expr := do
  let left ← s |>.operand
  match ← peek s with
  | some (.word w) =>
    match Comparison.ofKeyword? w with
    | some op =>
      let _ ← advance s
      let right ← s |>.rightSide op
      return .compare left op right
    | none =>
      if w = "in" then
        let _ ← advance s
        let listed ← s |>.inList
        return .isIn left listed
      else return left
  | _ => return left
partial_fixpoint

/-- The right side of a comparison, which no other comparison may follow. -/
def rightSide (s : Walker) (op : Comparison) : Run Expr := do
  let right ← s |>.operand
  match ← peek s with
  | some (.word next) =>
    if continuesComparison next then refuse (.chained op.keyword next) else return right
  | _ => return right
partial_fixpoint

/-- The list behind an `in`. -/
def inList (s : Walker) : Run (List Expr) := do
  expect s .opening .noListOpening
  s |>.items .list
partial_fixpoint

/-- The items of a listing, up to and with the closing parenthesis. -/
def items (s : Walker) (k : Listing) : Run (List Expr) := do
  let first ← s |>.item k
  match ← advance s with
  | some .comma =>
    let later ← s |>.items k
    return first :: later
  | some .closing => return [first]
  | some found => refuse (k.stray found)
  | none => refuse k.unclosed
partial_fixpoint

/-- An item of a listing. -/
def item (s : Walker) : Listing → Run Expr
  | .list => s |>.operand
  | .call _ => s |>.chain .or
partial_fixpoint

/-- A group, a call, a quoted text or another word. -/
def operand (s : Walker) : Run Expr := do
  match ← advance s with
  | some .opening => s |>.group
  | some (.quoted content) => return .literal (.string content)
  | some (.word w) => s |>.word w
  | found => refuse (.noOperand found)
partial_fixpoint

/-- A group whose opening parenthesis has been read. -/
def group (s : Walker) : Run Expr := do
  enter s
  let inner ← s |>.chain .or
  expect s .closing .noClosing
  leave s 1
  return inner
partial_fixpoint

/-- A call or a leaf whose first word has been read. -/
def word (s : Walker) (w : String) : Run Expr := do
  if isKeyword w then refuse (.keywordOperand w)
  else if (← peek s) = some .opening && isFunctionName w then
    let _ ← advance s
    s |>.call w
  else return leaf w
partial_fixpoint

/-- A call whose opening parenthesis has been read. -/
def call (s : Walker) (name : String) : Run Expr := do
  enter s
  let args ← s |>.arguments name
  leave s 1
  return .call name args
partial_fixpoint

/-- The arguments of a call and the parenthesis that closes it. -/
def arguments (s : Walker) (name : String) : Run (List Expr) := do
  if (← peek s) = some .closing then
    let _ ← advance s
    return []
  else s |>.items (.call name)
partial_fixpoint
end

end Walker

end OData.Filter

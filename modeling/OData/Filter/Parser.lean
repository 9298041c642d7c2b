import OData.Filter.Fault
import OData.Filter.Leaf
import OData.Config

/-!
# Parsing a filter

The grammar, lowest precedence first:

    disjunction := conjunction ( "or" disjunction )?
    conjunction := negation ( "and" conjunction )?
    negation    := "not" negation | comparison
    comparison  := operand ( op operand | "in" "(" operand ( "," operand )* ")" )?
    operand     := "(" disjunction ")" | name "(" ( disjunction ( "," disjunction )* )? ")"
                 | quoted text | word

Chains of one connective group to the right, and comparisons do not chain.

The parser is built level by level.  Whatever goes one level deeper, which is
a group, a call, a negation or the next member of a chain, uses the parser of
the level below (`Deeper`), and at the deepest level there is only a fault.  So
the recursion is on the depth that is left.  The one loop, over the members of
a list, ends because every parsed part leaves a shorter rest, which a `Parsed`
carries as a proof.
-/

namespace OData.Filter

/-! ## Results -/

/-- A value read from the start of some tokens, and the tokens after it. -/
structure Parsed (α : Type) (ts : List Token) where
  /-- The value. -/
  value : α
  /-- The tokens after it. -/
  rest : List Token
  /-- At least one token was read. -/
  shorter : rest.length < ts.length

/-- A parser reads a value from the start of some tokens. -/
abbrev Parser (α : Type) := (ts : List Token) → Except Fault (Parsed α ts)

/-- The three rules that the level above may ask for. -/
inductive Rule where
  /-- Expressions joined by `or`. -/
  | disjunction
  /-- Expressions joined by `and`. -/
  | conjunction
  /-- An expression behind any number of `not`. -/
  | negation
deriving DecidableEq, Repr

/-- The parser one level deeper, or the fault that there is no deeper level. -/
abbrev Deeper := Except Fault (Rule → Parser Expr)

/-! ## Lists -/

/-- Members with commas between them, up to and with the closing parenthesis. -/
def members (member : Parser Expr) (stray : Token → Fault) (unclosed : Fault) (ts : List Token) :
    Except Fault (Parsed (List Expr) ts) :=
  match member ts with
  | .error fault => .error fault
  | .ok ⟨_, [], _⟩ => .error unclosed
  | .ok ⟨e, .closing :: rest, h⟩ => .ok ⟨[e], rest, Nat.lt_of_succ_lt h⟩
  | .ok ⟨e, .comma :: rest, h⟩ =>
    match members member stray unclosed rest with
    | .error fault => .error fault
    | .ok ⟨es, rest', h'⟩ => .ok ⟨e :: es, rest', Nat.lt_trans h' (Nat.lt_of_succ_lt h)⟩
  | .ok ⟨_, t :: _, _⟩ => .error (stray t)
termination_by ts.length
decreasing_by exact Nat.lt_of_succ_lt h

/-! ## One level -/

/-- The arguments of a call and the parenthesis that closes it. -/
def arguments (deeper : Deeper) (name : String) (ts : List Token) :
    Except Fault (Parsed (List Expr) ts) :=
  match deeper with
  | .error fault => .error fault
  | .ok parser =>
    match ts with
    | .closing :: rest => .ok ⟨[], rest, Nat.lt_succ_self _⟩
    | ts => members (parser .disjunction) (.strayInCall name) (.openCall name) ts

/-- A group, a call, a quoted text or another word. -/
def operand (deeper : Deeper) : Parser Expr
  | .opening :: ts =>
    match deeper with
    | .error fault => .error fault
    | .ok parser =>
      match parser .disjunction ts with
      | .error fault => .error fault
      | .ok ⟨e, .closing :: rest, h⟩ =>
        .ok ⟨e, rest, Nat.lt_succ_of_lt (Nat.lt_of_succ_lt h)⟩
      | .ok ⟨_, rest, _⟩ => .error (.noClosing rest.head?)
  | .quoted content :: ts => .ok ⟨.literal (.string content), ts, Nat.lt_succ_self _⟩
  | .word w :: ts =>
    if isKeyword w then .error (.keywordOperand w)
    else if isFunctionName w then
      match ts with
      | .opening :: ts =>
        match arguments deeper w ts with
        | .error fault => .error fault
        | .ok ⟨args, rest, h⟩ => .ok ⟨.call w args, rest, Nat.lt_succ_of_lt (Nat.lt_succ_of_lt h)⟩
      | ts => .ok ⟨leaf w, ts, Nat.lt_succ_self _⟩
    else .ok ⟨leaf w, ts, Nat.lt_succ_self _⟩
  | ts => .error (.noOperand ts.head?)

/-- Whether a comparison or a membership begins with a word. -/
def continuesComparison (w : String) : Bool := (Comparison.ofKeyword? w).isSome || w = "in"

/-- The right side of a comparison, which no other comparison may follow. -/
def rightSide (deeper : Deeper) (op : Comparison) (ts : List Token) :
    Except Fault (Parsed Expr ts) :=
  match operand deeper ts with
  | .error fault => .error fault
  | .ok ⟨e, .word w :: rest, h⟩ =>
    if continuesComparison w then .error (.chained op.keyword w)
    else .ok ⟨e, .word w :: rest, h⟩
  | .ok p => .ok p

/-- The list behind an `in`. -/
def listItems (deeper : Deeper) : Parser (List Expr)
  | .opening :: ts =>
    match members (operand deeper) .strayInList .openList ts with
    | .error fault => .error fault
    | .ok ⟨items, rest, h⟩ => .ok ⟨items, rest, Nat.lt_succ_of_lt h⟩
  | ts => .error (.noListOpening ts.head?)

/-- An operand, or a comparison or membership that begins with one. -/
def comparison (deeper : Deeper) : Parser Expr := fun ts =>
  match operand deeper ts with
  | .error fault => .error fault
  | .ok ⟨l, .word w :: rest, h⟩ =>
    match Comparison.ofKeyword? w with
    | some op =>
      match rightSide deeper op rest with
      | .error fault => .error fault
      | .ok ⟨r, rest', h'⟩ => .ok ⟨.compare l op r, rest', Nat.lt_trans h' (Nat.lt_of_succ_lt h)⟩
    | none =>
      if w = "in" then
        match listItems deeper rest with
        | .error fault => .error fault
        | .ok ⟨items, rest', h'⟩ => .ok ⟨.isIn l items, rest', Nat.lt_trans h' (Nat.lt_of_succ_lt h)⟩
      else .ok ⟨l, .word w :: rest, h⟩
  | .ok p => .ok p

/-- A comparison, or a negation of what follows `not`. -/
def negation (deeper : Deeper) : Parser Expr
  | .word "not" :: ts =>
    match deeper with
    | .error fault => .error fault
    | .ok parser =>
      match parser .negation ts with
      | .error fault => .error fault
      | .ok ⟨e, rest, h⟩ => .ok ⟨.not e, rest, Nat.lt_succ_of_lt h⟩
  | ts => comparison deeper ts

/-- What a member of a chain begins, and the rest of the chain one level deeper if the keyword follows. -/
def chain (deeper : Deeper) (first : Parser Expr) (keyword : String) (join : Expr → Expr → Expr)
    (again : Rule) : Parser Expr := fun ts =>
  match first ts with
  | .error fault => .error fault
  | .ok ⟨l, .word w :: rest, h⟩ =>
    if w = keyword then
      match deeper with
      | .error fault => .error fault
      | .ok parser =>
        match parser again rest with
        | .error fault => .error fault
        | .ok ⟨r, rest', h'⟩ => .ok ⟨join l r, rest', Nat.lt_trans h' (Nat.lt_of_succ_lt h)⟩
    else .ok ⟨l, .word w :: rest, h⟩
  | .ok p => .ok p

/-- Negations joined by `and`. -/
def conjunction (deeper : Deeper) : Parser Expr :=
  chain deeper (negation deeper) "and" .and .conjunction

/-- Conjunctions joined by `or`. -/
def disjunction (deeper : Deeper) : Parser Expr :=
  chain deeper (conjunction deeper) "or" .or .disjunction

/-- The parser of a rule, given the parser one level deeper. -/
def atLevel (deeper : Deeper) : Rule → Parser Expr
  | .disjunction => disjunction deeper
  | .conjunction => conjunction deeper
  | .negation => negation deeper

/-! ## All levels -/

/-- The parser of a rule with some levels left below it.  The limit is named when none is left. -/
def parser (limit : Nat) : (levels : Nat) → Rule → Parser Expr
  | 0 => atLevel (.error (.tooDeep limit))
  | levels + 1 => atLevel (.ok (parser limit levels))

/-- The expression that all of some tokens make up. -/
def parseTokens (limit : Nat) (ts : List Token) : Except Fault Expr :=
  match ts with
  | [] => .error .empty
  | ts =>
    match parser limit limit .disjunction ts with
    | .error fault => .error fault
    | .ok ⟨e, [], _⟩ => .ok e
    | .ok ⟨_, t :: _, _⟩ => .error (.trailing t)

/-- The fault of a filter that is too long. -/
def checkLength (limits : Limits) (text : String) : Except Fault Unit :=
  if limits.maxFilterLength < text.utf8ByteSize then .error (.tooLong limits.maxFilterLength)
  else .ok ()

/-- The fault of a filter with too many nodes. -/
def checkNodes (limits : Limits) (count : Nat) : Except Fault Unit :=
  if limits.maxNodes < count then .error (.tooManyNodes count limits.maxNodes) else .ok ()

/-- A filter that was parsed. -/
@[ext]
structure ParsedFilter where
  /-- The expression. -/
  expr : Expr
  /-- The number of its nodes, as it was counted for the limit. -/
  nodeCount : Nat

/-- The filter that a text writes, under some limits. -/
def parseFilter (limits : Limits) (text : String) : Except Fault ParsedFilter := do
  checkLength limits text
  let ts ← (tokenize text.toList).mapError Fault.openQuote
  let e ← parseTokens limits.maxDepth ts
  let count := e.size
  checkNodes limits count
  return ⟨e, count⟩

/-- The expression of the filter that a text writes, under some limits. -/
def parse (limits : Limits) (text : String) : Except Fault Expr :=
  (parseFilter limits text).map ParsedFilter.expr

end OData.Filter

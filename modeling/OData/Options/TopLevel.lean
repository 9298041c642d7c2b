import OData.Text.Pieces

/-!
# Separators at top level

Options inside options stand in parentheses, and their texts may hold quoted
parts.  A separator counts only at top level, which is outside all quotes and
all parentheses.  A quote switches between inside and outside, so a doubled
quote changes nothing, and a parenthesis that closes nothing is passed over.

`topLevelPieces` cuts a text at these separators and keeps empty pieces.
`topLevelPositions` gives their places in bytes.
-/

namespace OData.Options

/-! ## Nesting -/

/-- How deep a place in a text lies. -/
structure Nesting where
  /-- Whether the place is inside quotes. -/
  quoted : Bool
  /-- The number of parentheses around the place. -/
  depth : Nat
deriving DecidableEq, Repr

namespace Nesting

/-- The start of a text. -/
def top : Nesting := ⟨false, 0⟩

/-- Whether a place is outside quotes and parentheses. -/
def isTop (n : Nesting) : Bool := !n.quoted && n.depth = 0

/-- The place after a character. -/
def next (n : Nesting) (c : Char) : Nesting :=
  if c = '\'' then ⟨!n.quoted, n.depth⟩
  else if n.quoted then n
  else if c = '(' then ⟨false, n.depth + 1⟩
  else if c = ')' then ⟨false, n.depth - 1⟩
  else n

/-- The place after a text. -/
def after (n : Nesting) (cs : List Char) : Nesting := cs.foldl next n

end Nesting

/-! ## Cutting -/

/-- Whether a character nests: a quote or a parenthesis. -/
def nests (c : Char) : Bool := c = '\'' || c = '(' || c = ')'

/-- Whether a character at a place is the separator at top level.  A character that nests never is. -/
def separates (separator : Char) (n : Nesting) (c : Char) : Bool :=
  c = separator && !nests c && n.isTop

/-- The places, in bytes, of the separators at top level in a text that begins at an offset. -/
def positionsFrom (separator : Char) (n : Nesting) (offset : Nat) : List Char → List Nat
  | [] => []
  | c :: cs =>
    let later := positionsFrom separator (n.next c) (offset + c.utf8Size) cs
    if separates separator n c then offset :: later else later

/-- The places, in bytes, of the separators at top level. -/
def topLevelPositions (separator : Char) (cs : List Char) : List Nat :=
  positionsFrom separator .top 0 cs

/-- The pieces between separators at top level in a text that begins at some nesting. -/
def piecesFrom (separator : Char) (n : Nesting) : List Char → List (List Char)
  | [] => [[]]
  | c :: cs =>
    if separates separator n c then [] :: piecesFrom separator (n.next c) cs
    else match piecesFrom separator (n.next c) cs with
      | [] => [[c]]
      | piece :: rest => (c :: piece) :: rest

/-- The pieces between separators at top level. -/
def topLevelPieces (separator : Char) (cs : List Char) : List (List Char) :=
  piecesFrom separator .top cs

example : topLevelPieces ';' ['a', '(', ';', ')', ';', 'b'] = [['a', '(', ';', ')'], ['b']] := by decide
example : topLevelPositions ',' [')', 'a', ',', '\'', ',', '\''] = [2] := by decide

end OData.Options

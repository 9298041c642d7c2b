/-!
# Blanks

Two classes of white space occur in query text.  The words of a filter are
separated by the five ASCII blanks.  Everything else is trimmed and split at
the white space of Unicode, its property `White_Space`.

Text is a list of characters while it is taken apart, and a `String` where it
is kept.
-/

namespace OData.Text

/-! ## The classes -/

/-- The blanks between the words of a filter: space, tab, line feed, form feed and carriage return. -/
def isAsciiBlank (c : Char) : Bool :=
  c = ' ' || c = '\t' || c = '\n' || c = '\x0c' || c = '\r'

/-- White space: the characters of the Unicode property `White_Space`. -/
def isBlank (c : Char) : Bool :=
  let n := c.toNat
  (9 ≤ n && n ≤ 13) || n = 0x20 || n = 0x85 || n = 0xa0 || n = 0x1680 ||
    (0x2000 ≤ n && n ≤ 0x200a) || n = 0x2028 || n = 0x2029 || n = 0x202f || n = 0x205f ||
    n = 0x3000

/-! ## Trimming -/

/-- The text without the white space it starts with. -/
def trimStart (cs : List Char) : List Char := cs.dropWhile isBlank

/-- The text without the white space it ends with. -/
def trimEnd (cs : List Char) : List Char := (cs.reverse.dropWhile isBlank).reverse

/-- The text without the white space around it. -/
def trim (cs : List Char) : List Char := trimEnd (trimStart cs)

/-- `trim` on strings. -/
def trimmed (s : String) : String := String.ofList (trim s.toList)

example : trim [' ', 'a', ' ', 'b', '\n'] = ['a', ' ', 'b'] := by decide
example : trim ['\t', ' '] = [] := by decide

end OData.Text

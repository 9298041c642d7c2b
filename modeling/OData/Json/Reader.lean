import OData.Json.Basic
import OData.Number.Decimal

/-!
# Reading JSON

Text becomes lexemes and lexemes become a value.  Both steps go once through
their input: the first holds the word or string it is in, the second a stack
of the arrays and objects that are open.

A number without point and exponent that fits 64 bits, signed when it is
negative, is an integer.  Every other number is a float, and so is `-0`.  Of
members with one key the last counts.  These rules are those of the library
`serde_json`, taken from its documentation.
-/

namespace OData.Json

/-! ## Lexemes -/

/-- The smallest parts of JSON text. -/
inductive Lexeme where
  /-- A bracket, a brace, a comma or a colon. -/
  | mark (c : Char)
  /-- A quoted string, without its quotes and with its escapes. -/
  | quoted (raw : List Char)
  /-- A number or a word. -/
  | word (cs : List Char)
deriving DecidableEq

/-- Where in a lexeme the reader is.  Characters are held last one first. -/
inductive Inside where
  /-- Between lexemes. -/
  | nothing
  /-- In a number or a word. -/
  | word (held : List Char)
  /-- In a quoted string. -/
  | quoted (held : List Char)
  /-- In a quoted string, behind a backslash. -/
  | escape (held : List Char)

/-- Whether a character is a bracket, a brace, a comma or a colon. -/
def isMark (c : Char) : Bool :=
  c = '[' || c = ']' || c = '\x7b' || c = '\x7d' || c = ',' || c = ':'

/-- Whether a character may stand between lexemes. -/
def isSpace (c : Char) : Bool := c = ' ' || c = '\t' || c = '\n' || c = '\r'

/-- The lexemes of a text, unless a string is not closed. -/
def lexemes? : Inside → List Char → Option (List Lexeme)
  | .nothing, [] => some []
  | .word held, [] => some [.word held.reverse]
  | .quoted _, [] => none
  | .escape _, [] => none
  | .quoted held, c :: cs =>
    if c = '\x22' then (lexemes? .nothing cs).map (.quoted held.reverse :: ·)
    else if c = '\\' then lexemes? (.escape (c :: held)) cs
    else lexemes? (.quoted (c :: held)) cs
  | .escape held, c :: cs => lexemes? (.quoted (c :: held)) cs
  | .nothing, c :: cs =>
    if isSpace c then lexemes? .nothing cs
    else if isMark c then (lexemes? .nothing cs).map (.mark c :: ·)
    else if c = '\x22' then lexemes? (.quoted []) cs
    else lexemes? (.word [c]) cs
  | .word held, c :: cs =>
    if isSpace c then (lexemes? .nothing cs).map (.word held.reverse :: ·)
    else if isMark c then (lexemes? .nothing cs).map fun rest => .word held.reverse :: .mark c :: rest
    else if c = '\x22' then (lexemes? (.quoted []) cs).map (.word held.reverse :: ·)
    else lexemes? (.word (c :: held)) cs

/-! ## Strings and numbers -/

/-- The value of a hexadecimal digit. -/
def hexDigit? (c : Char) : Option Nat :=
  if c.isDigit then some (c.toNat - '0'.toNat)
  else if 'a' ≤ c ∧ c ≤ 'f' then some (c.toNat - 'a'.toNat + 10)
  else if 'A' ≤ c ∧ c ≤ 'F' then some (c.toNat - 'A'.toNat + 10)
  else none

/-- The value of four hexadecimal digits. -/
def hexUnit? (a b c d : Char) : Option Nat := do
  return (((← hexDigit? a) * 16 + (← hexDigit? b)) * 16 + (← hexDigit? c)) * 16 + (← hexDigit? d)

/-- The character of a short escape. -/
def shortEscape? (c : Char) : Option Char :=
  if c = 'b' then some '\x08'
  else if c = 'f' then some '\x0c'
  else if c = 'n' then some '\n'
  else if c = 'r' then some '\r'
  else if c = 't' then some '\t'
  else if c = '\x22' || c = '\\' || c = '/' then some c
  else none

/-- The text of a quoted string.  Two escaped halves of a character are one character. -/
def unescape? : List Char → Option (List Char)
  | [] => some []
  | '\\' :: 'u' :: a :: b :: c :: d :: cs => do
    let unit ← hexUnit? a b c d
    if 0xd800 ≤ unit ∧ unit < 0xdc00 then
      match cs with
      | '\\' :: 'u' :: e :: f :: g :: h :: rest => do
        let low ← hexUnit? e f g h
        if 0xdc00 ≤ low ∧ low < 0xe000 then
          let char := Char.ofNat (0x10000 + (unit - 0xd800) * 0x400 + (low - 0xdc00))
          return char :: (← unescape? rest)
        else none
      | _ => none
    else if 0xdc00 ≤ unit ∧ unit < 0xe000 then none
    else return Char.ofNat unit :: (← unescape? cs)
  | '\\' :: c :: cs => do return (← shortEscape? c) :: (← unescape? cs)
  | c :: cs => do return c :: (← unescape? cs)

/-- The integer written by a run of digits, if it is in the range of integers. -/
def integerInRange? (negative : Bool) (n : Nat) : Option Int :=
  if negative then (if n = 0 || 0x8000000000000000 < n then none else some (-(n : Int)))
  else if n ≤ 0xffffffffffffffff then some n
  else none

/-- The number that a word writes. -/
def readNumber? (cs : List Char) : Option Number := do
  let (negative, digits) := match cs with
    | '-' :: rest => (true, rest)
    | rest => (false, rest)
  guard (digits.head?.any Char.isDigit)
  let float := (Decimal.readUnsigned? negative digits).map fun d => Number.float d.toBinary64
  if digits.all Char.isDigit then
    match integerInRange? negative (Decimal.digitsValue digits) with
    | some i => some (.integer i)
    | none => float
  else float

/-- The value that a word writes. -/
def readWord? (cs : List Char) : Option Json :=
  if cs = ['n', 'u', 'l', 'l'] then some .null
  else if cs = ['t', 'r', 'u', 'e'] then some (.bool true)
  else if cs = ['f', 'a', 'l', 's', 'e'] then some (.bool false)
  else (readNumber? cs).map .number

/-! ## Values -/

/-- An array or an object that is open. -/
inductive Open where
  /-- An array, with the items read so far, last one first. -/
  | array (items : List Json)
  /-- An object, with the members read so far and the key of the next one. -/
  | object (members : List (String × Json)) (key : String)

/-- What may come next. -/
inductive Expected where
  /-- A value. -/
  | value
  /-- A value or the end of the array just opened. -/
  | firstItem
  /-- A key. -/
  | key (members : List (String × Json))
  /-- A key or the end of the object just opened. -/
  | firstKey
  /-- The colon behind a key. -/
  | colon (members : List (String × Json)) (key : String)
  /-- What may follow a value that is complete. -/
  | after (value : Json)

/-- A text read up to some point. -/
structure Reading where
  /-- What is open, innermost first. -/
  stack : List Open
  /-- What may come next. -/
  expected : Expected

/-- The first lexeme of a value. -/
def startValue? (stack : List Open) : Lexeme → Option Reading
  | .quoted raw => (unescape? raw).map fun cs => ⟨stack, .after (.string (String.ofList cs))⟩
  | .word cs => (readWord? cs).map fun v => ⟨stack, .after v⟩
  | .mark c =>
    if c = '[' then some ⟨stack, .firstItem⟩
    else if c = '\x7b' then some ⟨stack, .firstKey⟩
    else none

/-- The key of a member. -/
def readKey? (stack : List Open) (members : List (String × Json)) : Lexeme → Option Reading
  | .quoted raw => (unescape? raw).map fun cs => ⟨stack, .colon members (String.ofList cs)⟩
  | _ => none

/-- The lexeme behind a value, which goes into what is open. -/
def close? (v : Json) (l : Lexeme) : List Open → Option Reading
  | .array items :: stack =>
    if l = .mark ',' then some ⟨.array (v :: items) :: stack, .value⟩
    else if l = .mark ']' then some ⟨stack, .after (.array (v :: items).reverse)⟩
    else none
  | .object members key :: stack =>
    if l = .mark ',' then some ⟨stack, .key (insertMember key v members)⟩
    else if l = .mark '\x7d' then some ⟨stack, .after (.object (insertMember key v members))⟩
    else none
  | [] => none

/-- One more lexeme read. -/
def Reading.next? (r : Reading) (l : Lexeme) : Option Reading :=
  match r.expected with
  | .value => startValue? r.stack l
  | .firstItem =>
    if l = .mark ']' then some ⟨r.stack, .after (.array [])⟩
    else startValue? (.array [] :: r.stack) l
  | .key members => readKey? r.stack members l
  | .firstKey =>
    if l = .mark '\x7d' then some ⟨r.stack, .after (.object [])⟩ else readKey? r.stack [] l
  | .colon members key =>
    if l = .mark ':' then some ⟨.object members key :: r.stack, .value⟩ else none
  | .after v => close? v l r.stack

/-- The value that a text writes. -/
def read? (text : String) : Option Json := do
  let last ← (← lexemes? .nothing text.toList).foldlM Reading.next? ⟨[], .value⟩
  match last with
  | ⟨[], .after v⟩ => some v
  | _ => none

end OData.Json

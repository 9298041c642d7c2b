import OData.Json.Basic
import OData.Number.Layout

/-!
# JSON text

A value is written without blanks, the members of an object in their order.
In a string the quote, the backslash and the control characters below the
space are escaped, by their short form where there is one, and nothing else is.
This is the compact text of the library `serde_json`, taken from its
documentation.
-/

namespace OData.Json

/-- A character inside a quoted string. -/
def escape (c : Char) : List Char :=
  if c = '\x22' then ['\\', '\x22']
  else if c = '\\' then ['\\', '\\']
  else if c = '\x08' then ['\\', 'b']
  else if c = '\x0c' then ['\\', 'f']
  else if c = '\n' then ['\\', 'n']
  else if c = '\r' then ['\\', 'r']
  else if c = '\t' then ['\\', 't']
  else if c.toNat < 0x20 then
    ['\\', 'u', '0', '0', Nat.digitChar (c.toNat / 16), Nat.digitChar (c.toNat % 16)]
  else [c]

/-- A string in quotes. -/
def quoted (s : String) : List Char := '\x22' :: (s.toList.flatMap escape ++ ['\x22'])

/-- A number. -/
def Number.write : Number → List Char
  | .integer i => (toString i).toList
  | .float x => x.write .json

mutual
/-- A value as text. -/
def write : Json → List Char
  | .null => ['n', 'u', 'l', 'l']
  | .bool true => ['t', 'r', 'u', 'e']
  | .bool false => ['f', 'a', 'l', 's', 'e']
  | .number n => n.write
  | .string s => quoted s
  | .array items => '[' :: (writeItems items ++ [']'])
  | .object members => '\x7b' :: (writeMembers members ++ ['\x7d'])

/-- Items with commas between them. -/
def writeItems : List Json → List Char
  | [] => []
  | [x] => write x
  | x :: xs => write x ++ ',' :: writeItems xs

/-- Members with commas between them. -/
def writeMembers : List (String × Json) → List Char
  | [] => []
  | [(k, x)] => quoted k ++ ':' :: write x
  | (k, x) :: xs => quoted k ++ ':' :: (write x ++ ',' :: writeMembers xs)
end

/-- A value as a string. -/
def toText (v : Json) : String := String.ofList v.write

end OData.Json

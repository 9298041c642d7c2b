import OData.Text.Pieces
import OData.Text.Utf8

/-!
# Form-encoded pairs

The query of a URL holds pairs of a key and a value.  Pairs are separated by
`&`, and the key ends at the first `=`.  A blank is written as a plus, and
every byte other than letters, digits and `*-._` as a percent sign with two
hexadecimal digits.

Reading accepts more than writing makes: empty pairs are dropped, a percent
sign without two digits stands for itself, and bytes that are not UTF-8 become
replacement characters.
-/

namespace OData.Url

/-! ## Percent encoding -/

/-- A byte as a percent sign and two capital hexadecimal digits. -/
def percentByte (b : UInt8) : List Char :=
  let digit (n : Nat) : Char := (Nat.digitChar n).toUpper
  ['%', digit (b.toNat / 16), digit (b.toNat % 16)]

/-- The value of the byte of a hexadecimal digit. -/
def hexValue? (b : UInt8) : Option Nat :=
  let n := b.toNat
  if 0x30 ≤ n && n ≤ 0x39 then some (n - 0x30)
  else if 0x41 ≤ n && n ≤ 0x46 then some (n - 0x41 + 10)
  else if 0x61 ≤ n && n ≤ 0x66 then some (n - 0x61 + 10)
  else none

/-- The bytes that percent-encoded bytes stand for. -/
def percentDecode : List UInt8 → List UInt8
  | [] => []
  | [b] => [b]
  | [b, c] => [b, c]
  | b :: c :: d :: bs =>
    if b = 0x25 then
      match hexValue? c, hexValue? d with
      | some high, some low => UInt8.ofNat (high * 16 + low) :: percentDecode bs
      | _, _ => b :: percentDecode (c :: d :: bs)
    else b :: percentDecode (c :: d :: bs)

/-! ## Reading -/

/-- The text of a key or a value. -/
def decodeComponent (cs : List Char) : String :=
  let bytes := (Text.utf8 cs).map fun b => if b = 0x2b then 0x20 else b
  String.ofList (Text.ofUtf8 (percentDecode bytes))

/-- The pairs of a query. -/
def readPairs (query : String) : List (String × String) :=
  ((Text.pieces '&' query.toList).filter fun piece => !piece.isEmpty).map fun piece =>
    match Text.cutAt? (· = '=') piece with
    | some (key, value) => (decodeComponent key, decodeComponent value)
    | none => (decodeComponent piece, "")

/-! ## Writing -/

/-- Whether a byte stands for itself in a key or a value. -/
def isPlainByte (b : UInt8) : Bool :=
  let c := Char.ofNat b.toNat
  c.isAlphanum || c = '*' || c = '-' || c = '.' || c = '_'

/-- A byte of a key or a value. -/
def writeByte (b : UInt8) : List Char :=
  if isPlainByte b then [Char.ofNat b.toNat]
  else if b = 0x20 then ['+']
  else percentByte b

/-- A key or a value. -/
def encodeComponent (s : String) : List Char := (Text.utf8 s.toList).flatMap writeByte

/-- Pairs as a query. -/
def writePairs (pairs : List (String × String)) : String :=
  String.ofList (['&'].intercalate (pairs.map fun (key, value) =>
    encodeComponent key ++ '=' :: encodeComponent value))

end OData.Url

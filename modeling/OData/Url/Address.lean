import OData.Number.Decimal
import OData.Url.Form

/-!
# Addresses

A host may be an address instead of a name.  There are two kinds.

An address of four bytes is written as up to four numbers with points between
them.  A number is decimal, octal after a zero, or hexadecimal after `0x`, and
the last one takes all the bytes that the others leave.

An address of eight pieces is written as hexadecimal pieces with colons between
them.  Two colons stand for at least one piece that is zero, and may occur once.
The last two pieces may be written as four bytes.  It is written back with two
colons in place of the longest run of zeros, the first of equally long ones, if
that run has more than one piece.
-/

namespace OData.Url

/-! ## Four bytes -/

/-- The value of a digit in a base. -/
def digitIn? (base : Nat) (c : Char) : Option Nat :=
  ((hexValue? (UInt8.ofNat c.toNat)).filter fun n => n < base && c.toNat < 0x80)

/-- The number that digits of a base write. -/
def numberIn? (base : Nat) (cs : List Char) : Option Nat :=
  cs.foldl (fun n? c => do return (← n?) * base + (← digitIn? base c)) (some 0)

/-- The number of one part of an address.  The base is told by how the part begins. -/
def addressPart? : List Char → Option Nat
  | [] => none
  | '0' :: 'x' :: cs | '0' :: 'X' :: cs => numberIn? 16 cs
  | '0' :: c :: cs => numberIn? 8 (c :: cs)
  | cs => numberIn? 10 cs

/-- The address of some parts, of which the last takes the bytes that are left. -/
def address? : (bytes : Nat) → List Nat → Option Nat
  | 0, _ => none
  | _, [] => none
  | bytes + 1, [last] => if last < Nat.pow 256 (bytes + 1) then some last else none
  | bytes + 1, part :: parts =>
    if part < 256 then (address? bytes parts).map (part * Nat.pow 256 bytes + ·) else none

/-- An address of four bytes as text. -/
def writeAddress (n : Nat) : String :=
  ".".intercalate ([n / 0x1000000, n / 0x10000 % 256, n / 0x100 % 256, n % 256].map toString)

/-! ## Eight pieces -/

/-- The value of a piece, which has one to four hexadecimal digits. -/
def piece? (cs : List Char) : Option Nat :=
  if cs.isEmpty || 4 < cs.length then none else numberIn? 16 cs

/-- The value of a byte in decimal, without a zero before it. -/
def byte? (cs : List Char) : Option Nat :=
  if cs.isEmpty || 3 < cs.length || (cs.head? = some '0' && 1 < cs.length) then none
  else (numberIn? 10 cs).filter (· < 256)

/-- The two pieces that four bytes write. -/
def bytePieces? (cs : List Char) : Option (List Nat) := do
  match ← (Text.pieces '.' cs).mapM byte? with
  | [a, b, c, d] => some [a * 256 + b, c * 256 + d]
  | _ => none

/-- The values of pieces, the last of which may be four bytes. -/
def pieceValues? : List (List Char) → Option (List Nat)
  | [] => some []
  | [last] => ((piece? last).map fun n => [n]) <|> bytePieces? last
  | piece :: rest => do return (← piece? piece) :: (← pieceValues? rest)

/-- The values of the pieces of a text, none if it is empty. -/
def readPieces? (cs : List Char) : Option (List Nat) :=
  if cs.isEmpty then some [] else pieceValues? (Text.pieces ':' cs)

/-- The text before and after the first two colons. -/
def cutAtColons? : List Char → Option (List Char × List Char)
  | [] => none
  | ':' :: ':' :: cs => some ([], cs)
  | c :: cs => (cutAtColons? cs).map fun (before, after) => (c :: before, after)

/-- The eight pieces of an address. -/
def readLongAddress? (cs : List Char) : Option (List Nat) := do
  match cutAtColons? cs with
  | none =>
    let pieces ← readPieces? cs
    if pieces.length = 8 then some pieces else none
  | some (before, after) =>
    if before.contains '.' then none
    else
      let left ← readPieces? before
      let right ← readPieces? after
      if left.length + right.length < 8 then
        some (left ++ List.replicate (8 - left.length - right.length) 0 ++ right)
      else none

/-- Where the longest run of zeros begins and how long it is, at least one. -/
def longestZeros (pieces : List Nat) : Nat × Nat :=
  (List.range pieces.length).foldl (fun (start, length) place =>
    let run := ((pieces.drop place).takeWhile (· = 0)).length
    if length < run then (place, run) else (start, length)) (0, 1)

/-- Pieces with colons between them. -/
def joinPieces (pieces : List Nat) : String :=
  ":".intercalate (pieces.map fun n => String.ofList (Nat.toDigits 16 n))

/-- An address of eight pieces as text. -/
def writeLongAddress (pieces : List Nat) : String :=
  let (start, length) := longestZeros pieces
  if length < 2 then joinPieces pieces
  else joinPieces (pieces.take start) ++ "::" ++ joinPieces (pieces.drop (start + length))

example : readLongAddress? [':', ':', '1'] = some [0, 0, 0, 0, 0, 0, 0, 1] := by decide
example : longestZeros [1, 0, 0, 2, 0, 0, 0, 3] = (4, 3) := by decide
example : (readLongAddress? [':', ':', '1', '.', '2', '.', '3', '.', '4']).map (·.drop 6) =
    some [0x102, 0x304] := by decide

end OData.Url

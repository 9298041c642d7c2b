import OData.Number.Rounding

/-!
# Numbers written in decimal

A decimal is a sign, a natural number of digits and a power of ten.  Its number
is the nearest one, found in exact arithmetic.

`Decimal.read?` reads digits with an optional point and an optional exponent,
with at least one digit before the exponent.  `Binary64.read?` reads this and
the words for infinity and for what is not a number, in any letter case.  No
blank is allowed in either.
-/

namespace OData

/-- A number written in decimal, `digits · 10 ^ exponent` with a sign. -/
structure Decimal where
  /-- Whether the sign is minus. -/
  negative : Bool
  /-- The digits without the point. -/
  digits : Nat
  /-- The power of ten of the last digit. -/
  exponent : Int
deriving DecidableEq

namespace Decimal

/-! ## Value -/

/-- The number nearest to a decimal.  Exponents far outside the range of numbers are settled at once. -/
def toBinary64 (d : Decimal) : Binary64 :=
  if d.digits = 0 then .ofUnits d.negative 0 1
  else if 400 < d.exponent then .infinite d.negative
  else if d.exponent < -((400 + d.digits.log2 : Nat) : Int) then .ofUnits d.negative 0 1
  else if 0 ≤ d.exponent then
    .ofUnits d.negative (d.digits * Nat.pow 10 d.exponent.toNat * Binary64.unitsInOne) 1
  else .ofUnits d.negative (d.digits * Binary64.unitsInOne) (Nat.pow 10 (-d.exponent).toNat)

/-! ## Reading -/

/-- The value of a run of decimal digits. -/
def digitsValue (cs : List Char) : Nat := cs.foldl (fun n c => 10 * n + (c.toNat - '0'.toNat)) 0

/-- A sign, if there is one, and what follows it. -/
def takeSign : List Char → Bool × List Char
  | '-' :: cs => (true, cs)
  | '+' :: cs => (false, cs)
  | cs => (false, cs)

/-- The exponent a decimal ends with.  Nothing is the exponent zero. -/
def readExponent? : List Char → Option Int
  | [] => some 0
  | mark :: cs =>
    if mark = 'e' || mark = 'E' then
      let (negative, digits) := takeSign cs
      if digits.isEmpty || !digits.all Char.isDigit then none
      else some (if negative then -(digitsValue digits : Int) else digitsValue digits)
    else none

/-- The digits before and behind the point, and what follows them. -/
def spanPoint (cs : List Char) : List Char × List Char × List Char :=
  let (whole, rest) := cs.span Char.isDigit
  match rest with
  | '.' :: rest => (whole, rest.span Char.isDigit)
  | rest => (whole, [], rest)

/-- A decimal without its sign. -/
def readUnsigned? (negative : Bool) (cs : List Char) : Option Decimal :=
  let (whole, fraction, rest) := spanPoint cs
  if whole.isEmpty && fraction.isEmpty then none
  else (readExponent? rest).map fun exponent =>
    ⟨negative, digitsValue (whole ++ fraction), exponent - fraction.length⟩

/-- The decimal that a text writes. -/
def read? (cs : List Char) : Option Decimal :=
  let (negative, cs) := takeSign cs
  readUnsigned? negative cs

example : read? ['-', '1', '.', '5', 'e', '2'] = some ⟨true, 15, 1⟩ := by decide
example : read? ['.', '5'] = some ⟨false, 5, -1⟩ := by decide
example : read? ['5', '.'] = some ⟨false, 5, 0⟩ := by decide
example : read? ['.'] = none ∧ read? ['1', 'e'] = none ∧ read? ['+'] = none := by decide

end Decimal

/-- The number that a text writes, the infinities and NaN included. -/
def Binary64.read? (cs : List Char) : Option Binary64 :=
  let (negative, word) := Decimal.takeSign cs
  let word := String.ofList (word.map Char.toLower)
  if word = "nan" then some (.nan negative)
  else if word = "inf" || word = "infinity" then some (.infinite negative)
  else (Decimal.read? cs).map Decimal.toBinary64

end OData

import OData.Number.Decimal

/-!
# The shortest digits of a number

A number is written with the fewest digits that read back as the same number.
The digits are searched for by their count.  On the grid of decimals with that
many digits only the two neighbours of the number can be the answer, since what
reads back lies in an interval around the number.  If both read back, the nearer
one is taken, and a `TieRule` decides when they are equally near.

Seventeen digits are always enough.  The search ends with the exact decimal,
which reads back whatever the count of its digits.
-/

namespace OData

/-- Which of two equally near decimals is written. -/
inductive TieRule where
  /-- The greater one. -/
  | up
  /-- The one whose last digit is even. -/
  | even
deriving DecidableEq, Repr

/-- The significant digits of a positive number, `0.d₁d₂… · 10 ^ point`. -/
structure Digits where
  /-- The digits, the last of which is not zero. -/
  digits : List Char
  /-- The place of the point, counted from before the first digit. -/
  point : Int
deriving DecidableEq, Repr

namespace Digits

/-- The place of the point in a number of some units: the number of digits before it, or
for a number below one, the number of zeros that follow it, counted below zero. -/
def pointOf (units : Nat) : Int :=
  if Binary64.unitsInOne ≤ units then (Nat.toDigits 10 (units / Binary64.unitsInOne)).length
  else (Nat.toDigits 10 (units * Nat.pow 10 330 / Binary64.unitsInOne)).length - 330

/-- A value in units, counted in steps of a power of ten, as a fraction. -/
def inSteps (units : Nat) (exponent : Int) : Nat × Nat :=
  if 0 ≤ exponent then (units, Binary64.unitsInOne * Nat.pow 10 exponent.toNat)
  else (units * Nat.pow 10 (-exponent).toNat, Binary64.unitsInOne)

/-- Whether a decimal reads back as the number of a magnitude. -/
def readsBack (magnitude digits : Nat) (exponent : Int) : Bool :=
  (Decimal.mk false digits exponent).toBinary64.magnitude = magnitude

/-- The decimal with steps of a power of ten that reads back and is nearest, if there is one. -/
def onGrid? (tie : TieRule) (magnitude : Nat) (exponent : Int) : Option Nat :=
  let (n, d) := inSteps (Binary64.unitsOf magnitude) exponent
  let below := n / d
  let above := below + 1
  let twice := 2 * (n % d)
  match readsBack magnitude below exponent, readsBack magnitude above exponent with
  | true, true =>
    if twice < d then some below
    else if d < twice then some above
    else match tie with
      | .up => some above
      | .even => some (if below % 2 = 0 then below else above)
  | true, false => some below
  | false, true => some above
  | false, false => none

/-- The digits of a positive decimal, zeros at its end dropped. -/
def ofDecimal (digits : Nat) (exponent : Int) : Digits :=
  let all := Nat.toDigits 10 digits
  ⟨(all.reverse.dropWhile (· = '0')).reverse, all.length + exponent⟩

/-- The exact decimal of a magnitude. -/
def exact (magnitude : Nat) : Digits := ofDecimal (Binary64.unitsOf magnitude * Nat.pow 5 1074) (-1074)

/-- The fewest digits that read back as a positive finite magnitude. -/
def shortest (tie : TieRule) (magnitude : Nat) : Digits :=
  let point := pointOf (Binary64.unitsOf magnitude)
  let counts := (List.range 17).map (· + 1)
  let found? := counts.findSome? fun (count : Nat) =>
    (onGrid? tie magnitude (point - count)).map fun digits => ofDecimal digits (point - count)
  found?.getD (exact magnitude)

end Digits

end OData

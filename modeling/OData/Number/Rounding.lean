import OData.Number.Binary64

/-!
# Rounding to a number

`nearestMagnitude n d` is the magnitude of the number closest to `n / d` units,
and of two that are equally close the one with an even last bit.  Beyond the
greatest finite number it is the infinite magnitude.

The last place of the result is fixed by the binary length of the quotient, but
it is never below one unit; natural subtraction says exactly that.  A quotient
that rounds up to the next power of two lands on the right magnitude by itself,
since magnitudes count through the powers without a gap.

The three ways to make a number whole keep its sign, so that a small negative
number becomes the negative zero.  Infinities and NaN stay as they are.  A
number becomes an integer by dropping what is behind the point.  An integer
beyond the limits asked for becomes the limit, and NaN becomes zero.
-/

namespace OData.Binary64

/-- A quotient rounded to the nearest natural number, a half to the even one. -/
def roundHalfEven (n d : Nat) : Nat :=
  let quotient := n / d
  let twice := 2 * (n % d)
  if twice < d then quotient
  else if d < twice then quotient + 1
  else quotient + quotient % 2

/-- The magnitude of the number nearest to `n / d` units. -/
def nearestMagnitude (n d : Nat) : Nat :=
  let doublings := (n / d).log2 - 52
  min infinity (doublings * perDoubling + roundHalfEven n (d <<< doublings))

/-- A rounded magnitude is at most infinite. -/
theorem nearestMagnitude_le (n d : Nat) : nearestMagnitude n d ≤ infinity := Nat.min_le_left _ _

/-- The number with a sign nearest to `n / d` units. -/
def ofUnits (negative : Bool) (n d : Nat) : Binary64 :=
  ⟨negative, nearestMagnitude n d, Nat.lt_of_le_of_lt (nearestMagnitude_le n d) (by decide)⟩

/-- The number with a sign nearest to a natural number. -/
def ofSignedNat (negative : Bool) (n : Nat) : Binary64 := ofUnits negative (n * unitsInOne) 1

/-- The number nearest to a natural number. -/
def ofNat (n : Nat) : Binary64 := ofSignedNat false n

/-- The number nearest to an integer. -/
def ofInt (i : Int) : Binary64 := ofSignedNat (i < 0) i.natAbs

example : roundHalfEven 5 2 = 2 ∧ roundHalfEven 7 2 = 4 ∧ roundHalfEven 4 3 = 1 := by decide
example : (ofNat 1).magnitude = 0x3ff * perDoubling := by decide +kernel
example : (ofNat (1 <<< 53 + 1)).magnitude = (ofNat (1 <<< 53)).magnitude := by decide +kernel
example : (ofNat (1 <<< 1024)).magnitude = infinity := by decide +kernel

/-! ## Whole numbers -/

/-- The whole part of the absolute value of a finite number. -/
def wholePart (x : Binary64) : Nat := x.units / unitsInOne

/-- Whether a finite number has nothing behind the point. -/
def isWhole (x : Binary64) : Bool := x.units % unitsInOne = 0

/-- The number with the sign of `x` and a whole absolute value, for a finite `x`. -/
def withWhole (x : Binary64) (n : Nat) : Binary64 :=
  if x.isFinite then ofSignedNat x.negative n else x

/-- The greatest whole number that is not above `x`. -/
def floor (x : Binary64) : Binary64 :=
  x.withWhole (x.wholePart + if x.negative && !x.isWhole then 1 else 0)

/-- The least whole number that is not below `x`. -/
def ceiling (x : Binary64) : Binary64 :=
  x.withWhole (x.wholePart + if !x.negative && !x.isWhole then 1 else 0)

/-- The whole number nearest to `x`, a half away from zero. -/
def round (x : Binary64) : Binary64 := x.withWhole ((2 * x.units + unitsInOne) / (2 * unitsInOne))

/-- The integer of a number, what is behind the point dropped, held between two limits. -/
def toIntWithin (least greatest : Int) (x : Binary64) : Int :=
  if x.isNaN then 0
  else if !x.isFinite then (if x.negative then least else greatest)
  else
    let whole : Int := if x.negative then -(x.wholePart : Int) else x.wholePart
    max least (min greatest whole)

/-- The natural number of a number held at a limit.  Numbers that are not positive give zero. -/
def toNatWithin (greatest : Nat) (x : Binary64) : Nat := (x.toIntWithin 0 greatest).toNat

end OData.Binary64

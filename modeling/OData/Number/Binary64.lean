/-!
# Numbers

The numbers of a query are binary floating-point numbers of 64 bits.  A number
is held as its sign and its *magnitude*, the other 63 bits read as a natural
number.  Magnitudes are ordered as the values they stand for, so every
comparison here is one of integers: the infinite magnitude is above all finite
ones, and the magnitudes above it are not numbers (NaN).

Two orders are used.  The order of values, `compare?`, does not order NaN and
makes the two zeros equal.  The total order, `totalCompare`, puts the negative
zero below the positive one and orders NaN too.

A finite magnitude is an exact multiple of the least positive number.
`units` is that multiple.
-/

namespace OData

/-- A floating-point number of 64 bits. -/
structure Binary64 where
  /-- Whether the sign is minus. -/
  negative : Bool
  /-- The bits below the sign, as a natural number. -/
  magnitude : Nat
  /-- There are 63 of them. -/
  magnitude_lt : magnitude < 0x8000000000000000
deriving DecidableEq

namespace Binary64

/-! ## Classes -/

/-- The number of magnitudes from one power of two to the next. -/
def perDoubling : Nat := 0x10000000000000

/-- The magnitude of the two infinities. -/
def infinity : Nat := 0x7ff * perDoubling

/-- Neither infinite nor NaN. -/
def isFinite (x : Binary64) : Bool := x.magnitude < infinity

/-- Not a number. -/
def isNaN (x : Binary64) : Bool := infinity < x.magnitude

/-- One of the two zeros. -/
def isZero (x : Binary64) : Bool := x.magnitude = 0

/-- The number zero with the sign plus. -/
def zero : Binary64 := ⟨false, 0, by decide⟩

/-- An infinity, by its sign. -/
def infinite (negative : Bool) : Binary64 := ⟨negative, infinity, by decide⟩

/-- The value that is not a number, by its sign. -/
def nan (negative : Bool) : Binary64 := ⟨negative, infinity + perDoubling / 2, by decide⟩

/-! ## Order -/

/-- The place of a number among the values.  The two zeros share a place. -/
def place (x : Binary64) : Int := if x.negative then -x.magnitude else x.magnitude

/-- The order of values, which does not order NaN. -/
def compare? (x y : Binary64) : Option Ordering :=
  if x.isNaN || y.isNaN then none else some (compare x.place y.place)

/-- Whether two numbers have one value.  NaN has none. -/
def equal (x y : Binary64) : Bool := x.compare? y == some .eq

/-- The place of a number in the total order: below its value when the sign is minus. -/
def totalPlace (x : Binary64) : Int := if x.negative then -x.magnitude - 1 else x.magnitude

/-- The total order of all numbers. -/
def totalCompare (x y : Binary64) : Ordering := compare x.totalPlace y.totalPlace

/-! ## The exact value -/

/-- The number of doublings from the least positive number to the last place of a magnitude. -/
def scale (magnitude : Nat) : Nat := magnitude / perDoubling - 1

/-- The exact value of a finite magnitude, in units of the least positive number. -/
def unitsOf (magnitude : Nat) : Nat :=
  (magnitude - scale magnitude * perDoubling) <<< scale magnitude

/-- The exact absolute value of a finite number, in units of the least positive number. -/
def units (x : Binary64) : Nat := unitsOf x.magnitude

/-- The number of units in one. -/
def unitsInOne : Nat := 1 <<< 1074

example : (Binary64.mk true 0 (by decide)).equal zero = true := by decide
example : (Binary64.mk true 0 (by decide)).totalCompare zero = .lt := by decide
example : (nan false).equal (nan false) = false := by decide
example : unitsOf (0x3ff * perDoubling) = unitsInOne := by decide +kernel

end Binary64

end OData

import OData.Number.Shortest

/-!
# Numbers as text

A `NumberLayout` holds the decisions of one written form: which of two equally
near decimals is taken, between which places of the point the digits are
written out, and whether a whole number shows a point.  A number outside those
places has an exponent, always with its sign.

Two layouts are used.  `NumberLayout.plain` is the form of filter text: digits
written out at any size and no point behind a whole number.
`NumberLayout.json` is the form of numbers inside JSON text.
-/

namespace OData

/-- The decisions of one written form of numbers. -/
structure NumberLayout where
  /-- Which of two equally near decimals is written. -/
  tie : TieRule
  /-- The least and the greatest place of the point for which the digits are written out, if limited. -/
  window : Option (Int × Int)
  /-- What follows a whole number that is written out. -/
  wholeMark : List Char

/-- Filter text: every number is written out, and a whole number has no point. -/
def NumberLayout.plain : NumberLayout := ⟨.up, none, []⟩

/-- JSON text: numbers from `10⁻⁵` to below `10¹⁶` are written out, whole ones with one zero behind the point. -/
def NumberLayout.json : NumberLayout := ⟨.even, some (-4, 16), ['.', '0']⟩

namespace Digits

/-- The digits written out, with zeros between them and the point where it lies outside them. -/
def writtenOut (wholeMark : List Char) (d : Digits) : List Char :=
  let count : Int := d.digits.length
  if d.point ≤ 0 then '0' :: '.' :: (List.replicate (-d.point).toNat '0' ++ d.digits)
  else if count ≤ d.point then
    d.digits ++ List.replicate (d.point - count).toNat '0' ++ wholeMark
  else d.digits.take d.point.toNat ++ '.' :: d.digits.drop d.point.toNat

/-- The digits with the point behind the first one, and an exponent. -/
def withExponent (d : Digits) : List Char :=
  let exponent := d.point - 1
  let mantissa := match d.digits with
    | [] => []
    | [c] => [c]
    | c :: cs => c :: '.' :: cs
  mantissa ++ 'e' :: (if exponent < 0 then '-' else '+') :: Nat.toDigits 10 exponent.natAbs

end Digits

/-- A number as text under a layout. -/
def Binary64.write (layout : NumberLayout) (x : Binary64) : List Char :=
  if x.isNaN then ['N', 'a', 'N']
  else
    let sign := if x.negative then ['-'] else []
    let text :=
      if !x.isFinite then ['i', 'n', 'f']
      else if x.isZero then '0' :: layout.wholeMark
      else
        let digits := Digits.shortest layout.tie x.magnitude
        match layout.window with
        | none => digits.writtenOut layout.wholeMark
        | some (least, greatest) =>
          if least ≤ digits.point && digits.point ≤ greatest then digits.writtenOut layout.wholeMark
          else digits.withExponent
    sign ++ text

end OData

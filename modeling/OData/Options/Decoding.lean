import OData.Config
import OData.Number.Decimal
import OData.Options.Basic
import OData.Options.TopLevel

/-!
# Decoding options

Options arrive as pairs of a key and a value.  Seven keys count, of repeated
ones the last, and decoding never fails: a value that makes no sense gives the
least it can.

The options of an expanded property are pairs again, inside parentheses.  They
are decoded down to `deepestExpand` levels, and below that dropped, so the
recursion is on the levels that are left.
-/

namespace OData.Options

/-! ## Single values -/

/-- The nonempty pieces of a text between commas, without the white space around them. -/
def commaList (value : String) : List (List Char) :=
  ((Text.pieces ',' value.toList).map Text.trim).filter fun piece => !piece.isEmpty

/-- The properties of a selection, none if no property is named. -/
def decodeSelect (value : String) : Option (List String) :=
  let fields := (commaList value).map String.ofList
  if fields.isEmpty then none else some fields

/-- One key of an order: a path and, behind white space, a direction. -/
def decodeOrderKey (piece : List Char) : OrderKey :=
  match Text.cutAt? Text.isBlank piece with
  | some (field, rest) =>
    ⟨String.ofList field, .ofWord (some (String.ofList (Text.trim rest)))⟩
  | none => ⟨String.ofList piece, .ofWord none⟩

/-- The keys of an order. -/
def decodeOrderBy (value : String) : List OrderKey := (commaList value).map decodeOrderKey

/-- The size that a text starts with.  A text that starts with no digits or with a minus is zero. -/
def decodeSize (value : String) : Nat :=
  match Text.trim value.toList with
  | '-' :: _ => 0
  | '+' :: cs => leadingSize cs
  | cs => leadingSize cs
where
  /-- The number written by the digits that a text starts with, at most the greatest size. -/
  leadingSize (cs : List Char) : Nat :=
    min greatestSize (Decimal.digitsValue (cs.takeWhile Char.isDigit))

/-- Whether a text is `true`, in any letter case. -/
def decodeCount (value : String) : Bool := Text.eqIgnoringCase (Text.trimmed value) "true"

/-! ## Pairs -/

/-- An item of an expansion, given how to decode the options inside its parentheses. -/
def decodeExpandItem (nested : List Char → Option QueryOptions) (item : List Char) :
    Option ExpandItem :=
  match Text.cutAt? (· = '(') item with
  | none => if item.isEmpty then none else some ⟨String.ofList item, none⟩
  | some (before, inside) =>
    let path := Text.trim before
    if path.isEmpty then none
    else
      let inside := if inside.getLast? = some ')' then inside.dropLast else inside
      some ⟨String.ofList path, nested inside⟩

/-- The items of an expansion. -/
def decodeExpand (nested : List Char → Option QueryOptions) (value : String) : List ExpandItem :=
  (topLevelPieces ',' value.toList).filterMap fun item => decodeExpandItem nested (Text.trim item)

/-- The options with one more pair. -/
def withPair (nested : List Char → Option QueryOptions) (options : QueryOptions)
    (pair : String × String) : QueryOptions :=
  let (key, value) := pair
  if key = "$select" then { options with select := decodeSelect value }
  else if key = "$orderby" then { options with orderBy := decodeOrderBy value }
  else if key = "$top" then { options with top := some (decodeSize value) }
  else if key = "$skip" then { options with skip := some (decodeSize value) }
  else if key = "$count" then { options with count := some (decodeCount value) }
  else if key = "$filter" then { options with filter := some value }
  else if key = "$expand" then { options with expand := decodeExpand nested value }
  else options

/-- The options of some pairs. -/
def decodeWith (nested : List Char → Option QueryOptions) (pairs : List (String × String)) :
    QueryOptions :=
  pairs.foldl (withPair nested) {}

/-- The pairs inside the parentheses of an item. -/
def nestedPairs (inside : List Char) : List (String × String) :=
  (topLevelPieces ';' inside).filterMap fun piece =>
    (Text.cutAt? (· = '=') piece).map fun (key, value) =>
      (String.ofList (Text.trim key), String.ofList (Text.trim value))

/-- The options of some pairs, with nested options down to some levels. -/
def decodeAt : (levels : Nat) → List (String × String) → QueryOptions
  | 0 => decodeWith fun _ => none
  | levels + 1 => decodeWith fun inside => some (decodeAt levels (nestedPairs inside))

/-- The number of levels of nested options that are decoded. -/
def deepestExpand : Nat := 8

/-- The options of some pairs. -/
def decode (pairs : List (String × String)) : QueryOptions := decodeAt deepestExpand pairs

end OData.Options

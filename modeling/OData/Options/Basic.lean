import OData.Text.Blank
import OData.Text.Pieces

/-!
# Query options

What a client asks of a collection: which properties to keep, the order, the
part of the collection, whether to count, a filter, and the related records to
shape along.  An expanded property may have options of its own, so options are
a tree.
-/

namespace OData

/-! ## Order -/

/-- The direction of an order. -/
inductive Direction where
  /-- From small to great. -/
  | ascending
  /-- From great to small. -/
  | descending
deriving DecidableEq, Repr

namespace Direction

/-- The direction that a word names.  Only `desc`, in any letter case, is descending. -/
def ofWord (word : Option String) : Direction :=
  if word.any fun w => Text.eqIgnoringCase w "desc" then .descending else .ascending

/-- The word of a direction. -/
def word : Direction → String
  | .ascending => "asc"
  | .descending => "desc"

/-- An ascending order turned to a direction. -/
def apply : Direction → Ordering → Ordering
  | .ascending, o => o
  | .descending, o => o.swap

/-- The other direction. -/
def flip : Direction → Direction
  | .ascending => .descending
  | .descending => .ascending

end Direction

/-- One key of an order. -/
structure OrderKey where
  /-- The property path to order by. -/
  field : String
  /-- The direction. -/
  direction : Direction
deriving DecidableEq, Repr

/-- An order key as text. -/
def OrderKey.toText (key : OrderKey) : String := key.field ++ " " ++ key.direction.word

/-- An order as text. -/
def orderText (keys : List OrderKey) : String :=
  if keys.isEmpty then "(none)" else ", ".intercalate (keys.map OrderKey.toText)

/-! ## Options -/

mutual
/-- The options of a query. -/
structure QueryOptions where
  /-- The properties to keep, all if not given. -/
  select : Option (List String) := none
  /-- The keys of the order, the first one most significant. -/
  orderBy : List OrderKey := []
  /-- The most records to return. -/
  top : Option Nat := none
  /-- The number of records to pass over. -/
  skip : Option Nat := none
  /-- Whether to report the number of records. -/
  count : Option Bool := none
  /-- The text of the filter. -/
  filter : Option String := none
  /-- The related records to shape along. -/
  expand : List ExpandItem := []

/-- A property whose records are shaped along. -/
structure ExpandItem where
  /-- The property. -/
  path : String
  /-- The options for its records, if there are any. -/
  options : Option QueryOptions := none
end

namespace QueryOptions

instance : Inhabited QueryOptions := ⟨{}⟩

/-- The text of the filter, if it is not blank. -/
def filterText (options : QueryOptions) : Option String :=
  options.filter.filter fun text => !(Text.trimmed text).isEmpty

/-- Whether the number of records is asked for. -/
def wantsCount (options : QueryOptions) : Bool := options.count.getD false

end QueryOptions

end OData

/-!
# Configuration

How a server treats queries.  Its limits say what it allows a query to ask for:
the length of a filter in bytes, the number of nodes and the nesting of its
tree, and, if set, the records of one page.  Its policy says what becomes of a
filter that is refused.

Sizes are numbers of 64 bits, and sums of sizes stay at the greatest.
-/

namespace OData

/-! ## Limits -/

/-- The greatest size. -/
def greatestSize : Nat := 0xffffffffffffffff

/-- The bounds a server puts on a query. -/
structure Limits where
  /-- The most bytes of a filter. -/
  maxFilterLength : Nat := 2000
  /-- The most nodes of a filter. -/
  maxNodes : Nat := 2000
  /-- The deepest nesting of a filter. -/
  maxDepth : Nat := 64
  /-- The most records of a page, if the server cuts pages. -/
  maxTop : Option Nat := none
deriving DecidableEq, Repr, Inhabited

namespace Limits

/-- The number of records of a page, given the number asked for. -/
def effectiveTop (limits : Limits) (requested : Option Nat) : Option Nat :=
  match requested, limits.maxTop with
  | some top, some most => some (min top most)
  | top, most => top <|> most

end Limits

/-! ## Policies -/

/-- What becomes of a query whose filter is refused. -/
inductive FaultPolicy where
  /-- The query runs without the filter. -/
  | ignore
  /-- The query fails with the fault. -/
  | propagate
deriving DecidableEq, Repr, Inhabited

namespace FaultPolicy

/-- The name of a policy. -/
def name : FaultPolicy → String
  | .ignore => "ignore"
  | .propagate => "propagate"

/-- The policy of a name. -/
def ofName? (name : String) : Option FaultPolicy :=
  if name = "ignore" then some .ignore
  else if name = "propagate" then some .propagate
  else none

end FaultPolicy

/-- The configuration of a server. -/
structure Config where
  /-- What becomes of a filter that is refused. -/
  onFilterFault : FaultPolicy := .ignore
  /-- The bounds put on queries. -/
  limits : Limits := {}
deriving DecidableEq, Repr, Inhabited

end OData

import OData.Filter.Expr
import OData.Options.Basic

/-!
# Ordering records

Records are put in order by a list of keys, and records that no key tells apart
stay as they were.  For one key, a record without a value comes before the
others, and values of one kind are in their natural order.  Values of different
kinds are ordered by kind: truth values, numbers, strings, arrays, objects.  Two
arrays are not told apart, nor are two objects.  A descending key turns all of
this around.
-/

namespace OData.Collection

/-! ## Values -/

/-- The place of a kind of values among the kinds. -/
def rank : Json → Nat
  | .null => 0
  | .bool _ => 1
  | .number _ => 2
  | .string _ => 3
  | .array _ => 4
  | .object _ => 5

/-- The order of two values. -/
def compareValues : Json → Json → Ordering
  | .bool a, .bool b => compare a b
  | .number m, .number n => m.value.totalCompare n.value
  | .string s, .string t => compare s t
  | v, w => compare (rank v) (rank w)

/-- The order of two values that may be missing, a missing one first. -/
def compareOptions : Option Json → Option Json → Ordering
  | none, none => .eq
  | none, some _ => .lt
  | some _, none => .gt
  | some v, some w => compareValues v w

/-! ## Records -/

/-- A path to order by, and the direction. -/
structure SortKey where
  /-- The path. -/
  path : Filter.PropertyPath
  /-- The direction. -/
  direction : Direction

/-- The path and the direction of an order key. -/
def SortKey.ofOrderKey (key : OrderKey) : SortKey := ⟨.ofText key.field, key.direction⟩

/-- The value to order a record by.  Null is no value. -/
def SortKey.value? (key : SortKey) (record : Json) : Option Json :=
  (key.path.resolve record).filter fun v => !v.isNull

/-- The order of two records under one key. -/
def SortKey.compare (key : SortKey) (a b : Json) : Ordering :=
  key.direction.apply (compareOptions (key.value? a) (key.value? b))

/-- The order of two records under some keys, the first that tells them apart. -/
def compareRecords : List SortKey → Json → Json → Ordering
  | [], _, _ => .eq
  | key :: keys, a, b => (key.compare a b).then (compareRecords keys a b)

/-- Records in the order of some keys.  Records that tie keep their places. -/
def order (keys : List OrderKey) (records : List Json) : List Json :=
  let keys := keys.map SortKey.ofOrderKey
  records.mergeSort fun a b => compareRecords keys a b != .gt

end OData.Collection

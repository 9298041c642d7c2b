import OData.Json.Basic
import OData.Config

/-!
# Envelopes

The answer to a query is a JSON object that holds the records of one page and,
if there are any, the number of all records and the link to the next page.

`toJson` puts the members in one by one.  `serialize` collects the fields that
are there.  `ofJson?` reads an envelope from an object, where members of other
names are passed over, or from the fields in a row.

The last two are what the library `serde` derives from the names of the fields
and from which of them may be missing.  What it derives is taken from its
documentation: a field that may be missing and is not there counts as null, a
name that is no field is no fault, and an array is read as the fields in their
order.
-/

namespace OData

/-- The answer to a query. -/
structure Envelope where
  /-- What the records are. -/
  context : String
  /-- The number of all records. -/
  count : Option Nat
  /-- The records of the page. -/
  value : List Json
  /-- The link to the next page. -/
  nextLink : Option String

namespace Envelope

/-! ## Writing -/

/-- The member of the context. -/
def contextKey : String := "@odata.context"

/-- The member of the number of records. -/
def countKey : String := "@odata.count"

/-- The member of the records. -/
def valueKey : String := "value"

/-- The member of the link. -/
def nextLinkKey : String := "@odata.nextLink"

/-- An envelope as a JSON object, member by member. -/
def toJson (e : Envelope) : Json :=
  let members := Json.insertMember contextKey (.string e.context) []
  let members := match e.count with
    | some n => Json.insertMember countKey (.ofNat n) members
    | none => members
  let members := Json.insertMember valueKey (.array e.value) members
  let members := match e.nextLink with
    | some link => Json.insertMember nextLinkKey (.string link) members
    | none => members
  .object members

/-- The fields of an envelope that are there. -/
def fields (e : Envelope) : List (String × Json) :=
  [(contextKey, .string e.context)] ++ (e.count.map fun n => (countKey, Json.ofNat n)).toList ++
    [(valueKey, .array e.value)] ++ (e.nextLink.map fun link => (nextLinkKey, Json.string link)).toList

/-- An envelope as the object of its fields. -/
def serialize (e : Envelope) : Json := .ofMembers e.fields

/-! ## Reading -/

/-- A size that may be null. -/
def optionalSize? : Json → Option (Option Nat)
  | .null => some none
  | .number (.integer i) => if 0 ≤ i && i ≤ greatestSize then some (some i.toNat) else none
  | _ => none

/-- A string that may be null. -/
def optionalString? : Json → Option (Option String)
  | .null => some none
  | .string s => some (some s)
  | _ => none

/-- The envelope of four fields. -/
def ofFields? (context count value nextLink : Json) : Option Envelope := do
  let .string context := context | none
  let .array value := value | none
  return ⟨context, ← optionalSize? count, value, ← optionalString? nextLink⟩

/-- The envelope that a value writes. -/
def ofJson? : Json → Option Envelope
  | .object members => do
    let field (key : String) := Json.lookupMember key members
    ofFields? (← field contextKey) ((field countKey).getD .null) (← field valueKey)
      ((field nextLinkKey).getD .null)
  | .array [context, count, value] => ofFields? context count value .null
  | .array [context, count, value, nextLink] => ofFields? context count value nextLink
  | _ => none

end Envelope

end OData

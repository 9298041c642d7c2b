import OData.Collection.Order
import OData.Config
import OData.Filter.Builtin
import OData.Filter.Evaluation
import OData.Filter.Parser

/-!
# Shaping collections

A query shapes a collection in five stages: filter, order, page, project,
expand.  The records of an expanded property are a collection of their own and
are shaped by their own options, so the stages recurse on the tree of options.

A page is what is left of a list after passing over some of it, at most as long
as asked for.  A selection keeps the named members of every record that is an
object, and no selection or one that names nothing keeps everything.

A refused filter either is passed over or stops the query, by the policy of the
configuration.  An expansion that stops leaves the record as the items before
the one that failed have made it.
-/

namespace OData.Collection

open OData.Filter (Fault FunctionTable)

/-! ## Pages and selections -/

/-- What is left of a list after passing over `skip`, `top` of it at most. -/
def page {α : Type} (skip : Nat) (top : Option Nat) (xs : List α) : List α :=
  match top with
  | some top => (xs.drop skip).take top
  | none => xs.drop skip

/-- The members of a record that some fields name. -/
def selectMembers (fields : List String) (record : Json) : Json :=
  match record with
  | .object members =>
    .ofMembers (fields.filterMap fun field =>
      (Json.lookupMember field members).map fun value => (field, value))
  | other => other

/-- Records with only the members that a selection names. -/
def project (select : Option (List String)) (records : List Json) : List Json :=
  match select with
  | some (field :: fields) => records.map (selectMembers (field :: fields))
  | _ => records

/-- A selection with the expanded properties that it does not name. -/
def withExpanded (select : Option (List String)) (items : List ExpandItem) :
    Option (List String) :=
  select.map fun fields =>
    items.foldl (fun fields item => if item.path ∈ fields then fields else fields ++ [item.path]) fields

/-! ## Pipelines and what they make -/

/-- What a server needs to answer queries. -/
structure Pipeline where
  /-- The configuration. -/
  config : Config
  /-- The functions that filters may call. -/
  functions : FunctionTable

/-- A collection that went through all stages. -/
structure Shaped where
  /-- The records of the page. -/
  value : List Json
  /-- The number of records that the filter kept. -/
  matched : Nat
  /-- The number of records passed over. -/
  skip : Nat
  /-- The most records of the page. -/
  top : Option Nat

/-- Something made as far as possible, and the fault that stopped it, if any did. -/
structure Attempt (α : Type) where
  /-- What was made. -/
  made : α
  /-- What stopped it. -/
  fault : Option Fault

namespace Attempt

/-- What was made, unless a fault stopped it. -/
def toExcept {α : Type} (a : Attempt α) : Except Fault α :=
  match a.fault with
  | none => .ok a.made
  | some fault => .error fault

/-- A list made one by one up to the first fault.  What stands behind the one that failed stays. -/
def each {α : Type} (make : α → Attempt α) : List α → Attempt (List α)
  | [] => ⟨[], none⟩
  | x :: xs =>
    match make x with
    | ⟨made, none⟩ =>
      let rest := each make xs
      ⟨made :: rest.made, rest.fault⟩
    | ⟨made, some fault⟩ => ⟨made :: xs, some fault⟩

/-- A record made by making its members.  A record that is no object stays. -/
def onMembers (make : List (String × Json) → Attempt (List (String × Json))) : Json → Attempt Json
  | .object members =>
    let attempt := make members
    ⟨.object attempt.made, attempt.fault⟩
  | other => ⟨other, none⟩

end Attempt

namespace Pipeline

/-! ## Filtering -/

/-- The records that a filter text keeps.  A blank text or none keeps all. -/
def filter (p : Pipeline) (text : Option String) (records : List Json) :
    Except Fault (List Json) :=
  match text with
  | none => .ok records
  | some text =>
    match Filter.parse p.config.limits text with
    | .ok e => .ok (records.filter (e.accepts p.functions))
    | .error fault =>
      match p.config.onFilterFault with
      | .ignore => .ok records
      | .propagate => .error fault

/-! ## All stages -/

/-- The members with a property there, null if it was missing. -/
def withSlot (path : String) (members : List (String × Json)) : List (String × Json) :=
  match Json.lookupMember path members with
  | some _ => members
  | none => Json.insertMember path .null members

mutual
/-- A collection shaped by some options. -/
def shape (p : Pipeline) : QueryOptions → List Json → Except Fault Shaped
  | ⟨select, orderBy, top, skip, count, text, expand⟩, records => do
    let options : QueryOptions := ⟨select, orderBy, top, skip, count, text, expand⟩
    let kept ← p.filter options.filterText records
    let skip := skip.getD 0
    let top := p.config.limits.effectiveTop top
    let selected := project (withExpanded select expand) (page skip top (order orderBy kept))
    let value ← (Attempt.each (Attempt.onMembers (expandMembers p expand)) selected).toExcept
    return ⟨value, kept.length, skip, top⟩

/-- Members with some items expanded in turn. -/
def expandMembers (p : Pipeline) :
    List ExpandItem → List (String × Json) → Attempt (List (String × Json))
  | [], members => ⟨members, none⟩
  | item :: items, members =>
    match expandMember p item members with
    | ⟨members, none⟩ => expandMembers p items members
    | stopped => stopped

/-- Members with one item expanded.  Its property is there afterwards, and a value that is not null is
shaped by the options of the item: an array as a collection, another value as a collection of one. -/
def expandMember (p : Pipeline) :
    ExpandItem → List (String × Json) → Attempt (List (String × Json))
  | ⟨path, none⟩, members => ⟨withSlot path members, none⟩
  | ⟨path, some options⟩, members =>
    match Json.lookupMember path members with
    | none | some .null => ⟨withSlot path members, none⟩
    | some (.array children) =>
      match shape p options children with
      | .ok shaped => ⟨Json.insertMember path (.array shaped.value) members, none⟩
      | .error fault => ⟨members, some fault⟩
    | some single =>
      match shape p options [single] with
      | .ok shaped => ⟨Json.insertMember path (shaped.value.head?.getD .null) members, none⟩
      | .error fault => ⟨members, some fault⟩
end

/-- A record with some items expanded in turn. -/
def expand (p : Pipeline) (items : List ExpandItem) : Json → Attempt Json :=
  Attempt.onMembers (p.expandMembers items)

/-- Records with some items expanded in turn, one after the other. -/
def expandAll (p : Pipeline) (items : List ExpandItem) : List Json → Attempt (List Json) :=
  Attempt.each (p.expand items)

/-- The records of a query. -/
def run (p : Pipeline) (options : QueryOptions) (records : List Json) : Except Fault (List Json) :=
  (p.shape options records).map Shaped.value

/-- The pipeline of the default configuration, with the functions of every filter at some time. -/
def standard (time : Instant) : Pipeline := ⟨{}, .builtin time⟩

/-- The records of a query under the default configuration, and the collection itself after a fault. -/
def runStandard (time : Instant) (options : QueryOptions) (records : List Json) : List Json :=
  match (standard time).run options records with
  | .ok value => value
  | .error _ => records

end Pipeline

end OData.Collection

import OData.Config
import OData.Json.Basic

/-!
# Reading the configuration

The configuration is a section of a JSON document that is made from layers.  A
later layer wins over an earlier one, and objects are merged member by member.
A section is named by the names that lead to it, with points between them, and
an empty name ends the way.

A section that is missing gives the defaults, and so does a missing field.  A
section that is there must be of the right types, or it is refused.  It is an
object, or an array of the fields in their order.  The libraries `figment`, which
lays the layers, and `serde`, which reads the fields, are taken as they are
documented.
-/

namespace OData.Config

/-! ## Layers -/

mutual
/-- A value with a later one laid over it. -/
def merge : Json → Json → Json
  | .object members, .object later => .object (mergeMembers members later)
  | _, later => later

/-- Members with later ones laid over them, one by one. -/
def mergeMembers (members : List (String × Json)) : List (String × Json) → List (String × Json)
  | [] => members
  | (key, value) :: later =>
    mergeMembers (Json.insertMember key (match Json.lookupMember key members with
      | some earlier => merge earlier value
      | none => value) members) later
end

/-- The document of some layers, the first one lowest. -/
def document (layers : List Json) : Json := layers.foldl merge (.object [])

/-- What some names lead to in a document. -/
def sectionAt? : List String → Json → Option Json
  | [], v => some v
  | name :: names, v => if name.isEmpty then some v else (v.member? name).bind (sectionAt? names)

/-! ## Fields -/

/-- Some fields of a section, by their names or in their order. -/
def fields? (names : List String) : Json → Option (List (Option Json))
  | .object members => some (names.map fun name => Json.lookupMember name members)
  | .array items => some ((List.range names.length).map fun place => items[place]?)
  | _ => none

/-- A size. -/
def readSize? : Json → Option Nat
  | .number (.integer i) => if 0 ≤ i && i ≤ greatestSize then some i.toNat else none
  | _ => none

/-- A field read by its reader, or its default if it is missing. -/
def orDefault {α : Type} (default : α) (read : Json → Option α) : Option Json → Option α
  | none => some default
  | some v => read v

/-- The cap of a page, which may be null. -/
def readCap? : Json → Option (Option Nat)
  | .null => some none
  | v => (readSize? v).map some

/-- A policy, by its name or by an object with null under its name. -/
def readPolicy? : Json → Option FaultPolicy
  | .string name => FaultPolicy.ofName? name
  | .object ((name, .null) :: _) => FaultPolicy.ofName? name
  | _ => none

/-- The limits that a value writes. -/
def readLimits? (v : Json) : Option Limits := do
  let defaults : Limits := {}
  match ← fields? ["max_filter_length", "max_nodes", "max_depth", "max_top"] v with
  | [length, nodes, depth, top] =>
    return {
      maxFilterLength := ← orDefault defaults.maxFilterLength readSize? length
      maxNodes := ← orDefault defaults.maxNodes readSize? nodes
      maxDepth := ← orDefault defaults.maxDepth readSize? depth
      maxTop := ← orDefault defaults.maxTop readCap? top }
  | _ => none

/-- The configuration that a value writes. -/
def ofJson? (v : Json) : Option Config := do
  match ← fields? ["on_filter_error", "limits"] v with
  | [policy, limits] =>
    return {
      onFilterFault := ← orDefault .ignore readPolicy? policy
      limits := ← orDefault {} readLimits? limits }
  | _ => none

/-- The configuration in a section of some layers, or nothing if the section is malformed. -/
def load? (layers : List Json) (names : List String) : Option Config :=
  orDefault {} ofJson? (sectionAt? names (document layers))

/-! ## Writing -/

/-- Limits as a JSON object. -/
def limitsToJson (limits : Limits) : Json :=
  .ofMembers [("max_filter_length", .ofNat limits.maxFilterLength),
    ("max_nodes", .ofNat limits.maxNodes), ("max_depth", .ofNat limits.maxDepth),
    ("max_top", (limits.maxTop.map Json.ofNat).getD .null)]

/-- A configuration as a JSON object. -/
def toJson (config : Config) : Json :=
  .ofMembers [("on_filter_error", .string config.onFilterFault.name),
    ("limits", limitsToJson config.limits)]

end OData.Config

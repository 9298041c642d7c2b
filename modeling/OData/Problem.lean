import OData.Json.Basic

/-!
# Problem documents

What a server sends when it cannot answer.  A client is told why its filter was
refused, and nothing about a configuration that is wrong.

How a document is written and read is derived by the library `serde` from the
names of its fields and from which of them may be missing, and is taken from its
documentation.
-/

namespace OData

/-- A problem document. -/
structure Problem where
  /-- What kind of problem it is, as a URI. -/
  kind : String
  /-- The kind in words. -/
  title : String
  /-- The status of the response. -/
  status : Nat
  /-- What went wrong this time. -/
  detail : String
  /-- Where it went wrong, as a URI, empty if not given. -/
  occurrence : String := ""
  /-- The kind for programs. -/
  code : String := ""
deriving DecidableEq, Repr

namespace Problem

/-! ## Kinds -/

/-- A problem of no particular kind. -/
def ofStatus (status : Nat) (title detail : String) : Problem :=
  { kind := "about:blank", title, status, detail }

/-- What the kinds of problems begin with. -/
def kindBase : String := "https://errors.cyberfabric.io/odata"

/-- The problem of a filter that is refused with some words. -/
def invalidFilter (message : String) : Problem :=
  { kind := kindBase ++ "/invalid-filter"
    title := "Invalid Filter"
    status := 400
    detail := "Invalid $filter: " ++ message
    code := "odata.invalid_filter" }

/-- The problem of a configuration that cannot be read, which says nothing about it. -/
def misconfigured : Problem :=
  { kind := kindBase ++ "/internal"
    title := "Internal Server Error"
    status := 500
    detail := "An internal error occurred while processing the OData query"
    code := "odata.internal" }

/-! ## JSON -/

/-- A problem as a JSON object.  An occurrence that is not given is left out. -/
def toJson (p : Problem) : Json :=
  .ofMembers ([("type", .string p.kind), ("title", .string p.title), ("status", .ofNat p.status),
    ("detail", .string p.detail)] ++
    (if p.occurrence.isEmpty then [] else [("instance", .string p.occurrence)]) ++
    [("code", .string p.code)])

/-- The problem of six fields.  The status has three digits. -/
def ofFields? (kind title status detail occurrence code : Json) : Option Problem :=
  match kind, title, status, detail, occurrence, code with
  | .string kind, .string title, .number (.integer status), .string detail, .string occurrence,
      .string code =>
    if 100 ≤ status && status ≤ 999 then some ⟨kind, title, status.toNat, detail, occurrence, code⟩
    else none
  | _, _, _, _, _, _ => none

/-- The problem that a value writes, an object or the fields in a row. -/
def ofJson? : Json → Option Problem
  | .object members => do
    let field (key : String) := Json.lookupMember key members
    ofFields? (← field "type") (← field "title") (← field "status") (← field "detail")
      ((field "instance").getD (.string "")) (← field "code")
  | .array [kind, title, status, detail, occurrence, code] =>
    ofFields? kind title status detail occurrence code
  | _ => none

end Problem

end OData

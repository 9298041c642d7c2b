import OData.Url.Form

/-!
# URLs

The URLs of requests have the scheme `http` or `https`, so they always have a
host and a path.  Every part is held in its encoded form, and writing puts the
parts in a row.  The port is held only when it is not the one of the scheme.
-/

namespace OData

/-- The scheme of a URL. -/
inductive Url.Scheme where
  /-- Without encryption. -/
  | http
  /-- With encryption. -/
  | https
deriving DecidableEq, Repr

namespace Url.Scheme

/-- The name of a scheme. -/
def name : Scheme → String
  | .http => "http"
  | .https => "https"

/-- The scheme of a name. -/
def ofName? (name : String) : Option Scheme :=
  if name = "http" then some .http
  else if name = "https" then some .https
  else none

/-- The port of a scheme. -/
def port : Scheme → Nat
  | .http => 80
  | .https => 443

end Url.Scheme

/-- An absolute URL. -/
structure Url where
  /-- The scheme. -/
  scheme : Url.Scheme
  /-- The name of the user, empty if there is none. -/
  userName : String
  /-- The password of the user, empty if there is none. -/
  password : String
  /-- The host. -/
  host : String
  /-- The port, if it is not the one of the scheme. -/
  port : Option Nat
  /-- The segments of the path. -/
  path : List String
  /-- What stands behind the question mark. -/
  query : Option String
  /-- What stands behind the number sign. -/
  fragment : Option String
deriving DecidableEq, Repr

namespace Url

/-- The user and the password, up to the sign that ends them. -/
def writeUser (u : Url) : String :=
  if u.userName.isEmpty && u.password.isEmpty then ""
  else if u.password.isEmpty then u.userName ++ "@"
  else u.userName ++ ":" ++ u.password ++ "@"

/-- A part behind its mark, if there is one. -/
def writePart (mark : String) : Option String → String
  | some part => mark ++ part
  | none => ""

/-- A URL as text. -/
def toText (u : Url) : String :=
  u.scheme.name ++ "://" ++ u.writeUser ++ u.host ++ writePart ":" (u.port.map toString) ++ "/" ++
    "/".intercalate u.path ++ writePart "?" u.query ++ writePart "#" u.fragment

/-- The URL with other pairs in its query. -/
def withPairs (u : Url) (pairs : List (String × String)) : Url :=
  { u with query := some (writePairs pairs) }

end Url

end OData

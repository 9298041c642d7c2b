import OData.Url.Syntax

/-!
# URLs of any scheme

A URL of any scheme may have a host, which may be empty, and its path is made of
segments behind slashes.  A URL without a host may have a text for a path
instead, as the address of a mail does.  Every part is held in its encoded form.

How a text is taken apart depends on its scheme and is left to a reader
(`UrlReader`).  Writing puts the parts in a row, and a reader is lawful if it
reads back what is written of a URL that it has read (`LawfulUrlReader`).
-/

namespace OData

/-- The path of a URL. -/
inductive AbsoluteUrl.Path where
  /-- Segments, each of them behind a slash. -/
  | segments (path : List String)
  /-- A text that begins with no slash. -/
  | text (path : String)
deriving DecidableEq, Repr

/-- A URL of any scheme. -/
structure AbsoluteUrl where
  /-- The name of the scheme. -/
  scheme : String
  /-- The name of the user, empty if there is none. -/
  userName : String
  /-- The password of the user, empty if there is none. -/
  password : String
  /-- The host, if there is one. -/
  host : Option String
  /-- The port, if it is not the one of the scheme. -/
  port : Option Nat
  /-- The path. -/
  path : AbsoluteUrl.Path
  /-- What stands behind the question mark. -/
  query : Option String
  /-- What stands behind the number sign. -/
  fragment : Option String
deriving DecidableEq, Repr

namespace AbsoluteUrl

/-- The path of a URL as text. -/
def Path.toText : Path → String
  | .segments path => String.ofList (path.flatMap fun segment => '/' :: segment.toList)
  | .text path => path

/-- The user and the password, up to the sign that ends them. -/
def writeUser (u : AbsoluteUrl) : String :=
  if u.userName.isEmpty && u.password.isEmpty then ""
  else if u.password.isEmpty then u.userName ++ "@"
  else u.userName ++ ":" ++ u.password ++ "@"

/-- What stands between the scheme and the path.  A path that would begin with two slashes is kept
apart by a point, for two slashes begin a host. -/
def writeAuthority (u : AbsoluteUrl) : String :=
  match u.host, u.path with
  | some host, _ => "//" ++ u.writeUser ++ host ++ Url.writePart ":" (u.port.map toString)
  | none, .segments ("" :: _ :: _) => "/."
  | none, _ => ""

/-- A URL as text. -/
def toText (u : AbsoluteUrl) : String :=
  u.scheme ++ ":" ++ u.writeAuthority ++ u.path.toText ++ Url.writePart "?" u.query ++
    Url.writePart "#" u.fragment

/-- The URL with other pairs in its query. -/
def withPairs (u : AbsoluteUrl) (pairs : List (String × String)) : AbsoluteUrl :=
  { u with query := some (Url.writePairs pairs) }

end AbsoluteUrl

/-- A reader of URLs. -/
class UrlReader where
  /-- The URL that a text writes. -/
  readUrl? : String → Option AbsoluteUrl

instance [UrlReader] : UrlSyntax AbsoluteUrl where
  read? := UrlReader.readUrl?
  toText := AbsoluteUrl.toText
  query := AbsoluteUrl.query
  withPairs := AbsoluteUrl.withPairs

/-- A reader that reads back what is written of a URL that it has read, whatever pairs it was
given. -/
class LawfulUrlReader [UrlReader] : Prop where
  /-- The text is read back. -/
  readUrl?_toText_withPairs (text : String) (u : AbsoluteUrl) (pairs : List (String × String))
    (h : UrlReader.readUrl? text = some u) :
    UrlReader.readUrl? (u.withPairs pairs).toText = some (u.withPairs pairs)

instance [UrlReader] [LawfulUrlReader] : LawfulUrlSyntax AbsoluteUrl where
  query_withPairs _ _ := rfl
  read?_toText_withPairs := LawfulUrlReader.readUrl?_toText_withPairs

namespace AbsoluteUrl

/-- A URL of the web as one of any scheme. -/
def ofUrl (u : Url) : AbsoluteUrl :=
  ⟨u.scheme.name, u.userName, u.password, some u.host, u.port, .segments u.path, u.query, u.fragment⟩

/-- The reader of the URLs of the web alone. -/
@[reducible] def webReader : UrlReader where
  readUrl? text := (Url.read? text).map ofUrl

end AbsoluteUrl

end OData

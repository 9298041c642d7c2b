import OData.Url.Reader

/-!
# Kinds of URLs

Links between pages need little of a URL: that it is read and written as text,
and that its query is taken out and given other pairs.  A kind of URLs does this
(`UrlSyntax`), whatever its schemes and hosts are.  It is lawful if its texts are
read back and its pairs are written as form-encoded pairs (`LawfulUrlSyntax`).

The URLs of `OData.Url` are such a kind.
-/

namespace OData

/-- A kind of absolute URLs. -/
class UrlSyntax (U : Type) where
  /-- The URL that a text writes. -/
  read? : String → Option U
  /-- A URL as text. -/
  toText : U → String
  /-- What stands behind the question mark. -/
  query : U → Option String
  /-- The URL with other pairs in its query. -/
  withPairs : U → List (String × String) → U

/-- A kind of URLs whose texts are read back and whose pairs are form-encoded. -/
class LawfulUrlSyntax (U : Type) [UrlSyntax U] : Prop where
  /-- The pairs are written as the query. -/
  query_withPairs (u : U) (pairs : List (String × String)) :
    UrlSyntax.query (UrlSyntax.withPairs u pairs) = some (Url.writePairs pairs)
  /-- A URL that was read is read back from its text, whatever pairs it was given. -/
  read?_toText_withPairs (text : String) (u : U) (pairs : List (String × String))
    (h : UrlSyntax.read? text = some u) :
    UrlSyntax.read? (UrlSyntax.toText (UrlSyntax.withPairs u pairs)) =
      some (UrlSyntax.withPairs u pairs)

namespace UrlSyntax

/-- The pairs of the query. -/
def pairs {U : Type} [UrlSyntax U] (u : U) : List (String × String) :=
  Url.readPairs ((query u).getD "")

end UrlSyntax

instance : UrlSyntax Url where
  read? := Url.read?
  toText := Url.toText
  query := Url.query
  withPairs := Url.withPairs

end OData

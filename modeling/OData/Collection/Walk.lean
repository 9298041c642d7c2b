import OData.Collection.Pipeline
import OData.Envelope
import OData.Options.Decoding
import OData.Url.Syntax

/-!
# Answering requests

The options of a request are decoded from the query of its URL.  The answer is
the envelope of the page.  It counts the records that the filter kept when the
client asks for that, and it links to the next page when the server cut the
page short and records remain.  The link asks for what the client would still
get: it is the URL of the request with other paging parameters, and all other
parameters stay, in their order.

A client gets a whole collection by asking for a URL and then for the link of
every answer.  The walk ends with the answer that has no link to a URL, with a
fault, or when the client has asked often enough.
-/

namespace OData

/-! ## Links between pages -/

/-- The parameter of the number of records to pass over. -/
def skipKey : String := "$skip"

/-- The parameter of the number of records to return. -/
def topKey : String := "$top"

/-- Whether a pair is a paging parameter. -/
def isPaging (pair : String × String) : Bool := pair.1 = skipKey || pair.1 = topKey

/-- The pairs of a query that asks for another page. -/
def pagePairs (pairs : List (String × String)) (skip : Nat) (top : Option Nat) :
    List (String × String) :=
  (pairs.filter fun pair => !isPaging pair) ++
    (top.map fun n => (topKey, toString n)).toList ++ [(skipKey, toString skip)]

section Links

variable {U : Type} [UrlSyntax U]

/-- The URL that asks for another page. -/
def pageUrl (request : U) (skip : Nat) (top : Option Nat) : U :=
  UrlSyntax.withPairs request (pagePairs (UrlSyntax.pairs request) skip top)

/-- The link to another page. -/
def pageLink (request : U) (skip : Nat) (top : Option Nat) : String :=
  UrlSyntax.toText (pageUrl request skip top)

end Links

namespace Collection

open OData.Filter (Fault)

/-! ## Answers -/

/-- The options of a query string.  A question mark at its start is dropped. -/
def optionsOfQuery (query : String) : QueryOptions :=
  let pairs := match query.toList with
    | '?' :: rest => Url.readPairs (String.ofList rest)
    | _ => Url.readPairs query
  Options.decode pairs

section Requests

variable {U : Type} [UrlSyntax U]

/-- The options of the query of a URL. -/
def optionsOfUrl (url : U) : QueryOptions := optionsOfQuery ((UrlSyntax.query url).getD "")

/-- Whether the server made a page shorter than the client asked for. -/
def isCapped (requested top : Option Nat) : Bool :=
  match top, requested with
  | none, _ => false
  | some _, none => true
  | some top, some requested => top < requested

/-- The link to the page after a shaped one, if the server cut it short and records remain. -/
def nextLink? (requested : Option Nat) (shaped : Shaped) (request : Option U) : Option String :=
  let length := shaped.value.length
  let next := min greatestSize (shaped.skip + length)
  if isCapped requested shaped.top && next < shaped.matched then
    request.map fun url => pageLink url next (requested.map fun top => top - length)
  else none

/-- The answer to a query. -/
def Pipeline.execute (p : Pipeline) (options : QueryOptions) (records : List Json)
    (context : String) (request : Option U) : Except Fault Envelope := do
  let shaped ← p.shape options records
  let count := if options.wantsCount then some shaped.matched else none
  return ⟨context, count, shaped.value, nextLink? options.top shaped request⟩

end Requests

/-! ## All pages -/

/-- The answers to a URL and to the links that follow, at most some. -/
def Pipeline.walk {U : Type} [UrlSyntax U] (p : Pipeline) (records : List Json) (context : String) :
    (most : Nat) → U → List (Except Fault Envelope)
  | 0, _ => []
  | most + 1, url =>
    match p.execute (optionsOfUrl url) records context (some url) with
    | .error fault => [.error fault]
    | .ok answer =>
      .ok answer :: match answer.nextLink.bind (UrlSyntax.read? (U := U)) with
        | some next => p.walk records context most next
        | none => []

end Collection

end OData

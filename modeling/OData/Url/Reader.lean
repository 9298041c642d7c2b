import OData.Url.Address
import OData.Url.Basic

/-!
# Reading URLs

A URL is taken apart from left to right: scheme, slashes, user, host and port,
path, query, fragment.  Controls and blanks around it are dropped, and so are
tabs and line ends inside.  A backslash counts as a slash up to the end of the
path.

The segments `.` and `..` are walked while the path is read, also when they
are percent-encoded.  The segment `..` never leads out of a drive such as `C:`.
Characters that may not stand in a part are percent-encoded there.  Escapes
that are there already stay.

A host is a name in ASCII or an address.  Names are made small.  An address of
eight pieces stands between brackets.  A host whose last label is a number is
an address of four bytes, or no host at all.
-/

namespace OData.Url

/-! ## Hosts -/

/-- Whether a label makes the host it ends an address. -/
def isNumericLabel (cs : List Char) : Bool :=
  !cs.isEmpty && (cs.all Char.isDigit || (addressPart? cs).isSome)

/-- Whether a character may not stand in a host. -/
def isForbiddenInHost (c : Char) : Bool :=
  c.toNat ≤ 0x20 || 0x7f ≤ c.toNat ||
    ['#', '/', ':', '<', '>', '?', '@', '[', '\\', ']', '^', '|', '%'].contains c

/-- The labels of a host, without the empty one behind a last point. -/
def labels (cs : List Char) : List (List Char) :=
  let all := Text.pieces '.' cs
  if 1 < all.length && all.getLast? = some [] then all.dropLast else all

/-- The host that a text without brackets writes. -/
def readName? (cs : List Char) : Option String :=
  let name := (Text.ofUtf8 (percentDecode (Text.utf8 cs))).map Char.toLower
  if name.isEmpty || name.any isForbiddenInHost then none
  else if ((labels name).getLast?).any isNumericLabel then do
    let parts ← (labels name).mapM addressPart?
    return writeAddress (← address? 4 parts)
  else some (String.ofList name)

/-- The host that a text writes. -/
def readHost? : List Char → Option String
  | '[' :: cs =>
    if cs.getLast? = some ']' then
      (readLongAddress? cs.dropLast).map fun pieces => "[" ++ writeLongAddress pieces ++ "]"
    else none
  | cs => readName? cs

/-! ## Characters that are encoded -/

/-- Controls and characters outside ASCII, which are encoded everywhere. -/
def alwaysEncoded (c : Char) : Bool := c.toNat < 0x20 || 0x7e < c.toNat

/-- Characters encoded in a query. -/
def encodedInQuery (c : Char) : Bool :=
  alwaysEncoded c || [' ', '\x22', '#', '<', '>', '\''].contains c

/-- Characters encoded in a fragment. -/
def encodedInFragment (c : Char) : Bool :=
  alwaysEncoded c || [' ', '\x22', '<', '>', '\x60'].contains c

/-- Characters encoded in a path. -/
def encodedInPath (c : Char) : Bool :=
  encodedInFragment c || ['#', '?', '\x7b', '\x7d'].contains c

/-- Characters encoded in the name and the password of a user. -/
def encodedInUser (c : Char) : Bool :=
  encodedInPath c || ['/', ':', ';', '=', '@', '[', '\\', ']', '^', '|'].contains c

/-- A text with the characters of a class percent-encoded. -/
def encodeWhere (encoded : Char → Bool) (cs : List Char) : String :=
  String.ofList (cs.flatMap fun c => if encoded c then (Text.utf8 [c]).flatMap percentByte else [c])

/-! ## Parts -/

/-- A text without controls and blanks around it and without tabs and line ends. -/
def cleaned (cs : List Char) : List Char :=
  let outside := fun (c : Char) => c.toNat ≤ 0x20
  let middle := ((cs.dropWhile outside).reverse.dropWhile outside).reverse
  middle.filter fun c => !(c = '\t' || c = '\n' || c = '\r')

/-- Whether a character is a slash in either direction. -/
def isSlash (c : Char) : Bool := c = '/' || c = '\\'

/-- Whether a character ends the path. -/
def endsPath (c : Char) : Bool := c = '?' || c = '#'

/-- What stands before the last sign that ends a user, and what stands behind it. -/
def cutUser (authority : List Char) : List Char × List Char :=
  let host := (authority.reverse.takeWhile (· ≠ '@')).reverse
  (authority.take (authority.length - host.length - 1), host)

/-- The name and the password of a user. -/
def readUser (user : List Char) : String × String :=
  match Text.cutAt? (· = ':') user with
  | some (name, password) => (encodeWhere encodedInUser name, encodeWhere encodedInUser password)
  | none => (encodeWhere encodedInUser user, "")

/-- The host of a text and what stands behind it.  A colon ends the host, but not between brackets. -/
def spanHost (inside : Bool) : List Char → List Char × List Char
  | [] => ([], [])
  | c :: cs =>
    if c = ':' && !inside then ([], c :: cs)
    else
      let (host, rest) := spanHost (c = '[' || (inside && c ≠ ']')) cs
      (c :: host, rest)

/-- The port of a text, nothing if it is empty or the port of the scheme. -/
def readPort? (scheme : Scheme) (cs : List Char) : Option (Option Nat) :=
  let port := Decimal.digitsValue cs
  if cs.isEmpty then some none
  else if !cs.all Char.isDigit || 65535 < port then none
  else some (if port = scheme.port then none else some port)

/-! ## Paths -/

/-- A segment with its encoded points decoded. -/
def decodePoints : List Char → List Char
  | '%' :: '2' :: c :: cs =>
    if c = 'e' || c = 'E' then '.' :: decodePoints cs else '%' :: '2' :: c :: decodePoints cs
  | c :: cs => c :: decodePoints cs
  | [] => []

/-- Whether a segment is the letter of a drive, which is never walked out of. -/
def isDrive (segment : String) : Bool :=
  match segment.toList with
  | [letter, mark] => letter.isAlpha && (mark = ':' || mark = '|')
  | _ => false

/-- The path one level up. -/
def parent (path : List String) : List String :=
  if path.getLast?.any isDrive then path else path.dropLast

/-- The path after walking some segments, the last of which leaves its slash. -/
def walk (path : List String) : List (List Char) → List String
  | [] => path
  | segment :: rest =>
    let points := decodePoints segment
    let path :=
      if points = ['.', '.'] then parent path ++ (if rest.isEmpty then [""] else [])
      else if points = ['.'] then path ++ (if rest.isEmpty then [""] else [])
      else path ++ [encodeWhere encodedInPath segment]
    walk path rest

/-- The segments of a path, which begins with a slash or is empty. -/
def readPath (cs : List Char) : List String :=
  walk [] (Text.pieces '/' ((cs.drop 1).map fun c => if isSlash c then '/' else c))

/-! ## The whole -/

/-- The query and the fragment of what follows the path. -/
def readEnd (cs : List Char) : Option String × Option String :=
  let (before, fragment) := match Text.cutAt? (· = '#') cs with
    | some (before, fragment) => (before, some (encodeWhere encodedInFragment fragment))
    | none => (cs, none)
  match before with
  | [] => (none, fragment)
  | _ :: query => (some (encodeWhere encodedInQuery query), fragment)

/-- The URL that a text writes. -/
def read? (text : String) : Option Url := do
  let (scheme, rest) ← Text.cutAt? (· = ':') (cleaned text.toList)
  let scheme ← Scheme.ofName? (String.ofList (scheme.map Char.toLower))
  let (authority, rest) := (rest.dropWhile isSlash).span fun c => !isSlash c && !endsPath c
  let (user, hostAndPort) := cutUser authority
  let (userName, password) := readUser user
  let (host, port) := spanHost false hostAndPort
  let host ← readHost? host
  let port ← readPort? scheme (port.drop 1)
  let (path, rest) := rest.span fun c => !endsPath c
  let (query, fragment) := readEnd rest
  return ⟨scheme, userName, password, host, port, readPath path, query, fragment⟩

end OData.Url

import OData.Proofs.HostText
import OData.Proofs.PathText
import OData.Url.Syntax

/-!
# URLs read back

A URL that was read is *normal*: each of its parts is in the form that reading
gives it.  A normal URL is read back from its text (`read?_toText`), and it stays
normal with other pairs in its query.  Hence these URLs are a lawful kind.
-/

namespace OData.Url

/-- A URL whose parts are in the form that reading gives them. -/
structure Normal (u : Url) : Prop where
  /-- The name is encoded. -/
  userName : ∀ c ∈ u.userName.toList, encodedInUser c = false
  /-- The password is encoded. -/
  password : ∀ c ∈ u.password.toList, encodedInUser c = false
  /-- The host reads as itself. -/
  host : IsHost u.host.toList
  /-- The port is one, and not that of the scheme. -/
  port : ∀ p ∈ u.port, p ≤ 65535 ∧ p ≠ u.scheme.port
  /-- There is a segment. -/
  path_ne_nil : u.path ≠ []
  /-- The path was walked. -/
  path : ∀ s ∈ u.path, IsSegment s.toList
  /-- The query is encoded. -/
  query : ∀ q ∈ u.query, ∀ c ∈ q.toList, encodedInQuery c = false
  /-- The fragment is encoded. -/
  fragment : ∀ f ∈ u.fragment, ∀ c ∈ f.toList, encodedInFragment c = false

/-! ## Reading makes normal URLs -/

theorem readUser_spec (user : List Char) :
    (∀ c ∈ (readUser user).1.toList, encodedInUser c = false) ∧
      ∀ c ∈ (readUser user).2.toList, encodedInUser c = false := by
  have hencoded {cs : List Char} {c : Char} (h : c ∈ (encodeWhere encodedInUser cs).toList) :
      encodedInUser c = false :=
    not_encoded_of_mem_encodeWhere (fun _ => encodedInUser_of_isFormChar) h
  rw [readUser]
  split
  · exact ⟨fun _ => hencoded, fun _ => hencoded⟩
  · exact ⟨fun _ => hencoded, nofun⟩

theorem readPort?_spec {scheme : Scheme} {cs : List Char} {port : Option Nat}
    (h : readPort? scheme cs = some port) : ∀ p ∈ port, p ≤ 65535 ∧ p ≠ scheme.port := by
  simp only [readPort?] at h
  split at h
  case isTrue =>
    cases h
    nofun
  case isFalse =>
    split at h
    case isTrue => cases h
    case isFalse hvalid =>
      obtain rfl := Option.some.inj h
      simp only [Bool.or_eq_true, decide_eq_true_eq, not_or, Nat.not_lt] at hvalid
      intro p hp
      split at hp
      · cases hp
      · next hne =>
        obtain rfl := Option.some.inj hp
        exact ⟨hvalid.2, hne⟩

/-- The query behind its mark, and the fragment. -/
def queryAnd (before : List Char) (fragment : Option String) : Option String × Option String :=
  (before.tail?.map (encodeWhere encodedInQuery), fragment)

theorem readEnd_of_none {cs : List Char} (h : Text.cutAt? (· = '#') cs = none) :
    readEnd cs = queryAnd cs none := by
  simp only [readEnd, h]
  cases cs <;> rfl

theorem readEnd_of_some {cs before fragment : List Char}
    (h : Text.cutAt? (· = '#') cs = some (before, fragment)) :
    readEnd cs = queryAnd before (some (encodeWhere encodedInFragment fragment)) := by
  simp only [readEnd, h]
  cases before <;> rfl

theorem readEnd_spec (cs : List Char) :
    (∀ q ∈ (readEnd cs).1, ∀ c ∈ q.toList, encodedInQuery c = false) ∧
      ∀ f ∈ (readEnd cs).2, ∀ c ∈ f.toList, encodedInFragment c = false := by
  have hquery (before : List Char) (fragment : Option String) :
      ∀ q ∈ (queryAnd before fragment).1, ∀ c ∈ q.toList, encodedInQuery c = false := by
    intro q hq c hc
    obtain ⟨query, -, rfl⟩ := Option.map_eq_some_iff.1 hq
    exact not_encoded_of_mem_encodeWhere (fun _ => encodedInQuery_of_isFormChar) hc
  cases hcut : Text.cutAt? (· = '#') cs with
  | none =>
    rw [readEnd_of_none hcut]
    exact ⟨hquery _ _, nofun⟩
  | some parts =>
    rw [readEnd_of_some hcut]
    refine ⟨hquery _ _, ?_⟩
    rintro f ⟨⟩ c hc
    refine not_encoded_of_mem_encodeWhere (fun d hd => ?_) hc
    exact encodedInFragment_of_encodedInPath (encodedInPath_of_isFormChar hd)

/-- What was read is normal. -/
theorem normal_of_read? {text : String} {u : Url} (h : read? text = some u) : Normal u := by
  rw [read?] at h
  obtain ⟨⟨scheme, rest⟩, -, h⟩ := Option.bind_eq_some_iff.1 h
  obtain ⟨scheme, -, h⟩ := Option.bind_eq_some_iff.1 h
  obtain ⟨host, hhost, h⟩ := Option.bind_eq_some_iff.1 h
  obtain ⟨port, hport, h⟩ := Option.bind_eq_some_iff.1 h
  obtain rfl := Option.some.inj h
  exact {
    userName := (readUser_spec _).1
    password := (readUser_spec _).2
    host := isHost_of_readHost? hhost
    port := readPort?_spec hport
    path_ne_nil := (readPath_spec _).1
    path := (readPath_spec _).2
    query := (readEnd_spec _).1
    fragment := (readEnd_spec _).2
  }

/-! ## The parts of a text -/

/-- The user as it is written. -/
def userText (u : Url) : List Char := u.writeUser.toList

/-- The port as it is written. -/
def portText (u : Url) : List Char := (writePart ":" (u.port.map toString)).toList

/-- The user, the host and the port as they are written. -/
def authorityText (u : Url) : List Char := userText u ++ (u.host.toList ++ portText u)

/-- The path as it is written. -/
def pathText (u : Url) : List Char := '/' :: ['/'].intercalate (u.path.map String.toList)

/-- The query as it is written. -/
def queryText (u : Url) : List Char := (writePart "?" u.query).toList

/-- The fragment as it is written. -/
def fragmentText (u : Url) : List Char := (writePart "#" u.fragment).toList

/-- The query and the fragment as they are written. -/
def endText (u : Url) : List Char := queryText u ++ fragmentText u

theorem toList_toText (u : Url) :
    u.toText.toList = u.scheme.name.toList ++
      ':' :: '/' :: '/' :: (authorityText u ++ (pathText u ++ endText u)) := by
  have hsep : "/".toList = ['/'] := rfl
  have hmark : "://".toList = [':', '/', '/'] := rfl
  simp [toText, authorityText, userText, portText, pathText, endText, queryText, fragmentText,
    String.toList_intercalate, hsep, hmark]

/-- A text of characters behind the blank is clean. -/
theorem cleaned_eq_self {cs : List Char} (h : ∀ c ∈ cs, 0x20 < c.toNat) : cleaned cs = cs := by
  have hdrop {ds : List Char} (hds : ∀ c ∈ ds, c ∈ cs) :
      ds.dropWhile (fun c => c.toNat ≤ 0x20) = ds := by
    cases ds with
    | nil => rfl
    | cons d ds =>
      have hd := h d (hds d (by simp))
      rw [List.dropWhile_cons, if_neg (by simpa using hd)]
  have hfilter : cs.filter (fun c => !(c = '\t' || c = '\n' || c = '\r')) = cs := by
    rw [List.filter_eq_self]
    intro c hc
    have hlow := h c hc
    have htab : c ≠ '\t' := by rintro rfl; exact absurd hlow (by decide)
    have hline : c ≠ '\n' := by rintro rfl; exact absurd hlow (by decide)
    have hreturn : c ≠ '\r' := by rintro rfl; exact absurd hlow (by decide)
    simp [htab, hline, hreturn]
  simp only [cleaned]
  rw [hdrop fun _ hc => hc, hdrop fun _ hc => List.mem_reverse.1 hc, List.reverse_reverse, hfilter]

/-- The host goes back to the last sign. -/
theorem takeWhile_reverse_host {user host : List Char} (h : '@' ∉ host)
    (huser : ∀ c, user.getLast? = some c → c = '@') :
    (user ++ host).reverse.takeWhile (· ≠ '@') = host.reverse := by
  rw [List.reverse_append]
  refine Text.takeWhile_append ?_ ?_
  · intro c hc
    have hne : c ≠ '@' := by
      rintro rfl
      exact h (List.mem_reverse.1 hc)
    simpa using hne
  · intro c hc
    rw [List.head?_reverse] at hc
    obtain rfl := huser c hc
    rfl

theorem cutUser_append {user host : List Char} (h : '@' ∉ host) :
    cutUser (user ++ '@' :: host) = (user, host) := by
  have hrun := @takeWhile_reverse_host (user ++ ['@']) host h (by simp)
  rw [List.append_assoc, List.singleton_append] at hrun
  have hlength : (user ++ '@' :: host).length - host.length - 1 = user.length := by
    simp
    omega
  rw [cutUser, hrun, List.reverse_reverse, hlength, List.take_left]

theorem cutUser_eq_nil {host : List Char} (h : '@' ∉ host) : cutUser host = ([], host) := by
  have hrun := @takeWhile_reverse_host [] host h (by simp)
  rw [List.nil_append] at hrun
  rw [cutUser, hrun, List.reverse_reverse, Nat.sub_self, Nat.zero_sub, List.take_zero]

/-! ## The authority -/

/-- Whether a character is no blank and does not end an authority. -/
def isAuthorityChar (c : Char) : Bool := 0x20 < c.toNat && (!isSlash c && !endsPath c)

theorem lt_of_not_alwaysEncoded {c : Char} (h : alwaysEncoded c = false) (hblank : c ≠ ' ') :
    0x20 < c.toNat := by
  have hne : c.toNat ≠ 0x20 := fun heq => hblank (Char.toNat_inj.1 heq)
  simp only [alwaysEncoded, Bool.or_eq_false_iff, decide_eq_false_iff_not] at h
  omega

theorem lt_of_not_encodedInFragment {c : Char} (h : encodedInFragment c = false) :
    0x20 < c.toNat := by
  simp only [encodedInFragment, Bool.or_eq_false_iff, List.contains_eq_mem,
    decide_eq_false_iff_not, List.mem_cons, not_or] at h
  exact lt_of_not_alwaysEncoded h.1 h.2.1

theorem spec_of_not_encodedInQuery {c : Char} (h : encodedInQuery c = false) :
    0x20 < c.toNat ∧ c ≠ '#' := by
  simp only [encodedInQuery, Bool.or_eq_false_iff, List.contains_eq_mem,
    decide_eq_false_iff_not, List.mem_cons, not_or] at h
  exact ⟨lt_of_not_alwaysEncoded h.1 h.2.1, h.2.2.2.1⟩

theorem spec_of_not_encodedInPath {c : Char} (h : encodedInPath c = false) :
    0x20 < c.toNat ∧ endsPath c = false := by
  refine ⟨lt_of_not_encodedInFragment (encodedInFragment_of_encodedInPath h), ?_⟩
  simp only [encodedInPath, Bool.or_eq_false_iff, List.contains_eq_mem, decide_eq_false_iff_not,
    List.mem_cons, not_or] at h
  simp [endsPath, h.2.1, h.2.2.1]

/-- What is not encoded in a user is none of the marks around it. -/
theorem spec_of_not_encodedInUser {c : Char} (h : encodedInUser c = false) :
    isAuthorityChar c = true ∧ c ≠ '@' ∧ c ≠ ':' := by
  obtain ⟨hlt, hends⟩ := spec_of_not_encodedInPath (encodedInPath_of_encodedInUser h)
  simp only [encodedInUser, Bool.or_eq_false_iff, List.contains_eq_mem, decide_eq_false_iff_not,
    List.mem_cons, not_or] at h
  obtain ⟨-, hslash, hcolon, -, -, hat, -, hback, -⟩ := h
  exact ⟨by simp [isAuthorityChar, hlt, hends, isSlash, hslash, hback], hat, hcolon⟩

theorem isAuthorityChar_of_isHostChar {c : Char} (h : isHostChar c = true) :
    isAuthorityChar c = true ∧ c ≠ '@' := by
  simp only [isHostChar, Bool.and_eq_true, Bool.not_eq_true', List.contains_eq_mem,
    decide_eq_true_eq, decide_eq_false_iff_not, List.mem_cons, List.not_mem_nil, or_false,
    not_or] at h
  obtain ⟨⟨hlt, -⟩, hslash, hback, hquestion, hnumber, hat⟩ := h
  exact ⟨by simp [isAuthorityChar, hlt, isSlash, endsPath, hslash, hback, hquestion, hnumber], hat⟩

theorem isAuthorityChar_of_isDigit {c : Char} (h : c.isDigit = true) :
    isAuthorityChar c = true ∧ c ≠ '@' :=
  isAuthorityChar_of_isHostChar (isHostChar_of_isAlphanum (by simp [Char.isAlphanum, h]))

/-- The user is written with its sign, or not at all. -/
theorem userText_cases {u : Url} (h : Normal u) :
    userText u = [] ∧ readUser [] = (u.userName, u.password) ∨
      ∃ user, userText u = user ++ ['@'] ∧ readUser user = (u.userName, u.password) ∧
        ∀ c ∈ user, encodedInUser c = false ∨ c = ':' := by
  have hcolon {cs : List Char} (hcs : ∀ c ∈ cs, encodedInUser c = false) :
      ∀ c ∈ cs, decide (c = ':') = false := by
    intro c hc
    exact decide_eq_false (spec_of_not_encodedInUser (hcs c hc)).2.2
  rw [userText, writeUser]
  split
  case isTrue hempty =>
    simp only [Bool.and_eq_true, String.isEmpty_iff] at hempty
    refine .inl ⟨rfl, ?_⟩
    rw [hempty.1, hempty.2]
    rfl
  case isFalse =>
    refine .inr ?_
    split
    case isTrue hpassword =>
      refine ⟨u.userName.toList, by simp, ?_, fun c hc => .inl (h.userName c hc)⟩
      rw [readUser, Text.cutAt?_eq_none (hcolon h.userName)]
      simp [encodeWhere_eq_self h.userName, String.isEmpty_iff.1 hpassword]
    case isFalse =>
      refine ⟨u.userName.toList ++ ':' :: u.password.toList, by simp, ?_, ?_⟩
      · rw [readUser, Text.cutAt?_append (hcolon h.userName) rfl]
        simp [encodeWhere_eq_self h.userName, encodeWhere_eq_self h.password]
      · intro c hc
        rcases List.mem_append.1 hc with hc | hc
        · exact .inl (h.userName c hc)
        · rcases List.mem_cons.1 hc with rfl | hc
          · exact .inr rfl
          · exact .inl (h.password c hc)

theorem portText_cases (u : Url) :
    u.port = none ∧ portText u = [] ∨
      ∃ p, u.port = some p ∧ portText u = ':' :: Nat.toDigits 10 p := by
  rw [portText]
  cases hport : u.port with
  | none => exact .inl ⟨rfl, rfl⟩
  | some p =>
    refine .inr ⟨p, rfl, ?_⟩
    have hmark : ":".toList = [':'] := rfl
    simp [writePart, hmark, Nat.toList_repr]

/-- The port is read back. -/
theorem readPort?_portText {u : Url} (h : Normal u) :
    readPort? u.scheme ((portText u).drop 1) = some u.port := by
  rcases portText_cases u with ⟨hport, htext⟩ | ⟨p, hport, htext⟩
  · rw [htext, hport]
    rfl
  · obtain ⟨hle, hne⟩ := h.port p hport
    have hdigits : (Nat.toDigits 10 p).all Char.isDigit = true :=
      List.all_eq_true.2 fun c hc => Decimal.isDigit_of_mem_toDigits hc
    have hempty : (Nat.toDigits 10 p).isEmpty = false := by simp
    simp only [readPort?, htext, List.drop_one, List.tail_cons, Decimal.digitsValue_toDigits,
      hempty, hdigits, hport]
    rw [if_neg (by simp), if_neg (by simpa using hle), if_neg hne]

theorem isAuthorityChar_of_mem_portText {u : Url} {c : Char} (hc : c ∈ portText u) :
    isAuthorityChar c = true ∧ c ≠ '@' := by
  rcases portText_cases u with ⟨-, htext⟩ | ⟨p, -, htext⟩
  · rw [htext] at hc
    cases hc
  · rw [htext] at hc
    rcases List.mem_cons.1 hc with rfl | hc
    · decide
    · exact isAuthorityChar_of_isDigit (Decimal.isDigit_of_mem_toDigits hc)

theorem isAuthorityChar_of_mem {u : Url} (h : Normal u) {c : Char} (hc : c ∈ authorityText u) :
    isAuthorityChar c = true := by
  rcases List.mem_append.1 hc with hc | hc
  · rcases userText_cases h with ⟨htext, -⟩ | ⟨user, htext, -, huser⟩
    · rw [htext] at hc
      cases hc
    · rw [htext] at hc
      rcases List.mem_append.1 hc with hc | hc
      · rcases huser c hc with hencoded | rfl
        · exact (spec_of_not_encodedInUser hencoded).1
        · decide
      · obtain rfl := List.mem_singleton.1 hc
        decide
  · rcases List.mem_append.1 hc with hc | hc
    · exact (isAuthorityChar_of_isHostChar (h.host.chars c hc)).1
    · exact (isAuthorityChar_of_mem_portText hc).1

/-- The authority is taken apart at the sign. -/
theorem exists_cutUser_authorityText {u : Url} (h : Normal u) :
    ∃ user, cutUser (authorityText u) = (user, u.host.toList ++ portText u) ∧
      readUser user = (u.userName, u.password) := by
  have hat : '@' ∉ u.host.toList ++ portText u := by
    intro hc
    rcases List.mem_append.1 hc with hc | hc
    · exact (isAuthorityChar_of_isHostChar (h.host.chars _ hc)).2 rfl
    · exact (isAuthorityChar_of_mem_portText hc).2 rfl
  rw [authorityText]
  rcases userText_cases h with ⟨htext, hread⟩ | ⟨user, htext, hread, -⟩
  · exact ⟨[], by rw [htext, List.nil_append, cutUser_eq_nil hat], hread⟩
  · refine ⟨user, ?_, hread⟩
    rw [htext, List.append_assoc, List.singleton_append, cutUser_append hat]

/-- The host ends where the port begins. -/
theorem spanHost_host {u : Url} (h : Normal u) :
    spanHost false (u.host.toList ++ portText u) = (u.host.toList, portText u) := by
  refine h.host.ends (portText u) ?_
  rcases portText_cases u with ⟨-, htext⟩ | ⟨p, -, htext⟩
  · exact .inr htext
  · exact .inl (by rw [htext]; rfl)

/-! ## Path, query and fragment -/

theorem mem_pathText {u : Url} (h : Normal u) {c : Char} (hc : c ∈ pathText u) :
    0x20 < c.toNat ∧ endsPath c = false := by
  by_cases hslash : c = '/'
  · subst hslash
    decide
  · have hpath := (List.mem_cons.1 hc).resolve_left hslash
    have hpieces := Text.exists_piece_of_mem hpath hslash
    rw [Text.pieces_intercalate (by simpa using h.path_ne_nil) ?_] at hpieces
    · obtain ⟨segment, hsegment, hmem⟩ := hpieces
      obtain ⟨s, hs, rfl⟩ := List.mem_map.1 hsegment
      exact spec_of_not_encodedInPath ((h.path s hs).chars c hmem).1
    · intro segment hsegment hmem
      obtain ⟨s, hs, rfl⟩ := List.mem_map.1 hsegment
      cases ((h.path s hs).chars '/' hmem).2

theorem queryText_cases (u : Url) :
    u.query = none ∧ queryText u = [] ∨ ∃ q, u.query = some q ∧ queryText u = '?' :: q.toList := by
  have hmark : "?".toList = ['?'] := rfl
  cases h : u.query with
  | none => exact .inl ⟨rfl, by rw [queryText, h]; rfl⟩
  | some q => exact .inr ⟨q, rfl, by rw [queryText, h, writePart, String.toList_append, hmark]; rfl⟩

theorem fragmentText_cases (u : Url) :
    u.fragment = none ∧ fragmentText u = [] ∨
      ∃ f, u.fragment = some f ∧ fragmentText u = '#' :: f.toList := by
  have hmark : "#".toList = ['#'] := rfl
  cases h : u.fragment with
  | none => exact .inl ⟨rfl, by rw [fragmentText, h]; rfl⟩
  | some f =>
    exact .inr ⟨f, rfl, by rw [fragmentText, h, writePart, String.toList_append, hmark]; rfl⟩

theorem mem_queryText {u : Url} (h : Normal u) {c : Char} (hc : c ∈ queryText u) :
    0x20 < c.toNat ∧ c ≠ '#' := by
  rcases queryText_cases u with ⟨-, htext⟩ | ⟨q, hq, htext⟩
  · rw [htext] at hc
    cases hc
  · rw [htext] at hc
    rcases List.mem_cons.1 hc with rfl | hc
    · decide
    · exact spec_of_not_encodedInQuery (h.query q hq c hc)

theorem lt_of_mem_endText {u : Url} (h : Normal u) {c : Char} (hc : c ∈ endText u) :
    0x20 < c.toNat := by
  rcases List.mem_append.1 hc with hc | hc
  · exact (mem_queryText h hc).1
  · rcases fragmentText_cases u with ⟨-, htext⟩ | ⟨f, hf, htext⟩
    · rw [htext] at hc
      cases hc
    · rw [htext] at hc
      rcases List.mem_cons.1 hc with rfl | hc
      · decide
      · exact lt_of_not_encodedInFragment (h.fragment f hf c hc)

theorem stopsRun_endText (u : Url) : Text.StopsRun (fun c => !endsPath c) (endText u) := by
  rw [endText]
  rcases queryText_cases u with ⟨-, htext⟩ | ⟨q, -, htext⟩
  · rcases fragmentText_cases u with ⟨-, hfragment⟩ | ⟨f, -, hfragment⟩
    · rw [htext, hfragment]
      exact Text.stopsRun_nil
    · rw [htext, hfragment]
      exact Text.stopsRun_cons.2 rfl
  · rw [htext]
    exact Text.stopsRun_cons.2 rfl

/-- The query and the fragment are read back. -/
theorem readEnd_endText {u : Url} (h : Normal u) : readEnd (endText u) = (u.query, u.fragment) := by
  have hnumber : ∀ c ∈ queryText u, decide (c = '#') = false := by
    intro c hc
    exact decide_eq_false (mem_queryText h hc).2
  have hbefore (fragment : Option String) : queryAnd (queryText u) fragment = (u.query, fragment) := by
    rcases queryText_cases u with ⟨hq, htext⟩ | ⟨q, hq, htext⟩
    · rw [htext, hq]
      rfl
    · rw [htext, hq, queryAnd, List.tail?_cons, Option.map_some,
        encodeWhere_eq_self (h.query q hq), String.ofList_toList]
  rw [endText]
  rcases fragmentText_cases u with ⟨hf, hfragment⟩ | ⟨f, hf, hfragment⟩
  · rw [hfragment, List.append_nil, readEnd_of_none (Text.cutAt?_eq_none hnumber), hf, hbefore]
  · rw [hfragment, readEnd_of_some (Text.cutAt?_append hnumber rfl), hf, hbefore,
      encodeWhere_eq_self (h.fragment f hf), String.ofList_toList]

/-! ## The whole -/

theorem spec_scheme (scheme : Scheme) :
    scheme.name.toList.all (fun c => 0x20 < c.toNat && !decide (c = ':')) = true ∧
      Scheme.ofName? (String.ofList (scheme.name.toList.map Char.toLower)) = some scheme := by
  cases scheme <;> decide

section Stages

variable {u : Url} (h : Normal u)

theorem mem_scheme {scheme : Scheme} {c : Char} (hc : c ∈ scheme.name.toList) :
    0x20 < c.toNat ∧ decide (c = ':') = false := by
  have hspec := List.all_eq_true.1 (spec_scheme scheme).1 c hc
  simpa only [Bool.and_eq_true, decide_eq_true_eq, Bool.not_eq_true'] using hspec

include h in
theorem mem_authorityText {c : Char} (hc : c ∈ authorityText u) :
    0x20 < c.toNat ∧ (!isSlash c && !endsPath c) = true := by
  have hchar := isAuthorityChar_of_mem h hc
  rwa [isAuthorityChar, Bool.and_eq_true, decide_eq_true_eq] at hchar

include h in
theorem cleaned_toText : cleaned u.toText.toList = u.toText.toList := by
  refine cleaned_eq_self fun c hc => ?_
  rw [toList_toText] at hc
  rcases List.mem_append.1 hc with hc | hc
  · exact (mem_scheme hc).1
  · simp only [List.mem_cons, List.mem_append] at hc
    rcases hc with rfl | rfl | rfl | hc | hc | hc
    · decide
    · decide
    · decide
    · exact (mem_authorityText h hc).1
    · exact (mem_pathText h hc).1
    · exact lt_of_mem_endText h hc

theorem cutAt?_toText : Text.cutAt? (· = ':') u.toText.toList =
    some (u.scheme.name.toList, '/' :: '/' :: (authorityText u ++ (pathText u ++ endText u))) := by
  rw [toList_toText]
  exact Text.cutAt?_append (fun c hc => (mem_scheme hc).2) rfl

include h in
/-- The slashes end where the authority begins, for there is a host. -/
theorem dropWhile_slashes (rest : List Char) :
    ('/' :: '/' :: (authorityText u ++ rest)).dropWhile isSlash = authorityText u ++ rest := by
  have hrun : ∀ c ∈ ['/', '/'], isSlash c = true := by simp [isSlash]
  refine Text.dropWhile_append hrun ?_
  intro c hc
  cases htext : authorityText u with
  | nil =>
    simp only [authorityText, List.append_eq_nil_iff] at htext
    exact absurd htext.2.1 h.host.ne_nil
  | cons d ds =>
    rw [htext] at hc
    obtain rfl := Option.some.inj hc
    have hmem : d ∈ authorityText u := by
      rw [htext]
      exact List.mem_cons_self
    have hinside := (mem_authorityText h hmem).2
    simp only [Bool.and_eq_true, Bool.not_eq_true'] at hinside
    exact hinside.1

include h in
theorem span_authorityText : (authorityText u ++ (pathText u ++ endText u)).span
    (fun c => !isSlash c && !endsPath c) = (authorityText u, pathText u ++ endText u) := by
  refine Text.span_append (fun c hc => (mem_authorityText h hc).2) ?_
  exact Text.stopsRun_cons.2 rfl

include h in
theorem span_pathText :
    (pathText u ++ endText u).span (fun c => !endsPath c) = (pathText u, endText u) := by
  refine Text.span_append (fun c hc => ?_) (stopsRun_endText u)
  rw [(mem_pathText h hc).2]
  rfl

include h in
/-- A normal URL is read back from its text. -/
theorem read?_toText : read? u.toText = some u := by
  obtain ⟨user, huser, hread⟩ := exists_cutUser_authorityText h
  have hscheme := (spec_scheme u.scheme).2
  have hhost : readHost? u.host.toList = some u.host := by
    rw [h.host.reads, String.ofList_toList]
  have hpath : readPath (pathText u) = u.path := readPath_segments h.path_ne_nil h.path
  simp only [read?, cleaned_toText h, cutAt?_toText, Option.bind_eq_bind, Option.bind_some, hscheme,
    dropWhile_slashes h, span_authorityText h, huser, hread, spanHost_host h, hhost,
    readPort?_portText h, span_pathText h, hpath, readEnd_endText h]
  rfl

end Stages

/-- A normal URL stays normal with other pairs in its query. -/
theorem Normal.withPairs {u : Url} (h : Normal u) (pairs : List (String × String)) :
    Normal (u.withPairs pairs) where
  userName := h.userName
  password := h.password
  host := h.host
  port := h.port
  path_ne_nil := h.path_ne_nil
  path := h.path
  query q hq c hc := by
    obtain rfl := Option.some.inj hq
    rcases mem_writePairs hc with hform | rfl | rfl
    · exact encodedInQuery_of_isFormChar hform
    · decide
    · decide
  fragment := h.fragment

instance : LawfulUrlSyntax Url where
  query_withPairs _ _ := rfl
  read?_toText_withPairs _ _ pairs h := read?_toText ((normal_of_read? h).withPairs pairs)

end OData.Url

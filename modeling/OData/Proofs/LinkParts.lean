import OData.Proofs.NextPage
import OData.Url.Absolute

/-!
# What a link keeps

The link to another page has the parts of the request but for its query, and the
pairs of the request but for the paging parameters, which come last
(`pageLink_spec`).  A link of a link is a link of the request, so parameters
neither pile up nor change their order.

This holds of URLs of any scheme, read by any lawful reader.  The reader of the
URLs of the web is one, for these URLs are written and linked alike whether they
are seen as URLs of any scheme or not (`toText_ofUrl`, `pageLink_ofUrl`).
-/

namespace OData

/-! ## Pairs of a link of a link -/

section Pairs

variable (pairs : List (String × String)) (skip skip' : Nat) (top top' : Option Nat)

/-- The pairs that a link keeps are those that the request is left with. -/
theorem filter_isPaging_pagePairs :
    (pagePairs pairs skip top).filter (fun pair => !isPaging pair) =
      pairs.filter fun pair => !isPaging pair := by
  have htop : (top.map fun n => (topKey, toString n)).toList.filter (fun pair => !isPaging pair) =
      [] := by
    cases top <;> rfl
  have hskip : [(skipKey, toString skip)].filter (fun pair => !isPaging pair) = [] := rfl
  rw [pagePairs, List.filter_append, List.filter_append, htop, hskip, List.append_nil,
    List.append_nil, List.filter_filter]
  simp only [Bool.and_self]

/-- Pairs that ask for another page ask for yet another one as those of the request do. -/
theorem pagePairs_pagePairs :
    pagePairs (pagePairs pairs skip top) skip' top' = pagePairs pairs skip' top' := by
  rw [pagePairs, filter_isPaging_pagePairs, pagePairs]

end Pairs

namespace Collection

/-! ## URLs of any scheme -/

section Links

variable [UrlReader]

theorem pageUrl_eq (u : AbsoluteUrl) (skip : Nat) (top : Option Nat) :
    pageUrl u skip top =
      { u with query := some (Url.writePairs (pagePairs (UrlSyntax.pairs u) skip top)) } := rfl

/-- A link of a link is a link of the request. -/
theorem pageUrl_pageUrl [LawfulUrlReader] (u : AbsoluteUrl) (skip skip' : Nat)
    (top top' : Option Nat) :
    pageUrl (pageUrl u skip top) skip' top' = pageUrl u skip' top' := by
  rw [pageUrl_eq, pairs_pageUrl, pagePairs_pagePairs, pageUrl_eq, pageUrl_eq]

/-- A link rewrites the paging parameters alone.  It is read as a URL that has the pairs of the
request whose keys are other ones, in their order, and the new paging parameters behind them.  All
parts but the query stay, and a link of that URL is a link of the request. -/
theorem pageLink_spec [LawfulUrlReader] {text : String} {u : AbsoluteUrl}
    (hread : UrlSyntax.read? text = some u) (skip : Nat) (top : Option Nat) :
    ∃ next : AbsoluteUrl, UrlSyntax.read? (pageLink u skip top) = some next ∧
      UrlSyntax.pairs next =
        ((UrlSyntax.pairs u).filter fun pair => pair.1 ≠ skipKey ∧ pair.1 ≠ topKey) ++
          (top.map fun t => (topKey, toString t)).toList ++ [(skipKey, toString skip)] ∧
      next.scheme = u.scheme ∧ next.userName = u.userName ∧ next.password = u.password ∧
      next.host = u.host ∧ next.port = u.port ∧ next.path = u.path ∧
      next.fragment = u.fragment ∧
      ∀ (skip' : Nat) (top' : Option Nat), pageLink next skip' top' = pageLink u skip' top' := by
  have hkept : (UrlSyntax.pairs u).filter (fun pair => pair.1 ≠ skipKey ∧ pair.1 ≠ topKey) =
      (UrlSyntax.pairs u).filter fun pair => !isPaging pair := by
    refine List.filter_congr fun pair _ => ?_
    simp [isPaging]
  refine ⟨pageUrl u skip top, read?_pageLink hread skip top, ?_, rfl, rfl, rfl, rfl, rfl, rfl, rfl,
    ?_⟩
  · rw [pairs_pageUrl, hkept]
    rfl
  · intro skip' top'
    rw [pageLink, pageUrl_pageUrl, pageLink]

end Links

/-! ## URLs of the web -/

section Web

open AbsoluteUrl (ofUrl webReader)

/-- Segments behind slashes are segments with slashes between them, behind a first one. -/
theorem flatMap_segments (segment : String) (rest : List String) :
    (segment :: rest).flatMap (fun segment => '/' :: segment.toList) =
      '/' :: ['/'].intercalate ((segment :: rest).map String.toList) := by
  induction rest generalizing segment with
  | nil => simp
  | cons next rest ih =>
    rw [List.flatMap_cons, ih next, List.map_cons, List.map_cons, List.map_cons,
      List.intercalate_cons_cons, List.cons_append, List.append_assoc]
    rfl

/-- A URL of the web is written alike as one of any scheme. -/
theorem toText_ofUrl {u : Url} (h : u.path ≠ []) : (ofUrl u).toText = u.toText := by
  obtain ⟨segment, rest, hpath⟩ := List.exists_cons_of_ne_nil h
  have hslashes : (ofUrl u).path.toText = "/" ++ "/".intercalate u.path := by
    have hslash : "/".toList = ['/'] := rfl
    refine String.toList_injective ?_
    simp only [ofUrl, AbsoluteUrl.Path.toText, hpath, String.toList_ofList, flatMap_segments,
      String.toList_append, String.toList_intercalate, hslash]
    rfl
  have hmark : "://" = ":" ++ "//" := rfl
  rw [AbsoluteUrl.toText, hslashes, Url.toText, hmark]
  simp only [AbsoluteUrl.writeAuthority, ofUrl, String.append_assoc]
  rfl

/-- A URL of the web is linked alike as one of any scheme. -/
theorem pageLink_ofUrl [UrlReader] {u : Url} (h : u.path ≠ []) (skip : Nat) (top : Option Nat) :
    pageLink (ofUrl u) skip top = pageLink u skip top :=
  toText_ofUrl (u := u.withPairs (pagePairs (UrlSyntax.pairs u) skip top)) h

theorem lawful_webReader : @LawfulUrlReader webReader := by
  refine @LawfulUrlReader.mk webReader ?_
  intro text u pairs h
  obtain ⟨web, hweb, rfl⟩ := Option.map_eq_some_iff.1 h
  have hpath := (Url.normal_of_read? hweb).path_ne_nil
  have hback := LawfulUrlSyntax.read?_toText_withPairs text web pairs hweb
  change (Url.read? (ofUrl (web.withPairs pairs)).toText).map ofUrl = _
  rw [toText_ofUrl (u := web.withPairs pairs) hpath]
  exact congrArg (Option.map ofUrl) hback

end Web

/-- The user, the port and the fragment stay, and so do both pairs of one key. -/
theorem pageLink_spec_repeated :
    letI := AbsoluteUrl.webReader
    ∃ request next : AbsoluteUrl,
      UrlSyntax.read? "https://u@h:8443/a/b?x=1&$skip=3&x=%26&$top=9#f" = some request ∧
      UrlSyntax.read? (pageLink request 25 (some 10)) = some next ∧
      UrlSyntax.pairs next = [("x", "1"), ("x", "&"), ("$top", "10"), ("$skip", "25")] ∧
      next.userName = "u" ∧ next.port = some 8443 ∧ next.fragment = some "f" ∧
      pageLink next 7 none = "https://u@h:8443/a/b?x=1&x=%26&%24skip=7#f" := by
  let _ := AbsoluteUrl.webReader
  have := lawful_webReader
  let request : AbsoluteUrl := ⟨"https", "u", "", some "h", some 8443, .segments ["a", "b"],
    some "x=1&$skip=3&x=%26&$top=9", some "f"⟩
  have hread : UrlSyntax.read? "https://u@h:8443/a/b?x=1&$skip=3&x=%26&$top=9#f" = some request := by
    decide +kernel
  obtain ⟨next, hnext, hpairs, -, huser, -, -, hport, -, hfragment, hlink⟩ :=
    pageLink_spec hread 25 (some 10)
  refine ⟨request, next, hread, hnext, ?_, huser, hport, hfragment, ?_⟩
  · rw [hpairs]
    decide +kernel
  · rw [hlink]
    decide +kernel

end Collection

end OData

import OData.Collection.Walk
import OData.Proofs.FormPairs
import OData.Proofs.OptionValues
import OData.Proofs.UrlText

/-!
# The options of another page

The link to another page asks for the options of the request with another part
of the collection, and for nothing else (`optionsOfUrl_pageUrl`).  Its pairs are
those of the request without the paging parameters, which decode to the same
options without a part, and the new paging parameters.

The options of a request are read after a question mark at the start of its
query is dropped, and the pairs of a link from the query as it stands
(`optionsOfUrl_pageUrl_eq_decode`).  So the first key of a query that itself
begins with a question mark may be an option in the request, but is none in the
link.
-/

namespace OData

/-- Options with another part of the collection. -/
def QueryOptions.withPart (options : QueryOptions) (skip top : Option Nat) : QueryOptions :=
  { options with skip := skip, top := top }

namespace Options

/-! ## Pairs -/

section Pairs

variable (nested : List Char → Option QueryOptions)

/-- A paging parameter changes the part alone. -/
theorem withPart_withPair_of_isPaging {pair : String × String} (h : isPaging pair = true)
    (options : QueryOptions) (skip top : Option Nat) :
    (withPair nested options pair).withPart skip top = options.withPart skip top := by
  obtain ⟨key, value⟩ := pair
  simp only [isPaging, Bool.or_eq_true, decide_eq_true_eq] at h
  rcases h with rfl | rfl <;> rfl

/-- Another parameter leaves the part. -/
theorem withPair_withPart {pair : String × String} (h : isPaging pair = false)
    (options : QueryOptions) (skip top : Option Nat) :
    withPair nested (options.withPart skip top) pair =
      (withPair nested options pair).withPart skip top := by
  obtain ⟨key, value⟩ := pair
  have hskip : key ≠ "$skip" := by
    rintro rfl
    cases h
  have htop : key ≠ "$top" := by
    rintro rfl
    cases h
  simp only [withPair, hskip, htop, if_false]
  repeat' split
  all_goals rfl

theorem withPair_skipKey (options : QueryOptions) (n : Nat) :
    withPair nested options (skipKey, toString n) =
      options.withPart (some (min greatestSize n)) options.top := by
  rw [← decodeSize_toString]
  rfl

theorem withPair_topKey (options : QueryOptions) (n : Nat) :
    withPair nested options (topKey, toString n) =
      options.withPart options.skip (some (min greatestSize n)) := by
  rw [← decodeSize_toString]
  rfl

/-- Without the paging parameters, pairs decode to the same options with the part before them. -/
theorem foldl_withPair_filter (pairs : List (String × String)) (options : QueryOptions)
    (skip top : Option Nat) :
    (pairs.filter fun pair => !isPaging pair).foldl (withPair nested) (options.withPart skip top) =
      (pairs.foldl (withPair nested) options).withPart skip top := by
  induction pairs generalizing options with
  | nil => rfl
  | cons pair pairs ih =>
    rw [List.foldl_cons, ← ih]
    cases h : isPaging pair with
    | true =>
      rw [List.filter_cons_of_neg (by simp [h]), withPart_withPair_of_isPaging nested h]
    | false =>
      rw [List.filter_cons_of_pos (by simp [h]), List.foldl_cons, withPair_withPart nested h]

theorem decodeWith_pagePairs (pairs : List (String × String)) (skip : Nat) (top : Option Nat) :
    decodeWith nested (pagePairs pairs skip top) =
      (decodeWith nested pairs).withPart (some (min greatestSize skip))
        (top.map (min greatestSize)) := by
  have hfilter := foldl_withPair_filter nested pairs {} none none
  have hempty : ({} : QueryOptions).withPart none none = {} := rfl
  rw [hempty] at hfilter
  rw [decodeWith, pagePairs, List.foldl_append, List.foldl_append, hfilter, decodeWith]
  cases top with
  | none => exact withPair_skipKey nested _ skip
  | some n =>
    simp only [Option.map_some, Option.toList_some, List.foldl_cons, List.foldl_nil,
      withPair_topKey, withPair_skipKey]
    rfl

theorem top_withPair (options : QueryOptions) (pair : String × String) :
    (withPair nested options pair).top = options.top ∨
      (withPair nested options pair).top = some (decodeSize pair.2) := by
  rw [withPair]
  repeat' split
  all_goals first | exact .inl rfl | exact .inr rfl

/-- What is asked for is a size. -/
theorem top_decodeWith_le (pairs : List (String × String)) :
    ∀ t ∈ (decodeWith nested pairs).top, t ≤ greatestSize := by
  have hfold (options : QueryOptions) (hoptions : ∀ t ∈ options.top, t ≤ greatestSize) :
      ∀ t ∈ (pairs.foldl (withPair nested) options).top, t ≤ greatestSize := by
    induction pairs generalizing options with
    | nil => exact hoptions
    | cons pair pairs ih =>
      refine ih _ ?_
      intro t ht
      rcases top_withPair nested options pair with hsame | hsize
      · exact hoptions t (hsame ▸ ht)
      · rw [hsize] at ht
        obtain rfl := Option.some.inj ht
        exact decodeSize_le pair.2
  exact hfold {} nofun

end Pairs

end Options

/-! ## Links -/

namespace Collection

section Links

variable {U : Type} [UrlSyntax U] {request : U}

/-- The query does not itself begin with a question mark. -/
def HasPlainQuery (request : U) : Prop :=
  ∀ q, UrlSyntax.query request = some q → q.toList.head? ≠ some '?'

theorem optionsOfQuery_eq {query : String} (h : query.toList.head? ≠ some '?') :
    optionsOfQuery query = Options.decode (Url.readPairs query) := by
  simp only [optionsOfQuery]
  split
  case h_1 heq =>
    rw [heq] at h
    exact absurd rfl h
  case h_2 => rfl

theorem optionsOfUrl_eq (h : HasPlainQuery request) :
    optionsOfUrl request = Options.decode (UrlSyntax.pairs request) := by
  refine optionsOfQuery_eq ?_
  cases hquery : UrlSyntax.query request with
  | none => decide
  | some q => exact h q hquery

theorem top_optionsOfUrl_le (request : U) :
    ∀ t ∈ (optionsOfUrl request).top, t ≤ greatestSize :=
  Options.top_decodeWith_le _ _

variable [LawfulUrlSyntax U]

theorem read?_pageLink {text : String} (h : UrlSyntax.read? text = some request) (skip : Nat)
    (top : Option Nat) :
    UrlSyntax.read? (pageLink request skip top) = some (pageUrl request skip top) :=
  LawfulUrlSyntax.read?_toText_withPairs text request _ h

/-- A query that was written begins with no question mark. -/
theorem hasPlainQuery_pageUrl (skip : Nat) (top : Option Nat) :
    HasPlainQuery (pageUrl request skip top) := by
  intro q hq hmark
  rw [pageUrl, LawfulUrlSyntax.query_withPairs] at hq
  obtain rfl := Option.some.inj hq
  rcases Url.mem_writePairs (List.mem_of_head? hmark) with hform | hform | hform
  · cases hform
  · cases hform
  · cases hform

theorem pairs_pageUrl (skip : Nat) (top : Option Nat) :
    UrlSyntax.pairs (pageUrl request skip top) =
      pagePairs (UrlSyntax.pairs request) skip top := by
  rw [UrlSyntax.pairs, pageUrl, LawfulUrlSyntax.query_withPairs, Option.getD_some,
    Url.readPairs_writePairs]

/-- The link to another page asks for what the pairs of the request say, with another part. -/
theorem optionsOfUrl_pageUrl_eq_decode (skip : Nat) (top : Option Nat) :
    optionsOfUrl (pageUrl request skip top) =
      (Options.decode (UrlSyntax.pairs request)).withPart (some (min greatestSize skip))
        (top.map (min greatestSize)) := by
  rw [optionsOfUrl_eq (hasPlainQuery_pageUrl skip top), pairs_pageUrl]
  exact Options.decodeWith_pagePairs _ _ skip top

/-- The link to another page asks for the options of the request with another part. -/
theorem optionsOfUrl_pageUrl (h : HasPlainQuery request) (skip : Nat) (top : Option Nat) :
    optionsOfUrl (pageUrl request skip top) =
      (optionsOfUrl request).withPart (some (min greatestSize skip))
        (top.map (min greatestSize)) := by
  rw [optionsOfUrl_pageUrl_eq_decode, optionsOfUrl_eq h]

/-- The link to another page is a URL.  It asks for what the pairs of the request say, with another
part, and that is for the options of the request unless its query begins with a question mark. -/
theorem optionsOfUrl_pageLink {text : String} (hread : UrlSyntax.read? text = some request)
    {skip : Nat} (hskip : skip ≤ greatestSize) {top : Option Nat}
    (htop : ∀ t ∈ top, t ≤ greatestSize) :
    ∃ next : U, UrlSyntax.read? (pageLink request skip top) = some next ∧
      optionsOfUrl next =
        (Options.decode (UrlSyntax.pairs request)).withPart (some skip) top ∧
      (HasPlainQuery request →
        optionsOfUrl next = (optionsOfUrl request).withPart (some skip) top) := by
  have hsizes : top.map (min greatestSize) = top := by
    cases top with
    | none => rfl
    | some t => rw [Option.map_some, Nat.min_eq_right (htop t rfl)]
  refine ⟨pageUrl request skip top, read?_pageLink hread skip top, ?_, ?_⟩
  · rw [optionsOfUrl_pageUrl_eq_decode, Nat.min_eq_right hskip, hsizes]
  · intro h
    rw [optionsOfUrl_pageUrl h, Nat.min_eq_right hskip, hsizes]

end Links

/-- The paging parameters of a request are replaced, and its filter and its order stay. -/
theorem optionsOfUrl_pageLink_replaced :
    let request : Url := ⟨.https, "", "", "h", none, ["r"],
      some "$top=9&$filter=a%20eq%201&$orderby=b+desc&$skip=3", none⟩
    Url.read? "https://h/r?$top=9&$filter=a%20eq%201&$orderby=b+desc&$skip=3" = some request ∧
      ∃ next : Url, Url.read? (pageLink request 5 (some 7)) = some next ∧
        optionsOfUrl next = (optionsOfUrl request).withPart (some 5) (some 7) ∧
        (optionsOfUrl next).filter = some "a eq 1" ∧
        (optionsOfUrl next).orderBy = [⟨"b", .descending⟩] := by
  intro request
  have hread : UrlSyntax.read? "https://h/r?$top=9&$filter=a%20eq%201&$orderby=b+desc&$skip=3" =
      some request := by decide +kernel
  have hplain : HasPlainQuery request := by
    rintro q ⟨⟩
    decide
  have hskip : 5 ≤ greatestSize := by decide
  have htop : ∀ t ∈ some 7, t ≤ greatestSize := by decide
  obtain ⟨next, hnext, -, hoptions⟩ := optionsOfUrl_pageLink hread hskip htop
  have hsame := hoptions hplain
  refine ⟨hread, next, hnext, hsame, ?_, ?_⟩
  · rw [hsame]
    decide +kernel
  · rw [hsame]
    decide +kernel

/-- A second question mark hides the first parameter from the link: the count is asked for once. -/
theorem optionsOfUrl_pageLink_marked :
    ∃ request next : Url, Url.read? "http://h/r??$count=true" = some request ∧
      Url.read? (pageLink request 1 none) = some next ∧
      (optionsOfUrl request).count = some true ∧ (optionsOfUrl next).count = none ∧
      optionsOfUrl next ≠ (optionsOfUrl request).withPart (some 1) none := by
  let request : Url := ⟨.http, "", "", "h", none, ["r"], some "?$count=true", none⟩
  have hread : UrlSyntax.read? "http://h/r??$count=true" = some request := by decide +kernel
  have hskip : 1 ≤ greatestSize := by decide
  have htop : ∀ t ∈ (none : Option Nat), t ≤ greatestSize := nofun
  obtain ⟨next, hnext, hoptions, -⟩ := optionsOfUrl_pageLink hread hskip htop
  have hrequest : (optionsOfUrl request).count = some true := by decide +kernel
  have hcount : (optionsOfUrl next).count = none := by
    rw [hoptions]
    decide +kernel
  refine ⟨request, next, hread, hnext, hrequest, hcount, ?_⟩
  intro hsame
  have hcount' : ((optionsOfUrl request).withPart (some 1) none).count = none := hsame ▸ hcount
  exact absurd (hrequest.symm.trans hcount') (by decide)

end Collection

end OData

import OData.Proofs.Progress

/-!
# When a page has a link

A page has a link just when the server cut it short: when the client asked for
more of the collection than the page holds.  The link asks for the rest, from
the first record that is missing up to what the client asked for
(`isSome_nextLink_iff`).

The server decides this from the number of records that it kept, which
`isCapped_and_lt_iff` compares with the part that the client asked for.
-/

namespace OData

/-! ## The paging parameters of a link -/

section Pairs

variable (pairs : List (String × String)) (skip : Nat) (top : Option Nat)

/-- No paging parameter of the request is left. -/
theorem filter_pagePairs_of_isPaging {key : String} (h : ∀ value, isPaging (key, value) = true) :
    (pagePairs pairs skip top).filter (fun pair => pair.1 = key) =
      ((top.map fun n => (topKey, toString n)).toList ++ [(skipKey, toString skip)]).filter
        (fun pair => pair.1 = key) := by
  have hkept : (pairs.filter fun pair => !isPaging pair).filter (fun pair => pair.1 = key) = [] := by
    rw [List.filter_eq_nil_iff]
    rintro ⟨key', value⟩ hmem hkey
    obtain rfl := of_decide_eq_true hkey
    have hother := (List.mem_filter.1 hmem).2
    rw [h value] at hother
    cases hother
  rw [pagePairs, List.append_assoc, List.filter_append, hkept, List.nil_append]

theorem filter_skipKey_pagePairs :
    (pagePairs pairs skip top).filter (fun pair => pair.1 = skipKey) =
      [(skipKey, toString skip)] := by
  rw [filter_pagePairs_of_isPaging pairs skip top fun _ => rfl]
  cases top <;> rfl

theorem filter_topKey_pagePairs :
    (pagePairs pairs skip top).filter (fun pair => pair.1 = topKey) =
      (top.map fun n => (topKey, toString n)).toList := by
  rw [filter_pagePairs_of_isPaging pairs skip top fun _ => rfl]
  cases top <;> rfl

end Pairs

namespace Collection

/-! ## What the client asked for -/

/-- The records that a client asks for, however few of them the server puts on a page. -/
def askedFor (options : QueryOptions) (kept : List Json) : List Json :=
  page (options.skip.getD 0) options.top (order options.orderBy kept)

theorem length_askedFor (options : QueryOptions) (kept : List Json) :
    (askedFor options kept).length =
      min (options.top.getD kept.length) (kept.length - options.skip.getD 0) := by
  rw [askedFor, length_page, length_order]

/-- The server cut a page and records remain just when the page is shorter than what was asked for. -/
theorem isCapped_and_lt_iff (limits : Limits) (requested : Option Nat) {skip length matched : Nat}
    (hlength : length = min ((limits.effectiveTop requested).getD matched) (matched - skip))
    (hmatched : matched ≤ greatestSize) :
    isCapped requested (limits.effectiveTop requested) = true ∧
        min greatestSize (skip + length) < matched ↔
      length < min (requested.getD matched) (matched - skip) := by
  subst hlength
  cases hmax : limits.maxTop with
  | none =>
    -- A server without a cap gives what is asked for.
    have htop : limits.effectiveTop requested = requested := by
      cases requested <;> simp [Limits.effectiveTop, hmax]
    cases requested <;> simp [htop, isCapped]
  | some m =>
    cases requested with
    | none =>
      have htop : limits.effectiveTop none = some m := by simp [Limits.effectiveTop, hmax]
      simp only [htop, isCapped, Option.getD_some, Option.getD_none, true_and]
      omega
    | some t =>
      have htop : limits.effectiveTop (some t) = some (min t m) := by
        simp [Limits.effectiveTop, hmax]
      simp only [htop, isCapped, Option.getD_some, decide_eq_true_eq]
      omega

namespace Pipeline

/-- The pipeline of a server that does not cut pages. -/
def uncapped (p : Pipeline) : Pipeline :=
  { p with config := { p.config with limits := { p.config.limits with maxTop := none } } }

theorem filter_uncapped (p : Pipeline) (text : Option String) (records : List Json) :
    p.uncapped.filter text records = p.filter text records := rfl

theorem effectiveTop_uncapped (p : Pipeline) (requested : Option Nat) :
    p.uncapped.config.limits.effectiveTop requested = requested := by
  cases requested <;> rfl

/-- Without a cap, a query gives as many records as it asks for. -/
theorem length_run_uncapped {p : Pipeline} {options : QueryOptions}
    {records kept values : List Json} (hfilter : p.filter options.filterText records = .ok kept)
    (h : p.uncapped.run options records = .ok values) :
    values.length = (askedFor options kept).length := by
  cases hshape : p.uncapped.shape options records with
  | error fault =>
    rw [run, hshape] at h
    cases h
  | ok shaped =>
    rw [run, hshape] at h
    cases h
    obtain ⟨kept', hkept, -, hskip, htop, hlength⟩ := shape_spec hshape
    rw [filter_uncapped, hfilter] at hkept
    cases hkept
    rw [hlength, hskip, htop, effectiveTop_uncapped, length_askedFor]

end Pipeline

/-! ## The link -/

section Links

variable {U : Type} [UrlSyntax U] [LawfulUrlSyntax U] {p : Pipeline} {options : QueryOptions}
variable {records : List Json}

/-- A page has a link just when the server cut it short, that is when the client asked for more than
the page holds.  The link then passes over the records of the page on top of those that the client
passed over, and asks for what is left of the number that the client asked for. -/
theorem isSome_nextLink_iff (hrecords : records.length ≤ greatestSize) {text context : String}
    {url : U} (hread : UrlSyntax.read? text = some url) {answer : Envelope}
    (h : p.execute options records context (some url) = .ok answer) :
    ∃ kept, p.filter options.filterText records = .ok kept ∧
      (answer.nextLink.isSome = true ↔ answer.value.length < (askedFor options kept).length) ∧
      (∀ values, p.uncapped.run options records = .ok values →
        values.length = (askedFor options kept).length) ∧
      ∀ link ∈ answer.nextLink, ∃ next : U, UrlSyntax.read? link = some next ∧
        ((UrlSyntax.pairs next).filter fun pair => pair.1 = skipKey) =
          [(skipKey, toString (options.skip.getD 0 + answer.value.length))] ∧
        ((UrlSyntax.pairs next).filter fun pair => pair.1 = topKey) =
          (options.top.map fun t => (topKey, toString (t - answer.value.length))).toList := by
  obtain ⟨shaped, hshape, hvalue, hlink⟩ := Pipeline.exists_shape_of_execute h
  obtain ⟨kept, hfilter, hmatched, hskip, htop, hlength⟩ := Pipeline.shape_spec hshape
  have hkept := Nat.le_trans (Pipeline.length_filter_le hfilter) hrecords
  rw [htop, hskip] at hlength
  have hcut := isCapped_and_lt_iff p.config.limits options.top hlength hkept
  rw [hvalue]
  refine ⟨kept, hfilter, ?_, fun values => Pipeline.length_run_uncapped hfilter, ?_⟩
  · rw [length_askedFor, ← hcut, Option.isSome_iff_exists, hlink]
    simp only [nextLink?_eq_some_iff, hskip, htop, hmatched]
    constructor
    · rintro ⟨link, hcapped, hlt, -⟩
      exact ⟨hcapped, hlt⟩
    · rintro ⟨hcapped, hlt⟩
      exact ⟨_, hcapped, hlt, url, rfl, rfl⟩
  · intro link hmem
    rw [hlink, Option.mem_def, nextLink?_eq_some_iff, hskip, hmatched] at hmem
    obtain ⟨-, hlt, _, ⟨⟩, rfl⟩ := hmem
    have hsize : min greatestSize (options.skip.getD 0 + shaped.value.length) =
        options.skip.getD 0 + shaped.value.length := by omega
    rw [hsize]
    refine ⟨_, read?_pageLink hread _ _, ?_, ?_⟩
    · rw [pairs_pageUrl, filter_skipKey_pagePairs]
    · rw [pairs_pageUrl, filter_topKey_pagePairs, Option.map_map]
      rfl

end Links

/-- Of five records the client asks for all but the first, and gets two with a link to the others. -/
theorem isSome_nextLink_iff_two_of_four :
    let p : Pipeline := ⟨{ limits := { maxTop := some 2 } }, .empty⟩
    let records := [1, 2, 3, 4, 5].map Json.ofNat
    ∃ (url next : Url) (answer : Envelope) (link : String),
      Url.read? "http://h/r?$skip=1&$top=4" = some url ∧
      p.execute (optionsOfUrl url) records "c" (some url) = .ok answer ∧
      answer.value.length = 2 ∧ answer.nextLink = some link ∧ Url.read? link = some next ∧
      ((UrlSyntax.pairs next).filter fun pair => pair.1 = skipKey) = [(skipKey, "3")] ∧
      ((UrlSyntax.pairs next).filter fun pair => pair.1 = topKey) = [(topKey, "2")] := by
  intro p records
  have hread : UrlSyntax.read? "http://h/r?$skip=1&$top=4" =
      some (⟨.http, "", "", "h", none, ["r"], some "$skip=1&$top=4", none⟩ : Url) := by
    decide +kernel
  have hoptions : optionsOfUrl (⟨.http, "", "", "h", none, ["r"], some "$skip=1&$top=4", none⟩ : Url) =
      { skip := some 1, top := some 4 } := by rfl
  generalize (⟨.http, "", "", "h", none, ["r"], some "$skip=1&$top=4", none⟩ : Url) = url
    at hread hoptions
  have hshape : p.shape (optionsOfUrl url) records =
      .ok ⟨[2, 3].map Json.ofNat, 5, 1, some 2⟩ := by
    rw [hoptions, Pipeline.shape_eq]
    simp only [Pipeline.selected, order_nil]
    rfl
  have hexecute : p.execute (optionsOfUrl url) records "c" (some url) =
      .ok ⟨"c", none, [2, 3].map Json.ofNat, some (pageLink url 3 (some 2))⟩ := by
    rw [Pipeline.execute_eq hshape, hoptions]
    rfl
  have hrecords : records.length ≤ greatestSize := by decide
  obtain ⟨kept, -, -, -, hlink⟩ := isSome_nextLink_iff hrecords hread hexecute
  obtain ⟨next, hnext, hskip, htop⟩ := hlink _ rfl
  rw [hoptions] at hskip htop
  refine ⟨url, next, _, _, hread, hexecute, rfl, rfl, hnext, hskip.trans ?_, htop.trans ?_⟩
  · change [(skipKey, toString 3)] = _
    decide +kernel
  · change [(topKey, toString 2)] = _
    decide +kernel

end Collection

end OData

import OData.Proofs.Paging

/-!
# Links make progress

A page that has a link is full, and its link passes over the records of the page
on top of those that the request passed over (`exists_of_nextLink`).  So where a
page may hold a record, every link passes over more records than the request
did, and a client that follows links finishes (`exists_walk`).

On a server whose pages hold no record a link asks for the same page again
(`nextLink_of_empty_page`).
-/

namespace OData.Collection

open OData.Filter (Fault)

/-! ## One answer -/

section Links

variable {U : Type} [UrlSyntax U]

theorem nextLink?_eq_some_iff {requested : Option Nat} {shaped : Shaped} {request : Option U}
    {link : String} :
    nextLink? requested shaped request = some link ↔
      isCapped requested shaped.top = true ∧
      min greatestSize (shaped.skip + shaped.value.length) < shaped.matched ∧
      ∃ url ∈ request, pageLink url (min greatestSize (shaped.skip + shaped.value.length))
        (requested.map (· - shaped.value.length)) = link := by
  simp only [nextLink?]
  split
  case isTrue h =>
    simp only [Bool.and_eq_true, decide_eq_true_eq] at h
    simp [h]
  case isFalse h =>
    simp only [Bool.and_eq_true, decide_eq_true_eq] at h
    constructor
    · intro hlink
      cases hlink
    · rintro ⟨hcapped, hnext, -⟩
      exact absurd ⟨hcapped, hnext⟩ h

/-- A page is cut only by a server with a cap, and then it is as long as the cap. -/
theorem exists_of_isCapped {limits : Limits} {requested : Option Nat}
    (h : isCapped requested (limits.effectiveTop requested) = true) :
    ∃ m, limits.maxTop = some m ∧ limits.effectiveTop requested = some m := by
  cases hmax : limits.maxTop with
  | none => cases requested <;> simp [Limits.effectiveTop, hmax, isCapped] at h
  | some m =>
    refine ⟨m, rfl, ?_⟩
    cases requested with
    | none => simp [Limits.effectiveTop, hmax]
    | some t =>
      have hlt := (Pipeline.isCapped_effectiveTop hmax (some t)).1 h t rfl
      simp only [Limits.effectiveTop, hmax, Option.some.injEq]
      omega

namespace Pipeline

variable {p : Pipeline} {options : QueryOptions} {records : List Json}

/-- The parts of a shaped collection. -/
theorem shape_spec {shaped : Shaped} (h : p.shape options records = .ok shaped) :
    ∃ kept, p.filter options.filterText records = .ok kept ∧ shaped.matched = kept.length ∧
      shaped.skip = options.skip.getD 0 ∧
      shaped.top = p.config.limits.effectiveTop options.top ∧
      shaped.value.length = min (shaped.top.getD kept.length) (kept.length - shaped.skip) := by
  rw [shape_eq] at h
  cases hfilter : p.filter options.filterText records with
  | error fault =>
    rw [hfilter] at h
    cases h
  | ok kept =>
    rw [hfilter] at h
    simp only [Except.bind] at h
    cases hvalues : (p.expandAll options.expand
        (selected options (p.config.limits.effectiveTop options.top) kept)).toExcept with
    | error fault =>
      rw [hvalues] at h
      cases h
    | ok values =>
      rw [hvalues] at h
      cases h
      refine ⟨kept, rfl, rfl, rfl, rfl, ?_⟩
      rw [Attempt.length_of_toExcept_each hvalues, selected, length_project, length_page,
        length_order]

/-- An answer is that of a shaped collection. -/
theorem exists_shape_of_execute {context : String} {request : Option U} {answer : Envelope}
    (h : p.execute options records context request = .ok answer) :
    ∃ shaped, p.shape options records = .ok shaped ∧ answer.value = shaped.value ∧
      answer.nextLink = nextLink? options.top shaped request := by
  cases hshape : p.shape options records with
  | error fault =>
    rw [execute, hshape] at h
    cases h
  | ok shaped =>
    rw [execute_eq hshape] at h
    cases h
    exact ⟨shaped, rfl, rfl, rfl⟩

/-- The page that has a link is full, and the link passes over it. -/
theorem exists_of_nextLink {context : String} {url : U} {answer : Envelope} {link : String}
    (hrecords : records.length ≤ greatestSize)
    (h : p.execute options records context (some url) = .ok answer)
    (hlink : answer.nextLink = some link) :
    ∃ m, p.config.limits.maxTop = some m ∧ options.skip.getD 0 + m < records.length ∧
      link = pageLink url (options.skip.getD 0 + m) (options.top.map (· - m)) := by
  obtain ⟨shaped, hshape, -, hanswer⟩ := exists_shape_of_execute h
  obtain ⟨kept, hfilter, hmatched, hskip, htop, hlength⟩ := shape_spec hshape
  rw [hanswer, nextLink?_eq_some_iff, hmatched] at hlink
  obtain ⟨hcapped, hnext, _, ⟨⟩, rfl⟩ := hlink
  rw [htop] at hcapped
  obtain ⟨m, hmax, hcap⟩ := exists_of_isCapped hcapped
  rw [htop, hcap, Option.getD_some] at hlength
  have hkept := length_filter_le hfilter
  -- Records remain behind the page, so it was the cap that ended it.
  have hfull : shaped.value.length = m := by omega
  have hsize : min greatestSize (shaped.skip + m) = shaped.skip + m := by omega
  rw [hfull, hsize] at hnext
  refine ⟨m, hmax, by omega, ?_⟩
  rw [hfull, hsize, hskip]

end Pipeline

end Links

/-! ## All answers -/

section Walks

variable {U : Type} [UrlSyntax U] [LawfulUrlSyntax U]
variable {p : Pipeline} {records : List Json} {context : String}

/-- A link is read as a URL that passes over what the request and its page passed over. -/
theorem Pipeline.exists_next {options : QueryOptions} {text : String} {url : U} {answer : Envelope}
    {link : String} (hrecords : records.length ≤ greatestSize)
    (hread : UrlSyntax.read? text = some url)
    (h : p.execute options records context (some url) = .ok answer)
    (hlink : answer.nextLink = some link) :
    ∃ (next : U) (m : Nat), p.config.limits.maxTop = some m ∧
      options.skip.getD 0 + m < records.length ∧ UrlSyntax.read? link = some next ∧
      (optionsOfUrl next).skip = some (options.skip.getD 0 + m) := by
  obtain ⟨m, hmax, hlt, rfl⟩ := Pipeline.exists_of_nextLink hrecords h hlink
  refine ⟨_, m, hmax, hlt, read?_pageLink hread _ _, ?_⟩
  rw [optionsOfUrl_pageUrl_eq_decode, Nat.min_eq_right (by omega)]
  rfl

/-- A walk is finite where a page may hold a record: every link passes over at least one more. -/
theorem exists_walk (hmax : p.config.limits.maxTop ≠ some 0)
    (hrecords : records.length ≤ greatestSize) {text : String} {url : U}
    (hread : UrlSyntax.read? text = some url) :
    ∃ answers : List (Except Fault Envelope),
      answers.length ≤ records.length - (optionsOfUrl url).skip.getD 0 + 1 ∧
      ∀ most, p.walk records context most url = answers.take most := by
  -- The induction is on the number of records that are not passed over yet.
  induction hleft : records.length - (optionsOfUrl url).skip.getD 0 using Nat.strongRecOn
    generalizing url text with
  | _ n ih =>
    have hend {answer : Except Fault Envelope}
        (h : ∀ most, p.walk records context (most + 1) url = [answer]) :
        ∀ most, p.walk records context most url = [answer].take most := by
      intro most
      cases most with
      | zero => rfl
      | succ most => rw [h, List.take_succ_cons, List.take_nil]
    cases hexecute : p.execute (optionsOfUrl url) records context (some url) with
    | error fault =>
      refine ⟨[.error fault], Nat.le_add_left _ _, hend fun most => ?_⟩
      simp only [Pipeline.walk, hexecute]
    | ok answer =>
      cases hlink : answer.nextLink with
      | none =>
        exact ⟨[.ok answer], Nat.le_add_left _ _, hend (Pipeline.walk_succ_of_last hexecute hlink)⟩
      | some link =>
        obtain ⟨next, m, hm, hlt, hnext, hskip⟩ :=
          Pipeline.exists_next hrecords hread hexecute hlink
        have hpos : m ≠ 0 := by
          rintro rfl
          exact hmax hm
        obtain ⟨answers, hlength, hwalk⟩ := ih _
          (by rw [hskip, Option.getD_some]; omega) hnext rfl
        rw [hskip, Option.getD_some] at hlength
        refine ⟨.ok answer :: answers, ?_, ?_⟩
        · rw [List.length_cons]
          omega
        · intro most
          cases most with
          | zero => rfl
          | succ most =>
            rw [Pipeline.walk_succ_of_more hexecute hlink hnext, hwalk, List.take_succ_cons]

/-- Every link makes progress where a page may hold a record: it is a URL that passes over more
records than the options that were answered.  So a client that follows links finishes, with at most
one answer more than there are records. -/
theorem skip_lt_of_nextLink (hmax : p.config.limits.maxTop ≠ some 0)
    (hrecords : records.length ≤ greatestSize) (context : String) {text : String} {url : U}
    (hread : UrlSyntax.read? text = some url) :
    (∀ (options : QueryOptions) (answer : Envelope) (link : String),
      p.execute options records context (some url) = .ok answer →
      answer.nextLink = some link →
      ∃ (next : U) (skip : Nat), UrlSyntax.read? link = some next ∧
        (optionsOfUrl next).skip = some skip ∧ options.skip.getD 0 < skip) ∧
    ∃ answers : List (Except Fault Envelope), answers.length ≤ records.length + 1 ∧
      ∀ most, p.walk records context most url = answers.take most := by
  constructor
  · intro options answer link h hlink
    obtain ⟨next, m, hm, -, hnext, hskip⟩ := Pipeline.exists_next hrecords hread h hlink
    have hpos : m ≠ 0 := by
      rintro rfl
      exact hmax hm
    exact ⟨next, options.skip.getD 0 + m, hnext, hskip, by omega⟩
  · obtain ⟨answers, hlength, hwalk⟩ := exists_walk (p := p) hmax hrecords hread
    exact ⟨answers, by omega, hwalk⟩

end Walks

/-- With one record on a page, the second of three records links to the third, and the walk ends. -/
theorem skip_lt_of_nextLink_second :
    let p : Pipeline := ⟨{ limits := { maxTop := some 1 } }, .empty⟩
    let records : List Json := [.null, .bool true, .bool false]
    ∃ (url next : Url) (answer : Envelope) (link : String),
      Url.read? "http://h/r?$skip=1" = some url ∧
      p.execute (optionsOfUrl url) records "c" (some url) = .ok answer ∧
      answer.nextLink = some link ∧ Url.read? link = some next ∧
      (∃ skip, (optionsOfUrl next).skip = some skip ∧ (optionsOfUrl url).skip.getD 0 < skip) ∧
      ∃ answers : List (Except Fault Envelope), answers.length ≤ 4 ∧
        ∀ most, p.walk records "c" most url = answers.take most := by
  intro p records
  have hread : UrlSyntax.read? "http://h/r?$skip=1" =
      some (⟨.http, "", "", "h", none, ["r"], some "$skip=1", none⟩ : Url) := by decide +kernel
  have hoptions : optionsOfUrl (⟨.http, "", "", "h", none, ["r"], some "$skip=1", none⟩ : Url) =
      { skip := some 1 } := by rfl
  generalize (⟨.http, "", "", "h", none, ["r"], some "$skip=1", none⟩ : Url) = url
    at hread hoptions
  have hshape : p.shape (optionsOfUrl url) records = .ok ⟨[.bool true], 3, 1, some 1⟩ := by
    rw [hoptions, Pipeline.shape_eq]
    simp only [Pipeline.selected, order_nil]
    rfl
  have hexecute : p.execute (optionsOfUrl url) records "c" (some url) =
      .ok ⟨"c", none, [.bool true], some (pageLink url 2 none)⟩ := by
    rw [Pipeline.execute_eq hshape, hoptions]
    rfl
  have hrecords : records.length ≤ greatestSize := by decide
  obtain ⟨hprogress, answers, hlength, hwalk⟩ :=
    skip_lt_of_nextLink (p := p) (by decide) hrecords "c" hread
  obtain ⟨next, skip, hnext, hskip, hlt⟩ := hprogress _ _ _ hexecute rfl
  exact ⟨url, next, _, _, hread, hexecute, rfl, hnext, ⟨skip, hskip, hlt⟩, answers, hlength, hwalk⟩

/-- A page that may hold no record links to itself: the record is never passed over. -/
theorem nextLink_of_empty_page :
    let p : Pipeline := ⟨{ limits := { maxTop := some 0 } }, .empty⟩
    ∃ (url next : Url) (answer : Envelope) (link : String),
      Url.read? "http://h/r?$skip=0" = some url ∧
      p.execute (optionsOfUrl url) [.null] "c" (some url) = .ok answer ∧
      answer.nextLink = some link ∧ Url.read? link = some next ∧
      (optionsOfUrl url).skip = some 0 ∧ (optionsOfUrl next).skip = some 0 := by
  intro p
  have hread : UrlSyntax.read? "http://h/r?$skip=0" =
      some (⟨.http, "", "", "h", none, ["r"], some "$skip=0", none⟩ : Url) := by decide +kernel
  have hoptions : optionsOfUrl (⟨.http, "", "", "h", none, ["r"], some "$skip=0", none⟩ : Url) =
      { skip := some 0 } := by rfl
  generalize (⟨.http, "", "", "h", none, ["r"], some "$skip=0", none⟩ : Url) = url
    at hread hoptions
  have hshape : p.shape (optionsOfUrl url) [.null] = .ok ⟨[], 1, 0, some 0⟩ := by
    rw [hoptions, Pipeline.shape_eq]
    simp only [Pipeline.selected, order_nil]
    rfl
  have hexecute : p.execute (optionsOfUrl url) [.null] "c" (some url) =
      .ok ⟨"c", none, [], some (pageLink url 0 none)⟩ := by
    rw [Pipeline.execute_eq hshape, hoptions]
    rfl
  refine ⟨url, pageUrl url 0 none, _, _, hread, hexecute, rfl, read?_pageLink hread 0 none,
    by rw [hoptions], ?_⟩
  rw [optionsOfUrl_pageUrl_eq_decode]
  rfl

end OData.Collection

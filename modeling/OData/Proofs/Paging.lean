import OData.Collection.Walk
import OData.Proofs.NextPage
import OData.Proofs.Stages
import OData.Proofs.UrlText

/-!
# Walking through all pages

A server that cuts pages hands over the same records as one that does not.  A
page is the start of what is left, and its link asks for the rest
(`execute_last`, `execute_more`), so a walk cuts the records into full pages and
a last one (`paged_walk`).
-/

namespace OData.Collection

open OData.Filter (Fault)

/-! ## All records -/

namespace Pipeline

/-- The records of a query, no matter how many of them fit on a page. -/
def whole (p : Pipeline) (options : QueryOptions) (records : List Json) :
    Except Fault (List Json) := do
  let kept ← p.filter options.filterText records
  (p.expandAll options.expand (selected options options.top kept)).toExcept

theorem whole_eq_ok_iff {p : Pipeline} {options : QueryOptions} {records values : List Json} :
    p.whole options records = .ok values ↔
      ∃ kept, p.filter options.filterText records = .ok kept ∧
        (p.expandAll options.expand (selected options options.top kept)).toExcept = .ok values := by
  rw [whole]
  cases p.filter options.filterText records with
  | error fault =>
    constructor
    · nofun
    · rintro ⟨kept, h, -⟩
      cases h
  | ok kept =>
    constructor
    · intro h
      exact ⟨kept, rfl, h⟩
    · rintro ⟨kept, ⟨⟩, h⟩
      exact h

/-! ## One page -/

section Pages

variable {p : Pipeline} {options : QueryOptions} {records kept values : List Json} {m : Nat}
variable (hfilter : p.filter options.filterText records = .ok kept)
variable (hvalues :
  (p.expandAll options.expand (selected options options.top kept)).toExcept = .ok values)

include hvalues in
theorem length_values :
    values.length =
      min (options.top.getD kept.length) (kept.length - options.skip.getD 0) := by
  rw [Attempt.length_of_toExcept_each hvalues, selected, length_project, length_page, length_order]

include hfilter hvalues in
/-- A page is the start of all records. -/
theorem shape_of_maxTop (hmax : p.config.limits.maxTop = some m) :
    p.shape options records = .ok ⟨values.take m, kept.length, options.skip.getD 0,
      p.config.limits.effectiveTop options.top⟩ := by
  have hselected : selected options (p.config.limits.effectiveTop options.top) kept =
      (selected options options.top kept).take m := by
    rw [selected, page_effectiveTop _ _ _ hmax, project_take, selected]
  have htake := Attempt.toExcept_each_take hvalues m
  rw [shape_eq, hfilter]
  simp only [Except.bind, hselected]
  rw [expandAll, htake]

include hfilter hvalues in
/-- What a page leaves is what the part behind it asks for. -/
theorem whole_withPart :
    p.whole (options.withPart (some (options.skip.getD 0 + m)) (options.top.map (· - m))) records =
      .ok (values.drop m) := by
  have hselected : selected
      (options.withPart (some (options.skip.getD 0 + m)) (options.top.map (· - m)))
      (options.top.map (· - m)) kept = (selected options options.top kept).drop m := by
    rw [selected, selected, ← project_drop, ← page_add]
    rfl
  refine whole_eq_ok_iff.2 ⟨kept, hfilter, ?_⟩
  have hdrop := Attempt.toExcept_each_drop hvalues m
  rw [← hselected] at hdrop
  exact hdrop

/-- The server cuts the page unless the client asks for no more than a page. -/
theorem isCapped_effectiveTop {limits : Limits} (hmax : limits.maxTop = some m)
    (top : Option Nat) :
    isCapped top (limits.effectiveTop top) = true ↔ ∀ t ∈ top, m < t := by
  cases top with
  | none => simp [Limits.effectiveTop, hmax, isCapped]
  | some t =>
    simp only [Limits.effectiveTop, hmax, isCapped, decide_eq_true_eq, Option.mem_def,
      Option.some.injEq, forall_eq']
    omega

variable {U : Type} [UrlSyntax U]
variable (hmax : p.config.limits.maxTop = some m) (hkept : kept.length ≤ greatestSize)

include hvalues hmax hkept in
/-- A page that holds all there is has no link. -/
theorem nextLink?_last (hle : values.length ≤ m) (request : Option U) :
    nextLink? options.top ⟨values.take m, kept.length, options.skip.getD 0,
      p.config.limits.effectiveTop options.top⟩ request = none := by
  have hlength := length_values hvalues
  simp only [nextLink?, List.take_of_length_le hle]
  rw [if_neg]
  simp only [Bool.and_eq_true, decide_eq_true_eq, isCapped_effectiveTop hmax, not_and]
  intro hcapped
  cases htop : options.top with
  | none =>
    rw [htop, Option.getD_none] at hlength
    omega
  | some t =>
    have ht := hcapped t htop
    rw [htop, Option.getD_some] at hlength
    omega

include hvalues hmax hkept in
/-- A page that leaves records links to them. -/
theorem nextLink?_more (hlt : m < values.length) (request : U) :
    nextLink? options.top ⟨values.take m, kept.length, options.skip.getD 0,
      p.config.limits.effectiveTop options.top⟩ (some request) =
      some (pageLink request (options.skip.getD 0 + m) (options.top.map (· - m))) := by
  have hlength := length_values hvalues
  have htake : (values.take m).length = m := by
    rw [List.length_take, Nat.min_eq_left (Nat.le_of_lt hlt)]
  have hcapped : isCapped options.top (p.config.limits.effectiveTop options.top) = true := by
    rw [isCapped_effectiveTop hmax]
    intro t ht
    rw [ht, Option.getD_some] at hlength
    omega
  have hrest : options.skip.getD 0 + m < kept.length := by omega
  have hnext : min greatestSize (options.skip.getD 0 + m) = options.skip.getD 0 + m := by omega
  simp only [nextLink?, htake, hcapped, hnext, hrest, decide_true, Bool.and_true, if_true,
    Option.map_some]

end Pages

/-- Filtering leaves no more records than there were. -/
theorem length_filter_le {p : Pipeline} {text : Option String} {records kept : List Json}
    (h : p.filter text records = .ok kept) : kept.length ≤ records.length := by
  rw [filter.eq_def] at h
  split at h
  · cases h
    exact Nat.le_refl _
  · split at h
    · cases h
      exact List.length_filter_le _ _
    · split at h
      · cases h
        exact Nat.le_refl _
      · cases h

/-- The number of records that an answer reports. -/
def countOf (options : QueryOptions) (kept : List Json) : Option Nat :=
  if options.wantsCount then some kept.length else none

theorem execute_eq {U : Type} [UrlSyntax U] {p : Pipeline} {options : QueryOptions}
    {records : List Json} {shaped : Shaped} (h : p.shape options records = .ok shaped)
    (context : String) (request : Option U) :
    p.execute options records context request =
      .ok ⟨context, if options.wantsCount then some shaped.matched else none, shaped.value,
        nextLink? options.top shaped request⟩ := by
  rw [execute, h]
  rfl

section Answers

variable {U : Type} [UrlSyntax U] {p : Pipeline} {options : QueryOptions}
variable {records kept values : List Json} {m : Nat}
variable (hfilter : p.filter options.filterText records = .ok kept)
variable (hvalues :
  (p.expandAll options.expand (selected options options.top kept)).toExcept = .ok values)
variable (hmax : p.config.limits.maxTop = some m) (hrecords : records.length ≤ greatestSize)
include hfilter hvalues hmax hrecords

/-- If all records fit on a page, the answer has them all and no link. -/
theorem execute_last (hle : values.length ≤ m) (context : String) (request : Option U) :
    p.execute options records context request =
      .ok ⟨context, countOf options kept, values, none⟩ := by
  have hkept := Nat.le_trans (length_filter_le hfilter) hrecords
  have hlink := nextLink?_last hvalues hmax hkept hle request
  have hshape := shape_of_maxTop hfilter hvalues hmax
  rw [List.take_of_length_le hle] at hlink hshape
  rw [execute_eq hshape, hlink]
  rfl

/-- If not, the answer has a full page and a link to the part behind it. -/
theorem execute_more (hlt : m < values.length) (context : String) (request : U) :
    p.execute options records context (some request) =
      .ok ⟨context, countOf options kept, values.take m,
        some (pageLink request (options.skip.getD 0 + m) (options.top.map (· - m)))⟩ := by
  have hkept := Nat.le_trans (length_filter_le hfilter) hrecords
  have hlink := nextLink?_more hvalues hmax hkept hlt request
  rw [execute_eq (shape_of_maxTop hfilter hvalues hmax), hlink]
  rfl

end Answers

/-! ## One step of a walk -/

section Steps

variable {U : Type} [UrlSyntax U] {p : Pipeline} {records : List Json} {context : String} {url : U}
variable {answer : Envelope} (h : p.execute (optionsOfUrl url) records context (some url) = .ok answer)
include h

theorem walk_succ_of_last (hlink : answer.nextLink = none) (most : Nat) :
    p.walk records context (most + 1) url = [.ok answer] := by
  simp only [walk, h, hlink, Option.bind_none]

theorem walk_succ_of_more {link : String} {next : U} (hlink : answer.nextLink = some link)
    (hread : UrlSyntax.read? link = some next) (most : Nat) :
    p.walk records context (most + 1) url = .ok answer :: p.walk records context most next := by
  simp only [walk, h, hlink, Option.bind_some, hread]

end Steps

end Pipeline

/-! ## All pages -/

/-- Answers that hand over records in pages of a size, all with the same count. -/
inductive Paged (m : Nat) (count : Option Nat) : List Json → List Envelope → Prop
  /-- The last page has all there is and no link. -/
  | last {values : List Json} {answer : Envelope} :
    values.length ≤ m →
    answer.value = values →
    answer.count = count →
    answer.nextLink = none →
    Paged m count values [answer]
  /-- A full page has a link, and the others hand over the rest. -/
  | more {values : List Json} {answer : Envelope} {answers : List Envelope} :
    m < values.length →
    answer.value = values.take m →
    answer.count = count →
    answer.nextLink.isSome →
    Paged m count (values.drop m) answers →
    Paged m count values (answer :: answers)

namespace Paged

variable {m : Nat} {count : Option Nat} {values : List Json} {answers : List Envelope}

theorem ne_nil (h : Paged m count values answers) : answers ≠ [] := by
  cases h <;> simp

/-- There are as many pages as it takes, and at least one. -/
theorem length_eq (hm : 1 ≤ m) (h : Paged m count values answers) :
    answers.length = max 1 ((values.length + m - 1) / m) := by
  induction h with
  | @last values answer hle =>
    have hdiv : (values.length + m - 1) / m ≤ 1 := by
      rw [Nat.div_le_iff_le_mul_add_pred (by omega)]
      omega
    rw [List.length_singleton]
    omega
  | @more values answer answers hlt _ _ _ _ ih =>
    have hsplit : values.length + m - 1 = (values.length - m + m - 1) + m := by omega
    have hpos : 1 ≤ (values.length - m + m - 1) / m := by
      rw [Nat.le_div_iff_mul_le (by omega)]
      omega
    rw [List.length_cons, ih, List.length_drop, hsplit, Nat.add_div_right _ (by omega)]
    omega

/-- The records of all pages are the records handed over. -/
theorem flatten_value (h : Paged m count values answers) :
    (answers.map Envelope.value).flatten = values := by
  induction h with
  | last _ hvalue => simp [hvalue]
  | more _ hvalue _ _ _ ih =>
    rw [List.map_cons, List.flatten_cons, ih, hvalue, List.take_append_drop]

/-- All pages but the last are full. -/
theorem length_value (h : Paged m count values answers) :
    ∀ answer ∈ answers.dropLast, answer.value.length = m ∧ answer.nextLink.isSome := by
  induction h with
  | last => nofun
  | more hlt hvalue _ hlink hrest ih =>
    intro answer hanswer
    rw [List.dropLast_cons_of_ne_nil hrest.ne_nil] at hanswer
    rcases List.mem_cons.1 hanswer with rfl | hanswer
    · refine ⟨?_, hlink⟩
      rw [hvalue, List.length_take, Nat.min_eq_left (Nat.le_of_lt hlt)]
    · exact ih answer hanswer

/-- The last page has no link. -/
theorem nextLink_getLast? (h : Paged m count values answers) :
    ∀ answer ∈ answers.getLast?, answer.nextLink = none := by
  induction h with
  | last _ _ _ hlink =>
    rintro answer ⟨⟩
    exact hlink
  | more _ _ _ _ hrest ih =>
    intro answer hanswer
    rw [List.getLast?_cons_of_ne_nil hrest.ne_nil] at hanswer
    exact ih answer hanswer

/-- All pages report the same count. -/
theorem count_eq (h : Paged m count values answers) : ∀ answer ∈ answers, answer.count = count := by
  induction h with
  | last _ _ hcount => simpa using hcount
  | more _ _ hcount _ _ ih =>
    intro answer hanswer
    rcases List.mem_cons.1 hanswer with rfl | hanswer
    · exact hcount
    · exact ih answer hanswer

end Paged

/-! ## The walk -/

section Walks

variable {U : Type} [UrlSyntax U] [LawfulUrlSyntax U]
variable {p : Pipeline} {records kept : List Json} {m : Nat}

/-- The link to the next page asks for the part behind the page. -/
theorem optionsOfUrl_nextPage {url : U} (hquery : HasPlainQuery url)
    (hsize : (optionsOfUrl url).skip.getD 0 + m ≤ greatestSize) :
    optionsOfUrl (pageUrl url ((optionsOfUrl url).skip.getD 0 + m)
        ((optionsOfUrl url).top.map (· - m))) =
      (optionsOfUrl url).withPart (some ((optionsOfUrl url).skip.getD 0 + m))
        ((optionsOfUrl url).top.map (· - m)) := by
  have htop : ((optionsOfUrl url).top.map (· - m)).map (min greatestSize) =
      (optionsOfUrl url).top.map (· - m) := by
    cases h : (optionsOfUrl url).top with
    | none => rfl
    | some t =>
      have hle := top_optionsOfUrl_le url t h
      have hmin : min greatestSize (t - m) = t - m := by omega
      rw [Option.map_some, Option.map_some, hmin]
  rw [optionsOfUrl_pageUrl hquery, htop, Nat.min_eq_right hsize]

/-- A walk hands over all records in pages. -/
theorem paged_walk (hmax : p.config.limits.maxTop = some m) (hm : 1 ≤ m)
    (hrecords : records.length ≤ greatestSize) (context : String)
    {text : String} {url : U} (hread : UrlSyntax.read? text = some url)
    (hquery : HasPlainQuery url)
    (hfilter : p.filter (optionsOfUrl url).filterText records = .ok kept)
    {values : List Json} (hvalues : p.whole (optionsOfUrl url) records = .ok values) :
    ∃ answers, Paged m (Pipeline.countOf (optionsOfUrl url) kept) values answers ∧
      ∀ most, p.walk records context most url = (answers.take most).map .ok := by
  -- Every page takes some of the records, so the induction is on how many are left.
  induction hlength : values.length using Nat.strongRecOn generalizing values url text with
  | _ n ih =>
    subst hlength
    obtain ⟨_, hsame, hexpanded⟩ := Pipeline.whole_eq_ok_iff.1 hvalues
    obtain rfl := Except.ok.inj (hfilter.symm.trans hsame)
    rcases Nat.lt_or_ge m values.length with hlt | hle
    · have hpage := Pipeline.execute_more hfilter hexpanded hmax hrecords hlt context url
      have hsize : (optionsOfUrl url).skip.getD 0 + m ≤ greatestSize := by
        have hkept := Pipeline.length_filter_le hfilter
        have hall := Pipeline.length_values hexpanded
        omega
      have hnext := optionsOfUrl_nextPage hquery hsize
      have hnextRead := read?_pageLink hread ((optionsOfUrl url).skip.getD 0 + m)
        ((optionsOfUrl url).top.map (· - m))
      have hrest := Pipeline.whole_withPart (m := m) hfilter hexpanded
      rw [← hnext] at hrest
      have hsmaller : (values.drop m).length < values.length := by
        rw [List.length_drop]
        omega
      obtain ⟨answers, hpaged, hwalk⟩ := ih _ hsmaller hnextRead (hasPlainQuery_pageUrl _ _)
        (by rw [hnext]; exact hfilter) hrest rfl
      rw [hnext] at hpaged
      generalize pageLink url _ _ = link at hpage hnextRead
      refine ⟨⟨context, Pipeline.countOf (optionsOfUrl url) kept, values.take m, some link⟩ :: answers,
        .more hlt rfl rfl rfl hpaged, ?_⟩
      intro most
      cases most with
      | zero => rfl
      | succ most =>
        rw [Pipeline.walk_succ_of_more hpage rfl hnextRead, hwalk]
        rfl
    · have hpage := Pipeline.execute_last hfilter hexpanded hmax hrecords hle context (some url)
      refine ⟨[⟨context, Pipeline.countOf (optionsOfUrl url) kept, values, none⟩],
        .last hle rfl rfl rfl, ?_⟩
      intro most
      cases most with
      | zero => rfl
      | succ most =>
        rw [Pipeline.walk_succ_of_last hpage rfl, List.take_succ_cons, List.take_nil]
        rfl

/-- Cutting pages loses nothing and hands over nothing twice: a walk ends after as many pages as it
takes, at least one, and their values are all records.  The number of records is a size, as that of
any collection is. -/
theorem walk_eq_whole (hmax : p.config.limits.maxTop = some m) (hm : 1 ≤ m)
    (hrecords : records.length ≤ greatestSize) (context : String)
    {text : String} {url : U} (hread : UrlSyntax.read? text = some url)
    (hquery : HasPlainQuery url)
    {values : List Json} (hvalues : p.whole (optionsOfUrl url) records = .ok values) :
    ∃ (kept : List Json) (answers : List Envelope),
      p.filter (optionsOfUrl url).filterText records = .ok kept ∧
      (∀ most, p.walk records context most url = (answers.take most).map .ok) ∧
      (∀ answer ∈ answers.getLast?, answer.nextLink = none) ∧
      answers.length = max 1 ((values.length + m - 1) / m) ∧
      (answers.map Envelope.value).flatten = values ∧
      (∀ answer ∈ answers.dropLast, answer.value.length = m ∧ answer.nextLink.isSome) ∧
      ∀ answer ∈ answers, answer.count =
        if (optionsOfUrl url).wantsCount then some kept.length else none := by
  obtain ⟨kept, hfilter, -⟩ := Pipeline.whole_eq_ok_iff.1 hvalues
  obtain ⟨answers, hpaged, hwalk⟩ :=
    paged_walk hmax hm hrecords context hread hquery hfilter hvalues
  exact ⟨kept, answers, hfilter, hwalk, hpaged.nextLink_getLast?, hpaged.length_eq hm,
    hpaged.flatten_value, hpaged.length_value, hpaged.count_eq⟩

/-- Three of five records are asked for and two fit on a page, so there are two pages. -/
theorem walk_two_pages :
    let p : Pipeline := ⟨{ limits := { maxTop := some 2 } }, .empty⟩
    let records := [1, 2, 3, 4, 5].map Json.ofNat
    ∃ (url : Url) (answers : List Envelope),
      Url.read? "http://h/r?$skip=1&$top=3&$count=true" = some url ∧
      (∀ most, p.walk records "r" most url = (answers.take most).map .ok) ∧
      answers.length = 2 ∧
      (answers.map Envelope.value).flatten = [2, 3, 4].map Json.ofNat ∧
      ∀ answer ∈ answers, answer.count = some 5 := by
  intro p records
  have hread : UrlSyntax.read? "http://h/r?$skip=1&$top=3&$count=true" =
      some (⟨.http, "", "", "h", none, ["r"], some "$skip=1&$top=3&$count=true", none⟩ : Url) := by
    decide +kernel
  generalize hurl : (⟨.http, "", "", "h", none, ["r"], some "$skip=1&$top=3&$count=true", none⟩ : Url)
    = url at hread
  have hquery : HasPlainQuery url := by
    subst hurl
    rintro q ⟨⟩
    decide
  have hoptions : optionsOfUrl url = { skip := some 1, top := some 3, count := some true } := by
    subst hurl
    rfl
  have hwhole : p.whole (optionsOfUrl url) records = .ok ([2, 3, 4].map Json.ofNat) := by
    rw [hoptions]
    refine Pipeline.whole_eq_ok_iff.2 ⟨records, rfl, ?_⟩
    rw [Pipeline.selected, order_nil]
    rfl
  obtain ⟨kept, answers, hfilter, hwalk, -, hlength, hvalues, -, hcount⟩ :=
    walk_eq_whole (m := 2) rfl (by decide) (by decide) "r" hread hquery hwhole
  refine ⟨url, answers, hread, hwalk, hlength, hvalues, ?_⟩
  intro answer hanswer
  rw [hcount answer hanswer, hoptions]
  rw [hoptions] at hfilter
  cases hfilter
  rfl

end Walks

end OData.Collection

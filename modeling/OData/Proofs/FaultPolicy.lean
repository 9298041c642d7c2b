import OData.Collection.Walk
import OData.Proofs.Stages

/-!
# Passing over refused filters

A server that passes over refused filters answers every query.  It gives what a
server that stops at them gives on the options without the refused filters
(`withoutRefused`), and wherever the other one gets through, both give the same.

Three runs are compared at once: the lenient one, the strict one on the mended
options, and the strict one on the options as they are.  `Agree` says how their
results are related.  It is kept by running one thing after another, so one
induction on the tree of options settles all three runs (`agree_shape`).
-/

namespace OData

/-! ## Options without refused filters -/

/-- Whether a filter text is refused under some limits.  A blank text is no filter. -/
def isRefused (limits : Limits) (text : String) : Bool :=
  !(Text.trimmed text).isEmpty && !(Filter.parse limits text).isOk

mutual
/-- The options without the filters that are refused, at every level. -/
def QueryOptions.withoutRefused (limits : Limits) : QueryOptions → QueryOptions
  | ⟨select, orderBy, top, skip, count, text, expand⟩ =>
    ⟨select, orderBy, top, skip, count, text.filter fun text => !isRefused limits text,
      ExpandItem.allWithoutRefused limits expand⟩

/-- Items whose options are without the filters that are refused. -/
def ExpandItem.allWithoutRefused (limits : Limits) : List ExpandItem → List ExpandItem
  | [] => []
  | item :: items => item.withoutRefused limits :: ExpandItem.allWithoutRefused limits items

/-- An item whose options are without the filters that are refused. -/
def ExpandItem.withoutRefused (limits : Limits) : ExpandItem → ExpandItem
  | ⟨path, none⟩ => ⟨path, none⟩
  | ⟨path, some options⟩ => ⟨path, some (options.withoutRefused limits)⟩
end

theorem ExpandItem.allWithoutRefused_eq_map (limits : Limits) (items : List ExpandItem) :
    allWithoutRefused limits items = items.map (withoutRefused limits) := by
  induction items with
  | nil => rfl
  | cons item items ih => rw [allWithoutRefused, ih, List.map_cons]

namespace Collection

open OData.Filter (Fault)

/-! ## Three results -/

/-- The first two results are one value, and the third is that value or a fault. -/
def Agree {α : Type} (lenient mended strict : Except Fault α) : Prop :=
  ∃ x, lenient = .ok x ∧ mended = .ok x ∧ ∀ y, strict = .ok y → y = x

namespace Agree

variable {α β : Type} {lenient mended strict : Except Fault α}

theorem ok (x : α) : Agree (.ok x) (.ok x) (.ok x) :=
  ⟨x, rfl, rfl, fun _ h => (Except.ok.inj h).symm⟩

/-- What is done next to results that agree agrees. -/
theorem bind {f g h : α → Except Fault β} (hagree : Agree lenient mended strict)
    (hnext : ∀ x, Agree (f x) (g x) (h x)) :
    Agree (lenient.bind f) (mended.bind g) (strict.bind h) := by
  obtain ⟨x, rfl, rfl, hstrict⟩ := hagree
  obtain ⟨y, hf, hg, hh⟩ := hnext x
  refine ⟨y, hf, hg, ?_⟩
  intro z hz
  cases strict with
  | error fault => cases hz
  | ok x' =>
    obtain rfl := hstrict x' rfl
    exact hh z hz

theorem map (f : α → β) (hagree : Agree lenient mended strict) :
    Agree (lenient.map f) (mended.map f) (strict.map f) := by
  obtain ⟨x, rfl, rfl, hstrict⟩ := hagree
  refine ⟨f x, rfl, rfl, ?_⟩
  intro y hy
  cases strict with
  | error fault => cases hy
  | ok x' =>
    cases hy
    rw [hstrict x' rfl]

/-- Lists that are made one by one agree if the makers do. -/
theorem each {f g h : α → Attempt α}
    (hmake : ∀ x, Agree (f x).toExcept (g x).toExcept (h x).toExcept) (xs : List α) :
    Agree (Attempt.each f xs).toExcept (Attempt.each g xs).toExcept
      (Attempt.each h xs).toExcept := by
  induction xs with
  | nil => exact .ok []
  | cons x xs ih =>
    rw [Attempt.toExcept_each_cons, Attempt.toExcept_each_cons, Attempt.toExcept_each_cons]
    exact (hmake x).bind fun y => ih.map (y :: ·)

/-- Records agree if the makers of their members do. -/
theorem onMembers {f g h : List (String × Json) → Attempt (List (String × Json))}
    (hmake : ∀ members, Agree (f members).toExcept (g members).toExcept (h members).toExcept)
    (record : Json) :
    Agree (Attempt.onMembers f record).toExcept (Attempt.onMembers g record).toExcept
      (Attempt.onMembers h record).toExcept := by
  cases record with
  | object members =>
    rw [Attempt.toExcept_onMembers_object, Attempt.toExcept_onMembers_object,
      Attempt.toExcept_onMembers_object]
    exact (hmake members).map Json.object
  | _ => exact .ok _

end Agree

/-! ## Two policies -/

namespace Pipeline

/-- The pipeline that passes over refused filters. -/
def lenient (p : Pipeline) : Pipeline :=
  { p with config := { p.config with onFilterFault := .ignore } }

/-- The pipeline that stops at refused filters. -/
def strict (p : Pipeline) : Pipeline :=
  { p with config := { p.config with onFilterFault := .propagate } }

/-- Only a refused filter is taken out, so what is left is accepted. -/
theorem agree_filter (p : Pipeline) (options : QueryOptions) (records : List Json) :
    Agree (p.lenient.filter options.filterText records)
      (p.strict.filter (options.withoutRefused p.config.limits).filterText records)
      (p.strict.filter options.filterText records) := by
  obtain ⟨select, orderBy, top, skip, count, text, expand⟩ := options
  simp only [QueryOptions.withoutRefused, QueryOptions.filterText]
  cases text with
  | none => exact .ok records
  | some text =>
    cases hblank : (Text.trimmed text).isEmpty with
    | true =>
      simp only [Option.filter, isRefused, hblank, Bool.not_true, Bool.false_and, Bool.not_false,
        if_true]
      exact .ok records
    | false =>
      cases hparse : Filter.parse p.config.limits text with
      | ok e =>
        simp only [Option.filter, isRefused, hblank, hparse, Except.isOk, Except.toBool, filter,
          lenient, strict, Bool.not_false, Bool.not_true, Bool.and_false, if_true]
        exact .ok _
      | error fault =>
        simp only [Option.filter, isRefused, hblank, hparse, Except.isOk, Except.toBool, filter,
          lenient, strict, Bool.not_false, Bool.not_true, Bool.and_true, if_true]
        exact ⟨records, rfl, rfl, nofun⟩

/-- A selection is extended by the same paths. -/
theorem withExpanded_allWithoutRefused (limits : Limits) (select : Option (List String))
    (items : List ExpandItem) :
    withExpanded select (ExpandItem.allWithoutRefused limits items) = withExpanded select items := by
  have hpath (item : ExpandItem) : (item.withoutRefused limits).path = item.path := by
    obtain ⟨path, _ | options⟩ := item <;> rfl
  simp only [withExpanded, ExpandItem.allWithoutRefused_eq_map, List.foldl_map, hpath]

/-- A value that is shaped agrees if every collection does. -/
theorem agree_shapeValue {p : Pipeline} {options : QueryOptions}
    (h : ∀ records, Agree (p.lenient.shape options records)
      (p.strict.shape (options.withoutRefused p.config.limits) records)
      (p.strict.shape options records)) (v : Json) :
    Agree (p.lenient.shapeValue options v)
      (p.strict.shapeValue (options.withoutRefused p.config.limits) v)
      (p.strict.shapeValue options v) := by
  cases v with
  | array children => exact (h children).map _
  | _ => exact (h [_]).map _

-- The recursion is that of `shape`: options, their items, the options of an item.
mutual
/-- The three runs agree on every collection. -/
theorem agree_shape (p : Pipeline) : (options : QueryOptions) → (records : List Json) →
    Agree (p.lenient.shape options records)
      (p.strict.shape (options.withoutRefused p.config.limits) records)
      (p.strict.shape options records)
  | ⟨select, orderBy, top, skip, count, text, expand⟩, records => by
    have hexpand (selected : List Json) :=
      Agree.each (Agree.onMembers (agree_expandMembers p expand)) selected
    rw [shape_eq, shape_eq, shape_eq]
    refine (agree_filter p _ records).bind fun kept => ?_
    simp only [QueryOptions.withoutRefused, selected, withExpanded_allWithoutRefused]
    exact (hexpand _).bind fun value => .ok _

/-- The three runs agree on the items of every record. -/
theorem agree_expandMembers (p : Pipeline) : (items : List ExpandItem) →
    (members : List (String × Json)) →
    Agree (p.lenient.expandMembers items members).toExcept
      (p.strict.expandMembers (ExpandItem.allWithoutRefused p.config.limits items) members).toExcept
      (p.strict.expandMembers items members).toExcept
  | [], members => .ok members
  | item :: items, members => by
    rw [ExpandItem.allWithoutRefused, toExcept_expandMembers_cons, toExcept_expandMembers_cons,
      toExcept_expandMembers_cons]
    exact (agree_expandMember p item members).bind fun made => agree_expandMembers p items made

/-- The three runs agree on one item of every record. -/
theorem agree_expandMember (p : Pipeline) : (item : ExpandItem) →
    (members : List (String × Json)) →
    Agree (p.lenient.expandMember item members).toExcept
      (p.strict.expandMember (item.withoutRefused p.config.limits) members).toExcept
      (p.strict.expandMember item members).toExcept
  | ⟨path, none⟩, members => .ok _
  | ⟨path, some options⟩, members => by
    rw [ExpandItem.withoutRefused, toExcept_expandMember, toExcept_expandMember,
      toExcept_expandMember]
    split
    · exact .ok _
    · exact (agree_shapeValue (agree_shape p options) _).map _
end

/-- The three runs agree on every answer. -/
theorem agree_execute {U : Type} [UrlSyntax U] (p : Pipeline) (options : QueryOptions)
    (records : List Json) (context : String) (request : Option U) :
    Agree (p.lenient.execute options records context request)
      (p.strict.execute (options.withoutRefused p.config.limits) records context request)
      (p.strict.execute options records context request) := by
  obtain ⟨select, orderBy, top, skip, count, text, expand⟩ := options
  exact (agree_shape p _ records).bind fun shaped => .ok _

/-- A server that passes over refused filters answers every query, with what a server that stops at
them gives on the options without these filters.  Where that server gets through on the options as
they are, both give the same.  So a query under the default configuration never gives the collection
itself for a fault. -/
theorem lenient_answers {U : Type} [UrlSyntax U] (p : Pipeline) (options : QueryOptions)
    (records : List Json) :
    (∃ value, p.lenient.run options records = .ok value) ∧
    (∀ (context : String) (request : Option U),
      ∃ answer, p.lenient.execute options records context request = .ok answer) ∧
    p.lenient.run options records =
      p.strict.run (options.withoutRefused p.config.limits) records ∧
    (∀ value, p.strict.run options records = .ok value →
      p.lenient.run options records = .ok value) ∧
    (∀ (context : String) (request : Option U) (answer : Envelope),
      p.strict.execute options records context request = .ok answer →
      p.lenient.execute options records context request = .ok answer) ∧
    ∀ time, (standard time).run options records = .ok (runStandard time options records) := by
  have hrun (p : Pipeline) : Agree (p.lenient.run options records)
      (p.strict.run (options.withoutRefused p.config.limits) records)
      (p.strict.run options records) := (agree_shape p options records).map Shaped.value
  obtain ⟨value, hlenient, hmended, hstrict⟩ := hrun p
  refine ⟨⟨value, hlenient⟩, ?_, hlenient.trans hmended.symm, ?_, ?_, ?_⟩
  · intro context request
    obtain ⟨answer, hanswer, -⟩ := agree_execute p options records context request
    exact ⟨answer, hanswer⟩
  · intro value' h
    rw [hlenient, hstrict value' h]
  · intro context request answer h
    obtain ⟨answer', hanswer, -, hsame⟩ := agree_execute p options records context request
    rw [hanswer, hsame answer h]
  · intro time
    obtain ⟨value, hstandard, -⟩ := hrun (standard time)
    -- The default configuration passes over refused filters.
    have hrun : (standard time).run options records = .ok value := hstandard
    rw [runStandard, hrun]

/-- A filter that is too long stops the strict server only where there is something to filter. -/
theorem lenient_answers_long :
    let p : Pipeline := ⟨{ limits := { maxFilterLength := 3 } }, .empty⟩
    let options : QueryOptions := { expand := [⟨"lines", some { filter := some "total gt 3" }⟩] }
    let full : Json := .object [("lines", .array [.bool true])]
    let empty : Json := .object [("lines", .null)]
    p.strict.run options [full] = .error (.tooLong 3) ∧
      p.lenient.run options [full] = p.strict.run { expand := [⟨"lines", some {}⟩] } [full] ∧
      p.strict.run options [empty] = .ok [empty] ∧ p.lenient.run options [empty] = .ok [empty] := by
  intro p options full empty
  obtain ⟨-, -, hmended, -⟩ := lenient_answers (U := Url) p options [full]
  obtain ⟨-, -, -, hsame, -⟩ := lenient_answers (U := Url) p options [empty]
  have hselected (top : Option Nat) (kept : List Json) :
      selected options top kept = page 0 top kept := congrArg (page 0 top) (order_nil kept)
  have hstrict : p.strict.run options [empty] = .ok [empty] := by
    simp only [run_eq, hselected]
    rfl
  refine ⟨?_, hmended, hstrict, hsame _ hstrict⟩
  simp only [run_eq, hselected]
  rfl

end Pipeline

end Collection

end OData

import OData.Proofs.Arrangements
import OData.Proofs.FilterAlgebra
import OData.Proofs.Rerun

/-!
# Stages that commute

Putting records in order commutes with filtering them.  Projecting commutes with
each of the two, if the selection keeps the first property of every path that
the other stage reads: then that stage sees the same values before and after
(`keeps_congr`, `order_map`).
-/

namespace OData.Collection.Pipeline

open OData.Filter (Expr PropertyPath parse)

/-- A selection changes nothing along a path that starts with one of its names. -/
theorem resolve_selectRecord_of_startsIn {fields : List String} {path : PropertyPath}
    (h : path.StartsIn fields) (record : Json) :
    path.resolve (selectRecord (some fields) record) = path.resolve record := by
  refine resolve_selectRecord ?_ record
  rintro _ ⟨⟩ -
  exact h

section Accepted

variable {p : Pipeline} {text : String} {e : Expr} (h : parse p.config.limits text = .ok e)
include h

/-- An accepted text keeps some of the records, each for itself. -/
theorem keep_eq (records : List Json) : p.keep text records =
    .ok (records.filter (p.keeps ({ filter := some text } : QueryOptions).filterText)) := by
  obtain ⟨kept, hkept⟩ : ∃ kept, p.keep text records = .ok kept := by
    by_cases hfilter : IsFilter text
    · exact ⟨_, keep_of_parse h hfilter records⟩
    · exact ⟨_, keep_of_not_isFilter hfilter p records⟩
  exact filter_of_ok hkept records

/-- An accepted text keeps a record if it keeps what looks the same along its paths. -/
theorem keeps_congr_of_parse {record record' : Json}
    (hpaths : ∀ path ∈ e.paths, path.resolve record = path.resolve record') :
    p.keeps ({ filter := some text } : QueryOptions).filterText record =
      p.keeps ({ filter := some text } : QueryOptions).filterText record' := by
  refine keeps_congr fun accepted haccepted e' he' => ?_
  obtain rfl : text = accepted := Option.some.inj (Option.mem_filter_iff.1 haccepted).1
  obtain rfl := Except.ok.inj (h.symm.trans he')
  exact hpaths

/-- The stages of a query commute.  An accepted filter keeps the same records in order before and
after they are put in order, and keeps the same of them projected if the fields name the first
property of every path in the filter.  Projecting does not change the order if the fields name the
first property of every key. -/
theorem keep_order_project (keys : List OrderKey) (fields : List String) (records : List Json) :
    ∃ kept, p.keep text records = .ok kept ∧
      p.keep text (order keys records) = .ok (order keys kept) ∧
      ((∀ path ∈ e.paths, path.StartsIn fields) →
        p.keep text (project (some fields) records) = .ok (project (some fields) kept)) ∧
      ((∀ key ∈ keys, (PropertyPath.ofText key.field).StartsIn fields) →
        order keys (project (some fields) records) = project (some fields) (order keys records)) := by
  refine ⟨_, keep_eq h records, ?_, ?_, ?_⟩
  · rw [keep_eq h, order_filter]
  · intro hpaths
    have hkeeps : p.keeps ({ filter := some text } : QueryOptions).filterText ∘
        selectRecord (some fields) =
          p.keeps ({ filter := some text } : QueryOptions).filterText := by
      funext record
      rw [Function.comp_apply]
      exact keeps_congr_of_parse h fun path hpath =>
        resolve_selectRecord_of_startsIn (hpaths path hpath) record
    rw [keep_eq h, project_eq_map, project_eq_map, List.filter_map, hkeeps]
  · intro hkeys
    rw [project_eq_map, project_eq_map]
    exact order_map (fun key hkey => resolve_selectRecord_of_startsIn (hkeys key hkey)) records

end Accepted

/-- A filter on one property and an order by another, before and after a selection of both. -/
theorem keep_order_project_both :
    let p : Pipeline := ⟨{}, .empty⟩
    let keys : List OrderKey := [⟨"b", .descending⟩]
    let record (a b : Bool) : Json := .object [("a", .bool a), ("b", .bool b), ("c", .null)]
    let chosen (a b : Bool) : Json := .object [("a", .bool a), ("b", .bool b)]
    let records := [record true false, record false true, record true true]
    parse {} "a" = .ok (.property ⟨["a"]⟩) ∧
      p.keep "a" (order keys records) = .ok [record true true, record true false] ∧
      p.keep "a" (project (some ["b", "a"]) records) = .ok [chosen true false, chosen true true] ∧
      order keys (project (some ["b", "a"]) [record true false, record true true]) =
        [chosen true true, chosen true false] := by
  intro p keys record chosen records
  have hparse : parse {} "a" = .ok (.property ⟨["a"]⟩) := by with_unfolding_all rfl
  have hkept : p.keep "a" records = .ok [record true false, record true true] := by
    rw [keep_of_parse hparse ⟨'a', by decide, rfl⟩]
    rfl
  have horder : order keys [record true false, record true true] =
      [record true true, record true false] := by
    have hgreater : compareRecords [.ofOrderKey ⟨"b", .descending⟩] (record true false)
        (record true true) = .gt := rfl
    simp [order, keys, List.mergeSort, hgreater]
  have hpaths : ∀ path ∈ (Expr.property ⟨["a"]⟩).paths, path.StartsIn ["b", "a"] := by
    intro path hpath
    obtain rfl := List.mem_singleton.1 hpath
    exact ⟨"a", rfl, List.mem_cons_of_mem _ List.mem_cons_self⟩
  have hkeys : ∀ key ∈ keys, (PropertyPath.ofText key.field).StartsIn ["b", "a"] := by
    intro key hkey
    obtain rfl := List.mem_singleton.1 hkey
    exact ⟨"b", rfl, List.mem_cons_self⟩
  obtain ⟨kept, hkeep, hordered, hprojected, -⟩ :=
    keep_order_project (p := p) hparse keys ["b", "a"] records
  obtain rfl := Except.ok.inj (hkept.symm.trans hkeep)
  obtain ⟨-, -, -, -, hsame⟩ := keep_order_project (p := p) hparse keys ["b", "a"]
    [record true false, record true true]
  refine ⟨hparse, ?_, hprojected hpaths, ?_⟩
  · rw [hordered, horder]
  · rw [hsame hkeys, horder]
    rfl

end OData.Collection.Pipeline

import OData.Proofs.Locality
import OData.Proofs.Ordering
import OData.Proofs.Selecting
import OData.Proofs.Stages

/-!
# Queries on their own results

A query that expands nothing and passes over nothing leaves its result as it is,
if its selection keeps what its filter and its order read.  Every stage leaves
the result alone.  The filter keeps all of it, since it reads the same values as
before (`keeps_selectRecord`).  The records are still in order, for the same
reason (`ordered_selected`).  The page is no longer than it was, and selecting
twice is selecting once (`selected_selected`).
-/

namespace OData.Collection

open OData.Filter (PropertyPath)

namespace Pipeline

/-! ## Filtering -/

/-- Whether a filter text keeps a record.  A refused text keeps it. -/
def keeps (p : Pipeline) (text : Option String) (record : Json) : Bool :=
  match text with
  | none => true
  | some text =>
    match Filter.parse p.config.limits text with
    | .ok e => e.accepts p.functions record
    | .error _ => true

/-- A filter that does not stop the query keeps what it keeps of any records. -/
theorem filter_of_ok {p : Pipeline} {text : Option String} {records kept : List Json}
    (h : p.filter text records = .ok kept) (others : List Json) :
    p.filter text others = .ok (others.filter (p.keeps text)) := by
  have hall : p.keeps text = (fun _ => true) → others.filter (p.keeps text) = others := by
    intro hkeeps
    rw [hkeeps, List.filter_true]
  cases text with
  | none => rw [filter, hall rfl]
  | some text =>
    rw [filter] at h ⊢
    cases hparse : Filter.parse p.config.limits text with
    | ok e =>
      have hkeeps : p.keeps (some text) = e.accepts p.functions := by
        funext record
        rw [keeps, hparse]
      rw [hkeeps]
    | error fault =>
      have hkeeps : p.keeps (some text) = fun _ => true := by
        funext record
        rw [keeps, hparse]
      cases hpolicy : p.config.onFilterFault with
      | ignore => rw [hall hkeeps]
      | propagate =>
        rw [hparse, hpolicy] at h
        cases h

/-- A filter keeps both or none of two records that look the same along its paths. -/
theorem keeps_congr {p : Pipeline} {text : Option String} {record record' : Json}
    (h : ∀ accepted ∈ text, ∀ e, Filter.parse p.config.limits accepted = .ok e →
      ∀ path ∈ e.paths, path.resolve record = path.resolve record') :
    p.keeps text record = p.keeps text record' := by
  cases text with
  | none => rfl
  | some text =>
    rw [keeps, keeps]
    cases hparse : Filter.parse p.config.limits text with
    | error fault => rfl
    | ok e => exact Filter.Expr.accepts_congr (h text rfl e hparse)

/-! ## Selections that keep what is read -/

/-- A selection keeps what the filter and the order of a query read: it keeps records as they are,
or it names the first property of every path. -/
def SelectsReads (p : Pipeline) (options : QueryOptions) : Prop :=
  ∀ fields ∈ options.select, fields ≠ [] →
    (∀ text ∈ options.filterText, ∀ e, Filter.parse p.config.limits text = .ok e →
      ∀ path ∈ e.paths, path.StartsIn fields) ∧
    ∀ key ∈ options.orderBy, (PropertyPath.ofText key.field).StartsIn fields

theorem resolve_selectRecord {select : Option (List String)} {path : PropertyPath}
    (h : ∀ fields ∈ select, fields ≠ [] → path.StartsIn fields) (record : Json) :
    path.resolve (selectRecord select record) = path.resolve record := by
  match select with
  | none => rfl
  | some [] => rfl
  | some (field :: fields) => exact resolve_selectMembers (h _ rfl (by simp)) record

theorem selectRecord_selectRecord (select : Option (List String)) (record : Json) :
    selectRecord select (selectRecord select record) = selectRecord select record := by
  match select with
  | none => rfl
  | some [] => rfl
  | some (field :: fields) => exact selectMembers_selectMembers _ record

section Selected

variable {p : Pipeline} {options : QueryOptions} (hreads : p.SelectsReads options)
include hreads

/-- A filter keeps a record if it keeps what is selected of it. -/
theorem keeps_selectRecord (record : Json) :
    p.keeps options.filterText (selectRecord options.select record) =
      p.keeps options.filterText record := by
  refine keeps_congr fun text htext e hparse path hpath => resolve_selectRecord ?_ record
  intro fields hfields hne
  exact (hreads fields hfields hne).1 text htext e hparse path hpath

theorem resolve_orderKey {key : OrderKey} (hkey : key ∈ options.orderBy) (record : Json) :
    (PropertyPath.ofText key.field).resolve (selectRecord options.select record) =
      (PropertyPath.ofText key.field).resolve record := by
  refine resolve_selectRecord ?_ record
  intro fields hfields hne
  exact (hreads fields hfields hne).2 key hkey

end Selected

/-! ## Without expansion -/

theorem toExcept_expandAll_nil (p : Pipeline) (records : List Json) :
    (p.expandAll [] records).toExcept = .ok records := by
  have hexpand (record : Json) : p.expand [] record = ⟨record, none⟩ := by
    cases record <;> rfl
  exact Attempt.toExcept_eq_ok_iff.2
    (Attempt.each_eq_iff.2 (List.forall₂_same.2 fun record _ => hexpand record))

/-- Without expansion, a query gives the selected page of what its filter keeps. -/
theorem run_of_expand_nil {p : Pipeline} {options : QueryOptions} (h : options.expand = [])
    (records : List Json) :
    p.run options records = (p.filter options.filterText records).map
      (selected options (p.config.limits.effectiveTop options.top)) := by
  rw [run_eq, h]
  cases p.filter options.filterText records with
  | error fault => rfl
  | ok kept => exact p.toExcept_expandAll_nil _

theorem selected_eq_map {options : QueryOptions} (hexpand : options.expand = [])
    (hskip : options.skip.getD 0 = 0) (top : Option Nat) (kept : List Json) :
    selected options top kept =
      (page 0 top (order options.orderBy kept)).map (selectRecord options.select) := by
  have hselect : withExpanded options.select options.expand = options.select := by
    rw [hexpand, withExpanded]
    exact Option.map_id'
  rw [selected, hselect, hskip, project_eq_map]

/-! ## Running twice -/

section Twice

variable {p : Pipeline} {options : QueryOptions}
variable (hexpand : options.expand = []) (hskip : options.skip.getD 0 = 0)
variable (hreads : p.SelectsReads options) (top : Option Nat) {kept : List Json}
include hexpand hskip hreads

/-- The filter keeps all of the result. -/
theorem filter_keeps_selected (hkept : ∀ record ∈ kept, p.keeps options.filterText record = true) :
    (selected options top kept).filter (p.keeps options.filterText) =
      selected options top kept := by
  rw [selected_eq_map hexpand hskip, List.filter_eq_self, List.forall_mem_map]
  intro record hrecord
  rw [keeps_selectRecord hreads]
  exact hkept record ((order_perm _ _).mem_iff.1 ((page_sublist _ _ _).mem hrecord))

/-- The result is in order. -/
theorem ordered_selected (kept : List Json) :
    Ordered options.orderBy (selected options top kept) := by
  rw [selected_eq_map hexpand hskip]
  exact ((ordered_order options.orderBy kept).sublist (page_sublist _ _ _)).map
    fun key hkey => resolve_orderKey hreads hkey

theorem selected_selected (kept : List Json) :
    selected options top (selected options top kept) = selected options top kept := by
  have hordered := order_of_ordered (ordered_selected hexpand hskip hreads top kept)
  have htwice (records : List Json) : (records.map (selectRecord options.select)).map
      (selectRecord options.select) = records.map (selectRecord options.select) := by
    rw [List.map_map]
    exact List.map_congr_left fun record _ => selectRecord_selectRecord options.select record
  rw [selected_eq_map hexpand hskip, hordered, selected_eq_map hexpand hskip, page_map,
    page_zero_page, htwice]

end Twice

/-- Running a query on its own result changes nothing, if the query expands nothing, passes over
nothing and selects what it reads. -/
theorem run_run {p : Pipeline} {options : QueryOptions} (hexpand : options.expand = [])
    (hskip : options.skip.getD 0 = 0) (hreads : p.SelectsReads options)
    {records values : List Json} (h : p.run options records = .ok values) :
    p.run options values = .ok values := by
  rw [run_of_expand_nil hexpand] at h
  cases hfilter : p.filter options.filterText records with
  | error fault =>
    rw [hfilter] at h
    cases h
  | ok kept =>
    have hkept : ∀ record ∈ kept, p.keeps options.filterText record = true := by
      rw [Except.ok.inj (hfilter.symm.trans (filter_of_ok hfilter records))]
      exact fun record hrecord => (List.mem_filter.1 hrecord).2
    rw [hfilter] at h
    obtain rfl := Except.ok.inj h
    rw [run_of_expand_nil hexpand, filter_of_ok hfilter,
      filter_keeps_selected hexpand hskip hreads _ hkept]
    exact congrArg Except.ok (selected_selected hexpand hskip hreads _ kept)

/-- The greatest record that a filter keeps stays on its page, with its selected members. -/
theorem run_run_greatest :
    let p : Pipeline := ⟨{ limits := { maxTop := some 1 } }, .empty⟩
    let options : QueryOptions :=
      { select := some ["b", "a"], orderBy := [⟨"b", .descending⟩], filter := some "a" }
    let small : Json := .object [("a", .bool true), ("b", .ofNat 1), ("c", .null)]
    let great : Json := .object [("a", .bool true), ("b", .ofNat 2), ("c", .null)]
    let dropped : Json := .object [("a", .bool false), ("b", .ofNat 3)]
    let chosen : Json := .object [("a", .bool true), ("b", .ofNat 2)]
    p.SelectsReads options ∧ p.run options [small, dropped, great] = .ok [chosen] ∧
      p.run options [chosen] = .ok [chosen] := by
  intro p options small great dropped chosen
  have hparse : Filter.parse p.config.limits "a" = .ok (.property ⟨["a"]⟩) := by
    with_unfolding_all rfl
  have hreads : p.SelectsReads options := by
    rintro fields ⟨⟩ -
    refine ⟨?_, ?_⟩
    · rintro text ⟨⟩ e he path hpath
      obtain rfl := Except.ok.inj (hparse.symm.trans he)
      obtain rfl := List.mem_singleton.1 hpath
      exact ⟨"a", rfl, by decide⟩
    · intro key hkey
      obtain rfl := List.mem_singleton.1 hkey
      exact ⟨"b", rfl, by decide⟩
  have horder : order options.orderBy [small, great] = [great, small] := by
    have hgreater : compareRecords [.ofOrderKey ⟨"b", .descending⟩] small great = .gt := by
      decide +kernel
    simp [order, options, List.mergeSort, hgreater]
  have hrun : p.run options [small, dropped, great] = .ok [chosen] := by
    have hfilter : p.filter options.filterText [small, dropped, great] = .ok [small, great] := by
      have htext : options.filterText = some "a" := rfl
      rw [htext, filter, hparse]
      rfl
    rw [run_of_expand_nil rfl, hfilter, Except.map, selected_eq_map rfl rfl, horder]
    rfl
  exact ⟨hreads, hrun, run_run rfl rfl hreads hrun⟩

end Pipeline

end OData.Collection

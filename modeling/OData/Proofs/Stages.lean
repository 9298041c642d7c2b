import Mathlib.Data.List.Forall2
import OData.Collection.Pipeline

/-!
# The stages of a query

Laws of the stages that hold of every query.  A query runs its stages one after
the other, and each may stop it (`shape_eq`).  An expansion goes through its
items in the same way (`toExcept_expandMembers_cons`), and an item shapes the
collection at its path (`toExcept_expandMember`).
-/

namespace OData.Collection

open OData.Filter (Fault)

/-! ## Attempts -/

namespace Attempt

variable {α : Type} {make : α → Attempt α}

theorem toExcept_eq_ok_iff {a : Attempt α} {x : α} : a.toExcept = .ok x ↔ a = ⟨x, none⟩ := by
  obtain ⟨made, fault⟩ := a
  cases fault with
  | none => simp [toExcept]
  | some fault => simp [toExcept]

/-- A list is made if all its elements are. -/
theorem each_eq_iff {xs ys : List α} :
    each make xs = ⟨ys, none⟩ ↔ List.Forall₂ (fun x y => make x = ⟨y, none⟩) xs ys := by
  induction xs generalizing ys with
  | nil =>
    rw [List.forall₂_nil_left_iff]
    constructor
    · intro h
      cases h
      rfl
    · rintro rfl
      rfl
  | cons x xs ih =>
    rw [List.forall₂_cons_left_iff]
    cases hmake : make x with
    | mk made fault =>
      cases fault with
      | none =>
        simp only [each, hmake, mk.injEq, and_true]
        constructor
        · rintro ⟨rfl, hfault⟩
          refine ⟨made, (each make xs).made, rfl, ih.1 ?_, rfl⟩
          rw [← hfault]
        · rintro ⟨_, rest, rfl, hrest, rfl⟩
          rw [ih.2 hrest]
          exact ⟨rfl, rfl⟩
      | some fault => simp [each, hmake]

theorem toExcept_each_cons (x : α) (xs : List α) :
    (each make (x :: xs)).toExcept =
      (make x).toExcept.bind fun y => (each make xs).toExcept.map (y :: ·) := by
  rw [each]
  obtain ⟨made, fault⟩ := make x
  cases fault with
  | none =>
    obtain ⟨rest, fault⟩ := each make xs
    cases fault with
    | none => rfl
    | some fault => rfl
  | some fault => rfl

theorem toExcept_onMembers_object (make : List (String × Json) → Attempt (List (String × Json)))
    (members : List (String × Json)) :
    (onMembers make (.object members)).toExcept = (make members).toExcept.map .object := by
  rw [onMembers]
  obtain ⟨made, fault⟩ := make members
  cases fault with
  | none => rfl
  | some fault => rfl

section Made

variable {xs ys : List α} (h : (each make xs).toExcept = .ok ys) (n : Nat)
include h

theorem toExcept_each_take : (each make (xs.take n)).toExcept = .ok (ys.take n) := by
  have hmade := each_eq_iff.1 (toExcept_eq_ok_iff.1 h)
  exact toExcept_eq_ok_iff.2 (each_eq_iff.2 (List.forall₂_take n hmade))

theorem toExcept_each_drop : (each make (xs.drop n)).toExcept = .ok (ys.drop n) := by
  have hmade := each_eq_iff.1 (toExcept_eq_ok_iff.1 h)
  exact toExcept_eq_ok_iff.2 (each_eq_iff.2 (List.forall₂_drop n hmade))

theorem length_of_toExcept_each : ys.length = xs.length :=
  (each_eq_iff.1 (toExcept_eq_ok_iff.1 h)).length_eq.symm

end Made

end Attempt

/-! ## Parts -/

section Parts

variable {α : Type} (skip : Nat) (top : Option Nat) (xs : List α)

theorem page_effectiveTop {limits : Limits} {m : Nat} (h : limits.maxTop = some m) :
    page skip (limits.effectiveTop top) xs = (page skip top xs).take m := by
  cases top with
  | none => simp [Limits.effectiveTop, h, page]
  | some t => simp [Limits.effectiveTop, h, page, List.take_take, Nat.min_comm]

/-- The part behind a page is what the page leaves. -/
theorem page_add (m : Nat) :
    page (skip + m) (top.map (· - m)) xs = (page skip top xs).drop m := by
  cases top with
  | none => simp [page]
  | some t => simp [page, List.drop_take]

theorem page_sublist : (page skip top xs).Sublist xs := by
  cases top with
  | none => exact List.drop_sublist skip xs
  | some t => exact (List.take_sublist t _).trans (List.drop_sublist skip xs)

theorem page_map {β : Type} (f : α → β) : page skip top (xs.map f) = (page skip top xs).map f := by
  cases top with
  | none => simp [page]
  | some t => simp [page]

/-- The first page of a first page is that page. -/
theorem page_zero_page : page 0 top (page 0 top xs) = page 0 top xs := by
  cases top with
  | none => simp [page]
  | some t => simp [page, List.take_take]

theorem length_page :
    (page skip top xs).length = min (top.getD xs.length) (xs.length - skip) := by
  cases top with
  | none => simp [page]
  | some t => simp [page]

end Parts

section Selections

variable (select : Option (List String)) (records : List Json) (n : Nat)

/-- What a selection makes of a record. -/
def selectRecord (record : Json) : Json :=
  match select with
  | some (field :: fields) => selectMembers (field :: fields) record
  | _ => record

theorem project_eq_map : project select records = records.map (selectRecord select) := by
  match select with
  | none => exact (List.map_id records).symm
  | some [] => exact (List.map_id records).symm
  | some (field :: fields) => rfl

theorem project_take : project select (records.take n) = (project select records).take n := by
  rw [project_eq_map, project_eq_map, List.map_take]

theorem project_drop : project select (records.drop n) = (project select records).drop n := by
  rw [project_eq_map, project_eq_map, List.map_drop]

theorem length_project : (project select records).length = records.length := by
  rw [project_eq_map, List.length_map]

end Selections

theorem length_order (keys : List OrderKey) (records : List Json) :
    (order keys records).length = records.length := List.length_mergeSort _

/-- Without keys records stay as they were. -/
theorem order_nil (records : List Json) : order [] records = records :=
  List.mergeSort_of_pairwise (List.pairwise_of_forall fun _ _ => rfl)

/-! ## Stages in a row -/

namespace Pipeline

/-- Records in order, the part that is asked for, and of it the selected properties. -/
def selected (options : QueryOptions) (top : Option Nat) (kept : List Json) : List Json :=
  project (withExpanded options.select options.expand)
    (page (options.skip.getD 0) top (order options.orderBy kept))

theorem shape_eq (p : Pipeline) (options : QueryOptions) (records : List Json) :
    p.shape options records = (p.filter options.filterText records).bind fun kept =>
      let top := p.config.limits.effectiveTop options.top
      (p.expandAll options.expand (selected options top kept)).toExcept.bind fun value =>
        .ok ⟨value, kept.length, options.skip.getD 0, top⟩ := by
  obtain ⟨select, orderBy, top, skip, count, text, expand⟩ := options
  rw [shape]
  rfl

theorem run_eq (p : Pipeline) (options : QueryOptions) (records : List Json) :
    p.run options records = (p.filter options.filterText records).bind fun kept =>
      (p.expandAll options.expand
        (selected options (p.config.limits.effectiveTop options.top) kept)).toExcept := by
  rw [run, shape_eq]
  cases p.filter options.filterText records with
  | error fault => rfl
  | ok kept =>
    simp only [Except.bind]
    cases (p.expandAll options.expand
      (selected options (p.config.limits.effectiveTop options.top) kept)).toExcept with
    | error fault => rfl
    | ok value => rfl

/-! ## Items in a row -/

theorem toExcept_expandMembers_cons (p : Pipeline) (item : ExpandItem) (items : List ExpandItem)
    (members : List (String × Json)) :
    (p.expandMembers (item :: items) members).toExcept =
      (p.expandMember item members).toExcept.bind fun members =>
        (p.expandMembers items members).toExcept := by
  rw [expandMembers]
  obtain ⟨made, fault⟩ := p.expandMember item members
  cases fault with
  | none => rfl
  | some fault => rfl

/-- A value shaped by some options: an array as a collection, any other as a collection of one. -/
def shapeValue (p : Pipeline) (options : QueryOptions) : Json → Except Fault Json
  | .array children => (p.shape options children).map fun shaped => .array shaped.value
  | single => (p.shape options [single]).map fun shaped => shaped.value.head?.getD .null

/-- An item with options shapes the value at its path, if one is there that is not null. -/
theorem toExcept_expandMember (p : Pipeline) (path : String) (options : QueryOptions)
    (members : List (String × Json)) :
    (p.expandMember ⟨path, some options⟩ members).toExcept =
      match (Json.lookupMember path members).filter fun v => !v.isNull with
      | none => .ok (withSlot path members)
      | some v => (p.shapeValue options v).map fun v => Json.insertMember path v members := by
  rw [expandMember]
  cases Json.lookupMember path members with
  | none => rfl
  | some v =>
    cases v with
    | null => rfl
    | array children =>
      simp only [Option.filter, Json.isNull, Bool.not_false, if_true, shapeValue]
      cases p.shape options children <;> rfl
    | _ =>
      simp only [Option.filter, Json.isNull, Bool.not_false, if_true, shapeValue]
      cases p.shape options [_] <;> rfl

end Pipeline

end OData.Collection

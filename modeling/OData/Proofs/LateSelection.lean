import OData.Proofs.Expanding
import OData.Proofs.Selecting

/-!
# Selecting after expanding

A query selects properties before it expands some of them.  Its selection always
keeps the expanded properties, so it may as well be made last: every query gives
the selected part of what it gives without a selection (`run_eq_map_project`).
Both orders give members in ascending order with the same values, and such
members are the same (`Json.Members.ext`).

A selection that names nothing is no selection.  But a query names the expanded
properties beside it, and then they alone are selected (`run_select_nil_eq_iff`).
-/

namespace OData

/-! ## Members in ascending order -/

namespace Json

theorem lookupMember_of_forall_lt {key : String} {members : List (String × Json)}
    (h : ∀ m ∈ members, key < m.1) : lookupMember key members = none := by
  rw [← Option.not_isSome_iff_eq_none, isSome_lookupMember_iff]
  intro hkey
  obtain ⟨m, hm, rfl⟩ := List.mem_map.1 hkey
  exact lt_irrefl _ (h m hm)

theorem Ascending.eq_of_lookupMember_eq {ms ns : List (String × Json)} (hms : Ascending ms) (hns : Ascending ns)
    (h : ∀ key, lookupMember key ms = lookupMember key ns) : ms = ns := by
  induction ms generalizing ns with
  | nil =>
    cases ns with
    | nil => rfl
    | cons n ns => simpa [lookupMember] using h n.1
  | cons m ms ih =>
    obtain ⟨k, v⟩ := m
    cases ns with
    | nil => simpa [lookupMember] using h k
    | cons n ns =>
      obtain ⟨l, w⟩ := n
      obtain ⟨hfirst, hrest⟩ := List.pairwise_cons.1 hms
      obtain ⟨hfirst', hrest'⟩ := List.pairwise_cons.1 hns
      -- The lesser of two first keys would be in one of the lists alone.
      have hkl : k = l := by
        rcases lt_trichotomy k l with hlt | heq | hlt
        · have hk := h k
          rw [lookupMember, if_pos rfl, lookupMember, if_neg hlt.ne',
            lookupMember_of_forall_lt fun n hn => hlt.trans (hfirst' n hn)] at hk
          cases hk
        · exact heq
        · have hl := h l
          rw [lookupMember, if_neg hlt.ne', lookupMember, if_pos rfl,
            lookupMember_of_forall_lt fun m hm => hlt.trans (hfirst m hm)] at hl
          cases hl
      subst hkl
      have hvw := h k
      simp only [lookupMember, if_true, Option.some.injEq] at hvw
      subst hvw
      refine congrArg _ (ih hrest hrest' fun key => ?_)
      by_cases hkey : k = key
      · subst hkey
        rw [lookupMember_of_forall_lt hfirst, lookupMember_of_forall_lt hfirst']
      · have hlater := h key
        rwa [lookupMember, lookupMember, if_neg hkey, if_neg hkey] at hlater

/-- Members are known by what stands under every key. -/
theorem Members.ext {ms ns : Members}
    (h : ∀ key, lookupMember key ms.toList = lookupMember key ns.toList) : ms = ns := by
  obtain ⟨ms, hms⟩ := ms
  obtain ⟨ns, hns⟩ := ns
  exact (Members.mk.injEq _ _ _ _).mpr (hms.eq_of_lookupMember_eq hns h)

end Json

namespace Collection

open OData.Filter (Fault)

/-! ## Selected members -/

section Chosen

variable {fields : List String} {members : List (String × Json)}

/-- The members that some fields name, in ascending order. -/
def chosenMembers (fields : List String) (members : List (String × Json)) : Json.Members :=
  .ofList (selectedMembers fields members)

theorem selectMembers_object_eq (fields : List String) (members : List (String × Json)) :
    selectMembers fields (.object members) = (chosenMembers fields members).toJson :=
  (Json.Members.toJson_ofList _).symm

theorem lookupMember_chosenMembers (fields : List String) (members : List (String × Json))
    (key : String) : Json.lookupMember key (chosenMembers fields members).toList =
      if key ∈ fields then Json.lookupMember key members else none := by
  have hmember := member?_selectMembers fields key (.object members)
  rwa [selectMembers_object_eq] at hmember

/-- A value may be put under a selected key before or after the selection. -/
theorem put_chosenMembers {key : String} (h : key ∈ fields) (value : Option Json) :
    (chosenMembers fields members).put key value =
      chosenMembers fields (Json.putMember key value members) := by
  refine Json.Members.ext fun other => ?_
  rw [lookupMember_chosenMembers, Json.Members.put]
  by_cases hother : other = key
  · subst hother
    rw [Json.lookupMember_putMember, Json.lookupMember_putMember, lookupMember_chosenMembers,
      if_pos h, if_pos h]
  · rw [Json.lookupMember_putMember_of_ne hother, Json.lookupMember_putMember_of_ne hother,
      lookupMember_chosenMembers]

theorem mem_fields_of_mem_keys {key : String} (h : key ∈ (chosenMembers fields members).keys) :
    key ∈ fields := by
  rw [Json.Members.keys, ← Json.isSome_lookupMember_iff, lookupMember_chosenMembers] at h
  by_contra hfield
  rw [if_neg hfield] at h
  cases h

/-- A selection leaves members as they are if it names them all. -/
theorem chosenMembers_eq_self {ms : Json.Members} (h : ∀ key ∈ ms.keys, key ∈ fields) :
    chosenMembers fields ms.toList = ms := by
  refine Json.Members.ext fun key => ?_
  rw [lookupMember_chosenMembers]
  split
  case isTrue => rfl
  case isFalse hfield =>
    rw [eq_comm, ← Option.not_isSome_iff_eq_none, Json.isSome_lookupMember_iff]
    exact fun hkey => hfield (h key hkey)

/-- A selection leaves an object as it is just when it names all members, and these are in order. -/
theorem selectMembers_object_eq_self_iff : selectMembers fields (.object members) = .object members ↔
    ∃ ms : Json.Members, .object members = ms.toJson ∧ ∀ key ∈ ms.keys, key ∈ fields := by
  rw [selectMembers_object_eq]
  constructor
  · intro h
    exact ⟨_, h.symm, fun key => mem_fields_of_mem_keys⟩
  · rintro ⟨ms, hms, hfields⟩
    obtain rfl : members = ms.toList := Json.object.inj hms
    rw [chosenMembers_eq_self hfields]
    rfl

end Chosen

theorem mem_foldl_path {key : String} (fields : List String) (items : List ExpandItem) :
    key ∈ items.foldl
        (fun fields item => if item.path ∈ fields then fields else fields ++ [item.path]) fields ↔
      key ∈ fields ∨ key ∈ items.map ExpandItem.path := by
  induction items generalizing fields with
  | nil => simp
  | cons item items ih =>
    rw [List.foldl_cons, ih, List.map_cons, List.mem_cons, ← or_assoc]
    split
    · next hpath => grind
    · next hpath => simp

/-- A selection with the expanded properties names these beside its own. -/
theorem mem_of_withExpanded {select : Option (List String)} {items : List ExpandItem}
    {all : List String} (h : withExpanded select items = some all) {key : String} :
    key ∈ all ↔ (∃ fields ∈ select, key ∈ fields) ∨ key ∈ items.map ExpandItem.path := by
  cases select with
  | none => cases h
  | some fields =>
    obtain rfl := Option.some.inj h
    simp [mem_foldl_path]

/-! ## Selecting after expanding -/

theorem map_eq_ok_iff {α β : Type} {f : α → β} {x : Except Fault α} {y : β} :
    x.map f = .ok y ↔ ∃ a, x = .ok a ∧ f a = y := by
  cases x with
  | error fault => simp [Except.map]
  | ok a => simp [Except.map]

namespace Attempt

variable {α : Type} {make : α → Attempt α}

/-- A list may be changed before or after it is made, if each element may. -/
theorem toExcept_each_map {f : α → α} (h : ∀ x, (make (f x)).toExcept = (make x).toExcept.map f)
    (xs : List α) : (each make (xs.map f)).toExcept = (each make xs).toExcept.map (List.map f) := by
  induction xs with
  | nil => rfl
  | cons x xs ih =>
    rw [List.map_cons, toExcept_each_cons, toExcept_each_cons, h, ih]
    cases (make x).toExcept with
    | error fault => rfl
    | ok y => cases (each make xs).toExcept <;> rfl

end Attempt

namespace Pipeline

section Commute

variable {p : Pipeline} {fields : List String}

theorem toExcept_expandMember_chosenMembers {item : ExpandItem} (h : item.path ∈ fields)
    (members : List (String × Json)) :
    (p.expandMember item (chosenMembers fields members).toList).toExcept =
      (p.expandMember item members).toExcept.map fun made => (chosenMembers fields made).toList := by
  rw [toExcept_expandMember_eq, toExcept_expandMember_eq, lookupMember_chosenMembers, if_pos h]
  cases p.expandValue ((Json.lookupMember item.path members).getD .null) item with
  | error fault => rfl
  | ok v => exact congrArg (fun ms => Except.ok (Json.Members.toList ms)) (put_chosenMembers h _)

theorem toExcept_expandMembers_chosenMembers {items : List ExpandItem}
    (h : ∀ item ∈ items, item.path ∈ fields) (members : List (String × Json)) :
    (p.expandMembers items (chosenMembers fields members).toList).toExcept =
      (p.expandMembers items members).toExcept.map fun made => (chosenMembers fields made).toList := by
  induction items generalizing members with
  | nil => rfl
  | cons item items ih =>
    obtain ⟨hitem, hitems⟩ := List.forall_mem_cons.1 h
    rw [toExcept_expandMembers_cons, toExcept_expandMembers_cons,
      toExcept_expandMember_chosenMembers hitem]
    cases (p.expandMember item members).toExcept with
    | error fault => rfl
    | ok made => exact ih hitems made

/-- Expanding selected properties is expanding first and then selecting. -/
theorem toExcept_expand_selectMembers {items : List ExpandItem}
    (h : ∀ item ∈ items, item.path ∈ fields) (record : Json) :
    (p.expand items (selectMembers fields record)).toExcept =
      (p.expand items record).toExcept.map (selectMembers fields) := by
  cases record with
  | object members =>
    rw [selectMembers_object_eq, Json.Members.toJson, expand, Attempt.toExcept_onMembers_object,
      Attempt.toExcept_onMembers_object, toExcept_expandMembers_chosenMembers h]
    cases (p.expandMembers items members).toExcept with
    | error fault => rfl
    | ok made => exact congrArg Except.ok (selectMembers_object_eq fields made).symm
  | _ => rfl

end Commute

theorem toExcept_expand_selectRecord (p : Pipeline) (select : Option (List String))
    (items : List ExpandItem) (record : Json) :
    (p.expand items (selectRecord (withExpanded select items) record)).toExcept =
      (p.expand items record).toExcept.map (selectRecord (withExpanded select items)) := by
  have hkept : (p.expand items record).toExcept = (p.expand items record).toExcept.map id := by
    rw [Except.map_id, id]
  match hall : withExpanded select items with
  | none => exact hkept
  | some [] => exact hkept
  | some (field :: rest) =>
    refine toExcept_expand_selectMembers (fun item hitem => ?_) record
    exact (mem_of_withExpanded hall).2 (.inr (List.mem_map_of_mem hitem))

theorem run_eq_ok_iff {p : Pipeline} {options : QueryOptions} {records values : List Json} :
    p.run options records = .ok values ↔
      ∃ kept, p.filter options.filterText records = .ok kept ∧
        (p.expandAll options.expand
          (selected options (p.config.limits.effectiveTop options.top) kept)).toExcept =
            .ok values := by
  rw [run_eq]
  cases p.filter options.filterText records with
  | error fault => simp [Except.bind]
  | ok kept => simp [Except.bind]

/-- A selection may as well be made after the expansion. -/
theorem run_eq_map_project (p : Pipeline) (options : QueryOptions) (records : List Json) :
    p.run options records = (p.run { options with select := none } records).map
      (project (withExpanded options.select options.expand)) := by
  have hall (page : List Json) :
      (p.expandAll options.expand
          (project (withExpanded options.select options.expand) page)).toExcept =
        (p.expandAll options.expand page).toExcept.map
          (project (withExpanded options.select options.expand)) := by
    have hproject : project (withExpanded options.select options.expand) =
        List.map (selectRecord (withExpanded options.select options.expand)) :=
      funext (project_eq_map _)
    rw [hproject]
    exact Attempt.toExcept_each_map
      (p.toExcept_expand_selectRecord options.select options.expand) page
  rw [run_eq, run_eq]
  -- The filter does not depend on the selection.
  have htext : ({ options with select := none } : QueryOptions).filterText = options.filterText := rfl
  rw [htext]
  cases p.filter options.filterText records with
  | error fault => rfl
  | ok kept => exact hall _

end Pipeline

/-! ## Nothing selected -/

section Projections

variable {fields fields' : List String}

theorem project_congr (h : ∀ key, key ∈ fields ↔ key ∈ fields') :
    project (some fields) = project (some fields') := by
  have hselect : selectMembers fields = selectMembers fields' := by
    funext record
    cases record with
    | object members =>
      rw [selectMembers_object_eq, selectMembers_object_eq]
      refine congrArg Json.Members.toJson (Json.Members.ext fun key => ?_)
      simp only [lookupMember_chosenMembers, h]
    | _ => rfl
  match fields, fields' with
  | [], [] => rfl
  | [], field :: rest => simpa using h field
  | field :: rest, [] => simpa using h field
  | field :: rest, field' :: rest' => exact funext fun records => by rw [project, project, hselect]

/-- A selection leaves records as they are if it names nothing, or the members of all objects. -/
theorem project_eq_self_iff {records : List Json} : project (some fields) records = records ↔
    fields = [] ∨ ∀ members, .object members ∈ records → ∃ ms : Json.Members,
      .object members = ms.toJson ∧ ∀ key ∈ ms.keys, key ∈ fields := by
  match fields with
  | [] => simp [project]
  | field :: rest =>
    have hmap : project (some (field :: rest)) records = records ↔
        ∀ record ∈ records, selectMembers (field :: rest) record = record := by
      rw [project]
      conv_lhs => rhs; rw [← List.map_id records]
      exact List.map_inj_left
    rw [hmap, or_iff_right (List.cons_ne_nil _ _)]
    constructor
    · intro h members hmem
      exact selectMembers_object_eq_self_iff.1 (h _ hmem)
    · intro h record hrecord
      cases record with
      | object members => exact selectMembers_object_eq_self_iff.2 (h members hrecord)
      | _ => rfl

end Projections

namespace Pipeline

/-- A query that selects nothing selects the expanded properties alone, if there are any.  So it gives
what it gives without a selection just when it expands nothing, or all members of the objects of that
answer are expanded ones. -/
theorem run_select_nil_eq_iff (p : Pipeline) (options : QueryOptions) (records : List Json) :
    p.run { options with select := some [] } records =
        (p.run { options with select := none } records).map
          (project (some (options.expand.map ExpandItem.path))) ∧
      (p.run { options with select := some [] } records =
          p.run { options with select := none } records ↔
        options.expand = [] ∨ ∀ values, p.run { options with select := none } records = .ok values →
          ∀ members, .object members ∈ values → ∃ ms : Json.Members, .object members = ms.toJson ∧
            ∀ key ∈ ms.keys, key ∈ options.expand.map ExpandItem.path) := by
  have hrun : p.run { options with select := some [] } records =
      (p.run { options with select := none } records).map
        (project (some (options.expand.map ExpandItem.path))) := by
    obtain ⟨all, hall⟩ : ∃ all, withExpanded (some []) options.expand = some all := ⟨_, rfl⟩
    have hsame : project (some all) = project (some (options.expand.map ExpandItem.path)) :=
      project_congr fun key => by simp [mem_of_withExpanded hall]
    rw [run_eq_map_project]
    simp only [hall, hsame]
  refine ⟨hrun, ?_⟩
  rw [hrun]
  cases p.run { options with select := none } records with
  | error fault => simp [Except.map]
  | ok values => simp [Except.map, project_eq_self_iff]

/-- The identifier of an order is lost with an empty selection, as soon as a property is expanded. -/
theorem run_select_nil_drops :
    let p : Pipeline := ⟨{}, .empty⟩
    let options : QueryOptions := { expand := [⟨"lines", none⟩] }
    let record : Json := .object [("id", .ofNat 1), ("lines", .null)]
    p.run { options with select := none } [record] = .ok [record] ∧
      p.run { options with select := some [] } [record] = .ok [.object [("lines", .null)]] ∧
      p.run { options with select := some [] } [record] ≠
        p.run { options with select := none } [record] := by
  intro p options record
  have hwhole : p.run { options with select := none } [record] = .ok [record] := by
    simp only [run_eq, selected, options, order_nil]
    rfl
  have hchosen : p.run { options with select := some [] } [record] =
      .ok [.object [("lines", .null)]] := by
    simp only [run_eq, selected, options, order_nil]
    rfl
  refine ⟨hwhole, hchosen, ?_⟩
  rw [hwhole, hchosen]
  simp [record]

end Pipeline

end Collection

end OData

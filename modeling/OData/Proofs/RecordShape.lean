import OData.Proofs.LateSelection
import OData.Proofs.OptionValues

/-!
# The records of an answer

The records of an answer are those of its page, one for one.  A record keeps the
selected properties that it has, and the expanded ones are all there, selected
or not (`ShapedMembers`).  That is read off the answer without a selection: there
the expansion alone changes the members, and the selection made afterwards
drops what is neither selected nor expanded (`shapedRecord_of_expand`).

Decoded options never have a selection that names nothing
(`select_decode_ne_nil`), so this holds of every query that a client can ask.
-/

namespace OData

namespace Options

/-- A selection that names nothing is decoded to none. -/
theorem select_decode_ne_nil (pairs : List (String × String)) : (decode pairs).select ≠ some [] := by
  have hvalue (value : String) : decodeSelect value ≠ some [] := by
    rw [decodeSelect]
    split
    · exact (Option.some_ne_none _).symm
    · next hne => simpa using hne
  rw [decode, deepestExpand, decodeAt, decodeWith_eq]
  cases lastValue? "$select" pairs with
  | none => exact (Option.some_ne_none _).symm
  | some value => exact hvalue value

end Options

namespace Collection

/-! ## Selections -/

/-- Whether a selection keeps a key: there is no selection, or it names the key. -/
def Selects (select : Option (List String)) (key : String) : Prop := ∀ fields ∈ select, key ∈ fields

/-- With the expanded properties, a selection keeps what it keeps and these. -/
theorem selects_withExpanded_iff (select : Option (List String)) (items : List ExpandItem)
    (key : String) : Selects (withExpanded select items) key ↔
      Selects select key ∨ key ∈ items.map ExpandItem.path := by
  cases select with
  | none => simp [Selects, withExpanded]
  | some fields => simp [Selects, withExpanded, mem_foldl_path]

theorem withExpanded_ne_nil {select : Option (List String)} (h : select ≠ some [])
    (items : List ExpandItem) : withExpanded select items ≠ some [] := by
  intro hnil
  cases select with
  | none => cases hnil
  | some fields =>
    refine h (congrArg some (List.eq_nil_iff_forall_not_mem.2 fun key hkey => ?_))
    exact List.not_mem_nil ((mem_of_withExpanded hnil).2 (.inl ⟨fields, rfl, hkey⟩))

theorem selectRecord_of_not_object (select : Option (List String)) {record : Json}
    (h : ∀ members, record ≠ .object members) : selectRecord select record = record := by
  match select with
  | none => rfl
  | some [] => rfl
  | some (field :: rest) =>
    cases record with
    | object members => exact absurd rfl (h members)
    | _ => rfl

/-- A selection that names something gives an object the members that it keeps. -/
theorem selectRecord_object {select : Option (List String)} (hne : select ≠ some [])
    (members : List (String × Json)) :
    ∃ chosen, selectRecord select (.object members) = .object chosen ∧
      (Json.Ascending members → Json.Ascending chosen) ∧
      (∀ key, key ∈ chosen.map Prod.fst ↔ key ∈ members.map Prod.fst ∧ Selects select key) ∧
      ∀ key, Selects select key → Json.lookupMember key chosen = Json.lookupMember key members := by
  match select with
  | none => exact ⟨members, rfl, id, by simp [Selects], fun _ _ => rfl⟩
  | some [] => exact absurd rfl hne
  | some (field :: rest) =>
    refine ⟨_, selectMembers_object_eq _ _, fun _ => (chosenMembers _ _).ascending, ?_, ?_⟩
    · intro key
      rw [← Json.isSome_lookupMember_iff, ← Json.isSome_lookupMember_iff, lookupMember_chosenMembers]
      by_cases hkey : key ∈ field :: rest
      · simp [Selects, hkey]
      · simp [Selects, hkey]
    · intro key hkey
      rw [lookupMember_chosenMembers, if_pos (hkey _ rfl)]

/-! ## Expanded members -/

namespace Pipeline

section Expanded

variable {p : Pipeline} {items : List ExpandItem} {members made : List (String × Json)}
variable (h : (p.expandMembers items members).toExcept = .ok made) {key : String}
include h

/-- A property that is not expanded stays. -/
theorem lookupMember_of_not_mem_paths (hkey : key ∉ items.map ExpandItem.path) :
    Json.lookupMember key made = Json.lookupMember key members := by
  have hslot := foldlM_expandSlot h key
  rw [not_not.1 (mt itemsAt_ne_nil_iff.1 hkey)] at hslot
  exact (Except.ok.inj hslot).symm

/-- A property that is expanded is there. -/
theorem isSome_lookupMember_of_mem_paths (hkey : key ∈ items.map ExpandItem.path) :
    (Json.lookupMember key made).isSome = true := by
  have hslot := foldlM_expandSlot h key
  rw [foldlM_expandSlot_eq, if_neg (itemsAt_ne_nil_iff.2 hkey)] at hslot
  obtain ⟨v, -, hv⟩ := map_eq_ok_iff.1 hslot
  rw [← hv, Option.isSome_some]

theorem mem_keys_of_expandMembers :
    key ∈ made.map Prod.fst ↔ key ∈ members.map Prod.fst ∨ key ∈ items.map ExpandItem.path := by
  rw [← Json.isSome_lookupMember_iff, ← Json.isSome_lookupMember_iff]
  by_cases hkey : key ∈ items.map ExpandItem.path
  · simp [isSome_lookupMember_of_mem_paths h hkey, hkey]
  · simp [lookupMember_of_not_mem_paths h hkey, hkey]

end Expanded

/-! ## Every record of an answer -/

/-- What a query makes of the members of a record. -/
structure ShapedMembers (p : Pipeline) (options : QueryOptions)
    (members made : List (String × Json)) : Prop where
  /-- They are the members of an object if they were. -/
  ascending : Json.Ascending members → Json.Ascending made
  /-- The keys are the selected ones that the record has, and all expanded ones. -/
  mem_keys_iff : ∀ key, key ∈ made.map Prod.fst ↔
    key ∈ members.map Prod.fst ∧ Selects options.select key ∨ key ∈ options.expand.map ExpandItem.path
  /-- A property that is not expanded has its value. -/
  unexpanded : ∀ key ∈ made.map Prod.fst, key ∉ options.expand.map ExpandItem.path →
    Json.lookupMember key made = Json.lookupMember key members
  /-- A property that is expanded has what its items make of its value, selected or not. -/
  expanded : ∀ key ∈ options.expand.map ExpandItem.path,
    (itemsAt key options.expand).foldlM p.expandSlot (Json.lookupMember key members) =
      .ok (Json.lookupMember key made)

/-- What a query makes of a record.  A record that is no object stays. -/
def ShapedRecord (p : Pipeline) (options : QueryOptions) (record made : Json) : Prop :=
  match record with
  | .object members => ∃ members', made = .object members' ∧ p.ShapedMembers options members members'
  | other => made = other

section Shaped

variable {p : Pipeline} {options : QueryOptions} (hselect : options.select ≠ some [])
include hselect

theorem shapedRecord_of_expand {record made : Json}
    (h : p.expand options.expand record = ⟨made, none⟩) :
    p.ShapedRecord options record
      (selectRecord (withExpanded options.select options.expand) made) := by
  have hall := withExpanded_ne_nil hselect options.expand
  have hselects := selects_withExpanded_iff options.select options.expand
  cases record with
  | object members =>
    obtain ⟨made, hmade, rfl⟩ := expand_object_eq_iff.1 h
    obtain ⟨chosen, hchosen, hascending, hkeys, hvalue⟩ := selectRecord_object hall made
    refine ⟨chosen, hchosen, ?_, ?_, ?_, ?_⟩
    · exact fun hmembers => hascending (ascending_of_expandMembers hmade hmembers)
    · intro key
      rw [hkeys, mem_keys_of_expandMembers hmade, hselects, and_or_right]
    · intro key hkey hpath
      rw [hvalue key ((hkeys key).1 hkey).2, lookupMember_of_not_mem_paths hmade hpath]
    · intro key hkey
      rw [hvalue key ((hselects key).2 (.inr hkey))]
      exact foldlM_expandSlot hmade key
  | _ =>
    obtain rfl := congrArg Attempt.made h
    exact selectRecord_of_not_object _ nofun

/-- A query gives the records of its page, each shaped by its selection and its expansion. -/
theorem shapedRecords_of_run {records values : List Json} (h : p.run options records = .ok values) :
    ∃ kept, p.filter options.filterText records = .ok kept ∧
      List.Forall₂ (p.ShapedRecord options)
        (page (options.skip.getD 0) (p.config.limits.effectiveTop options.top)
          (order options.orderBy kept)) values := by
  rw [run_eq_map_project, map_eq_ok_iff] at h
  obtain ⟨whole, hwhole, rfl⟩ := h
  obtain ⟨kept, hkept, hexpand⟩ := run_eq_ok_iff.1 hwhole
  refine ⟨kept, hkept, ?_⟩
  rw [project_eq_map, List.forall₂_map_right_iff]
  have hmade := Attempt.each_eq_iff.1 (Attempt.toExcept_eq_ok_iff.1 hexpand)
  exact hmade.imp fun record made h => shapedRecord_of_expand hselect h

end Shaped

/-- Every record of an answer is a record of the page, in the shape that the selection and the expansion
give it.  A record that is no object stays.  An object has the selected keys that it had, or all of them
without a selection, and all expanded ones.  A property that is not expanded has its value.  One that is
expanded has what its items make of its value, so it is never lost because it is not selected. -/
theorem shapedRecords_of_run_decode {p : Pipeline} {pairs : List (String × String)}
    {records values : List Json} (h : p.run (Options.decode pairs) records = .ok values) :
    ∃ kept, p.filter (Options.decode pairs).filterText records = .ok kept ∧
      List.Forall₂ (p.ShapedRecord (Options.decode pairs))
        (page ((Options.decode pairs).skip.getD 0)
          (p.config.limits.effectiveTop (Options.decode pairs).top)
          (order (Options.decode pairs).orderBy kept)) values :=
  shapedRecords_of_run (Options.select_decode_ne_nil pairs) h

/-- The lines of an order are there although they are not selected, its maker although it had none, and
its note is dropped. -/
theorem shapedRecords_of_run_decode_order :
    let p : Pipeline := ⟨{}, .empty⟩
    let pairs := [("$select", "id, total"), ("$expand", "lines, maker")]
    let members : List (String × Json) :=
      [("id", .ofNat 1), ("lines", .array [.bool true]), ("note", .null)]
    let made : List (String × Json) :=
      [("id", .ofNat 1), ("lines", .array [.bool true]), ("maker", .null)]
    p.run (Options.decode pairs) [.object members, .bool true] = .ok [.object made, .bool true] ∧
      p.filter (Options.decode pairs).filterText [.object members, .bool true] =
        .ok [.object members, .bool true] ∧
      List.Forall₂ (p.ShapedRecord (Options.decode pairs)) [.object members, .bool true]
        [.object made, .bool true] ∧
      p.ShapedMembers (Options.decode pairs) members made := by
  intro p pairs members made
  have hdecode : Options.decode pairs =
      { select := some ["id", "total"], expand := [⟨"lines", none⟩, ⟨"maker", none⟩] } := by
    with_unfolding_all rfl
  have hrun : p.run (Options.decode pairs) [.object members, .bool true] =
      .ok [.object made, .bool true] := by
    simp only [hdecode, run_eq, selected, order_nil]
    rfl
  obtain ⟨kept, hkept, hshaped⟩ := shapedRecords_of_run_decode hrun
  have hfilter : p.filter (Options.decode pairs).filterText [.object members, .bool true] =
      .ok [.object members, .bool true] := by
    rw [hdecode]
    rfl
  obtain rfl := Except.ok.inj (hfilter.symm.trans hkept)
  have hpage : page ((Options.decode pairs).skip.getD 0)
      (p.config.limits.effectiveTop (Options.decode pairs).top)
      (order (Options.decode pairs).orderBy [.object members, .bool true]) =
        [.object members, .bool true] := by
    rw [hdecode, order_nil]
    rfl
  rw [hpage] at hshaped
  obtain ⟨made', hmade, hmembers⟩ := (List.forall₂_cons.1 hshaped).1
  obtain rfl := Json.object.inj hmade
  exact ⟨hrun, hfilter, hshaped, hmembers⟩

end Pipeline

end Collection

end OData

import OData.Proofs.Expanding

/-!
# Expansions that stop

An expansion that stops does so between two items.  An item puts its property
there before it shapes the value (`expandInPlace`), but it only shapes what is
there and not null, so the item that fails has put nothing there
(`expandMember_stopped`).  The items before it have done their work, and those
behind it have done nothing (`expandMembers_stopped`).
-/

namespace OData.Collection

open OData.Filter (Fault)

namespace Pipeline

variable {p : Pipeline} {item : ExpandItem} {items : List ExpandItem}
variable {members made : List (String × Json)} {fault : Fault}

/-! ## One item -/

/-- The steps of one item on members that are changed in place.  The property is put there as null if it
is missing.  If its value is not null, it is shaped, and replaced by what it is shaped to. -/
def expandInPlace (p : Pipeline) (item : ExpandItem) (members : List (String × Json)) :
    Attempt (List (String × Json)) :=
  let slotted := withSlot item.path members
  let slot := (Json.lookupMember item.path slotted).getD .null
  match item.options with
  | none => ⟨slotted, none⟩
  | some options =>
    if slot.isNull then ⟨slotted, none⟩
    else
      match p.shapeValue options slot with
      | .ok made => ⟨Json.insertMember item.path made slotted, none⟩
      | .error fault => ⟨slotted, some fault⟩

theorem withSlot_of_some {path : String} {v : Json} (h : Json.lookupMember path members = some v) :
    withSlot path members = members := by
  rw [withSlot, h]

/-- The value at a path that has just been put there is the one that was there, or null. -/
theorem lookupMember_withSlot (path : String) (members : List (String × Json)) :
    Json.lookupMember path (withSlot path members) =
      some ((Json.lookupMember path members).getD .null) := by
  cases hold : Json.lookupMember path members with
  | none =>
    rw [withSlot, hold]
    exact Json.lookupMember_insertMember path .null members
  | some v => rw [withSlot_of_some hold, hold, Option.getD_some]

/-- It makes no difference that the property is put there first. -/
theorem expandMember_eq_expandInPlace (p : Pipeline) (item : ExpandItem)
    (members : List (String × Json)) : p.expandMember item members = p.expandInPlace item members := by
  obtain ⟨path, _ | options⟩ := item
  · rw [expandMember, expandInPlace]
  · rw [expandMember, expandInPlace]
    simp only [lookupMember_withSlot]
    cases hold : Json.lookupMember path members with
    | none => rfl
    | some v =>
      rw [withSlot_of_some hold]
      cases v with
      | null => rfl
      | array children =>
        simp only [Option.getD_some, shapeValue]
        cases p.shape options children <;> rfl
      | _ =>
        simp only [Option.getD_some, shapeValue]
        cases p.shape options [_] <;> rfl

/-- An item that fails has changed nothing: it only shapes what is there and not null. -/
theorem expandMember_stopped (h : p.expandMember item members = ⟨made, some fault⟩) :
    made = members ∧ ∃ v, Json.lookupMember item.path members = some v ∧ v.isNull = false := by
  rw [expandMember_eq_expandInPlace, expandInPlace] at h
  simp only [lookupMember_withSlot, Option.getD_some] at h
  cases hoptions : item.options with
  | none => simp [hoptions] at h
  | some options =>
    simp only [hoptions] at h
    cases hold : Json.lookupMember item.path members with
    -- What has just been put there is null, and null is not shaped.
    | none => simp [hold, Json.isNull] at h
    | some v =>
      rw [withSlot_of_some hold, hold] at h
      split at h
      · cases h
      · next hnull =>
        refine ⟨?_, v, rfl, Bool.not_eq_true _ ▸ hnull⟩
        cases hshape : p.shapeValue options v with
        | ok v' => simp [hshape] at h
        | error fault =>
          simp only [Option.getD_some, hshape, Attempt.mk.injEq] at h
          exact h.1.symm

/-! ## Items in a row -/

/-- The items before the one that fails succeed, and it leaves the members as they have made them. -/
theorem expandMembers_stopped (h : p.expandMembers items members = ⟨made, some fault⟩) :
    ∃ before item after, items = before ++ item :: after ∧
      p.expandMembers before members = ⟨made, none⟩ ∧
      p.expandMember item made = ⟨made, some fault⟩ := by
  induction items generalizing members with
  | nil => cases h
  | cons item items ih =>
    rw [expandMembers] at h
    cases hitem : p.expandMember item members with
    | mk first stop =>
      rw [hitem] at h
      cases stop with
      | some stop =>
        cases h
        obtain ⟨rfl, -⟩ := expandMember_stopped hitem
        exact ⟨[], item, items, rfl, by rw [expandMembers], hitem⟩
      | none =>
        obtain ⟨before, other, after, rfl, hbefore, hother⟩ := ih h
        refine ⟨item :: before, other, after, rfl, ?_, hother⟩
        rw [expandMembers, hitem]
        exact hbefore

theorem expandValue_null (p : Pipeline) (item : ExpandItem) :
    p.expandValue .null item = .ok .null := by
  obtain ⟨path, _ | options⟩ := item <;> rfl

/-- What is there and not null after some items was there and not null before. -/
theorem exists_of_foldlM_expandSlot {old : Option Json} {v : Json}
    (h : items.foldlM p.expandSlot old = .ok (some v)) (hv : v.isNull = false) :
    ∃ w, old = some w ∧ w.isNull = false := by
  induction items generalizing old with
  | nil => exact ⟨v, Except.ok.inj h, hv⟩
  | cons item items ih =>
    rw [List.foldlM_cons] at h
    cases hslot : p.expandSlot old item with
    | error fault =>
      rw [hslot] at h
      cases h
    | ok next =>
      rw [hslot] at h
      obtain ⟨w, rfl, hw⟩ := ih h
      have hnull : (old.getD .null).isNull = false := by
        rw [← Bool.not_eq_true]
        intro hnull
        rw [expandSlot, Json.eq_null_of_isNull hnull, expandValue_null] at hslot
        cases hslot
        cases hw
      cases old with
      | none => cases hnull
      | some u => exact ⟨u, rfl, hnull⟩

/-! ## Records -/

theorem expand_object (p : Pipeline) (items : List ExpandItem) (members : List (String × Json)) :
    p.expand items (.object members) =
      ⟨.object (p.expandMembers items members).made, (p.expandMembers items members).fault⟩ := rfl

/-- An expansion that fails stops between two items.  Those before have done their work, and the one
that fails has changed nothing, not even by putting its property there.  The value at its path was there
and not null from the start. -/
theorem expand_stopped {record result : Json} (h : p.expand items record = ⟨result, some fault⟩) :
    ∃ k item, items[k]? = some item ∧
      p.expand (items.take k) record = ⟨result, none⟩ ∧
      p.expand [item] result = ⟨result, some fault⟩ ∧
      Attempt.onMembers (p.expandInPlace item) result = ⟨result, some fault⟩ ∧
      (∃ v, record.member? item.path = some v ∧ v.isNull = false) ∧
      ∃ v, result.member? item.path = some v ∧ v.isNull = false := by
  cases record with
  | object members =>
    cases hrun : p.expandMembers items members with
    | mk made stop =>
      rw [expand_object, hrun] at h
      cases h
      obtain ⟨before, item, after, rfl, hbefore, hitem⟩ := expandMembers_stopped hrun
      obtain ⟨-, v, hv, hnull⟩ := expandMember_stopped hitem
      have hslot := foldlM_expandSlot (Attempt.toExcept_eq_ok_iff.2 hbefore) item.path
      rw [hv] at hslot
      refine ⟨before.length, item, by simp, ?_, ?_, ?_, exists_of_foldlM_expandSlot hslot hnull,
        v, hv, hnull⟩
      · rw [List.take_left', expand_object, hbefore]
        rfl
      · rw [expand_object, expandMembers, hitem]
      · rw [Attempt.onMembers, ← expandMember_eq_expandInPlace, hitem]
  | _ => cases h

/-- The lines of an order cannot be filtered.  By then the order has a maker, and it never gets a buyer. -/
theorem expand_stopped_filter :
    let p : Pipeline := ⟨{ onFilterFault := .propagate, limits := { maxFilterLength := 3 } }, .empty⟩
    let lines : ExpandItem := ⟨"lines", some { filter := some "total gt 3" }⟩
    let items : List ExpandItem := [⟨"maker", none⟩, lines, ⟨"buyer", none⟩]
    let record : Json := .object [("lines", .array [.bool true])]
    let result : Json := .object [("lines", .array [.bool true]), ("maker", .null)]
    p.expand items record = ⟨result, some (.tooLong 3)⟩ ∧
      ∃ k item, items[k]? = some item ∧
        p.expand (items.take k) record = ⟨result, none⟩ ∧
        p.expand [item] result = ⟨result, some (.tooLong 3)⟩ ∧
        Attempt.onMembers (p.expandInPlace item) result = ⟨result, some (.tooLong 3)⟩ ∧
        (∃ v, record.member? item.path = some v ∧ v.isNull = false) ∧
        ∃ v, result.member? item.path = some v ∧ v.isNull = false := by
  intro p lines items record result
  have hstopped : p.expand items record = ⟨result, some (.tooLong 3)⟩ := by
    rfl
  exact ⟨hstopped, expand_stopped hstopped⟩

end Pipeline

end OData.Collection

import Mathlib.Data.List.Basic
import OData.Collection.Pipeline
import OData.Filter.Expr

/-!
# Selections of members

A selected record has the members of the record that the selection names, with
their values (`member?_selectMembers`).  So selecting twice is selecting once,
and a path that starts with a selected name leads to the same value.
-/

namespace OData

namespace Filter

/-- A path starts with one of some names. -/
def PropertyPath.StartsIn (names : List String) (path : PropertyPath) : Prop :=
  ∃ name ∈ path.segments.head?, name ∈ names

end Filter

namespace Collection

open OData.Filter (PropertyPath)

/-! ## One record -/

section Members

variable (fields : List String) (members : List (String × Json))

/-- The members that some fields name, in the order of the fields. -/
def selectedMembers : List (String × Json) :=
  fields.filterMap fun field => (Json.lookupMember field members).map fun value => (field, value)

theorem selectMembers_object : selectMembers fields (.object members) =
    .ofMembers (selectedMembers fields members) := rfl

/-- The members of an object are found after they were put in one by one. -/
theorem lookupMember_foldl_selectedMembers (key : String) (acc : List (String × Json)) :
    Json.lookupMember key
        ((selectedMembers fields members).foldl (fun acc (k, v) => Json.insertMember k v acc) acc) =
      if key ∈ fields then (Json.lookupMember key members).or (Json.lookupMember key acc)
      else Json.lookupMember key acc := by
  induction fields generalizing acc with
  | nil => rfl
  | cons field fields ih =>
    simp only [selectedMembers] at ih
    cases hvalue : Json.lookupMember field members with
    | none =>
      simp only [selectedMembers, List.filterMap_cons, hvalue, Option.map_none, ih]
      by_cases hkey : key = field
      · simp [hkey, hvalue]
      · simp [hkey]
    | some value =>
      simp only [selectedMembers, List.filterMap_cons, hvalue, Option.map_some, List.foldl_cons, ih]
      by_cases hkey : key = field
      · simp [hkey, hvalue, Json.lookupMember_insertMember]
      · simp [hkey, Json.lookupMember_insertMember_of_ne hkey]

variable {fields members}

theorem selectedMembers_congr {members' : List (String × Json)}
    (h : ∀ field ∈ fields, Json.lookupMember field members = Json.lookupMember field members') :
    selectedMembers fields members = selectedMembers fields members' := by
  refine List.filterMap_congr fun field hfield => ?_
  rw [h field hfield]

end Members

section Records

variable {fields : List String}

/-- A selected record has the members that the selection names. -/
theorem member?_selectMembers (fields : List String) (key : String) (record : Json) :
    (selectMembers fields record).member? key =
      if key ∈ fields then record.member? key else none := by
  cases record with
  | object members =>
    rw [selectMembers_object, Json.ofMembers, Json.member?,
      lookupMember_foldl_selectedMembers, Json.lookupMember, Option.or_none, Json.member?]
  | _ => exact (ite_self none).symm

/-- Selecting twice is selecting once. -/
theorem selectMembers_selectMembers (fields : List String) (record : Json) :
    selectMembers fields (selectMembers fields record) = selectMembers fields record := by
  cases record with
  | object members =>
    rw [selectMembers_object, Json.ofMembers, selectMembers_object]
    refine congrArg Json.ofMembers (selectedMembers_congr fun field hfield => ?_)
    rw [lookupMember_foldl_selectedMembers, if_pos hfield, Json.lookupMember, Option.or_none]
  | _ => rfl

/-- A path that starts with a selected name leads to the same value. -/
theorem resolve_selectMembers {path : PropertyPath} (h : path.StartsIn fields) (record : Json) :
    path.resolve (selectMembers fields record) = path.resolve record := by
  obtain ⟨segments⟩ := path
  obtain ⟨name, hname, hfield⟩ := h
  cases segments with
  | nil => cases hname
  | cons first rest =>
    cases hname
    rw [PropertyPath.resolve, PropertyPath.resolve, PropertyPath.resolveFrom,
      PropertyPath.resolveFrom, member?_selectMembers, if_pos hfield]

end Records

end Collection

end OData

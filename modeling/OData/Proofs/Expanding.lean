import Mathlib.Data.String.Basic
import OData.Proofs.Stages

/-!
# Expanding property by property

An item changes the property at its path and no other.  So what stands under a
key after all items is what the items with that path make of it, one after the
other (`foldlM_expandSlot`), and items with different paths may change places
(`expandMembers_of_perm`).
-/

namespace OData

/-! ## Members -/

namespace Json

section Members

variable {key other : String} {members : List (String × Json)}

theorem isSome_lookupMember_iff :
    (lookupMember key members).isSome = true ↔ key ∈ members.map Prod.fst := by
  induction members with
  | nil => simp [lookupMember]
  | cons m rest ih =>
    obtain ⟨k, v⟩ := m
    rw [lookupMember]
    split
    case isTrue h => simp [h]
    case isFalse h => simp [ih, Ne.symm h]

/-- Values put under two keys may be put there in either order. -/
theorem insertMember_comm (h : key ≠ other) (v w : Json) (members : List (String × Json)) :
    insertMember key v (insertMember other w members) =
      insertMember other w (insertMember key v members) := by
  induction members with
  | nil => grind [insertMember]
  | cons m rest ih => grind [insertMember]

theorem eq_null_of_isNull {v : Json} (h : v.isNull = true) : v = .null := by
  cases v with
  | null => rfl
  | _ => cases h

/-- The members with a value put under a key, if there is one. -/
def putMember (key : String) (value : Option Json) (members : List (String × Json)) :
    List (String × Json) :=
  match value with
  | some v => insertMember key v members
  | none => members

theorem lookupMember_putMember (key : String) (value : Option Json)
    (members : List (String × Json)) :
    lookupMember key (putMember key value members) = value.or (lookupMember key members) := by
  cases value with
  | none => rfl
  | some v => exact lookupMember_insertMember key v members

theorem lookupMember_putMember_of_ne (h : other ≠ key) (value : Option Json)
    (members : List (String × Json)) :
    lookupMember other (putMember key value members) = lookupMember other members := by
  cases value with
  | none => rfl
  | some v => exact lookupMember_insertMember_of_ne h v members

theorem ascending_putMember (h : Ascending members) (key : String) (value : Option Json) :
    Ascending (putMember key value members) := by
  cases value with
  | none => exact h
  | some v => exact ascending_insertMember h key v

/-- The members with a value put under a key, if there is one, in order. -/
def Members.put (key : String) (value : Option Json) (members : Members) : Members :=
  ⟨putMember key value members.toList, ascending_putMember members.ascending key value⟩

theorem putMember_comm (h : key ≠ other) (v w : Option Json) (members : List (String × Json)) :
    putMember key v (putMember other w members) = putMember other w (putMember key v members) := by
  cases v with
  | none => rfl
  | some v =>
    cases w with
    | none => rfl
    | some w => exact insertMember_comm h v w members

end Members

end Json

namespace Collection

open OData.Filter (Fault)

namespace Pipeline

/-! ## One item -/

/-- What an item makes of the value at its path.  Without options, and where there is only null, it
stays.  An array becomes what its elements are shaped to, and another value the first of what it is
shaped to as a collection of one. -/
def expandValue (p : Pipeline) (v : Json) (item : ExpandItem) : Except Fault Json :=
  match item.options, v with
  | none, v => .ok v
  | some _, .null => .ok .null
  | some options, .array children => (p.run options children).map Json.array
  | some options, single => (p.run options [single]).map fun values => values.head?.getD .null

/-- What an item puts at its path, if anything: a missing value is there as null afterwards, and a value
that was shaped is replaced. -/
def replacement? (item : ExpandItem) (old : Option Json) (made : Json) : Option Json :=
  match old with
  | none => some .null
  | some v => if item.options.isSome && !v.isNull then some made else none

section Items

variable {p : Pipeline} {item other : ExpandItem} {members made : List (String × Json)}

theorem shapeValue_eq (p : Pipeline) (path : String) (options : QueryOptions) {v : Json}
    (h : v.isNull = false) : p.shapeValue options v = p.expandValue v ⟨path, some options⟩ := by
  cases v with
  | null => cases h
  | array children =>
    simp only [shapeValue, expandValue, run]
    cases p.shape options children <;> rfl
  | _ =>
    simp only [shapeValue, expandValue, run]
    cases p.shape options [_] <;> rfl

/-- An item looks at the value at its path alone and puts a value there alone. -/
theorem toExcept_expandMember_eq (p : Pipeline) (item : ExpandItem)
    (members : List (String × Json)) :
    (p.expandMember item members).toExcept =
      (p.expandValue ((Json.lookupMember item.path members).getD .null) item).map fun made =>
        Json.putMember item.path (replacement? item (Json.lookupMember item.path members) made)
          members := by
  obtain ⟨path, options⟩ := item
  cases options with
  | none =>
    rw [expandMember]
    simp only [expandValue, Except.map, Attempt.toExcept, withSlot]
    cases Json.lookupMember path members <;> rfl
  | some options =>
    rw [toExcept_expandMember]
    cases hold : Json.lookupMember path members with
    | none => simp [expandValue, Except.map, withSlot, hold, replacement?, Json.putMember]
    | some v =>
      cases hnull : v.isNull with
      | true =>
        obtain rfl := Json.eq_null_of_isNull hnull
        simp [expandValue, Except.map, withSlot, hold, replacement?, Json.putMember, Option.filter,
          hnull]
      | false =>
        simp [hnull, shapeValue_eq p path options hnull, replacement?, Json.putMember,
          Option.filter]

/-- What one item does: it makes something of the value at its path and puts it there. -/
theorem expandMember_eq_ok_iff :
    (p.expandMember item members).toExcept = .ok made ↔
      ∃ v, p.expandValue ((Json.lookupMember item.path members).getD .null) item = .ok v ∧
        made = Json.putMember item.path
          (replacement? item (Json.lookupMember item.path members) v) members := by
  rw [toExcept_expandMember_eq]
  cases p.expandValue ((Json.lookupMember item.path members).getD .null) item with
  | error fault => simp [Except.map]
  | ok v => simp [Except.map, eq_comm]

/-- Where an item puts nothing, it makes nothing else of the value. -/
theorem replacement?_or {old : Option Json} {v : Json}
    (h : p.expandValue (old.getD .null) item = .ok v) : (replacement? item old v).or old = some v := by
  obtain ⟨path, options⟩ := item
  cases old with
  | none =>
    cases options <;>
    · cases h
      rfl
  | some w =>
    cases options with
    | none =>
      cases h
      rfl
    | some options =>
      cases hnull : w.isNull with
      | true =>
        obtain rfl := Json.eq_null_of_isNull hnull
        cases h
        rfl
      | false => simp [replacement?, hnull]

/-- What stands under a key, as an item with that path leaves it. -/
def expandSlot (p : Pipeline) (old : Option Json) (item : ExpandItem) :
    Except Fault (Option Json) := (p.expandValue (old.getD .null) item).map some

theorem expandSlot_of_expandMember (h : (p.expandMember item members).toExcept = .ok made) :
    p.expandSlot (Json.lookupMember item.path members) item =
      .ok (Json.lookupMember item.path made) := by
  obtain ⟨v, hvalue, rfl⟩ := expandMember_eq_ok_iff.1 h
  rw [expandSlot, hvalue, Json.lookupMember_putMember, replacement?_or hvalue]
  rfl

/-- An item leaves what stands under other keys. -/
theorem lookupMember_of_expandMember (h : (p.expandMember item members).toExcept = .ok made)
    {key : String} (hne : key ≠ item.path) :
    Json.lookupMember key made = Json.lookupMember key members := by
  obtain ⟨v, -, rfl⟩ := expandMember_eq_ok_iff.1 h
  exact Json.lookupMember_putMember_of_ne hne _ _

theorem ascending_of_expandMember (h : (p.expandMember item members).toExcept = .ok made)
    (hmembers : Json.Ascending members) : Json.Ascending made := by
  obtain ⟨v, -, rfl⟩ := expandMember_eq_ok_iff.1 h
  exact Json.ascending_putMember hmembers _ _

/-- Items with different paths may change places. -/
theorem expandMember_swap {both : List (String × Json)} (hne : item.path ≠ other.path)
    (h : (p.expandMember item members).toExcept = .ok made)
    (hother : (p.expandMember other made).toExcept = .ok both) :
    ∃ made', (p.expandMember other members).toExcept = .ok made' ∧
      (p.expandMember item made').toExcept = .ok both := by
  obtain ⟨v, hv, rfl⟩ := expandMember_eq_ok_iff.1 h
  obtain ⟨w, hw, rfl⟩ := expandMember_eq_ok_iff.1 hother
  rw [Json.lookupMember_putMember_of_ne hne.symm] at hw ⊢
  refine ⟨_, expandMember_eq_ok_iff.2 ⟨w, hw, rfl⟩, expandMember_eq_ok_iff.2 ⟨v, ?_, ?_⟩⟩
  · rwa [Json.lookupMember_putMember_of_ne hne]
  · rw [Json.lookupMember_putMember_of_ne hne, Json.putMember_comm hne]

end Items

/-! ## All items -/

section Lists

variable {p : Pipeline} {items : List ExpandItem} {members made : List (String × Json)}

theorem expandMembers_cons_eq_ok_iff {item : ExpandItem} :
    (p.expandMembers (item :: items) members).toExcept = .ok made ↔
      ∃ first, (p.expandMember item members).toExcept = .ok first ∧
        (p.expandMembers items first).toExcept = .ok made := by
  rw [toExcept_expandMembers_cons]
  cases (p.expandMember item members).toExcept with
  | error fault => simp [Except.bind]
  | ok first => simp [Except.bind]

/-- The items with a path. -/
def itemsAt (key : String) (items : List ExpandItem) : List ExpandItem :=
  items.filter fun item => item.path = key

theorem itemsAt_ne_nil_iff {key : String} :
    itemsAt key items ≠ [] ↔ key ∈ items.map ExpandItem.path := by
  simp [itemsAt]

/-- What stands under a key is what the items with that path make of it, one after the other. -/
theorem foldlM_expandSlot (h : (p.expandMembers items members).toExcept = .ok made) (key : String) :
    (itemsAt key items).foldlM p.expandSlot (Json.lookupMember key members) =
      .ok (Json.lookupMember key made) := by
  induction items generalizing members with
  | nil =>
    rw [expandMembers] at h
    cases h
    rfl
  | cons item items ih =>
    obtain ⟨first, hfirst, hrest⟩ := expandMembers_cons_eq_ok_iff.1 h
    have hnext := ih hrest
    by_cases hkey : item.path = key
    · subst hkey
      rw [itemsAt, List.filter_cons_of_pos (by simp), List.foldlM_cons,
        expandSlot_of_expandMember hfirst]
      exact hnext
    · rw [lookupMember_of_expandMember hfirst (Ne.symm hkey)] at hnext
      rw [itemsAt, List.filter_cons_of_neg (by simp [hkey])]
      exact hnext

theorem ascending_of_expandMembers (h : (p.expandMembers items members).toExcept = .ok made)
    (hmembers : Json.Ascending members) : Json.Ascending made := by
  induction items generalizing members with
  | nil =>
    rw [expandMembers] at h
    cases h
    exact hmembers
  | cons item items ih =>
    obtain ⟨first, hfirst, hrest⟩ := expandMembers_cons_eq_ok_iff.1 h
    exact ih hrest (ascending_of_expandMember hfirst hmembers)

/-- A fold over what stands under a key is one over its value, null if it is missing. -/
theorem foldlM_expandSlot_eq (items : List ExpandItem) (old : Option Json) :
    items.foldlM p.expandSlot old =
      if items = [] then .ok old else (items.foldlM p.expandValue (old.getD .null)).map some := by
  induction items generalizing old with
  | nil => rfl
  | cons item items ih =>
    rw [if_neg (List.cons_ne_nil _ _), List.foldlM_cons, List.foldlM_cons, expandSlot]
    cases p.expandValue (old.getD .null) item with
    | error fault => rfl
    | ok v =>
      have hnext := ih (some v)
      split at hnext
      case isTrue hnil =>
        subst hnil
        rfl
      case isFalse => exact hnext

/-- Items with different paths may stand in any order. -/
theorem expandMembers_of_perm {items' : List ExpandItem} (hperm : items.Perm items')
    (hpaths : (items.map ExpandItem.path).Nodup)
    (h : (p.expandMembers items members).toExcept = .ok made) :
    (p.expandMembers items' members).toExcept = .ok made := by
  induction hperm generalizing members with
  | nil => exact h
  | cons item _ ih =>
    obtain ⟨first, hfirst, hrest⟩ := expandMembers_cons_eq_ok_iff.1 h
    exact expandMembers_cons_eq_ok_iff.2 ⟨first, hfirst, ih (List.nodup_cons.1 hpaths).2 hrest⟩
  | swap item other items =>
    obtain ⟨first, hfirst, hnext⟩ := expandMembers_cons_eq_ok_iff.1 h
    obtain ⟨second, hsecond, hrest⟩ := expandMembers_cons_eq_ok_iff.1 hnext
    have hne : other.path ≠ item.path := by
      rw [List.map_cons, List.map_cons, List.nodup_cons] at hpaths
      exact fun heq => hpaths.1 (heq ▸ List.mem_cons_self)
    obtain ⟨first', hfirst', hsecond'⟩ := expandMember_swap hne hfirst hsecond
    exact expandMembers_cons_eq_ok_iff.2
      ⟨first', hfirst', expandMembers_cons_eq_ok_iff.2 ⟨second, hsecond', hrest⟩⟩
  | trans hleft _ ihleft ihright =>
    exact ihright ((hleft.map ExpandItem.path).nodup_iff.1 hpaths) (ihleft hpaths h)

end Lists

/-! ## Records -/

theorem expand_object_eq_iff {p : Pipeline} {items : List ExpandItem}
    {members : List (String × Json)} {record : Json} :
    p.expand items (.object members) = ⟨record, none⟩ ↔
      ∃ made, (p.expandMembers items members).toExcept = .ok made ∧ record = .object made := by
  simp only [expand, Attempt.onMembers, Attempt.toExcept_eq_ok_iff]
  obtain ⟨made, fault⟩ := p.expandMembers items members
  simp only [Attempt.mk.injEq]
  constructor
  · rintro ⟨rfl, rfl⟩
    exact ⟨made, ⟨rfl, rfl⟩, rfl⟩
  · rintro ⟨_, ⟨rfl, rfl⟩, rfl⟩
    exact ⟨rfl, rfl⟩

/-- Expanding touches the named properties alone, each by its own items.  The record keeps its keys and
gets the paths of the items.  What stands under a key that is no path stays, and what stands at a path is
what its items make of the value there, null if it was missing, one after the other.  An object stays one,
its members in order.  Items with different paths may stand in any order.  A record that is no object
stays. -/
theorem expand_by_path (p : Pipeline) (items : List ExpandItem) :
    (∀ members record, p.expand items (.object members) = ⟨record, none⟩ →
      ∃ members', record = .object members' ∧
        (∀ key, key ∈ members'.map Prod.fst ↔
          key ∈ members.map Prod.fst ∨ key ∈ items.map ExpandItem.path) ∧
        (∀ key, key ∉ items.map ExpandItem.path →
          Json.lookupMember key members' = Json.lookupMember key members) ∧
        ∀ key ∈ items.map ExpandItem.path, ∃ v,
          (itemsAt key items).foldlM p.expandValue
            ((Json.lookupMember key members).getD .null) = .ok v ∧
          Json.lookupMember key members' = some v) ∧
    (∀ (members : Json.Members) record, p.expand items members.toJson = ⟨record, none⟩ →
      ∃ members' : Json.Members, record = members'.toJson) ∧
    (∀ items', items.Perm items' → (items.map ExpandItem.path).Nodup → ∀ record record',
      p.expand items record = ⟨record', none⟩ → p.expand items' record = ⟨record', none⟩) ∧
    ∀ record, (∀ members, record ≠ .object members) → p.expand items record = ⟨record, none⟩ := by
  refine ⟨?_, ?_, ?_, ?_⟩
  · intro members record h
    obtain ⟨made, hmade, rfl⟩ := expand_object_eq_iff.1 h
    have hunnamed {key : String} (hkey : key ∉ items.map ExpandItem.path) :
        Json.lookupMember key made = Json.lookupMember key members := by
      have hslot := foldlM_expandSlot hmade key
      rw [foldlM_expandSlot_eq, if_pos (not_not.1 (mt itemsAt_ne_nil_iff.1 hkey))] at hslot
      exact (Except.ok.inj hslot).symm
    have hnamed {key : String} (hkey : key ∈ items.map ExpandItem.path) :
        ∃ v, (itemsAt key items).foldlM p.expandValue
            ((Json.lookupMember key members).getD .null) = .ok v ∧
          Json.lookupMember key made = some v := by
      have hslot := foldlM_expandSlot hmade key
      rw [foldlM_expandSlot_eq, if_neg (itemsAt_ne_nil_iff.2 hkey)] at hslot
      cases hfold : (itemsAt key items).foldlM p.expandValue
          ((Json.lookupMember key members).getD .null) with
      | error fault =>
        rw [hfold] at hslot
        cases hslot
      | ok v =>
        rw [hfold] at hslot
        exact ⟨v, rfl, (Except.ok.inj hslot).symm⟩
    refine ⟨made, rfl, ?_, fun _ => hunnamed, fun _ => hnamed⟩
    intro key
    rw [← Json.isSome_lookupMember_iff, ← Json.isSome_lookupMember_iff]
    by_cases hkey : key ∈ items.map ExpandItem.path
    · obtain ⟨v, -, hvalue⟩ := hnamed hkey
      simp [hvalue, hkey]
    · simp [hunnamed hkey, hkey]
  · intro members record h
    obtain ⟨made, hmade, rfl⟩ := expand_object_eq_iff.1 h
    exact ⟨⟨made, ascending_of_expandMembers hmade members.ascending⟩, rfl⟩
  · intro items' hperm hpaths record record' h
    cases record with
    | object members =>
      obtain ⟨made, hmade, rfl⟩ := expand_object_eq_iff.1 h
      exact expand_object_eq_iff.2 ⟨made, expandMembers_of_perm hperm hpaths hmade, rfl⟩
    | _ => exact h
  · intro record hrecord
    cases record with
    | object members => exact absurd rfl (hrecord members)
    | _ => rfl

/-- The lines are cut at the end and then at the start, and a maker is there as null before or after. -/
theorem expand_by_path_cut :
    let p : Pipeline := ⟨{}, .empty⟩
    let ends : ExpandItem := ⟨"lines", some { top := some 2 }⟩
    let starts : ExpandItem := ⟨"lines", some { skip := some 1 }⟩
    let maker : ExpandItem := ⟨"maker", none⟩
    let lines : Json := .array [.bool true, .bool false, .null]
    let record : Json := .object [("lines", lines)]
    let made : Json := .object [("lines", .array [.bool true, .bool false]), ("maker", .null)]
    p.expand [ends, starts] record = ⟨.object [("lines", .array [.bool false])], none⟩ ∧
      [ends, starts].foldlM p.expandValue lines = .ok (.array [.bool false]) ∧
      p.expand [ends, maker] record = ⟨made, none⟩ ∧
      ([ends, maker].map ExpandItem.path).Nodup ∧
      p.expand [maker, ends] record = ⟨made, none⟩ ∧
      (∀ members, lines ≠ .object members) ∧ p.expand [ends, maker] lines = ⟨lines, none⟩ := by
  intro p ends starts maker lines record made
  have hendsValue : p.expandValue lines ends = .ok (.array [.bool true, .bool false]) := by
    simp only [ends, lines, expandValue, run_eq, selected, order_nil]
    rfl
  have hstartsValue : p.expandValue (.array [.bool true, .bool false]) starts =
      .ok (.array [.bool false]) := by
    simp only [starts, expandValue, run_eq, selected, order_nil]
    rfl
  have hends : (p.expandMember ends [("lines", lines)]).toExcept =
      .ok [("lines", .array [.bool true, .bool false])] :=
    expandMember_eq_ok_iff.2 ⟨_, hendsValue, rfl⟩
  have hstarts : (p.expandMember starts [("lines", .array [.bool true, .bool false])]).toExcept =
      .ok [("lines", .array [.bool false])] :=
    expandMember_eq_ok_iff.2 ⟨_, hstartsValue, rfl⟩
  have hcut : p.expand [ends, starts] record = ⟨.object [("lines", .array [.bool false])], none⟩ :=
    expand_object_eq_iff.2 ⟨_, expandMembers_cons_eq_ok_iff.2
      ⟨_, hends, expandMembers_cons_eq_ok_iff.2 ⟨_, hstarts, rfl⟩⟩, rfl⟩
  have hmaker : (p.expandMember maker [("lines", .array [.bool true, .bool false])]).toExcept =
      .ok [("lines", .array [.bool true, .bool false]), ("maker", .null)] := by
    have hge : ¬ "maker" < "lines" := by decide +kernel
    refine expandMember_eq_ok_iff.2 ⟨.null, rfl, ?_⟩
    simp [maker, Json.lookupMember, replacement?, Json.putMember, Json.insertMember, hge]
  have hmade : p.expand [ends, maker] record = ⟨made, none⟩ :=
    expand_object_eq_iff.2 ⟨_, expandMembers_cons_eq_ok_iff.2
      ⟨_, hends, expandMembers_cons_eq_ok_iff.2 ⟨_, hmaker, rfl⟩⟩, rfl⟩
  have hpaths : ([ends, maker].map ExpandItem.path).Nodup := by decide
  have hlines (members : List (String × Json)) : lines ≠ .object members := by simp [lines]
  obtain ⟨hobjects, -, -, -⟩ := expand_by_path p [ends, starts]
  obtain ⟨-, -, hperm, hothers⟩ := expand_by_path p [ends, maker]
  obtain ⟨members, hmembers, -, -, hvalue⟩ := hobjects _ _ hcut
  obtain ⟨v, hfold, hv⟩ := hvalue "lines" (by decide)
  obtain rfl := Json.object.inj hmembers
  obtain rfl := Option.some.inj hv
  exact ⟨hcut, hfold, hmade, hpaths, hperm _ (.swap _ _ _) hpaths _ _ hmade, hlines,
    hothers lines hlines⟩

end Pipeline

end Collection

end OData

import Mathlib.Data.List.Forall2
import OData.Proofs.ExpandText

/-!
# What decoding depends on

Options are made of the last value of each of seven keys.  So pairs that give
every one of these keys the same last value decode alike (`SameValues`), and
neither the order of the keys nor any other key has an influence.

The options of an expanded property are pairs again.  Two texts of an expansion
may differ inside parentheses, as long as the pairs there have the same last
values, at every level (`SameDownTo`).  One level is `SamePairs.decodeWith_eq`,
and the levels follow by induction (`SameDownTo.decodeAt_eq`).
-/

namespace OData.Options

/-! ## The parts of an item -/

/-- A text without the closing parenthesis at its end. -/
def withoutClosing (inside : List Char) : List Char :=
  if inside.getLast? = some ')' then inside.dropLast else inside

/-- The path of an item and what stands inside its parentheses, unless it has no path. -/
def itemParts? (item : List Char) : Option (String × Option (List Char)) :=
  match Text.cutAt? (· = '(') item with
  | none => if item.isEmpty then none else some (String.ofList item, none)
  | some (before, inside) =>
    if (Text.trim before).isEmpty then none
    else some (String.ofList (Text.trim before), some (withoutClosing inside))

/-- The parts of the items of an expansion. -/
def expandParts (value : String) : List (String × Option (List Char)) :=
  (topLevelPieces ',' value.toList).filterMap fun item => itemParts? (Text.trim item)

theorem length_withoutClosing_le (inside : List Char) :
    (withoutClosing inside).length ≤ inside.length := by
  rw [withoutClosing]
  split
  · exact (List.dropLast_sublist inside).length_le
  · exact Nat.le_refl _

/-- What stands inside parentheses is shorter than the item. -/
theorem length_lt_of_itemParts? {item inside : List Char} {path : String}
    (h : itemParts? item = some (path, some inside)) : inside.length < item.length := by
  rw [itemParts?] at h
  cases hcut : Text.cutAt? (· = '(') item with
  | none =>
    rw [hcut] at h
    simp at h
  | some parts =>
    obtain ⟨before, rest⟩ := parts
    simp only [hcut, Option.ite_none_left_eq_some, Option.some.injEq, Prod.mk.injEq] at h
    obtain ⟨-, -, rfl⟩ := h
    exact (length_withoutClosing_le rest).trans_lt (Text.length_lt_of_cutAt? hcut)

/-- What stands inside parentheses is shorter than the expansion. -/
theorem length_lt_of_mem_expandParts {value path : String} {inside : List Char}
    (h : (path, some inside) ∈ expandParts value) : inside.length < value.toList.length := by
  obtain ⟨item, hitem, hparts⟩ := List.mem_filterMap.1 h
  have hinside := length_lt_of_itemParts? hparts
  have htrim := Text.length_trim_le item
  have hpiece := length_le_of_mem_piecesFrom hitem
  omega

section Parts

variable (nested : List Char → Option QueryOptions)

theorem decodeExpandItem_eq (item : List Char) :
    decodeExpandItem nested item =
      (itemParts? item).map fun parts => ⟨parts.1, parts.2.bind nested⟩ := by
  rw [decodeExpandItem, itemParts?]
  cases Text.cutAt? (· = '(') item with
  | none => cases item <;> rfl
  | some parts =>
    obtain ⟨before, inside⟩ := parts
    cases hpath : (Text.trim before).isEmpty with
    | true => simp [hpath]
    | false => simp [hpath, withoutClosing]

theorem decodeExpand_eq (value : String) :
    decodeExpand nested value =
      (expandParts value).map fun parts => ⟨parts.1, parts.2.bind nested⟩ := by
  rw [decodeExpand, expandParts, List.map_filterMap]
  exact List.filterMap_congr fun item _ => decodeExpandItem_eq nested _

end Parts

/-! ## The same last values -/

/-- Two sequences of pairs have the same last value for every key that counts, or none for both. -/
def SameValues (pairs pairs' : List (String × String)) : Prop :=
  ∀ key ∈ optionKeys, lastValue? key pairs = lastValue? key pairs'

instance (pairs pairs' : List (String × String)) : Decidable (SameValues pairs pairs') :=
  inferInstanceAs (Decidable (∀ key ∈ optionKeys, lastValue? key pairs = lastValue? key pairs'))

/-- Keys that do not count have no influence. -/
theorem sameValues_filter (pairs : List (String × String)) :
    SameValues (pairs.filter fun pair => pair.1 ∈ optionKeys) pairs := by
  intro key hkey
  induction pairs using List.reverseRecOn with
  | nil => rfl
  | append_singleton pairs pair ih =>
    rw [List.filter_append, lastValue?_append_singleton, ← ih]
    by_cases hpair : pair.1 ∈ optionKeys
    · rw [List.filter_singleton, decide_eq_true hpair, cond_true, lastValue?_append_singleton]
    · have hne : pair.1 ≠ key := fun he => hpair (he ▸ hkey)
      rw [List.filter_singleton, decide_eq_false hpair, cond_false, List.append_nil, if_neg hne]

/-- Where no key is repeated, the order of the pairs has no influence. -/
theorem sameValues_of_perm {pairs pairs' : List (String × String)} (hperm : pairs.Perm pairs')
    (hkeys : (pairs.map Prod.fst).Nodup) : SameValues pairs pairs' := by
  intro key _
  have hkeys' : (pairs'.map Prod.fst).Nodup := (hperm.map Prod.fst).nodup_iff.1 hkeys
  refine Option.ext fun value => ?_
  rw [lastValue?_eq_some_iff hkeys, lastValue?_eq_some_iff hkeys', hperm.mem_iff]

/-! ## The same at every level -/

section Levels

variable {alike : List Char → List Char → Prop} {nested : List Char → Option QueryOptions}
variable {pairs pairs' : List (String × String)}

/-- Two items have the same path, and options in parentheses that are alike, or none. -/
structure SameItem (alike : List Char → List Char → Prop) (item item' : String × Option (List Char)) :
    Prop where
  path : item.1 = item'.1
  inside : Option.Rel alike item.2 item'.2

/-- Two expansions have the same items in the same places. -/
def SameItems (alike : List Char → List Char → Prop) (value value' : String) : Prop :=
  List.Forall₂ (SameItem alike) (expandParts value) (expandParts value')

/-- Two sequences of pairs have the same last values, where expansions may differ inside parentheses. -/
structure SamePairs (alike : List Char → List Char → Prop) (pairs pairs' : List (String × String)) :
    Prop where
  value : ∀ key ∈ optionKeys, key ≠ "$expand" → lastValue? key pairs = lastValue? key pairs'
  expand : Option.Rel (SameItems alike) (lastValue? "$expand" pairs) (lastValue? "$expand" pairs')

/-- Two sequences of pairs have the same last values, and so have those inside parentheses, down to some
levels.  Below these levels anything may stand inside parentheses. -/
def SameDownTo : (levels : Nat) → (pairs pairs' : List (String × String)) → Prop
  | 0 => SamePairs fun _ _ => True
  | levels + 1 =>
    SamePairs fun inside inside' => SameDownTo levels (nestedPairs inside) (nestedPairs inside')

variable (hnested : ∀ inside inside', alike inside inside' → nested inside = nested inside')
include hnested

theorem bind_eq_of_rel {inside? inside'? : Option (List Char)}
    (h : Option.Rel alike inside? inside'?) : inside?.bind nested = inside'?.bind nested := by
  cases h with
  | none => rfl
  | some hinside => exact hnested _ _ hinside

theorem SameItems.decodeExpand_eq {value value' : String} (h : SameItems alike value value') :
    decodeExpand nested value = decodeExpand nested value' := by
  have hitem (item item' : String × Option (List Char)) (hitem : SameItem alike item item') :
      (⟨item.1, item.2.bind nested⟩ : ExpandItem) = ⟨item'.1, item'.2.bind nested⟩ := by
    rw [hitem.path, bind_eq_of_rel hnested hitem.inside]
  rw [Options.decodeExpand_eq, Options.decodeExpand_eq, ← List.forall₂_eq_eq_eq,
    List.forall₂_map_left_iff, List.forall₂_map_right_iff]
  exact h.imp hitem

/-- The same last values decode alike, if what is alike inside parentheses does. -/
theorem SamePairs.decodeWith_eq (h : SamePairs alike pairs pairs') :
    decodeWith nested pairs = decodeWith nested pairs' := by
  have hexpand {value? value'? : Option String}
      (hrel : Option.Rel (SameItems alike) value? value'?) :
      value?.map (decodeExpand nested) = value'?.map (decodeExpand nested) := by
    cases hrel with
    | none => rfl
    | some hitems => exact congrArg some (SameItems.decodeExpand_eq hnested hitems)
  rw [Options.decodeWith_eq, Options.decodeWith_eq, hexpand h.expand,
    h.value "$select" (by decide) (by decide), h.value "$orderby" (by decide) (by decide),
    h.value "$top" (by decide) (by decide), h.value "$skip" (by decide) (by decide),
    h.value "$count" (by decide) (by decide), h.value "$filter" (by decide) (by decide)]

omit hnested

/-- The same last values down to some levels decode alike down to these levels. -/
theorem SameDownTo.decodeAt_eq {levels : Nat} (h : SameDownTo levels pairs pairs') :
    decodeAt levels pairs = decodeAt levels pairs' := by
  induction levels generalizing pairs pairs' with
  | zero => exact SamePairs.decodeWith_eq (fun _ _ _ => rfl) h
  | succ levels ih => exact SamePairs.decodeWith_eq (fun _ _ hinside => congrArg some (ih hinside)) h

theorem SameValues.samePairs (h : SameValues pairs pairs') (halike : ∀ inside, alike inside inside) :
    SamePairs alike pairs pairs' where
  value key hkey _ := h key hkey
  expand := by
    rw [h "$expand" (by decide)]
    have hitem (item : String × Option (List Char)) : SameItem alike item item := by
      obtain ⟨path, _ | inside⟩ := item
      · exact ⟨rfl, .none⟩
      · exact ⟨rfl, .some (halike inside)⟩
    cases lastValue? "$expand" pairs' with
    | none => exact .none
    | some value => exact .some (List.forall₂_same.2 fun item _ => hitem item)

/-- The same last values make pairs the same at every level. -/
theorem SameValues.sameDownTo (h : SameValues pairs pairs') (levels : Nat) :
    SameDownTo levels pairs pairs' := by
  induction levels generalizing pairs pairs' with
  | zero => exact h.samePairs fun _ => trivial
  | succ levels ih => exact h.samePairs fun _ => ih fun _ _ => rfl

theorem SameValues.decodeAt_eq (h : SameValues pairs pairs') (levels : Nat) :
    decodeAt levels pairs = decodeAt levels pairs' :=
  (h.sameDownTo levels).decodeAt_eq

end Levels

/-- Decoding depends on the last value of every key that counts and on nothing else.  Pairs with the same
last values decode to the same options.  So do the pairs inside the parentheses of an item, and expansions
whose items have the same paths and, at every level, the same last values inside parentheses.  Where no
key is repeated, the order of the pairs has no influence, and keys that do not count never have. -/
theorem decode_eq_of_sameValues :
    (∀ pairs pairs', SameValues pairs pairs' → decode pairs = decode pairs') ∧
    (∀ levels inside inside', SameValues (nestedPairs inside) (nestedPairs inside') →
      nestedAt levels inside = nestedAt levels inside') ∧
    (∀ pairs pairs', SameDownTo deepestExpand pairs pairs' → decode pairs = decode pairs') ∧
    (∀ pairs pairs', pairs.Perm pairs' → (pairs.map Prod.fst).Nodup →
      decode pairs = decode pairs') ∧
    ∀ pairs, decode (pairs.filter fun pair => pair.1 ∈ optionKeys) = decode pairs := by
  refine ⟨fun pairs pairs' h => h.decodeAt_eq _, ?_, fun pairs pairs' h => h.decodeAt_eq,
    fun pairs pairs' hperm hkeys => (sameValues_of_perm hperm hkeys).decodeAt_eq _,
    fun pairs => (sameValues_filter pairs).decodeAt_eq _⟩
  intro levels inside inside' h
  cases levels with
  | zero => rfl
  | succ levels => exact congrArg some (h.decodeAt_eq levels)

/-- Keys that are repeated or do not count, an empty selection after one that is not, and inside
parentheses the same with other white space and in another order. -/
theorem decode_eq_of_sameValues_repeated :
    let expand := ("$expand", "Lines($top=1;$skip=2),Maker")
    let pairs := [("$select", "a"), ("$top", "9"), ("$search", "b"), ("$select", " , "), expand,
      ("$top", "5")]
    let once := [("$select", " , "), ("$top", "5"), expand]
    let inside := "$top=1;$skip=2".toList
    let inside' := " $skip = 2;x=$top=4;$top=3; $top =1".toList
    let pairs' := [("$top", "5"), ("$expand", "Lines( $skip = 2;x=$top=4;$top=3; $top =1),Maker"),
      ("$select", " , ")]
    SameValues pairs once ∧ decode pairs = decode once ∧
      SameValues (nestedPairs inside) (nestedPairs inside') ∧
      nestedAt deepestExpand inside = nestedAt deepestExpand inside' ∧
      SameDownTo deepestExpand pairs pairs' ∧ decode pairs = decode pairs' ∧
      decode once.reverse = decode once := by
  intro expand pairs once inside inside' pairs'
  obtain ⟨hvalues, hinside, hlevels, hperm, -⟩ := decode_eq_of_sameValues
  have honce : SameValues pairs once := by decide +kernel
  have hnested : SameValues (nestedPairs inside) (nestedPairs inside') := by decide +kernel
  have hparts : expandParts "Lines($top=1;$skip=2),Maker" =
      [("Lines", some inside), ("Maker", none)] := by decide +kernel
  have hparts' : expandParts "Lines( $skip = 2;x=$top=4;$top=3; $top =1),Maker" =
      [("Lines", some inside'), ("Maker", none)] := by decide +kernel
  have hsame : SameDownTo deepestExpand pairs pairs' := by
    refine ⟨by decide +kernel, .some ?_⟩
    rw [SameItems, hparts, hparts']
    exact .cons ⟨rfl, .some (hnested.sameDownTo 7)⟩ (.cons ⟨rfl, .none⟩ .nil)
  exact ⟨honce, hvalues _ _ honce, hnested, hinside _ _ _ hnested, hsame, hlevels _ _ hsame,
    hperm _ _ once.reverse_perm (by decide)⟩

end OData.Options

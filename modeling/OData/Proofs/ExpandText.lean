import OData.Proofs.OptionValues
import OData.Proofs.Separators

/-!
# Expansions as text

The text of an expansion writes its items with commas between them.  The options
of an item stand in parentheses behind its path, as pairs with semicolons
between them, and they may have an expansion of their own.  A text may write the
pairs in any order, so `WrittenAs` is a relation between items and texts.

What is written decodes to the same items (`decode_expand`).  Two facts carry the
induction on the tree of options.  The text of every value is balanced and has
no semicolon at top level, so the cuts at the level around it pass over it
(`Nestable`).  And the text of an item ends with the parenthesis that closes it,
so the options inside are found whole (`decodeExpandItem_inParentheses`).
-/

namespace OData

open OData.Options

/-! ## Items that can be written -/

/-- A filter that can be written in the options of an item: an accepted one, without white space
around it and without a semicolon at top level. -/
structure Filter.IsNestable (text : String) : Prop where
  trimmed : Text.trimmed text = text
  accepted : ∃ limits e, parse limits text = .ok e
  unbroken : topLevelPositions ';' text.toList = []

/-- The options other than the expansion can be written. -/
structure QueryOptions.HasWritableValues (options : QueryOptions) : Prop where
  select : ∀ names, options.select = some names → names ≠ [] ∧ ∀ name ∈ names, IsName name
  orderBy : ∀ key ∈ options.orderBy, IsOrderKey key
  top : ∀ n, options.top = some n → n ≤ greatestSize
  skip : ∀ n, options.skip = some n → n ≤ greatestSize
  filter : ∀ text, options.filter = some text → Filter.IsNestable text

mutual
/-- The options can be written, at every level. -/
def QueryOptions.IsWritable : QueryOptions → Prop
  | ⟨select, orderBy, top, skip, count, filter, expand⟩ =>
    QueryOptions.HasWritableValues ⟨select, orderBy, top, skip, count, filter, expand⟩ ∧
      ExpandItem.AllWritable expand

/-- The items can be written. -/
def ExpandItem.AllWritable : List ExpandItem → Prop
  | [] => True
  | item :: items => item.IsWritable ∧ ExpandItem.AllWritable items

/-- An item can be written. -/
def ExpandItem.IsWritable : ExpandItem → Prop
  | ⟨path, none⟩ => IsName path
  | ⟨path, some options⟩ => IsName path ∧ options.IsWritable
end

mutual
/-- The number of levels of options inside options. -/
def QueryOptions.levels : QueryOptions → Nat
  | ⟨_, _, _, _, _, _, expand⟩ => ExpandItem.maxLevels expand

/-- The greatest number of levels of some items. -/
def ExpandItem.maxLevels : List ExpandItem → Nat
  | [] => 0
  | item :: items => max item.levels (ExpandItem.maxLevels items)

/-- The number of levels of options of an item. -/
def ExpandItem.levels : ExpandItem → Nat
  | ⟨_, none⟩ => 0
  | ⟨_, some options⟩ => options.levels + 1
end

/-! ## Written texts -/

/-- The value to write for every key, where `texts` are those of the expanded items. -/
def QueryOptions.values (options : QueryOptions) (texts : List String) :
    List (String × Option String) :=
  [("$select", options.select.map (",".intercalate ·)),
    ("$orderby", if options.orderBy.isEmpty then none else some (orderText options.orderBy)),
    ("$top", options.top.map toString),
    ("$skip", options.skip.map toString),
    ("$count", options.count.map toString),
    ("$filter", options.filter),
    ("$expand", if texts.isEmpty then none else some (",".intercalate texts))]

/-- The text of a pair. -/
def Options.pairText (pair : String × String) : String := pair.1 ++ "=" ++ pair.2

mutual
/-- A text writes the options that are given, in some order. -/
def QueryOptions.WrittenAs : QueryOptions → String → Prop
  | ⟨select, orderBy, top, skip, count, filter, expand⟩, inside =>
    ∃ (texts : List String) (pairs : List (String × String)), ExpandItem.AllWrittenAs expand texts ∧
      pairs.Perm (given (QueryOptions.values
        ⟨select, orderBy, top, skip, count, filter, expand⟩ texts)) ∧
      inside = ";".intercalate (pairs.map pairText)

/-- Texts write some items, one each. -/
def ExpandItem.AllWrittenAs : List ExpandItem → List String → Prop
  | [], [] => True
  | item :: items, text :: texts => item.WrittenAs text ∧ ExpandItem.AllWrittenAs items texts
  | _, _ => False

/-- A text writes an item: its path, and its options in parentheses if it has options. -/
def ExpandItem.WrittenAs : ExpandItem → String → Prop
  | ⟨path, none⟩, text => text = path
  | ⟨path, some options⟩, text =>
    ∃ inside, options.WrittenAs inside ∧ text = path ++ "(" ++ inside ++ ")"
end

namespace Options

/-! ## Texts inside texts -/

/-- A text can be the value of a pair inside the parentheses of an item. -/
structure Nestable (cs : List Char) : Prop where
  balanced : Balanced cs
  unbroken : Unbroken ';' .top cs
  trimmed : Text.trim cs = cs

theorem nestable_of_plain {cs : List Char} (h : ∀ c ∈ cs, isPlain c = true)
    (htrim : Text.trim cs = cs) : Nestable cs where
  balanced := balanced_of_not_nests fun c hc => not_nests_of_isPlain (h c hc)
  unbroken := unbroken_of_not_mem fun hc => Bool.false_ne_true (h _ hc)
  trimmed := htrim

theorem IsName.balanced {name : String} (h : IsName name) : Balanced name.toList :=
  balanced_of_not_nests fun c hc => not_nests_of_isPlain (h.plain c hc)

theorem isPlain_of_isDigit {c : Char} (h : c.isDigit = true) : isPlain c = true := by
  have hne {d : Char} (hd : d.isDigit = false) : c ≠ d := Decimal.ne_of_isDigit h hd
  simp [isPlain, nests, hne]

theorem nestable_toString (n : Nat) : Nestable (toString n).toList := by
  have hdigits {c : Char} (hc : c ∈ (toString n).toList) : c.isDigit = true := by
    rw [Decimal.toList_toString] at hc
    exact Decimal.isDigit_of_mem_toDigits hc
  exact nestable_of_plain (fun c hc => isPlain_of_isDigit (hdigits hc))
    (Text.trim_eq_self fun c hc => Decimal.isBlank_of_isDigit (hdigits hc))

theorem nestable_filter {text : String} (h : Filter.IsNestable text) : Nestable text.toList where
  balanced := by
    obtain ⟨limits, e, hparse⟩ := h.accepted
    exact Filter.balanced_of_parse hparse
  unbroken := positionsFrom_eq_nil.1 h.unbroken
  trimmed := Text.trim_toList_of_trimmed h.trimmed

/-- Texts that can be values are one when they are joined. -/
theorem nestable_intercalate {separator : List Char}
    (hseparator : ∀ c ∈ separator, nests c = false ∧ c ≠ ';') {texts : List (List Char)}
    (h : ∀ text ∈ texts, Nestable text ∧ text ≠ []) : Nestable (separator.intercalate texts) := by
  have hbalanced : Balanced separator := balanced_of_not_nests fun c hc => (hseparator c hc).1
  have hunbroken : Unbroken ';' .top separator :=
    unbroken_of_not_mem fun hc => (hseparator _ hc).2 rfl
  have hjoin {cs ds : List Char} (hcs : Nestable cs ∧ cs ≠ []) (hds : Nestable ds ∧ ds ≠ []) :
      Nestable (cs ++ (separator ++ ds)) ∧ cs ++ (separator ++ ds) ≠ [] := by
    obtain ⟨hcs, hne⟩ := hcs
    obtain ⟨hds, hne'⟩ := hds
    have htop : Nesting.top.after cs = .top := hcs.balanced 0
    have hbetween : Nesting.top.after separator = .top := hbalanced 0
    refine ⟨⟨hcs.balanced.append (hbalanced.append hds.balanced), ?_, ?_⟩, by simp [hne]⟩
    · rw [unbroken_append, unbroken_append, htop, hbetween]
      exact ⟨hcs.unbroken, hunbroken, hds.unbroken⟩
    · exact Text.trim_append_append hcs.trimmed hne hds.trimmed hne' separator
  cases texts with
  | nil => exact nestable_of_plain (by simp) rfl
  | cons text texts => exact (Text.intercalate_induction hjoin (by simp) h).1

theorem nestable_commaSeparated {texts : List String}
    (h : ∀ text ∈ texts, Nestable text.toList ∧ text.toList ≠ []) :
    Nestable (",".intercalate texts).toList := by
  rw [String.toList_intercalate]
  refine nestable_intercalate (by simp [nests]) ?_
  intro cs hcs
  obtain ⟨text, htext, rfl⟩ := List.mem_map.1 hcs
  exact h text htext

/-! ## Pairs -/

/-- A pair can be written inside the parentheses of an item. -/
structure IsWritablePair (pair : String × String) : Prop where
  key : IsName pair.1
  key_noEquals : '=' ∉ pair.1.toList
  value : Nestable pair.2.toList

theorem toList_pairText (pair : String × String) :
    (pairText pair).toList = pair.1.toList ++ '=' :: pair.2.toList := by
  rw [pairText, String.toList_append, String.toList_append, List.append_assoc]
  rfl

namespace IsWritablePair

variable {pair : String × String} (h : IsWritablePair pair)
include h

theorem balanced : Balanced (pairText pair).toList := by
  have hequals : Balanced ['='] := balanced_of_not_nests (by simp [nests])
  rw [toList_pairText]
  exact h.key.balanced.append (hequals.append h.value.balanced)

theorem unbroken : Unbroken ';' .top (pairText pair).toList := by
  have hkey : Nesting.top.after pair.1.toList = .top := h.key.balanced 0
  rw [toList_pairText, unbroken_append, hkey]
  exact ⟨unbroken_of_not_mem (h.key.notMem rfl), rfl, h.value.unbroken⟩

/-- The text of a pair is cut at the first equals sign. -/
theorem cutAt?_pairText : Text.cutAt? (· = '=') (pairText pair).toList =
    some (pair.1.toList, pair.2.toList) := by
  rw [toList_pairText]
  refine Text.cutAt?_append ?_ rfl
  intro c hc
  exact decide_eq_false fun he => h.key_noEquals (he ▸ hc)

end IsWritablePair

section PairTexts

variable {pairs : List (String × String)} (h : ∀ pair ∈ pairs, IsWritablePair pair)
include h

theorem balanced_pairTexts : Balanced (";".intercalate (pairs.map pairText)).toList := by
  rw [String.toList_intercalate, List.map_map]
  refine balanced_intercalate (balanced_of_not_nests (by simp [nests])) ?_
  intro text htext
  obtain ⟨pair, hpair, rfl⟩ := List.mem_map.1 htext
  exact (h pair hpair).balanced

/-- Pairs that are written inside parentheses are found there. -/
theorem nestedPairs_pairTexts :
    nestedPairs (";".intercalate (pairs.map pairText)).toList = pairs := by
  cases hpairs : pairs with
  | nil => rfl
  | cons first rest =>
    rw [← hpairs]
    have hpieces : topLevelPieces ';' (";".intercalate (pairs.map pairText)).toList =
        pairs.map fun pair => (pairText pair).toList := by
      rw [String.toList_intercalate, List.map_map]
      refine topLevelPieces_intercalate (by decide) (by simp [hpairs]) ?_
      intro text htext
      obtain ⟨pair, hpair, rfl⟩ := List.mem_map.1 htext
      exact ⟨(h pair hpair).balanced, (h pair hpair).unbroken⟩
    rw [nestedPairs, hpieces, List.filterMap_map]
    conv_rhs => rw [← List.filterMap_some (l := pairs)]
    refine List.filterMap_congr fun pair hpair => ?_
    have hpair := h pair hpair
    simp only [Function.comp_apply, hpair.cutAt?_pairText, Option.map_some,
      hpair.key.trim_toList, hpair.value.trimmed, String.ofList_toList]

end PairTexts

/-! ## Items -/

/-- A text can stand among the items of an expansion. -/
structure IsItemText (text : List Char) : Prop where
  nestable : Nestable text
  unbroken_comma : Unbroken ',' .top text
  ne_nil : text ≠ []

theorem isItemText_path {path : String} (h : IsName path) : IsItemText path.toList where
  nestable := nestable_of_plain h.plain h.trim_toList
  unbroken_comma := unbroken_of_not_mem (h.notMem rfl)
  ne_nil := h.toList_ne_nil

theorem toList_inParentheses (path inside : String) :
    (path ++ "(" ++ inside ++ ")").toList = path.toList ++ '(' :: (inside.toList ++ [')']) := by
  simp [String.toList_append]

/-- A path with a balanced text in parentheses has no separator at top level that is not in the
path. -/
theorem isItemText_inParentheses {path inside : String} (hpath : IsName path)
    (hinside : Balanced inside.toList) : IsItemText (path ++ "(" ++ inside ++ ")").toList := by
  have hunbroken {separator : Char} (hseparator : isPlain separator = false) :
      Unbroken separator .top (path ++ "(" ++ inside ++ ")").toList := by
    have htop : Nesting.top.after path.toList = .top := hpath.balanced 0
    rw [toList_inParentheses, unbroken_append, htop]
    exact ⟨unbroken_of_not_mem (hpath.notMem hseparator),
      hinside.unbroken_inParentheses separator⟩
  refine ⟨⟨?_, hunbroken rfl, ?_⟩, hunbroken rfl, ?_⟩
  · rw [toList_inParentheses]
    exact hpath.balanced.append hinside.inParentheses
  · rw [toList_inParentheses, ← List.cons_append]
    exact Text.trim_append_append hpath.trim_toList hpath.toList_ne_nil (by decide) (by simp) _
  · rw [toList_inParentheses]
    simp

section Reading

variable (nested : List Char → Option QueryOptions)

theorem decodeExpandItem_path {path : String} (h : IsName path) :
    decodeExpandItem nested path.toList = some ⟨path, none⟩ := by
  have hcut : Text.cutAt? (· = '(') path.toList = none :=
    Text.cutAt?_eq_none fun c hc => decide_eq_false fun he => h.notMem rfl (he ▸ hc)
  rw [decodeExpandItem, hcut]
  simp [h.ne_empty]

/-- What stands between the parentheses is found whole. -/
theorem decodeExpandItem_inParentheses {path : String} (h : IsName path) (inside : String) :
    decodeExpandItem nested (path ++ "(" ++ inside ++ ")").toList =
      some ⟨path, nested inside.toList⟩ := by
  have hcut : Text.cutAt? (· = '(') (path.toList ++ '(' :: (inside.toList ++ [')'])) =
      some (path.toList, inside.toList ++ [')']) :=
    Text.cutAt?_append (fun c hc => decide_eq_false fun he => h.notMem rfl (he ▸ hc)) rfl
  rw [toList_inParentheses, decodeExpandItem, hcut]
  simp [h.trim_toList, h.ne_empty]

/-- The items of joined texts are those of the texts. -/
theorem decodeExpand_intercalate {texts : List String}
    (h : ∀ text ∈ texts, IsItemText text.toList) :
    decodeExpand nested (",".intercalate texts) =
      texts.filterMap fun text => decodeExpandItem nested text.toList := by
  cases htexts : texts with
  | nil => rfl
  | cons first rest =>
    rw [← htexts]
    have hpieces : topLevelPieces ',' (",".intercalate texts).toList =
        texts.map String.toList := by
      rw [String.toList_intercalate]
      refine topLevelPieces_intercalate (by decide) (by simp [htexts]) ?_
      intro cs hcs
      obtain ⟨text, htext, rfl⟩ := List.mem_map.1 hcs
      exact ⟨(h text htext).nestable.balanced, (h text htext).unbroken_comma⟩
    rw [decodeExpand, hpieces, List.filterMap_map]
    refine List.filterMap_congr fun text htext => ?_
    rw [Function.comp_apply, (h text htext).nestable.trimmed]

end Reading

/-! ## Values -/

/-- The keys of the values are the ones that count. -/
theorem keys_values (options : QueryOptions) (texts : List String) :
    (options.values texts).map Prod.fst = optionKeys := rfl

theorem isName_of_mem_values {options : QueryOptions} {texts : List String} {key : String}
    {value? : Option String} (h : (key, value?) ∈ options.values texts) :
    IsName key ∧ '=' ∉ key.toList := by
  have hkeys : ∀ key ∈ (options.values texts).map Prod.fst, IsName key ∧ '=' ∉ key.toList := by
    rw [keys_values]
    decide
  exact hkeys key (List.mem_map_of_mem h)

theorem map_decodeSize {size : Option Nat} (h : ∀ n, size = some n → n ≤ greatestSize) :
    (size.map toString).map decodeSize = size := by
  cases size with
  | none => rfl
  | some n =>
    refine congrArg some ?_
    rw [decodeSize_toString, Nat.min_eq_right (h n rfl)]

theorem map_decodeCount (count : Option Bool) : (count.map toString).map decodeCount = count := by
  cases count with
  | none => rfl
  | some count => exact congrArg some (decodeCount_toString count)

/-- An expansion that is not written has no items. -/
theorem map_decodeExpand (nested : List Char → Option QueryOptions) (texts : List String) :
    ((if texts.isEmpty then none else some (",".intercalate texts)).map
      (decodeExpand nested)).getD [] = decodeExpand nested (",".intercalate texts) := by
  cases texts <;> rfl

section Values

variable {options : QueryOptions} (hvalues : options.HasWritableValues) {texts : List String}
include hvalues

theorem nestable_orderText (hne : options.orderBy ≠ []) :
    Nestable (orderText options.orderBy).toList := by
  rw [toList_orderText hne]
  refine nestable_intercalate (by simp [nests]) ?_
  intro text htext
  obtain ⟨key, hkey, rfl⟩ := List.mem_map.1 htext
  have hkey := hvalues.orderBy key hkey
  exact ⟨nestable_of_plain hkey.plain hkey.isField.trim_toText, toText_ne_nil key⟩

/-- Every value that is written can stand inside parentheses. -/
theorem nestable_of_mem_values (htexts : ∀ text ∈ texts, IsItemText text.toList)
    {key value : String} (h : (key, some value) ∈ options.values texts) :
    Nestable value.toList := by
  simp only [QueryOptions.values, List.mem_cons, Prod.mk.injEq, List.not_mem_nil, or_false] at h
  rcases h with ⟨-, h⟩ | ⟨-, h⟩ | ⟨-, h⟩ | ⟨-, h⟩ | ⟨-, h⟩ | ⟨-, h⟩ | ⟨-, h⟩
  · obtain ⟨names, hnames, rfl⟩ := Option.map_eq_some_iff.1 h.symm
    refine nestable_commaSeparated fun name hname => ?_
    have hname := (hvalues.select names hnames).2 name hname
    exact ⟨nestable_of_plain hname.plain hname.trim_toList, hname.toList_ne_nil⟩
  · split at h
    · cases h
    · next hne =>
      obtain rfl := Option.some.inj h
      exact nestable_orderText hvalues (by simpa using hne)
  · obtain ⟨n, -, rfl⟩ := Option.map_eq_some_iff.1 h.symm
    exact nestable_toString n
  · obtain ⟨n, -, rfl⟩ := Option.map_eq_some_iff.1 h.symm
    exact nestable_toString n
  · obtain ⟨count, -, rfl⟩ := Option.map_eq_some_iff.1 h.symm
    have hplain : (toString count).toList.all isPlain = true := by cases count <;> rfl
    exact nestable_of_plain (List.all_eq_true.1 hplain) (by cases count <;> rfl)
  · exact nestable_filter (hvalues.filter value h.symm)
  · split at h
    · cases h
    · obtain rfl := Option.some.inj h
      exact nestable_commaSeparated fun text htext =>
        ⟨(htexts text htext).nestable, (htexts text htext).ne_nil⟩

theorem bind_decodeSelect :
    (options.select.map (",".intercalate ·)).bind decodeSelect = options.select := by
  cases hselect : options.select with
  | none => rfl
  | some names =>
    obtain ⟨hne, hnames⟩ := hvalues.select names hselect
    exact decodeSelect_intercalate hne hnames

theorem map_decodeOrderBy :
    ((if options.orderBy.isEmpty then none else some (orderText options.orderBy)).map
      decodeOrderBy).getD [] = options.orderBy := by
  split
  · next hnil => exact (List.isEmpty_iff.1 hnil).symm
  · next hne =>
    exact decodeOrderBy_orderText (by simpa using hne) fun key hkey =>
      (hvalues.orderBy key hkey).isField

/-- Pairs that write some options, in any order, decode to these options. -/
theorem decodeWith_of_values {nested : List Char → Option QueryOptions}
    (hexpand : decodeExpand nested (",".intercalate texts) = options.expand)
    {pairs : List (String × String)} (hperm : pairs.Perm (given (options.values texts))) :
    decodeWith nested pairs = options := by
  have hnodup : ((options.values texts).map Prod.fst).Nodup := by
    rw [keys_values]
    decide
  have hlast (i : Nat) {key : String} {value? : Option String}
      (h : (options.values texts)[i]? = some (key, value?)) : lastValue? key pairs = value? :=
    lastValue?_given hnodup hperm (List.mem_of_getElem? h)
  rw [decodeWith_eq, hlast 0 rfl, hlast 1 rfl, hlast 2 rfl, hlast 3 rfl, hlast 4 rfl, hlast 5 rfl,
    hlast 6 rfl, bind_decodeSelect hvalues, map_decodeOrderBy hvalues, map_decodeSize hvalues.top,
    map_decodeSize hvalues.skip, map_decodeCount, map_decodeExpand, hexpand]
  cases options
  rfl

end Values

/-! ## The tree of options -/

/-- The reader of what stands inside parentheses, down to some levels. -/
def nestedAt : (levels : Nat) → List Char → Option QueryOptions
  | 0, _ => none
  | levels + 1, inside => some (decodeAt levels (nestedPairs inside))

theorem decodeAt_eq (levels : Nat) : decodeAt levels = decodeWith (nestedAt levels) := by
  cases levels <;> rfl

-- The recursion is that of `WrittenAs`: options, their items, the options of an item.
mutual
/-- The text of some options is balanced and decodes to them. -/
theorem decodeAt_of_writtenAs : (options : QueryOptions) → {inside : String} →
    options.IsWritable → options.WrittenAs inside →
    Balanced inside.toList ∧
      ∀ n, options.levels ≤ n → decodeAt n (nestedPairs inside.toList) = options
  | ⟨select, orderBy, top, skip, count, filter, expand⟩, _, ⟨hvalues, hitems⟩,
      ⟨texts, pairs, htexts, hperm, rfl⟩ => by
    obtain ⟨hshape, hread⟩ := filterMap_of_allWrittenAs expand hitems htexts
    have hpairs : ∀ pair ∈ pairs, IsWritablePair pair := by
      rintro ⟨key, value⟩ hpair
      have hmem := mem_given.1 (hperm.mem_iff.1 hpair)
      obtain ⟨hkey, hequals⟩ := isName_of_mem_values hmem
      exact ⟨hkey, hequals, nestable_of_mem_values hvalues hshape hmem⟩
    refine ⟨balanced_pairTexts hpairs, fun n hn => ?_⟩
    rw [nestedPairs_pairTexts hpairs, decodeAt_eq]
    refine decodeWith_of_values hvalues ?_ hperm
    rw [decodeExpand_intercalate _ hshape]
    exact hread n hn

/-- The texts of some items can stand in an expansion and decode to the items. -/
theorem filterMap_of_allWrittenAs : (items : List ExpandItem) → {texts : List String} →
    ExpandItem.AllWritable items → ExpandItem.AllWrittenAs items texts →
    (∀ text ∈ texts, IsItemText text.toList) ∧
      ∀ n, ExpandItem.maxLevels items ≤ n →
        texts.filterMap (fun text => decodeExpandItem (nestedAt n) text.toList) = items
  | [], [], _, _ => ⟨by simp, fun _ _ => rfl⟩
  | item :: items, text :: texts, ⟨hitem, hitems⟩, ⟨htext, htexts⟩ => by
    obtain ⟨hshape, hread⟩ := decodeExpandItem_of_writtenAs item hitem htext
    obtain ⟨hshapes, hreads⟩ := filterMap_of_allWrittenAs items hitems htexts
    refine ⟨List.forall_mem_cons.2 ⟨hshape, hshapes⟩, fun n hn => ?_⟩
    rw [ExpandItem.maxLevels] at hn
    simp only [List.filterMap_cons, hread n (by omega), hreads n (by omega)]

/-- The text of an item can stand in an expansion and decodes to the item. -/
theorem decodeExpandItem_of_writtenAs : (item : ExpandItem) → {text : String} →
    item.IsWritable → item.WrittenAs text →
    IsItemText text.toList ∧
      ∀ n, item.levels ≤ n → decodeExpandItem (nestedAt n) text.toList = some item
  | ⟨path, none⟩, _, hpath, rfl =>
    ⟨isItemText_path hpath, fun n _ => decodeExpandItem_path (nestedAt n) hpath⟩
  | ⟨path, some options⟩, _, ⟨hpath, hoptions⟩, ⟨inside, hinside, rfl⟩ => by
    obtain ⟨hbalanced, hread⟩ := decodeAt_of_writtenAs options hoptions hinside
    refine ⟨isItemText_inParentheses hpath hbalanced, fun n hn => ?_⟩
    rw [decodeExpandItem_inParentheses _ hpath]
    -- An item with options takes a level itself.
    cases n with
    | zero => exact absurd hn (Nat.not_succ_le_zero _)
    | succ n => rw [nestedAt, hread n (Nat.le_of_succ_le_succ hn)]
end

/-- An expansion decodes completely.  Whatever text writes the items, with the options of each in
any order, it decodes to these items, if they nest no deeper than options are decoded. -/
theorem decode_expand {items : List ExpandItem} {texts : List String}
    (hitems : ExpandItem.AllWritable items) (hlevels : ExpandItem.maxLevels items ≤ deepestExpand)
    (htexts : ExpandItem.AllWrittenAs items texts) :
    decode [("$expand", ",".intercalate texts)] = { expand := items } := by
  obtain ⟨hshape, hread⟩ := filterMap_of_allWrittenAs items hitems htexts
  have hexpand : decodeExpand (nestedAt deepestExpand) (",".intercalate texts) = items := by
    rw [decodeExpand_intercalate _ hshape, hread _ hlevels]
  rw [decode, decodeAt_eq, ← hexpand]
  rfl

/-- The options of an item in another order than `values` has them, with a filter that has all
separators, and a parenthesis that is never closed, in a string. -/
theorem decode_expand_nested :
    let product : QueryOptions := { expand := [⟨"maker", none⟩] }
    let lines : QueryOptions := {
      select := some ["id", "unit price"]
      orderBy := [⟨"total", .descending⟩, ⟨"id", .ascending⟩]
      top := some 5
      count := some false
      filter := some "contains(note, 'a;b,(c=''d') and (total gt 3)"
      expand := [⟨"product", some product⟩, ⟨"unit", some {}⟩] }
    let items : List ExpandItem := [⟨"lines", some lines⟩, ⟨"customer", none⟩]
    let inside := "$filter=contains(note, 'a;b,(c=''d') and (total gt 3);" ++
      "$expand=product($expand=maker),unit();$count=false;$top=5;" ++
      "$orderby=total desc, id asc;$select=id,unit price"
    ExpandItem.AllWritable items ∧ ExpandItem.maxLevels items ≤ deepestExpand ∧
      ExpandItem.AllWrittenAs items ["lines" ++ "(" ++ inside ++ ")", "customer"] ∧
      decode [("$expand", "lines(" ++ inside ++ "),customer")] = { expand := items } := by
  intro product lines items inside
  have hfilter : Filter.IsNestable "contains(note, 'a;b,(c=''d') and (total gt 3)" := by
    have hok : (Filter.parse {} "contains(note, 'a;b,(c=''d') and (total gt 3)").isOk = true := by
      decide +kernel
    refine ⟨by decide +kernel, ?_, by decide +kernel⟩
    cases hparse : Filter.parse {} "contains(note, 'a;b,(c=''d') and (total gt 3)" with
    | ok e => exact ⟨{}, e, hparse⟩
    | error fault =>
      rw [hparse] at hok
      cases hok
  have hnothing (expand : List ExpandItem) : QueryOptions.HasWritableValues { expand } :=
    ⟨nofun, nofun, nofun, nofun, nofun⟩
  have hlines : lines.HasWritableValues := {
    select := by
      rintro names ⟨⟩
      decide
    orderBy := by decide
    top := by
      rintro n ⟨⟩
      decide
    skip := nofun
    filter := by
      rintro text ⟨⟩
      exact hfilter }
  have hitems : ExpandItem.AllWritable items :=
    ⟨⟨by decide, hlines, ⟨by decide, hnothing _, (by decide : IsName "maker"), trivial⟩,
      ⟨by decide, hnothing _, trivial⟩, trivial⟩, (by decide : IsName "customer"), trivial⟩
  have hproduct : product.WrittenAs "$expand=maker" :=
    ⟨["maker"], [("$expand", "maker")], ⟨rfl, trivial⟩, .refl _, by decide⟩
  have hunit : QueryOptions.WrittenAs {} "" := ⟨[], [], trivial, .refl _, by decide⟩
  have hinside : lines.WrittenAs inside :=
    ⟨["product($expand=maker)", "unit()"], [
        ("$filter", "contains(note, 'a;b,(c=''d') and (total gt 3)"),
        ("$expand", "product($expand=maker),unit()"), ("$count", "false"), ("$top", "5"),
        ("$orderby", "total desc, id asc"), ("$select", "id,unit price")],
      ⟨⟨_, hproduct, by decide⟩, ⟨_, hunit, by decide⟩, trivial⟩, by decide +kernel,
      by decide +kernel⟩
  have htexts : ExpandItem.AllWrittenAs items ["lines" ++ "(" ++ inside ++ ")", "customer"] :=
    ⟨⟨inside, hinside, rfl⟩, rfl, trivial⟩
  have hlevels : ExpandItem.maxLevels items ≤ deepestExpand := by decide
  have hdecode := decode_expand hitems hlevels htexts
  have htext : ",".intercalate ["lines" ++ "(" ++ inside ++ ")", "customer"] =
      "lines(" ++ inside ++ "),customer" := by decide +kernel
  rw [htext] at hdecode
  exact ⟨hitems, hlevels, htexts, hdecode⟩

end Options

end OData

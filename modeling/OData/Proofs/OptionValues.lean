import Mathlib.Data.List.Induction
import Mathlib.Data.List.Nodup
import OData.Options.Decoding
import OData.Proofs.Cutting
import OData.Proofs.Digits

/-!
# Values of options

What is written for a size, a selection, an order or a count decodes to the same
value again.  For an order that is decoded from any text this makes what is
written its normal form (`decodeOrderBy_normal`).

Of all pairs the last one of a key counts, so the decoded options are a function
of the last value of every key (`decodeWith_eq`).  Where every key is given
once, the order of the pairs does not matter (`lastValue?_given`).
-/

namespace OData.Options

/-! ## Sizes -/

theorem decodeSize_toString (n : Nat) : decodeSize (toString n) = min greatestSize n := by
  have hdigits {c : Char} (hc : c ∈ Nat.toDigits 10 n) : c.isDigit = true :=
    Decimal.isDigit_of_mem_toDigits hc
  have htrim : Text.trim (Nat.toDigits 10 n) = Nat.toDigits 10 n :=
    Text.trim_eq_self fun c hc => Decimal.isBlank_of_isDigit (hdigits hc)
  have hrun : (Nat.toDigits 10 n).takeWhile Char.isDigit = Nat.toDigits 10 n := by
    have htake := Text.takeWhile_append (fun c hc => @hdigits c hc) Text.stopsRun_nil
    rwa [List.append_nil] at htake
  have hsize : decodeSize.leadingSize (Nat.toDigits 10 n) = min greatestSize n := by
    rw [decodeSize.leadingSize, hrun, Decimal.digitsValue_toDigits]
  rw [decodeSize, Decimal.toList_toString, htrim]
  split
  case h_1 heq => exact absurd (hdigits (heq ▸ List.mem_cons_self)) (by decide)
  case h_2 heq => exact absurd (hdigits (heq ▸ List.mem_cons_self)) (by decide)
  case h_3 => exact hsize

/-- What a text decodes to is a size. -/
theorem decodeSize_le (value : String) : decodeSize value ≤ greatestSize := by
  rw [decodeSize]
  split
  · exact Nat.zero_le _
  · exact Nat.min_le_left _ _
  · exact Nat.min_le_left _ _

/-! ## Selections and orders -/

/-- Whether a character has no meaning for the cutting of options. -/
def isPlain (c : Char) : Bool := !nests c && c ≠ ',' && c ≠ ';'

theorem not_nests_of_isPlain {c : Char} (h : isPlain c = true) : nests c = false := by
  simp only [isPlain, Bool.and_eq_true, Bool.not_eq_true'] at h
  exact h.1.1

/-- The name of a property as it can be written in options. -/
structure IsName (name : String) : Prop where
  ne_empty : name ≠ ""
  trimmed : Text.trimmed name = name
  plain : ∀ c ∈ name.toList, isPlain c = true

instance (name : String) : Decidable (IsName name) :=
  decidable_of_iff (name ≠ "" ∧ Text.trimmed name = name ∧ name.toList.all isPlain = true)
    ⟨fun ⟨hne, htrim, hplain⟩ => ⟨hne, htrim, List.all_eq_true.1 hplain⟩,
      fun h => ⟨h.ne_empty, h.trimmed, List.all_eq_true.2 h.plain⟩⟩

namespace IsName

variable {name : String} (h : IsName name)
include h

theorem toList_ne_nil : name.toList ≠ [] := fun hnil => h.ne_empty (String.toList_eq_nil_iff.1 hnil)

theorem trim_toList : Text.trim name.toList = name.toList := Text.trim_toList_of_trimmed h.trimmed

theorem notMem {c : Char} (hc : isPlain c = false) : c ∉ name.toList := by
  intro hmem
  rw [h.plain c hmem] at hc
  cases hc

end IsName

/-- The list of joined texts has these texts, without the white space around them. -/
theorem commaList_eq_map_trim {value : String} {texts : List (List Char)}
    (hvalue : value.toList = [','].intercalate texts) (hne : texts ≠ [])
    (h : ∀ text ∈ texts, ',' ∉ text ∧ Text.trim text ≠ []) :
    commaList value = texts.map Text.trim := by
  rw [commaList, hvalue, Text.pieces_intercalate hne fun text ht => (h text ht).1,
    List.filter_eq_self]
  intro piece hpiece
  obtain ⟨text, htext, rfl⟩ := List.mem_map.1 hpiece
  simpa using (h text htext).2

theorem decodeSelect_intercalate {names : List String} (hne : names ≠ [])
    (h : ∀ name ∈ names, IsName name) : decodeSelect (",".intercalate names) = some names := by
  have hlist : commaList (",".intercalate names) = names.map String.toList := by
    rw [commaList_eq_map_trim String.toList_intercalate (by simpa using hne)]
    · rw [List.map_map]
      exact List.map_congr_left fun name hname => (h name hname).trim_toList
    · intro text htext
      obtain ⟨name, hname, rfl⟩ := List.mem_map.1 htext
      rw [(h name hname).trim_toList]
      exact ⟨(h name hname).notMem rfl, (h name hname).toList_ne_nil⟩
  have hnames : (names.map String.toList).map String.ofList = names := by simp
  rw [decodeSelect, hlist, hnames]
  simp [hne]

/-- The field of a key as it can be written in an order: it is not empty, and has no comma and no
white space. -/
structure IsField (field : String) : Prop where
  ne_empty : field ≠ ""
  noComma : ',' ∉ field.toList
  noBlank : ∀ c ∈ field.toList, Text.isBlank c = false

theorem toList_toText (key : OrderKey) :
    key.toText.toList = key.field.toList ++ ([' '] ++ key.direction.word.toList) := by
  rw [OrderKey.toText, String.toList_append, String.toList_append, List.append_assoc]
  rfl

theorem toText_ne_nil (key : OrderKey) : key.toText.toList ≠ [] := by
  rw [toList_toText]
  simp

namespace IsField

variable {key : OrderKey} (h : IsField key.field)
include h

theorem not_mem_toText : ',' ∉ key.toText.toList := by
  rw [toList_toText, List.mem_append, not_or]
  refine ⟨h.noComma, ?_⟩
  cases key.direction <;> decide

theorem trim_toText : Text.trim key.toText.toList = key.toText.toList := by
  rw [toList_toText]
  refine Text.trim_append_append (Text.trim_eq_self h.noBlank)
    (mt String.toList_eq_nil_iff.1 h.ne_empty) ?_ ?_ _
  · cases key.direction <;> decide
  · cases key.direction <;> decide

theorem decodeOrderKey_toText : decodeOrderKey key.toText.toList = key := by
  obtain ⟨field, direction⟩ := key
  have hcut := Text.cutAt?_append (r := direction.word.toList) h.noBlank
    (show Text.isBlank ' ' = true by decide)
  have hword : Direction.ofWord (some (String.ofList (Text.trim direction.word.toList))) =
      direction := by
    cases direction <;> decide
  rw [decodeOrderKey, toList_toText]
  simp only [List.singleton_append, hcut, hword, String.ofList_toList]

end IsField

/-- A key of an order as it can be written inside parentheses: its field is a name without white space. -/
structure IsOrderKey (key : OrderKey) : Prop where
  name : IsName key.field
  noBlank : ∀ c ∈ key.field.toList, Text.isBlank c = false

instance (key : OrderKey) : Decidable (IsOrderKey key) :=
  decidable_of_iff (IsName key.field ∧ key.field.toList.all (!Text.isBlank ·) = true)
    ⟨fun ⟨hname, hblank⟩ => ⟨hname, by simpa using hblank⟩,
      fun h => ⟨h.name, by simpa using h.noBlank⟩⟩

namespace IsOrderKey

variable {key : OrderKey} (h : IsOrderKey key)
include h

theorem isField : IsField key.field := ⟨h.name.ne_empty, h.name.notMem rfl, h.noBlank⟩

theorem plain : ∀ c ∈ key.toText.toList, isPlain c = true := by
  intro c hc
  have hword : ([' '] ++ key.direction.word.toList).all isPlain = true := by
    cases key.direction <;> rfl
  rw [toList_toText] at hc
  rcases List.mem_append.1 hc with hc | hc
  · exact h.name.plain c hc
  · exact List.all_eq_true.1 hword c hc

end IsOrderKey

/-- A blank behind every comma belongs to the text that follows. -/
theorem intercalate_blank (text : List Char) (texts : List (List Char)) :
    [',', ' '].intercalate (text :: texts) = [','].intercalate (text :: texts.map (' ' :: ·)) := by
  induction texts generalizing text with
  | nil => rw [List.map_nil, List.intercalate_singleton, List.intercalate_singleton]
  | cons next texts ih =>
    rw [List.intercalate_cons_cons, ih, List.map_cons, List.intercalate_cons_cons]
    cases texts with
    | nil => simp
    | cons last texts => simp [List.intercalate_cons_cons]

theorem toList_orderText {keys : List OrderKey} (hne : keys ≠ []) :
    (orderText keys).toList = [',', ' '].intercalate (keys.map fun key => key.toText.toList) := by
  rw [orderText, if_neg (by simpa using hne), String.toList_intercalate, List.map_map]
  rfl

theorem decodeOrderBy_orderText {keys : List OrderKey} (hne : keys ≠ [])
    (h : ∀ key ∈ keys, IsField key.field) : decodeOrderBy (orderText keys) = keys := by
  have hlist : commaList (orderText keys) = keys.map fun key => key.toText.toList := by
    have hvalue := toList_orderText hne
    obtain ⟨first, rest, rfl⟩ := List.exists_cons_of_ne_nil hne
    have htrim (key : OrderKey) (hkey : key ∈ first :: rest) :
        Text.trim (' ' :: key.toText.toList) = key.toText.toList := (h key hkey).trim_toText
    rw [List.map_cons, intercalate_blank, List.map_map] at hvalue
    rw [commaList_eq_map_trim hvalue (by simp)]
    · rw [List.map_cons, List.map_cons, List.map_map, (h first (by simp)).trim_toText]
      refine congrArg _ (List.map_congr_left fun key hkey => ?_)
      exact htrim key (List.mem_cons_of_mem _ hkey)
    · intro text htext
      rcases List.mem_cons.1 htext with rfl | htext
      · rw [(h first (by simp)).trim_toText]
        exact ⟨(h first (by simp)).not_mem_toText, toText_ne_nil first⟩
      · obtain ⟨key, hkey, rfl⟩ := List.mem_map.1 htext
        have hkey := List.mem_cons_of_mem first hkey
        rw [Function.comp_apply, htrim key hkey]
        exact ⟨by simpa using (h key hkey).not_mem_toText, toText_ne_nil key⟩
  rw [decodeOrderBy, hlist, List.map_map]
  conv_rhs => rw [← List.map_id keys]
  exact List.map_congr_left fun key hkey => (h key hkey).decodeOrderKey_toText

/-- The texts between commas are trimmed, are not empty, and have no comma. -/
theorem mem_commaList {value : String} {text : List Char} (h : text ∈ commaList value) :
    text ≠ [] ∧ ',' ∉ text ∧ Text.StopsRun Text.isBlank text := by
  obtain ⟨hmem, hne⟩ := List.mem_filter.1 h
  obtain ⟨piece, hpiece, rfl⟩ := List.mem_map.1 hmem
  refine ⟨by simpa using hne, fun hcomma => ?_, Text.stopsRun_trim piece⟩
  exact (Text.mem_pieces hpiece).1 (Text.mem_of_mem_trim hcomma)

/-- A decoded field ends before the first white space of a text that is trimmed and has no comma. -/
theorem isField_of_mem_decodeOrderBy {value : String} {key : OrderKey}
    (h : key ∈ decodeOrderBy value) : IsField key.field := by
  obtain ⟨text, htext, rfl⟩ := List.mem_map.1 h
  obtain ⟨hne, hcomma, hstart⟩ := mem_commaList htext
  cases hcut : Text.cutAt? Text.isBlank text with
  | none =>
    simp only [decodeOrderKey, hcut]
    refine ⟨?_, ?_, ?_⟩
    · simpa [← String.toList_inj] using hne
    · rwa [String.toList_ofList]
    · rw [String.toList_ofList]
      exact Text.forall_of_cutAt?_eq_none hcut
  | some parts =>
    obtain ⟨field, rest⟩ := parts
    obtain ⟨hfield, c, hc, rfl⟩ := Text.exists_of_cutAt? hcut
    simp only [decodeOrderKey, hcut]
    refine ⟨?_, ?_, ?_⟩
    · -- Nothing before the white space would be white space at the start.
      intro hempty
      have hnil : field = [] := by simpa [← String.toList_inj] using hempty
      rw [hnil, List.nil_append, Text.stopsRun_cons, hc] at hstart
      cases hstart
    · rw [String.toList_ofList]
      exact fun hmem => hcomma (List.mem_append_left _ hmem)
    · rwa [String.toList_ofList]

/-- The text of a decoded order is its normal form: it decodes to the same order.  The fields in it are
not empty, and have no comma and no white space. -/
theorem decodeOrderBy_normal (value : String) :
    (∀ key ∈ decodeOrderBy value, key.field ≠ "" ∧ ',' ∉ key.field.toList ∧
      ∀ c ∈ key.field.toList, Text.isBlank c = false) ∧
    (decodeOrderBy value ≠ [] →
      decodeOrderBy (orderText (decodeOrderBy value)) = decodeOrderBy value) := by
  constructor
  · intro key hkey
    have hfield := isField_of_mem_decodeOrderBy hkey
    exact ⟨hfield.ne_empty, hfield.noComma, hfield.noBlank⟩
  · intro hne
    exact decodeOrderBy_orderText hne fun key hkey => isField_of_mem_decodeOrderBy hkey

/-- Fields that are words of a direction, white space outside ASCII, and texts without a key. -/
theorem decodeOrderBy_normal_spaced :
    let value := " desc\u00a0DESC ,, (a;b)\tdesc x ,asc"
    let keys : List OrderKey :=
      [⟨"desc", .descending⟩, ⟨"(a;b)", .ascending⟩, ⟨"asc", .ascending⟩]
    decodeOrderBy value = keys ∧ decodeOrderBy value ≠ [] ∧
      orderText keys = "desc desc, (a;b) asc, asc asc" ∧ decodeOrderBy (orderText keys) = keys := by
  intro value keys
  have hkeys : decodeOrderBy value = keys := by decide +kernel
  have hne : decodeOrderBy value ≠ [] := by
    rw [hkeys]
    simp [keys]
  have hnormal := (decodeOrderBy_normal value).2 hne
  rw [hkeys] at hnormal
  exact ⟨hkeys, hne, by decide +kernel, hnormal⟩

/-! ## Counts -/

theorem decodeCount_toString (count : Bool) : decodeCount (toString count) = count := by
  cases count <;> decide

/-! ## The last value of a key -/

/-- The value of a key in the last pair that has the key. -/
def lastValue? (key : String) (pairs : List (String × String)) : Option String :=
  pairs.reverse.lookup key

theorem lastValue?_append_singleton (key : String) (pairs : List (String × String))
    (pair : String × String) :
    lastValue? key (pairs ++ [pair]) = if pair.1 = key then some pair.2 else lastValue? key pairs := by
  rw [lastValue?, List.reverse_append, List.reverse_singleton, List.singleton_append,
    List.lookup_cons]
  split_ifs with h
  · simp [h]
  · rw [beq_false_of_ne (Ne.symm h)]
    rfl

theorem mem_of_lastValue? {key value : String} {pairs : List (String × String)}
    (h : lastValue? key pairs = some value) : (key, value) ∈ pairs := by
  obtain ⟨before, rest, hsplit, -⟩ := List.lookup_eq_some_iff.1 h
  rw [← List.mem_reverse, hsplit]
  simp

/-- Where no key is repeated, its value is the one it is paired with. -/
theorem lastValue?_eq_some_iff {pairs : List (String × String)}
    (hkeys : (pairs.map Prod.fst).Nodup) {key value : String} :
    lastValue? key pairs = some value ↔ (key, value) ∈ pairs := by
  refine ⟨mem_of_lastValue?, fun hmem => ?_⟩
  cases hlookup : lastValue? key pairs with
  | none => simpa using List.lookup_eq_none_iff.1 hlookup _ (List.mem_reverse.2 hmem)
  | some value' =>
    have hmem' := mem_of_lastValue? hlookup
    exact congrArg (some ·.2) (List.inj_on_of_nodup_map hkeys hmem' hmem rfl)

/-- The keys that count. -/
def optionKeys : List String :=
  ["$select", "$orderby", "$top", "$skip", "$count", "$filter", "$expand"]

/-- Options are made of the last value of every key. -/
theorem decodeWith_eq (nested : List Char → Option QueryOptions) (pairs : List (String × String)) :
    decodeWith nested pairs = {
      select := (lastValue? "$select" pairs).bind decodeSelect
      orderBy := ((lastValue? "$orderby" pairs).map decodeOrderBy).getD []
      top := (lastValue? "$top" pairs).map decodeSize
      skip := (lastValue? "$skip" pairs).map decodeSize
      count := (lastValue? "$count" pairs).map decodeCount
      filter := lastValue? "$filter" pairs
      expand := ((lastValue? "$expand" pairs).map (decodeExpand nested)).getD [] } := by
  induction pairs using List.reverseRecOn with
  | nil => rfl
  | append_singleton pairs pair ih =>
    obtain ⟨key, value⟩ := pair
    rw [decodeWith] at ih
    rw [decodeWith, List.foldl_append, List.foldl_cons, List.foldl_nil, ih]
    simp only [lastValue?_append_singleton, withPair]
    -- The pair sets the option of its key, or it changes nothing.
    by_cases hkey : key ∈ optionKeys
    · simp only [optionKeys, List.mem_cons, List.not_mem_nil, or_false] at hkey
      rcases hkey with rfl | rfl | rfl | rfl | rfl | rfl | rfl <;> rfl
    · simp only [optionKeys, List.mem_cons, List.not_mem_nil, or_false, not_or] at hkey
      simp only [hkey, if_false]

/-- The pairs of the keys that have a value. -/
def given (values : List (String × Option String)) : List (String × String) :=
  values.filterMap fun (key, value?) => value?.map (key, ·)

theorem mem_given {values : List (String × Option String)} {key value : String} :
    (key, value) ∈ given values ↔ (key, some value) ∈ values := by
  simp [given]

theorem keys_given_sublist (values : List (String × Option String)) :
    ((given values).map Prod.fst).Sublist (values.map Prod.fst) := by
  induction values with
  | nil => exact List.nil_sublist _
  | cons value values ih =>
    obtain ⟨key, _ | value⟩ := value
    · exact ih.cons key
    · exact ih.cons_cons key

/-- Where no key is repeated, the order of the pairs does not matter. -/
theorem lastValue?_given {values : List (String × Option String)}
    (hkeys : (values.map Prod.fst).Nodup) {pairs : List (String × String)}
    (hperm : pairs.Perm (given values)) {key : String} {value? : Option String}
    (h : (key, value?) ∈ values) : lastValue? key pairs = value? := by
  have hpairs : (pairs.map Prod.fst).Nodup :=
    (hperm.map Prod.fst).nodup_iff.2 (hkeys.sublist (keys_given_sublist values))
  refine Option.ext fun value => ?_
  rw [lastValue?_eq_some_iff hpairs, hperm.mem_iff, mem_given]
  constructor
  · intro hvalue
    exact congrArg Prod.snd (List.inj_on_of_nodup_map hkeys h hvalue rfl)
  · rintro rfl
    exact h

end OData.Options

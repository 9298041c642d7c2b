import OData.Proofs.LastValues

/-!
# Cutting nested options

Options could be decoded however deep they nest, since a text inside parentheses
is shorter than the text around it (`decodeWhole`).  A server decodes them down to
some levels instead.  That is a pure cut: it gives the whole tree of options with
the options of every item below these levels left out (`decodeAt_eq_cutBelow`),
and a tree is cut just as deep as the levels say (`levels_cutBelow`).
-/

namespace OData

open OData.Options

/-! ## Trees of options that are cut -/

mutual
/-- The options with nested options down to some levels.  An item below them is left without options. -/
def QueryOptions.cutBelow (levels : Nat) : QueryOptions → QueryOptions
  | ⟨select, orderBy, top, skip, count, filter, expand⟩ =>
    ⟨select, orderBy, top, skip, count, filter, ExpandItem.allCutBelow levels expand⟩

/-- Items with nested options down to some levels. -/
def ExpandItem.allCutBelow (levels : Nat) : List ExpandItem → List ExpandItem
  | [] => []
  | item :: items => item.cutBelow levels :: ExpandItem.allCutBelow levels items

/-- An item with nested options down to some levels, the first of which is that of its own. -/
def ExpandItem.cutBelow : (levels : Nat) → ExpandItem → ExpandItem
  | _, ⟨path, none⟩ => ⟨path, none⟩
  | 0, ⟨path, some _⟩ => ⟨path, none⟩
  | levels + 1, ⟨path, some options⟩ => ⟨path, some (options.cutBelow levels)⟩
end

namespace ExpandItem

/-- The options of an item as a cut leaves them. -/
def keptOptions : (levels : Nat) → Option QueryOptions → Option QueryOptions
  | 0, _ => none
  | levels + 1, options => options.map (QueryOptions.cutBelow levels)

theorem keptOptions_none (levels : Nat) : keptOptions levels none = none := by
  cases levels <;> rfl

theorem cutBelow_eq (levels : Nat) (item : ExpandItem) :
    item.cutBelow levels = ⟨item.path, keptOptions levels item.options⟩ := by
  obtain ⟨path, _ | options⟩ := item <;> cases levels <;> rfl

theorem allCutBelow_eq_map (levels : Nat) (items : List ExpandItem) :
    allCutBelow levels items = items.map (cutBelow levels) := by
  induction items with
  | nil => rfl
  | cons item items ih => rw [allCutBelow, ih, List.map_cons]

end ExpandItem

-- The recursion is that of `levels`: options, their items, the options of an item.
mutual
/-- A cut tree is as deep as the cut, or as deep as the tree if that is less. -/
theorem QueryOptions.levels_cutBelow : (n : Nat) → (options : QueryOptions) →
    (options.cutBelow n).levels = min n options.levels
  | n, ⟨_, _, _, _, _, _, expand⟩ => ExpandItem.maxLevels_allCutBelow n expand

/-- The items of a cut tree are as deep as the cut, or as deep as they were. -/
theorem ExpandItem.maxLevels_allCutBelow : (n : Nat) → (items : List ExpandItem) →
    ExpandItem.maxLevels (ExpandItem.allCutBelow n items) = min n (ExpandItem.maxLevels items)
  | n, [] => (Nat.min_zero n).symm
  | n, item :: items => by
    rw [ExpandItem.allCutBelow, ExpandItem.maxLevels, ExpandItem.maxLevels,
      ExpandItem.levels_cutBelow n item, ExpandItem.maxLevels_allCutBelow n items]
    omega

/-- An item of a cut tree is as deep as the cut, or as deep as it was. -/
theorem ExpandItem.levels_cutBelow : (n : Nat) → (item : ExpandItem) →
    (item.cutBelow n).levels = min n item.levels
  | n, ⟨path, none⟩ => by
    rw [ExpandItem.cutBelow]
    exact (Nat.min_zero n).symm
  | 0, ⟨path, some options⟩ => (Nat.zero_min _).symm
  | n + 1, ⟨path, some options⟩ => by
    rw [ExpandItem.cutBelow, ExpandItem.levels, ExpandItem.levels,
      QueryOptions.levels_cutBelow n options]
    omega
end

namespace Options

/-! ## Shorter texts -/

section Shorter

variable {nested nested' : List Char → Option QueryOptions}

/-- An expansion is read by what is shorter than its text. -/
theorem decodeExpand_congr {value : String}
    (h : ∀ inside, inside.length < value.toList.length → nested inside = nested' inside) :
    decodeExpand nested value = decodeExpand nested' value := by
  rw [decodeExpand_eq, decodeExpand_eq]
  refine List.map_congr_left fun ⟨path, inside?⟩ hparts => ?_
  cases inside? with
  | none => rfl
  | some inside => rw [Option.bind_some, Option.bind_some, h _ (length_lt_of_mem_expandParts hparts)]

/-- The length of the longest value. -/
def longestValue : List (String × String) → Nat
  | [] => 0
  | (_, value) :: pairs => max value.toList.length (longestValue pairs)

theorem longestValue_le_iff {pairs : List (String × String)} {n : Nat} :
    longestValue pairs ≤ n ↔ ∀ pair ∈ pairs, pair.2.toList.length ≤ n := by
  induction pairs with
  | nil => simp [longestValue]
  | cons pair pairs ih => rw [longestValue, Nat.max_le, ih, List.forall_mem_cons]

/-- Options are read by what is shorter than some value. -/
theorem decodeWith_congr {pairs : List (String × String)}
    (h : ∀ inside, inside.length < longestValue pairs → nested inside = nested' inside) :
    decodeWith nested pairs = decodeWith nested' pairs := by
  have hexpand : (lastValue? "$expand" pairs).map (decodeExpand nested) =
      (lastValue? "$expand" pairs).map (decodeExpand nested') := by
    refine Option.map_congr fun value hvalue => decodeExpand_congr fun inside hinside => ?_
    have hlongest := longestValue_le_iff.1 le_rfl _ (mem_of_lastValue? hvalue)
    exact h inside (hinside.trans_le hlongest)
  rw [decodeWith_eq, decodeWith_eq, hexpand]

/-- The pairs inside parentheses have values no longer than what stands there. -/
theorem longestValue_nestedPairs_le (inside : List Char) :
    longestValue (nestedPairs inside) ≤ inside.length := by
  rw [longestValue_le_iff]
  intro pair hpair
  obtain ⟨piece, hpiece, hcut⟩ := List.mem_filterMap.1 hpair
  obtain ⟨⟨key, value⟩, hparts, rfl⟩ := Option.map_eq_some_iff.1 hcut
  have hvalue := Text.length_lt_of_cutAt? hparts
  have htrim := Text.length_trim_le value
  have hinside := length_le_of_mem_piecesFrom hpiece
  simp only [String.toList_ofList]
  omega

end Shorter

/-! ## Options without a bound -/

/-- The options of some pairs, with nested options however deep they are.  The test never fails
(`decodeWhole_eq`): it is there for the recursion to end. -/
def decodeWhole (pairs : List (String × String)) : QueryOptions :=
  decodeWith (fun inside =>
    if inside.length < longestValue pairs then some (decodeWhole (nestedPairs inside)) else none) pairs
termination_by longestValue pairs
decreasing_by exact (longestValue_nestedPairs_le inside).trans_lt ‹_›

/-- Nested options are decoded like all others. -/
theorem decodeWhole_eq (pairs : List (String × String)) :
    decodeWhole pairs = decodeWith (fun inside => some (decodeWhole (nestedPairs inside))) pairs := by
  rw [decodeWhole]
  exact decodeWith_congr fun inside hinside => if_pos hinside

/-! ## The bound as a cut -/

section Cut

variable (n : Nat) (nested : List Char → Option QueryOptions)

theorem allCutBelow_decodeExpand (value : String) :
    ExpandItem.allCutBelow n (decodeExpand nested value) =
      decodeExpand (fun inside => ExpandItem.keptOptions n (nested inside)) value := by
  rw [ExpandItem.allCutBelow_eq_map, decodeExpand_eq, decodeExpand_eq, List.map_map]
  refine List.map_congr_left fun ⟨path, inside?⟩ _ => ?_
  rw [Function.comp_apply, ExpandItem.cutBelow_eq]
  cases inside? with
  | none => exact congrArg (ExpandItem.mk path) (ExpandItem.keptOptions_none n)
  | some inside => rfl

/-- What is decoded and then cut is decoded with nested options that are cut. -/
theorem cutBelow_decodeWith (pairs : List (String × String)) :
    (decodeWith nested pairs).cutBelow n =
      decodeWith (fun inside => ExpandItem.keptOptions n (nested inside)) pairs := by
  rw [decodeWith_eq, decodeWith_eq, QueryOptions.cutBelow]
  cases lastValue? "$expand" pairs with
  | none => rfl
  | some value => simp [allCutBelow_decodeExpand]

end Cut

/-- Decoding with nested options down to some levels is decoding all of them and cutting below the
levels. -/
theorem decodeAt_eq_cutBelow (n : Nat) (pairs : List (String × String)) :
    decodeAt n pairs = (decodeWhole pairs).cutBelow n := by
  -- One level of the whole is opened for each level of the bound.
  induction n generalizing pairs with
  | zero =>
    rw [decodeWhole_eq, cutBelow_decodeWith]
    rfl
  | succ n ih =>
    rw [decodeWhole_eq, cutBelow_decodeWith, decodeAt]
    simp only [ih]
    rfl

/-- The bound on nested options is a pure cut.  Without it, nested options would be decoded like all
others, however deep they are.  With it, the options of every item below `deepestExpand` levels are left
out, and nothing else is.  So on every branch nested options go down to that many levels at most. -/
theorem decode_eq_cutBelow (pairs : List (String × String)) :
    (∀ pairs, decodeWhole pairs =
      decodeWith (fun inside => some (decodeWhole (nestedPairs inside))) pairs) ∧
    decode pairs = (decodeWhole pairs).cutBelow deepestExpand ∧
    (decode pairs).levels = min deepestExpand (decodeWhole pairs).levels := by
  have hcut : decode pairs = (decodeWhole pairs).cutBelow deepestExpand :=
    decodeAt_eq_cutBelow deepestExpand pairs
  refine ⟨decodeWhole_eq, hcut, ?_⟩
  rw [hcut, QueryOptions.levels_cutBelow]

end Options

end OData

import OData.Filter.Builtin
import OData.Filter.Operand
import OData.Text.Pieces
import OData.Proofs.Utf8
import OData.Proofs.WholeNumbers

/-!
# Searching and cutting

The first place of a text is where it begins what is left and where no earlier
place has it (`find?_eq_some_iff`).  The functions of filters that search in a
text and the one that cuts it all speak of that place, and `search_coherent`
says what each of them says of the others.

Characters are searched, not bytes.  That makes no difference: the first byte
of a character is never one within a character, so a text is found in the bytes
where it is found in the characters (`find?_eq_some_iff_utf8`).
-/

namespace OData

namespace Text

variable {needle cs ds : List Char} {k : Nat}

/-! ## The first place -/

theorem find?_cons (c : Char) (cs : List Char) :
    find? needle (c :: cs) =
      if needle <+: c :: cs then some 0 else (find? needle cs).map (· + 1) := by
  rw [find?]
  by_cases h : needle <+: c :: cs
  · rw [if_pos h, if_pos (List.isPrefixOf_iff_prefix.2 h)]
  · rw [if_neg h, if_neg (mt List.isPrefixOf_iff_prefix.1 h)]

/-- The first place is the least one at which the text begins what is left. -/
theorem find?_eq_some_iff : find? needle cs = some k ↔
    k ≤ cs.length ∧ needle <+: cs.drop k ∧ ∀ j < k, ¬ needle <+: cs.drop j := by
  induction cs generalizing k with
  | nil =>
    cases needle with
    | nil =>
      show some 0 = some k ↔ _
      refine ⟨?_, fun h => congrArg some (Nat.le_zero.1 h.1).symm⟩
      rintro ⟨⟩
      exact ⟨Nat.le_refl 0, List.prefix_refl [], nofun⟩
    | cons n ns =>
      show none = some k ↔ _
      refine ⟨nofun, fun h => ?_⟩
      rw [List.drop_nil] at h
      cases List.prefix_nil.1 h.2.1
  | cons c cs ih =>
    rw [find?_cons]
    split
    · next hhere =>
      -- The text begins here, and no place is before this one.
      refine ⟨?_, fun ⟨_, _, hfirst⟩ => ?_⟩
      · rintro ⟨⟩
        exact ⟨Nat.zero_le _, hhere, nofun⟩
      · cases k with
        | zero => rfl
        | succ k => exact absurd hhere (hfirst 0 (Nat.zero_lt_succ k))
    · next hhere =>
      cases k with
      | zero =>
        refine ⟨fun h => ?_, fun h => absurd h.2.1 hhere⟩
        obtain ⟨_, _, h⟩ := Option.map_eq_some_iff.1 h
        cases h
      | succ k =>
        have hmap : (find? needle cs).map (· + 1) = some (k + 1) ↔ find? needle cs = some k := by
          cases find? needle cs <;> simp
        rw [hmap, ih, List.length_cons, Nat.add_le_add_iff_right, List.drop_succ_cons]
        refine and_congr_right fun _ => and_congr_right fun _ => ⟨fun h j hj => ?_, ?_⟩
        · cases j with
          | zero => exact hhere
          | succ j => exact h j (Nat.lt_of_succ_lt_succ hj)
        · exact fun h j hj => h (j + 1) (Nat.succ_lt_succ hj)

/-- A text begins another if its first place is the start. -/
theorem find?_eq_some_zero_iff : find? needle cs = some 0 ↔ needle <+: cs := by
  rw [find?_eq_some_iff]
  exact ⟨fun h => h.2.1, fun h => ⟨Nat.zero_le _, h, nofun⟩⟩

/-! ## In bytes -/

theorem length_utf8 (cs : List Char) : (utf8 cs).length = byteLength cs := by
  induction cs with
  | nil => rfl
  | cons c cs ih => rw [utf8_cons, List.length_append, ih, byteLength, String.length_utf8EncodeChar]

theorem utf8_injective : Function.Injective utf8 :=
  Function.LeftInverse.injective ofUtf8_utf8

theorem ofUtf8_utf8_append (cs : List Char) (bs : List UInt8) :
    ofUtf8 (utf8 cs ++ bs) = cs ++ ofUtf8 bs := by
  induction cs with
  | nil => rfl
  | cons c cs ih => rw [utf8_cons, List.append_assoc, ofUtf8_append, ih, List.cons_append]

/-- A text begins another if its bytes begin the bytes of the other. -/
theorem utf8_prefix_iff : utf8 ds <+: utf8 cs ↔ ds <+: cs := by
  constructor
  · rintro ⟨bs, h⟩
    rw [← ofUtf8_utf8 cs, ← h, ofUtf8_utf8_append]
    exact List.prefix_append _ _
  · rintro ⟨es, rfl⟩
    rw [utf8_append]
    exact List.prefix_append _ _

/-- A text that is not empty has the first byte of a character first. -/
theorem exists_firstByte (c : Char) (cs : List Char) :
    ∃ b bs, utf8 (c :: cs) = b :: bs ∧ b.IsUTF8FirstByte := by
  rw [utf8_cons]
  have hfirst := UInt8.isUTF8FirstByte_getElem_zero_utf8EncodeChar (c := c)
  cases h : String.utf8EncodeChar c with
  | nil => exact absurd h String.utf8EncodeChar_ne_nil
  | cons b bs =>
    simp only [h, List.getElem_cons_zero] at hfirst
    exact ⟨b, bs ++ utf8 cs, rfl, hfirst⟩

/-- The first byte of a character stands between two characters. -/
theorem exists_split_of_firstByte {bs bs' : List UInt8} {b : UInt8} (hb : b.IsUTF8FirstByte)
    (h : utf8 cs = bs ++ b :: bs') :
    ∃ ls rs, cs = ls ++ rs ∧ utf8 ls = bs ∧ utf8 rs = b :: bs' := by
  induction cs generalizing bs with
  | nil => exact absurd h.symm (List.append_ne_nil_of_right_ne_nil bs (List.cons_ne_nil b bs'))
  | cons c cs ih =>
    cases bs with
    | nil => exact ⟨[], c :: cs, rfl, rfl, h⟩
    | cons b₀ bs =>
      rw [utf8_cons] at h
      obtain ⟨es, hbs, hes⟩ | ⟨es, hc, hes⟩ := List.append_eq_append_iff.1 h
      · obtain ⟨ls, rs, rfl, hls, hrs⟩ := ih hes
        exact ⟨c :: ls, rs, rfl, by rw [utf8_cons, hls, hbs], hrs⟩
      cases es with
      | nil =>
        have hsingle : utf8 [c] = String.utf8EncodeChar c := List.append_nil _
        exact ⟨[c], cs, rfl, by rw [hsingle, hc, List.append_nil], hes.symm⟩
      | cons e es =>
        -- A byte within a character is not a first one.
        obtain ⟨rfl, -⟩ := List.cons.inj hes
        have hlt : (b₀ :: bs).length < (String.utf8EncodeChar c).length := by
          rw [hc, List.length_append]
          exact Nat.lt_add_of_pos_right (Nat.zero_lt_succ _)
        have hbyte : (String.utf8EncodeChar c)[(b₀ :: bs).length] = b := by
          simp only [hc, List.getElem_append_right (Nat.le_refl _), Nat.sub_self,
            List.getElem_cons_zero]
        rw [← hbyte, UInt8.isUTF8FirstByte_getElem_utf8EncodeChar] at hb
        cases hb

/-- Where the bytes of a text that is not empty begin, there the text begins. -/
theorem exists_split_of_prefix {bs bs' : List UInt8} (hne : needle ≠ [])
    (hcs : utf8 cs = bs ++ bs') (h : utf8 needle <+: bs') :
    ∃ ls rs, cs = ls ++ rs ∧ utf8 ls = bs ∧ needle <+: rs := by
  obtain ⟨c, needle, rfl⟩ := List.exists_cons_of_ne_nil hne
  obtain ⟨es, rfl⟩ := h
  obtain ⟨b, bs₀, hbytes, hb⟩ := exists_firstByte c needle
  rw [hbytes, List.cons_append] at hcs
  obtain ⟨ls, rs, hsplit, hls, hrs⟩ := exists_split_of_firstByte hb hcs
  refine ⟨ls, rs, hsplit, hls, utf8_prefix_iff.1 ?_⟩
  rw [hrs, hbytes, ← List.cons_append]
  exact List.prefix_append _ _

/-- A text ends another if its bytes end the bytes of the other. -/
theorem utf8_suffix_iff : utf8 ds <:+ utf8 cs ↔ ds <:+ cs := by
  constructor
  · rintro ⟨bs, h⟩
    by_cases hne : ds = []
    · rw [hne]
      exact List.nil_suffix
    obtain ⟨ls, rs, rfl, rfl, -⟩ := exists_split_of_prefix hne h.symm (List.prefix_refl _)
    rw [utf8_append, List.append_cancel_left_eq] at h
    rw [utf8_injective h]
    exact List.suffix_append _ _
  · rintro ⟨es, rfl⟩
    rw [utf8_append]
    exact List.suffix_append _ _

/-- The bytes from the place of a character on are those of the characters from there on. -/
theorem drop_utf8 (k : Nat) (cs : List Char) :
    (utf8 cs).drop (byteLength (cs.take k)) = utf8 (cs.drop k) := by
  have hsplit : utf8 cs = utf8 (cs.take k) ++ utf8 (cs.drop k) := by
    rw [← utf8_append, List.take_append_drop]
  rw [hsplit, ← length_utf8, List.drop_left]

/-- An earlier character has an earlier place. -/
theorem byteLength_take_lt {j : Nat} (hj : j < k) (hk : k ≤ cs.length) :
    byteLength (cs.take j) < byteLength (cs.take k) := by
  have hsplit : cs.take k = cs.take j ++ (cs.drop j).take (k - j) := by
    rw [← List.take_add, Nat.add_sub_cancel' (Nat.le_of_lt hj)]
  have hlength := length_le_byteLength ((cs.drop j).take (k - j))
  rw [List.length_take, List.length_drop] at hlength
  rw [hsplit, byteLength_append]
  omega

/-- The first place in characters is the one whose place in bytes is the first. -/
theorem find?_eq_some_iff_utf8 : find? needle cs = some k ↔
    k ≤ cs.length ∧ utf8 needle <+: (utf8 cs).drop (byteLength (cs.take k)) ∧
      ∀ b < byteLength (cs.take k), ¬ utf8 needle <+: (utf8 cs).drop b := by
  rw [find?_eq_some_iff, drop_utf8, utf8_prefix_iff]
  refine and_congr_right fun hk => and_congr_right fun _ => ⟨fun hfirst b hb hfound => ?_,
    fun hfirst j hj hfound => ?_⟩
  · by_cases hne : needle = []
    · have hpos : 0 < k := by
        refine Nat.pos_of_ne_zero fun hzero => ?_
        rw [hzero] at hb
        exact Nat.not_lt_zero b hb
      exact hfirst 0 hpos (hne ▸ List.nil_prefix)
    · obtain ⟨ls, rs, rfl, hls, hrs⟩ :=
        exists_split_of_prefix hne (List.take_append_drop b (utf8 cs)).symm hfound
      have hplace : byteLength ls ≤ b := by
        rw [← length_utf8, hls]
        exact List.length_take_le b _
      refine hfirst ls.length ?_ (by rwa [List.drop_left])
      by_contra hlt
      rw [List.take_append_of_le_length (Nat.le_of_not_lt hlt)] at hb
      have hsplit := byteLength_append (ls.take k) (ls.drop k)
      rw [List.take_append_drop] at hsplit
      omega
  · refine hfirst _ (byteLength_take_lt hj hk) ?_
    rw [drop_utf8]
    exact utf8_prefix_iff.2 hfound

end Text

namespace Filter

/-! ## Integers compared -/

namespace Comparison

/-- What a comparison says of two integers. -/
def ofIntegers (op : Comparison) (i j : Int) : Prop :=
  match op with
  | .eq => i = j
  | .ne => i ≠ j
  | .gt => j < i
  | .ge => j ≤ i
  | .lt => i < j
  | .le => i ≤ j

/-- Integers that are exact are compared as integers. -/
theorem holds_ofInt {i j : Int} (hi : i.natAbs < 2 ^ 53) (hj : j.natAbs < 2 ^ 53)
    (op : Comparison) :
    op.holds (.number (.ofInt i)) (.number (.ofInt j)) = true ↔ op.ofIntegers i j := by
  have horder : naturalOrder? (.number (.ofInt i)) (.number (.ofInt j)) = some (compare i j) :=
    Binary64.compare?_ofInt hi hj
  have hequal : equal (.number (.ofInt i)) (.number (.ofInt j)) = (some (compare i j) == some .eq) :=
    congrArg (· == some Ordering.eq) horder
  cases op with
  | eq => simp only [holds, hequal, beq_iff_eq, Option.some.injEq, Int.compare_eq_eq, ofIntegers]
  | ne =>
    simp only [holds, hequal, Bool.not_eq_true', beq_eq_false_iff_ne, ne_eq, Option.some.injEq,
      Int.compare_eq_eq, ofIntegers]
  | gt => simp only [holds, horder, beq_iff_eq, Option.some.injEq, Int.compare_eq_gt, ofIntegers]
  | lt => simp only [holds, horder, beq_iff_eq, Option.some.injEq, Int.compare_eq_lt, ofIntegers]
  | ge =>
    simp only [holds, horder, Bool.or_eq_true, beq_iff_eq, Option.some.injEq, Int.compare_eq_gt,
      Int.compare_eq_eq, ofIntegers]
    omega
  | le =>
    simp only [holds, horder, Bool.or_eq_true, beq_iff_eq, Option.some.injEq, Int.compare_eq_lt,
      Int.compare_eq_eq, ofIntegers]
    omega

end Comparison

namespace Builtin

variable {s t : Operand} {n : Nat}

/-! ## Counts -/

theorem lt_of_lt_count (h : n < 2 ^ 32) : n < 2 ^ 53 :=
  Nat.lt_trans h (Nat.pow_lt_pow_right Nat.one_lt_two (by decide))

theorem ofCount_eq (h : n < 2 ^ 32) : ofCount n = .number (.ofInt n) := by
  rw [ofCount, Nat.min_eq_left (Nat.le_of_lt_succ h), Binary64.ofInt_natCast]

theorem position_number (x : Binary64) : position (.number x) = toPosition x := rfl

/-- A count comes back as a position. -/
theorem position_ofCount (h : n < 2 ^ 32) : position (ofCount n) = n := by
  have hsize : n ≤ greatestSize := by
    rw [greatestSize]
    omega
  rw [ofCount_eq h, Binary64.ofInt_natCast, position_number]
  exact Binary64.toNatWithin_ofNat (lt_of_lt_count h) hsize

/-- The difference of two counts comes back as a position. -/
theorem position_sub {m : Nat} (hm : m < 2 ^ 32) (h : n ≤ m) :
    position (.number (.ofInt (m - n))) = m - n := by
  have hcount : m - n < 2 ^ 32 := Nat.lt_of_le_of_lt (Nat.sub_le m n) hm
  rw [← Int.ofNat_sub h, ← ofCount_eq hcount, position_ofCount hcount]

/-- Whether an operand is a position in a text: a number that is not below zero. -/
def IsPosition (k : Operand) : Prop := Comparison.ge.holds k (.number (.ofInt 0)) = true

/-- A lesser position than a count. -/
theorem position_lt {k : Operand} (h : n < 2 ^ 32) (hzero : IsPosition k)
    (hlt : Comparison.lt.holds k (ofCount n) = true) : position k < n := by
  rw [ofCount_eq h, Binary64.ofInt_natCast] at hlt
  cases k with
  | absent | null | bool | string | instant | structured => cases hlt
  | number x =>
    rw [Comparison.holds, beq_iff_eq] at hlt
    rw [IsPosition, Comparison.holds, Bool.or_eq_true, beq_iff_eq, beq_iff_eq] at hzero
    have hless := Int.compare_eq_lt.1 (Binary64.compare_place_of_compare? hlt)
    have hstart : (Binary64.ofInt 0).place ≤ x.place := by
      rcases hzero with hgt | heq
      · exact Int.le_of_lt (Int.compare_eq_gt.1 (Binary64.compare_place_of_compare? hgt))
      · exact Int.le_of_eq (Int.compare_eq_eq.1 (Binary64.compare_place_of_compare? heq)).symm
    rw [Binary64.place_ofInt_zero] at hstart
    rw [position_number]
    exact Binary64.toNatWithin_lt (lt_of_lt_count h) greatestSize hstart hless

/-- What is below zero is no position. -/
theorem not_isPosition_of_neg {k : Operand}
    (h : Comparison.lt.holds k (.number (.ofInt 0)) = true) : ¬ IsPosition k := by
  rw [Comparison.holds, beq_iff_eq] at h
  rw [IsPosition, Comparison.holds, h]
  decide

/-- A text is cut from its start where the number is below zero. -/
theorem position_of_neg {k : Operand}
    (h : Comparison.lt.holds k (.number (.ofInt 0)) = true) : position k = 0 := by
  cases k with
  | absent | null | bool | string | instant | structured => cases h
  | number x =>
    rw [Comparison.holds, beq_iff_eq] at h
    have hbelow := Int.compare_eq_lt.1 (Binary64.compare_place_of_compare? h)
    rw [Binary64.place_ofInt_zero] at hbelow
    have hnegative : x.negative = true := by
      by_contra hpositive
      rw [Binary64.place, if_neg hpositive] at hbelow
      omega
    rw [position_number]
    exact Binary64.toNatWithin_of_negative hnegative greatestSize

/-! ## The functions on two texts -/

/-- A place in a text is not behind its end, so it is a count if the length is one. -/
theorem lt_of_find? (hs : s.text.length < 2 ^ 32) (h : Text.find? t.text s.text = some n) :
    n < 2 ^ 32 :=
  Nat.lt_of_le_of_lt (Text.find?_eq_some_iff.1 h).1 hs

/-- The place of the second text in the first, minus one if it is not there. -/
def placeIn (s t : Operand) : Int :=
  match Text.find? t.text s.text with
  | some place => place
  | none => -1

theorem placeIn_of_some (h : Text.find? t.text s.text = some n) : placeIn s t = n := by
  rw [placeIn, h]

theorem placeIn_of_none (h : Text.find? t.text s.text = none) : placeIn s t = -1 := by
  rw [placeIn, h]

theorem indexof_eq (hs : s.text.length < 2 ^ 32) :
    indexof [s, t] = .number (.ofInt (placeIn s t)) := by
  have hfind : indexof [s, t] = match Text.find? t.text s.text with
      | some place => ofCount place
      | none => .number (.ofInt (-1)) := rfl
  rw [hfind]
  cases h : Text.find? t.text s.text with
  | none => rw [placeIn_of_none h]
  | some k =>
    rw [placeIn_of_some h]
    exact ofCount_eq (lt_of_find? hs h)

theorem natAbs_placeIn_lt (hs : s.text.length < 2 ^ 32) : (placeIn s t).natAbs < 2 ^ 53 := by
  cases h : Text.find? t.text s.text with
  | none =>
    rw [placeIn_of_none h]
    exact Nat.one_lt_two_pow (by decide)
  | some k =>
    rw [placeIn_of_some h]
    exact lt_of_lt_count (lt_of_find? hs h)

theorem contains_iff : contains [s, t] = .bool true ↔ placeIn s t ≠ -1 := by
  have htest : contains [s, t] = .bool (Text.occurs t.text s.text) := rfl
  rw [htest, Operand.bool.injEq, ← Text.isSome_find?]
  cases h : Text.find? t.text s.text with
  | none => simp [placeIn_of_none h]
  | some k =>
    rw [placeIn_of_some h]
    refine ⟨fun _ => ?_, fun _ => rfl⟩
    omega

theorem startswith_iff : startswith [s, t] = .bool true ↔ placeIn s t = 0 := by
  have htest : startswith [s, t] = .bool (t.text.isPrefixOf s.text) := rfl
  rw [htest, Operand.bool.injEq, List.isPrefixOf_iff_prefix, ← Text.find?_eq_some_zero_iff]
  cases h : Text.find? t.text s.text with
  | none => simp [placeIn_of_none h]
  | some k =>
    rw [placeIn_of_some h, Option.some.injEq]
    omega

theorem endswith_iff : endswith [s, t] = .bool true ↔ t.text <:+ s.text := by
  have htest : endswith [s, t] = .bool (t.text.isSuffixOf s.text) := rfl
  rw [htest, Operand.bool.injEq, List.isSuffixOf_iff_suffix]

theorem text_ofText (cs : List Char) : (ofText cs).text = cs := String.toList_ofList

theorem text_substring (s k : Operand) : (substring [s, k]).text = s.text.drop (position k) :=
  text_ofText _

theorem text_substring_take (s k l : Operand) :
    (substring [s, k, l]).text = (s.text.drop (position k)).take (position l) :=
  text_ofText _

/-- A part as long as a text is that text if the text begins what is left. -/
theorem text_substring_eq_iff (ht : t.text.length < 2 ^ 32) (k : Operand) :
    (substring [s, k, length [t]]).text = t.text ↔ t.text <+: s.text.drop (position k) := by
  have hlength : length [t] = ofCount t.text.length := rfl
  rw [text_substring_take, hlength, position_ofCount ht, List.prefix_iff_eq_take]
  exact eq_comm

/-! ## What they say of each other -/

theorem natAbs_zero_lt : (0 : Int).natAbs < 2 ^ 53 := Nat.two_pow_pos 53

theorem contains_iff_indexof (hs : s.text.length < 2 ^ 32) : contains [s, t] = .bool true ↔
    Comparison.ne.holds (indexof [s, t]) (.number (.ofInt (-1))) = true := by
  have hone : (-1 : Int).natAbs < 2 ^ 53 := Nat.one_lt_two_pow (by decide)
  rw [contains_iff, indexof_eq hs, Comparison.holds_ofInt (natAbs_placeIn_lt hs) hone]
  rfl

theorem startswith_iff_indexof (hs : s.text.length < 2 ^ 32) : startswith [s, t] = .bool true ↔
    Comparison.eq.holds (indexof [s, t]) (.number (.ofInt 0)) = true := by
  rw [startswith_iff, indexof_eq hs, Comparison.holds_ofInt (natAbs_placeIn_lt hs) natAbs_zero_lt]
  rfl

/-- A position that is found is the first place of the text. -/
theorem exists_place_of_isPosition (hs : s.text.length < 2 ^ 32)
    (h : IsPosition (indexof [s, t])) :
    ∃ n < 2 ^ 32, indexof [s, t] = ofCount n ∧ Text.find? t.text s.text = some n := by
  rw [IsPosition, indexof_eq hs,
    Comparison.holds_ofInt (natAbs_placeIn_lt hs) natAbs_zero_lt] at h
  obtain ⟨n, hn⟩ : ∃ n, Text.find? t.text s.text = some n := by
    refine Option.ne_none_iff_exists'.1 fun hnone => ?_
    rw [placeIn_of_none hnone] at h
    exact absurd (show (0 : Int) ≤ -1 from h) (by decide)
  have hcount := lt_of_find? hs hn
  exact ⟨n, hcount, by rw [indexof_eq hs, placeIn_of_some hn, ofCount_eq hcount], hn⟩

/-- A text is cut at a number below zero as it is at zero. -/
theorem text_substring_of_neg {k : Operand}
    (h : Comparison.lt.holds k (.number (.ofInt 0)) = true) (l : Operand) :
    (substring [s, k, l]).text = (substring [s, .number (.ofInt 0), l]).text := by
  have hstart : position (.number (.ofInt 0)) = 0 := by
    rw [position_number]
    exact Binary64.toNatWithin_ofNat (Nat.two_pow_pos 53) (Nat.zero_le _)
  rw [text_substring_take, text_substring_take, position_of_neg h, hstart]

theorem endswith_iff_substring (hs : s.text.length < 2 ^ 32) (ht : t.text.length < 2 ^ 32) :
    endswith [s, t] = .bool true ↔
      Comparison.le.holds (length [t]) (length [s]) = true ∧
      (substring [s, .number (.ofInt (s.text.length - t.text.length))]).text = t.text := by
  have hlength (u : Operand) : length [u] = ofCount u.text.length := rfl
  have hles : (s.text.length : Int).natAbs < 2 ^ 53 := lt_of_lt_count hs
  have hlet : (t.text.length : Int).natAbs < 2 ^ 53 := lt_of_lt_count ht
  rw [endswith_iff, List.suffix_iff_eq_drop, hlength, hlength, ofCount_eq hs, ofCount_eq ht,
    Comparison.holds_ofInt hlet hles, text_substring]
  constructor
  · intro hend
    have hle : t.text.length ≤ s.text.length := by
      rw [hend, List.length_drop]
      exact Nat.sub_le _ _
    rw [position_sub hs hle]
    exact ⟨Int.ofNat_le.2 hle, hend.symm⟩
  · rintro ⟨hle, hend⟩
    rw [position_sub hs (Int.ofNat_le.1 hle)] at hend
    exact hend.symm

/-- The functions that search in a text and the one that cuts it are coherent.  A text is contained if
it has a place, and is the start if its place is zero.  Cut from its place on, with its length, it comes
out, and from no lesser position.  What is below zero is no position, and a text is cut from its start
there.  A text is the end of another if it is not the longer one and comes out when the other is cut at
the difference of lengths. -/
theorem search_coherent (s t : Operand) (hs : s.text.length < 2 ^ 32)
    (ht : t.text.length < 2 ^ 32) :
    (contains [s, t] = .bool true ↔
      Comparison.ne.holds (indexof [s, t]) (.number (.ofInt (-1))) = true) ∧
    (startswith [s, t] = .bool true ↔
      Comparison.eq.holds (indexof [s, t]) (.number (.ofInt 0)) = true) ∧
    (IsPosition (indexof [s, t]) →
      (substring [s, indexof [s, t], length [t]]).text = t.text ∧
      ∀ k, IsPosition k → Comparison.lt.holds k (indexof [s, t]) = true →
        (substring [s, k, length [t]]).text ≠ t.text) ∧
    (∀ k, Comparison.lt.holds k (.number (.ofInt 0)) = true → ¬ IsPosition k ∧
      (substring [s, k, length [t]]).text =
        (substring [s, .number (.ofInt 0), length [t]]).text) ∧
    (endswith [s, t] = .bool true ↔
      Comparison.le.holds (length [t]) (length [s]) = true ∧
      (substring [s, .number (.ofInt (s.text.length - t.text.length))]).text = t.text) := by
  refine ⟨contains_iff_indexof hs, startswith_iff_indexof hs, fun hfound => ?_,
    fun k hneg => ⟨not_isPosition_of_neg hneg, text_substring_of_neg hneg _⟩,
    endswith_iff_substring hs ht⟩
  obtain ⟨n, hcount, hindex, hplace⟩ := exists_place_of_isPosition hs hfound
  obtain ⟨-, hhere, hfirst⟩ := Text.find?_eq_some_iff.1 hplace
  rw [hindex, text_substring_eq_iff ht, position_ofCount hcount]
  refine ⟨hhere, fun k hk hlt => ?_⟩
  rw [ne_eq, text_substring_eq_iff ht]
  exact hfirst _ (position_lt hcount hk hlt)

/-- The two occurrences overlap, and a letter of them is two bytes long. -/
theorem search_coherent_overlapping :
    let s : Operand := .string "xéaéaé"
    let t : Operand := .string "éaé"
    (s.text.length < 2 ^ 32 ∧ t.text.length < 2 ^ 32) ∧ contains [s, t] = .bool true ∧
      startswith [s, t] ≠ .bool true ∧ endswith [s, t] = .bool true ∧
      (substring [s, indexof [s, t], length [t]]).text = t.text ∧
      (substring [s, .number (.ofInt 0), length [t]]).text ≠ t.text := by
  intro s t
  have hs : s.text.length < 2 ^ 32 := by decide +kernel
  have ht : t.text.length < 2 ^ 32 := by decide +kernel
  have hfind : Text.find? t.text s.text = some 1 := by decide +kernel
  have hindex : indexof [s, t] = .number (.ofInt 1) := by
    rw [indexof_eq hs, placeIn_of_some hfind]
    rfl
  have hone : (1 : Int).natAbs < 2 ^ 53 := Nat.one_lt_two_pow (by decide)
  obtain ⟨hcontains, hstarts, hcut, -, hends⟩ := search_coherent s t hs ht
  rw [hindex] at hcontains hstarts hcut ⊢
  obtain ⟨hhere, hfirst⟩ := hcut ((Comparison.holds_ofInt hone natAbs_zero_lt .ge).2 Int.one_nonneg)
  refine ⟨⟨hs, ht⟩, ?_, ?_, ?_, hhere, ?_⟩
  · have hminus : (-1 : Int).natAbs < 2 ^ 53 := Nat.one_lt_two_pow (by decide)
    have hne : (1 : Int) ≠ -1 := by decide
    exact hcontains.2 ((Comparison.holds_ofInt hone hminus .ne).2 hne)
  · rw [ne_eq, hstarts, Comparison.holds_ofInt hone natAbs_zero_lt]
    exact Int.one_ne_zero
  · exact hends.2 ⟨by decide +kernel, by decide +kernel⟩
  · refine hfirst _ ?_ ?_
    · exact (Comparison.holds_ofInt natAbs_zero_lt natAbs_zero_lt .ge).2 (Int.le_refl 0)
    · exact (Comparison.holds_ofInt natAbs_zero_lt hone .lt).2 Int.zero_lt_one

end Builtin

end Filter

end OData

import Mathlib.Data.Nat.Digits.Defs
import OData.Proofs.OptionValues
import OData.Proofs.PlaceOrder

/-!
# Sizes as they are written

A size is the number that a text starts with, behind white space and one plus,
and the greatest size if the number is greater.  The number is the one that its
digits have by their places (`placeValue`), however many there are.

Digits are read one by one, and no step may leave the sizes (`readSize`).  A run
of digits is then read to its number, or it is too great
(`readSize_of_isDigit`): nothing else goes wrong, at any length and behind any
number of zeros, and so an unread run stands for the greatest size.

What is written for a size is decoded to it whatever follows, if no digit does
(`leadingDigits_toString_append`), as trimming stops at the digits.
-/

namespace OData.Options

/-! ## Numbers by places -/

/-- The number that a run of digits writes: every digit counts by its place, the last one for itself. -/
def placeValue (digits : List Char) : Nat :=
  Nat.ofDigits 10 (digits.reverse.map fun c => c.toNat - '0'.toNat)

theorem digitsValue_eq_placeValue (digits : List Char) :
    Decimal.digitsValue digits = placeValue digits := by
  induction digits with
  | nil => rfl
  | cons c digits ih =>
    have hreverse : (digits.reverse.map fun c => c.toNat - '0'.toNat).length = digits.length := by
      rw [List.length_map, List.length_reverse]
    rw [Decimal.digitsValue_cons, ih, placeValue, placeValue, List.reverse_cons, List.map_append,
      Nat.ofDigits_append, hreverse, List.map_singleton, Nat.ofDigits_singleton]
    exact (Nat.add_comm _ _).trans (congrArg _ (Nat.mul_comm _ _))

/-! ## Reading digit by digit -/

/-- Why a text is not read as a size. -/
inductive SizeFault where
  /-- There is nothing to read. -/
  | empty
  /-- A character is no digit. -/
  | noDigit
  /-- The number is greater than the greatest size. -/
  | tooGreat
deriving Repr, DecidableEq

/-- A size with one more digit behind it.  Neither its tens nor the sum may leave the sizes. -/
def withDigit (n : Nat) (c : Char) : Except SizeFault Nat :=
  if !c.isDigit then .error .noDigit
  else if greatestSize < n * 10 then .error .tooGreat
  else if greatestSize < n * 10 + (c.toNat - '0'.toNat) then .error .tooGreat
  else .ok (n * 10 + (c.toNat - '0'.toNat))

/-- The size that a whole text writes, with a plus or without. -/
def readSize : List Char → Except SizeFault Nat
  | [] => .error .empty
  | '+' :: c :: cs => (c :: cs).foldlM withDigit 0
  | cs => cs.foldlM withDigit 0

theorem withDigit_of_isDigit {n : Nat} {c : Char} (hc : c.isDigit = true) :
    withDigit n c = if n * 10 + (c.toNat - '0'.toNat) ≤ greatestSize then
      .ok (n * 10 + (c.toNat - '0'.toNat)) else .error .tooGreat := by
  rw [withDigit, hc, if_neg (by decide)]
  by_cases htens : greatestSize < n * 10
  · rw [if_pos htens, if_neg (by omega)]
  · rw [if_neg htens]
    split_ifs <;> first | rfl | omega

/-- Reading goes through the digits to the number they write, or a step on the way leaves the sizes. -/
theorem foldlM_withDigit {digits : List Char} (h : ∀ c ∈ digits, c.isDigit = true) (n : Nat)
    (hn : n ≤ greatestSize) :
    digits.foldlM withDigit n =
      if n * 10 ^ digits.length + Decimal.digitsValue digits ≤ greatestSize then
        .ok (n * 10 ^ digits.length + Decimal.digitsValue digits) else .error .tooGreat := by
  induction digits generalizing n with
  | nil =>
    have hvalue : n * 10 ^ ([] : List Char).length + Decimal.digitsValue [] = n := Nat.mul_one n
    rw [hvalue, if_pos hn]
    rfl
  | cons c digits ih =>
    rw [List.forall_mem_cons] at h
    have hvalue : n * 10 ^ (c :: digits).length + Decimal.digitsValue (c :: digits) =
        (n * 10 + (c.toNat - '0'.toNat)) * 10 ^ digits.length + Decimal.digitsValue digits := by
      rw [Decimal.digitsValue_cons, List.length_cons, Nat.pow_succ', Nat.add_mul, Nat.mul_assoc,
        Nat.add_assoc]
      rfl
    rw [List.foldlM_cons, withDigit_of_isDigit h.1, hvalue]
    by_cases hle : n * 10 + (c.toNat - '0'.toNat) ≤ greatestSize
    · rw [if_pos hle]
      exact ih h.2 _ hle
    · -- What is too great already stays so behind every further digit.
      have hpow : n * 10 + (c.toNat - '0'.toNat) ≤
          (n * 10 + (c.toNat - '0'.toNat)) * 10 ^ digits.length :=
        Nat.le_mul_of_pos_right _ (Nat.pow_pos (by decide))
      rw [if_neg hle, if_neg (by omega)]
      rfl

/-- A run of digits is read to its number, and is not read only where the number is too great. -/
theorem readSize_of_isDigit {digits : List Char} (hne : digits ≠ [])
    (h : ∀ c ∈ digits, c.isDigit = true) :
    readSize digits =
      if placeValue digits ≤ greatestSize then .ok (placeValue digits) else .error .tooGreat := by
  have hread : readSize digits = digits.foldlM withDigit 0 := by
    rw [readSize]
    · exact hne
    · rintro c cs rfl
      exact absurd (h '+' List.mem_cons_self) (by decide)
  rw [hread, foldlM_withDigit h 0 (Nat.zero_le _), Nat.zero_mul, Nat.zero_add,
    digitsValue_eq_placeValue]

/-! ## The digits of a text -/

/-- A text without the plus that it may start with. -/
def withoutPlus : List Char → List Char
  | '+' :: cs => cs
  | cs => cs

/-- The digits that a text starts with, behind white space and one plus. -/
def leadingDigits (value : String) : List Char :=
  (withoutPlus (Text.trim value.toList)).takeWhile Char.isDigit

theorem isDigit_of_mem_leadingDigits {value : String} {c : Char} (h : c ∈ leadingDigits value) :
    c.isDigit = true := List.all_eq_true.1 List.all_takeWhile c h

theorem withoutPlus_of_isDigit {cs : List Char} (h : ∀ c ∈ cs, c.isDigit = true) (hne : cs ≠ [])
    (ds : List Char) : withoutPlus (cs ++ ds) = cs ++ ds := by
  rw [withoutPlus]
  rintro rest hplus
  cases cs with
  | nil => exact hne rfl
  | cons c cs =>
    obtain ⟨rfl, -⟩ := List.cons.inj hplus
    exact absurd (h '+' List.mem_cons_self) (by decide)

/-- A text that starts with a minus starts with no digits. -/
theorem leadingDigits_of_minus {value : String} (h : (Text.trim value.toList).head? = some '-') :
    leadingDigits value = [] := by
  obtain ⟨cs, hcs⟩ := List.head?_eq_some_iff.1 h
  rw [leadingDigits, hcs]
  rfl

section Around

variable {before digits suffix : List Char} (hbefore : ∀ c ∈ before, Text.isBlank c = true)
  (hdigits : ∀ c ∈ digits, c.isDigit = true) (hsuffix : Text.StopsRun Char.isDigit suffix)
include hbefore hdigits hsuffix

/-- White space before a run of digits and what follows it, if no digit does, are not read. -/
theorem leadingDigits_around (hne : digits ≠ []) :
    leadingDigits (String.ofList (before ++ (digits ++ suffix))) = digits := by
  have hblank : ∀ c ∈ digits, Text.isBlank c = false :=
    fun c hc => Decimal.isBlank_of_isDigit (hdigits c hc)
  rw [leadingDigits, String.toList_ofList, Text.trim_around hbefore hblank hne,
    withoutPlus_of_isDigit hdigits hne,
    Text.takeWhile_append hdigits (hsuffix.of_isPrefix (Text.isPrefix_trimEnd _))]

/-- A plus before a run of digits is not read. -/
theorem leadingDigits_around_plus :
    leadingDigits (String.ofList (before ++ ('+' :: digits ++ suffix))) = digits := by
  have hblank : ∀ c ∈ '+' :: digits, Text.isBlank c = false :=
    List.forall_mem_cons.2 ⟨by decide, fun c hc => Decimal.isBlank_of_isDigit (hdigits c hc)⟩
  rw [leadingDigits, String.toList_ofList,
    Text.trim_around hbefore hblank (List.cons_ne_nil '+' digits), List.cons_append, withoutPlus,
    Text.takeWhile_append hdigits (hsuffix.of_isPrefix (Text.isPrefix_trimEnd _))]

end Around

/-- What is written for a size is read to its end, whatever follows that does not begin with a digit. -/
theorem leadingDigits_toString_append (n : Nat) {suffix : String}
    (h : Text.StopsRun Char.isDigit suffix.toList) :
    leadingDigits (toString n ++ suffix) = Nat.toDigits 10 n := by
  have hvalue : toString n ++ suffix =
      String.ofList ([] ++ (Nat.toDigits 10 n ++ suffix.toList)) := by
    rw [List.nil_append, ← Decimal.toList_toString, ← String.toList_append, String.ofList_toList]
  rw [hvalue]
  exact leadingDigits_around (List.forall_mem_nil _)
    (fun c hc => Decimal.isDigit_of_mem_toDigits hc) h Nat.toDigits_ne_nil

/-! ## What a text decodes to -/

/-- A text decodes to the number of its leading digits, as far as there are sizes.  Without digits, and
behind a minus, that is zero. -/
theorem decodeSize_eq_min (value : String) :
    decodeSize value = min (placeValue (leadingDigits value)) greatestSize := by
  have hleading (cs : List Char) : decodeSize.leadingSize cs =
      min (placeValue (cs.takeWhile Char.isDigit)) greatestSize := by
    rw [decodeSize.leadingSize, digitsValue_eq_placeValue, Nat.min_comm]
  rw [decodeSize]
  split
  · next _ hminus =>
    rw [leadingDigits_of_minus (hminus ▸ rfl)]
    rfl
  · next _ hplus =>
    rw [hleading, leadingDigits, hplus, withoutPlus]
  · next hplus =>
    rw [hleading, leadingDigits, withoutPlus]
    exact hplus

theorem decodeSize_of_leadingDigits_eq_nil {value : String} (h : leadingDigits value = []) :
    decodeSize value = 0 := by
  rw [decodeSize_eq_min, h]
  rfl

/-- The greatest size stands for a run of digits that is not read. -/
theorem decodeSize_eq_readSize {value : String} (h : leadingDigits value ≠ []) :
    decodeSize value = (readSize (leadingDigits value)).toOption.getD greatestSize := by
  rw [decodeSize_eq_min, readSize_of_isDigit h fun c hc => isDigit_of_mem_leadingDigits hc]
  split_ifs with hle
  · exact Nat.min_eq_left hle
  · exact Nat.min_eq_right (Nat.le_of_not_le hle)

/-- Decoding undoes the writing of a size, whatever follows that does not begin with a digit. -/
theorem decodeSize_toString_append {n : Nat} (hn : n ≤ greatestSize) {suffix : String}
    (h : Text.StopsRun Char.isDigit suffix.toList) : decodeSize (toString n ++ suffix) = n := by
  rw [decodeSize_eq_min, leadingDigits_toString_append n h, ← digitsValue_eq_placeValue,
    Decimal.digitsValue_toDigits]
  exact Nat.min_eq_left hn

theorem decodeSize_mono {value value' : String}
    (h : placeValue (leadingDigits value) ≤ placeValue (leadingDigits value')) :
    decodeSize value ≤ decodeSize value' := by
  rw [decodeSize_eq_min, decodeSize_eq_min]
  exact min_le_min_right _ h

/-- On every level, the sizes are decoded from the last value of their keys. -/
theorem sizes_decodeAt (levels : Nat) (pairs : List (String × String)) :
    (decodeAt levels pairs).top = (lastValue? "$top" pairs).map decodeSize ∧
      (decodeAt levels pairs).skip = (lastValue? "$skip" pairs).map decodeSize := by
  cases levels <;> rw [decodeAt, decodeWith_eq] <;> exact ⟨rfl, rfl⟩

/-- A text decodes to the number of its leading digits, or to the greatest size if that is less: just where
reading the digits leaves the sizes.  White space and one plus before the digits and what follows them
do not count.  Behind a minus and without digits it is zero. -/
theorem decodeSize_exact :
    (∀ value, (Text.trim value.toList).head? = some '-' ∨ leadingDigits value = [] →
      decodeSize value = 0) ∧
    (∀ value, leadingDigits value ≠ [] →
      decodeSize value = min (placeValue (leadingDigits value)) greatestSize ∧
      decodeSize value = (readSize (leadingDigits value)).toOption.getD greatestSize ∧
      readSize (leadingDigits value) = if placeValue (leadingDigits value) ≤ greatestSize then
        .ok (placeValue (leadingDigits value)) else .error .tooGreat) ∧
    (∀ before digits suffix, (∀ c ∈ before, Text.isBlank c = true) → digits ≠ [] →
      (∀ c ∈ digits, c.isDigit = true) → Text.StopsRun Char.isDigit suffix →
      leadingDigits (String.ofList (before ++ (digits ++ suffix))) = digits ∧
      leadingDigits (String.ofList (before ++ ('+' :: digits ++ suffix))) = digits) ∧
    (∀ n ≤ greatestSize, ∀ suffix : String, Text.StopsRun Char.isDigit suffix.toList →
      decodeSize (toString n ++ suffix) = n) ∧
    (∀ value value', placeValue (leadingDigits value) ≤ placeValue (leadingDigits value') →
      decodeSize value ≤ decodeSize value') ∧
    ∀ levels pairs, (decodeAt levels pairs).top = (lastValue? "$top" pairs).map decodeSize ∧
      (decodeAt levels pairs).skip = (lastValue? "$skip" pairs).map decodeSize := by
  refine ⟨?_, ?_, ?_, fun n hn suffix => decodeSize_toString_append hn,
    fun value value' => decodeSize_mono, sizes_decodeAt⟩
  · rintro value (hminus | hnil)
    · exact decodeSize_of_leadingDigits_eq_nil (leadingDigits_of_minus hminus)
    · exact decodeSize_of_leadingDigits_eq_nil hnil
  · intro value hne
    exact ⟨decodeSize_eq_min value, decodeSize_eq_readSize hne,
      readSize_of_isDigit hne fun c hc => isDigit_of_mem_leadingDigits hc⟩
  · intro before digits suffix hbefore hne hdigits hsuffix
    exact ⟨leadingDigits_around hbefore hdigits hsuffix hne,
      leadingDigits_around_plus hbefore hdigits hsuffix⟩

/-- Zeros before a number beyond the sizes, behind an em space and a plus, and before a digit that is not
ASCII.  The greatest size is read to its end. -/
theorem decodeSize_exact_beyond :
    let digits := "00018446744073709551616".toList
    let value := String.ofList (['\u2003'] ++ ('+' :: digits ++ ['٣', '\u00a0']))
    leadingDigits value = digits ∧ readSize digits = .error .tooGreat ∧
      decodeSize value = greatestSize ∧ decodeSize (toString greatestSize ++ "٣ 5") = greatestSize ∧
      decodeSize "\t+-7" = 0 := by
  intro digits value
  obtain ⟨hzero, hnumber, haround, hwritten, -⟩ := decodeSize_exact
  have hdigits : leadingDigits value = digits :=
    (haround ['\u2003'] digits ['٣', '\u00a0'] (List.forall_mem_singleton.2 rfl) (by decide)
      (List.all_eq_true.1 (by decide)) (Text.stopsRun_cons.2 rfl)).2
  have hne : leadingDigits value ≠ [] := by
    rw [hdigits]
    decide
  obtain ⟨-, hvalue, hread⟩ := hnumber value hne
  rw [hdigits] at hread
  have hgreat : readSize digits = .error .tooGreat := by rw [hread, if_neg (by decide)]
  refine ⟨hdigits, hgreat, ?_, ?_, hzero _ (.inr (by decide))⟩
  · rw [hvalue, hdigits, hgreat]
    rfl
  · exact hwritten greatestSize (Nat.le_refl _) "٣ 5" (Text.stopsRun_cons.2 rfl)

end OData.Options

import Mathlib.Algebra.Order.BigOperators.Group.List
import Mathlib.Algebra.BigOperators.Ring.Finset
import Mathlib.Algebra.Order.Ring.Nat
import Mathlib.Algebra.Ring.Rat
import Mathlib.Tactic.NormNum
import OData.Proofs.Searching

/-!
# Texts cut and joined

A text that is cut in two joins to the same text, because both parts are cut at
one position (`position`), whatever operand gives it.  The text of operands in a
row has as many characters as all of them together.

The length of a text is a number, which is exact for every count of 32 bits
(`exactValue?_length`).  So the length of operands in a row is the exact sum of
their lengths.
-/

namespace OData

/-! ## Exact values -/

/-- The exact value of a finite number. -/
def Binary64.exactValue (x : Binary64) : ℚ :=
  (if x.negative then -1 else 1) * (x.units / unitsInOne)

/-- A natural number of at most fifty-three bits has itself for its value. -/
theorem Binary64.exactValue_ofNat {n : Nat} (h : n < 2 ^ 53) : (ofNat n).exactValue = n := by
  have hpos : (unitsInOne : ℚ) ≠ 0 := Nat.cast_ne_zero.2 (Nat.ne_of_gt Decimal.unitsInOne_pos)
  have hsign : (ofNat n).negative = false := rfl
  rw [exactValue, hsign, (units_ofNat h).1, Nat.cast_mul, mul_div_cancel_right₀ _ hpos]
  simp only [Bool.false_eq_true, if_false, one_mul]

namespace Filter

/-- The exact value of an operand, if it is a finite number. -/
def Operand.exactValue? : Operand → Option ℚ
  | .number x => if x.isFinite then some x.exactValue else none
  | _ => none

namespace Builtin

/-! ## The text of the parts -/

theorem text_concat (args : List Operand) : (concat args).text = args.flatMap Operand.text :=
  text_ofText _

theorem text_substring_length (s k n : Operand) :
    (substring [s, k, n]).text = (s.text.drop (position k)).take (position n) := text_ofText _

theorem position_zero : position (.number .zero) = 0 := by decide

/-! ## The length of the whole -/

/-- A count of 32 bits is exact. -/
theorem exactValue?_ofCount {n : Nat} (h : n < 2 ^ 32) : (ofCount n).exactValue? = some (n : ℚ) := by
  have hfinite := (Binary64.units_ofNat (lt_of_lt_count h)).2
  rw [ofCount_eq h, Binary64.ofInt_natCast, Operand.exactValue?, hfinite, if_pos rfl,
    Binary64.exactValue_ofNat (lt_of_lt_count h)]

/-- The length of a text of that many characters is exact. -/
theorem exactValue?_length {s : Operand} (h : s.text.length < 2 ^ 32) :
    (length [s]).exactValue? = some (s.text.length : ℚ) := exactValue?_ofCount h

theorem length_text_concat (args : List Operand) :
    (concat args).text.length = (args.map fun s => s.text.length).sum := by
  rw [text_concat, List.length_flatMap]

/-- Cutting and joining lose nothing.  The parts of a text before and from any position, in a row, are
the text, whatever operand gives the position.  The length of operands in a row is the exact sum of
their lengths. -/
theorem concat_exact :
    (∀ s n : Operand,
      (concat [substring [s, .number .zero, n], substring [s, n]]).text = s.text) ∧
    ∀ args : List Operand, (args.map fun s => s.text.length).sum < 2 ^ 32 →
      ∃ lengths : List ℚ, (args.map fun s => (length [s]).exactValue?) = lengths.map some ∧
        (length [concat args]).exactValue? = some lengths.sum := by
  refine ⟨fun s n => ?_, fun args htotal => ?_⟩
  · rw [text_concat, List.flatMap_cons, List.flatMap_cons, List.flatMap_nil, List.append_nil,
      text_substring_length, text_substring, position_zero, List.drop_zero, List.take_append_drop]
  · refine ⟨args.map fun s => (s.text.length : ℚ), ?_, ?_⟩
    · rw [List.map_map]
      refine List.map_congr_left fun s hs => exactValue?_length ?_
      have hmem : s.text.length ∈ args.map fun s => s.text.length := List.mem_map.2 ⟨s, hs, rfl⟩
      exact Nat.lt_of_le_of_lt (List.le_sum_of_mem hmem) htotal
    · rw [exactValue?_length (length_text_concat args ▸ htotal), length_text_concat,
        Nat.cast_list_sum, List.map_map]
      rfl

/-- A position that is not a number, and operands of three kinds in a row. -/
theorem concat_exact_mixed :
    let args : List Operand := [.string "né", .null, .bool true]
    (args.map fun s => s.text.length).sum < 2 ^ 32 ∧
      (concat [substring [.string "né", .number .zero, .number (.nan false)],
        substring [.string "né", .number (.nan false)]]).text = (Operand.string "né").text ∧
      (length [concat args]).exactValue? = some 6 := by
  intro args
  have htotal : (args.map fun s => s.text.length).sum < 2 ^ 32 := by decide
  obtain ⟨hcut, hsum⟩ := concat_exact
  obtain ⟨lengths, hlengths, hwhole⟩ := hsum args htotal
  have hvalues : (args.map fun s => (length [s]).exactValue?) = [2, 0, 4].map some := by
    simp only [args, List.map_cons, List.map_nil]
    rw [exactValue?_length (by decide), exactValue?_length (by decide),
      exactValue?_length (by decide)]
    rfl
  have heq : lengths = [2, 0, 4] :=
    List.map_injective_iff.2 (Option.some_injective ℚ) (hlengths.symm.trans hvalues)
  refine ⟨htotal, hcut _ _, ?_⟩
  rw [hwhole, heq]
  norm_num

end Builtin

end Filter

end OData

import OData.Filter.Evaluation
import OData.Proofs.Ordering

/-!
# Orders and comparisons

Records are put in order by one comparison of values, and filters compare
operands by another.  They agree wherever a filter finds one operand less or
greater (`compareValues_of_naturalOrder?`).  Filters put the two zeros in one
place and do not order null, missing values or values of two kinds, so there
the order of records only says more.

So a filter never finds records in the wrong order (`not_holds_order`).
-/

namespace OData

/-! ## Numbers -/

namespace Binary64

variable {x y : Binary64}

/-- The total order keeps the order of values. -/
theorem totalPlace_lt_of_place_lt (h : x.place < y.place) : x.totalPlace < y.totalPlace := by
  unfold place at h
  unfold totalPlace
  cases hx : x.negative <;> cases hy : y.negative <;>
    simp only [hx, hy, if_true, Bool.false_eq_true, if_false] at h ⊢ <;> omega

/-- Numbers with an order of values have the same total order, unless they are equal. -/
theorem totalCompare_of_compare? {o : Ordering} (ho : o ≠ .eq) (h : x.compare? y = some o) :
    x.totalCompare y = o := by
  rw [compare?] at h
  split at h
  · cases h
  rw [Option.some.injEq] at h
  rw [totalCompare]
  cases o with
  | lt => exact Int.compare_eq_lt.2 (totalPlace_lt_of_place_lt (Int.compare_eq_lt.1 h))
  | eq => exact absurd rfl ho
  | gt => exact Int.compare_eq_gt.2 (totalPlace_lt_of_place_lt (Int.compare_eq_gt.1 h))

end Binary64

/-- The comparison that holds of no record and a later one in a direction. -/
def Direction.ruledOut : Direction → Filter.Comparison
  | .ascending => .gt
  | .descending => .lt

namespace Collection

open OData.Filter (Expr FunctionTable Operand naturalOrder?)

/-! ## Values -/

/-- Values that a filter finds less or greater are in that order. -/
theorem compareValues_of_naturalOrder? {v w : Json} {o : Ordering} (ho : o ≠ .eq)
    (h : naturalOrder? (.ofJson v) (.ofJson w) = some o) : compareValues v w = o := by
  cases v <;> cases w
  case bool.bool => exact Option.some.inj h
  case number.number => exact Binary64.totalCompare_of_compare? ho h
  case string.string => exact Option.some.inj h
  -- Null and values of two kinds have no order in a filter, nor have arrays and objects.
  all_goals cases h

/-! ## Records -/

section Records

variable {functions : FunctionTable}

/-- Records that a filter finds less or greater along a path are in that order along it. -/
theorem compareOptions_of_naturalOrder? {key : SortKey} {a b : Json} {o : Ordering} (ho : o ≠ .eq)
    (h : naturalOrder? ((Expr.property key.path).eval functions a)
      ((Expr.property key.path).eval functions b) = some o) :
    compareOptions (key.value? a) (key.value? b) = o := by
  rw [Expr.eval, Expr.eval] at h
  rw [SortKey.value?, SortKey.value?]
  cases ha : key.path.resolve a with
  | none =>
    rw [ha] at h
    cases h
  | some v =>
    cases hb : key.path.resolve b with
    | none =>
      rw [ha, hb] at h
      cases v <;> cases h
    | some w =>
      rw [ha, hb] at h
      have hcompare := compareValues_of_naturalOrder? ho h
      cases v with
      | null => cases w <;> cases h
      | _ =>
        cases w with
        | null => cases h
        | _ => exact hcompare

/-- A filter does not find two records in order the wrong way around. -/
theorem not_holds_ruledOut {key : SortKey} {a b : Json} (h : (key.compare a b).isLE = true) :
    key.direction.ruledOut.holds ((Expr.property key.path).eval functions a)
      ((Expr.property key.path).eval functions b) = false := by
  rw [SortKey.compare] at h
  cases hdirection : key.direction with
  | ascending =>
    rw [Direction.ruledOut, Filter.Comparison.holds, beq_eq_false_iff_ne]
    intro hgreater
    rw [hdirection, compareOptions_of_naturalOrder? (by decide) hgreater] at h
    cases h
  | descending =>
    rw [Direction.ruledOut, Filter.Comparison.holds, beq_eq_false_iff_ne]
    intro hless
    rw [hdirection, compareOptions_of_naturalOrder? (by decide) hless] at h
    cases h

end Records

/-- An order never contradicts a filter.  Of a record and a later one, a filter does not find the first
greater along the first key if that key is ascending, nor less if it is descending. -/
theorem not_holds_order (functions : FunctionTable) (key : OrderKey) (keys : List OrderKey)
    (records : List Json) :
    let operand := (Expr.property (.ofText key.field)).eval functions
    (order (key :: keys) records).Pairwise fun a b =>
      key.direction.ruledOut.holds (operand a) (operand b) = false := by
  intro operand
  exact (ordered_order (key :: keys) records).first.imp not_holds_ruledOut

end Collection

end OData

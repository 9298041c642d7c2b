import Mathlib.Order.Monotone.Basic
import OData.Number.Rounding
import OData.Proofs.Rounding

/-!
# Whole numbers

The exact value grows with the magnitude (`strictMono_unitsOf`), and every natural
number below the fifty-third power of two is the exact value of a magnitude.  So
such a number stands for itself (`units_ofNat`), and integers of that size keep
their order (`compare?_ofInt`).  A natural number comes back when it is made whole
(`toNatWithin_ofNat`), and a number that is less has a lesser whole part
(`toNatWithin_lt`).
-/

namespace OData.Binary64

/-! ## The exact value grows -/

/-- The bits of a magnitude, leading one included, and the number of doublings before them. -/
theorem scale_add (s : Nat) {bits : Nat} (hlow : perDoubling ≤ bits)
    (hhigh : bits < 2 * perDoubling) : scale (s * perDoubling + bits) = s := by
  have hrest : bits / perDoubling = 1 := by
    rw [Nat.div_eq_iff (by decide)]
    omega
  rw [scale, Nat.add_comm, Nat.add_mul_div_right _ _ (by decide), hrest, Nat.add_sub_cancel_left]

theorem exists_scale_add {m : Nat} (h : perDoubling ≤ m) :
    ∃ bits, perDoubling ≤ bits ∧ bits < 2 * perDoubling ∧ scale m * perDoubling + bits = m := by
  have hdoublings : 1 ≤ m / perDoubling := by
    rwa [Nat.le_div_iff_mul_le (by decide), Nat.one_mul]
  have hrest := Nat.mod_lt m (show 0 < perDoubling by decide)
  have hm := Nat.div_add_mod' m perDoubling
  have hscale : m / perDoubling = scale m + 1 := (Nat.sub_add_cancel hdoublings).symm
  rw [hscale, Nat.add_mul, Nat.one_mul, Nat.add_assoc] at hm
  exact ⟨_, Nat.le_add_right _ _, by omega, hm⟩

/-- The bits count from their doublings.  This holds of twice the least bits too, with which the next
doubling begins. -/
theorem unitsOf_add (s : Nat) {bits : Nat} (hlow : perDoubling ≤ bits)
    (hhigh : bits ≤ 2 * perDoubling) : unitsOf (s * perDoubling + bits) = bits * 2 ^ s := by
  rcases Nat.lt_or_eq_of_le hhigh with hlt | rfl
  · rw [unitsOf, scale_add s hlow hlt, Nat.add_sub_cancel_left, Nat.shiftLeft_eq]
  · have hnext : s * perDoubling + 2 * perDoubling = (s + 1) * perDoubling + perDoubling := by
      rw [Nat.add_mul]
      omega
    have htwice : perDoubling < 2 * perDoubling := by decide
    rw [hnext, unitsOf, scale_add (s + 1) (Nat.le_refl _) htwice, Nat.add_sub_cancel_left,
      Nat.shiftLeft_eq, Nat.pow_succ', ← Nat.mul_assoc, Nat.mul_comm perDoubling 2]

/-- The next magnitude is one last place further. -/
theorem unitsOf_succ (m : Nat) : unitsOf (m + 1) = unitsOf m + 2 ^ scale m := by
  rcases Nat.lt_or_ge m perDoubling with h | h
  · have hscale : scale m = 0 := by rw [scale, Nat.div_eq_of_lt h]
    rw [unitsOf_of_lt (by omega), unitsOf_of_lt (by omega), hscale, Nat.pow_zero]
  · obtain ⟨bits, hlow, hhigh, hm⟩ := exists_scale_add h
    have hunits := unitsOf_add (scale m) hlow (Nat.le_of_lt hhigh)
    rw [hm] at hunits
    calc unitsOf (m + 1)
        = unitsOf (scale m * perDoubling + (bits + 1)) := by rw [← Nat.add_assoc, hm]
      _ = (bits + 1) * 2 ^ scale m := unitsOf_add _ (Nat.le_succ_of_le hlow) hhigh
      _ = unitsOf m + 2 ^ scale m := by rw [hunits, Nat.succ_mul]

theorem strictMono_unitsOf : StrictMono unitsOf := by
  refine strictMono_nat_of_lt_succ fun m => ?_
  rw [unitsOf_succ]
  exact Nat.lt_add_of_pos_right (Nat.two_pow_pos _)

/-! ## Exact natural numbers -/

/-- Below the fifty-third power of two there is a magnitude for every natural number. -/
theorem exists_unitsOf_eq {n : Nat} (h : n < 2 ^ 53) :
    ∃ m < infinity, unitsOf m = n * unitsInOne := by
  rcases Nat.eq_zero_or_pos n with rfl | hn
  · exact ⟨0, by decide, by rw [Nat.zero_mul]; rfl⟩
  have hne : n ≠ 0 := Nat.ne_of_gt hn
  have hlog : n.log2 ≤ 52 := Nat.le_of_lt_succ ((Nat.log2_lt hne).2 h)
  have hdoubling : perDoubling = 2 ^ n.log2 * 2 ^ (52 - n.log2) := by
    rw [← Nat.pow_add, Nat.add_sub_cancel' hlog]
    rfl
  -- The leading one of the number is moved to the place that counts a doubling.
  have hlow : perDoubling ≤ n * 2 ^ (52 - n.log2) := by
    rw [hdoubling]
    exact Nat.mul_le_mul_right _ (Nat.log2_self_le hne)
  have hhigh : n * 2 ^ (52 - n.log2) < 2 * perDoubling := by
    rw [hdoubling, ← Nat.mul_assoc, ← Nat.pow_succ']
    exact Nat.mul_lt_mul_of_pos_right Nat.lt_log2_self (Nat.two_pow_pos _)
  refine ⟨(1022 + n.log2) * perDoubling + n * 2 ^ (52 - n.log2), ?_, ?_⟩
  · have hscale : (1022 + n.log2) * perDoubling ≤ 1074 * perDoubling :=
      Nat.mul_le_mul_right _ (Nat.add_le_add_left hlog 1022)
    have hinfinity : infinity = 2047 * perDoubling := rfl
    omega
  · rw [unitsOf_add _ hlow (Nat.le_of_lt hhigh), unitsInOne, Nat.one_shiftLeft, Nat.mul_assoc,
      ← Nat.pow_add]
    congr 2
    omega

section Exact

variable {n : Nat} (h : n < 2 ^ 53)
include h

/-- A natural number of at most fifty-three bits is not rounded. -/
theorem units_ofNat : (ofNat n).units = n * unitsInOne ∧ (ofNat n).isFinite = true := by
  obtain ⟨m, hm, hunits⟩ := exists_unitsOf_eq h
  have hmagnitude : (ofNat n).magnitude = m := by
    show nearestMagnitude (n * unitsInOne) 1 = m
    rw [← hunits, nearestMagnitude_unitsOf hm]
  rw [units, isFinite, hmagnitude, hunits, decide_eq_true hm]
  exact ⟨rfl, rfl⟩

theorem wholePart_ofNat : (ofNat n).wholePart = n := by
  rw [wholePart, (units_ofNat h).1, Nat.mul_div_cancel _ Decimal.unitsInOne_pos]

end Exact

theorem isNaN_of_isFinite {x : Binary64} (h : x.isFinite = true) : x.isNaN = false := by
  rw [isFinite, decide_eq_true_eq] at h
  exact decide_eq_false (Nat.lt_asymm h)

/-! ## Exact integers -/

theorem compare_place_of_compare? {x y : Binary64} {o : Ordering} (h : x.compare? y = some o) :
    compare x.place y.place = o := by
  rw [compare?] at h
  split at h
  · cases h
  · exact Option.some.inj h

/-- Natural numbers that are exact have magnitudes in their order. -/
theorem magnitude_ofNat_lt_iff {m n : Nat} (hm : m < 2 ^ 53) (hn : n < 2 ^ 53) :
    (ofNat m).magnitude < (ofNat n).magnitude ↔ m < n := by
  rw [← strictMono_unitsOf.lt_iff_lt]
  show (ofNat m).units < (ofNat n).units ↔ m < n
  rw [(units_ofNat hm).1, (units_ofNat hn).1]
  exact Nat.mul_lt_mul_right Decimal.unitsInOne_pos

theorem ofInt_natCast (n : Nat) : ofInt n = ofNat n := by
  rw [ofInt, Int.natAbs_natCast, decide_eq_false (Int.not_lt.2 (Int.natCast_nonneg n))]
  rfl

theorem magnitude_ofInt (i : Int) : (ofInt i).magnitude = (ofNat i.natAbs).magnitude := rfl

theorem place_ofInt (i : Int) : (ofInt i).place =
    if i < 0 then -((ofNat i.natAbs).magnitude : Int) else (ofNat i.natAbs).magnitude := by
  have hnegative : (ofInt i).negative = decide (i < 0) := rfl
  rw [place, magnitude_ofInt, hnegative]
  simp only [decide_eq_true_eq]

theorem place_ofInt_zero : (ofInt 0).place = 0 := by
  have hmagnitude : (ofNat 0).magnitude = 0 := by
    show nearestMagnitude (0 * unitsInOne) 1 = 0
    rw [Nat.zero_mul, nearestMagnitude_zero]
  rw [place_ofInt, if_neg (Int.lt_irrefl 0), Int.natAbs_zero, hmagnitude]
  rfl

section

variable {i j : Int} (hi : i.natAbs < 2 ^ 53) (hj : j.natAbs < 2 ^ 53)
include hi hj

theorem place_ofInt_lt_iff : (ofInt i).place < (ofInt j).place ↔ i < j := by
  have hij := magnitude_ofNat_lt_iff hi hj
  have hji := magnitude_ofNat_lt_iff hj hi
  -- A number below zero has a magnitude above that of zero.
  have hzero := magnitude_ofNat_lt_iff (Nat.two_pow_pos 53) hi
  rw [place_ofInt, place_ofInt]
  split <;> split <;> omega

/-- Integers that are exact are in their order. -/
theorem compare?_ofInt : (ofInt i).compare? (ofInt j) = some (compare i j) := by
  have hnan {i : Int} (h : i.natAbs < 2 ^ 53) : (ofInt i).isNaN = false := by
    rw [isNaN, magnitude_ofInt]
    exact isNaN_of_isFinite (units_ofNat h).2
  rw [compare?, hnan hi, hnan hj]
  refine congrArg some ?_
  rcases Int.lt_trichotomy i j with h | rfl | h
  · rw [Int.compare_eq_lt.2 h, Int.compare_eq_lt.2 ((place_ofInt_lt_iff hi hj).2 h)]
  · rw [Int.compare_eq_eq.2 rfl, Int.compare_eq_eq.2 rfl]
  · rw [Int.compare_eq_gt.2 h, Int.compare_eq_gt.2 ((place_ofInt_lt_iff hj hi).2 h)]

end

/-! ## Back to natural numbers -/

/-- A finite number that is not below zero is cut to its whole part. -/
theorem toNatWithin_of_isFinite {x : Binary64} (h : x.isFinite = true) (greatest : Nat) :
    x.toNatWithin greatest = if x.negative then 0 else min greatest x.wholePart := by
  rw [toNatWithin, toIntWithin, isNaN_of_isFinite h, h]
  simp only [Bool.false_eq_true, if_false, Bool.not_true]
  generalize x.wholePart = whole
  split <;> omega

/-- A natural number that is exact comes back. -/
theorem toNatWithin_ofNat {n greatest : Nat} (h : n < 2 ^ 53) (hn : n ≤ greatest) :
    (ofNat n).toNatWithin greatest = n := by
  rw [toNatWithin_of_isFinite (units_ofNat h).2, wholePart_ofNat h]
  exact Nat.min_eq_right hn

/-- A number below zero is cut to nothing. -/
theorem toNatWithin_of_negative {x : Binary64} (h : x.negative = true) (greatest : Nat) :
    x.toNatWithin greatest = 0 := by
  rw [toNatWithin, toIntWithin, h]
  split
  · rfl
  · split
    · rfl
    · simp only [if_true]
      omega

/-- A number below a natural number, and not below zero, is cut to a lesser one. -/
theorem toNatWithin_lt {x : Binary64} {n : Nat} (h : n < 2 ^ 53) (greatest : Nat)
    (hzero : 0 ≤ x.place) (hlt : x.place < (ofNat n).place) : x.toNatWithin greatest < n := by
  obtain ⟨hunits, hfinite⟩ := units_ofNat h
  have hmagnitude : x.magnitude < (ofNat n).magnitude := by
    have hplace : (ofNat n).place = (ofNat n).magnitude := rfl
    rw [place] at hzero hlt
    split at hzero
    · next hnegative =>
      rw [if_pos hnegative] at hlt
      omega
    · next hnegative =>
      rw [if_neg hnegative] at hlt
      omega
  have hxfinite : x.isFinite = true := by
    rw [isFinite, decide_eq_true_eq] at hfinite ⊢
    exact Nat.lt_trans hmagnitude hfinite
  have hwhole : x.wholePart < n := by
    rw [wholePart, Nat.div_lt_iff_lt_mul Decimal.unitsInOne_pos, ← hunits]
    exact strictMono_unitsOf hmagnitude
  rw [toNatWithin_of_isFinite hxfinite]
  split
  · exact Nat.zero_lt_of_lt hwhole
  · exact Nat.lt_of_le_of_lt (Nat.min_le_right _ _) hwhole

end OData.Binary64

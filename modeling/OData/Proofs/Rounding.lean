import Mathlib.Algebra.Group.Nat.Defs
import OData.Number.Decimal

/-!
# Rounding depends on the value

The nearest magnitude of a fraction depends on the value of the fraction only
(`nearestMagnitude_mul`), and the nearest magnitude of the exact value of a
finite number is its own (`nearestMagnitude_unitsOf`).

So a decimal stands for the number nearest to its value, however the value is
spread over digits and exponent (`nearest_mul_pow`).  The two shortcuts for
exponents far outside the range agree with the exact arithmetic.
-/

namespace OData.Binary64

/-- A number is its sign and its magnitude. -/
protected theorem ext {x y : Binary64} (hsign : x.negative = y.negative)
    (hmagnitude : x.magnitude = y.magnitude) : x = y := by
  cases x
  cases y
  cases hsign
  cases hmagnitude
  rfl

/-! ## Fractions -/

theorem roundHalfEven_mul (n d : Nat) {k : Nat} (hk : 0 < k) :
    roundHalfEven (n * k) (d * k) = roundHalfEven n d := by
  have hquotient : n * k / (d * k) = n / d := Nat.mul_div_mul_right n d hk
  have hrest : n * k % (d * k) = n % d * k := Nat.mul_mod_mul_right k n d
  have hbelow : 2 * (n % d * k) < d * k ↔ 2 * (n % d) < d := by
    rw [← Nat.mul_assoc]
    exact Nat.mul_lt_mul_right hk
  have habove : d * k < 2 * (n % d * k) ↔ d < 2 * (n % d) := by
    rw [← Nat.mul_assoc]
    exact Nat.mul_lt_mul_right hk
  simp only [roundHalfEven, hquotient, hrest, hbelow, habove]

/-- The nearest magnitude depends on the value of a fraction only. -/
theorem nearestMagnitude_mul (n d : Nat) {k : Nat} (hk : 0 < k) :
    nearestMagnitude (n * k) (d * k) = nearestMagnitude n d := by
  have hshift (s : Nat) : (d * k) <<< s = (d <<< s) * k := by
    rw [Nat.shiftLeft_eq, Nat.shiftLeft_eq, Nat.mul_right_comm]
  simp only [nearestMagnitude, Nat.mul_div_mul_right n d hk, hshift, roundHalfEven_mul _ _ hk]

theorem nearestMagnitude_zero (d : Nat) : nearestMagnitude 0 d = 0 := by
  have hround (d : Nat) : roundHalfEven 0 d = 0 := by
    rw [roundHalfEven, Nat.zero_div, Nat.zero_mod]
    split
    · rfl
    · split
      · omega
      · rfl
  simp [nearestMagnitude, hround]

/-- A whole number of steps needs no rounding. -/
theorem roundHalfEven_exact (q : Nat) {d : Nat} (hd : 0 < d) : roundHalfEven (q * d) d = q := by
  rw [roundHalfEven, Nat.mul_mod_left, Nat.mul_div_left q hd, if_pos hd]

/-! ## The exact value of a magnitude -/

/-- Below the second power of two above the least place there is nothing to double. -/
theorem unitsOf_of_lt {m : Nat} (h : m < 2 * perDoubling) : unitsOf m = m := by
  have hscale : scale m = 0 := by
    have : m / perDoubling < 2 := Nat.div_lt_of_lt_mul (by rw [Nat.mul_comm]; exact h)
    rw [scale]
    omega
  rw [unitsOf, hscale]
  simp

/-- Above it the bits below the leading one count from the power of two. -/
theorem unitsOf_of_le {m : Nat} (h : 2 * perDoubling ≤ m) :
    unitsOf m = (perDoubling + m % perDoubling) <<< scale m ∧
      scale m * perDoubling + (perDoubling + m % perDoubling) = m := by
  have hquotient : 2 ≤ m / perDoubling := (Nat.le_div_iff_mul_le (by decide)).2 h
  have hm := Nat.div_add_mod m perDoubling
  have hscale : scale m + 1 = m / perDoubling := by
    rw [scale]
    omega
  have hsum : scale m * perDoubling + (perDoubling + m % perDoubling) = m := by
    rw [← hscale, Nat.mul_comm, Nat.add_mul, Nat.one_mul] at hm
    omega
  refine ⟨?_, hsum⟩
  have hbits : m - scale m * perDoubling = perDoubling + m % perDoubling := by omega
  rw [unitsOf, hbits]

theorem unitsOf_pos {m : Nat} (h : 0 < m) : 0 < unitsOf m := by
  rcases Nat.lt_or_ge m (2 * perDoubling) with hm | hm
  · rwa [unitsOf_of_lt hm]
  · rw [(unitsOf_of_le hm).1, Nat.shiftLeft_eq]
    exact Nat.mul_pos (Nat.add_pos_left (by decide) _) (Nat.two_pow_pos _)

/-- The number nearest to the exact value of a finite number is that number. -/
theorem nearestMagnitude_unitsOf {m : Nat} (h : m < infinity) :
    nearestMagnitude (unitsOf m) 1 = m := by
  rcases Nat.lt_or_ge m (2 * perDoubling) with hm | hm
  · have hlog : m.log2 - 52 = 0 := by
      have : m.log2 < 53 := by
        by_cases h0 : m = 0
        · subst h0
          decide
        · exact (Nat.log2_lt h0).2 hm
      omega
    have hround := roundHalfEven_exact m Nat.one_pos
    rw [Nat.mul_one] at hround
    rw [unitsOf_of_lt hm, nearestMagnitude, Nat.div_one, hlog]
    simp only [Nat.zero_mul, Nat.zero_add, Nat.shiftLeft_zero, hround]
    exact Nat.min_eq_right (Nat.le_of_lt h)
  · obtain ⟨hunits, hsum⟩ := unitsOf_of_le hm
    have hrest : m % perDoubling < perDoubling := Nat.mod_lt m (by decide)
    have hlog : (unitsOf m).log2 - 52 = scale m := by
      have hne : unitsOf m ≠ 0 := Nat.ne_of_gt (unitsOf_pos (Nat.lt_of_lt_of_le (by decide) hm))
      have hbits : (perDoubling + m % perDoubling) * 2 ^ scale m < 2 ^ (53 + scale m) := by
        rw [Nat.pow_add]
        refine Nat.mul_lt_mul_of_pos_right ?_ (Nat.two_pow_pos _)
        calc perDoubling + m % perDoubling
            < perDoubling + perDoubling := Nat.add_lt_add_left hrest _
          _ = 2 ^ 53 := by decide
      have hleast : 2 ^ (52 + scale m) ≤ (perDoubling + m % perDoubling) * 2 ^ scale m := by
        rw [Nat.pow_add]
        exact Nat.mul_le_mul_right _ (Nat.le_add_right _ _)
      rw [← Nat.shiftLeft_eq, ← hunits] at hbits hleast
      have hlt := (Nat.log2_lt hne).2 hbits
      have hge := (Nat.le_log2 hne).2 hleast
      omega
    rw [nearestMagnitude, Nat.div_one, hlog, hunits, Nat.shiftLeft_eq, Nat.shiftLeft_eq,
      Nat.one_mul, roundHalfEven_exact _ (Nat.two_pow_pos _), hsum]
    exact Nat.min_eq_right (Nat.le_of_lt h)

/-! ## Values outside the range -/

/-- A fraction far above the greatest finite number rounds to infinity. -/
theorem nearestMagnitude_eq_infinity {n : Nat} (h : 2 ^ 2200 ≤ n) :
    nearestMagnitude n 1 = infinity := by
  have hne : n ≠ 0 := by
    rintro rfl
    exact absurd h (Nat.not_le.2 (Nat.two_pow_pos 2200))
  have hlog := (Nat.le_log2 hne).2 h
  have hdoublings : infinity ≤ (n.log2 - 52) * perDoubling :=
    Nat.mul_le_mul_right perDoubling (by omega)
  rw [nearestMagnitude, Nat.div_one]
  exact Nat.min_eq_left (Nat.le_trans hdoublings (Nat.le_add_right _ _))

/-- A fraction below one half of the least positive number rounds to zero. -/
theorem nearestMagnitude_eq_zero {n d : Nat} (h : 2 * n < d) : nearestMagnitude n d = 0 := by
  have hquotient : n / d = 0 := Nat.div_eq_of_lt (by omega)
  have hrest : n % d = n := Nat.mod_eq_of_lt (by omega)
  have hround : roundHalfEven n d = 0 := by rw [roundHalfEven, hquotient, hrest, if_pos h]
  simp [nearestMagnitude, hquotient, hround]

end OData.Binary64

namespace OData.Decimal

open Binary64

/-! ## Decimals -/

/-- The nearest magnitude of digits with an exponent, by exact arithmetic alone. -/
def nearest (digits : Nat) (exponent : Int) : Nat :=
  if 0 ≤ exponent then nearestMagnitude (digits * 10 ^ exponent.toNat * unitsInOne) 1
  else nearestMagnitude (digits * unitsInOne) (10 ^ (-exponent).toNat)

theorem unitsInOne_pos : 0 < unitsInOne := by decide +kernel

theorem two_pow_mul_unitsInOne (n : Nat) : 2 ^ n * unitsInOne = 2 ^ (n + 1074) := by
  have hshift (k : Nat) : 2 ^ n * 1 <<< k = 2 ^ (n + k) := by
    rw [Nat.one_shiftLeft, Nat.pow_add]
  exact hshift 1074

/-- Three bits fit in a decimal digit. -/
theorem two_pow_le_ten_pow (n : Nat) : 2 ^ (3 * n) ≤ 10 ^ n := by
  rw [Nat.pow_mul]
  exact Nat.pow_le_pow_left (by decide) n

/-- The shortcuts for far exponents give what the exact arithmetic gives. -/
theorem toBinary64_eq_nearest (negative : Bool) (digits : Nat) (exponent : Int) :
    (Decimal.mk negative digits exponent).toBinary64.negative = negative ∧
      (Decimal.mk negative digits exponent).toBinary64.magnitude = nearest digits exponent := by
  rw [toBinary64]
  split
  case isTrue h =>
    have h : digits = 0 := h
    refine ⟨rfl, ?_⟩
    subst h
    simp [nearest, ofUnits, nearestMagnitude_zero]
  case isFalse h =>
    have hpos : 0 < digits := Nat.pos_of_ne_zero h
    split
    case isTrue hfar =>
      have hfar : 400 < exponent := hfar
      refine ⟨rfl, ?_⟩
      have hbig : 2 ^ 2200 ≤ digits * 10 ^ exponent.toNat * unitsInOne := by
        calc 2 ^ 2200 ≤ 2 ^ (3 * exponent.toNat + 1074) :=
              Nat.pow_le_pow_right (by decide) (by omega)
          _ = 2 ^ (3 * exponent.toNat) * unitsInOne := (two_pow_mul_unitsInOne _).symm
          _ ≤ digits * 10 ^ exponent.toNat * unitsInOne :=
              Nat.mul_le_mul_right _ (Nat.le_trans (two_pow_le_ten_pow _)
                (Nat.le_mul_of_pos_left _ hpos))
      rw [nearest, if_pos (by omega), nearestMagnitude_eq_infinity hbig]
      rfl
    case isFalse hfar =>
      split
      case isTrue hnear =>
        have hnear : exponent < -((400 + digits.log2 : Nat) : Int) := hnear
        refine ⟨rfl, ?_⟩
        have hsmall : 2 * (digits * unitsInOne) < 10 ^ (-exponent).toNat := by
          calc 2 * (digits * unitsInOne)
              < 2 * (2 ^ (digits.log2 + 1) * unitsInOne) :=
                Nat.mul_lt_mul_of_pos_left (Nat.mul_lt_mul_of_pos_right
                  Nat.lt_log2_self unitsInOne_pos) Nat.two_pos
            _ = 2 ^ (digits.log2 + 1 + 1074 + 1) := by
                rw [two_pow_mul_unitsInOne, ← Nat.pow_succ']
            _ ≤ 2 ^ (3 * (-exponent).toNat) := Nat.pow_le_pow_right (by decide) (by omega)
            _ ≤ 10 ^ (-exponent).toNat := two_pow_le_ten_pow _
        rw [nearest, if_neg (by omega), nearestMagnitude_eq_zero hsmall]
        exact nearestMagnitude_zero 1
      case isFalse hnear =>
        split
        case isTrue hsign => exact ⟨rfl, by rw [nearest, if_pos hsign]; rfl⟩
        case isFalse hsign => exact ⟨rfl, by rw [nearest, if_neg hsign]; rfl⟩

/-- Zeros may stand in the digits or in the exponent. -/
theorem nearest_mul_pow (digits k : Nat) (exponent : Int) :
    nearest (digits * 10 ^ k) exponent = nearest digits (exponent + k) := by
  rcases Int.lt_or_le exponent 0 with he | he
  · rcases Int.lt_or_le (exponent + k) 0 with hek | hek
    · -- Both exponents are below zero: the zeros cancel against the denominator.
      have hexp : (-exponent).toNat = (-(exponent + k)).toNat + k := by omega
      rw [nearest, nearest, if_neg (by omega), if_neg (by omega), hexp, Nat.pow_add,
        Nat.mul_right_comm, nearestMagnitude_mul _ _ (Nat.pow_pos (by decide))]
    · -- The zeros outweigh the denominator.
      have hexp : k = (exponent + k).toNat + (-exponent).toNat := by omega
      have hdigits : digits * 10 ^ k * unitsInOne =
          digits * 10 ^ (exponent + k).toNat * unitsInOne * 10 ^ (-exponent).toNat := by
        calc digits * 10 ^ k * unitsInOne
            = digits * (10 ^ (exponent + k).toNat * 10 ^ (-exponent).toNat) * unitsInOne := by
              rw [← Nat.pow_add, ← hexp]
          _ = digits * 10 ^ (exponent + k).toNat * unitsInOne * 10 ^ (-exponent).toNat := by
              rw [← Nat.mul_assoc, Nat.mul_right_comm]
      rw [nearest, nearest, if_neg (by omega), if_pos hek, hdigits]
      have hcancel := nearestMagnitude_mul (digits * 10 ^ (exponent + k).toNat * unitsInOne) 1
        (Nat.pow_pos (by decide : 0 < 10) : 0 < 10 ^ (-exponent).toNat)
      rwa [Nat.one_mul] at hcancel
  · have hexp : (exponent + k).toNat = k + exponent.toNat := by omega
    rw [nearest, nearest, if_pos he, if_pos (by omega), hexp, Nat.pow_add, Nat.mul_assoc digits]

end OData.Decimal

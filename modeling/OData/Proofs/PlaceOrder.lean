import Mathlib.Data.Char
import Mathlib.Data.Int.Order.Basic
import Mathlib.Order.Lattice
import OData.Proofs.Digits

/-!
# Orders place by place

Numbers of two places are in the order of their first places, and then of their
last ones (`compare_mul_add`).  Texts of one length are in the order of their first
parts, and then of what follows them (`compare_append`).  So runs of digits of one
length are in the order of their values (`compare_digitsValue`).
-/

namespace OData

/-! ## Numbers of two places -/

/-- A function that grows keeps the order. -/
theorem compare_map {α β : Type} [LinearOrder α] [LinearOrder β] {f : α → β} (hf : StrictMono f)
    (a b : α) : compare (f a) (f b) = compare a b := by
  rw [← cmp_eq_compare, ← cmp_eq_compare, hf.cmp_map_eq]

theorem compare_natCast (m n : Nat) : compare (m : Int) (n : Int) = compare m n :=
  compare_map (f := fun n : Nat => (n : Int)) (fun _ _ => Int.ofNat_lt.2) m n

/-- Numbers are in the order of their first places, and then of their last ones. -/
theorem compare_mul_add (a b : Int) {s t k : Nat} (hs : s < k) (ht : t < k) :
    compare (a * k + s) (b * k + t) = (compare a b).then (compare s t) := by
  have hless {a b : Int} {s t : Nat} (hs : s < k) (h : a < b) : a * k + s < b * k + t := by
    have hmul : (a + 1) * k ≤ b * k := Int.mul_le_mul_of_nonneg_right h (Int.natCast_nonneg k)
    rw [Int.add_mul, Int.one_mul] at hmul
    omega
  rcases Int.lt_trichotomy a b with h | rfl | h
  · rw [Int.compare_eq_lt.2 h, Int.compare_eq_lt.2 (hless hs h)]
    rfl
  · have hgrows : StrictMono fun s : Nat => a * k + s := fun s t h =>
      Int.add_lt_add_left (Int.ofNat_lt.2 h) _
    rw [Int.compare_eq_eq.2 (Eq.refl a), Ordering.eq_then, ← compare_map hgrows]
  · rw [Int.compare_eq_gt.2 h, Int.compare_eq_gt.2 (hless ht h)]
    rfl

theorem compare_mul_add_nat (a b : Nat) {s t k : Nat} (hs : s < k) (ht : t < k) :
    compare (a * k + s) (b * k + t) = (compare a b).then (compare s t) := by
  rw [← compare_natCast a b, ← compare_mul_add a b hs ht, ← compare_natCast]
  rfl

/-! ## The order of texts -/

theorem compare_eq_of_lex (cs ds : List Char) : compareOfLessAndEq cs ds = compare cs ds := by
  induction cs generalizing ds with
  | nil => cases ds <;> rfl
  | cons c cs ih =>
    cases ds with
    | nil => rfl
    | cons d ds =>
      rw [List.compare_cons_cons, ← ih]
      simp only [compareOfLessAndEq, List.cons_lt_cons_iff, List.cons.injEq]
      rcases lt_trichotomy c d with h | rfl | h
      · rw [if_pos (.inl h), compare_lt_iff_lt.2 h, Ordering.lt_then]
      · simp
      · simp [compare_gt_iff_gt.2 h, lt_asymm h, ne_of_gt h]

/-- Strings are in the order of their characters. -/
theorem compare_ofList (cs ds : List Char) :
    compare (String.ofList cs) (String.ofList ds) = compare cs ds := by
  have hlex : compare (String.ofList cs) (String.ofList ds) =
      compareOfLessAndEq (String.ofList cs) (String.ofList ds) := rfl
  rw [hlex, ← compare_eq_of_lex]
  simp only [compareOfLessAndEq, String.lt_iff, String.toList_ofList, String.ofList_inj]

theorem compare_append {cs ds : List Char} (h : cs.length = ds.length) (xs ys : List Char) :
    compare (cs ++ xs) (ds ++ ys) = (compare cs ds).then (compare xs ys) := by
  induction cs generalizing ds with
  | nil =>
    obtain rfl := List.length_eq_zero_iff.1 h.symm
    rfl
  | cons c cs ih =>
    cases ds with
    | nil => cases h
    | cons d ds =>
      rw [List.cons_append, List.cons_append, List.compare_cons_cons, List.compare_cons_cons,
        ih (Nat.succ.inj h), Ordering.then_assoc]

/-! ## Runs of digits -/

namespace Decimal

theorem digitsValue_cons (c : Char) (cs : List Char) :
    digitsValue (c :: cs) = (c.toNat - 48) * 10 ^ cs.length + digitsValue cs := by
  have hdigit : digitsValue [c] = c.toNat - 48 := Nat.zero_add _
  rw [← hdigit, ← digitsValue_append, List.singleton_append]

theorem digitsValue_lt {cs : List Char} (h : ∀ c ∈ cs, c.isDigit = true) :
    digitsValue cs < 10 ^ cs.length := by
  induction cs with
  | nil => exact Nat.one_pos
  | cons c cs ih =>
    rw [List.forall_mem_cons] at h
    have hdigit : c.toNat - 48 + 1 ≤ 10 := by
      have := bounds_of_isDigit h.1
      omega
    have hrest := ih h.2
    calc digitsValue (c :: cs)
        < (c.toNat - 48 + 1) * 10 ^ cs.length := by
          rw [digitsValue_cons, Nat.succ_mul]
          exact Nat.add_lt_add_left hrest _
      _ ≤ 10 ^ (c :: cs).length := by
          rw [List.length_cons, Nat.pow_succ']
          exact Nat.mul_le_mul_right _ hdigit

theorem compare_digit {c d : Char} (hc : c.isDigit = true) (hd : d.isDigit = true) :
    compare (c.toNat - 48) (d.toNat - 48) = compare c d := by
  have hfirst := bounds_of_isDigit hc
  have hsecond := bounds_of_isDigit hd
  have hgrows : StrictMono Char.toNat := fun _ _ h => h
  have hshift : StrictMono fun n : Nat => 48 + n := fun _ _ h => Nat.add_lt_add_left h 48
  rw [← compare_map hgrows, ← compare_map hshift, Nat.add_sub_cancel' hfirst.1,
    Nat.add_sub_cancel' hsecond.1]

/-- Runs of digits of one length are in the order of their values. -/
theorem compare_digitsValue {cs ds : List Char} (hlength : cs.length = ds.length)
    (hcs : ∀ c ∈ cs, c.isDigit = true) (hds : ∀ d ∈ ds, d.isDigit = true) :
    compare cs ds = compare (digitsValue cs) (digitsValue ds) := by
  induction cs generalizing ds with
  | nil =>
    obtain rfl := List.length_eq_zero_iff.1 hlength.symm
    rfl
  | cons c cs ih =>
    cases ds with
    | nil => cases hlength
    | cons d ds =>
      rw [List.forall_mem_cons] at hcs hds
      have hlength : cs.length = ds.length := Nat.succ.inj hlength
      have hless := digitsValue_lt hcs.2
      rw [hlength] at hless
      rw [List.compare_cons_cons, ih hlength hcs.2 hds.2, digitsValue_cons, digitsValue_cons,
        hlength, compare_mul_add_nat _ _ hless (digitsValue_lt hds.2), compare_digit hcs.1 hds.1]

end Decimal

end OData

import OData.Number.Layout
import OData.Proofs.Cutting
import OData.Proofs.Digits
import OData.Proofs.Rounding

/-!
# Numbers read back

Every finite number is read back from its plain text (`read?_write`).

The digits that are written stand for a decimal that rounds to the number: they
were found by this test, or else they are all digits of the exact value.  The
point is put among them without a change of value, and a decimal is read by its
value alone.
-/

namespace OData.Digits

open Decimal Binary64

/-! ## The digits of a decimal -/

/-- The digits of a decimal have its value when the zeros dropped at their end are counted by the
point. -/
theorem ofDecimal_spec {n : Nat} (hn : 0 < n) (exponent : Int) :
    (∀ c ∈ (ofDecimal n exponent).digits, c.isDigit = true) ∧ (ofDecimal n exponent).digits ≠ [] ∧
      ∃ k : Nat, n = digitsValue (ofDecimal n exponent).digits * 10 ^ k ∧
        (ofDecimal n exponent).point = (ofDecimal n exponent).digits.length + exponent + k := by
  have hsplit : (ofDecimal n exponent).digits ++
      ((Nat.toDigits 10 n).reverse.takeWhile (· = '0')).reverse = Nat.toDigits 10 n := by
    rw [ofDecimal, ← List.reverse_append, List.takeWhile_append_dropWhile, List.reverse_reverse]
  obtain ⟨k, hk⟩ : ∃ k, ((Nat.toDigits 10 n).reverse.takeWhile (· = '0')).reverse =
      List.replicate k '0' := by
    refine ⟨_, List.eq_replicate_of_mem ?_⟩
    intro c hc
    exact of_decide_eq_true (List.all_eq_true.1 List.all_takeWhile c (List.mem_reverse.1 hc))
  rw [hk] at hsplit
  have hvalue : n = digitsValue (ofDecimal n exponent).digits * 10 ^ k := by
    rw [← digitsValue_append_zeros, hsplit, digitsValue_toDigits]
  refine ⟨?_, ?_, k, hvalue, ?_⟩
  · intro c hc
    refine isDigit_of_mem_toDigits (n := n) ?_
    rw [← hsplit]
    exact List.mem_append_left _ hc
  · intro hnil
    rw [hnil] at hvalue
    have : digitsValue [] = 0 := rfl
    rw [this, Nat.zero_mul] at hvalue
    omega
  · have hlength := congrArg List.length hsplit
    rw [List.length_append, List.length_replicate] at hlength
    change ((Nat.toDigits 10 n).length : Int) + exponent = _
    omega

/-! ## The shortest digits -/

/-- What the search on a grid finds reads back. -/
theorem readsBack_of_onGrid? {tie : TieRule} {magnitude n : Nat} {exponent : Int}
    (h : onGrid? tie magnitude exponent = some n) : readsBack magnitude n exponent = true := by
  simp only [onGrid?] at h
  split at h
  case h_1 hbelow habove =>
    split at h
    · cases h
      exact hbelow
    · split at h
      · cases h
        exact habove
      · cases tie with
        | up =>
          cases h
          exact habove
        | even =>
          cases h
          split
          · exact hbelow
          · exact habove
  case h_2 hbelow habove =>
    cases h
    exact hbelow
  case h_3 hbelow habove =>
    cases h
    exact habove
  case h_4 => cases h

/-- A decimal that reads back as a positive magnitude is positive. -/
theorem pos_of_nearest {magnitude n : Nat} {exponent : Int} (hm : 0 < magnitude)
    (h : nearest n exponent = magnitude) : 0 < n := by
  rcases Nat.eq_zero_or_pos n with rfl | hn
  · have hzero : nearest 0 exponent = 0 := by simp [nearest, nearestMagnitude_zero]
    omega
  · exact hn

/-- All digits of the exact value round to the number, when one is a power of two. -/
theorem nearest_exact {magnitude k : Nat} (hk : unitsInOne = 1 <<< k) (h : magnitude < infinity) :
    nearest (unitsOf magnitude * Nat.pow 5 k) (-k) = magnitude := by
  have hten : unitsOf magnitude * Nat.pow 5 k * unitsInOne = unitsOf magnitude * 10 ^ k := by
    rw [hk, Nat.one_shiftLeft, Nat.mul_assoc, Nat.pow_eq, ← Nat.mul_pow]
  have hcancel := nearestMagnitude_mul (unitsOf magnitude) 1
    (Nat.pow_pos (by decide : 0 < 10) : 0 < 10 ^ k)
  rw [Nat.one_mul, nearestMagnitude_unitsOf h] at hcancel
  rw [nearest]
  split
  case isTrue hsign =>
    have hzero : k = 0 := by omega
    subst hzero
    simpa [hk] using hcancel
  case isFalse =>
    rw [hten, Int.neg_neg, Int.toNat_natCast]
    exact hcancel

/-- The digits that are written are those of a decimal that rounds to the number. -/
theorem shortest_spec (tie : TieRule) {magnitude : Nat} (hm : 0 < magnitude)
    (h : magnitude < infinity) :
    ∃ n exponent, 0 < n ∧ shortest tie magnitude = ofDecimal n exponent ∧
      nearest n exponent = magnitude := by
  rw [shortest]
  cases hfound : ((List.range 17).map (· + 1)).findSome? fun (count : Nat) =>
      (onGrid? tie magnitude (pointOf (unitsOf magnitude) - count)).map fun digits =>
        ofDecimal digits (pointOf (unitsOf magnitude) - count) with
  | some d =>
    obtain ⟨count, -, hcount⟩ := List.exists_of_findSome?_eq_some hfound
    obtain ⟨n, hgrid, rfl⟩ := Option.map_eq_some_iff.1 hcount
    have hback := readsBack_of_onGrid? hgrid
    rw [readsBack, decide_eq_true_eq, (toBinary64_eq_nearest false n _).2] at hback
    exact ⟨n, _, pos_of_nearest hm hback, rfl, hback⟩
  | none =>
    have hexact := @nearest_exact magnitude 1074 rfl h
    exact ⟨_, _, pos_of_nearest hm hexact, rfl, hexact⟩

/-! ## The digits written out -/

section WrittenOut

variable {d : Digits} (hd : ∀ c ∈ d.digits, c.isDigit = true)

include hd in
theorem isDigit_or_point_of_mem_writtenOut {c : Char} (h : c ∈ d.writtenOut []) :
    c.isDigit = true ∨ c = '.' := by
  simp only [writtenOut] at h
  split at h
  · simp only [List.mem_cons, List.mem_append] at h
    rcases h with rfl | rfl | h | h
    · exact .inl rfl
    · exact .inr rfl
    · exact .inl (isDigit_of_mem_zeros h)
    · exact .inl (hd c h)
  · split at h
    · simp only [List.mem_append, List.not_mem_nil, or_false] at h
      rcases h with h | h
      · exact .inl (hd c h)
      · exact .inl (isDigit_of_mem_zeros h)
    · simp only [List.mem_cons, List.mem_append] at h
      rcases h with h | rfl | h
      · exact .inl (hd c (List.mem_of_mem_take h))
      · exact .inr rfl
      · exact .inl (hd c (List.mem_of_mem_drop h))

include hd in
/-- The digits written out begin with a digit. -/
theorem exists_cons_writtenOut (hne : d.digits ≠ []) :
    ∃ c cs, d.writtenOut [] = c :: cs ∧ c.isDigit = true := by
  obtain ⟨c, cs, hcs⟩ := List.exists_cons_of_ne_nil hne
  have hc : c.isDigit = true := hd c (by rw [hcs]; exact List.mem_cons_self)
  simp only [writtenOut]
  split
  · exact ⟨_, _, rfl, rfl⟩
  · split
    · exact ⟨c, _, by rw [hcs]; rfl, hc⟩
    · obtain ⟨n, hn⟩ : ∃ n, d.point.toNat = n + 1 := ⟨d.point.toNat - 1, by omega⟩
      exact ⟨c, _, by rw [hcs, hn]; rfl, hc⟩

end WrittenOut

end OData.Digits

namespace OData.Decimal

open Binary64

/-! ## Reading digits with a point -/

section Reading

variable {whole fraction : List Char} (negative : Bool)

/-- Digits that no point follows have no fraction. -/
theorem spanPoint_append {rest : List Char} (hw : ∀ c ∈ whole, c.isDigit = true)
    (hrest : Text.StopsRun Char.isDigit rest) (hpoint : rest.head? ≠ some '.') :
    spanPoint (whole ++ rest) = (whole, [], rest) := by
  simp only [spanPoint, Text.span_append hw hrest]
  cases rest with
  | nil => rfl
  | cons c rest =>
    split
    case h_1 heq =>
      obtain ⟨rfl, -⟩ := List.cons.inj heq
      exact absurd rfl hpoint
    case h_2 => rfl

/-- A run of digits is a decimal without a fraction. -/
theorem readUnsigned?_whole (hne : whole ≠ []) (hw : ∀ c ∈ whole, c.isDigit = true) :
    readUnsigned? negative whole = some ⟨negative, digitsValue whole, 0⟩ := by
  have hpoint : spanPoint whole = (whole, [], []) := by
    have h := spanPoint_append hw Text.stopsRun_nil (by simp)
    rwa [List.append_nil] at h
  simp [readUnsigned?, hpoint, hne, readExponent?]

/-- Digits and a dash are no decimal. -/
theorem readUnsigned?_dash (hw : ∀ c ∈ whole, c.isDigit = true) (rest : List Char) :
    readUnsigned? negative (whole ++ '-' :: rest) = none := by
  have hpoint := spanPoint_append hw (Text.stopsRun_cons.2 rfl : Text.StopsRun _ ('-' :: rest))
    (by simp)
  simp [readUnsigned?, hpoint, readExponent?]

/-- Two runs of digits with a point between them are a decimal. -/
theorem readUnsigned?_fraction (hne : whole ≠ []) (hw : ∀ c ∈ whole, c.isDigit = true)
    (hf : ∀ c ∈ fraction, c.isDigit = true) :
    readUnsigned? negative (whole ++ '.' :: fraction) =
      some ⟨negative, digitsValue (whole ++ fraction), -fraction.length⟩ := by
  have hwhole : (whole ++ '.' :: fraction).span Char.isDigit = (whole, '.' :: fraction) :=
    Text.span_append hw (Text.stopsRun_cons.2 rfl)
  have hfraction : fraction.span Char.isDigit = (fraction, []) := by
    have h := Text.span_append hf Text.stopsRun_nil
    rwa [List.append_nil] at h
  have hpoint : spanPoint (whole ++ '.' :: fraction) = (whole, fraction, []) := by
    simp only [spanPoint, hwhole, hfraction]
  simp [readUnsigned?, hpoint, hne, readExponent?]

end Reading

/-- The digits written out are read as a decimal of the same value. -/
theorem readUnsigned?_writtenOut (negative : Bool) {d : Digits} (hne : d.digits ≠ [])
    (hd : ∀ c ∈ d.digits, c.isDigit = true) :
    ∃ n exponent, readUnsigned? negative (d.writtenOut []) = some ⟨negative, n, exponent⟩ ∧
      nearest n exponent = nearest (digitsValue d.digits) (d.point - d.digits.length) := by
  simp only [Digits.writtenOut]
  split
  case isTrue hpoint =>
    -- The point stands before all digits.
    have hzero : ∀ c ∈ ['0'], c.isDigit = true := by simp
    have hf : ∀ c ∈ List.replicate (-d.point).toNat '0' ++ d.digits, c.isDigit = true := by
      intro c hc
      rcases List.mem_append.1 hc with hc | hc
      · exact isDigit_of_mem_zeros hc
      · exact hd c hc
    refine ⟨_, _, readUnsigned?_fraction negative (by simp) hzero hf, ?_⟩
    have hvalue := digitsValue_zeros_append 1 (List.replicate (-d.point).toNat '0' ++ d.digits)
    rw [List.replicate_one, digitsValue_zeros_append] at hvalue
    rw [hvalue, List.length_append, List.length_replicate]
    congr 1
    omega
  case isFalse hpoint =>
    split
    case isTrue hcount =>
      -- The point stands behind all digits, so there is none.
      rw [List.append_nil]
      have hw : ∀ c ∈ d.digits ++ List.replicate (d.point - d.digits.length).toNat '0',
          c.isDigit = true := by
        intro c hc
        rcases List.mem_append.1 hc with hc | hc
        · exact hd c hc
        · exact isDigit_of_mem_zeros hc
      refine ⟨_, _, readUnsigned?_whole negative (by simp [hne]) hw, ?_⟩
      rw [digitsValue_append_zeros, nearest_mul_pow]
      congr 1
      omega
    case isFalse hcount =>
      have hw : ∀ c ∈ d.digits.take d.point.toNat, c.isDigit = true :=
        fun c hc => hd c (List.mem_of_mem_take hc)
      have hf : ∀ c ∈ d.digits.drop d.point.toNat, c.isDigit = true :=
        fun c hc => hd c (List.mem_of_mem_drop hc)
      have htake : d.digits.take d.point.toNat ≠ [] := by
        simp only [ne_eq, List.take_eq_nil_iff, not_or]
        exact ⟨by omega, hne⟩
      refine ⟨_, _, readUnsigned?_fraction negative htake hw hf, ?_⟩
      rw [List.take_append_drop, List.length_drop]
      congr 1
      omega

end OData.Decimal

namespace OData.Binary64

open Decimal

/-! ## The text of a number -/

/-- The text of a finite number without its sign. -/
def plainText (magnitude : Nat) : List Char :=
  if magnitude = 0 then ['0'] else (Digits.shortest .up magnitude).writtenOut []

theorem write_plain {x : Binary64} (h : x.isFinite = true) :
    x.write .plain = (if x.negative then ['-'] else []) ++ plainText x.magnitude := by
  have hnan : x.isNaN = false := by
    rw [isFinite, decide_eq_true_eq] at h
    rw [isNaN, decide_eq_false_iff_not]
    omega
  simp only [write, hnan, h, plainText, isZero, NumberLayout.plain]
  by_cases hzero : x.magnitude = 0
  · simp [hzero]
  · simp [hzero]

/-- What is written for a magnitude: digits, perhaps with a point, that read as the magnitude. -/
theorem plainText_spec {m : Nat} (hm : m < infinity) (negative : Bool) :
    (∀ c ∈ plainText m, c.isDigit = true ∨ c = '.') ∧
      (∃ c cs, plainText m = c :: cs ∧ c.isDigit = true) ∧
      ∃ n exponent, readUnsigned? negative (plainText m) = some ⟨negative, n, exponent⟩ ∧
        nearest n exponent = m := by
  rw [plainText]
  split
  case isTrue hzero =>
    subst hzero
    refine ⟨by simp, ⟨'0', [], rfl, rfl⟩, 0, 0, rfl, ?_⟩
    simp [nearest, nearestMagnitude_zero]
  case isFalse hzero =>
    obtain ⟨n, exponent, hn, hshortest, hnearest⟩ :=
      Digits.shortest_spec .up (Nat.pos_of_ne_zero hzero) hm
    obtain ⟨hdigits, hne, k, hvalue, hpoint⟩ := Digits.ofDecimal_spec hn exponent
    rw [hshortest]
    refine ⟨fun c hc => Digits.isDigit_or_point_of_mem_writtenOut hdigits hc,
      Digits.exists_cons_writtenOut hdigits hne, ?_⟩
    obtain ⟨n', exponent', hread, hsame⟩ := readUnsigned?_writtenOut negative hne hdigits
    refine ⟨n', exponent', hread, ?_⟩
    calc nearest n' exponent'
        = nearest (digitsValue (Digits.ofDecimal n exponent).digits) (exponent + k) := by
          rw [hsame]
          congr 1
          omega
      _ = nearest n exponent := by rw [← nearest_mul_pow, ← hvalue]
      _ = m := hnearest

/-- The text of a finite number has digits, points and signs only, and begins like a number. -/
theorem write_chars {x : Binary64} (h : x.isFinite = true) :
    (∀ c ∈ x.write .plain, c.isDigit = true ∨ c = '.' ∨ c = '-') ∧
      ∃ c cs, x.write .plain = c :: cs ∧ (c.isDigit = true ∨ c = '-') := by
  have hm : x.magnitude < infinity := by rwa [isFinite, decide_eq_true_eq] at h
  obtain ⟨hchars, ⟨c, cs, hcons, hc⟩, -⟩ := plainText_spec hm false
  rw [write_plain h]
  constructor
  · intro d hd
    rcases List.mem_append.1 hd with hd | hd
    · split at hd
      · exact .inr (.inr (List.mem_singleton.1 hd))
      · cases hd
    · rcases hchars d hd with hd | hd
      · exact .inl hd
      · exact .inr (.inl hd)
  · split
    · exact ⟨'-', plainText x.magnitude, rfl, .inr rfl⟩
    · exact ⟨c, cs, hcons, .inl hc⟩

/-- Text without a sign that begins with a digit is none of the words for infinity and NaN. -/
theorem read?_of_takeSign {cs word : List Char} {negative : Bool} {c : Char}
    (hsign : takeSign cs = (negative, c :: word)) (hc : c.isDigit = true) :
    read? cs = (readUnsigned? negative (c :: word)).map toBinary64 := by
  have hword (w : String) (d : Char) (ds : List Char) (hw : w.toList = d :: ds)
      (hd : d.isDigit = false) : String.ofList ((c :: word).map Char.toLower) ≠ w := by
    intro heq
    have hlist := congrArg String.toList heq
    rw [String.toList_ofList, List.map_cons, toLower_of_isDigit hc, hw] at hlist
    exact ne_of_isDigit hc hd (List.cons.inj hlist).1
  have hnan := hword "nan" 'n' ['a', 'n'] rfl rfl
  have hinf := hword "inf" 'i' ['n', 'f'] rfl rfl
  have hinfinity := hword "infinity" 'i' ['n', 'f', 'i', 'n', 'i', 't', 'y'] rfl rfl
  simp only [read?, hsign, hnan, hinf, hinfinity, if_false, decide_false, Bool.or_self,
    Bool.false_eq_true, Decimal.read?]

/-- A finite number is read back from its text. -/
theorem read?_write {x : Binary64} (h : x.isFinite = true) : read? (x.write .plain) = some x := by
  have hm : x.magnitude < infinity := by rwa [isFinite, decide_eq_true_eq] at h
  obtain ⟨-, ⟨c, cs, hcons, hc⟩, n, exponent, hread, hnearest⟩ := plainText_spec hm x.negative
  have hsign : takeSign (x.write .plain) = (x.negative, c :: cs) := by
    rw [write_plain h, hcons]
    cases x.negative with
    | true => rfl
    | false => exact takeSign_of_isDigit hc cs
  rw [read?_of_takeSign hsign hc, ← hcons, hread, Option.map_some]
  obtain ⟨hnegative, hmagnitude⟩ := toBinary64_eq_nearest x.negative n exponent
  exact congrArg some (Binary64.ext hnegative (hmagnitude.trans hnearest))

end OData.Binary64

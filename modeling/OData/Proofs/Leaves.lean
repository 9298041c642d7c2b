import OData.Filter.Printer
import OData.Filter.Leaf
import OData.Proofs.NumberText
import OData.Proofs.TimestampText

/-!
# Literals read back

Literals are the leaves of their texts: the three words, the finite numbers
(`leaf_number`) and just the instants on the clock that are written without a
loss (`leaf_instant_eq_self_iff`).  No word writes an instant off the clock
(`onClock_of_literal?`).
-/

namespace OData.Filter

/-! ## Words -/

/-- A word that begins like a number is none of the three words. -/
theorem literal?_of_startsNumber {w : String} (h : startsNumber w.toList = true) :
    literal? w = ((finiteNumber? w.toList).map Literal.number <|>
      (Timestamp.read? w.toList).map Literal.instant) := by
  have hne (v : String) (hv : startsNumber v.toList = false) : w ≠ v := by
    rintro rfl
    rw [h] at hv
    cases hv
  rw [literal?, if_neg (hne "null" rfl), if_neg (hne "true" rfl), if_neg (hne "false" rfl), if_pos h]

/-- A word that begins like a number is no keyword. -/
theorem isKeyword_of_startsNumber {w : String} (h : startsNumber w.toList = true) :
    isKeyword w = false := by
  have hall : ∀ k ∈ keywords, startsNumber k.toList = false := by decide
  rw [isKeyword, List.contains_eq_mem, decide_eq_false_iff_not]
  intro hmem
  rw [hall w hmem] at h
  cases h

/-! ## Numbers -/

/-- A finite number has one value, which is its own. -/
theorem equal_self {x : Binary64} (h : x.isFinite = true) : x.equal x = true := by
  have hnan : x.isNaN = false := by
    rw [Binary64.isFinite, decide_eq_true_eq] at h
    rw [Binary64.isNaN, decide_eq_false_iff_not]
    omega
  simp [Binary64.equal, Binary64.compare?, hnan]

/-- The text of a finite number begins like a number. -/
theorem startsNumber_number {x : Binary64} (h : x.isFinite = true) :
    startsNumber (String.ofList (x.write .plain)).toList = true := by
  obtain ⟨-, c, cs, hcons, hc⟩ := Binary64.write_chars h
  rw [String.toList_ofList, hcons, startsNumber]
  rcases hc with hc | rfl
  · simp [hc]
  · rfl

/-- A finite number is the leaf of its text. -/
theorem leaf_number {x : Binary64} (h : x.isFinite = true) :
    leaf (String.ofList (x.write .plain)) = .literal (.number x) := by
  have hnumber : finiteNumber? (x.write .plain) = some x := by
    rw [finiteNumber?, Binary64.read?_write h, Option.filter_some, if_pos h]
  have hliteral : literal? (String.ofList (x.write .plain)) = some (.number x) := by
    rw [literal?_of_startsNumber (startsNumber_number h), String.toList_ofList, hnumber]
    rfl
  rw [leaf, hliteral]

/-! ## Timestamps -/

/-- A timestamp begins with an optional sign, the digits of the year and a dash. -/
theorem takeSign_timestamp (t : Instant) :
    ∃ negative rest, Decimal.takeSign (Timestamp.write t) =
      (negative, Timestamp.padded 4 t.date.year.natAbs ++ '-' :: rest) := by
  rw [Timestamp.write_eq, Timestamp.writeYear]
  split
  · exact ⟨true, _, rfl⟩
  · split
    · exact ⟨false, _, rfl⟩
    · obtain ⟨c, cs, hcs⟩ := List.exists_cons_of_ne_nil
        (Timestamp.padded_ne_nil 4 t.date.year.natAbs)
      have hc : c.isDigit = true := Timestamp.isDigit_of_mem_padded (hcs ▸ List.mem_cons_self)
      rw [hcs]
      exact ⟨false, _, Decimal.takeSign_of_isDigit hc _⟩

/-- A timestamp is no number. -/
theorem finiteNumber?_timestamp (t : Instant) : finiteNumber? (Timestamp.write t) = none := by
  obtain ⟨negative, rest, hsign⟩ := takeSign_timestamp t
  obtain ⟨c, cs, hcs⟩ := List.exists_cons_of_ne_nil
    (Timestamp.padded_ne_nil 4 t.date.year.natAbs)
  have hdigits : ∀ d ∈ c :: cs, d.isDigit = true := by
    intro d hd
    exact Timestamp.isDigit_of_mem_padded (hcs ▸ hd)
  have hread := Decimal.readUnsigned?_dash negative hdigits rest
  rw [hcs] at hsign
  rw [finiteNumber?, Binary64.read?_of_takeSign hsign (hdigits c List.mem_cons_self)]
  exact congrArg (fun d => (d.map Decimal.toBinary64).filter Binary64.isFinite) hread

/-- A timestamp begins like a number. -/
theorem startsNumber_timestamp (t : Instant) :
    startsNumber (Timestamp.toText t).toList = true := by
  rw [Timestamp.toText, String.toList_ofList, Timestamp.write_eq, Timestamp.writeYear]
  split
  · rfl
  · split
    · rfl
    · obtain ⟨c, cs, hcs⟩ := List.exists_cons_of_ne_nil
        (Timestamp.padded_ne_nil 4 t.date.year.natAbs)
      have hc : c.isDigit = true := Timestamp.isDigit_of_mem_padded (hcs ▸ List.mem_cons_self)
      simp [hcs, startsNumber, hc]

/-- The text of an instant is read as no number, so it is the literal that a timestamp reader gives. -/
theorem literal?_instant (t : Instant) : literal? (Timestamp.toText t) =
    (Timestamp.read? (Timestamp.write t)).map Literal.instant := by
  rw [literal?_of_startsNumber (startsNumber_timestamp t), Timestamp.toText,
    String.toList_ofList, finiteNumber?_timestamp]
  rfl

/-- Just the instants on the clock that are written without a loss are the leaves of their texts. -/
theorem leaf_instant_eq_self_iff {t : Instant} :
    leaf (Timestamp.toText t) = .literal (.instant t) ↔
      Timestamp.isLossless t = true ∧ t.OnClock := by
  rw [← Timestamp.read?_write_eq_some_iff, leaf, literal?_instant]
  cases Timestamp.read? (Timestamp.write t) with
  | none => simp
  | some u => simp

/-- An instant that a word writes is on the clock. -/
theorem onClock_of_literal? {w : String} {t : Instant} (h : literal? w = some (.instant t)) :
    t.OnClock := by
  rw [literal?] at h
  split at h
  · cases h
  · split at h
    · cases h
    · split at h
      · cases h
      · split at h
        · cases hx : finiteNumber? w.toList with
          | some x =>
            rw [hx] at h
            cases h
          | none =>
            rw [hx] at h
            obtain ⟨u, hread, hu⟩ := Option.map_eq_some_iff.1 h
            cases hu
            exact Timestamp.onClock_of_read? hread
        · cases h

end OData.Filter

import Mathlib.Data.List.Forall2
import OData.Text.Pieces

/-!
# ASCII letter case

The small form of a capital ASCII letter comes 32 places after it, and all other
characters are their own small forms (`toNat_toLower`).  So two names have the
same small letters just when they agree place by place up to the two forms of a
letter (`asciiLower_eq_iff`), and their characters outside ASCII agree as they
are.
-/

namespace OData.Text

/-! ## Letters -/

/-- The same character, or the capital and the small form of one ASCII letter. -/
def SameLetter (c d : Char) : Prop :=
  c = d ∨ (c.isUpper = true ∧ d.toNat = c.toNat + 32) ∨
    (d.isUpper = true ∧ c.toNat = d.toNat + 32)

theorem isUpper_iff {c : Char} : c.isUpper = true ↔ 65 ≤ c.toNat ∧ c.toNat ≤ 90 := by
  have hupper : c.isUpper = true ↔ 'A'.val ≤ c.val ∧ c.val ≤ 'Z'.val := decide_eq_true_iff
  rw [hupper, UInt32.le_iff_toNat_le, UInt32.le_iff_toNat_le]
  rfl

/-- The small form of a letter comes 32 places after the capital one. -/
theorem toNat_toLower (c : Char) :
    c.toLower.toNat = if c.isUpper = true then c.toNat + 32 else c.toNat := by
  have hupper : c.isUpper = true ↔ c.val ≥ 'A'.val ∧ c.val ≤ 'Z'.val := decide_eq_true_iff
  rw [Char.toLower.eq_def]
  split
  · next h =>
    have hbounds := isUpper_iff.1 (hupper.2 h)
    have hsum : (c.val + 32).toNat = (c.toNat + 32) % 2 ^ 32 := UInt32.toNat_add _ _
    rw [if_pos (hupper.2 h)]
    exact hsum.trans (Nat.mod_eq_of_lt (by omega))
  · next h => rw [if_neg (mt hupper.1 h)]

theorem toLower_eq_iff {c d : Char} : c.toLower = d.toLower ↔ SameLetter c d := by
  rw [← Char.toNat_inj, toNat_toLower, toNat_toLower, SameLetter, ← Char.toNat_inj]
  simp only [isUpper_iff]
  split <;> split <;> omega

/-- A small letter has no other small form. -/
theorem toLower_toLower (c : Char) : c.toLower.toLower = c.toLower := by
  rw [toLower_eq_iff, SameLetter, ← Char.toNat_inj, toNat_toLower]
  split
  · next h => exact .inr (.inr ⟨h, rfl⟩)
  · exact .inl rfl

theorem SameLetter.eq_of_outside {c d : Char} (h : SameLetter c d)
    (hout : 128 ≤ c.toNat ∨ 128 ≤ d.toNat) : c = d := by
  rcases h with h | ⟨h, heq⟩ | ⟨h, heq⟩
  · exact h
  · have := isUpper_iff.1 h
    omega
  · have := isUpper_iff.1 h
    omega

/-! ## Names -/

/-- Names that agree place by place, up to the case of ASCII letters. -/
def SameName (s t : String) : Prop := List.Forall₂ SameLetter s.toList t.toList

/-- The characters of a name that are not ASCII. -/
def outsideAscii (s : String) : List Char := s.toList.filter fun c => 128 ≤ c.toNat

variable {s t : String}

/-- Names have equal small letters just if they are the same up to letter case. -/
theorem asciiLower_eq_iff : asciiLower s = asciiLower t ↔ SameName s t := by
  rw [asciiLower, asciiLower, String.ofList_inj, SameName, ← List.forall₂_eq_eq_eq,
    List.forall₂_map_left_iff, List.forall₂_map_right_iff]
  simp only [toLower_eq_iff]

instance (s t : String) : Decidable (SameName s t) := decidable_of_iff _ asciiLower_eq_iff

/-- A name has no other form of a character outside ASCII. -/
theorem SameName.outsideAscii_eq (h : SameName s t) : outsideAscii s = outsideAscii t := by
  rw [SameName] at h
  rw [outsideAscii, outsideAscii]
  generalize s.toList = cs at h ⊢
  generalize t.toList = ds at h ⊢
  induction h with
  | nil => rfl
  | @cons c d _ _ hcd _ ih =>
    by_cases hout : 128 ≤ c.toNat ∨ 128 ≤ d.toNat
    · rw [hcd.eq_of_outside hout, List.filter_cons, List.filter_cons, ih]
    · rw [not_or] at hout
      rw [List.filter_cons_of_neg (by simpa using hout.1),
        List.filter_cons_of_neg (by simpa using hout.2), ih]

end OData.Text

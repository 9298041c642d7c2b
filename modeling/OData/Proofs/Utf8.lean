import OData.Text.Utf8

/-!
# Bytes read back

The bytes of a text read as that text (`ofUtf8_utf8`).  A character of several
bytes leaves the machine in the middle of a character after each byte but the
last, and the bounds of the machine are just those of the bytes that are
written.
-/

namespace OData.Text

theorem utf8_cons (c : Char) (cs : List Char) :
    utf8 (c :: cs) = String.utf8EncodeChar c ++ utf8 cs := List.flatMap_cons

theorem utf8_append (cs ds : List Char) : utf8 (cs ++ ds) = utf8 cs ++ utf8 ds :=
  List.flatMap_append

/-- A character of ASCII is one byte. -/
theorem utf8EncodeChar_ascii {c : Char} (h : c.toNat < 0x80) :
    String.utf8EncodeChar c = [UInt8.ofNat c.toNat] := by
  have hle : c.val.toNat ≤ 0x7f := Nat.le_of_lt_succ h
  rw [String.utf8EncodeChar]
  exact if_pos hle

/-! ## One byte -/

section Machine

variable {b : UInt8} {bs : List UInt8} {lower upper code : Nat}

theorem ofUtf8After_cons (begun : Option Unfinished) (b : UInt8) (bs : List UInt8) :
    ofUtf8After begun (b :: bs) =
      (nextByte begun b).1 ++ ofUtf8After (nextByte begun b).2 bs := rfl

/-- The last byte completes a character. -/
theorem ofUtf8After_last (h : lower ≤ b.toNat ∧ b.toNat ≤ upper) :
    ofUtf8After (some ⟨1, lower, upper, code⟩) (b :: bs) =
      Char.ofNat (code * 64 + (b.toNat - 0x80)) :: ofUtf8 bs := by
  have hnext : nextByte (some ⟨1, lower, upper, code⟩) b =
      ([Char.ofNat (code * 64 + (b.toNat - 0x80))], none) := by
    simp [nextByte, h]
  rw [ofUtf8After_cons, hnext]
  rfl

/-- Any other byte goes on with it. -/
theorem ofUtf8After_more {needed : Nat} (h : lower ≤ b.toNat ∧ b.toNat ≤ upper) :
    ofUtf8After (some ⟨needed + 2, lower, upper, code⟩) (b :: bs) =
      ofUtf8After (some ⟨needed + 1, 0x80, 0xbf, code * 64 + (b.toNat - 0x80)⟩) bs := by
  have hnext : nextByte (some ⟨needed + 2, lower, upper, code⟩) b =
      ([], some ⟨needed + 1, 0x80, 0xbf, code * 64 + (b.toNat - 0x80)⟩) := by
    simp [nextByte, h]
  rw [ofUtf8After_cons, hnext]
  rfl

theorem ofUtf8After_start {begun : Unfinished} (h : startByte b = ([], some begun)) :
    ofUtf8After none (b :: bs) = ofUtf8After (some begun) bs := by
  rw [ofUtf8After_cons, nextByte, h]
  rfl

/-- The byte written for a number below 256 is that number. -/
theorem toNat_ofNat_byte {n : Nat} (h : n < 256) : (UInt8.ofNat n).toNat = n :=
  UInt8.toNat_ofNat_of_lt h

end Machine

/-! ## One character -/

section Characters

variable {c : Char} (bs : List UInt8)

theorem ofUtf8_two (hl : 0x80 ≤ c.toNat) (hu : c.toNat ≤ 0x7ff) :
    ofUtf8 (String.utf8EncodeChar c ++ bs) = c :: ofUtf8 bs := by
  have hbytes : String.utf8EncodeChar c =
      [UInt8.ofNat (c.toNat / 64 % 0x20 + 0xc0), UInt8.ofNat (c.toNat % 0x40 + 0x80)] := by
    rw [String.utf8EncodeChar]
    exact (if_neg (Nat.not_le.2 hl)).trans (if_pos hu)
  have hfirst := toNat_ofNat_byte (by omega : c.toNat / 64 % 0x20 + 0xc0 < 256)
  have hsecond := toNat_ofNat_byte (by omega : c.toNat % 0x40 + 0x80 < 256)
  have hstart : startByte (UInt8.ofNat (c.toNat / 64 % 0x20 + 0xc0)) =
      ([], some ⟨1, 0x80, 0xbf, c.toNat / 64⟩) := by
    have hcode : c.toNat / 64 % 0x20 + 0xc0 - 0xc0 = c.toNat / 64 := by omega
    simp only [startByte, hfirst]
    rw [if_neg (by omega), if_pos (by simp; omega), hcode]
  have hvalue : c.toNat / 64 * 64 + (c.toNat % 0x40 + 0x80 - 0x80) = c.toNat := by omega
  rw [hbytes, ofUtf8, List.cons_append, List.cons_append, ofUtf8After_start hstart,
    ofUtf8After_last (by omega), hsecond, hvalue, Char.ofNat_toNat, List.nil_append]

theorem ofUtf8_three (hl : 0x800 ≤ c.toNat) (hu : c.toNat ≤ 0xffff) :
    ofUtf8 (String.utf8EncodeChar c ++ bs) = c :: ofUtf8 bs := by
  have hvalid : c.toNat < 0xd800 ∨ 0xdfff < c.toNat := by
    rcases c.valid with h | ⟨h, -⟩
    · exact .inl h
    · exact .inr h
  have hbytes : String.utf8EncodeChar c =
      [UInt8.ofNat (c.toNat / 4096 % 0x10 + 0xe0), UInt8.ofNat (c.toNat / 64 % 0x40 + 0x80),
        UInt8.ofNat (c.toNat % 0x40 + 0x80)] := by
    rw [String.utf8EncodeChar]
    exact (if_neg (by change ¬ c.toNat ≤ 0x7f; omega)).trans
      ((if_neg (by change ¬ c.toNat ≤ 0x7ff; omega)).trans (if_pos hu))
  have hfirst := toNat_ofNat_byte (by omega : c.toNat / 4096 % 0x10 + 0xe0 < 256)
  have hsecond := toNat_ofNat_byte (by omega : c.toNat / 64 % 0x40 + 0x80 < 256)
  have hthird := toNat_ofNat_byte (by omega : c.toNat % 0x40 + 0x80 < 256)
  -- The second byte has bounds of its own after the least and the surrogate first byte.
  have hstart : ∃ lower upper, startByte (UInt8.ofNat (c.toNat / 4096 % 0x10 + 0xe0)) =
        ([], some ⟨2, lower, upper, c.toNat / 4096⟩) ∧
      lower ≤ c.toNat / 64 % 0x40 + 0x80 ∧ c.toNat / 64 % 0x40 + 0x80 ≤ upper := by
    have hcode : c.toNat / 4096 % 0x10 + 0xe0 - 0xe0 = c.toNat / 4096 := by omega
    simp only [startByte, hfirst]
    rw [if_neg (by omega), if_neg (by simp)]
    by_cases he0 : c.toNat / 4096 = 0
    · rw [if_pos (by omega), he0]
      exact ⟨_, _, rfl, by omega, by omega⟩
    · rw [if_neg (by omega)]
      by_cases hed : c.toNat / 4096 = 0xd
      · rw [if_pos (by omega), hed]
        exact ⟨_, _, rfl, by omega, by omega⟩
      · rw [if_neg (by omega), if_pos (by simp; omega), hcode]
        exact ⟨_, _, rfl, by omega, by omega⟩
  obtain ⟨lower, upper, hstart, hlower, hupper⟩ := hstart
  have hvalue : (c.toNat / 4096 * 64 + (c.toNat / 64 % 0x40 + 0x80 - 0x80)) * 64 +
      (c.toNat % 0x40 + 0x80 - 0x80) = c.toNat := by omega
  rw [hbytes, ofUtf8, List.cons_append, List.cons_append, List.cons_append,
    ofUtf8After_start hstart, ofUtf8After_more (by omega), hsecond, ofUtf8After_last (by omega),
    hthird, hvalue, Char.ofNat_toNat, List.nil_append]

theorem ofUtf8_four (hl : 0x10000 ≤ c.toNat) :
    ofUtf8 (String.utf8EncodeChar c ++ bs) = c :: ofUtf8 bs := by
  have hvalid : c.toNat < 0x110000 := by
    rcases c.valid with h | ⟨-, h⟩
    · exact Nat.lt_trans h (by decide)
    · exact h
  have hbytes : String.utf8EncodeChar c =
      [UInt8.ofNat (c.toNat / 262144 % 0x08 + 0xf0), UInt8.ofNat (c.toNat / 4096 % 0x40 + 0x80),
        UInt8.ofNat (c.toNat / 64 % 0x40 + 0x80), UInt8.ofNat (c.toNat % 0x40 + 0x80)] := by
    rw [String.utf8EncodeChar]
    exact (if_neg (by change ¬ c.toNat ≤ 0x7f; omega)).trans
      ((if_neg (by change ¬ c.toNat ≤ 0x7ff; omega)).trans
        (if_neg (by change ¬ c.toNat ≤ 0xffff; omega)))
  have hfirst := toNat_ofNat_byte (by omega : c.toNat / 262144 % 0x08 + 0xf0 < 256)
  have hsecond := toNat_ofNat_byte (by omega : c.toNat / 4096 % 0x40 + 0x80 < 256)
  have hthird := toNat_ofNat_byte (by omega : c.toNat / 64 % 0x40 + 0x80 < 256)
  have hfourth := toNat_ofNat_byte (by omega : c.toNat % 0x40 + 0x80 < 256)
  have hstart : ∃ lower upper, startByte (UInt8.ofNat (c.toNat / 262144 % 0x08 + 0xf0)) =
        ([], some ⟨3, lower, upper, c.toNat / 262144⟩) ∧
      lower ≤ c.toNat / 4096 % 0x40 + 0x80 ∧ c.toNat / 4096 % 0x40 + 0x80 ≤ upper := by
    have hcode : c.toNat / 262144 % 0x08 + 0xf0 - 0xf0 = c.toNat / 262144 := by omega
    simp only [startByte, hfirst]
    rw [if_neg (by omega), if_neg (by simp), if_neg (by omega), if_neg (by omega),
      if_neg (by simp)]
    by_cases hf0 : c.toNat / 262144 = 0
    · rw [if_pos (by omega), hf0]
      exact ⟨_, _, rfl, by omega, by omega⟩
    · rw [if_neg (by omega)]
      by_cases hf4 : c.toNat / 262144 = 4
      · rw [if_pos (by omega), hf4]
        exact ⟨_, _, rfl, by omega, by omega⟩
      · rw [if_neg (by omega), if_pos (by simp; omega), hcode]
        exact ⟨_, _, rfl, by omega, by omega⟩
  obtain ⟨lower, upper, hstart, hlower, hupper⟩ := hstart
  have hvalue : ((c.toNat / 262144 * 64 + (c.toNat / 4096 % 0x40 + 0x80 - 0x80)) * 64 +
      (c.toNat / 64 % 0x40 + 0x80 - 0x80)) * 64 + (c.toNat % 0x40 + 0x80 - 0x80) = c.toNat := by
    omega
  rw [hbytes, ofUtf8, List.cons_append, List.cons_append, List.cons_append, List.cons_append,
    ofUtf8After_start hstart, ofUtf8After_more (by omega), hsecond, ofUtf8After_more (by omega),
    hthird, ofUtf8After_last (by omega), hfourth, hvalue, Char.ofNat_toNat, List.nil_append]

/-- The bytes of a character read as that character. -/
theorem ofUtf8_append : ofUtf8 (String.utf8EncodeChar c ++ bs) = c :: ofUtf8 bs := by
  rcases Nat.lt_or_ge c.toNat 0x80 with h | h
  · have hbyte := toNat_ofNat_byte (by omega : c.toNat < 256)
    have hstart : startByte (UInt8.ofNat c.toNat) = ([c], none) := by
      simp only [startByte, hbyte]
      rw [if_pos h, Char.ofNat_toNat]
    rw [utf8EncodeChar_ascii h, ofUtf8, List.cons_append, ofUtf8After_cons, nextByte, hstart]
    rfl
  · rcases Nat.lt_or_ge c.toNat 0x800 with h' | h'
    · exact ofUtf8_two bs h (by omega)
    · rcases Nat.lt_or_ge c.toNat 0x10000 with h'' | h''
      · exact ofUtf8_three bs h' (by omega)
      · exact ofUtf8_four bs h''

end Characters

/-- The bytes of a text read as that text. -/
theorem ofUtf8_utf8 (cs : List Char) : ofUtf8 (utf8 cs) = cs := by
  induction cs with
  | nil => rfl
  | cons c cs ih => rw [utf8_cons, ofUtf8_append, ih]

end OData.Text

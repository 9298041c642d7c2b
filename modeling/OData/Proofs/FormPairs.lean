import OData.Proofs.Cutting
import OData.Proofs.Digits
import OData.Proofs.Utf8
import OData.Url.Form

/-!
# Form-encoded pairs read back

A key or a value is read back from its bytes, each of which is written as
itself, as a plus or as an escape (`decodeComponent_encodeComponent`).  The
marks between keys, values and pairs do not occur in them, so pairs are read
back too (`readPairs_writePairs`).
-/

namespace OData.Url

/-! ## Escapes -/

/-- A digit of an escape, as it is written. -/
def escapeDigit (n : Nat) : Char := (Nat.digitChar n).toUpper

theorem percentByte_eq (b : UInt8) :
    percentByte b = ['%', escapeDigit (b.toNat / 16), escapeDigit (b.toNat % 16)] := rfl

/-- A digit of an escape is a capital hexadecimal digit of ASCII with its value. -/
theorem escapeDigit_spec : ∀ n, n < 16 →
    (escapeDigit n).isAlphanum = true ∧ (escapeDigit n).isLower = false ∧
      String.utf8EncodeChar (escapeDigit n) = [UInt8.ofNat (escapeDigit n).toNat] ∧
      UInt8.ofNat (escapeDigit n).toNat ≠ 0x2b ∧
      hexValue? (UInt8.ofNat (escapeDigit n).toNat) = some n := by decide

theorem toNat_div_lt (b : UInt8) : b.toNat / 16 < 16 := by
  have := b.toNat_lt
  omega

theorem toNat_mod_lt (b : UInt8) : b.toNat % 16 < 16 := Nat.mod_lt _ (by decide)

/-- A byte that is no percent sign stands for itself. -/
theorem percentDecode_cons {b : UInt8} (h : b ≠ 0x25) (bs : List UInt8) :
    percentDecode (b :: bs) = b :: percentDecode bs := by
  match bs with
  | [] => rfl
  | [_] => rfl
  | _ :: _ :: _ => rw [percentDecode, if_neg h]

/-- Bytes without a percent sign stand for themselves. -/
theorem percentDecode_eq_self {bs : List UInt8} (h : ∀ b ∈ bs, b ≠ 0x25) :
    percentDecode bs = bs := by
  induction bs with
  | nil => rfl
  | cons b bs ih =>
    rw [percentDecode_cons (h b (by simp)), ih fun c hc => h c (List.mem_cons_of_mem _ hc)]

/-- An escape stands for its byte. -/
theorem percentDecode_escape (b : UInt8) (bs : List UInt8) :
    percentDecode (Text.utf8 (percentByte b) ++ bs) = b :: percentDecode bs := by
  obtain ⟨-, -, hhigh, -, hhighValue⟩ := escapeDigit_spec _ (toNat_div_lt b)
  obtain ⟨-, -, hlow, -, hlowValue⟩ := escapeDigit_spec _ (toNat_mod_lt b)
  have hpercent : String.utf8EncodeChar '%' = [0x25] := by decide
  have hbytes : Text.utf8 (percentByte b) = [0x25, UInt8.ofNat (escapeDigit (b.toNat / 16)).toNat,
      UInt8.ofNat (escapeDigit (b.toNat % 16)).toNat] := by
    simp [percentByte_eq, Text.utf8, hpercent, hhigh, hlow]
  have hvalue : UInt8.ofNat (b.toNat / 16 * 16 + b.toNat % 16) = b := by
    rw [Nat.div_add_mod', UInt8.ofNat_toNat]
  simp only [hbytes, List.cons_append, List.nil_append, percentDecode, hhighValue, hlowValue,
    if_true, hvalue]

/-! ## Components -/

/-- A byte with a plus read as a blank. -/
def unplus (b : UInt8) : UInt8 := if b = 0x2b then 0x20 else b

theorem decodeComponent_eq (cs : List Char) :
    decodeComponent cs =
      String.ofList (Text.ofUtf8 (percentDecode ((Text.utf8 cs).map unplus))) := rfl

/-- The character of a plain byte has that byte alone. -/
theorem utf8_plainByte {b : UInt8} (h : isPlainByte b = true) :
    Text.utf8 [Char.ofNat b.toNat] = [b] ∧ b ≠ 0x25 ∧ unplus b = b := by
  have hne (d : UInt8) (hd : isPlainByte d = false) : b ≠ d := by
    rintro rfl
    rw [h] at hd
    cases hd
  have hnat : (Char.ofNat b.toNat).toNat = b.toNat := by
    rw [Char.ofNat, dif_pos (.inl (Nat.lt_trans b.toNat_lt (by decide)))]
    rfl
  have hlt : b.toNat < 0x80 := by
    simp only [isPlainByte, Bool.or_eq_true, decide_eq_true_eq] at h
    rw [← hnat]
    rcases h with (((h | h) | h) | h) | h
    · have hbounds := Decimal.bounds_of_isAlphanum h
      omega
    · rw [h]; decide
    · rw [h]; decide
    · rw [h]; decide
    · rw [h]; decide
  refine ⟨?_, hne 0x25 (by decide), if_neg (hne 0x2b (by decide))⟩
  rw [Text.utf8, List.flatMap_singleton, Text.utf8EncodeChar_ascii (by rwa [hnat]), hnat,
    UInt8.ofNat_toNat]

/-- What is written for a byte is read as that byte. -/
theorem percentDecode_writeByte (b : UInt8) (bs : List UInt8) :
    percentDecode ((Text.utf8 (writeByte b)).map unplus ++ bs) = b :: percentDecode bs := by
  rw [writeByte]
  split
  case isTrue h =>
    obtain ⟨hbytes, hpercent, hplus⟩ := utf8_plainByte h
    rw [hbytes, List.map_singleton, hplus, List.singleton_append, percentDecode_cons hpercent]
  case isFalse =>
    split
    case isTrue h =>
      subst h
      have hbytes : (Text.utf8 ['+']).map unplus = [0x20] := by decide
      rw [hbytes, List.singleton_append, percentDecode_cons (by decide)]
    case isFalse =>
      obtain ⟨-, -, hhigh, hhighPlus, -⟩ := escapeDigit_spec _ (toNat_div_lt b)
      obtain ⟨-, -, hlow, hlowPlus, -⟩ := escapeDigit_spec _ (toNat_mod_lt b)
      have hpercent : String.utf8EncodeChar '%' = [0x25] := by decide
      have hunplus : (Text.utf8 (percentByte b)).map unplus = Text.utf8 (percentByte b) := by
        simp [percentByte_eq, Text.utf8, hpercent, hhigh, hlow, unplus, hhighPlus, hlowPlus]
      rw [hunplus, percentDecode_escape]

/-- A key or a value is read back. -/
theorem decodeComponent_encodeComponent (s : String) :
    decodeComponent (encodeComponent s) = s := by
  have hbytes (bs : List UInt8) :
      percentDecode ((Text.utf8 (bs.flatMap writeByte)).map unplus) = bs := by
    induction bs with
    | nil => rfl
    | cons b bs ih =>
      rw [List.flatMap_cons, Text.utf8_append, List.map_append, percentDecode_writeByte, ih]
  rw [decodeComponent_eq, encodeComponent, hbytes, Text.ofUtf8_utf8, String.ofList_toList]

/-! ## The characters of a query -/

/-- Whether a character may stand in a written key or value. -/
def isFormChar (c : Char) : Bool :=
  c.isAlphanum || c = '*' || c = '-' || c = '.' || c = '_' || c = '+' || c = '%'

theorem isFormChar_of_mem_percentByte {b : UInt8} {c : Char} (h : c ∈ percentByte b) :
    isFormChar c = true := by
  obtain ⟨hhigh, -⟩ := escapeDigit_spec _ (toNat_div_lt b)
  obtain ⟨hlow, -⟩ := escapeDigit_spec _ (toNat_mod_lt b)
  rw [percentByte_eq] at h
  simp only [List.mem_cons, List.not_mem_nil, or_false] at h
  rcases h with rfl | rfl | rfl
  · decide
  · simp [isFormChar, hhigh]
  · simp [isFormChar, hlow]

theorem isFormChar_of_mem_encodeComponent {s : String} {c : Char}
    (h : c ∈ encodeComponent s) : isFormChar c = true := by
  obtain ⟨b, -, hc⟩ := List.mem_flatMap.1 h
  rw [writeByte] at hc
  split at hc
  case isTrue hb =>
    obtain rfl := List.mem_singleton.1 hc
    simp only [isPlainByte, Bool.or_eq_true, decide_eq_true_eq] at hb
    simp only [isFormChar, Bool.or_eq_true, decide_eq_true_eq]
    exact .inl (.inl hb)
  case isFalse =>
    split at hc
    · obtain rfl := List.mem_singleton.1 hc
      decide
    · exact isFormChar_of_mem_percentByte hc

theorem ne_of_isFormChar {c d : Char} (h : isFormChar c = true) (hd : isFormChar d = false) :
    c ≠ d := by
  rintro rfl
  rw [h] at hd
  cases hd

/-- A pair as it is written. -/
def writePair (pair : String × String) : List Char :=
  encodeComponent pair.1 ++ '=' :: encodeComponent pair.2

theorem writePairs_eq (pairs : List (String × String)) :
    (writePairs pairs).toList = ['&'].intercalate (pairs.map writePair) := by
  rw [writePairs, String.toList_ofList]
  rfl

theorem mem_writePair {pair : String × String} {c : Char} (h : c ∈ writePair pair) :
    isFormChar c = true ∨ c = '=' := by
  rcases List.mem_append.1 h with h | h
  · exact .inl (isFormChar_of_mem_encodeComponent h)
  · rcases List.mem_cons.1 h with rfl | h
    · exact .inr rfl
    · exact .inl (isFormChar_of_mem_encodeComponent h)

/-- The characters of a query are those of its keys and values and the two marks. -/
theorem mem_writePairs {pairs : List (String × String)} {c : Char}
    (h : c ∈ (writePairs pairs).toList) : isFormChar c = true ∨ c = '=' ∨ c = '&' := by
  rw [writePairs_eq] at h
  induction pairs with
  | nil => cases h
  | cons pair pairs ih =>
    cases pairs with
    | nil =>
      rw [List.map_singleton, List.intercalate_singleton] at h
      rcases mem_writePair h with h | h
      · exact .inl h
      · exact .inr (.inl h)
    | cons next pairs =>
      rw [List.map_cons, List.map_cons, List.intercalate_cons_cons, List.append_assoc] at h
      rcases List.mem_append.1 h with h | h
      · rcases mem_writePair h with h | h
        · exact .inl h
        · exact .inr (.inl h)
      · rcases List.mem_cons.1 h with rfl | h
        · exact .inr (.inr rfl)
        · exact ih h

/-! ## Pairs -/

/-- A pair is read from a piece of a query. -/
def readPair (piece : List Char) : String × String :=
  match Text.cutAt? (· = '=') piece with
  | some (key, value) => (decodeComponent key, decodeComponent value)
  | none => (decodeComponent piece, "")

theorem readPairs_eq (query : String) :
    readPairs query =
      ((Text.pieces '&' query.toList).filter fun piece => !piece.isEmpty).map readPair := rfl

theorem readPair_writePair (pair : String × String) : readPair (writePair pair) = pair := by
  have hkey : ∀ c ∈ encodeComponent pair.1, decide (c = '=') = false := by
    intro c hc
    exact decide_eq_false (ne_of_isFormChar (isFormChar_of_mem_encodeComponent hc) (by decide))
  rw [readPair, writePair, Text.cutAt?_append hkey (by decide)]
  simp only [decodeComponent_encodeComponent]

/-- Pairs are read back from the query that they are written as. -/
theorem readPairs_writePairs (pairs : List (String × String)) :
    readPairs (writePairs pairs) = pairs := by
  rw [readPairs_eq, writePairs_eq]
  by_cases hne : pairs = []
  · subst hne
    rfl
  · have hmark : ∀ piece ∈ pairs.map writePair, '&' ∉ piece := by
      intro piece hpiece hmem
      obtain ⟨pair, -, rfl⟩ := List.mem_map.1 hpiece
      rcases mem_writePair hmem with h | h
      · cases h
      · cases h
    have hfilter : (pairs.map writePair).filter (fun piece => !piece.isEmpty) =
        pairs.map writePair := by
      rw [List.filter_eq_self]
      intro piece hpiece
      obtain ⟨pair, -, rfl⟩ := List.mem_map.1 hpiece
      simp [writePair]
    rw [Text.pieces_intercalate (by simpa using hne) hmark, hfilter, List.map_map]
    have hround : readPair ∘ writePair = id := funext readPair_writePair
    rw [hround, List.map_id]

end OData.Url

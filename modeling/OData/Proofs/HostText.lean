import OData.Proofs.AddressText
import OData.Proofs.Digits
import OData.Proofs.FormPairs
import OData.Proofs.LetterCase
import OData.Url.Reader

/-!
# Hosts read back

A host that was read is *normal*: it reads as itself, none of its characters
ends a host, and a colon behind it is found (`isHost_of_readHost?`).  There are
three kinds of normal hosts: small names, addresses of four bytes, and addresses
of eight pieces in brackets.
-/

namespace OData.Url

/-- Whether a character may stand in a host, brackets and colons included. -/
def isHostChar (c : Char) : Bool :=
  0x20 < c.toNat && c.toNat < 0x7f && !(['/', '\\', '?', '#', '@'].contains c)

/-- A text that is a host and reads as itself. -/
structure IsHost (cs : List Char) : Prop where
  /-- It reads as itself. -/
  reads : readHost? cs = some (String.ofList cs)
  /-- It is not empty. -/
  ne_nil : cs ≠ []
  /-- Its characters stand in hosts. -/
  chars : ∀ c ∈ cs, isHostChar c = true
  /-- It ends at a colon behind it. -/
  ends : ∀ rest, rest.head? = some ':' ∨ rest = [] → spanHost false (cs ++ rest) = (cs, rest)

/-! ## Names -/

/-- A name goes up to a colon. -/
theorem spanHost_name {cs : List Char} (h : ∀ c ∈ cs, c ≠ ':' ∧ c ≠ '[') {rest : List Char}
    (hrest : rest.head? = some ':' ∨ rest = []) : spanHost false (cs ++ rest) = (cs, rest) := by
  induction cs with
  | nil =>
    rcases hrest with hcolon | rfl
    · cases rest with
      | nil => cases hcolon
      | cons c rest =>
        obtain rfl := Option.some.inj hcolon
        rfl
    · rfl
  | cons c cs ih =>
    obtain ⟨hcolon, hbracket⟩ := h c (by simp)
    have hcs := ih fun d hd => h d (List.mem_cons_of_mem _ hd)
    simp [spanHost, hcolon, hbracket, hcs]

/-- The bytes of a text in ASCII without a percent sign are read as the text. -/
theorem decode_ascii {cs : List Char} (h : ∀ c ∈ cs, c.toNat < 0x80 ∧ c ≠ '%') :
    Text.ofUtf8 (percentDecode (Text.utf8 cs)) = cs := by
  have hbytes : ∀ b ∈ Text.utf8 cs, b ≠ 0x25 := by
    intro b hb
    obtain ⟨c, hc, hb⟩ := List.mem_flatMap.1 hb
    obtain ⟨hascii, hpercent⟩ := h c hc
    rw [Text.utf8EncodeChar_ascii hascii] at hb
    obtain rfl := List.mem_singleton.1 hb
    intro heq
    have hnat := congrArg UInt8.toNat heq
    rw [Text.toNat_ofNat_byte (by omega)] at hnat
    exact hpercent (Char.toNat_inj.1 hnat)
  rw [percentDecode_eq_self hbytes, Text.ofUtf8_utf8]

/-- What is forbidden in a host is what may stand in no host, and the marks around addresses. -/
theorem isHostChar_of_not_forbidden {c : Char} (h : isForbiddenInHost c = false) :
    isHostChar c = true ∧ c ≠ ':' ∧ c ≠ '[' ∧ c ≠ '%' := by
  simp only [isForbiddenInHost, Bool.or_eq_false_iff, decide_eq_false_iff_not, Nat.not_le,
    List.contains_eq_mem, List.mem_cons, List.not_mem_nil, or_false, not_or] at h
  obtain ⟨⟨hlow, hhigh⟩, hmarks⟩ := h
  simp [isHostChar, hlow, hhigh, hmarks]

/-- A name that is small, allowed and no address is a host. -/
theorem isHost_name {cs : List Char} (hne : cs ≠ [])
    (hallowed : ∀ c ∈ cs, isForbiddenInHost c = false)
    (hread : readName? cs = some (String.ofList cs)) : IsHost cs where
  reads := by
    rw [readHost?]
    · exact hread
    · rintro ds rfl
      exact (isHostChar_of_not_forbidden (hallowed '[' (by simp))).2.2.1 rfl
  ne_nil := hne
  chars c hc := (isHostChar_of_not_forbidden (hallowed c hc)).1
  ends rest hrest := by
    refine spanHost_name ?_ hrest
    intro c hc
    have hspec := isHostChar_of_not_forbidden (hallowed c hc)
    exact ⟨hspec.2.1, hspec.2.2.1⟩

/-- What a text of allowed small characters is read as depends on its labels alone. -/
theorem readName?_normal {cs : List Char} (hne : cs ≠ [])
    (hallowed : ∀ c ∈ cs, isForbiddenInHost c = false) (hlower : cs.map Char.toLower = cs) :
    readName? cs =
      if ((labels cs).getLast?).any isNumericLabel then
        ((labels cs).mapM addressPart?).bind fun parts =>
          (address? 4 parts).bind fun n => some (writeAddress n)
      else some (String.ofList cs) := by
  have hascii : ∀ c ∈ cs, c.toNat < 0x80 ∧ c ≠ '%' := by
    intro c hc
    have hspec := isHostChar_of_not_forbidden (hallowed c hc)
    have hchar := hspec.1
    simp only [isHostChar, Bool.and_eq_true, decide_eq_true_eq] at hchar
    exact ⟨by omega, hspec.2.2.2⟩
  have hany : cs.any isForbiddenInHost = false := by
    rw [List.any_eq_false]
    intro c hc
    simp [hallowed c hc]
  have hempty : cs.isEmpty = false := by simpa using hne
  simp only [readName?, decode_ascii hascii, hlower, hany, hempty]
  rw [if_neg (by simp)]
  rfl

theorem isForbiddenInHost_of_isDigit {c : Char} (h : c.isDigit = true) :
    isForbiddenInHost c = false := by
  have hne (d : Char) (hd : d.isDigit = false) : c ≠ d := Decimal.ne_of_isDigit h hd
  have hbounds := Decimal.bounds_of_isDigit h
  simp [isForbiddenInHost, hne]
  omega

/-- An address of four bytes is a host. -/
theorem isHost_writeAddress {n : Nat} (h : n < 0x100000000) : IsHost (writeAddress n).toList := by
  have hmarks : ∀ part ∈ (bytesOf n).map (Nat.toDigits 10), '.' ∉ part := by
    intro part hpart hmem
    obtain ⟨m, -, rfl⟩ := List.mem_map.1 hpart
    exact absurd (Decimal.isDigit_of_mem_toDigits hmem) (by decide)
  have hpieces : Text.pieces '.' (writeAddress n).toList = (bytesOf n).map (Nat.toDigits 10) := by
    rw [toList_writeAddress]
    exact Text.pieces_intercalate (by simp [bytesOf]) hmarks
  have hdigits : ∀ c ∈ (writeAddress n).toList, c.isDigit = true ∨ c = '.' := by
    intro c hc
    by_cases hpoint : c = '.'
    · exact .inr hpoint
    · obtain ⟨part, hpart, hmem⟩ := Text.exists_piece_of_mem hc hpoint
      rw [hpieces] at hpart
      obtain ⟨m, -, rfl⟩ := List.mem_map.1 hpart
      exact .inl (Decimal.isDigit_of_mem_toDigits hmem)
  have hallowed : ∀ c ∈ (writeAddress n).toList, isForbiddenInHost c = false := by
    intro c hc
    rcases hdigits c hc with hdigit | rfl
    · exact isForbiddenInHost_of_isDigit hdigit
    · decide
  have hlower : (writeAddress n).toList.map Char.toLower = (writeAddress n).toList := by
    refine (List.map_congr_left fun c hc => ?_).trans (List.map_id _)
    rcases hdigits c hc with hdigit | rfl
    · exact Decimal.toLower_of_isDigit hdigit
    · decide
  have hlabels : labels (writeAddress n).toList = (bytesOf n).map (Nat.toDigits 10) := by
    simp only [labels, hpieces]
    rw [if_neg]
    simp [bytesOf]
  have hnumeric : isNumericLabel (Nat.toDigits 10 (n % 256)) = true := by
    have hall : (Nat.toDigits 10 (n % 256)).all Char.isDigit = true :=
      List.all_eq_true.2 fun c hc => Decimal.isDigit_of_mem_toDigits hc
    simp [isNumericLabel, hall]
  have hlast : ((labels (writeAddress n).toList).getLast?).any isNumericLabel = true := by
    rw [hlabels]
    simp [bytesOf, hnumeric]
  have hparts : (labels (writeAddress n).toList).mapM addressPart? = some (bytesOf n) := by
    rw [hlabels]
    simp [bytesOf, addressPart?_toDigits]
  have hne : (writeAddress n).toList ≠ [] := by
    rw [toList_writeAddress]
    simp [bytesOf, List.map_cons]
  refine isHost_name hne hallowed ?_
  rw [readName?_normal hne hallowed hlower, if_pos hlast, hparts, Option.bind_some,
    address?_bytes h, Option.bind_some, String.ofList_toList]

/-- A name that was read is a host. -/
theorem isHost_of_readName? {cs : List Char} {host : String} (h : readName? cs = some host) :
    IsHost host.toList := by
  simp only [readName?] at h
  generalize hname : (Text.ofUtf8 (percentDecode (Text.utf8 cs))).map Char.toLower = name at h
  split at h
  case isTrue => cases h
  case isFalse hbad =>
    simp only [Bool.or_eq_true, List.isEmpty_iff, List.any_eq_true, not_or, not_exists, not_and,
      Bool.not_eq_true] at hbad
    obtain ⟨hne, hallowed⟩ := hbad
    have hlower : name.map Char.toLower = name := by
      rw [← hname, List.map_map]
      exact List.map_congr_left fun c _ => Text.toLower_toLower c
    split at h
    case isTrue =>
      obtain ⟨parts, -, h⟩ := Option.bind_eq_some_iff.1 h
      obtain ⟨n, hn, h⟩ := Option.bind_eq_some_iff.1 h
      cases h
      exact isHost_writeAddress (lt_of_address? hn)
    case isFalse hnumeric =>
      cases h
      rw [String.toList_ofList]
      refine isHost_name hne hallowed ?_
      rw [readName?_normal hne hallowed hlower, if_neg hnumeric]

/-! ## Brackets -/

/-- Between brackets a host goes up to the closing one. -/
theorem spanHost_inside {body : List Char} (h : ∀ c ∈ body, c ≠ ']') {rest : List Char}
    (hrest : rest.head? = some ':' ∨ rest = []) :
    spanHost true (body ++ ']' :: rest) = (body ++ [']'], rest) := by
  induction body with
  | nil =>
    have hafter := @spanHost_name [] (by simp) rest hrest
    rw [List.nil_append] at hafter
    simp [spanHost, hafter]
  | cons c body ih =>
    have hc : c ≠ ']' := h c (by simp)
    have hbody := ih fun d hd => h d (List.mem_cons_of_mem _ hd)
    simp [spanHost, hc, hbody]

theorem toList_writeLongAddress (pieces : List Nat) :
    ∀ c ∈ (writeLongAddress pieces).toList, c = ':' ∨ c.isAlphanum = true := by
  have hjoined {ns : List Nat} {c : Char} (h : c ∈ (joinPieces ns).toList) :
      c = ':' ∨ c.isAlphanum = true := by
    rw [toList_joinPieces] at h
    exact (mem_joined h).imp_right And.right
  intro c hc
  simp only [writeLongAddress] at hc
  split at hc
  · exact hjoined hc
  · rw [String.toList_append, String.toList_append] at hc
    rcases List.mem_append.1 hc with hc | hc
    · rcases List.mem_append.1 hc with hc | hc
      · exact hjoined hc
      · have hcolons : "::".toList = [':', ':'] := rfl
        rw [hcolons] at hc
        simp only [List.mem_cons, List.not_mem_nil, or_false, or_self] at hc
        exact .inl hc
    · exact hjoined hc

theorem isHostChar_of_isAlphanum {c : Char} (h : c.isAlphanum = true) : isHostChar c = true := by
  have hne (d : Char) (hd : d.isAlphanum = false) : c ≠ d := Decimal.ne_of_isAlphanum h hd
  have hbounds := Decimal.bounds_of_isAlphanum h
  simp only [isHostChar, List.contains_eq_mem, List.mem_cons, List.not_mem_nil, or_false,
    hne '/' (by decide), hne '\\' (by decide), hne '?' (by decide), hne '#' (by decide),
    hne '@' (by decide)]
  simp only [decide_false, Bool.not_false, Bool.and_true, Bool.and_eq_true, decide_eq_true_eq]
  omega

/-- An address of eight pieces in brackets is a host. -/
theorem isHost_writeLongAddress {pieces : List Nat} (hlength : pieces.length = 8)
    (h : ∀ n ∈ pieces, n < 0x10000) :
    IsHost ('[' :: ((writeLongAddress pieces).toList ++ [']'])) where
  reads := by
    have hlast : ((writeLongAddress pieces).toList ++ [']']).getLast? = some ']' := by simp
    rw [readHost?, if_pos hlast, List.dropLast_concat, readLongAddress?_writeLongAddress hlength h,
      Option.map_some]
    congr 1
    rw [← String.toList_inj]
    simp
  ne_nil := by simp
  chars c hc := by
    rcases List.mem_cons.1 hc with rfl | hc
    · decide
    · rcases List.mem_append.1 hc with hc | hc
      · rcases toList_writeLongAddress pieces c hc with rfl | hc
        · decide
        · exact isHostChar_of_isAlphanum hc
      · obtain rfl := List.mem_singleton.1 hc
        decide
  ends rest hrest := by
    have hbody : ∀ c ∈ (writeLongAddress pieces).toList, c ≠ ']' := by
      rintro c hc rfl
      rcases toList_writeLongAddress pieces ']' hc with h | h
      · cases h
      · cases h
    have hinside := spanHost_inside hbody hrest
    simp [spanHost, hinside]

/-- A host that was read is a host. -/
theorem isHost_of_readHost? {cs : List Char} {host : String} (h : readHost? cs = some host) :
    IsHost host.toList := by
  rw [readHost?.eq_def] at h
  split at h
  case h_1 cs =>
    split at h
    case isTrue =>
      obtain ⟨pieces, hpieces, rfl⟩ := Option.map_eq_some_iff.1 h
      obtain ⟨hlength, hlt⟩ := readLongAddress?_spec hpieces
      have hhost := isHost_writeLongAddress hlength hlt
      simpa using hhost
    case isFalse => cases h
  case h_2 => exact isHost_of_readName? h

end OData.Url

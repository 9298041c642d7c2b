import OData.Proofs.FormPairs
import OData.Url.Reader

/-!
# Paths read back

A text that was percent-encoded holds no character of the encoded class any
more, so encoding it again changes nothing.  It stands for `.` or `..` only if
the text itself does, because no escape is that of a point.  Hence walking a path
that was walked before leaves it as it is (`readPath_segments`).
-/

namespace OData.Url

/-! ## Encoded texts -/

section Encoding

variable {encoded : Char → Bool} {cs : List Char} {c : Char}

/-- A character as it is encoded. -/
def escape (encoded : Char → Bool) (c : Char) : List Char :=
  if encoded c then (Text.utf8 [c]).flatMap percentByte else [c]

theorem encodeWhere_eq (encoded : Char → Bool) (cs : List Char) :
    encodeWhere encoded cs = String.ofList (cs.flatMap (escape encoded)) := rfl

theorem escape_of_not_encoded (h : encoded c = false) : escape encoded c = [c] := by
  rw [escape, h]
  rfl

/-- A text without characters of the class stays. -/
theorem encodeWhere_eq_self (h : ∀ c ∈ cs, encoded c = false) :
    encodeWhere encoded cs = String.ofList cs := by
  rw [encodeWhere_eq]
  congr 1
  induction cs with
  | nil => rfl
  | cons c cs ih =>
    rw [List.flatMap_cons, escape_of_not_encoded (h c (by simp)),
      ih fun d hd => h d (List.mem_cons_of_mem _ hd)]
    rfl

/-- Encoding keeps the characters outside the class, and adds those of escapes. -/
theorem mem_encodeWhere (h : c ∈ (encodeWhere encoded cs).toList) :
    c ∈ cs ∧ encoded c = false ∨ isFormChar c = true := by
  rw [encodeWhere_eq, String.toList_ofList] at h
  obtain ⟨d, hd, hc⟩ := List.mem_flatMap.1 h
  rw [escape] at hc
  split at hc
  case isTrue =>
    obtain ⟨b, -, hc⟩ := List.mem_flatMap.1 hc
    exact .inr (isFormChar_of_mem_percentByte hc)
  case isFalse hencoded =>
    obtain rfl := List.mem_singleton.1 hc
    exact .inl ⟨hd, by simpa using hencoded⟩

end Encoding

/-- The characters of escapes are encoded nowhere. -/
theorem alwaysEncoded_of_isFormChar {c : Char} (h : isFormChar c = true) :
    alwaysEncoded c = false ∧ 0x20 < c.toNat := by
  simp only [isFormChar, Bool.or_eq_true, decide_eq_true_eq] at h
  simp only [alwaysEncoded, Bool.or_eq_false_iff, decide_eq_false_iff_not]
  rcases h with (((((h | rfl) | rfl) | rfl) | rfl) | rfl) | rfl
  · have hbounds := Decimal.bounds_of_isAlphanum h
    omega
  all_goals decide

theorem contains_of_isFormChar {c : Char} (h : isFormChar c = true) {marks : List Char}
    (hmarks : marks.any isFormChar = false) : marks.contains c = false := by
  rw [List.contains_eq_mem, decide_eq_false_iff_not]
  intro hc
  rw [List.any_eq_false] at hmarks
  exact hmarks c hc h

theorem encodedInUser_of_isFormChar {c : Char} (h : isFormChar c = true) :
    encodedInUser c = false := by
  rw [encodedInUser, encodedInPath, encodedInFragment, (alwaysEncoded_of_isFormChar h).1,
    contains_of_isFormChar h, contains_of_isFormChar h, contains_of_isFormChar h]
  · rfl
  all_goals decide

theorem encodedInQuery_of_isFormChar {c : Char} (h : isFormChar c = true) :
    encodedInQuery c = false := by
  rw [encodedInQuery, (alwaysEncoded_of_isFormChar h).1, contains_of_isFormChar h]
  · rfl
  · decide

/-- What is encoded in a path is encoded in a user. -/
theorem encodedInPath_of_encodedInUser {c : Char} (h : encodedInUser c = false) :
    encodedInPath c = false := by
  rw [encodedInUser, Bool.or_eq_false_iff] at h
  exact h.1

/-- What is encoded in a fragment is encoded in a path. -/
theorem encodedInFragment_of_encodedInPath {c : Char} (h : encodedInPath c = false) :
    encodedInFragment c = false := by
  rw [encodedInPath, Bool.or_eq_false_iff] at h
  exact h.1

/-- After encoding no character of a class is left that escapes have no character of. -/
theorem not_encoded_of_mem_encodeWhere {encoded : Char → Bool}
    (hform : ∀ c, isFormChar c = true → encoded c = false) {cs : List Char} {c : Char}
    (h : c ∈ (encodeWhere encoded cs).toList) : encoded c = false := by
  rcases mem_encodeWhere h with ⟨-, h⟩ | h
  · exact h
  · exact hform c h

/-! ## Points -/

/-- Whether a text is made of points, some of them encoded. -/
def IsPoints (cs : List Char) : Prop := ∀ c ∈ decodePoints cs, c = '.'

theorem isPoints_cases {cs : List Char} (h : IsPoints cs) :
    cs = [] ∨ (∃ rest, cs = '.' :: rest ∧ IsPoints rest) ∨
      ∃ c rest, (c = 'e' ∨ c = 'E') ∧ cs = '%' :: '2' :: c :: rest ∧ IsPoints rest := by
  fun_cases decodePoints cs with
  | case1 c rest hc =>
    refine .inr (.inr ⟨c, rest, by simpa using hc, rfl, ?_⟩)
    intro d hd
    exact h d (by rw [decodePoints, if_pos hc]; exact List.mem_cons_of_mem _ hd)
  | case2 c rest hc =>
    have hpercent := h '%' (by rw [decodePoints, if_neg hc]; simp)
    cases hpercent
  | case3 c rest hother =>
    have hdecode : decodePoints (c :: rest) = c :: decodePoints rest := by
      rw [decodePoints]
      exact hother
    obtain rfl : c = '.' := h c (by rw [hdecode]; simp)
    refine .inr (.inl ⟨rest, rfl, ?_⟩)
    intro d hd
    exact h d (by rw [hdecode]; exact List.mem_cons_of_mem _ hd)
  | case4 => exact .inl rfl

/-- The first byte of a character is that of a point only if the character is one. -/
theorem exists_utf8EncodeChar {c : Char} (h : c ≠ '.') :
    ∃ b bs, String.utf8EncodeChar c = b :: bs ∧ b ≠ 0x2e := by
  have hread := Text.ofUtf8_append (c := c) []
  cases hbytes : String.utf8EncodeChar c with
  | nil =>
    rw [hbytes] at hread
    cases hread
  | cons b bs =>
    refine ⟨b, bs, rfl, ?_⟩
    rintro rfl
    have hpoint : Text.ofUtf8 (0x2e :: (bs ++ [])) = '.' :: Text.ofUtf8 (bs ++ []) := rfl
    rw [hbytes, List.cons_append, hpoint] at hread
    exact h (List.cons.inj hread).1.symm

section Points

/-- Only the escape of a point has its digits. -/
theorem escapeDigits_ne {b : Nat} (hlt : b < 256) (hb : b ≠ 0x2e) {c : Char} (hc : c = 'e' ∨ c = 'E') :
    ¬(escapeDigit (b / 16) = '2' ∧ escapeDigit (b % 16) = c) := by
  have hdigits : ∀ n, n < 16 → (escapeDigit n = '2' → n = 2) ∧ escapeDigit n ≠ 'e' ∧
      (escapeDigit n = 'E' → n = 14) := by decide
  rintro ⟨hhigh, hlow⟩
  have htwo := (hdigits (b / 16) (by omega)).1 hhigh
  obtain ⟨-, hsmall, hcapital⟩ := hdigits (b % 16) (by omega)
  rcases hc with rfl | rfl
  · exact hsmall hlow
  · have := hcapital hlow
    omega

variable {encoded : Char → Bool} (hform : ∀ c, isFormChar c = true → encoded c = false)
include hform

/-- An encoded character begins with an escape, which is not the escape of a point. -/
theorem escape_of_encoded {c : Char} (h : encoded c = true) :
    ∃ b cs, escape encoded c = '%' :: escapeDigit (b / 16) :: escapeDigit (b % 16) :: cs ∧
      b < 256 ∧ b ≠ 0x2e := by
  have hpoint : c ≠ '.' := by
    rintro rfl
    rw [hform '.' (by decide)] at h
    cases h
  obtain ⟨b, bs, hbytes, hb⟩ := exists_utf8EncodeChar hpoint
  refine ⟨b.toNat, bs.flatMap percentByte, ?_, b.toNat_lt, fun heq => hb (UInt8.toNat_inj.1 heq)⟩
  rw [escape, if_pos h, Text.utf8, List.flatMap_singleton, hbytes, List.flatMap_cons]
  rfl

/-- A character that encoding begins with is the first one, unless it is a percent sign. -/
theorem exists_cons_of_flatMap_escape {cs rest : List Char} {c : Char} (hc : c ≠ '%')
    (h : cs.flatMap (escape encoded) = c :: rest) :
    ∃ ds, cs = c :: ds ∧ ds.flatMap (escape encoded) = rest := by
  cases cs with
  | nil => cases h
  | cons d ds =>
    rw [List.flatMap_cons] at h
    cases hd : encoded d with
    | true =>
      obtain ⟨b, es, hescape, -⟩ := escape_of_encoded hform hd
      rw [hescape] at h
      exact absurd (List.cons.inj h).1.symm hc
    | false =>
      rw [escape_of_not_encoded hd] at h
      obtain ⟨rfl, hrest⟩ := List.cons.inj h
      exact ⟨ds, rfl, hrest⟩

/-- If what encoding makes is made of points, then nothing was encoded. -/
theorem not_encoded_of_isPoints (cs : List Char) (h : IsPoints (cs.flatMap (escape encoded))) :
    ∀ c ∈ cs, encoded c = false := by
  -- The letters of an escape may come from two further characters, so the induction is on the length.
  induction hlength : cs.length using Nat.strongRecOn generalizing cs with
  | _ n ih =>
    subst hlength
    cases cs with
    | nil => simp
    | cons c ds =>
      cases hc : encoded c with
      | true =>
        obtain ⟨b, es, hescape, hlt, hb⟩ := escape_of_encoded hform hc
        rw [List.flatMap_cons, hescape] at h
        rcases isPoints_cases h with h | ⟨rest, h, -⟩ | ⟨e, rest, he, h, -⟩
        · cases h
        · cases (List.cons.inj h).1
        · obtain ⟨-, h⟩ := List.cons.inj h
          obtain ⟨hhigh, h⟩ := List.cons.inj h
          obtain ⟨hlow, -⟩ := List.cons.inj h
          exact absurd ⟨hhigh, hlow⟩ (escapeDigits_ne hlt hb he)
      | false =>
        rw [List.flatMap_cons, escape_of_not_encoded hc, List.singleton_append] at h
        rcases isPoints_cases h with h | ⟨rest, h, hrest⟩ | ⟨e, rest, he, h, hrest⟩
        · cases h
        · obtain ⟨-, rfl⟩ := List.cons.inj h
          simpa [hc] using ih ds.length (by simp) ds hrest rfl
        · obtain ⟨es, rfl, hes⟩ :=
            exists_cons_of_flatMap_escape hform (by decide) (List.cons.inj h).2
          obtain ⟨ds, rfl, rfl⟩ := exists_cons_of_flatMap_escape hform
            (by rcases he with rfl | rfl <;> decide) hes
          have hletter : isFormChar e = true := by rcases he with rfl | rfl <;> decide
          simpa [hc, hform e hletter, hform '2' (by decide)] using
            ih ds.length (by simp; omega) ds hrest rfl

end Points

/-! ## Segments -/

/-- A segment that walking leaves as it is. -/
structure IsSegment (cs : List Char) : Prop where
  /-- Its characters are neither encoded nor slashes. -/
  chars : ∀ c ∈ cs, encodedInPath c = false ∧ isSlash c = false
  /-- It does not stay on its level. -/
  ne_same : decodePoints cs ≠ ['.']
  /-- It does not lead one level up. -/
  ne_up : decodePoints cs ≠ ['.', '.']

theorem isSegment_nil : IsSegment [] := ⟨nofun, nofun, nofun⟩

theorem encodedInPath_of_isFormChar {c : Char} (h : isFormChar c = true) :
    encodedInPath c = false :=
  encodedInPath_of_encodedInUser (encodedInUser_of_isFormChar h)

theorem isSlash_of_isFormChar {c : Char} (h : isFormChar c = true) : isSlash c = false := by
  have hslash : c ≠ '/' := ne_of_isFormChar h (by decide)
  have hback : c ≠ '\\' := ne_of_isFormChar h (by decide)
  simp [isSlash, hslash, hback]

theorem isSegment_encodeWhere {cs : List Char} (hslash : ∀ c ∈ cs, isSlash c = false)
    (hsame : decodePoints cs ≠ ['.']) (hup : decodePoints cs ≠ ['.', '.']) :
    IsSegment (encodeWhere encodedInPath cs).toList := by
  have hpoints {points : List Char} (hpoints : ∀ c ∈ points, c = '.')
      (h : decodePoints (encodeWhere encodedInPath cs).toList = points) :
      decodePoints cs = points := by
    have hcs : ∀ c ∈ cs, encodedInPath c = false := by
      refine not_encoded_of_isPoints (fun c hc => encodedInPath_of_isFormChar hc) cs ?_
      intro c hc
      refine hpoints c ?_
      rwa [← h, encodeWhere_eq, String.toList_ofList]
    rwa [encodeWhere_eq_self hcs, String.toList_ofList] at h
  refine ⟨?_, fun h => hsame (hpoints (by simp) h), fun h => hup (hpoints (by simp) h)⟩
  intro c hc
  rcases mem_encodeWhere hc with ⟨hmem, hencoded⟩ | hform
  · exact ⟨hencoded, hslash c hmem⟩
  · exact ⟨encodedInPath_of_isFormChar hform, isSlash_of_isFormChar hform⟩

/-! ## Walking -/

/-- The path after walking one segment. -/
def walkOne (path : List String) (segment : List Char) (isLast : Bool) : List String :=
  if decodePoints segment = ['.', '.'] then parent path ++ (if isLast then [""] else [])
  else if decodePoints segment = ['.'] then path ++ (if isLast then [""] else [])
  else path ++ [encodeWhere encodedInPath segment]

theorem walk_cons (path : List String) (segment : List Char) (rest : List (List Char)) :
    walk path (segment :: rest) = walk (walkOne path segment rest.isEmpty) rest := rfl

theorem mem_parent {path : List String} {s : String} (h : s ∈ parent path) : s ∈ path := by
  rw [parent] at h
  split at h
  · exact h
  · exact (List.dropLast_sublist path).subset h

theorem isSegment_of_mem_walkOne {path : List String} {segment : List Char} {isLast : Bool}
    (hpath : ∀ s ∈ path, IsSegment s.toList) (hslash : ∀ c ∈ segment, isSlash c = false) :
    ∀ s ∈ walkOne path segment isLast, IsSegment s.toList := by
  have hempty : ∀ s ∈ (if isLast then [""] else []), IsSegment s.toList := by
    intro s hs
    split at hs
    · obtain rfl := List.mem_singleton.1 hs
      exact isSegment_nil
    · cases hs
  intro s hs
  rw [walkOne] at hs
  split at hs
  case isTrue =>
    rcases List.mem_append.1 hs with hs | hs
    · exact hpath s (mem_parent hs)
    · exact hempty s hs
  case isFalse hup =>
    split at hs
    case isTrue =>
      rcases List.mem_append.1 hs with hs | hs
      · exact hpath s hs
      · exact hempty s hs
    case isFalse hsame =>
      rcases List.mem_append.1 hs with hs | hs
      · exact hpath s hs
      · obtain rfl := List.mem_singleton.1 hs
        exact isSegment_encodeWhere hslash hsame hup

/-- Walking leaves segments that stay when they are walked again. -/
theorem isSegment_of_mem_walk {path : List String} {segments : List (List Char)}
    (hpath : ∀ s ∈ path, IsSegment s.toList)
    (hslash : ∀ segment ∈ segments, ∀ c ∈ segment, isSlash c = false) :
    ∀ s ∈ walk path segments, IsSegment s.toList := by
  induction segments generalizing path with
  | nil => exact hpath
  | cons segment rest ih =>
    rw [walk_cons]
    refine ih ?_ fun other hother => hslash other (List.mem_cons_of_mem _ hother)
    exact isSegment_of_mem_walkOne hpath (hslash segment (by simp))

/-- The last segment is never lost. -/
theorem walk_ne_nil {path : List String} {segments : List (List Char)} (hne : segments ≠ []) :
    walk path segments ≠ [] := by
  induction segments generalizing path with
  | nil => exact absurd rfl hne
  | cons segment rest ih =>
    rw [walk_cons]
    cases rest with
    | nil =>
      rw [walk, walkOne]
      split
      · simp
      · split <;> simp
    | cons next rest => exact ih (by simp)

/-- Walked segments are walked to themselves. -/
theorem walk_segments {segments : List (List Char)} (h : ∀ segment ∈ segments, IsSegment segment)
    (path : List String) : walk path segments = path ++ segments.map String.ofList := by
  induction segments generalizing path with
  | nil => rw [walk, List.map_nil, List.append_nil]
  | cons segment rest ih =>
    obtain ⟨hchars, hsame, hup⟩ := h segment (by simp)
    have hencode := encodeWhere_eq_self fun c hc => (hchars c hc).1
    rw [walk_cons, walkOne, if_neg hup, if_neg hsame, hencode,
      ih fun other hother => h other (List.mem_cons_of_mem _ hother)]
    simp

/-- A path that was read has segments, all of which stay when they are walked again. -/
theorem readPath_spec (cs : List Char) :
    readPath cs ≠ [] ∧ ∀ s ∈ readPath cs, IsSegment s.toList := by
  refine ⟨walk_ne_nil (Text.pieces_ne_nil _ _), isSegment_of_mem_walk nofun ?_⟩
  intro segment hsegment c hc
  obtain ⟨hseparator, hmem⟩ := Text.mem_pieces hsegment
  obtain ⟨d, -, rfl⟩ := List.mem_map.1 (hmem c hc)
  split at hc
  case isTrue => exact absurd hc hseparator
  case isFalse h => rw [if_neg h]; simpa using h

/-- The segments of a path are read back from their text. -/
theorem readPath_segments {segments : List String} (hne : segments ≠ [])
    (h : ∀ s ∈ segments, IsSegment s.toList) :
    readPath ('/' :: ['/'].intercalate (segments.map String.toList)) = segments := by
  have hsegments : ∀ segment ∈ segments.map String.toList, IsSegment segment := by
    intro segment hsegment
    obtain ⟨s, hs, rfl⟩ := List.mem_map.1 hsegment
    exact h s hs
  have hslash : ∀ segment ∈ segments.map String.toList, '/' ∉ segment := by
    intro segment hsegment hmem
    cases ((hsegments segment hsegment).chars '/' hmem).2
  have hmap : (['/'].intercalate (segments.map String.toList)).map
      (fun c => if isSlash c then '/' else c) = ['/'].intercalate (segments.map String.toList) := by
    refine (List.map_congr_left fun c hc => ?_).trans (List.map_id _)
    by_cases hc' : c = '/'
    · subst hc'; rfl
    · have hpieces := Text.exists_piece_of_mem hc hc'
      rw [Text.pieces_intercalate (by simpa using hne) hslash] at hpieces
      obtain ⟨piece, hpiece, hmem⟩ := hpieces
      rw [((hsegments piece hpiece).chars c hmem).2]
      rfl
  rw [readPath, List.drop_one, List.tail_cons, hmap,
    Text.pieces_intercalate (by simpa using hne) hslash, walk_segments hsegments, List.nil_append,
    List.map_map]
  have hround : String.ofList ∘ String.toList = id := funext fun s => String.ofList_toList
  rw [hround, List.map_id]

end OData.Url

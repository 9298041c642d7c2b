/-!
# Pieces of a text

A text is cut at a separating character in three ways: into all its pieces
(`pieces`), at the first separator (`cutAt?`), or into the leading run of a
class and what follows it (`List.span`).  `pieces` keeps empty pieces, so
joining them with the separator gives the text back
(`intercalate_pieces`), and a text without a separator is one piece.

`find?` gives the place of the first occurrence of one text in another,
counted in characters.  `occurs` says whether there is one, without a place.
The empty text occurs at every place, so first at place zero.
-/

namespace OData.Text

/-! ## All pieces -/

/-- The pieces of a text between the separators, empty ones included. -/
def pieces (separator : Char) : List Char → List (List Char)
  | [] => [[]]
  | c :: cs =>
    if c = separator then [] :: pieces separator cs
    else match pieces separator cs with
      | [] => [[c]]
      | piece :: rest => (c :: piece) :: rest

/-- There is always a first piece. -/
theorem pieces_ne_nil (separator : Char) (cs : List Char) : pieces separator cs ≠ [] := by
  cases cs with
  | nil => simp [pieces]
  | cons c cs =>
    rw [pieces]
    split
    · simp
    · split <;> simp

/-- The pieces joined by the separator are the text. -/
theorem intercalate_pieces (separator : Char) (cs : List Char) :
    [separator].intercalate (pieces separator cs) = cs := by
  induction cs with
  | nil => rfl
  | cons c cs ih =>
    have hne := pieces_ne_nil separator cs
    rw [pieces]
    split
    · next h =>
      rw [List.intercalate_cons_of_ne_nil hne, ih, h]
      rfl
    · split
      · next hp => exact absurd hp hne
      · next piece rest hp => rw [List.intercalate_cons_cons_left, ← hp, ih]

/-! ## The first separator -/

/-- The text before and after the first character of a class, if there is one. -/
def cutAt? (stop : Char → Bool) : List Char → Option (List Char × List Char)
  | [] => none
  | c :: cs => if stop c then some ([], cs) else (cutAt? stop cs).map fun (l, r) => (c :: l, r)

/-- What is left after a cut is shorter than the text. -/
theorem length_lt_of_cutAt? {stop : Char → Bool} {cs l r : List Char}
    (h : cutAt? stop cs = some (l, r)) : r.length < cs.length := by
  induction cs generalizing l r with
  | nil => simp [cutAt?] at h
  | cons c cs ih =>
    rw [cutAt?] at h
    split at h
    · simp only [Option.some.injEq, Prod.mk.injEq] at h
      simp [← h.2]
    · obtain ⟨⟨l', r'⟩, hc, he⟩ := Option.map_eq_some_iff.1 h
      simp only [Prod.mk.injEq] at he
      have := ih hc
      simp only [← he.2, List.length_cons]
      omega

example : pieces ',' ['a', ',', ',', 'b'] = [['a'], [], ['b']] := by decide
example : pieces ',' [] = [[]] := by decide
example : cutAt? (· = '=') ['a', '=', 'b', '='] = some (['a'], ['b', '=']) := by decide

/-! ## Searching -/

/-- Whether `needle` stands somewhere in the text. -/
def occurs (needle : List Char) : List Char → Bool
  | [] => needle.isEmpty
  | c :: cs => needle.isPrefixOf (c :: cs) || occurs needle cs

/-- The number of characters before the first occurrence of `needle`. -/
def find? (needle : List Char) : List Char → Option Nat
  | [] => if needle.isEmpty then some 0 else none
  | c :: cs => if needle.isPrefixOf (c :: cs) then some 0 else (find? needle cs).map (· + 1)

/-- A text that occurs has a first place, and only such a text has one. -/
theorem isSome_find? (needle cs : List Char) : (find? needle cs).isSome = occurs needle cs := by
  induction cs with
  | nil => simp only [find?, occurs]; split <;> simp_all
  | cons c cs ih => simp only [find?, occurs]; split <;> simp_all

example : find? ['l', 'o'] ['h', 'e', 'l', 'l', 'o'] = some 3 := by decide
example : find? [] [] = some 0 := by decide
example : occurs ['z'] ['h', 'i'] = false := by decide

/-! ## Letter case in ASCII -/

/-- A text with the capital ASCII letters made small; other characters stay. -/
def asciiLower (s : String) : String := String.ofList (s.toList.map Char.toLower)

/-- Whether two texts agree up to the case of ASCII letters. -/
def eqIgnoringCase (s t : String) : Bool :=
  s.toList.map Char.toLower = t.toList.map Char.toLower

/-! ## Sizes -/

/-- The number of bytes of a text in UTF-8. -/
def byteLength : List Char → Nat
  | [] => 0
  | c :: cs => c.utf8Size + byteLength cs

theorem byteLength_append (cs ds : List Char) :
    byteLength (cs ++ ds) = byteLength cs + byteLength ds := by
  induction cs with
  | nil => exact (Nat.zero_add _).symm
  | cons c cs ih => rw [List.cons_append, byteLength, byteLength, ih, Nat.add_assoc]

/-- The bytes of a string are those of its characters. -/
theorem utf8ByteSize_ofList (cs : List Char) : (String.ofList cs).utf8ByteSize = byteLength cs := by
  induction cs with
  | nil => rfl
  | cons c cs ih =>
    rw [String.ofList_cons, String.utf8ByteSize_append, String.utf8ByteSize_singleton, ih]
    rfl

theorem length_le_byteLength (cs : List Char) : cs.length ≤ byteLength cs := by
  induction cs with
  | nil => exact Nat.le_refl 0
  | cons c cs ih =>
    have := c.utf8Size_pos
    simp only [List.length_cons, byteLength]
    omega

end OData.Text

import OData.Text.CaseTable

/-!
# Letter case

The small and the capital form of a text, by the full mappings of Unicode: a
character may grow into several (`ß` becomes `SS`), and the form of a capital
sigma depends on where it stands.  At the end of a word it becomes `ς`, and
elsewhere `σ`.

A sigma ends a word when a cased character stands before it, a cased character
does not stand after it, and characters of `Case_Ignorable` in between are
passed over on both sides.
-/

namespace OData.Text

/-! ## Looking up the tables -/

/-- The image of a character under the runs of a table, if a run has it. -/
def mapped? (runs : List CaseRun) (c : Char) : Option Char :=
  let n := c.toNat
  (runs.find? fun r => r.first ≤ n && n ≤ r.last && (n - r.first) % r.step = 0).map fun r =>
    Char.ofNat ((n : Int) + r.shift).toNat

/-- Whether a character lies in one of the ranges of a table. -/
def inRanges (ranges : List (Nat × Nat)) (c : Char) : Bool :=
  ranges.any fun (first, last) => first ≤ c.toNat && c.toNat ≤ last

/-- The property `Cased`: the character is a letter with case. -/
def isCased (c : Char) : Bool := inRanges casedRanges c

/-- The property `Case_Ignorable`: the character does not end a word. -/
def isCaseIgnorable (c : Char) : Bool := inRanges caseIgnorableRanges c

/-! ## Small letters -/

/-- Whether the first character that is not ignorable is cased. -/
def meetsCased (cs : List Char) : Bool :=
  match cs.dropWhile isCaseIgnorable with
  | [] => false
  | c :: _ => isCased c

/-- The small form of a capital sigma between the text before it, nearest first, and the text after it. -/
def smallSigma (before after : List Char) : Char :=
  if meetsCased before && !meetsCased after then 'ς' else 'σ'

/-- The small form of a text that follows `before`, nearest character first. -/
def toLowerAfter (before : List Char) : List Char → List Char
  | [] => []
  | c :: cs =>
    let image :=
      if c = 'Σ' then [smallSigma before cs]
      else if c = 'İ' then ['i', '\u0307']
      else [(mapped? lowerRuns c).getD c]
    image ++ toLowerAfter (c :: before) cs

/-- The small form of a text. -/
def toLower (cs : List Char) : List Char := toLowerAfter [] cs

/-! ## Capital letters -/

/-- The capital form of a character. -/
def capital (c : Char) : List Char :=
  match upperExpansions.lookup c.toNat with
  | some image => image.map Char.ofNat
  | none => [(mapped? upperRuns c).getD c]

/-- The capital form of a text. -/
def toUpper (cs : List Char) : List Char := cs.flatMap capital

end OData.Text

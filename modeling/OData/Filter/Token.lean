import OData.Text.Blank
import OData.Text.Pieces

/-!
# Tokens of a filter

The text of a filter is a sequence of lexemes: blanks, which separate, and
tokens.  A token is a parenthesis, a comma, a quoted text or a word.  A word is
a longest run of characters that are no delimiters.

A quote inside a quoted text is written twice, and the content of the token
keeps both.  Nothing is dropped: the sources of the lexemes make up the text
again (`flatten_source_of_lexemes`).
-/

namespace OData.Filter

/-! ## Lexemes -/

/-- A token of a filter. -/
inductive Token where
  /-- An opening parenthesis. -/
  | opening
  /-- A closing parenthesis. -/
  | closing
  /-- A comma. -/
  | comma
  /-- A quoted text, by what stands between its quotes. -/
  | quoted (content : String)
  /-- A word: a keyword, a literal, a name or a path. -/
  | word (w : String)
deriving DecidableEq, Repr

/-- The text of a token. -/
def Token.source : Token → List Char
  | .opening => ['(']
  | .closing => [')']
  | .comma => [',']
  | .quoted content => '\'' :: (content.toList ++ ['\''])
  | .word w => w.toList

/-- A blank or a token. -/
inductive Lexeme where
  /-- A blank between tokens. -/
  | blank (c : Char)
  /-- A token. -/
  | token (t : Token)
deriving DecidableEq, Repr

/-- The text of a lexeme. -/
def Lexeme.source : Lexeme → List Char
  | .blank c => [c]
  | .token t => t.source

/-- The token of a lexeme that is not a blank. -/
def Lexeme.token? : Lexeme → Option Token
  | .blank _ => none
  | .token t => some t

/-! ## Reading one lexeme -/

/-- Whether a character ends a word. -/
def isDelimiter (c : Char) : Bool :=
  Text.isAsciiBlank c || c = '(' || c = ')' || c = ',' || c = '\''

/-- The content of a quoted text whose opening quote has been read, and what follows the closing one. -/
def quotedContent? : List Char → Option (List Char × List Char)
  | [] => none
  | '\'' :: '\'' :: cs => (quotedContent? cs).map fun (content, rest) => ('\'' :: '\'' :: content, rest)
  | '\'' :: cs => some ([], cs)
  | c :: cs => (quotedContent? cs).map fun (content, rest) => (c :: content, rest)

/-- The lexeme that begins with a character, and what follows it, unless it is a quoted text without an end. -/
def nextLexeme? (c : Char) (cs : List Char) : Option (Lexeme × List Char) :=
  if Text.isAsciiBlank c then some (.blank c, cs)
  else if c = '(' then some (.token .opening, cs)
  else if c = ')' then some (.token .closing, cs)
  else if c = ',' then some (.token .comma, cs)
  else if c = '\'' then
    (quotedContent? cs).map fun (content, rest) => (.token (.quoted (String.ofList content)), rest)
  else
    let inWord := fun d => !isDelimiter d
    some (.token (.word (String.ofList (c :: cs.takeWhile inWord))), cs.dropWhile inWord)

/-- A quoted text and its closing quote come before what follows them. -/
theorem append_of_quotedContent? {cs content rest : List Char}
    (h : quotedContent? cs = some (content, rest)) : content ++ '\'' :: rest = cs := by
  fun_induction quotedContent? cs generalizing content with
  | case1 => simp at h
  | case2 cs ih =>
    obtain ⟨⟨content', rest'⟩, hc, he⟩ := Option.map_eq_some_iff.1 h
    simp only [Prod.mk.injEq] at he
    obtain ⟨rfl, rfl⟩ := he
    simp [ih hc]
  | case3 cs =>
    simp only [Option.some.injEq, Prod.mk.injEq] at h
    obtain ⟨rfl, rfl⟩ := h
    rfl
  | case4 c cs _ _ ih =>
    obtain ⟨⟨content', rest'⟩, hc, he⟩ := Option.map_eq_some_iff.1 h
    simp only [Prod.mk.injEq] at he
    obtain ⟨rfl, rfl⟩ := he
    simp [ih hc]

/-- A lexeme comes before what follows it. -/
theorem append_of_nextLexeme? {c : Char} {cs rest : List Char} {l : Lexeme}
    (h : nextLexeme? c cs = some (l, rest)) : l.source ++ rest = c :: cs := by
  rw [nextLexeme?] at h
  split at h
  · cases h; rfl
  · split at h
    · next hc => cases h; simp [hc, Lexeme.source, Token.source]
    · split at h
      · next hc => cases h; simp [hc, Lexeme.source, Token.source]
      · split at h
        · next hc => cases h; simp [hc, Lexeme.source, Token.source]
        · split at h
          · next hc =>
            obtain ⟨⟨content, rest'⟩, hq, he⟩ := Option.map_eq_some_iff.1 h
            cases he
            simp [hc, Lexeme.source, Token.source, append_of_quotedContent? hq]
          · cases h
            simp [Lexeme.source, Token.source]

/-- What follows a lexeme is shorter than the text that begins with it. -/
theorem length_le_of_nextLexeme? {c : Char} {cs rest : List Char} {l : Lexeme}
    (h : nextLexeme? c cs = some (l, rest)) : rest.length ≤ cs.length := by
  have happ := congrArg List.length (append_of_nextLexeme? h)
  have hpos : 0 < l.source.length := by
    rw [nextLexeme?] at h
    split at h
    · cases h; simp [Lexeme.source]
    · split at h
      · cases h; simp [Lexeme.source, Token.source]
      · split at h
        · cases h; simp [Lexeme.source, Token.source]
        · split at h
          · cases h; simp [Lexeme.source, Token.source]
          · split at h
            · obtain ⟨p, _, he⟩ := Option.map_eq_some_iff.1 h
              cases he
              simp [Lexeme.source, Token.source]
            · cases h
              simp [Lexeme.source, Token.source]
  simp only [List.length_append, List.length_cons] at happ
  omega

/-! ## Reading a text -/

/-- The lexemes of a text that starts at a position, or the position of a quote that is never closed.
Positions count bytes. -/
def lexemesFrom (position : Nat) (cs : List Char) : Except Nat (List Lexeme) :=
  match cs with
  | [] => .ok []
  | c :: cs =>
    match h : nextLexeme? c cs with
    | none => .error position
    | some (l, rest) =>
      have := length_le_of_nextLexeme? h
      (lexemesFrom (position + Text.byteLength l.source) rest).map (l :: ·)
termination_by cs.length
decreasing_by simp only [List.length_cons]; omega

/-- The lexemes of a text. -/
def lexemes (cs : List Char) : Except Nat (List Lexeme) := lexemesFrom 0 cs

/-- The tokens of a text. -/
def tokenize (cs : List Char) : Except Nat (List Token) :=
  (lexemes cs).map fun ls => ls.filterMap Lexeme.token?

/-- The lexemes of a text make it up. -/
theorem flatten_source_of_lexemesFrom {position : Nat} {cs : List Char} {ls : List Lexeme}
    (h : lexemesFrom position cs = .ok ls) : (ls.map Lexeme.source).flatten = cs := by
  fun_induction lexemesFrom position cs generalizing ls with
  | case1 => cases h; rfl
  | case2 => cases h
  | case3 position c cs l rest hn _ ih =>
    cases hr : lexemesFrom (position + Text.byteLength l.source) rest with
    | error e => simp [hr, Except.map] at h
    | ok ls' =>
      simp only [hr, Except.map, Except.ok.injEq] at h
      subst h
      simp [ih hr, append_of_nextLexeme? hn]

/-- The lexemes of a text make it up. -/
theorem flatten_source_of_lexemes {cs : List Char} {ls : List Lexeme} (h : lexemes cs = .ok ls) :
    (ls.map Lexeme.source).flatten = cs := flatten_source_of_lexemesFrom h

end OData.Filter

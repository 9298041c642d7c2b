import OData.Options.TopLevel
import OData.Proofs.Tokens

/-!
# Nesting in texts and in tokens

The scan for separators counts quotes and parentheses, character by character.
The reader of filters finds tokens.  On a text that has tokens both see the same
structure.  Behind every token the scan is outside quotes, at the depth that the
parentheses among the tokens give (`after_of_lexemes`), and within a token it is
inside quotes just when the token is a quoted text (`quoted_iff_of_lexemes`).
So the commas at top level are the comma tokens outside all parentheses
(`topLevelPositions_comma`).
-/

namespace OData.Options

open OData.Filter (quotesPaired quotesPaired_cons)

/-! ## Scanning -/

namespace Nesting

@[simp] theorem after_nil (n : Nesting) : n.after [] = n := rfl

@[simp] theorem after_cons (n : Nesting) (c : Char) (cs : List Char) :
    n.after (c :: cs) = (n.next c).after cs := rfl

@[simp] theorem after_append (n : Nesting) (cs ds : List Char) :
    n.after (cs ++ ds) = (n.after cs).after ds := List.foldl_append

@[simp] theorem next_quote (quoted : Bool) (depth : Nat) :
    next ⟨quoted, depth⟩ '\'' = ⟨!quoted, depth⟩ := rfl

@[simp] theorem next_opening (depth : Nat) : next ⟨false, depth⟩ '(' = ⟨false, depth + 1⟩ := rfl

@[simp] theorem next_closing (depth : Nat) : next ⟨false, depth⟩ ')' = ⟨false, depth - 1⟩ := rfl

theorem next_quoted {c : Char} (hc : c ≠ '\'') (depth : Nat) :
    next ⟨true, depth⟩ c = ⟨true, depth⟩ := by
  rw [next, if_neg hc, if_pos rfl]

/-- A character that does not nest changes nothing. -/
theorem next_of_not_nests {c : Char} (hc : nests c = false) (n : Nesting) : n.next c = n := by
  simp only [nests, Bool.or_eq_false_iff, decide_eq_false_iff_not] at hc
  obtain ⟨⟨hquote, hopening⟩, hclosing⟩ := hc
  rw [next, if_neg hquote, if_neg hopening, if_neg hclosing, ite_self]

/-- A text without quotes and parentheses changes nothing. -/
theorem after_of_not_nests {cs : List Char} (h : ∀ c ∈ cs, nests c = false) (n : Nesting) :
    n.after cs = n := by
  induction cs with
  | nil => rfl
  | cons c cs ih =>
    rw [after_cons, next_of_not_nests (h c (by simp)), ih fun d hd => h d (List.mem_cons_of_mem _ hd)]

/-- Quotes in pairs leave the scan inside quotes. -/
theorem after_of_quotesPaired {cs : List Char} (h : quotesPaired cs = true) (depth : Nat) :
    (⟨true, depth⟩ : Nesting).after cs = ⟨true, depth⟩ := by
  fun_induction quotesPaired cs with
  | case1 => rfl
  | case2 cs ih => exact ih h
  | case3 => cases h
  | case4 c cs _ hc ih => rw [after_cons, next_quoted hc, ih h]

end Nesting

section Positions

variable {separator : Char}

theorem positionsFrom_append (separator : Char) (n : Nesting) (offset : Nat) (cs ds : List Char) :
    positionsFrom separator n offset (cs ++ ds) = positionsFrom separator n offset cs ++
      positionsFrom separator (n.after cs) (offset + Text.byteLength cs) ds := by
  induction cs generalizing n offset with
  | nil => rfl
  | cons c cs ih =>
    rw [List.cons_append, positionsFrom, positionsFrom, ih, Text.byteLength, Nat.add_assoc]
    split <;> rfl

/-- A text without the separator has no places of it. -/
theorem positionsFrom_of_not_mem {cs : List Char} (h : separator ∉ cs) (n : Nesting)
    (offset : Nat) : positionsFrom separator n offset cs = [] := by
  induction cs generalizing n offset with
  | nil => rfl
  | cons c cs ih =>
    rw [List.mem_cons, not_or] at h
    have hc : separates separator n c = false := by simp [separates, Ne.symm h.1]
    rw [positionsFrom, hc, ih h.2]
    rfl

/-- Nothing separates inside quotes. -/
theorem positionsFrom_of_quotesPaired {cs : List Char} (h : quotesPaired cs = true)
    (depth offset : Nat) : positionsFrom separator ⟨true, depth⟩ offset cs = [] := by
  fun_induction quotesPaired cs generalizing offset with
  | case1 => rfl
  | case2 cs ih => simpa [positionsFrom, separates, nests] using ih h _
  | case3 => cases h
  | case4 c cs _ hc ih =>
    have hseparates : separates separator ⟨true, depth⟩ c = false := by
      simp [separates, Nesting.isTop]
    rw [positionsFrom, hseparates, Nesting.next_quoted hc, ih h]
    rfl

end Positions

end OData.Options

namespace OData.Filter

open OData.Options

/-! ## Tokens in a scan -/

/-- Around a character that is no quote, quotes come in pairs on both sides. -/
theorem quotesPaired_append_cons {c : Char} (hc : c ≠ '\'') (before rest : List Char) :
    quotesPaired (before ++ c :: rest) = (quotesPaired before && quotesPaired rest) := by
  fun_induction quotesPaired before with
  | case1 => exact quotesPaired_cons hc rest
  | case2 cs ih => simpa [quotesPaired] using ih
  | case3 cs hcs =>
    cases cs with
    | nil => simp [quotesPaired, hc]
    | cons d cs =>
      have hd : d ≠ '\'' := fun hd => hcs cs (hd ▸ rfl)
      simp [quotesPaired, hd]
  | case4 d cs _ hd ih => rw [List.cons_append, quotesPaired_cons hd, ih]

theorem nests_of_inWord {c : Char} (h : inWord c = true) : nests c = false ∧ c ≠ ',' := by
  simp only [inWord, isDelimiter, Bool.not_eq_true', Bool.or_eq_false_iff,
    decide_eq_false_iff_not] at h
  obtain ⟨⟨⟨⟨-, hopening⟩, hclosing⟩, hcomma⟩, hquote⟩ := h
  simp [nests, hquote, hopening, hclosing, hcomma]

theorem nests_of_isAsciiBlank {c : Char} (h : Text.isAsciiBlank c = true) :
    nests c = false ∧ c ≠ ',' := by
  simp only [Text.isAsciiBlank, Bool.or_eq_true, decide_eq_true_eq] at h
  rcases h with (((rfl | rfl) | rfl) | rfl) | rfl <;> decide

namespace Token

/-- The number of open parentheses behind a token.  What closes nothing is passed over. -/
def depthAfter (depth : Nat) : Token → Nat
  | .opening => depth + 1
  | .closing => depth - 1
  | _ => depth

/-- Whether a token is a quoted text. -/
def isQuoted : Token → Bool
  | .quoted _ => true
  | _ => false

section Sources

variable {t : Token} (ht : t.Proper) (depth : Nat)
include ht

/-- Behind a token the scan is outside quotes again. -/
theorem after_source :
    (⟨false, depth⟩ : Nesting).after t.source = ⟨false, t.depthAfter depth⟩ := by
  cases t with
  | opening => rfl
  | closing => rfl
  | comma => rfl
  | quoted content =>
    rw [source, Nesting.after_cons, Nesting.next_quote, Nesting.after_append,
      Bool.not_false, Nesting.after_of_quotesPaired ht]
    rfl
  | word w =>
    exact Nesting.after_of_not_nests
      (fun c hc => (nests_of_inWord (List.all_eq_true.1 ht.2 c hc)).1) _

/-- Only a comma token at depth zero has a comma at top level. -/
theorem positionsFrom_source (offset : Nat) :
    positionsFrom ',' ⟨false, depth⟩ offset t.source =
      if t = .comma ∧ depth = 0 then [offset] else [] := by
  cases t with
  | opening => rfl
  | closing => rfl
  | comma => by_cases hdepth : depth = 0 <;> simp [source, positionsFrom, separates, nests,
      Nesting.isTop, hdepth]
  | quoted content =>
    rw [if_neg (by simp), source, positionsFrom, Nesting.next_quote, Bool.not_false,
      positionsFrom_append, positionsFrom_of_quotesPaired ht, Nesting.after_of_quotesPaired ht]
    rfl
  | word w =>
    rw [if_neg (by simp)]
    exact positionsFrom_of_not_mem
      (fun hcomma => (nests_of_inWord (List.all_eq_true.1 ht.2 _ hcomma)).2 rfl) _ _

end Sources

/-- A character of a quoted text that is no quote is one of its content. -/
theorem exists_content_of_source {content : String} {before rest : List Char} {c : Char}
    (hc : c ≠ '\'') (h : (quoted content).source = before ++ c :: rest) :
    ∃ inside behind, before = '\'' :: inside ∧ content.toList = inside ++ c :: behind := by
  cases before with
  | nil => exact absurd (List.cons.inj h).1.symm hc
  | cons first inside =>
    obtain ⟨rfl, hcontent⟩ := List.cons.inj h
    obtain ⟨behind, -, hrest⟩ | ⟨behind, hinside, hrest⟩ := List.append_eq_append_iff.1 hcontent
    · cases behind with
      | nil => exact absurd (List.cons.inj hrest).1.symm hc
      | cons d behind => simp at hrest
    · cases behind with
      | nil => exact absurd (List.cons.inj hrest).1 hc
      | cons d behind =>
        obtain ⟨rfl, -⟩ := List.cons.inj hrest
        exact ⟨inside, behind, rfl, hinside⟩

/-- Within a token the scan is inside quotes just when the token is a quoted text. -/
theorem quoted_within {t : Token} (ht : t.Proper) (depth : Nat) {before rest : List Char} {c : Char}
    (hc : c ≠ '\'') (h : t.source = before ++ c :: rest) :
    ((⟨false, depth⟩ : Nesting).after before).quoted = t.isQuoted := by
  have hsingle {d : Char} (hd : [d] = before ++ c :: rest) : before = [] := by
    cases before with
    | nil => rfl
    | cons first before => simp at hd
  cases t with
  | opening => rw [hsingle h]; rfl
  | closing => rw [hsingle h]; rfl
  | comma => rw [hsingle h]; rfl
  | quoted content =>
    obtain ⟨inside, behind, rfl, hcontent⟩ := exists_content_of_source hc h
    have hpaired : quotesPaired inside = true := by
      rw [Proper, hcontent, quotesPaired_append_cons hc, Bool.and_eq_true] at ht
      exact ht.1
    rw [Nesting.after_cons, Nesting.next_quote, Bool.not_false,
      Nesting.after_of_quotesPaired hpaired]
    rfl
  | word w =>
    have hplain : ∀ d ∈ before, nests d = false := by
      intro d hd
      refine (nests_of_inWord (List.all_eq_true.1 ht.2 d ?_)).1
      rw [show w.toList = before ++ c :: rest from h]
      exact List.mem_append_left _ hd
    rw [Nesting.after_of_not_nests hplain]
    rfl

end Token

/-! ## Tokens in their places -/

/-- A token and its place in a text, in bytes. -/
structure PlacedToken where
  /-- The number of bytes before the token. -/
  offset : Nat
  /-- The token. -/
  token : Token

namespace PlacedToken

/-- The number of bytes up to the end of the token. -/
def ending (p : PlacedToken) : Nat := p.offset + Text.byteLength p.token.source

/-- A byte belongs to the token. -/
def Holds (p : PlacedToken) (byte : Nat) : Prop := p.offset ≤ byte ∧ byte < p.ending

end PlacedToken

/-- The tokens of some lexemes, in a text that begins at an offset. -/
def placedFrom (offset : Nat) : List Lexeme → List PlacedToken
  | [] => []
  | l :: ls =>
    let later := placedFrom (offset + Text.byteLength l.source) ls
    match l with
    | .blank _ => later
    | .token t => ⟨offset, t⟩ :: later

/-- The number of open parentheses behind some tokens. -/
def depthAfter (depth : Nat) (ts : List Token) : Nat := ts.foldl Token.depthAfter depth

/-- The places of the comma tokens at depth zero. -/
def topCommas (depth : Nat) : List PlacedToken → List Nat
  | [] => []
  | p :: ps =>
    let later := topCommas (p.token.depthAfter depth) ps
    if p.token = .comma ∧ depth = 0 then p.offset :: later else later

theorem token_placedFrom (offset : Nat) (ls : List Lexeme) :
    (placedFrom offset ls).map PlacedToken.token = ls.filterMap Lexeme.token? := by
  induction ls generalizing offset with
  | nil => rfl
  | cons l ls ih =>
    cases l with
    | blank c => exact ih _
    | token t => exact congrArg (t :: ·) (ih _)

/-- A token stands where it is placed. -/
theorem exists_append_of_mem_placedFrom {offset : Nat} {ls : List Lexeme} {p : PlacedToken}
    (h : p ∈ placedFrom offset ls) :
    ∃ before rest, (ls.map Lexeme.source).flatten = before ++ (p.token.source ++ rest) ∧
      offset + Text.byteLength before = p.offset := by
  induction ls generalizing offset with
  | nil => cases h
  | cons l ls ih =>
    have hlater (hp : p ∈ placedFrom (offset + Text.byteLength l.source) ls) :
        ∃ before rest, ((l :: ls).map Lexeme.source).flatten = before ++ (p.token.source ++ rest) ∧
          offset + Text.byteLength before = p.offset := by
      obtain ⟨before, rest, hflatten, hoffset⟩ := ih hp
      refine ⟨l.source ++ before, rest, ?_, ?_⟩
      · rw [List.map_cons, List.flatten_cons, hflatten, List.append_assoc]
      · rw [Text.byteLength_append, ← Nat.add_assoc, hoffset]
    cases l with
    | blank c => exact hlater h
    | token t =>
      rcases List.mem_cons.1 h with rfl | h
      · exact ⟨[], _, rfl, rfl⟩
      · exact hlater h

/-- No token is placed before the text begins. -/
theorem le_offset_of_mem_placedFrom {offset : Nat} {ls : List Lexeme} {p : PlacedToken}
    (h : p ∈ placedFrom offset ls) : offset ≤ p.offset := by
  obtain ⟨before, -, -, hoffset⟩ := exists_append_of_mem_placedFrom h
  omega

/-! ## Scanning a text that has tokens -/

section Scans

variable {ls : List Lexeme} (hproper : ∀ l ∈ ls, l.Proper)
include hproper

/-- Behind some lexemes the scan is outside quotes, at the depth that their tokens give. -/
theorem after_of_lexemes (depth : Nat) :
    (⟨false, depth⟩ : Nesting).after (ls.map Lexeme.source).flatten =
      ⟨false, depthAfter depth (ls.filterMap Lexeme.token?)⟩ := by
  induction ls generalizing depth with
  | nil => rfl
  | cons l ls ih =>
    have hrest := ih fun l hl => hproper l (List.mem_cons_of_mem _ hl)
    rw [List.map_cons, List.flatten_cons, Nesting.after_append]
    cases l with
    | blank c =>
      have hc := (nests_of_isAsciiBlank (hproper (.blank c) (by simp))).1
      rw [Lexeme.source, Nesting.after_cons, Nesting.next_of_not_nests hc]
      exact hrest depth
    | token t =>
      rw [Lexeme.source, Token.after_source (hproper (.token t) (by simp))]
      exact hrest _

/-- The commas at top level are the comma tokens at depth zero. -/
theorem positionsFrom_of_lexemes (depth offset : Nat) :
    positionsFrom ',' ⟨false, depth⟩ offset (ls.map Lexeme.source).flatten =
      topCommas depth (placedFrom offset ls) := by
  induction ls generalizing depth offset with
  | nil => rfl
  | cons l ls ih =>
    have hrest := ih fun l hl => hproper l (List.mem_cons_of_mem _ hl)
    rw [List.map_cons, List.flatten_cons, positionsFrom_append]
    cases l with
    | blank c =>
      obtain ⟨hc, hcomma⟩ := nests_of_isAsciiBlank (hproper (.blank c) (by simp))
      rw [Lexeme.source, positionsFrom_of_not_mem (by simpa using hcomma.symm), List.nil_append,
        Nesting.after_cons, Nesting.next_of_not_nests hc]
      exact hrest depth _
    | token t =>
      have ht : t.Proper := hproper (.token t) (by simp)
      rw [Lexeme.source, Token.positionsFrom_source ht, Token.after_source ht, hrest, placedFrom,
        topCommas]
      split <;> rfl

end Scans

/-- A place in two joined texts lies in the first or in the second. -/
theorem split_of_append_eq {l tail before rest : List Char} {c : Char}
    (h : l ++ tail = before ++ c :: rest) :
    (∃ behind, before = l ++ behind ∧ tail = behind ++ c :: rest) ∨
      ∃ within, l = before ++ c :: within := by
  obtain ⟨behind, hbefore, htail⟩ | ⟨within, hl, hrest⟩ := List.append_eq_append_iff.1 h
  · exact .inl ⟨behind, hbefore, htail⟩
  · cases within with
    | nil => exact .inl ⟨[], by simpa using hl.symm, by simpa using hrest.symm⟩
    | cons d within =>
      obtain ⟨rfl, -⟩ := List.cons.inj hrest
      exact .inr ⟨within, hl⟩

/-- No token behind an offset holds a byte before it. -/
theorem not_holds_of_lt {offset byte : Nat} (h : byte < offset) (ls : List Lexeme) :
    ¬ ∃ p ∈ placedFrom offset ls, p.token.isQuoted = true ∧ p.Holds byte := by
  rintro ⟨p, hp, -, hstart, -⟩
  have := le_offset_of_mem_placedFrom hp
  omega

/-- A character that is no quote stands inside quotes just when a quoted text holds its bytes. -/
theorem quoted_iff_of_lexemes {ls : List Lexeme} (hproper : ∀ l ∈ ls, l.Proper)
    (depth offset : Nat) {before rest : List Char} {c : Char} (hc : c ≠ '\'')
    (hsplit : (ls.map Lexeme.source).flatten = before ++ c :: rest) {byte : Nat}
    (hstart : offset + Text.byteLength before ≤ byte)
    (hend : byte < offset + Text.byteLength before + c.utf8Size) :
    ((⟨false, depth⟩ : Nesting).after before).quoted = true ↔
      ∃ p ∈ placedFrom offset ls, p.token.isQuoted = true ∧ p.Holds byte := by
  induction ls generalizing depth offset before with
  | nil => simp at hsplit
  | cons l ls ih =>
    have hl := hproper l (by simp)
    have ih := @ih fun l hl => hproper l (List.mem_cons_of_mem _ hl)
    rw [List.map_cons, List.flatten_cons] at hsplit
    obtain ⟨behind, rfl, htail⟩ | ⟨within, hsource⟩ := split_of_append_eq hsplit
    · -- The character stands behind the lexeme.
      rw [Text.byteLength_append, ← Nat.add_assoc] at hstart hend
      rw [Nesting.after_append]
      cases l with
      | blank d =>
        rw [Lexeme.source, Nesting.after_cons,
          Nesting.next_of_not_nests (nests_of_isAsciiBlank hl).1]
        exact ih depth _ htail hstart hend
      | token t =>
        have hnot : ¬ (⟨offset, t⟩ : PlacedToken).Holds byte := by
          rintro ⟨-, hlt⟩
          simp only [PlacedToken.ending, Lexeme.source] at hlt hstart
          omega
        have hafter := Token.after_source hl depth
        rw [Lexeme.source, hafter, ih _ _ htail hstart hend]
        simp only [placedFrom, List.mem_cons, exists_eq_or_imp, hnot, and_false, false_or]
    · -- The character stands in the lexeme.
      have hlength := congrArg Text.byteLength hsource
      rw [Text.byteLength_append, Text.byteLength] at hlength
      have hlt : byte < offset + Text.byteLength l.source := by omega
      cases l with
      | blank d =>
        obtain rfl : before = [] := by
          cases before with
          | nil => rfl
          | cons first before => simp [Lexeme.source] at hsource
        exact iff_of_false Bool.false_ne_true (not_holds_of_lt hlt ls)
      | token t =>
        have hholds : (⟨offset, t⟩ : PlacedToken).Holds byte :=
          ⟨Nat.le_trans (Nat.le_add_right _ _) hstart, hlt⟩
        rw [Token.quoted_within hl depth hc hsource]
        simp only [placedFrom, List.mem_cons, exists_eq_or_imp, hholds, and_true]
        exact (or_iff_left (not_holds_of_lt hlt ls)).symm

/-- The scan for separators and the reader of filters agree on the structure of every text that has
tokens.  The tokens stand at their places in the text, the commas at top level are the comma tokens
outside all parentheses, and a byte of a character that is no quote is inside quotes just when it
belongs to a quoted text. -/
theorem topLevelPositions_comma {cs : List Char} {ts : List Token} (h : tokenize cs = .ok ts) :
    ∃ ls, lexemes cs = .ok ls ∧ (placedFrom 0 ls).map PlacedToken.token = ts ∧
      (∀ p ∈ placedFrom 0 ls, ∃ before rest, cs = before ++ (p.token.source ++ rest) ∧
        Text.byteLength before = p.offset) ∧
      topLevelPositions ',' cs = topCommas 0 (placedFrom 0 ls) ∧
      ∀ before c rest, cs = before ++ c :: rest → c ≠ '\'' →
        ∀ byte, Text.byteLength before ≤ byte → byte < Text.byteLength before + c.utf8Size →
          ((Nesting.top.after before).quoted = true ↔
            ∃ p ∈ placedFrom 0 ls, p.token.isQuoted = true ∧ p.Holds byte) := by
  obtain ⟨ls, hls, rfl⟩ := exists_lexemes_of_tokenize h
  have hproper := proper_of_lexemesFrom hls
  obtain rfl := flatten_source_of_lexemes hls
  refine ⟨ls, hls, token_placedFrom 0 ls, ?_, positionsFrom_of_lexemes hproper 0 0, ?_⟩
  · intro p hp
    obtain ⟨before, rest, hflatten, hoffset⟩ := exists_append_of_mem_placedFrom hp
    exact ⟨before, rest, hflatten, by omega⟩
  · intro before c rest hsplit hc byte hstart hend
    exact quoted_iff_of_lexemes hproper 0 0 hc hsplit (by omega) (by omega)

/-- A comma in quotes, one in parentheses, and one behind a parenthesis that closes nothing.  The
first character has two bytes, and the second letter stands between doubled quotes. -/
theorem topLevelPositions_comma_unbalanced :
    let text := "é,('a,''b''',z)),w"
    let ts : List Token := [.word "é", .comma, .opening, .quoted "a,''b''", .comma, .word "z",
      .closing, .closing, .comma, .word "w"]
    tokenize text.toList = .ok ts ∧
      ∃ ls, lexemes text.toList = .ok ls ∧ (placedFrom 0 ls).map PlacedToken.token = ts ∧
        topLevelPositions ',' text.toList = topCommas 0 (placedFrom 0 ls) ∧
        topLevelPositions ',' text.toList = [2, 17] ∧
        ∃ p ∈ placedFrom 0 ls, p.token.isQuoted = true ∧ p.Holds 9 := by
  intro text ts
  have htokens : tokenize text.toList = .ok ts := by decide +kernel
  obtain ⟨ls, hls, hplaced, -, hcommas, hquoted⟩ := topLevelPositions_comma htokens
  have hletter := hquoted "é,('a,''".toList 'b' "''',z)),w".toList (by decide) (by decide) 9
    (by decide) (by decide)
  exact ⟨htokens, ls, hls, hplaced, hcommas, by decide, hletter.1 (by decide +kernel)⟩

end OData.Filter

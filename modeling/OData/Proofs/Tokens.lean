import OData.Filter.Token
import OData.Proofs.Cutting

/-!
# What tokens a text has

Every token of a text is *proper*: a word is not empty and has no delimiter,
and the quotes in a quoted text come in pairs (`proper_of_tokenize`).  A text
begins with a proper lexeme that ends before the rest, and with no other
(`nextLexeme?_eq_some_iff`), so facts about lexemes follow by an induction on
them (`lexemesFrom_induction`).

Conversely `Tokenizes cs ts` says that a text has some tokens, and there is one
lemma for each way a text may begin.  Texts are put together with them from
the end to the start, since a word and a quoted text ask for what follows.

A text has no more tokens than bytes (`length_le_utf8ByteSize`).
-/

namespace OData.Filter

/-! ## Quotes in pairs -/

/-- Whether quotes come in pairs: every longest run of them has an even length. -/
def quotesPaired : List Char → Bool
  | [] => true
  | '\'' :: '\'' :: cs => quotesPaired cs
  | '\'' :: _ => false
  | _ :: cs => quotesPaired cs

theorem quotesPaired_cons {c : Char} (hc : c ≠ '\'') (cs : List Char) :
    quotesPaired (c :: cs) = quotesPaired cs := by
  rw [quotesPaired]
  · intro ds h
    exact absurd h hc
  · exact hc

/-- Before a text that begins with no quote, quotes pair up if their number is even. -/
theorem quotesPaired_replicate_append {rest : List Char} (hrest : rest.head? ≠ some '\'') :
    (k : Nat) → quotesPaired (List.replicate k '\'' ++ rest) =
      (decide (k % 2 = 0) && quotesPaired rest)
  | 0 => by simp
  | 1 => by
    cases rest with
    | nil => rfl
    | cons c rest =>
      have hc : c ≠ '\'' := by simpa using hrest
      simp [quotesPaired, hc]
  | k + 2 => by
    have ih := quotesPaired_replicate_append hrest k
    simpa [List.replicate_succ, quotesPaired] using ih

/-- Behind a text that ends with no quote, quotes pair up on their own. -/
theorem quotesPaired_append {before : List Char} (h : before.getLast? ≠ some '\'')
    (rest : List Char) :
    quotesPaired (before ++ rest) = (quotesPaired before && quotesPaired rest) := by
  fun_induction quotesPaired before with
  | case1 => rfl
  | case2 cs ih =>
    cases cs with
    | nil => simp at h
    | cons c cs => simpa [quotesPaired] using ih (by simpa using h)
  | case3 cs hcs =>
    cases cs with
    | nil => simp at h
    | cons c cs =>
      have hc : c ≠ '\'' := fun hc => hcs cs (hc ▸ rfl)
      simp [quotesPaired, hc]
  | case4 c cs _ hc ih =>
    rw [List.cons_append, quotesPaired_cons hc]
    cases cs with
    | nil => simp [quotesPaired]
    | cons d cs => exact ih (by simpa using h)

/-- Quotes come in pairs just when every longest run of them has an even length. -/
theorem quotesPaired_iff {cs : List Char} :
    quotesPaired cs = true ↔
      ∀ before k rest, cs = before ++ (List.replicate k '\'' ++ rest) →
        before.getLast? ≠ some '\'' → rest.head? ≠ some '\'' → k % 2 = 0 := by
  constructor
  · rintro h before k rest rfl hbefore hrest
    rw [quotesPaired_append hbefore, quotesPaired_replicate_append hrest] at h
    simp only [Bool.and_eq_true, decide_eq_true_eq] at h
    exact h.2.1
  · intro h
    fun_induction quotesPaired cs with
    | case1 => rfl
    | case2 cs ih =>
      refine ih ?_
      rintro before k rest rfl hbefore hrest
      cases before with
      | nil =>
        have hmore := h [] (k + 2) rest rfl (by simp) hrest
        omega
      | cons c before =>
        exact h ('\'' :: '\'' :: c :: before) k rest rfl (by simpa using hbefore) hrest
    | case3 cs hcs =>
      have hrest : cs.head? ≠ some '\'' := by
        cases cs with
        | nil => simp
        | cons c cs => exact fun hc => hcs cs (Option.some.inj hc ▸ rfl)
      have hone := h [] 1 cs rfl (by simp) hrest
      cases hone
    | case4 c cs _ hc ih =>
      refine ih ?_
      rintro before k rest rfl hbefore hrest
      refine h (c :: before) k rest rfl ?_ hrest
      cases before with
      | nil => simpa using hc
      | cons d before => simpa using hbefore

theorem quotedContent?_cons {c : Char} (hc : c ≠ '\'') (cs : List Char) :
    quotedContent? (c :: cs) =
      (quotedContent? cs).map fun (content, rest) => (c :: content, rest) := by
  rw [quotedContent?]
  · intro ds h
    exact absurd h hc
  · exact hc

/-- A quote that no other follows ends a quoted text. -/
theorem quotedContent?_quote {rest : List Char} (h : rest.head? ≠ some '\'') :
    quotedContent? ('\'' :: rest) = some ([], rest) := by
  cases rest with
  | nil => rfl
  | cons c rest =>
    rw [quotedContent?]
    intro cs hcs
    obtain ⟨rfl, -⟩ := List.cons.inj hcs
    exact h rfl

/-- The content of a quoted text ends at the first quote that has no partner. -/
theorem quotedContent?_append {content rest : List Char} (h : quotesPaired content = true)
    (hrest : rest.head? ≠ some '\'') :
    quotedContent? (content ++ '\'' :: rest) = some (content, rest) := by
  fun_induction quotesPaired content with
  | case1 => exact quotedContent?_quote hrest
  | case2 cs ih => simp [quotedContent?, ih h]
  | case3 => cases h
  | case4 c cs _ hc ih =>
    rw [List.cons_append, quotedContent?_cons hc, ih h]
    rfl

/-- Quotes inside the content of a quoted text come in pairs, and its last quote is followed by none. -/
theorem quotesPaired_of_quotedContent? {cs content rest : List Char}
    (h : quotedContent? cs = some (content, rest)) :
    quotesPaired content = true ∧ rest.head? ≠ some '\'' := by
  fun_induction quotedContent? cs generalizing content rest with
  | case1 => cases h
  | case2 cs ih =>
    obtain ⟨⟨content', rest'⟩, hc, he⟩ := Option.map_eq_some_iff.1 h
    cases he
    simpa only [quotesPaired] using ih hc
  | case3 cs hcs =>
    cases h
    refine ⟨rfl, ?_⟩
    cases cs with
    | nil => simp
    | cons c cs =>
      intro hc
      obtain rfl := Option.some.inj hc
      exact hcs cs rfl
  | case4 c cs _ hc ih =>
    obtain ⟨⟨content', rest'⟩, hq, he⟩ := Option.map_eq_some_iff.1 h
    cases he
    rw [quotesPaired_cons hc]
    exact ih hq

/-! ## Proper tokens -/

/-- Whether a character may stand in a word. -/
def inWord (c : Char) : Bool := !isDelimiter c

/-- A token as it may stand in a text. -/
def Token.Proper : Token → Prop
  | .quoted content => quotesPaired content.toList = true
  | .word w => w ≠ "" ∧ w.toList.all inWord = true
  | _ => True

instance : (t : Token) → Decidable t.Proper
  | .quoted content => inferInstanceAs (Decidable (quotesPaired content.toList = true))
  | .word w => inferInstanceAs (Decidable (w ≠ "" ∧ w.toList.all inWord = true))
  | .opening | .closing | .comma => inferInstanceAs (Decidable True)

/-- A lexeme as it may stand in a text. -/
def Lexeme.Proper : Lexeme → Prop
  | .blank c => Text.isAsciiBlank c = true
  | .token t => t.Proper

theorem Lexeme.Proper.source_ne_nil {l : Lexeme} (h : l.Proper) : l.source ≠ [] := by
  cases l with
  | blank c => exact List.cons_ne_nil _ _
  | token t =>
    cases t with
    | opening | closing | comma | quoted => exact List.cons_ne_nil _ _
    | word w => exact fun hnil => h.1 (String.toList_eq_nil_iff.1 hnil)

/-- The lexeme that begins with a character, by the class of the character. -/
theorem nextLexeme?_cases {c : Char} {cs rest : List Char} {l : Lexeme}
    (h : nextLexeme? c cs = some (l, rest)) :
    (Text.isAsciiBlank c = true ∧ l = .blank c ∧ rest = cs) ∨
    (c = '(' ∧ l = .token .opening ∧ rest = cs) ∨
    (c = ')' ∧ l = .token .closing ∧ rest = cs) ∨
    (c = ',' ∧ l = .token .comma ∧ rest = cs) ∨
    (c = '\'' ∧ ∃ content, quotedContent? cs = some (content, rest) ∧
      l = .token (.quoted (String.ofList content))) ∨
    (inWord c = true ∧ l = .token (.word (String.ofList (c :: cs.takeWhile inWord))) ∧
      rest = cs.dropWhile inWord) := by
  rw [nextLexeme?] at h
  split at h
  case isTrue hb =>
    cases h
    exact .inl ⟨hb, rfl, rfl⟩
  case isFalse hb =>
    split at h
    case isTrue hc =>
      cases h
      exact .inr (.inl ⟨hc, rfl, rfl⟩)
    case isFalse h1 =>
      split at h
      case isTrue hc =>
        cases h
        exact .inr (.inr (.inl ⟨hc, rfl, rfl⟩))
      case isFalse h2 =>
        split at h
        case isTrue hc =>
          cases h
          exact .inr (.inr (.inr (.inl ⟨hc, rfl, rfl⟩)))
        case isFalse h3 =>
          split at h
          case isTrue hc =>
            obtain ⟨⟨content, rest'⟩, hq, he⟩ := Option.map_eq_some_iff.1 h
            cases he
            exact .inr (.inr (.inr (.inr (.inl ⟨hc, content, hq, rfl⟩))))
          case isFalse h4 =>
            cases h
            refine .inr (.inr (.inr (.inr (.inr ⟨?_, rfl, rfl⟩))))
            simp [inWord, isDelimiter, hb, h1, h2, h3, h4]

theorem nextLexeme?_word {c : Char} (hc : inWord c = true) (cs : List Char) :
    nextLexeme? c cs =
      some (.token (.word (String.ofList (c :: cs.takeWhile inWord))), cs.dropWhile inWord) := by
  simp only [inWord, isDelimiter, Bool.not_eq_true', Bool.or_eq_false_iff,
    decide_eq_false_iff_not] at hc
  obtain ⟨⟨⟨⟨hb, h1⟩, h2⟩, h3⟩, h4⟩ := hc
  rw [nextLexeme?, hb, if_neg (by simp), if_neg h1, if_neg h2, if_neg h3, if_neg h4]
  rfl

/-- The lexeme that begins a text is proper. -/
theorem proper_of_nextLexeme? {c : Char} {cs rest : List Char} {l : Lexeme}
    (h : nextLexeme? c cs = some (l, rest)) : l.Proper := by
  rcases nextLexeme?_cases h with ⟨hc, rfl, _⟩ | ⟨_, rfl, _⟩ | ⟨_, rfl, _⟩ | ⟨_, rfl, _⟩ |
    ⟨_, content, hq, rfl⟩ | ⟨hc, rfl, _⟩
  · exact hc
  · trivial
  · trivial
  · trivial
  · rw [Lexeme.Proper, Token.Proper, String.toList_ofList]
    exact (quotesPaired_of_quotedContent? hq).1
  · rw [Lexeme.Proper, Token.Proper, String.toList_ofList, List.all_cons, hc, Bool.true_and]
    exact ⟨by simp [← String.toList_inj], List.all_takeWhile⟩

/-! ## Where lexemes end -/

/-- A lexeme ends before the text: a word goes on to a delimiter, a quoted text to a quote that no
other follows. -/
def Lexeme.EndsBefore (rest : List Char) : Lexeme → Prop
  | .token (.word _) => Text.StopsRun inWord rest
  | .token (.quoted _) => rest.head? ≠ some '\''
  | _ => True

/-- A token ends before the text: it goes on neither a word nor a quoted text. -/
def EndsToken (rest : List Char) : Prop :=
  Text.StopsRun inWord rest ∧ rest.head? ≠ some '\''

theorem endsToken_nil : EndsToken [] := ⟨Text.stopsRun_nil, by simp⟩

theorem endsToken_blank (rest : List Char) : EndsToken (' ' :: rest) :=
  ⟨Text.stopsRun_cons.2 (by decide), by simp⟩

theorem endsToken_closing (rest : List Char) : EndsToken (')' :: rest) :=
  ⟨Text.stopsRun_cons.2 (by decide), by simp⟩

theorem endsToken_opening (rest : List Char) : EndsToken ('(' :: rest) :=
  ⟨Text.stopsRun_cons.2 (by decide), by simp⟩

theorem endsToken_comma (rest : List Char) : EndsToken (',' :: rest) :=
  ⟨Text.stopsRun_cons.2 (by decide), by simp⟩

theorem EndsToken.endsBefore {rest : List Char} (h : EndsToken rest) (l : Lexeme) :
    l.EndsBefore rest := by
  cases l with
  | blank c => trivial
  | token t =>
    cases t with
    | opening | closing | comma => trivial
    | quoted content => exact h.2
    | word w => exact h.1

/-- A lexeme ends at the same place before a text that goes on no token. -/
theorem Lexeme.EndsBefore.append {l : Lexeme} {rest tail : List Char} (h : l.EndsBefore rest)
    (htail : EndsToken tail) : l.EndsBefore (rest ++ tail) := by
  cases rest with
  | nil => exact htail.endsBefore l
  | cons c rest =>
    cases l with
    | blank d => trivial
    | token t =>
      cases t with
      | opening | closing | comma => trivial
      | quoted content => exact h
      | word w => exact (Text.stopsRun_append (by simp) tail).2 h

/-- The lexeme that begins a text goes on as far as it can. -/
theorem endsBefore_of_nextLexeme? {c : Char} {cs rest : List Char} {l : Lexeme}
    (h : nextLexeme? c cs = some (l, rest)) : l.EndsBefore rest := by
  rcases nextLexeme?_cases h with ⟨-, rfl, -⟩ | ⟨-, rfl, -⟩ | ⟨-, rfl, -⟩ | ⟨-, rfl, -⟩ |
    ⟨-, content, hq, rfl⟩ | ⟨-, rfl, rfl⟩
  · trivial
  · trivial
  · trivial
  · trivial
  · exact (quotesPaired_of_quotedContent? hq).2
  · intro d hd
    have hstop := List.head?_dropWhile_not inWord cs
    rw [hd] at hstop
    exact hstop

/-- A text begins with a proper lexeme that ends before the rest, and with no other. -/
theorem nextLexeme?_eq_some_iff {c : Char} {cs rest : List Char} {l : Lexeme} :
    nextLexeme? c cs = some (l, rest) ↔
      l.source ++ rest = c :: cs ∧ l.Proper ∧ l.EndsBefore rest := by
  constructor
  · intro h
    exact ⟨append_of_nextLexeme? h, proper_of_nextLexeme? h, endsBefore_of_nextLexeme? h⟩
  · rintro ⟨happend, hproper, hends⟩
    cases l with
    | blank d =>
      obtain ⟨rfl, rfl⟩ := List.cons.inj happend
      exact if_pos hproper
    | token t =>
      cases t with
      | opening | closing | comma =>
        obtain ⟨rfl, rfl⟩ := List.cons.inj happend
        rfl
      | quoted content =>
        obtain ⟨rfl, rfl⟩ := List.cons.inj happend
        have hq := quotedContent?_append hproper hends
        simp [nextLexeme?, Text.isAsciiBlank, hq]
      | word w =>
        obtain ⟨hne, hall⟩ := hproper
        obtain ⟨d, ds, hw⟩ := List.exists_cons_of_ne_nil (mt String.toList_eq_nil_iff.1 hne)
        rw [Lexeme.source, Token.source, hw, List.cons_append] at happend
        obtain ⟨rfl, rfl⟩ := List.cons.inj happend
        rw [hw, List.all_cons, Bool.and_eq_true, List.all_eq_true] at hall
        rw [nextLexeme?_word hall.1, Text.takeWhile_append hall.2 hends,
          Text.dropWhile_append hall.2 hends, ← hw, String.ofList_toList]

/-! ## Tokens of a text -/

/-- What holds of the empty text, and of a proper lexeme before a text when it holds of the text, holds of
every text and its lexemes. -/
theorem lexemesFrom_induction {motive : List Char → List Lexeme → Prop} (hnil : motive [] [])
    (hlexeme : ∀ {l : Lexeme} {rest : List Char} {ls : List Lexeme}, l.Proper → l.EndsBefore rest →
      motive rest ls → motive (l.source ++ rest) (l :: ls))
    {position : Nat} {cs : List Char} {ls : List Lexeme} (h : lexemesFrom position cs = .ok ls) :
    motive cs ls := by
  fun_induction lexemesFrom position cs generalizing ls with
  | case1 =>
    cases h
    exact hnil
  | case2 => cases h
  | case3 position c cs l rest hn _ ih =>
    cases hr : lexemesFrom (position + Text.byteLength l.source) rest with
    | error e =>
      rw [hr] at h
      cases h
    | ok ls' =>
      rw [hr] at h
      cases h
      obtain ⟨happend, hproper, hends⟩ := nextLexeme?_eq_some_iff.1 hn
      rw [← happend]
      exact hlexeme hproper hends (ih hr)

/-- All lexemes of a text are proper. -/
theorem proper_of_lexemesFrom {position : Nat} {cs : List Char} {ls : List Lexeme}
    (h : lexemesFrom position cs = .ok ls) : ∀ l ∈ ls, l.Proper :=
  lexemesFrom_induction (motive := fun _ ls => ∀ l ∈ ls, l.Proper) (by simp)
    (fun hl _ hls => List.forall_mem_cons.2 ⟨hl, hls⟩) h

/-- The tokens of a text are those among its lexemes. -/
theorem exists_lexemes_of_tokenize {cs : List Char} {ts : List Token} (h : tokenize cs = .ok ts) :
    ∃ ls, lexemes cs = .ok ls ∧ ls.filterMap Lexeme.token? = ts := by
  rw [tokenize] at h
  cases hls : lexemes cs with
  | error position =>
    rw [hls] at h
    cases h
  | ok ls =>
    rw [hls] at h
    cases h
    exact ⟨ls, rfl, rfl⟩

/-- All tokens of a text are proper. -/
theorem proper_of_tokenize {cs : List Char} {ts : List Token} (h : tokenize cs = .ok ts) :
    ∀ t ∈ ts, t.Proper := by
  obtain ⟨ls, hls, rfl⟩ := exists_lexemes_of_tokenize h
  intro t ht
  obtain ⟨l, hmem, hl⟩ := List.mem_filterMap.1 ht
  cases l with
  | blank c => cases hl
  | token t' =>
    cases hl
    exact proper_of_lexemesFrom hls _ hmem

/-! ## The number of tokens -/

/-- A text has no more lexemes than characters. -/
theorem length_lexemesFrom_le {position : Nat} {cs : List Char} {ls : List Lexeme}
    (h : lexemesFrom position cs = .ok ls) : ls.length ≤ cs.length := by
  refine lexemesFrom_induction (motive := fun cs ls => ls.length ≤ cs.length) (Nat.le_refl 0)
    (fun {l rest ls} hl _ hls => ?_) h
  have hpos := List.length_pos_iff.2 hl.source_ne_nil
  rw [List.length_append, List.length_cons]
  omega

/-- A text has no more tokens than bytes. -/
theorem length_le_utf8ByteSize {text : String} {ts : List Token}
    (h : tokenize text.toList = .ok ts) : ts.length ≤ text.utf8ByteSize := by
  obtain ⟨ls, hls, rfl⟩ := exists_lexemes_of_tokenize h
  calc (ls.filterMap Lexeme.token?).length
      ≤ ls.length := List.length_filterMap_le _ _
    _ ≤ text.toList.length := length_lexemesFrom_le hls
    _ ≤ Text.byteLength text.toList := Text.length_le_byteLength _
    _ = text.utf8ByteSize := by rw [← Text.utf8ByteSize_ofList, String.ofList_toList]

/-! ## Putting texts together -/

/-- The text has the tokens, wherever it begins. -/
def Tokenizes (cs : List Char) (ts : List Token) : Prop :=
  ∀ position, ∃ ls, lexemesFrom position cs = .ok ls ∧ ls.filterMap Lexeme.token? = ts

theorem Tokenizes.tokenize_eq {cs : List Char} {ts : List Token} (h : Tokenizes cs ts) :
    tokenize cs = .ok ts := by
  obtain ⟨ls, hls, rfl⟩ := h 0
  rw [tokenize, lexemes, hls]
  rfl

theorem tokenizes_nil : Tokenizes [] [] := fun _ => ⟨[], by rw [lexemesFrom], rfl⟩

/-- A lexeme before a text is read first. -/
theorem lexemesFrom_source_append {l : Lexeme} {rest : List Char} (hl : l.Proper)
    (hends : l.EndsBefore rest) (position : Nat) :
    lexemesFrom position (l.source ++ rest) =
      (lexemesFrom (position + Text.byteLength l.source) rest).map (l :: ·) := by
  obtain ⟨c, cs, hcs⟩ := List.exists_cons_of_ne_nil hl.source_ne_nil
  have hnext : nextLexeme? c (cs ++ rest) = some (l, rest) :=
    nextLexeme?_eq_some_iff.2 ⟨by rw [hcs, List.cons_append], hl, hends⟩
  conv_lhs => rw [hcs, List.cons_append, lexemesFrom]
  split
  · next hnone =>
    rw [hnext] at hnone
    cases hnone
  · next hsome =>
    rw [hnext] at hsome
    cases hsome
    rfl

/-- A lexeme before a text adds its token. -/
theorem Tokenizes.lexeme {l : Lexeme} {rest : List Char} {ts : List Token} (h : Tokenizes rest ts)
    (hl : l.Proper) (hends : l.EndsBefore rest) :
    Tokenizes (l.source ++ rest) (l.token?.toList ++ ts) := by
  intro position
  obtain ⟨ls, hls, rfl⟩ := h (position + Text.byteLength l.source)
  refine ⟨l :: ls, ?_, ?_⟩
  · rw [lexemesFrom_source_append hl hends, hls]
    rfl
  · cases l with
    | blank c => rfl
    | token t => rfl

section Lexemes

variable {rest : List Char} {ts : List Token}

theorem Tokenizes.blank (h : Tokenizes rest ts) : Tokenizes (' ' :: rest) ts :=
  h.lexeme (l := .blank ' ') rfl trivial

theorem Tokenizes.opening (h : Tokenizes rest ts) : Tokenizes ('(' :: rest) (.opening :: ts) :=
  h.lexeme (l := .token .opening) trivial trivial

theorem Tokenizes.closing (h : Tokenizes rest ts) : Tokenizes (')' :: rest) (.closing :: ts) :=
  h.lexeme (l := .token .closing) trivial trivial

theorem Tokenizes.comma (h : Tokenizes rest ts) : Tokenizes (',' :: rest) (.comma :: ts) :=
  h.lexeme (l := .token .comma) trivial trivial

/-- A token before a text that does not go on it is read first. -/
theorem Tokenizes.token {t : Token} (h : Tokenizes rest ts) (ht : t.Proper)
    (hrest : EndsToken rest) : Tokenizes (t.source ++ rest) (t :: ts) :=
  h.lexeme (l := .token t) ht (hrest.endsBefore _)

end Lexemes

end OData.Filter

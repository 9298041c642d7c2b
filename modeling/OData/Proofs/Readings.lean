import Mathlib.Algebra.Ring.Parity
import Mathlib.Data.List.Basic
import OData.Proofs.Tokens

/-!
# How a text is read

A text is refused just when the number of its quotes is odd
(`exists_error_iff_odd`): a quoted text takes its quotes two by two, and one of
an odd number is left that no other closes.

A *reading* makes the text up of blanks and tokens, where words and quoted
texts go on as far as they can (`IsReading`).  A text has one reading at most,
and the reader of filters finds it (`lexemesFrom_eq_ok_iff_isReading`).  So
nothing of a text is lost, and where its blanks are makes no difference: the
tokens written with single spaces between them are read again
(`tokenize_lossless`).
-/

namespace OData.Filter

/-! ## The number of quotes -/

theorem even_count_of_quotesPaired {cs : List Char} (h : quotesPaired cs = true) :
    Even (cs.count '\'') := by
  fun_induction quotesPaired cs with
  | case1 => exact Even.zero
  | case2 cs ih =>
    rw [List.count_cons_self, List.count_cons_self]
    exact (ih h).add even_two
  | case3 => cases h
  | case4 c cs _ hc ih =>
    rw [List.count_cons_of_ne hc]
    exact ih h

/-- A quoted text has no end just when all quotes in it have a partner. -/
theorem quotedContent?_eq_none_iff {cs : List Char} :
    quotedContent? cs = none ↔ quotesPaired cs = true := by
  fun_induction quotesPaired cs with
  | case1 => exact iff_of_true rfl rfl
  | case2 cs ih => rw [quotedContent?, Option.map_eq_none_iff, ih]
  | case3 cs hcs =>
    have hhead : cs.head? ≠ some '\'' := by
      intro hhead
      obtain ⟨ds, rfl⟩ := List.head?_eq_some_iff.1 hhead
      exact hcs ds rfl
    rw [quotedContent?_quote hhead]
    simp
  | case4 c cs _ hc ih => rw [quotedContent?_cons hc, Option.map_eq_none_iff, ih]

/-- A proper lexeme has its quotes in pairs, the outer ones of a quoted text among them. -/
theorem Lexeme.Proper.even_count {l : Lexeme} (h : l.Proper) : Even (l.source.count '\'') := by
  have hnone {cs : List Char} (hcs : '\'' ∉ cs) : Even (cs.count '\'') := by
    rw [List.count_eq_zero.2 hcs]
    exact Even.zero
  cases l with
  | blank c =>
    refine hnone fun hc => ?_
    obtain rfl := List.mem_singleton.1 hc
    cases h
  | token t =>
    cases t with
    | opening | closing | comma => exact hnone (by simp [source, Token.source])
    | quoted content =>
      have hcontent := even_count_of_quotesPaired h
      rw [source, Token.source, List.count_cons_self, List.count_append, List.count_singleton_self,
        Nat.add_assoc]
      exact hcontent.add even_two
    | word w => exact hnone fun hc => absurd (List.all_eq_true.1 h.2 _ hc) (by decide)

/-- No lexeme begins a text just when the text is quoted to its end. -/
theorem nextLexeme?_eq_none_iff {c : Char} {cs : List Char} :
    nextLexeme? c cs = none ↔ c = '\'' ∧ quotesPaired cs = true := by
  by_cases hc : c = '\''
  · subst hc
    simp [nextLexeme?, Text.isAsciiBlank, quotedContent?_eq_none_iff]
  · simp only [nextLexeme?, hc, if_false, false_and, iff_false]
    split_ifs <;> simp

/-- A text that is read has its quotes in pairs. -/
theorem even_count_of_lexemesFrom {position : Nat} {cs : List Char} {ls : List Lexeme}
    (h : lexemesFrom position cs = .ok ls) : Even (cs.count '\'') := by
  refine lexemesFrom_induction (motive := fun cs _ => Even (cs.count '\'')) Even.zero
    (fun hl _ hrest => ?_) h
  rw [List.count_append]
  exact hl.even_count.add hrest

/-- A text that is not read has a quote too many. -/
theorem odd_count_of_lexemesFrom {position start : Nat} {cs : List Char}
    (h : lexemesFrom position cs = .error start) : Odd (cs.count '\'') := by
  fun_induction lexemesFrom position cs with
  | case1 => cases h
  | case2 position c cs hnone =>
    obtain ⟨rfl, hpaired⟩ := nextLexeme?_eq_none_iff.1 hnone
    rw [List.count_cons_self]
    exact (even_count_of_quotesPaired hpaired).add_one
  | case3 position c cs l rest hn _ ih =>
    cases hr : lexemesFrom (position + Text.byteLength l.source) rest with
    | error e =>
      rw [hr] at h
      cases h
      rw [← append_of_nextLexeme? hn, List.count_append]
      exact (proper_of_nextLexeme? hn).even_count.add_odd (ih hr)
    | ok ls =>
      rw [hr] at h
      cases h

/-- A text is refused just when the number of its quotes is odd. -/
theorem exists_error_iff_odd {cs : List Char} :
    (∃ start, tokenize cs = .error start) ↔ Odd (cs.count '\'') := by
  rw [tokenize, lexemes]
  cases hls : lexemesFrom 0 cs with
  | error start => exact iff_of_true ⟨start, rfl⟩ (odd_count_of_lexemesFrom hls)
  | ok ls =>
    refine iff_of_false ?_ (Nat.not_odd_iff_even.2 (even_count_of_lexemesFrom hls))
    rintro ⟨start, hstart⟩
    cases hstart

/-! ## Readings -/

/-- The text of some lexemes. -/
def sourceOf (ls : List Lexeme) : List Char := (ls.map Lexeme.source).flatten

/-- Between two texts a word is a longest run of characters that are no delimiters. -/
structure IsLongestWord (before : List Char) (w : String) (rest : List Char) : Prop where
  ne_empty : w ≠ ""
  noDelimiter : ∀ c ∈ w.toList, isDelimiter c = false
  begins : ∀ c, before.getLast? = some c → isDelimiter c = true
  ends : ∀ c, rest.head? = some c → isDelimiter c = true

/-- Before a text a quoted text ends at its first quote that has no partner: every longest run of
quotes in it has an even length, and no quote follows its last one. -/
structure IsLongestQuoted (content : String) (rest : List Char) : Prop where
  even : ∀ before k after, content.toList = before ++ (List.replicate k '\'' ++ after) →
    before.getLast? ≠ some '\'' → after.head? ≠ some '\'' → Even k
  ends : rest.head? ≠ some '\''

/-- Lexemes that make up a text, where words and quoted texts go on as far as they can. -/
structure IsReading (cs : List Char) (ls : List Lexeme) : Prop where
  source : sourceOf ls = cs
  blank : ∀ c, .blank c ∈ ls → Text.isAsciiBlank c = true
  word : ∀ before w after, ls = before ++ .token (.word w) :: after →
    IsLongestWord (sourceOf before) w (sourceOf after)
  quoted : ∀ before content after, ls = before ++ .token (.quoted content) :: after →
    IsLongestQuoted content (sourceOf after)

@[simp] theorem sourceOf_append (ls ls' : List Lexeme) :
    sourceOf (ls ++ ls') = sourceOf ls ++ sourceOf ls' := by
  rw [sourceOf, List.map_append, List.flatten_append]
  rfl

@[simp] theorem sourceOf_cons (l : Lexeme) (ls : List Lexeme) :
    sourceOf (l :: ls) = l.source ++ sourceOf ls := rfl

theorem sourceOf_singleton (l : Lexeme) : sourceOf [l] = l.source := List.append_nil _

/-- Proper lexemes in a row, each of which ends before those behind it. -/
structure Separated (ls : List Lexeme) : Prop where
  proper : ∀ l ∈ ls, l.Proper
  endsBefore : ∀ before l after, ls = before ++ l :: after → l.EndsBefore (sourceOf after)

theorem separated_nil : Separated [] := ⟨by simp, by simp⟩

theorem separated_cons {l : Lexeme} {ls : List Lexeme} :
    Separated (l :: ls) ↔ l.Proper ∧ l.EndsBefore (sourceOf ls) ∧ Separated ls := by
  constructor
  · rintro ⟨hproper, hends⟩
    rw [List.forall_mem_cons] at hproper
    exact ⟨hproper.1, hends [] l ls rfl, hproper.2,
      fun before l' after hsplit => hends (l :: before) l' after (congrArg (l :: ·) hsplit)⟩
  · rintro ⟨hl, hlends, hproper, hends⟩
    refine ⟨List.forall_mem_cons.2 ⟨hl, hproper⟩, fun before l' after hsplit => ?_⟩
    cases before with
    | nil =>
      cases hsplit
      exact hlends
    | cons first before => exact hends before l' after (List.cons.inj hsplit).2

/-- Lexemes are found in a text just when they make it up and are separated. -/
theorem lexemesFrom_eq_ok_iff {position : Nat} {cs : List Char} {ls : List Lexeme} :
    lexemesFrom position cs = .ok ls ↔ sourceOf ls = cs ∧ Separated ls := by
  constructor
  · refine lexemesFrom_induction (motive := fun cs ls => sourceOf ls = cs ∧ Separated ls)
      ⟨rfl, separated_nil⟩ ?_
    rintro l rest ls hl hends ⟨rfl, hls⟩
    exact ⟨rfl, separated_cons.2 ⟨hl, hends, hls⟩⟩
  · rintro ⟨rfl, hseparated⟩
    induction ls generalizing position with
    | nil => rw [sourceOf, List.map_nil, List.flatten_nil, lexemesFrom]
    | cons l ls ih =>
      obtain ⟨hl, hends, hls⟩ := separated_cons.1 hseparated
      rw [sourceOf_cons, lexemesFrom_source_append hl hends, ih hls]
      rfl

theorem inWord_eq_false_iff {c : Char} : inWord c = false ↔ isDelimiter c = true := by
  rw [inWord, Bool.not_eq_false']

/-- A proper lexeme that ends before a word ends with a delimiter. -/
theorem isDelimiter_of_getLast?_source {l : Lexeme} (hl : l.Proper) {c d : Char} {rest : List Char}
    (hd : inWord d = true) (hends : l.EndsBefore (d :: rest)) (hc : l.source.getLast? = some c) :
    isDelimiter c = true := by
  cases l with
  | blank b =>
    obtain rfl := Option.some.inj hc
    have hblank : Text.isAsciiBlank b = true := hl
    simp [isDelimiter, hblank]
  | token t =>
    cases t with
    | opening | closing | comma =>
      obtain rfl := Option.some.inj hc
      rfl
    | quoted content =>
      rw [Lexeme.source, Token.source, ← List.cons_append, List.getLast?_concat] at hc
      obtain rfl := Option.some.inj hc
      rfl
    | word w =>
      rw [Lexeme.EndsBefore, Text.stopsRun_cons, hd] at hends
      cases hends

section Readings

variable {ls : List Lexeme}

/-- Separated lexemes are a reading of the text that they make up. -/
theorem Separated.isReading (h : Separated ls) : IsReading (sourceOf ls) ls where
  source := rfl
  blank c hc := h.proper (.blank c) hc
  word := by
    rintro before w after rfl
    have hw : (Token.word w).Proper := h.proper (.token (.word w)) (by simp)
    refine ⟨hw.1, ?_, ?_, fun c hc => inWord_eq_false_iff.1 (h.endsBefore before _ after rfl c hc)⟩
    · intro c hc
      simpa [inWord] using List.all_eq_true.1 hw.2 c hc
    · -- The lexeme before the word ends there, so it is no word.
      intro c hc
      obtain rfl | ⟨before, l, rfl⟩ := before.eq_nil_or_concat'
      · cases hc
      · have hl : l.Proper := h.proper l (by simp)
        have hlends := h.endsBefore before l (.token (.word w) :: after) (by simp)
        obtain ⟨d, ds, hcons⟩ := List.exists_cons_of_ne_nil (mt String.toList_eq_nil_iff.1 hw.1)
        have hd : inWord d = true := List.all_eq_true.1 hw.2 d (by simp [hcons])
        rw [sourceOf_cons, Lexeme.source, Token.source, hcons] at hlends
        rw [sourceOf_append, sourceOf_singleton,
          List.getLast?_append_of_ne_nil _ hl.source_ne_nil] at hc
        exact isDelimiter_of_getLast?_source hl hd hlends hc
  quoted := by
    rintro before content after rfl
    have hcontent : (Token.quoted content).Proper := h.proper (.token (.quoted content)) (by simp)
    refine ⟨?_, h.endsBefore before _ after rfl⟩
    intro first k rest hsplit hfirst hrest
    exact Nat.even_iff.2 (quotesPaired_iff.1 hcontent first k rest hsplit hfirst hrest)

/-- The lexemes of a reading are separated. -/
theorem IsReading.separated {cs : List Char} (h : IsReading cs ls) : Separated ls where
  proper := by
    intro l hl
    obtain ⟨before, after, hsplit⟩ := List.append_of_mem hl
    cases l with
    | blank c => exact h.blank c hl
    | token t =>
      cases t with
      | opening | closing | comma => trivial
      | quoted content =>
        refine quotesPaired_iff.2 fun first k rest hcontent hfirst hrest => ?_
        exact Nat.even_iff.1 ((h.quoted before content after hsplit).even _ _ _ hcontent hfirst hrest)
      | word w =>
        have hw := h.word before w after hsplit
        refine ⟨hw.ne_empty, List.all_eq_true.2 fun c hc => ?_⟩
        rw [inWord, hw.noDelimiter c hc]
        rfl
  endsBefore := by
    intro before l after hsplit
    cases l with
    | blank c => trivial
    | token t =>
      cases t with
      | opening | closing | comma => trivial
      | quoted content => exact (h.quoted before content after hsplit).ends
      | word w =>
        exact fun c hc => inWord_eq_false_iff.2 ((h.word before w after hsplit).ends c hc)

/-- The lexemes that are found are the reading of the text. -/
theorem lexemesFrom_eq_ok_iff_isReading {position : Nat} {cs : List Char} :
    lexemesFrom position cs = .ok ls ↔ IsReading cs ls := by
  rw [lexemesFrom_eq_ok_iff]
  constructor
  · rintro ⟨rfl, hseparated⟩
    exact hseparated.isReading
  · intro h
    exact ⟨h.source, h.separated⟩

end Readings

/-! ## Tokens with single spaces -/

/-- Tokens written with single spaces between them. -/
def spaced (ts : List Token) : List Char := [' '].intercalate (ts.map Token.source)

theorem tokenizes_spaced {ts : List Token} (h : ∀ t ∈ ts, t.Proper) : Tokenizes (spaced ts) ts := by
  induction ts with
  | nil => exact tokenizes_nil
  | cons t ts ih =>
    have ht : t.Proper := h t (by simp)
    have hts := ih fun u hu => h u (List.mem_cons_of_mem _ hu)
    cases ts with
    | nil =>
      have hlast := tokenizes_nil.token ht endsToken_nil
      rw [List.append_nil] at hlast
      rw [spaced, List.map_singleton, List.intercalate_singleton]
      exact hlast
    | cons next ts =>
      rw [spaced, List.map_cons, List.map_cons, List.intercalate_cons_cons, List.append_assoc]
      exact hts.blank.token ht (endsToken_blank _)

/-- Reading a text loses nothing, and the blanks in it make no difference.  A text is refused just when
the number of its quotes is odd.  It has some tokens just when it is made up of them and of ASCII
blanks, where words and quoted texts go on as far as they can.  Then these tokens, with single spaces
between them, are read again. -/
theorem tokenize_lossless (cs : List Char) :
    ((∃ start, tokenize cs = .error start) ↔ Odd (cs.count '\'')) ∧
    (∀ ts, tokenize cs = .ok ts ↔ ∃ ls, IsReading cs ls ∧ ls.filterMap Lexeme.token? = ts) ∧
    ∀ ts, tokenize cs = .ok ts → tokenize (spaced ts) = .ok ts := by
  refine ⟨exists_error_iff_odd, fun ts => ?_, fun ts hts => ?_⟩
  · constructor
    · intro hts
      obtain ⟨ls, hls, hfound⟩ := exists_lexemes_of_tokenize hts
      exact ⟨ls, lexemesFrom_eq_ok_iff_isReading.1 hls, hfound⟩
    · rintro ⟨ls, hls, rfl⟩
      rw [tokenize, lexemes, lexemesFrom_eq_ok_iff_isReading.2 hls]
      rfl
  · exact (tokenizes_spaced (proper_of_tokenize hts)).tokenize_eq

/-- Words that touch quoted texts, doubled quotes, an empty quoted text at the end, and a quoted text
that is never closed. -/
theorem tokenize_lossless_touching :
    let text := "a'b''c'é,(\t)''".toList
    let ts : List Token :=
      [.word "a", .quoted "b''c", .word "é", .comma, .opening, .closing, .quoted ""]
    tokenize text = .ok ts ∧ (∃ ls, IsReading text ls ∧ ls.filterMap Lexeme.token? = ts) ∧
      spaced ts = "a 'b''c' é , ( ) ''".toList ∧ tokenize (spaced ts) = .ok ts ∧
      ∃ start, tokenize "a'b''c".toList = .error start := by
  intro text ts
  have hts : tokenize text = .ok ts := by decide +kernel
  obtain ⟨-, hreading, hspaced⟩ := tokenize_lossless text
  obtain ⟨hfails, -, -⟩ := tokenize_lossless "a'b''c".toList
  exact ⟨hts, (hreading ts).1 hts, by decide +kernel, hspaced ts hts, hfails.2 (by decide)⟩

end OData.Filter

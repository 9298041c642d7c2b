import OData.Proofs.Leaves
import OData.Proofs.ParserAgreement

/-!
# Printing and parsing

The text of a well-formed tree parses to the tree it came from, up to the
timestamps in it (`parse_toText_eq_reread`).  Each way to put texts together
spells the tokens of the parts and mirrors one production of the grammar, with
the levels that it goes down (`WritesWithin`).  So the levels of a text are read
off its tree (`Expr.levels`).

What a parser accepts is well-formed (`wellFormed_of_parse`), so its text is
accepted again.  The two trees are the same just when every instant in the first
one is written without a loss and on the clock (`same_reread_iff`).  The second is
so in every tree that was parsed (`onClock_of_parse`), but not in every tree
(`parse_toText_offClock`).
-/

namespace OData.Filter

/-! ## Well-formed trees -/

/-- Whether a literal has a text: a number is finite, and quotes come in pairs. -/
def Literal.isWellFormed : Literal → Bool
  | .number x => x.isFinite
  | .string s => quotesPaired s.toList
  | _ => true

namespace Expr

/-- A tree that has a text. -/
inductive WellFormed : Expr → Prop where
  /-- Both sides have a text. -/
  | and {l r : Expr} : WellFormed l → WellFormed r → WellFormed (.and l r)
  /-- Both sides have a text. -/
  | or {l r : Expr} : WellFormed l → WellFormed r → WellFormed (.or l r)
  /-- The expression has a text. -/
  | not {e : Expr} : WellFormed e → WellFormed (.not e)
  /-- Both sides have a text. -/
  | compare {l r : Expr} (op : Comparison) :
      WellFormed l → WellFormed r → WellFormed (.compare l op r)
  /-- A list has a member. -/
  | isIn {e : Expr} {items : List Expr} : WellFormed e → items ≠ [] →
      (∀ item ∈ items, WellFormed item) → WellFormed (.isIn e items)
  /-- A function is called by a name that is no keyword. -/
  | call {name : String} {args : List Expr} : name ≠ "" → isKeyword name = false →
      isFunctionName name = true → (∀ arg ∈ args, WellFormed arg) → WellFormed (.call name args)
  /-- A path is one word, which names that property and nothing else. -/
  | property {path : PropertyPath} : (Token.word path.toText).Proper →
      isKeyword path.toText = false → leaf path.toText = .property path →
      WellFormed (.property path)
  /-- A literal has a text. -/
  | literal {v : Literal} : v.isWellFormed = true → WellFormed (.literal v)

mutual
/-- The instants in an expression. -/
def instants : Expr → List Instant
  | .and l r | .or l r | .compare l _ r => l.instants ++ r.instants
  | .not e => e.instants
  | .isIn e items => e.instants ++ instantsAll items
  | .call _ args => instantsAll args
  | .literal (.instant t) => [t]
  | .property _ | .literal _ => []

/-- The instants in some expressions. -/
def instantsAll : List Expr → List Instant
  | [] => []
  | e :: es => e.instants ++ instantsAll es
end

mutual
/-- The expression with every instant replaced by the leaf of its text. -/
def reread : Expr → Expr
  | .and l r => .and l.reread r.reread
  | .or l r => .or l.reread r.reread
  | .not e => .not e.reread
  | .compare l op r => .compare l.reread op r.reread
  | .isIn e items => .isIn e.reread (rereadAll items)
  | .call name args => .call name (rereadAll args)
  | .literal (.instant t) => leaf (Timestamp.toText t)
  | .property path => .property path
  | .literal v => .literal v

/-- `reread` on some expressions. -/
def rereadAll : List Expr → List Expr
  | [] => []
  | e :: es => e.reread :: rereadAll es
end

theorem mem_instantsAll {t : Instant} {es : List Expr} :
    t ∈ instantsAll es ↔ ∃ e ∈ es, t ∈ e.instants := by
  induction es with
  | nil => simp [instantsAll]
  | cons e es ih => simp [instantsAll, ih]

theorem rereadAll_eq_map (es : List Expr) : rereadAll es = es.map reread := by
  induction es with
  | nil => rfl
  | cons e es ih => rw [rereadAll, ih, List.map_cons]

theorem writeItems_eq_map (es : List Expr) :
    writeItems es = es.map fun e => e.asOperand e.write := by
  induction es with
  | nil => rfl
  | cons e es ih => rw [writeItems, ih, List.map_cons]

theorem writeArgs_eq_map (es : List Expr) : writeArgs es = es.map write := by
  induction es with
  | nil => rfl
  | cons e es ih => rw [writeArgs, ih, List.map_cons]

end Expr

/-! ## Characters of words -/

theorem inWord_of_isAlphanum {c : Char} (h : c.isAlphanum = true) : inWord c = true := by
  have hne (d : Char) (hd : d.isAlphanum = false) : c ≠ d := Decimal.ne_of_isAlphanum h hd
  simp [inWord, isDelimiter, Text.isAsciiBlank, hne]

theorem inWord_of_isDigit {c : Char} (h : c.isDigit = true) : inWord c = true :=
  inWord_of_isAlphanum (by simp [Char.isAlphanum, h])

/-- The name of a function is one word. -/
theorem proper_of_isFunctionName {name : String} (hne : name ≠ "")
    (h : isFunctionName name = true) : (Token.word name).Proper := by
  refine ⟨hne, List.all_eq_true.2 ?_⟩
  intro c hc
  have hall := List.all_eq_true.1 h c hc
  simp only [Bool.or_eq_true, decide_eq_true_eq] at hall
  rcases hall with (hc | rfl) | rfl
  · exact inWord_of_isAlphanum hc
  · decide
  · decide

/-- The text of a finite number is one word. -/
theorem proper_number {x : Binary64} (h : x.isFinite = true) :
    (Token.word (String.ofList (x.write .plain))).Proper := by
  obtain ⟨hchars, c, cs, hcons, -⟩ := Binary64.write_chars h
  rw [Token.Proper, String.toList_ofList]
  refine ⟨by simp [← String.toList_inj, hcons], List.all_eq_true.2 ?_⟩
  intro d hd
  rcases hchars d hd with hd | rfl | rfl
  · exact inWord_of_isDigit hd
  · decide
  · decide

/-- A timestamp is one word. -/
theorem proper_timestamp (t : Instant) : (Token.word (Timestamp.toText t)).Proper := by
  rw [Token.Proper, Timestamp.toText, String.toList_ofList]
  refine ⟨by simp [← String.toList_inj, Timestamp.write_eq], List.all_eq_true.2 ?_⟩
  intro c hc
  have hclass := Timestamp.isTimestampChar_of_mem_write hc
  simp only [Timestamp.isTimestampChar, Bool.or_eq_true, decide_eq_true_eq] at hclass
  rcases hclass with (((((hc | rfl) | rfl) | rfl) | rfl) | rfl) | rfl
  · exact inWord_of_isDigit hc
  · decide
  · decide
  · decide
  · decide
  · decide
  · decide

/-! ## Texts that spell tokens -/

/-- A text has some tokens, whatever follows it that does not go on its last one. -/
def Spells (cs : List Char) (ts : List Token) : Prop :=
  ∀ rest us, EndsToken rest → Tokenizes rest us → Tokenizes (cs ++ rest) (ts ++ us)

section Spells

variable {cs ds : List Char} {ts us : List Token}

theorem Spells.tokenize_eq (h : Spells cs ts) : tokenize cs = .ok ts := by
  have htokens := h [] [] endsToken_nil tokenizes_nil
  rw [List.append_nil, List.append_nil] at htokens
  exact htokens.tokenize_eq

theorem spells_nil : Spells [] [] := fun _ _ _ h => h

theorem spells_token {t : Token} (ht : t.Proper) : Spells t.source [t] :=
  fun _ _ hrest h => h.token ht hrest

theorem Spells.grouped (h : Spells cs ts) :
    Spells (Filter.grouped cs) (.opening :: (ts ++ [.closing])) := by
  intro rest vs hrest hvs
  have hgroup := (h (')' :: rest) (.closing :: vs) (endsToken_closing rest) hvs.closing).opening
  simpa [Filter.grouped] using hgroup

/-- A `not` stands before a text. -/
theorem Spells.not (h : Spells cs ts) : Spells (['n', 'o', 't', ' '] ++ cs) (.word "not" :: ts) := by
  intro rest us hrest hus
  have hword : (Token.word "not").Proper := by decide
  exact (h rest us hrest hus).blank.token hword (endsToken_blank _)

/-- A keyword with a blank on each side stands between two texts. -/
theorem Spells.between (h : Spells cs ts) (h' : Spells ds us) {keyword : String}
    (hk : (Token.word keyword).Proper) :
    Spells (cs ++ Filter.between keyword ++ ds) (ts ++ .word keyword :: us) := by
  intro rest vs hrest hvs
  have hright := (h' rest vs hrest hvs).blank
  have hkeyword := (hright.token hk (endsToken_blank _)).blank
  have hleft := h _ _ (endsToken_blank _) hkeyword
  simpa [Filter.between, Token.source] using hleft

/-- A text before a comma. -/
theorem Spells.comma (h : Spells cs ts) (h' : Spells ds us) :
    Spells (cs ++ ',' :: ' ' :: ds) (ts ++ .comma :: us) := by
  intro rest vs hrest hvs
  have hleft := h _ _ (endsToken_comma _) (h' rest vs hrest hvs).blank.comma
  simpa using hleft

end Spells

/-! ## Texts that write expressions -/

/-- A text writes a symbol that stands for an expression, within some levels. -/
def WritesWithin (n : Nat) (s : Symbol) (cs : List Char) (e : Expr) : Prop :=
  ∃ ts, DerivesWithin n s ts e ∧ Spells cs ts

/-- A text writes a symbol that stands for an expression. -/
def Writes (s : Symbol) (cs : List Char) (e : Expr) : Prop :=
  ∃ ts, Derives s ts e ∧ Spells cs ts

section WritesWithin

variable {n m : Nat} {s : Symbol} {cs ds : List Char} {l r e : Expr}

theorem WritesWithin.mono (h : WritesWithin n s cs e) (hle : n ≤ m) : WritesWithin m s cs e := by
  obtain ⟨ts, hd, hs⟩ := h
  exact ⟨ts, hd.mono hle, hs⟩

theorem WritesWithin.writes (h : WritesWithin n s cs e) : Writes s cs e := by
  obtain ⟨ts, hd, hs⟩ := h
  exact ⟨ts, hd.derives, hs⟩

theorem WritesWithin.comparison (h : WritesWithin n .operand cs e) :
    WritesWithin n .comparison cs e := by
  obtain ⟨ts, hd, hs⟩ := h
  exact ⟨ts, .operand hd, hs⟩

theorem WritesWithin.negation (h : WritesWithin n .comparison cs e) :
    WritesWithin n .negation cs e := by
  obtain ⟨ts, hd, hs⟩ := h
  exact ⟨ts, .comparison hd, hs⟩

theorem WritesWithin.conjunction (h : WritesWithin n .negation cs e) :
    WritesWithin n .conjunction cs e := by
  obtain ⟨ts, hd, hs⟩ := h
  exact ⟨ts, .negation hd, hs⟩

theorem WritesWithin.disjunction (h : WritesWithin n .conjunction cs e) :
    WritesWithin n .disjunction cs e := by
  obtain ⟨ts, hd, hs⟩ := h
  exact ⟨ts, .conjunction hd, hs⟩

theorem WritesWithin.grouped (h : WritesWithin n .disjunction cs e) :
    WritesWithin (n + 1) .operand (Filter.grouped cs) e := by
  obtain ⟨ts, hd, hs⟩ := h
  exact ⟨_, .group hd, hs.grouped⟩

theorem writesWithin_word {w : String} (hw : (Token.word w).Proper) (hk : isKeyword w = false) :
    WritesWithin n .operand w.toList (leaf w) := ⟨_, .word hk, spells_token hw⟩

/-- The right side of a disjunction is one level deeper. -/
theorem WritesWithin.or (hl : WritesWithin n .negation cs l) (hr : WritesWithin m .negation ds r) :
    WritesWithin (max n (m + 1)) .disjunction (cs ++ between "or" ++ ds) (.or l r) := by
  obtain ⟨k, hk⟩ : ∃ k, max n (m + 1) = k + 1 := ⟨max n (m + 1) - 1, by omega⟩
  obtain ⟨ts, hd, hs⟩ := (hl.mono (m := k + 1) (by omega)).conjunction
  obtain ⟨us, hd', hs'⟩ := (hr.mono (m := k) (by omega)).conjunction.disjunction
  rw [hk]
  exact ⟨_, .or hd hd', hs.between hs' (by decide)⟩

/-- The right side of a conjunction is one level deeper. -/
theorem WritesWithin.and (hl : WritesWithin n .negation cs l)
    (hr : WritesWithin m .negation ds r) :
    WritesWithin (max n (m + 1)) .conjunction (cs ++ between "and" ++ ds) (.and l r) := by
  obtain ⟨k, hk⟩ : ∃ k, max n (m + 1) = k + 1 := ⟨max n (m + 1) - 1, by omega⟩
  obtain ⟨ts, hd, hs⟩ := hl.mono (m := k + 1) (by omega)
  obtain ⟨us, hd', hs'⟩ := (hr.mono (m := k) (by omega)).conjunction
  rw [hk]
  exact ⟨_, .and hd hd', hs.between hs' (by decide)⟩

theorem WritesWithin.not (h : WritesWithin n .negation cs e) :
    WritesWithin (n + 1) .negation (['n', 'o', 't', ' '] ++ cs) (.not e) := by
  obtain ⟨ts, hd, hs⟩ := h
  exact ⟨_, .not hd, hs.not⟩

theorem WritesWithin.compare (hl : WritesWithin n .operand cs l) (op : Comparison)
    (hr : WritesWithin m .operand ds r) :
    WritesWithin (max n m) .comparison (cs ++ between op.keyword ++ ds) (.compare l op r) := by
  obtain ⟨ts, hd, hs⟩ := hl.mono (Nat.le_max_left n m)
  obtain ⟨us, hd', hs'⟩ := hr.mono (Nat.le_max_right n m)
  exact ⟨_, .compare op hd hd', hs.between hs' (by cases op <;> decide)⟩

end WritesWithin

section Writes

variable {s : Symbol} {cs ds : List Char} {l r e : Expr}

/-- What a text writes it writes within some levels. -/
theorem Writes.within (h : Writes s cs e) : ∃ n, WritesWithin n s cs e := by
  obtain ⟨ts, hd, hs⟩ := h
  exact ⟨ts.length, ts, hd.within (Nat.le_succ _), hs⟩

theorem Writes.comparison (h : Writes .operand cs e) : Writes .comparison cs e := by
  obtain ⟨n, h⟩ := h.within
  exact h.comparison.writes

theorem Writes.negation (h : Writes .comparison cs e) : Writes .negation cs e := by
  obtain ⟨n, h⟩ := h.within
  exact h.negation.writes

theorem Writes.conjunction (h : Writes .negation cs e) : Writes .conjunction cs e := by
  obtain ⟨n, h⟩ := h.within
  exact h.conjunction.writes

theorem Writes.disjunction (h : Writes .conjunction cs e) : Writes .disjunction cs e := by
  obtain ⟨n, h⟩ := h.within
  exact h.disjunction.writes

theorem writes_word {w : String} (hw : (Token.word w).Proper) (hk : isKeyword w = false) :
    Writes .operand w.toList (leaf w) := (writesWithin_word (n := 0) hw hk).writes

theorem Writes.or (hl : Writes .negation cs l) (hr : Writes .negation ds r) :
    Writes .disjunction (cs ++ between "or" ++ ds) (.or l r) := by
  obtain ⟨n, hl⟩ := hl.within
  obtain ⟨m, hr⟩ := hr.within
  exact (hl.or hr).writes

theorem Writes.not (h : Writes .negation cs e) :
    Writes .negation (['n', 'o', 't', ' '] ++ cs) (.not e) := by
  obtain ⟨n, h⟩ := h.within
  exact h.not.writes

end Writes

/-! ## Lists -/

/-- Texts that spell tokens one by one spell parts with commas between them. -/
theorem exists_parts {α : Type} {D : List Token → Expr → Prop} {xs : List α}
    {text : α → List Char} {tree : α → Expr}
    (h : ∀ x ∈ xs, ∃ ts, D ts (tree x) ∧ Spells (text x) ts) :
    ∃ parts, partTrees parts = xs.map tree ∧ (∀ part ∈ parts, D part.1 part.2) ∧
      Spells (separated (xs.map text)) (partTokens parts) := by
  induction xs with
  | nil => exact ⟨[], rfl, by simp, spells_nil⟩
  | cons x xs ih =>
    obtain ⟨ts, hd, hs⟩ := h x (by simp)
    obtain ⟨parts, htrees, hparts, hspells⟩ := ih fun y hy => h y (List.mem_cons_of_mem _ hy)
    refine ⟨(ts, tree x) :: parts, ?_, ?_, ?_⟩
    · rw [List.map_cons, ← htrees]
      rfl
    · intro part hpart
      rcases List.mem_cons.1 hpart with rfl | hpart
      · exact hd
      · exact hparts part hpart
    · cases xs with
      | nil =>
        obtain rfl : parts = [] := List.map_eq_nil_iff.1 htrees
        simpa [separated, partTokens, commaSeparated] using hs
      | cons next xs =>
        cases parts with
        | nil => cases htrees
        | cons part parts =>
          rw [partTokens_cons_cons]
          simpa [separated] using hs.comma hspells

theorem WritesWithin.isIn {n m : Nat} {cs : List Char} {e : Expr}
    (h : WritesWithin n .operand cs e) {items : List Expr} (hne : items ≠ [])
    {text : Expr → List Char} {tree : Expr → Expr}
    (hitems : ∀ item ∈ items, WritesWithin m .operand (text item) (tree item)) :
    WritesWithin (max n m) .comparison
      (cs ++ between "in" ++ Filter.grouped (separated (items.map text)))
      (.isIn e (items.map tree)) := by
  obtain ⟨ts, hd, hs⟩ := h.mono (Nat.le_max_left n m)
  obtain ⟨parts, htrees, hparts, hspells⟩ := exists_parts (D := DerivesWithin (max n m) .operand)
    fun item hitem => (hitems item hitem).mono (Nat.le_max_right n m)
  have hparts_ne : parts ≠ [] := by
    rintro rfl
    exact hne (List.map_eq_nil_iff.1 htrees.symm)
  rw [← htrees]
  exact ⟨_, .isIn hd hparts_ne hparts, hs.between hspells.grouped (by decide)⟩

theorem writesWithin_call {n : Nat} {name : String} (hne : name ≠ "")
    (hk : isKeyword name = false) (hf : isFunctionName name = true) {args : List Expr}
    {text : Expr → List Char} {tree : Expr → Expr}
    (hargs : ∀ arg ∈ args, WritesWithin n .disjunction (text arg) (tree arg)) :
    WritesWithin (n + 1) .operand (name.toList ++ Filter.grouped (separated (args.map text)))
      (.call name (args.map tree)) := by
  obtain ⟨parts, htrees, hparts, hspells⟩ := exists_parts (D := DerivesWithin n .disjunction) hargs
  rw [← htrees]
  refine ⟨_, .call hk hf hparts, ?_⟩
  intro rest us hrest hus
  have hgroup := hspells.grouped rest us hrest hus
  have hword := hgroup.token (proper_of_isFunctionName hne hf) (endsToken_opening _)
  simpa [Token.source] using hword

/-! ## Expressions -/

namespace Expr

/-- The symbol that the text of an expression writes. -/
def symbol : Expr → Symbol
  | .or .. => .disjunction
  | .and .. => .conjunction
  | .not _ => .negation
  | .compare .. | .isIn .. => .comparison
  | .call .. | .property _ | .literal _ => .operand

/-- The levels of an expression as a side of a connective, given those of its text. -/
def asTermLevels (e : Expr) (n : Nat) : Nat := if e.isLogical then n + 1 else n

/-- The levels of an expression as a side of a comparison, given those of its text. -/
def asOperandLevels (e : Expr) (n : Nat) : Nat := if e.isOperand then n else n + 1

mutual
/-- The levels that the text of an expression goes down. -/
def levels : Expr → Nat
  | .and l r | .or l r => max (l.asTermLevels l.levels) (r.asTermLevels r.levels + 1)
  | .not e => e.asTermLevels e.levels + 1
  | .compare l _ r => max (l.asOperandLevels l.levels) (r.asOperandLevels r.levels)
  | .isIn e items => max (e.asOperandLevels e.levels) (itemLevels items)
  | .call _ args => argLevels args + 1
  | .property _ | .literal _ => 0

/-- The levels of the items of a list, each as a side of a comparison. -/
def itemLevels : List Expr → Nat
  | [] => 0
  | e :: es => max (e.asOperandLevels e.levels) (itemLevels es)

/-- The levels of the arguments of a call. -/
def argLevels : List Expr → Nat
  | [] => 0
  | e :: es => max e.levels (argLevels es)
end

theorem itemLevels_le_iff {es : List Expr} {n : Nat} :
    itemLevels es ≤ n ↔ ∀ e ∈ es, e.asOperandLevels e.levels ≤ n := by
  induction es with
  | nil => simp [itemLevels]
  | cons e es ih => rw [itemLevels, Nat.max_le, ih, List.forall_mem_cons]

theorem argLevels_le_iff {es : List Expr} {n : Nat} :
    argLevels es ≤ n ↔ ∀ e ∈ es, e.levels ≤ n := by
  induction es with
  | nil => simp [argLevels]
  | cons e es ih => rw [argLevels, Nat.max_le, ih, List.forall_mem_cons]

variable {n : Nat} {e e' : Expr} {cs : List Char}

theorem writesWithin_disjunction (h : WritesWithin n e.symbol cs e') :
    WritesWithin n .disjunction cs e' := by
  cases e with
  | or => exact h
  | and => exact WritesWithin.disjunction h
  | not => exact (WritesWithin.conjunction h).disjunction
  | compare => exact (WritesWithin.negation h).conjunction.disjunction
  | isIn => exact (WritesWithin.negation h).conjunction.disjunction
  | call => exact (WritesWithin.comparison h).negation.conjunction.disjunction
  | property => exact (WritesWithin.comparison h).negation.conjunction.disjunction
  | literal => exact (WritesWithin.comparison h).negation.conjunction.disjunction

/-- A side of a connective is a negation, in parentheses if it is a conjunction or a disjunction. -/
theorem writesWithin_asTerm (h : WritesWithin n e.symbol cs e') :
    WritesWithin (e.asTermLevels n) .negation (e.asTerm cs) e' := by
  have hgroup := (writesWithin_disjunction h).grouped.comparison.negation
  cases e with
  | or => exact hgroup
  | and => exact hgroup
  | not => exact h
  | compare => exact WritesWithin.negation h
  | isIn => exact WritesWithin.negation h
  | call => exact (WritesWithin.comparison h).negation
  | property => exact (WritesWithin.comparison h).negation
  | literal => exact (WritesWithin.comparison h).negation

/-- A side of a comparison is an operand, in parentheses if it is no leaf or call. -/
theorem writesWithin_asOperand (h : WritesWithin n e.symbol cs e') :
    WritesWithin (e.asOperandLevels n) .operand (e.asOperand cs) e' := by
  have hgroup := (writesWithin_disjunction h).grouped
  cases e with
  | or => exact hgroup
  | and => exact hgroup
  | not => exact hgroup
  | compare => exact hgroup
  | isIn => exact hgroup
  | call => exact h
  | property => exact h
  | literal => exact h

/-- The text of a well-formed tree writes the tree with its instants reread, within the levels of the
tree. -/
theorem writesWithin_write {e : Expr} (h : e.WellFormed) :
    WritesWithin e.levels e.symbol e.write e.reread := by
  induction h with
  | and _ _ ihl ihr =>
    rw [write, reread, levels]
    exact (writesWithin_asTerm ihl).and (writesWithin_asTerm ihr)
  | or _ _ ihl ihr =>
    rw [write, reread, levels]
    exact (writesWithin_asTerm ihl).or (writesWithin_asTerm ihr)
  | not _ ih =>
    rw [write, reread, levels]
    exact (writesWithin_asTerm ih).not
  | compare op _ _ ihl ihr =>
    rw [write, reread, levels]
    exact (writesWithin_asOperand ihl).compare op (writesWithin_asOperand ihr)
  | @isIn _ items _ hne _ ih ihs =>
    rw [write, reread, levels, writeItems_eq_map, rereadAll_eq_map]
    have hle := itemLevels_le_iff.1 (Nat.le_refl (itemLevels items))
    exact (writesWithin_asOperand ih).isIn hne fun item hitem =>
      (writesWithin_asOperand (ihs item hitem)).mono (hle item hitem)
  | @call _ args hne hk hf _ ihs =>
    rw [write, reread, levels, writeArgs_eq_map, rereadAll_eq_map]
    have hle := argLevels_le_iff.1 (Nat.le_refl (argLevels args))
    exact writesWithin_call hne hk hf fun arg harg =>
      (writesWithin_disjunction (ihs arg harg)).mono (hle arg harg)
  | @property path hw hk hleaf =>
    have hwrites := writesWithin_word (n := 0) hw hk
    rwa [hleaf] at hwrites
  | @literal v hv =>
    cases v with
    | null => exact writesWithin_word (w := "null") (by decide) (by decide)
    | bool b =>
      cases b with
      | true => exact writesWithin_word (w := "true") (by decide) (by decide)
      | false => exact writesWithin_word (w := "false") (by decide) (by decide)
    | number x =>
      have hstart := startsNumber_number hv
      have hwrites := writesWithin_word (n := 0) (proper_number hv)
        (isKeyword_of_startsNumber hstart)
      rwa [leaf_number hv, String.toList_ofList] at hwrites
    | string s => exact ⟨_, .quoted s, spells_token (t := .quoted s) hv⟩
    | instant t =>
      have hstart := startsNumber_timestamp t
      have hwrites := writesWithin_word (n := 0) (proper_timestamp t)
        (isKeyword_of_startsNumber hstart)
      rwa [Timestamp.toText, String.toList_ofList] at hwrites

/-- The text of a well-formed tree writes the tree with its instants reread. -/
theorem writes_toText {e : Expr} (h : e.WellFormed) :
    WritesWithin e.levels .disjunction e.toText.toList e.reread := by
  rw [toText, String.toList_ofList]
  exact writesWithin_disjunction (writesWithin_write h)

end Expr

/-- A text that writes an expression is accepted, under limits as great as itself. -/
theorem parse_of_writes {text : String} {e : Expr} (h : Writes .disjunction text.toList e)
    {limits : Limits} (hlength : text.utf8ByteSize ≤ limits.maxFilterLength)
    (hnodes : text.utf8ByteSize ≤ limits.maxNodes) (hdepth : text.utf8ByteSize ≤ limits.maxDepth) :
    parse limits text = .ok e := by
  obtain ⟨ts, hd, hs⟩ := h
  have hts := hs.tokenize_eq
  have hcount := length_le_utf8ByteSize hts
  have hsize := hd.size_le
  exact (parse_eq_ok_iff hts hlength (by omega)).2 (parseTokens_of_derives hd (by omega))

/-- The text of a well-formed tree is accepted, under limits as great as the text, and gives the tree
with its instants reread. -/
theorem parse_toText_eq_reread {e : Expr} (h : e.WellFormed) {limits : Limits}
    (hlength : e.toText.utf8ByteSize ≤ limits.maxFilterLength)
    (hnodes : e.toText.utf8ByteSize ≤ limits.maxNodes)
    (hdepth : e.toText.utf8ByteSize ≤ limits.maxDepth) : parse limits e.toText = .ok e.reread := by
  exact parse_of_writes (Expr.writes_toText h).writes hlength hnodes hdepth

/-! ## Trees read again -/

namespace Expr

theorem rereadAll_eq_self {es : List Expr} (h : ∀ e ∈ es, e.reread = e) : rereadAll es = es := by
  rw [rereadAll_eq_map, List.map_congr_left h, List.map_id']

/-- Rereading changes nothing if every instant is on the clock and written without a loss. -/
theorem reread_eq_self {e : Expr} (h : e.WellFormed)
    (ht : ∀ t ∈ e.instants, Timestamp.isLossless t = true ∧ t.OnClock) : e.reread = e := by
  induction h with
  | and _ _ ihl ihr =>
    simp only [instants, List.mem_append] at ht
    rw [reread, ihl fun t h => ht t (.inl h), ihr fun t h => ht t (.inr h)]
  | or _ _ ihl ihr =>
    simp only [instants, List.mem_append] at ht
    rw [reread, ihl fun t h => ht t (.inl h), ihr fun t h => ht t (.inr h)]
  | not _ ih => rw [reread, ih ht]
  | compare op _ _ ihl ihr =>
    simp only [instants, List.mem_append] at ht
    rw [reread, ihl fun t h => ht t (.inl h), ihr fun t h => ht t (.inr h)]
  | isIn _ _ _ ih ihs =>
    simp only [instants, List.mem_append, mem_instantsAll] at ht
    rw [reread, ih fun t h => ht t (.inl h), rereadAll_eq_self]
    intro item hitem
    exact ihs item hitem fun t h => ht t (.inr ⟨item, hitem, h⟩)
  | call _ _ _ _ ihs =>
    simp only [instants, mem_instantsAll] at ht
    rw [reread, rereadAll_eq_self]
    intro arg harg
    exact ihs arg harg fun t h => ht t ⟨arg, harg, h⟩
  | property => rfl
  | @literal v _ =>
    cases v with
    | instant t => exact leaf_instant_eq_self_iff.2 (ht t (by simp [instants]))
    | null => rfl
    | bool => rfl
    | number => rfl
    | string => rfl

theorem sameAll_map {es : List Expr} {f : Expr → Expr} :
    sameAll es (es.map f) = true ↔ ∀ e ∈ es, e.same (f e) = true := by
  induction es with
  | nil => simp [sameAll]
  | cons e es ih => simp [sameAll, ih]

/-- A tree without NaN is the same as itself. -/
theorem same_self {e : Expr} (h : e.WellFormed) : e.same e = true := by
  induction h with
  | and _ _ ihl ihr => simp only [same, ihl, ihr, Bool.and_self]
  | or _ _ ihl ihr => simp only [same, ihl, ihr, Bool.and_self]
  | not _ ih => simp only [same, ih]
  | compare op _ _ ihl ihr => simp only [same, ihl, ihr, decide_true, Bool.and_self]
  | @isIn e items _ _ _ ih ihs =>
    have hitems : sameAll items items = true := by
      have hmap := (sameAll_map (f := id)).2 ihs
      rwa [List.map_id] at hmap
    simp only [same, ih, hitems, Bool.and_self]
  | @call name args _ _ _ _ ihs =>
    have hargs : sameAll args args = true := by
      have hmap := (sameAll_map (f := id)).2 ihs
      rwa [List.map_id] at hmap
    simp only [same, hargs, decide_true, Bool.and_self]
  | property => simp only [same, decide_true]
  | @literal v hv =>
    cases v with
    | number x => exact equal_self hv
    | null => rfl
    | bool b => simp [same, Literal.same]
    | string s => simp [same, Literal.same]
    | instant t => simp [same, Literal.same]

/-- Only an instant on the clock that is written without a loss is the same as what its text is reread as. -/
theorem isLossless_of_same_leaf {t : Instant}
    (h : (literal (.instant t)).same (leaf (Timestamp.toText t)) = true) :
    Timestamp.isLossless t = true ∧ t.OnClock := by
  refine leaf_instant_eq_self_iff.1 ?_
  cases hleaf : leaf (Timestamp.toText t) with
  | literal v =>
    rw [hleaf] at h
    cases v with
    | instant u => simpa [same, Literal.same, eq_comm] using h
    | null => simp [same, Literal.same] at h
    | bool => simp [same, Literal.same] at h
    | number => simp [same, Literal.same] at h
    | string => simp [same, Literal.same] at h
  | _ => simp [hleaf, same] at h

/-- A tree that is the same as the tree reread has only instants on the clock that are written without a
loss. -/
theorem isLossless_of_same_reread {e : Expr} (h : e.WellFormed) (hsame : e.same e.reread = true) :
    ∀ t ∈ e.instants, Timestamp.isLossless t = true ∧ t.OnClock := by
  intro t ht
  induction h with
  | and _ _ ihl ihr =>
    simp only [reread, same, Bool.and_eq_true] at hsame
    rcases List.mem_append.1 ht with ht | ht
    · exact ihl hsame.1 ht
    · exact ihr hsame.2 ht
  | or _ _ ihl ihr =>
    simp only [reread, same, Bool.and_eq_true] at hsame
    rcases List.mem_append.1 ht with ht | ht
    · exact ihl hsame.1 ht
    · exact ihr hsame.2 ht
  | not _ ih => exact ih hsame ht
  | compare op _ _ ihl ihr =>
    simp only [reread, same, Bool.and_eq_true] at hsame
    rcases List.mem_append.1 ht with ht | ht
    · exact ihl hsame.1.2 ht
    · exact ihr hsame.2 ht
  | isIn _ _ _ ih ihs =>
    simp only [reread, same, rereadAll_eq_map, Bool.and_eq_true, sameAll_map] at hsame
    rcases List.mem_append.1 ht with ht | ht
    · exact ih hsame.1 ht
    · obtain ⟨item, hitem, ht⟩ := mem_instantsAll.1 ht
      exact ihs item hitem (hsame.2 item hitem) ht
  | call _ _ _ _ ihs =>
    simp only [reread, same, rereadAll_eq_map, Bool.and_eq_true, sameAll_map] at hsame
    obtain ⟨arg, harg, ht⟩ := mem_instantsAll.1 ht
    exact ihs arg harg (hsame.2 arg harg) ht
  | property => cases ht
  | @literal v _ =>
    cases v with
    | instant u =>
      obtain rfl := List.mem_singleton.1 ht
      exact isLossless_of_same_leaf hsame
    | null => cases ht
    | bool => cases ht
    | number => cases ht
    | string => cases ht

/-- A tree is the same as the tree reread just when every instant in it is on the clock and written
without a loss. -/
theorem same_reread_iff {e : Expr} (h : e.WellFormed) :
    e.same e.reread = true ↔ ∀ t ∈ e.instants, Timestamp.isLossless t = true ∧ t.OnClock := by
  constructor
  · exact isLossless_of_same_reread h
  · intro ht
    rw [reread_eq_self h ht]
    exact same_self h

end Expr

/-- A well-formed tree whose instants are on the clock, in whole milliseconds of years of four digits, is
what its text parses to, with the number of its nodes, under limits as great as the text. -/
theorem parse_toText {e : Expr} (h : e.WellFormed)
    (ht : ∀ t ∈ e.instants, Timestamp.isLossless t = true ∧ t.OnClock) {limits : Limits}
    (hlength : e.toText.utf8ByteSize ≤ limits.maxFilterLength)
    (hnodes : e.toText.utf8ByteSize ≤ limits.maxNodes)
    (hdepth : e.toText.utf8ByteSize ≤ limits.maxDepth) :
    ∃ p, parseFilter limits e.toText = .ok p ∧ p.expr = e ∧ e.same p.expr = true ∧
      p.nodeCount = e.size := by
  have hparse := parse_toText_eq_reread h hlength hnodes hdepth
  rw [Expr.reread_eq_self h ht] at hparse
  exact ⟨⟨e, e.size⟩, parseFilter_eq_ok_iff.2 ⟨hparse, rfl⟩, rfl, Expr.same_self h, rfl⟩

/-- A tree with every connective, a list, a call and a leap second is what its text parses to. -/
theorem parse_toText_mixed :
    let leap : Instant :=
      ⟨⟨2016, 12, 31, by decide, by decide, by decide⟩, 86399, 1500000000, by decide, by decide⟩
    let call : Expr := .call "f" [.property ⟨["a", "b"]⟩, .not (.literal .null)]
    let e : Expr := .not (.or (.compare call .eq (.literal (.string "x''y")))
      (.isIn (.literal (.number (.ofNat 3))) [.literal (.instant leap)]))
    let limits : Limits := { maxDepth := 100 }
    e.WellFormed ∧ (∀ t ∈ e.instants, Timestamp.isLossless t = true ∧ t.OnClock) ∧
      e.toText.utf8ByteSize ≤ limits.maxFilterLength ∧ e.toText.utf8ByteSize ≤ limits.maxNodes ∧
      e.toText.utf8ByteSize ≤ limits.maxDepth ∧
      ∃ p, parseFilter limits e.toText = .ok p ∧ p.expr = e ∧ e.same p.expr = true ∧
        p.nodeCount = e.size := by
  intro leap call e limits
  have hcall : call.WellFormed := by
    refine .call (by decide) (by decide) (by decide) ?_
    intro arg harg
    simp only [List.mem_cons, List.not_mem_nil, or_false] at harg
    rcases harg with rfl | rfl
    · exact .property (by decide) (by decide) rfl
    · exact .not (.literal rfl)
  have hitems : ∀ item ∈ [Expr.literal (.instant leap)], item.WellFormed := by
    intro item hitem
    obtain rfl := List.mem_singleton.1 hitem
    exact .literal rfl
  have hlist : (Expr.isIn (.literal (.number (.ofNat 3))) [.literal (.instant leap)]).WellFormed :=
    .isIn (.literal (by decide +kernel)) (by simp) hitems
  have he : e.WellFormed := .not (.or (.compare .eq hcall (.literal rfl)) hlist)
  have ht : ∀ t ∈ e.instants, Timestamp.isLossless t = true ∧ t.OnClock := by decide +kernel
  have hlength : e.toText.utf8ByteSize ≤ limits.maxFilterLength := by decide +kernel
  have hdepth : e.toText.utf8ByteSize ≤ limits.maxDepth := by decide +kernel
  exact ⟨he, ht, hlength, hlength, hdepth, parse_toText he ht hlength hlength hdepth⟩

/-- A leap second within a minute is written as the second that follows, and is read back as that one. -/
theorem parse_toText_offClock :
    let t : Instant :=
      ⟨⟨2024, 6, 30, by decide, by decide, by decide⟩, 86164, 1333000000, by decide, by decide⟩
    let e : Expr := .compare (.property ⟨["a"]⟩) .eq (.literal (.instant t))
    e.WellFormed ∧ (∀ u ∈ e.instants, Timestamp.isLossless u = true) ∧
      e.toText = "a eq 2024-06-30T23:56:05.333Z" ∧ e.toText.utf8ByteSize ≤ 64 ∧
      ∃ p, parseFilter {} e.toText = .ok p ∧ p.expr ≠ e ∧ e.same p.expr = false := by
  intro t e
  have he : e.WellFormed := .compare .eq (.property (by decide) (by decide) rfl) (.literal rfl)
  have hlength : e.toText.utf8ByteSize ≤ ({} : Limits).maxFilterLength := by decide +kernel
  have hdepth : e.toText.utf8ByteSize ≤ ({} : Limits).maxDepth := by decide +kernel
  have hparse := parse_toText_eq_reread he hlength hlength hdepth
  have hclock : ¬ t.OnClock := by decide
  have hsame : e.same e.reread = false := by
    rw [← Bool.not_eq_true, Expr.same_reread_iff he]
    intro hall
    exact hclock (hall t (by simp [e, Expr.instants])).2
  have hne : e.reread ≠ e := by
    intro heq
    rw [heq, Expr.same_self he] at hsame
    cases hsame
  exact ⟨he, by decide +kernel, by decide +kernel, hdepth, ⟨e.reread, e.reread.size⟩,
    parseFilter_eq_ok_iff.2 ⟨hparse, rfl⟩, hne, hsame⟩

/-! ## What a parser accepts -/

/-- The literal that a word writes is well-formed. -/
theorem isWellFormed_of_literal? {w : String} {v : Literal} (h : literal? w = some v) :
    v.isWellFormed = true := by
  rw [literal?] at h
  split at h
  · cases h
    rfl
  · split at h
    · cases h
      rfl
    · split at h
      · cases h
        rfl
      · split at h
        · cases hx : finiteNumber? w.toList with
          | some x =>
            rw [hx] at h
            cases h
            exact (Option.filter_eq_some_iff.1 hx).2
          | none =>
            rw [hx] at h
            obtain ⟨t, -, rfl⟩ := Option.map_eq_some_iff.1 h
            rfl
        · cases h

/-- The names of a path with slashes between them are its text. -/
theorem toText_ofText (w : String) : (PropertyPath.ofText w).toText = w := by
  rw [← String.toList_inj, PropertyPath.toText, PropertyPath.ofText, String.toList_intercalate,
    List.map_map]
  have hlists : String.toList ∘ String.ofList = id := funext fun cs => String.toList_ofList
  rw [hlists, List.map_id]
  exact Text.intercalate_pieces '/' w.toList

/-- The leaf of a word that is no keyword is well-formed. -/
theorem wellFormed_leaf {w : String} (hw : (Token.word w).Proper) (hk : isKeyword w = false) :
    (leaf w).WellFormed := by
  cases hl : literal? w with
  | some v =>
    have hleaf : leaf w = .literal v := by rw [leaf, hl]
    rw [hleaf]
    exact .literal (isWellFormed_of_literal? hl)
  | none =>
    have hleaf : leaf w = .property (.ofText w) := by rw [leaf, hl]
    have htext := toText_ofText w
    rw [hleaf]
    refine .property ?_ ?_ ?_
    · rwa [htext]
    · rwa [htext]
    · rw [htext, hleaf]

/-- The tokens of a part are among the tokens of all parts. -/
theorem mem_partTokens {parts : List (List Token × Expr)} {part : List Token × Expr}
    (h : part ∈ parts) {t : Token} (ht : t ∈ part.1) : t ∈ partTokens parts := by
  induction parts with
  | nil => cases h
  | cons first rest ih =>
    cases rest with
    | nil =>
      obtain rfl := List.mem_singleton.1 h
      exact ht
    | cons next rest =>
      rw [partTokens_cons_cons]
      rcases List.mem_cons.1 h with rfl | h
      · exact List.mem_append_left _ ht
      · exact List.mem_append_right _ (List.mem_cons_of_mem _ (ih h))

/-- What the grammar derives from proper tokens is well-formed. -/
theorem Derives.wellFormed {s : Symbol} {ts : List Token} {e : Expr} (h : Derives s ts e)
    (hts : ∀ t ∈ ts, t.Proper) : e.WellFormed := by
  induction h with
  | conjunction _ ih => exact ih hts
  | or _ _ ihl ihr =>
    simp only [List.mem_append, List.mem_cons] at hts
    exact .or (ihl fun t h => hts t (.inl h)) (ihr fun t h => hts t (.inr (.inr h)))
  | negation _ ih => exact ih hts
  | and _ _ ihl ihr =>
    simp only [List.mem_append, List.mem_cons] at hts
    exact .and (ihl fun t h => hts t (.inl h)) (ihr fun t h => hts t (.inr (.inr h)))
  | comparison _ ih => exact ih hts
  | not _ ih => exact .not (ih fun t h => hts t (List.mem_cons_of_mem _ h))
  | operand _ ih => exact ih hts
  | compare op _ _ ihl ihr =>
    simp only [List.mem_append, List.mem_cons] at hts
    exact .compare op (ihl fun t h => hts t (.inl h)) (ihr fun t h => hts t (.inr (.inr h)))
  | @isIn _ _ items _ hne _ ih ihs =>
    simp only [List.mem_append, List.mem_cons] at hts
    refine .isIn (ih fun t h => hts t (.inl h)) (by simpa [partTrees] using hne) ?_
    intro item hitem
    obtain ⟨part, hpart, rfl⟩ := List.mem_map.1 hitem
    exact ihs part hpart fun t h =>
      hts t (.inr (.inr (.inr (.inl (mem_partTokens hpart h)))))
  | group _ ih =>
    simp only [List.mem_append, List.mem_cons] at hts
    exact ih fun t h => hts t (.inr (.inl h))
  | @call name args hk hf _ ihs =>
    simp only [List.mem_append, List.mem_cons] at hts
    refine .call (hts (.word name) (.inl rfl)).1 hk hf ?_
    intro arg harg
    obtain ⟨part, hpart, rfl⟩ := List.mem_map.1 harg
    exact ihs part hpart fun t h => hts t (.inr (.inr (.inl (mem_partTokens hpart h))))
  | quoted content => exact .literal (hts _ (List.mem_singleton_self _))
  | word hk => exact wellFormed_leaf (hts _ (List.mem_singleton_self _)) hk

/-- What a parser accepts is well-formed. -/
theorem wellFormed_of_parse {limits : Limits} {text : String} {e : Expr}
    (h : parse limits text = .ok e) : e.WellFormed := by
  obtain ⟨ts, hts, hd⟩ := derives_of_parse h
  exact hd.wellFormed (proper_of_tokenize hts)

/-- An instant in a leaf is on the clock. -/
theorem onClock_of_mem_leaf {w : String} {t : Instant} (h : t ∈ (leaf w).instants) : t.OnClock := by
  cases hl : literal? w with
  | none =>
    rw [leaf, hl] at h
    cases h
  | some v =>
    rw [leaf, hl] at h
    cases v with
    | instant u =>
      obtain rfl := List.mem_singleton.1 h
      exact onClock_of_literal? hl
    | null => cases h
    | bool => cases h
    | number => cases h
    | string => cases h

/-- The instants in what the grammar derives are on the clock. -/
theorem Derives.onClock {s : Symbol} {ts : List Token} {e : Expr} (h : Derives s ts e) :
    ∀ t ∈ e.instants, t.OnClock := by
  intro t ht
  induction h with
  | conjunction _ ih => exact ih ht
  | or _ _ ihl ihr => exact (List.mem_append.1 ht).elim ihl ihr
  | negation _ ih => exact ih ht
  | and _ _ ihl ihr => exact (List.mem_append.1 ht).elim ihl ihr
  | comparison _ ih => exact ih ht
  | not _ ih => exact ih ht
  | operand _ ih => exact ih ht
  | compare op _ _ ihl ihr => exact (List.mem_append.1 ht).elim ihl ihr
  | isIn _ _ _ ih ihs =>
    rcases List.mem_append.1 ht with ht | ht
    · exact ih ht
    · obtain ⟨item, hitem, ht⟩ := Expr.mem_instantsAll.1 ht
      obtain ⟨part, hpart, rfl⟩ := List.mem_map.1 hitem
      exact ihs part hpart ht
  | group _ ih => exact ih ht
  | call _ _ _ ihs =>
    obtain ⟨arg, harg, ht⟩ := Expr.mem_instantsAll.1 ht
    obtain ⟨part, hpart, rfl⟩ := List.mem_map.1 harg
    exact ihs part hpart ht
  | quoted => cases ht
  | word => exact onClock_of_mem_leaf ht

/-- The instants in an accepted tree are on the clock. -/
theorem onClock_of_parse {limits : Limits} {text : String} {e : Expr}
    (h : parse limits text = .ok e) : ∀ t ∈ e.instants, t.OnClock := by
  obtain ⟨ts, -, hd⟩ := derives_of_parse h
  exact hd.onClock

/-- The text of an accepted tree is accepted again, under limits as great as the text.  It gives the
same tree just when every instant in the tree is written without a loss. -/
theorem same_parse_toText_iff {limits limits' : Limits} {text : String} {e : Expr}
    (h : parse limits text = .ok e)
    (hlength : e.toText.utf8ByteSize ≤ limits'.maxFilterLength)
    (hnodes : e.toText.utf8ByteSize ≤ limits'.maxNodes)
    (hdepth : e.toText.utf8ByteSize ≤ limits'.maxDepth) :
    ∃ e', parse limits' e.toText = .ok e' ∧
      (e.same e' = true ↔ ∀ t ∈ e.instants, Timestamp.isLossless t = true) := by
  have hwell := wellFormed_of_parse h
  have hclock := onClock_of_parse h
  refine ⟨_, parse_toText_eq_reread hwell hlength hnodes hdepth, ?_⟩
  rw [Expr.same_reread_iff hwell]
  exact ⟨fun hall t ht => (hall t ht).1, fun hall t ht => ⟨hall t ht, hclock t ht⟩⟩

/-- A tenth of a millisecond is accepted and lost: the text of the tree gives another tree. -/
theorem not_same_parse_toText_fraction :
    let text := "a eq 2024-01-01T00:00:00.0001Z"
    ∃ e e', parse {} text = .ok e ∧ e.toText = "a eq 2024-01-01T00:00:00.000Z" ∧
      e.toText.utf8ByteSize ≤ 64 ∧ parse {} e.toText = .ok e' ∧ e.same e' = false := by
  intro text
  let stamp := "2024-01-01T00:00:00.0001Z"
  let t : Instant :=
    ⟨⟨2024, 1, 1, by decide, by decide, by decide⟩, 0, 100000, by decide, by decide⟩
  let e : Expr := .compare (.property ⟨["a"]⟩) .eq (.literal (.instant t))
  have hliteral : literal? stamp = some (.instant t) := by decide +kernel
  have hleft : Derives .operand [.word "a"] (.property ⟨["a"]⟩) := @Derives.word "a" (by decide)
  have hright : Derives .operand [.word stamp] (.literal (.instant t)) := by
    have hword := @Derives.word stamp (by decide)
    rwa [leaf, hliteral] at hword
  have hd : Derives .disjunction [.word "a", .word "eq", .word stamp] e :=
    .conjunction (.negation (.comparison (.compare .eq hleft hright)))
  have hts : tokenize text.toList = .ok [.word "a", .word "eq", .word stamp] := by decide +kernel
  have htext : text.utf8ByteSize ≤ ({} : Limits).maxFilterLength := by decide +kernel
  have hparse : parse {} text = .ok e :=
    (parse_eq_ok_iff hts htext (by decide)).2 (parseTokens_of_derives hd (by decide))
  have hlength : e.toText.utf8ByteSize ≤ ({} : Limits).maxFilterLength := by decide +kernel
  have hdepth : e.toText.utf8ByteSize ≤ ({} : Limits).maxDepth := by decide +kernel
  obtain ⟨e', hparse', hsame⟩ := same_parse_toText_iff hparse hlength hlength hdepth
  refine ⟨e, e', hparse, by decide +kernel, hdepth, hparse', ?_⟩
  rw [← Bool.not_eq_true, hsame]
  intro hlossless
  have ht := hlossless t (by simp [e, Expr.instants])
  exact absurd ht (by decide)

end OData.Filter

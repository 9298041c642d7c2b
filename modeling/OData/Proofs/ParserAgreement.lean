import OData.Proofs.Levels
import OData.Proofs.Parsing
import OData.Proofs.Tokens

/-!
# The parser accepts the grammar

Soundness: what a parser with some levels reads is derived within these levels
(`parser_sound`).  Completeness: what is derived within some levels is read by a
parser that has them, whatever follows it that does not carry it on
(`parser_complete`).

Soundness is an induction on the levels, and inside one level it goes down the
parsers, which call each other in one direction only.  Completeness is an
induction on the derivation.  So a token list derives at most one tree: the
parser gives one answer.
-/

namespace OData.Filter

/-- The symbol that a rule reads. -/
def Rule.symbol : Rule → Symbol
  | .disjunction => .disjunction
  | .conjunction => .conjunction
  | .negation => .negation

/-! ## Levels -/

/-- The parser one level deeper, if there are some levels.  The limit is named when there is none. -/
def below (limit : Nat) : (levels : Nat) → Deeper
  | 0 => .error (.tooDeep limit)
  | levels + 1 => .ok (parser limit levels)

/-- The parser of a symbol at one level. -/
def symbolParser (deeper : Deeper) : Symbol → Parser Expr
  | .disjunction => disjunction deeper
  | .conjunction => conjunction deeper
  | .negation => negation deeper
  | .comparison => comparison deeper
  | .operand => operand deeper

/-- With some levels, a rule is read by the parser of its symbol. -/
theorem parser_eq (limit levels : Nat) (rule : Rule) :
    parser limit levels rule = symbolParser (below limit levels) rule.symbol := by
  cases levels <;> cases rule <;> rfl

/-! ## Soundness -/

/-- Whatever a parser reads is derived within some levels. -/
def SoundFor (n : Nat) (s : Symbol) (p : Parser Expr) : Prop :=
  ∀ ts e rest, Reads (p ts) e rest → ∃ used, ts = used ++ rest ∧ DerivesWithin n s used e

/-- Whatever the parser one level deeper reads is derived within one level less. -/
def SoundBelow (deeper : Deeper) (n : Nat) : Prop :=
  ∀ parser, deeper = .ok parser →
    ∃ m, n = m + 1 ∧ ∀ rule : Rule, SoundFor m rule.symbol (parser rule)

section Soundness

variable {deeper : Deeper} {n : Nat}

/-- Members read one after the other are parts with commas between them. -/
theorem members_sound {s : Symbol} {member : Parser Expr} (hm : SoundFor n s member)
    {stray : Token → Fault} {unclosed : Fault} :
    ∀ (ts : List Token) (es : List Expr) (rest : List Token),
      Reads (members member stray unclosed ts) es rest →
      ∃ parts : List (List Token × Expr), parts ≠ [] ∧
        (∀ part ∈ parts, DerivesWithin n s part.1 part.2) ∧
        ts = partTokens parts ++ .closing :: rest ∧ es = partTrees parts := by
  intro ts
  induction hlength : ts.length using Nat.strongRecOn generalizing ts with
  | _ k ih =>
    intro es rest h
    obtain ⟨e, next, hread, hnext⟩ := reads_members.1 h
    obtain ⟨used, rfl, hused⟩ := hm _ _ _ hread
    rcases hnext with ⟨rfl, rfl⟩ | ⟨us, es', rfl, hrest, rfl⟩
    · exact ⟨[(used, e)], by simp, by simpa using hused, rfl, rfl⟩
    · have hlt : us.length < k := by
        rw [← hlength]
        simp only [List.length_append, List.length_cons]
        omega
      obtain ⟨parts, hne, hparts, rfl, rfl⟩ := ih us.length hlt us rfl es' rest hrest
      refine ⟨(used, e) :: parts, by simp, ?_, ?_, rfl⟩
      · intro part hpart
        rcases List.mem_cons.1 hpart with rfl | hpart
        · exact hused
        · exact hparts part hpart
      · cases parts with
        | nil => exact absurd rfl hne
        | cons part parts => simp [partTokens, commaSeparated]

/-- What is read as an operand is an operand. -/
theorem operand_sound (hd : SoundBelow deeper n) : SoundFor n .operand (operand deeper) := by
  intro ts e rest h
  cases ts with
  | nil => exact absurd h (not_reads_operand (.inl rfl))
  | cons t us =>
    cases t with
    | opening =>
      obtain ⟨parser, hp, hread⟩ := reads_operand_opening.1 h
      obtain ⟨m, rfl, hsound⟩ := hd parser hp
      obtain ⟨used, rfl, hused⟩ := hsound .disjunction _ _ _ hread
      exact ⟨.opening :: (used ++ [.closing]), by simp, .group hused⟩
    | closing => exact absurd h (not_reads_operand (.inr (.inl rfl)))
    | comma => exact absurd h (not_reads_operand (.inr (.inr rfl)))
    | quoted content =>
      obtain ⟨rfl, rfl⟩ := reads_operand_quoted.1 h
      exact ⟨[.quoted content], rfl, .quoted content⟩
    | word w =>
      obtain ⟨hk, ⟨vs, args, hf, rfl, hargs, rfl⟩ | ⟨-, rfl, rfl⟩⟩ := reads_operand_word.1 h
      · obtain ⟨parser, hp, hargs⟩ := reads_arguments.1 hargs
        obtain ⟨m, rfl, hsound⟩ := hd parser hp
        rcases hargs with ⟨rfl, rfl⟩ | ⟨-, hargs⟩
        · exact ⟨[.word w, .opening, .closing], rfl, @DerivesWithin.call m w [] hk hf (by simp)⟩
        · obtain ⟨parts, -, hparts, rfl, rfl⟩ := members_sound (hsound .disjunction) _ _ _ hargs
          exact ⟨.word w :: .opening :: (partTokens parts ++ [.closing]), by simp,
            .call hk hf hparts⟩
      · exact ⟨[.word w], rfl, .word hk⟩

/-- What is read as a comparison is a comparison. -/
theorem comparison_sound (hd : SoundBelow deeper n) :
    SoundFor n .comparison (comparison deeper) := by
  intro ts e rest h
  obtain ⟨l, next, hl, hnext⟩ := reads_comparison.1 h
  obtain ⟨used, rfl, hused⟩ := operand_sound hd _ _ _ hl
  rcases hnext with ⟨-, rfl, rfl⟩ | ⟨op, us, r, rfl, hr, rfl⟩ | ⟨us, items, rfl, hi, rfl⟩
  · exact ⟨used, rfl, .operand hused⟩
  · obtain ⟨hr, -⟩ := reads_rightSide.1 hr
    obtain ⟨used', rfl, hused'⟩ := operand_sound hd _ _ _ hr
    exact ⟨used ++ .word op.keyword :: used', by simp, .compare op hused hused'⟩
  · obtain ⟨vs, rfl, hm⟩ := reads_listItems.1 hi
    obtain ⟨parts, hne, hparts, rfl, rfl⟩ := members_sound (operand_sound hd) _ _ _ hm
    exact ⟨used ++ .word "in" :: .opening :: (partTokens parts ++ [.closing]), by simp,
      .isIn hused hne hparts⟩

/-- What is read as a negation is a negation. -/
theorem negation_sound (hd : SoundBelow deeper n) : SoundFor n .negation (negation deeper) := by
  intro ts e rest h
  rcases reads_negation.1 h with ⟨us, parser, e', rfl, hp, hr, rfl⟩ | ⟨-, hc⟩
  · obtain ⟨m, rfl, hsound⟩ := hd parser hp
    obtain ⟨used, rfl, hused⟩ := hsound .negation _ _ _ hr
    exact ⟨.word "not" :: used, rfl, .not hused⟩
  · obtain ⟨used, rfl, hused⟩ := comparison_sound hd _ _ _ hc
    exact ⟨used, rfl, .comparison hused⟩

/-- What is read as a conjunction is a conjunction. -/
theorem conjunction_sound (hd : SoundBelow deeper n) :
    SoundFor n .conjunction (conjunction deeper) := by
  intro ts e rest h
  obtain ⟨l, next, hl, hnext⟩ := reads_conjunction.1 h
  obtain ⟨used, rfl, hused⟩ := negation_sound hd _ _ _ hl
  rcases hnext with ⟨-, rfl, rfl⟩ | ⟨us, parser, r, rfl, hp, hr, rfl⟩
  · exact ⟨used, rfl, .negation hused⟩
  · obtain ⟨m, rfl, hsound⟩ := hd parser hp
    obtain ⟨used', rfl, hused'⟩ := hsound .conjunction _ _ _ hr
    exact ⟨used ++ .word "and" :: used', by simp, .and hused hused'⟩

/-- What is read as a disjunction is a disjunction. -/
theorem disjunction_sound (hd : SoundBelow deeper n) :
    SoundFor n .disjunction (disjunction deeper) := by
  intro ts e rest h
  obtain ⟨l, next, hl, hnext⟩ := reads_disjunction.1 h
  obtain ⟨used, rfl, hused⟩ := conjunction_sound hd _ _ _ hl
  rcases hnext with ⟨-, rfl, rfl⟩ | ⟨us, parser, r, rfl, hp, hr, rfl⟩
  · exact ⟨used, rfl, .conjunction hused⟩
  · obtain ⟨m, rfl, hsound⟩ := hd parser hp
    obtain ⟨used', rfl, hused'⟩ := hsound .disjunction _ _ _ hr
    exact ⟨used ++ .word "or" :: used', by simp, .or hused hused'⟩

/-- What one level reads is derived if what the level below reads is. -/
theorem atLevel_sound (hd : SoundBelow deeper n) (rule : Rule) :
    SoundFor n rule.symbol (atLevel deeper rule) := by
  cases rule with
  | disjunction => exact disjunction_sound hd
  | conjunction => exact conjunction_sound hd
  | negation => exact negation_sound hd

end Soundness

/-- What the parser reads with some levels is derived within these levels. -/
theorem parser_sound (limit levels : Nat) (rule : Rule) :
    SoundFor levels rule.symbol (parser limit levels rule) := by
  induction levels generalizing rule with
  | zero =>
    refine atLevel_sound ?_ rule
    intro parser h
    cases h
  | succ levels ih =>
    refine atLevel_sound ?_ rule
    intro parser h
    cases h
    exact ⟨levels, rfl, ih⟩

/-- The parser one level deeper reads what is derived within one level less. -/
theorem soundBelow_below (limit levels : Nat) : SoundBelow (below limit levels) levels := by
  intro parser h
  cases levels with
  | zero => cases h
  | succ levels =>
    cases h
    exact ⟨levels, rfl, parser_sound limit levels⟩

/-! ## Completeness -/

/-- Parts that are read one by one are read as members. -/
theorem members_complete {s : Symbol} {member : Parser Expr} {stray : Token → Fault}
    {unclosed : Fault} {parts : List (List Token × Expr)} (hne : parts ≠ [])
    (h : ∀ part ∈ parts, ∀ rest, Ends s rest → Reads (member (part.1 ++ rest)) part.2 rest)
    (rest : List Token) :
    Reads (members member stray unclosed (partTokens parts ++ .closing :: rest))
      (partTrees parts) rest := by
  induction parts with
  | nil => exact absurd rfl hne
  | cons part parts ih =>
    rw [reads_members]
    cases parts with
    | nil =>
      exact ⟨part.2, .closing :: rest, h part (by simp) _ (ends_closing s rest), .inl ⟨rfl, rfl⟩⟩
    | cons next parts =>
      have hrest := ih (by simp) fun p hp => h p (List.mem_cons_of_mem _ hp)
      have hpart := h part (by simp) (.comma :: (partTokens (next :: parts) ++ .closing :: rest))
        (ends_comma s _)
      refine ⟨part.2, _, ?_, .inr ⟨_, _, rfl, hrest, rfl⟩⟩
      exact hpart.cast (by simp)

/-- Nothing that begins with `not` is read as a comparison. -/
theorem Reads.head?_ne_not {deeper : Deeper} {ts rest : List Token} {e : Expr}
    (h : Reads (comparison deeper ts) e rest) : ts.head? ≠ some (.word "not") := by
  intro hhead
  obtain ⟨l, next, hl, -⟩ := reads_comparison.1 h
  cases ts with
  | nil => cases hhead
  | cons t us =>
    obtain rfl : t = .word "not" := Option.some.inj hhead
    obtain ⟨hk, -⟩ := reads_operand_word.1 hl
    exact absurd hk (by decide)

theorem Ends.noComparison {rest : List Token} (h : Ends .comparison rest) : NoComparison rest :=
  fun w hw => h (.word w) hw

theorem Ends.head?_ne_opening {s : Symbol} {rest : List Token} (h : Ends s rest) :
    rest.head? ≠ some .opening := by
  intro hhead
  have := h .opening hhead
  cases s <;> cases this

theorem Ends.head?_ne_and {rest : List Token} (h : Ends .conjunction rest) :
    rest.head? ≠ some (.word "and") := by
  intro hhead
  exact absurd (h _ hhead) (by decide)

theorem Ends.head?_ne_or {rest : List Token} (h : Ends .disjunction rest) :
    rest.head? ≠ some (.word "or") := by
  intro hhead
  exact absurd (h _ hhead) (by decide)

/-- Items that are read one by one are read as a list. -/
theorem listItems_complete {deeper : Deeper} {items : List (List Token × Expr)} (hne : items ≠ [])
    (h : ∀ item ∈ items, ∀ rest, Ends .operand rest →
      Reads (operand deeper (item.1 ++ rest)) item.2 rest) (rest : List Token) :
    Reads (listItems deeper (.opening :: (partTokens items ++ .closing :: rest)))
      (partTrees items) rest :=
  reads_listItems.2 ⟨_, rfl, members_complete hne h rest⟩

/-- Arguments that the level below reads one by one are read by a call. -/
theorem arguments_complete {parser : Rule → Parser Expr} {args : List (List Token × Expr)}
    (hargs : ∀ arg ∈ args, Derives .disjunction arg.1 arg.2)
    (h : ∀ arg ∈ args, ∀ rest, Ends .disjunction rest →
      Reads (parser .disjunction (arg.1 ++ rest)) arg.2 rest) (name : String)
    (rest : List Token) :
    Reads (arguments (.ok parser) name (partTokens args ++ .closing :: rest))
      (partTrees args) rest := by
  refine reads_arguments.2 ⟨parser, rfl, ?_⟩
  by_cases hne : args = []
  · subst hne
    exact .inl ⟨rfl, rfl⟩
  · exact .inr ⟨head?_partTokens_ne_closing hne hargs _, members_complete hne h rest⟩

/-- What is derived within some levels is read with these levels. -/
theorem symbolParser_complete (limit : Nat) {n : Nat} {s : Symbol} {ts : List Token} {e : Expr}
    (h : DerivesWithin n s ts e) :
    ∀ rest, Ends s rest → Reads (symbolParser (below limit n) s (ts ++ rest)) e rest := by
  -- What is one level deeper is read by the parser of its rule.
  have hbelow {m : Nat} {ts us : List Token} {e : Expr} (rule : Rule)
      (h : Reads (symbolParser (below limit m) rule.symbol ts) e us) :
      Reads (parser limit m rule ts) e us := by rwa [parser_eq]
  induction h with
  | conjunction _ ih =>
    intro rest hr
    exact reads_disjunction.2 ⟨_, rest, ih rest hr.conjunction, .inl ⟨hr.head?_ne_or, rfl, rfl⟩⟩
  | or _ _ ihl ihr =>
    intro rest hend
    rw [List.append_assoc]
    exact reads_disjunction.2 ⟨_, _, ihl _ (ends_conjunction_or _),
      .inr ⟨_, _, _, rfl, rfl, hbelow .disjunction (ihr rest hend), rfl⟩⟩
  | negation _ ih =>
    intro rest hr
    exact reads_conjunction.2 ⟨_, rest, ih rest hr.negation, .inl ⟨hr.head?_ne_and, rfl, rfl⟩⟩
  | and _ _ ihl ihr =>
    intro rest hend
    rw [List.append_assoc]
    exact reads_conjunction.2 ⟨_, _, ihl _ (ends_negation_and _),
      .inr ⟨_, _, _, rfl, rfl, hbelow .conjunction (ihr rest hend), rfl⟩⟩
  | comparison _ ih =>
    intro rest hr
    have hread := ih rest hr.comparison
    exact reads_negation.2 (.inr ⟨hread.head?_ne_not, hread⟩)
  | not _ ih =>
    intro rest hend
    exact reads_negation.2
      (.inl ⟨_, _, _, rfl, rfl, hbelow .negation (ih rest hend), rfl⟩)
  | operand _ ih =>
    intro rest hr
    exact reads_comparison.2 ⟨_, rest, ih rest hr.operand, .inl ⟨hr.noComparison, rfl, rfl⟩⟩
  | compare op _ _ ihl ihr =>
    intro rest hend
    rw [List.append_assoc]
    have hright := (@reads_rightSide _ op _ _ _).2 ⟨ihr rest hend.operand, hend.noComparison⟩
    exact reads_comparison.2 ⟨_, _, ihl _ (ends_operand_word _ _),
      .inr (.inl ⟨op, _, _, rfl, hright, rfl⟩)⟩
  | @isIn n ts e items _ hne _ ih ihs =>
    intro rest hend
    have hlist := @listItems_complete (below limit n) items hne ihs rest
    rw [List.append_assoc]
    exact reads_comparison.2 ⟨e, _, ih _ (ends_operand_word _ _),
      .inr (.inr ⟨_, partTrees items, rfl, hlist.cast (by simp), rfl⟩)⟩
  | group _ ih =>
    intro rest hend
    refine reads_operand_opening.2 ⟨_, rfl, hbelow .disjunction ?_⟩
    exact (ih (.closing :: rest) (ends_closing _ _)).cast (by simp)
  | @call n name args hk hf h ihs =>
    intro rest hend
    have hargs := arguments_complete (fun arg harg => (h arg harg).derives)
      (fun arg harg next hnext => hbelow .disjunction (ihs arg harg next hnext)) name rest
    exact reads_operand_word.2
      ⟨hk, .inl ⟨_, partTrees args, hf, rfl, hargs.cast (by simp), rfl⟩⟩
  | @quoted n content =>
    intro rest hend
    exact (@reads_operand_quoted (below limit n) _ _ _ _).2 ⟨rfl, rfl⟩
  | @word n w hk =>
    intro rest hend
    exact (@reads_operand_word (below limit n) _ _ _ _).2
      ⟨hk, .inr ⟨fun _ => hend.head?_ne_opening, rfl, rfl⟩⟩

/-- The parser reads with some levels what is derived within these levels. -/
theorem parser_complete (limit : Nat) {levels : Nat} (rule : Rule) {ts : List Token} {e : Expr}
    (h : DerivesWithin levels rule.symbol ts e) {rest : List Token} (hend : Ends rule.symbol rest) :
    Reads (parser limit levels rule (ts ++ rest)) e rest := by
  rw [parser_eq]
  exact symbolParser_complete limit h rest hend

/-! ## Whole token lists -/

theorem parseTokens_eq_ok {limit : Nat} {ts : List Token} {e : Expr} :
    parseTokens limit ts = .ok e ↔ Reads (parser limit limit .disjunction ts) e [] := by
  cases ts with
  | nil =>
    constructor
    · intro h
      cases h
    · rintro ⟨h, _⟩
      cases h
  | cons t ts =>
    rw [parseTokens]
    · cases hp : parser limit limit .disjunction (t :: ts) with
      | error fault => simp
      | ok p =>
        obtain ⟨e', next, h⟩ := p
        cases next with
        | nil => simp [eq_comm]
        | cons t next => simp
    · simp

/-- A token list is accepted just when it is derived within as many levels as the limit allows. -/
theorem parseTokens_eq_ok_iff_derivesWithin {limit : Nat} {ts : List Token} {e : Expr} :
    parseTokens limit ts = .ok e ↔ DerivesWithin limit .disjunction ts e := by
  rw [parseTokens_eq_ok]
  constructor
  · intro h
    obtain ⟨used, rfl, hused⟩ := parser_sound limit limit .disjunction _ _ _ h
    rwa [List.append_nil]
  · intro h
    exact (parser_complete limit .disjunction h (ends_nil _)).cast (List.append_nil ts)

/-- A token list that is derived is accepted, as soon as the limit of depth is its length. -/
theorem parseTokens_of_derives {limit : Nat} {ts : List Token} {e : Expr}
    (h : Derives .disjunction ts e) (hlimit : ts.length ≤ limit) : parseTokens limit ts = .ok e :=
  parseTokens_eq_ok_iff_derivesWithin.2 (h.within (by omega))

/-! ## One reading only -/

/-- What makes up a symbol ends in one place.  Two readings of one token list are the same when nothing
behind them carries them on. -/
theorem Derives.append_unique {s : Symbol} {ts ts' rest rest' : List Token} {e e' : Expr}
    (h : Derives s ts e) (h' : Derives s ts' e') (hrest : Ends s rest) (hrest' : Ends s rest')
    (heq : ts ++ rest = ts' ++ rest') : ts = ts' ∧ rest = rest' ∧ e = e' := by
  have hlevels : ts.length ≤ max ts.length ts'.length + 1 := by omega
  have hlevels' : ts'.length ≤ max ts.length ts'.length + 1 := by omega
  have hread := symbolParser_complete 0 (h.within hlevels) rest hrest
  have hread' := symbolParser_complete 0 (h'.within hlevels') rest' hrest'
  obtain ⟨rfl, rfl⟩ := (hread.cast heq).unique hread'
  exact ⟨List.append_cancel_right heq, rfl, rfl⟩

/-- A token list makes up each symbol in one way at most. -/
theorem Derives.unique {s : Symbol} {ts : List Token} {e e' : Expr} (h : Derives s ts e)
    (h' : Derives s ts e') : e = e' :=
  (h.append_unique h' (ends_nil s) (ends_nil s) rfl).2.2

/-- What makes up a symbol makes up no more of it with what does not carry it on. -/
theorem Derives.not_append {s : Symbol} {t : Token} {ts us : List Token} {e e' : Expr}
    (h : Derives s ts e) (hend : Ends s (t :: us)) : ¬ Derives s (ts ++ t :: us) e' := by
  intro h'
  obtain ⟨-, hnil, -⟩ := h.append_unique h' hend (ends_nil s) (List.append_nil _).symm
  cases hnil

/-! ## Comparisons do not chain -/

theorem not_noComparison {w : String} (hw : continuesComparison w = true) (us : List Token) :
    ¬ NoComparison (.word w :: us) := by
  intro h
  rw [h w rfl] at hw
  cases hw

/-- A comparison or membership ends where another one begins, if it is read at all. -/
theorem rest_of_reads_comparison {limit n : Nat} {ts us rest : List Token} {e e' : Expr}
    {w : String} (h : DerivesWithin n .comparison ts e) (hne : ¬ Derives .operand ts e)
    (hw : continuesComparison w = true)
    (hread : Reads (comparison (below limit n) (ts ++ .word w :: us)) e' rest) :
    rest = .word w :: us := by
  obtain ⟨l, next, hl, hnext⟩ := reads_comparison.1 hread
  cases h with
  | operand h => exact absurd h.derives hne
  | @compare _ ts' us' l' r' op hl' hr' =>
    -- The right side is read up to the word, which may not follow it.
    have hleft := symbolParser_complete limit hl'
      (.word op.keyword :: (us' ++ .word w :: us)) (ends_operand_word _ _)
    have hright := symbolParser_complete limit hr' (.word w :: us) (ends_operand_word _ _)
    obtain ⟨-, rfl⟩ := (hl.cast (by simp)).unique hleft
    rcases hnext with ⟨hno, -, -⟩ | ⟨op', vs, r, hvs, hr, -⟩ | ⟨vs, items, hvs, -, -⟩
    · exact absurd hno (not_noComparison (continuesComparison_keyword op) _)
    · obtain ⟨-, rfl⟩ := List.cons.inj hvs
      obtain ⟨hr, hno⟩ := reads_rightSide.1 hr
      obtain ⟨-, rfl⟩ := hr.unique hright
      exact absurd hno (not_noComparison hw us)
    · obtain ⟨hop, -⟩ := List.cons.inj hvs
      exact absurd (Token.word.inj hop) (keyword_ne_in op)
  | @isIn _ ts' l' items hl' hitems hall =>
    -- The list is read up to its parenthesis, and the word follows.
    have hleft := symbolParser_complete limit hl'
      (.word "in" :: .opening :: (partTokens items ++ .closing :: .word w :: us))
      (ends_operand_word _ _)
    have hlist := @listItems_complete (below limit n) items hitems
      (fun item hitem => symbolParser_complete limit (hall item hitem)) (.word w :: us)
    obtain ⟨-, rfl⟩ := (hl.cast (by simp)).unique hleft
    rcases hnext with ⟨hno, -, -⟩ | ⟨op, vs, r, hvs, -, -⟩ | ⟨vs, items', hvs, hi, -⟩
    · exact absurd hno (not_noComparison (by decide) _)
    · obtain ⟨hop, -⟩ := List.cons.inj hvs
      exact absurd (Token.word.inj hop).symm (keyword_ne_in op)
    · obtain ⟨-, rfl⟩ := List.cons.inj hvs
      exact (hi.unique hlist).2

/-- The same holds for a disjunction that begins with them. -/
theorem rest_of_reads_disjunction {limit n : Nat} {ts us rest : List Token} {e e' : Expr}
    {w : String} (h : DerivesWithin n .comparison ts e) (hne : ¬ Derives .operand ts e)
    (hw : continuesComparison w = true)
    (hread : Reads (disjunction (below limit n) (ts ++ .word w :: us)) e' rest) :
    rest = .word w :: us := by
  have hhead : (ts ++ .word w :: us).head? ≠ some (.word "not") := by
    have hcomp : Reads (comparison (below limit n) (ts ++ [])) e [] :=
      symbolParser_complete limit h [] (ends_nil _)
    have hpos := h.derives.length_pos
    cases ts with
    | nil => cases hpos
    | cons t ts => exact hcomp.head?_ne_not
  have hand : w ≠ "and" := by
    rintro rfl
    exact absurd hw (by decide)
  have hor : w ≠ "or" := by
    rintro rfl
    exact absurd hw (by decide)
  obtain ⟨c, next, hc, hnext⟩ := reads_disjunction.1 hread
  obtain ⟨m, next', hm, hnext'⟩ := reads_conjunction.1 hc
  have hnext'_eq : next' = .word w :: us := by
    rcases reads_negation.1 hm with ⟨vs, -, -, hvs, -⟩ | ⟨-, hcomp⟩
    · exact absurd (by rw [hvs]; rfl) hhead
    · exact rest_of_reads_comparison h hne hw hcomp
  have hnext_eq : next = .word w :: us := by
    rcases hnext' with ⟨-, rfl, -⟩ | ⟨vs, -, -, hvs, -⟩
    · exact hnext'_eq
    · rw [hnext'_eq] at hvs
      exact absurd (Token.word.inj (List.cons.inj hvs).1) hand
  rcases hnext with ⟨-, rfl, -⟩ | ⟨vs, -, -, hvs, -⟩
  · exact hnext_eq
  · rw [hnext_eq] at hvs
    exact absurd (Token.word.inj (List.cons.inj hvs).1) hor

/-- Nothing derived goes on behind a comparison or membership with another one. -/
theorem not_derives_comparison_append {ts us : List Token} {e e' : Expr} {w : String}
    (h : Derives .comparison ts e) (hne : ¬ Derives .operand ts e)
    (hw : continuesComparison w = true) : ¬ Derives .disjunction (ts ++ .word w :: us) e' := by
  intro h'
  have hwithin := h'.within (Nat.le_succ _)
  have hread : Reads (disjunction (below 0 _) (ts ++ .word w :: us ++ [])) e' [] :=
    symbolParser_complete 0 hwithin [] (ends_nil _)
  have hlength : ts.length ≤ (ts ++ .word w :: us).length + 1 := by
    rw [List.length_append]
    omega
  have hnil := rest_of_reads_disjunction (h.within hlength) hne hw
    (hread.cast (List.append_nil _))
  cases hnil

/-! ## The whole -/

/-- What becomes of a text: the first check that fails refuses it, or its tree is accepted. -/
inductive Outcome (limits : Limits) (text : String) : Except Fault Expr → Prop
  /-- The text is too long. -/
  | tooLong :
    limits.maxFilterLength < text.utf8ByteSize →
    Outcome limits text (.error (.tooLong limits.maxFilterLength))
  /-- A quote is open at the end. -/
  | openQuote {position : Nat} :
    text.utf8ByteSize ≤ limits.maxFilterLength →
    tokenize text.toList = .error position →
    Outcome limits text (.error (.openQuote position))
  /-- The tokens make up no tree. -/
  | refused {ts : List Token} {fault : Fault} :
    text.utf8ByteSize ≤ limits.maxFilterLength →
    tokenize text.toList = .ok ts →
    parseTokens limits.maxDepth ts = .error fault →
    Outcome limits text (.error fault)
  /-- The tree has too many nodes. -/
  | tooManyNodes {ts : List Token} {e : Expr} :
    text.utf8ByteSize ≤ limits.maxFilterLength →
    tokenize text.toList = .ok ts →
    parseTokens limits.maxDepth ts = .ok e →
    limits.maxNodes < e.size →
    Outcome limits text (.error (.tooManyNodes e.size limits.maxNodes))
  /-- All checks pass. -/
  | accepted {ts : List Token} {e : Expr} :
    text.utf8ByteSize ≤ limits.maxFilterLength →
    tokenize text.toList = .ok ts →
    parseTokens limits.maxDepth ts = .ok e →
    e.size ≤ limits.maxNodes →
    Outcome limits text (.ok e)

theorem Outcome.parse_eq {limits : Limits} {text : String} {result : Except Fault Expr}
    (h : Outcome limits text result) : parse limits text = result := by
  have hrest (hlength : text.utf8ByteSize ≤ limits.maxFilterLength) :
      checkLength limits text = .ok () := if_neg (Nat.not_lt.2 hlength)
  rw [parse]
  cases h with
  | tooLong hlength =>
    rw [parseFilter, checkLength, if_pos hlength]
    rfl
  | openQuote hlength hts =>
    rw [parseFilter, hrest hlength, hts]
    rfl
  | refused hlength hts hparse =>
    simp only [parseFilter, hrest hlength, hts, Bind.bind, Except.bind, Except.mapError, hparse]
    rfl
  | tooManyNodes hlength hts hparse hnodes =>
    simp only [parseFilter, hrest hlength, hts, Bind.bind, Except.bind, Except.mapError, hparse,
      checkNodes, if_pos hnodes]
    rfl
  | accepted hlength hts hparse hnodes =>
    simp only [parseFilter, hrest hlength, hts, Bind.bind, Except.bind, Except.mapError, hparse,
      checkNodes, if_neg (Nat.not_lt.2 hnodes)]
    rfl

/-- Every text has an outcome, and there is no other. -/
theorem parse_eq_iff {limits : Limits} {text : String} {result : Except Fault Expr} :
    parse limits text = result ↔ Outcome limits text result := by
  refine ⟨?_, Outcome.parse_eq⟩
  rintro rfl
  suffices h : ∃ result, Outcome limits text result by
    obtain ⟨result, h⟩ := h
    rwa [h.parse_eq]
  rcases Nat.lt_or_ge limits.maxFilterLength text.utf8ByteSize with hlength | hlength
  · exact ⟨_, .tooLong hlength⟩
  · cases hts : tokenize text.toList with
    | error position => exact ⟨_, .openQuote hlength hts⟩
    | ok ts =>
      cases hparse : parseTokens limits.maxDepth ts with
      | error fault => exact ⟨_, .refused hlength hts hparse⟩
      | ok e =>
        rcases Nat.lt_or_ge limits.maxNodes e.size with hnodes | hnodes
        · exact ⟨_, .tooManyNodes hlength hts hparse hnodes⟩
        · exact ⟨_, .accepted hlength hts hparse hnodes⟩

/-- A text is accepted with its expression and the number of nodes in it. -/
theorem parseFilter_eq_ok_iff {limits : Limits} {text : String} {p : ParsedFilter} :
    parseFilter limits text = .ok p ↔
      parse limits text = .ok p.expr ∧ p.nodeCount = p.expr.size := by
  have hcount {q : ParsedFilter} (h : parseFilter limits text = .ok q) :
      q.nodeCount = q.expr.size := by
    simp only [parseFilter, bind, Except.bind, pure, Except.pure] at h
    split at h
    · cases h
    · split at h
      · cases h
      · split at h
        · cases h
        · split at h
          · cases h
          · cases h
            rfl
  constructor
  · intro h
    exact ⟨by rw [parse, h]; rfl, hcount h⟩
  · rintro ⟨h, hsize⟩
    cases hq : parseFilter limits text with
    | error fault =>
      rw [parse, hq] at h
      cases h
    | ok q =>
      rw [parse, hq] at h
      have hexpr : q.expr = p.expr := Except.ok.inj h
      have hnodes : q.nodeCount = p.nodeCount := by rw [hcount hq, hexpr, hsize]
      rw [ParsedFilter.ext hexpr hnodes]

/-- What refuses the expression of a text refuses the text. -/
theorem parseFilter_eq_error_iff {limits : Limits} {text : String} {fault : Fault} :
    parseFilter limits text = .error fault ↔ parse limits text = .error fault := by
  rw [parse]
  cases parseFilter limits text with
  | error fault' => rw [Except.map, Except.error.injEq, Except.error.injEq]
  | ok p => exact ⟨fun h => (nomatch h), fun h => (nomatch h)⟩

/-- A text is accepted just when it is short enough, its tokens make up the tree and the tree has few
enough nodes. -/
theorem parse_eq_ok_iff_parseTokens {limits : Limits} {text : String} {e : Expr} :
    parse limits text = .ok e ↔
      text.utf8ByteSize ≤ limits.maxFilterLength ∧ e.size ≤ limits.maxNodes ∧
        ∃ ts, tokenize text.toList = .ok ts ∧ parseTokens limits.maxDepth ts = .ok e := by
  rw [parse_eq_iff]
  constructor
  · intro h
    cases h with
    | accepted hlength hts hparse hnodes => exact ⟨hlength, hnodes, _, hts, hparse⟩
  · rintro ⟨hlength, hnodes, ts, hts, hparse⟩
    exact .accepted hlength hts hparse hnodes

/-- The checks around the parser of tokens pass when the text and the tree are within the limits. -/
theorem parse_eq_ok_iff {limits : Limits} {text : String} {ts : List Token} {e : Expr}
    (hts : tokenize text.toList = .ok ts) (hlength : text.utf8ByteSize ≤ limits.maxFilterLength)
    (hsize : e.size ≤ limits.maxNodes) :
    parse limits text = .ok e ↔ parseTokens limits.maxDepth ts = .ok e := by
  rw [parse_eq_ok_iff_parseTokens]
  constructor
  · rintro ⟨-, -, ts', hts', h⟩
    cases hts.symm.trans hts'
    exact h
  · intro h
    exact ⟨hlength, hsize, ts, hts, h⟩

/-- A text is accepted just when it is short enough, the tree has few enough nodes, and the tokens of
the text derive the tree within as many levels as the limits allow. -/
theorem parse_eq_ok_iff_derivesWithin {limits : Limits} {text : String} {e : Expr} :
    parse limits text = .ok e ↔
      text.utf8ByteSize ≤ limits.maxFilterLength ∧ e.size ≤ limits.maxNodes ∧
        ∃ ts, tokenize text.toList = .ok ts ∧ DerivesWithin limits.maxDepth .disjunction ts e := by
  simp only [parse_eq_ok_iff_parseTokens, parseTokens_eq_ok_iff_derivesWithin]

/-- An accepted text has tokens, which derive the tree. -/
theorem derives_of_parse {limits : Limits} {text : String} {e : Expr}
    (h : parse limits text = .ok e) :
    ∃ ts, tokenize text.toList = .ok ts ∧ Derives .disjunction ts e := by
  obtain ⟨-, -, ts, hts, hwithin⟩ := parse_eq_ok_iff_derivesWithin.1 h
  exact ⟨ts, hts, hwithin.derives⟩

/-- A text is accepted, under limits as great as itself, with just the tree that the grammar derives
from its tokens.  There is at most one such tree, chains group to the right, and nothing follows a
comparison or membership that would carry it on with another one. -/
theorem parse_eq_ok_iff_derives {limits : Limits} {text : String} {ts : List Token}
    (hts : tokenize text.toList = .ok ts) (hlength : text.utf8ByteSize ≤ limits.maxFilterLength)
    (hnodes : text.utf8ByteSize ≤ limits.maxNodes) (hdepth : text.utf8ByteSize ≤ limits.maxDepth) :
    (∀ e, parse limits text = .ok e ↔ Derives .disjunction ts e) ∧
    (∀ s us e e', Derives s us e → Derives s us e' → e = e') ∧
    (∀ us vs l r e, Derives .conjunction us l → Derives .disjunction vs r →
      (Derives .disjunction (us ++ .word "or" :: vs) e ↔ e = .or l r)) ∧
    (∀ us vs l r e, Derives .negation us l → Derives .conjunction vs r →
      (Derives .conjunction (us ++ .word "and" :: vs) e ↔ e = .and l r)) ∧
    (∀ us vs e e' w, Derives .comparison us e → ¬ Derives .operand us e →
      continuesComparison w = true → ¬ Derives .disjunction (us ++ .word w :: vs) e') := by
  have hcount := length_le_utf8ByteSize hts
  refine ⟨?_, ?_, ?_, ?_, ?_⟩
  · intro e
    constructor
    · intro h
      obtain ⟨ts', hts', hd⟩ := derives_of_parse h
      rw [hts] at hts'
      cases hts'
      exact hd
    · intro h
      have hsize := h.size_le
      exact (parse_eq_ok_iff hts hlength (by omega)).2 (parseTokens_of_derives h (by omega))
  · intro s us e e' h h'
    exact h.unique h'
  · intro us vs l r e hl hr
    constructor
    · intro h
      exact h.unique (.or hl hr)
    · rintro rfl
      exact .or hl hr
  · intro us vs l r e hl hr
    constructor
    · intro h
      exact h.unique (.and hl hr)
    · rintro rfl
      exact .and hl hr
  · intro us vs e e' w h hne hw
    exact not_derives_comparison_append h hne hw

/-- A filter with every connective, a group, a list and a call is accepted as its tokens derive. -/
theorem parse_mixed_iff_derives :
    let text := "not (a eq 1 or b in ('x''y',c)) and f(d) or e"
    let ts : List Token := [.word "not", .opening, .word "a", .word "eq", .word "1", .word "or",
      .word "b", .word "in", .opening, .quoted "x''y", .comma, .word "c", .closing, .closing,
      .word "and", .word "f", .opening, .word "d", .closing, .word "or", .word "e"]
    tokenize text.toList = .ok ts ∧ text.utf8ByteSize ≤ 2000 ∧ text.utf8ByteSize ≤ 64 ∧
      ∀ e, parse {} text = .ok e ↔ Derives .disjunction ts e := by
  intro text ts
  have hts : tokenize text.toList = .ok ts := by decide +kernel
  have hlength : text.utf8ByteSize ≤ 2000 := by decide +kernel
  have hdepth : text.utf8ByteSize ≤ 64 := by decide +kernel
  exact ⟨hts, hlength, hdepth, (parse_eq_ok_iff_derives hts hlength hlength hdepth).1⟩

end OData.Filter

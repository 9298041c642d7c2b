import OData.Proofs.Grammar

/-!
# What each parser reads

`Reads result value rest` says that a parser succeeded with a value and left
the rest.  There is one lemma for each parser of the grammar.  It says with
`Reads` all that the parser can do, so that no later proof opens a parser.

A `not`, a group, a call and the next member of a chain ask the parser one
level deeper.  The lemmas name that parser, since at the deepest level there is
none.
-/

namespace OData.Filter

/-! ## Results -/

/-- A parser succeeded with a value and left the rest. -/
def Reads {α : Type} {ts : List Token} (result : Except Fault (Parsed α ts)) (value : α)
    (rest : List Token) : Prop :=
  ∃ h, result = .ok ⟨value, rest, h⟩

section Results

variable {α : Type} {ts : List Token}

@[simp] theorem not_reads_error (fault : Fault) (v : α) (rest : List Token) :
    ¬ Reads (.error fault : Except Fault (Parsed α ts)) v rest := by
  rintro ⟨_, h⟩
  cases h

@[simp] theorem reads_ok {p : Parsed α ts} {v : α} {rest : List Token} :
    Reads (.ok p) v rest ↔ rest = p.rest ∧ v = p.value := by
  constructor
  · rintro ⟨h, hp⟩
    cases hp
    exact ⟨rfl, rfl⟩
  · rintro ⟨rfl, rfl⟩
    exact ⟨p.shorter, rfl⟩

/-- A parser succeeds in one way only. -/
theorem Reads.unique {result : Except Fault (Parsed α ts)} {v v' : α} {rest rest' : List Token}
    (h : Reads result v rest) (h' : Reads result v' rest') : v = v' ∧ rest = rest' := by
  obtain ⟨_, rfl⟩ := h
  obtain ⟨hrest, hv⟩ := reads_ok.1 h'
  exact ⟨hv.symm, hrest.symm⟩

/-- What is read from some tokens is read from equal ones. -/
theorem Reads.cast {p : (ts : List Token) → Except Fault (Parsed α ts)} {ts ts' : List Token}
    {v : α} {rest : List Token} (h : Reads (p ts) v rest) (heq : ts = ts') :
    Reads (p ts') v rest := heq ▸ h

end Results

/-! ## Lists -/

/-- Members are read one by one, each with the comma or the parenthesis behind it. -/
theorem reads_members {member : Parser Expr} {stray : Token → Fault} {unclosed : Fault}
    {ts rest : List Token} {es : List Expr} :
    Reads (members member stray unclosed ts) es rest ↔
      ∃ e next, Reads (member ts) e next ∧
        ((next = .closing :: rest ∧ es = [e]) ∨
          ∃ us es', next = .comma :: us ∧ Reads (members member stray unclosed us) es' rest ∧
            es = e :: es') := by
  rw [members]
  cases hm : member ts with
  | error fault => simp
  | ok p =>
    obtain ⟨e, next, h⟩ := p
    cases next with
    | nil => simp [and_assoc]
    | cons t us =>
      cases t with
      | closing => simp [and_assoc, and_comm, eq_comm]
      | comma =>
        cases hr : members member stray unclosed us with
        | error fault => simp [hr, and_assoc]
        | ok q => simp [hr, and_assoc]
      | opening => simp [and_assoc]
      | quoted content => simp [and_assoc]
      | word w => simp [and_assoc]

/-- The arguments of a call are none, or members. -/
theorem reads_arguments {deeper : Deeper} {name : String} {ts rest : List Token}
    {args : List Expr} :
    Reads (arguments deeper name ts) args rest ↔
      ∃ parser, deeper = .ok parser ∧
        ((ts = .closing :: rest ∧ args = []) ∨
          (ts.head? ≠ some .closing ∧
            Reads (members (parser .disjunction) (.strayInCall name) (.openCall name) ts)
              args rest)) := by
  cases deeper with
  | error fault => simp [arguments]
  | ok parser =>
    cases ts with
    | nil => simp [arguments]
    | cons t us => cases t <;> simp [arguments, eq_comm]

/-- The list behind an `in` is members in parentheses. -/
theorem reads_listItems {deeper : Deeper} {ts rest : List Token} {items : List Expr} :
    Reads (listItems deeper ts) items rest ↔
      ∃ us, ts = .opening :: us ∧
        Reads (members (operand deeper) .strayInList .openList us) items rest := by
  cases ts with
  | nil => simp [listItems]
  | cons t us =>
    cases t with
    | opening =>
      cases hm : members (operand deeper) .strayInList .openList us with
      | error fault => simp [listItems, hm]
      | ok p => simp [listItems, hm]
    | closing => simp [listItems]
    | comma => simp [listItems]
    | quoted content => simp [listItems]
    | word w => simp [listItems]

/-! ## Operands -/

/-- A group is read one level deeper, up to its closing parenthesis. -/
theorem reads_operand_opening {deeper : Deeper} {us rest : List Token} {e : Expr} :
    Reads (operand deeper (.opening :: us)) e rest ↔
      ∃ parser, deeper = .ok parser ∧ Reads (parser .disjunction us) e (.closing :: rest) := by
  cases deeper with
  | error fault => simp [operand]
  | ok parser =>
    cases hp : parser .disjunction us with
    | error fault => simp [operand, hp]
    | ok p =>
      obtain ⟨e', next, h⟩ := p
      cases next with
      | nil => simp [operand, hp]
      | cons t next => cases t <;> simp [operand, hp]

/-- A quoted text is a string. -/
theorem reads_operand_quoted {deeper : Deeper} {content : String} {us rest : List Token}
    {e : Expr} :
    Reads (operand deeper (.quoted content :: us)) e rest ↔
      rest = us ∧ e = .literal (.string content) := by
  rw [operand, reads_ok]

/-- A word that is no keyword is a call if it may name a function and a parenthesis follows, and
else a leaf. -/
theorem reads_operand_word {deeper : Deeper} {w : String} {us rest : List Token} {e : Expr} :
    Reads (operand deeper (.word w :: us)) e rest ↔
      isKeyword w = false ∧
        ((∃ vs args, isFunctionName w = true ∧ us = .opening :: vs ∧
            Reads (arguments deeper w vs) args rest ∧ e = .call w args) ∨
          ((isFunctionName w = true → us.head? ≠ some .opening) ∧ rest = us ∧ e = leaf w)) := by
  cases hk : isKeyword w with
  | true => simp [operand, hk]
  | false =>
    cases hf : isFunctionName w with
    | false => simp [operand, hk, hf]
    | true =>
      cases us with
      | nil => simp [operand, hk, hf]
      | cons t vs =>
        cases t with
        | opening =>
          cases ha : arguments deeper w vs with
          | error fault => simp [operand, hk, hf, ha]
          | ok p => simp [operand, hk, hf, ha, and_assoc]
        | closing => simp [operand, hk, hf]
        | comma => simp [operand, hk, hf]
        | quoted content => simp [operand, hk, hf]
        | word w => simp [operand, hk, hf]

/-- Nothing else begins an operand. -/
theorem not_reads_operand {deeper : Deeper} {ts rest : List Token} {e : Expr}
    (h : ts.head? = none ∨ ts.head? = some .closing ∨ ts.head? = some .comma) :
    ¬ Reads (operand deeper ts) e rest := by
  cases ts with
  | nil => simp [operand]
  | cons t us => cases t <;> simp_all [operand]

/-! ## Comparisons -/

/-- No comparison or membership begins at the tokens. -/
def NoComparison (ts : List Token) : Prop :=
  ∀ w, ts.head? = some (.word w) → continuesComparison w = false

/-- The right side of a comparison is an operand that no other comparison follows. -/
theorem reads_rightSide {deeper : Deeper} {op : Comparison} {ts rest : List Token} {e : Expr} :
    Reads (rightSide deeper op ts) e rest ↔
      Reads (operand deeper ts) e rest ∧ NoComparison rest := by
  rw [rightSide]
  cases ho : operand deeper ts with
  | error fault => simp
  | ok p =>
    obtain ⟨e', next, h⟩ := p
    cases next with
    | nil => simp +contextual [NoComparison]
    | cons t us =>
      cases t with
      | word w => cases hw : continuesComparison w <;> simp +contextual [NoComparison, hw]
      | opening => simp +contextual [NoComparison]
      | closing => simp +contextual [NoComparison]
      | comma => simp +contextual [NoComparison]
      | quoted content => simp +contextual [NoComparison]

theorem ofKeyword?_eq_some {w : String} {op : Comparison} :
    Comparison.ofKeyword? w = some op ↔ op.keyword = w := by
  constructor
  · intro h
    simpa using List.find?_some h
  · rintro rfl
    exact Comparison.ofKeyword?_keyword op

theorem keyword_inj {op op' : Comparison} : op.keyword = op'.keyword ↔ op = op' := by
  rw [← ofKeyword?_eq_some, Comparison.ofKeyword?_keyword, Option.some.injEq, eq_comm]

theorem keyword_ne_in (op : Comparison) : op.keyword ≠ "in" := by
  cases op <;> decide

theorem continuesComparison_keyword (op : Comparison) : continuesComparison op.keyword = true := by
  cases op <;> decide

/-- A comparison is an operand alone, an operand compared with another, or an operand and a list. -/
theorem reads_comparison {deeper : Deeper} {ts rest : List Token} {e : Expr} :
    Reads (comparison deeper ts) e rest ↔
      ∃ l next, Reads (operand deeper ts) l next ∧
        ((NoComparison next ∧ rest = next ∧ e = l) ∨
          (∃ op us r, next = .word op.keyword :: us ∧ Reads (rightSide deeper op us) r rest ∧
            e = .compare l op r) ∨
          (∃ us items, next = .word "in" :: us ∧ Reads (listItems deeper us) items rest ∧
            e = .isIn l items)) := by
  rw [comparison]
  cases ho : operand deeper ts with
  | error fault => simp
  | ok p =>
    obtain ⟨l, next, h⟩ := p
    cases next with
    | nil => simp +contextual [NoComparison, and_assoc]
    | cons t us =>
      cases t with
      | opening => simp +contextual [NoComparison, and_assoc]
      | closing => simp +contextual [NoComparison, and_assoc]
      | comma => simp +contextual [NoComparison, and_assoc]
      | quoted content => simp +contextual [NoComparison, and_assoc]
      | word w =>
        cases hop : Comparison.ofKeyword? w with
        | some op =>
          obtain rfl := ofKeyword?_eq_some.1 hop
          cases hr : rightSide deeper op us with
          | error fault =>
            simp [NoComparison, and_assoc, keyword_inj, keyword_ne_in,
              continuesComparison_keyword, Comparison.ofKeyword?_keyword, hr]
          | ok q =>
            simp [NoComparison, and_assoc, keyword_inj, keyword_ne_in,
              continuesComparison_keyword, Comparison.ofKeyword?_keyword, hr]
        | none =>
          have hne (op : Comparison) : w ≠ op.keyword := by
            rintro rfl
            rw [Comparison.ofKeyword?_keyword] at hop
            cases hop
          by_cases hin : w = "in"
          · subst hin
            cases hl : listItems deeper us with
            | error fault => simp [NoComparison, and_assoc, hl, hne, hop, continuesComparison]
            | ok q =>
              simp [NoComparison, and_assoc, hl, hne, hop, continuesComparison]
          · simp [NoComparison, and_assoc, hne, hop, hin, continuesComparison]

/-! ## Connectives -/

/-- A negation is a `not` and what it negates one level deeper, or a comparison. -/
theorem reads_negation {deeper : Deeper} {ts rest : List Token} {e : Expr} :
    Reads (negation deeper ts) e rest ↔
      (∃ us parser e', ts = .word "not" :: us ∧ deeper = .ok parser ∧
        Reads (parser .negation us) e' rest ∧ e = .not e') ∨
      (ts.head? ≠ some (.word "not") ∧ Reads (comparison deeper ts) e rest) := by
  cases ts with
  | nil => simp [negation]
  | cons t us =>
    by_cases ht : t = .word "not"
    · subst ht
      cases deeper with
      | error fault => simp [negation]
      | ok parser =>
        cases hp : parser .negation us with
        | error fault => simp [negation, hp]
        | ok p => simp [negation, hp, and_assoc]
    · rw [negation]
      · simp [ht]
      · intro us' h
        exact ht (List.cons.inj h).1

/-- A chain is one member, or a member and the rest of the chain one level deeper. -/
theorem reads_chain {deeper : Deeper} {first : Parser Expr} {keyword : String}
    {join : Expr → Expr → Expr} {again : Rule} {ts rest : List Token} {e : Expr} :
    Reads (chain deeper first keyword join again ts) e rest ↔
      ∃ l next, Reads (first ts) l next ∧
        ((next.head? ≠ some (.word keyword) ∧ rest = next ∧ e = l) ∨
          ∃ us parser r, next = .word keyword :: us ∧ deeper = .ok parser ∧
            Reads (parser again us) r rest ∧ e = join l r) := by
  rw [chain]
  cases hf : first ts with
  | error fault => simp
  | ok p =>
    obtain ⟨l, next, h⟩ := p
    cases next with
    | nil => simp [and_assoc]
    | cons t us =>
      cases t with
      | opening => simp [and_assoc]
      | closing => simp [and_assoc]
      | comma => simp [and_assoc]
      | quoted content => simp [and_assoc]
      | word w =>
        by_cases hw : w = keyword
        · subst hw
          cases deeper with
          | error fault => simp [and_assoc]
          | ok parser =>
            cases hp : parser again us with
            | error fault => simp [and_assoc, hp]
            | ok q => simp [and_assoc, hp]
        · simp [and_assoc, hw]

/-- A conjunction is a negation, or a negation and the rest of the conjunction one level deeper. -/
theorem reads_conjunction {deeper : Deeper} {ts rest : List Token} {e : Expr} :
    Reads (conjunction deeper ts) e rest ↔
      ∃ l next, Reads (negation deeper ts) l next ∧
        ((next.head? ≠ some (.word "and") ∧ rest = next ∧ e = l) ∨
          ∃ us parser r, next = .word "and" :: us ∧ deeper = .ok parser ∧
            Reads (parser .conjunction us) r rest ∧ e = .and l r) :=
  reads_chain

/-- A disjunction is a conjunction, or a conjunction and the rest of the disjunction one level deeper. -/
theorem reads_disjunction {deeper : Deeper} {ts rest : List Token} {e : Expr} :
    Reads (disjunction deeper ts) e rest ↔
      ∃ l next, Reads (conjunction deeper ts) l next ∧
        ((next.head? ≠ some (.word "or") ∧ rest = next ∧ e = l) ∨
          ∃ us parser r, next = .word "or" :: us ∧ deeper = .ok parser ∧
            Reads (parser .disjunction us) r rest ∧ e = .or l r) :=
  reads_chain

end OData.Filter

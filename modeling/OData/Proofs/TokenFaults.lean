import OData.Filter.Parser

/-!
# The faults of tokens

A filter is refused before its tokens are read, while they are read, or for the
tree that they make up.  The parser of tokens gives only faults of the second
kind (`onTokens_parseTokens`), so a text that is too long and a tree with too
many nodes are found by the checks around it alone.

Every parser passes on the faults of the parsers that it asks and adds some of
its own.  So there is one lemma for each parser, down to the parser one level
deeper, and an induction on the levels.
-/

namespace OData.Filter

/-- Whether a fault is found while tokens are read. -/
def Fault.isOnTokens : Fault → Bool
  | .tooLong _ | .openQuote _ | .tooManyNodes _ _ => false
  | _ => true

/-- If there is no result, the fault was found while tokens were read. -/
def OnTokens {α : Type} (result : Except Fault α) : Prop :=
  ∀ fault, result = .error fault → fault.isOnTokens = true

section Results

variable {α β : Type}

@[simp] theorem onTokens_ok (x : α) : OnTokens (.ok x) := nofun

@[simp] theorem onTokens_error {fault : Fault} :
    OnTokens (.error fault : Except Fault α) ↔ fault.isOnTokens = true := by
  simp [OnTokens]

/-- A fault that is passed on is still found while tokens are read. -/
theorem OnTokens.passed {result : Except Fault α} {fault : Fault} (h : OnTokens result)
    (heq : result = .error fault) : OnTokens (.error fault : Except Fault β) :=
  onTokens_error.2 (h fault heq)

end Results

/-- The parser one level deeper has only faults of tokens, also if it is not there. -/
structure Deeper.IsOnTokens (deeper : Deeper) : Prop where
  /-- There is no deeper level. -/
  missing : OnTokens deeper
  /-- The parser one level deeper finds a fault. -/
  rules : ∀ parser, deeper = .ok parser → ∀ rule ts, OnTokens (parser rule ts)

/-! ## Lists -/

theorem onTokens_members {member : Parser Expr} {stray : Token → Fault} {unclosed : Fault}
    (hmember : ∀ ts, OnTokens (member ts)) (hstray : ∀ t, (stray t).isOnTokens = true)
    (hunclosed : unclosed.isOnTokens = true) (ts : List Token) :
    OnTokens (members member stray unclosed ts) := by
  fun_induction members member stray unclosed ts with
  | case1 ts fault h => exact (hmember ts).passed h
  | case2 => exact onTokens_error.2 hunclosed
  | case3 => exact onTokens_ok _
  | case4 ts e rest h _ fault hrest ih => exact ih.passed hrest
  | case5 => exact onTokens_ok _
  | case6 => exact onTokens_error.2 (hstray _)

section Levels

variable {deeper : Deeper} (h : deeper.IsOnTokens)
include h

theorem onTokens_arguments (name : String) (ts : List Token) :
    OnTokens (arguments deeper name ts) := by
  cases deeper with
  | error fault => exact h.missing.passed rfl
  | ok parser =>
    have hmembers (us : List Token) : OnTokens
        (members (parser .disjunction) (.strayInCall name) (.openCall name) us) :=
      onTokens_members (h.rules parser rfl .disjunction) (fun _ => rfl) rfl us
    cases ts with
    | nil => exact hmembers []
    | cons t us =>
      cases t with
      | closing => exact onTokens_ok _
      | _ => exact hmembers _

/-! ## One level -/

theorem onTokens_operand (ts : List Token) : OnTokens (operand deeper ts) := by
  cases ts with
  | nil => exact onTokens_error.2 rfl
  | cons t us =>
    cases t with
    | opening =>
      cases deeper with
      | error fault => exact h.missing.passed rfl
      | ok parser =>
        cases hinner : parser .disjunction us with
        | error fault =>
          simpa [operand, hinner] using h.rules parser rfl .disjunction us fault hinner
        | ok p =>
          obtain ⟨e, rest, _⟩ := p
          cases rest with
          | nil => simp [operand, hinner, Fault.isOnTokens]
          | cons t rest => cases t <;> simp [operand, hinner, Fault.isOnTokens]
    | quoted content => exact onTokens_ok _
    | word w =>
      cases hkeyword : isKeyword w with
      | true => simp [operand, hkeyword, Fault.isOnTokens]
      | false =>
        cases hname : isFunctionName w with
        | false => simp [operand, hkeyword, hname]
        | true =>
          cases us with
          | nil => simp [operand, hkeyword, hname]
          | cons t vs =>
            cases t with
            | opening =>
              cases hargs : arguments deeper w vs with
              | error fault =>
                simpa [operand, hkeyword, hname, hargs] using
                  onTokens_arguments h w vs fault hargs
              | ok p => simp [operand, hkeyword, hname, hargs]
            | _ => simp [operand, hkeyword, hname]
    | closing => exact onTokens_error.2 rfl
    | comma => exact onTokens_error.2 rfl

theorem onTokens_rightSide (op : Comparison) (ts : List Token) :
    OnTokens (rightSide deeper op ts) := by
  fun_cases rightSide deeper op ts with
  | case1 fault hoperand => exact (onTokens_operand h ts).passed hoperand
  | case2 => exact onTokens_error.2 rfl
  | case3 => exact onTokens_ok _
  | case4 => exact onTokens_ok _

theorem onTokens_listItems (ts : List Token) : OnTokens (listItems deeper ts) := by
  cases ts with
  | nil => exact onTokens_error.2 rfl
  | cons t us =>
    cases t with
    | opening =>
      cases hitems : members (operand deeper) .strayInList .openList us with
      | error fault =>
        have hmembers : OnTokens (members (operand deeper) .strayInList .openList us) :=
          onTokens_members (onTokens_operand h) (fun _ => rfl) rfl us
        simpa [listItems, hitems] using hmembers fault hitems
      | ok p => simp [listItems, hitems]
    | _ => exact onTokens_error.2 rfl

theorem onTokens_comparison (ts : List Token) : OnTokens (comparison deeper ts) := by
  fun_cases comparison deeper ts with
  | case1 fault hoperand => exact (onTokens_operand h ts).passed hoperand
  | case2 _ _ rest _ _ op _ fault hright => exact (onTokens_rightSide h op rest).passed hright
  | case3 => exact onTokens_ok _
  | case4 _ rest fault hitems => exact (onTokens_listItems h rest).passed hitems
  | case5 => exact onTokens_ok _
  | case6 => exact onTokens_ok _
  | case7 => exact onTokens_ok _

theorem onTokens_negation (ts : List Token) : OnTokens (negation deeper ts) := by
  unfold negation
  split
  · cases deeper with
    | error fault => exact h.missing.passed rfl
    | ok parser =>
      next us =>
        cases hinner : parser .negation us with
        | error fault => simpa [hinner] using h.rules parser rfl .negation us fault hinner
        | ok p => simp [hinner]
  · exact onTokens_comparison h _

theorem onTokens_chain {first : Parser Expr} (hfirst : ∀ ts, OnTokens (first ts)) (keyword : String)
    (join : Expr → Expr → Expr) (again : Rule) (ts : List Token) :
    OnTokens (chain deeper first keyword join again ts) := by
  fun_cases chain deeper first keyword join again ts with
  | case1 _ fault hmember => exact (hfirst ts).passed hmember
  | case2 _ _ fault => exact h.missing.passed rfl
  | case3 _ rest parser fault hagain => exact (h.rules parser rfl again rest).passed hagain
  | case4 => exact onTokens_ok _
  | case5 => exact onTokens_ok _
  | case6 => exact onTokens_ok _

theorem onTokens_atLevel (rule : Rule) (ts : List Token) : OnTokens (atLevel deeper rule ts) := by
  have hconjunction := onTokens_chain h (onTokens_negation h) "and" .and .conjunction
  cases rule with
  | disjunction => exact onTokens_chain h hconjunction "or" .or .disjunction ts
  | conjunction => exact hconjunction ts
  | negation => exact onTokens_negation h ts

end Levels

/-! ## All levels -/

theorem onTokens_allLevels (limit levels : Nat) (rule : Rule) (ts : List Token) :
    OnTokens (parser limit levels rule ts) := by
  induction levels generalizing rule ts with
  | zero =>
    have hdeeper : Deeper.IsOnTokens (.error (.tooDeep limit)) := ⟨onTokens_error.2 rfl, nofun⟩
    exact onTokens_atLevel hdeeper rule ts
  | succ levels ih =>
    have hdeeper : Deeper.IsOnTokens (.ok (parser limit levels)) :=
      ⟨onTokens_ok _, fun _ h => Except.ok.inj h ▸ ih⟩
    exact onTokens_atLevel hdeeper rule ts

/-- The parser of tokens finds no other faults than those of tokens. -/
theorem onTokens_parseTokens (limit : Nat) (ts : List Token) : OnTokens (parseTokens limit ts) := by
  fun_cases parseTokens limit ts with
  | case1 => exact onTokens_error.2 rfl
  | case2 ts _ fault hparser => exact (onTokens_allLevels limit limit .disjunction ts).passed hparser
  | case3 => exact onTokens_ok _
  | case4 => exact onTokens_error.2 rfl

end OData.Filter

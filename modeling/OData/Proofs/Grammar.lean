import OData.Filter.Parser

/-!
# The grammar of filters

`Derives s ts e` says that the tokens `ts` make up the symbol `s` of the
grammar and stand for the tree `e`.  The relation speaks of tokens and trees
alone.  It knows no order of reading, no depth and no fault.

    disjunction := conjunction ( "or" disjunction )?
    conjunction := negation ( "and" conjunction )?
    negation    := "not" negation | comparison
    comparison  := operand ( op operand | "in" "(" operand ( "," operand )* ")" )?
    operand     := "(" disjunction ")" | name "(" ( disjunction ( "," disjunction )* )? ")"
                 | quoted text | word

The members of a list and the arguments of a call are given as parts, each
with its tokens and its tree, so that a derivation of a list is a derivation of
every part.

A tree never has more nodes than it has tokens (`Derives.size_le`).
-/

namespace OData.Filter

/-! ## Derivations -/

/-- The symbols of the grammar. -/
inductive Symbol where
  /-- Expressions joined by `or`. -/
  | disjunction
  /-- Expressions joined by `and`. -/
  | conjunction
  /-- An expression behind any number of `not`. -/
  | negation
  /-- An operand, or two compared, or one with a list. -/
  | comparison
  /-- A group, a call or a leaf. -/
  | operand
deriving DecidableEq, Repr

/-- Some runs of tokens with commas between them. -/
def commaSeparated : List (List Token) → List Token
  | [] => []
  | [ts] => ts
  | ts :: us :: rest => ts ++ .comma :: commaSeparated (us :: rest)

/-- The tokens of some parts with commas between them. -/
def partTokens (parts : List (List Token × Expr)) : List Token :=
  commaSeparated (parts.map Prod.fst)

@[simp] theorem partTokens_cons_cons (part next : List Token × Expr)
    (parts : List (List Token × Expr)) :
    partTokens (part :: next :: parts) = part.1 ++ .comma :: partTokens (next :: parts) := rfl

/-- The trees of some parts. -/
def partTrees (parts : List (List Token × Expr)) : List Expr := parts.map Prod.snd

/-- The tokens make up the symbol and stand for the tree. -/
inductive Derives : Symbol → List Token → Expr → Prop where
  /-- A conjunction is a disjunction of one member. -/
  | conjunction {ts : List Token} {e : Expr} :
      Derives .conjunction ts e → Derives .disjunction ts e
  /-- A disjunction of more members groups to the right. -/
  | or {ts us : List Token} {l r : Expr} :
      Derives .conjunction ts l → Derives .disjunction us r →
      Derives .disjunction (ts ++ .word "or" :: us) (.or l r)
  /-- A negation is a conjunction of one member. -/
  | negation {ts : List Token} {e : Expr} :
      Derives .negation ts e → Derives .conjunction ts e
  /-- A conjunction of more members groups to the right. -/
  | and {ts us : List Token} {l r : Expr} :
      Derives .negation ts l → Derives .conjunction us r →
      Derives .conjunction (ts ++ .word "and" :: us) (.and l r)
  /-- A comparison stands behind no `not`. -/
  | comparison {ts : List Token} {e : Expr} :
      Derives .comparison ts e → Derives .negation ts e
  /-- A `not` negates what follows it. -/
  | not {ts : List Token} {e : Expr} :
      Derives .negation ts e → Derives .negation (.word "not" :: ts) (.not e)
  /-- An operand needs not be compared. -/
  | operand {ts : List Token} {e : Expr} :
      Derives .operand ts e → Derives .comparison ts e
  /-- Two operands are compared. -/
  | compare {ts us : List Token} {l r : Expr} (op : Comparison) :
      Derives .operand ts l → Derives .operand us r →
      Derives .comparison (ts ++ .word op.keyword :: us) (.compare l op r)
  /-- An operand is looked for in a list that has a member. -/
  | isIn {ts : List Token} {e : Expr} {items : List (List Token × Expr)} :
      Derives .operand ts e → items ≠ [] →
      (∀ item ∈ items, Derives .operand item.1 item.2) →
      Derives .comparison (ts ++ .word "in" :: .opening :: (partTokens items ++ [.closing]))
        (.isIn e (partTrees items))
  /-- A disjunction in parentheses is an operand. -/
  | group {ts : List Token} {e : Expr} :
      Derives .disjunction ts e → Derives .operand (.opening :: (ts ++ [.closing])) e
  /-- A name calls a function with any number of arguments. -/
  | call {name : String} {args : List (List Token × Expr)} :
      isKeyword name = false → isFunctionName name = true →
      (∀ arg ∈ args, Derives .disjunction arg.1 arg.2) →
      Derives .operand (.word name :: .opening :: (partTokens args ++ [.closing]))
        (.call name (partTrees args))
  /-- A quoted text is a string. -/
  | quoted (content : String) : Derives .operand [.quoted content] (.literal (.string content))
  /-- A word that is no keyword is a leaf. -/
  | word {w : String} : isKeyword w = false → Derives .operand [.word w] (leaf w)

/-! ## What derivations are made of -/

/-- Parts with enough tokens each have enough tokens together. -/
theorem sizeAll_partTrees_le {parts : List (List Token × Expr)}
    (h : ∀ part ∈ parts, part.2.size ≤ part.1.length) :
    Expr.sizeAll (partTrees parts) ≤ (partTokens parts).length := by
  induction parts with
  | nil => exact Nat.le_refl 0
  | cons part rest ih =>
    have hpart := h part (by simp)
    have hrest := ih fun p hp => h p (List.mem_cons_of_mem _ hp)
    cases rest with
    | nil => simpa [partTrees, partTokens, commaSeparated, Expr.sizeAll] using hpart
    | cons next rest =>
      rw [partTokens_cons_cons, List.length_append, List.length_cons]
      simp only [partTrees, List.map_cons, Expr.sizeAll] at hrest ⊢
      omega

theorem leaf_size (w : String) : (leaf w).size = 1 := by
  unfold leaf
  split <;> rfl

/-- A tree has at most one node for each of its tokens. -/
theorem Derives.size_le {s : Symbol} {ts : List Token} {e : Expr} (h : Derives s ts e) :
    e.size ≤ ts.length := by
  induction h with
  | conjunction _ ih => exact ih
  | or _ _ ihl ihr => simp only [Expr.size, List.length_append, List.length_cons]; omega
  | negation _ ih => exact ih
  | and _ _ ihl ihr => simp only [Expr.size, List.length_append, List.length_cons]; omega
  | comparison _ ih => exact ih
  | not _ ih => simp only [Expr.size, List.length_cons]; omega
  | operand _ ih => exact ih
  | compare _ _ _ ihl ihr =>
    simp only [Expr.size, List.length_append, List.length_cons]; omega
  | isIn _ _ _ ih ihs =>
    have := sizeAll_partTrees_le ihs
    simp only [Expr.size, List.length_append, List.length_cons]
    omega
  | group _ ih => simp only [List.length_append, List.length_cons]; omega
  | call _ _ _ ihs =>
    have := sizeAll_partTrees_le ihs
    simp only [Expr.size, List.length_append, List.length_cons]
    omega
  | quoted => exact Nat.le_refl 1
  | word => rw [leaf_size]; exact Nat.le_refl 1

theorem Expr.size_pos (e : Expr) : 0 < e.size := by
  cases e <;> simp only [Expr.size] <;> omega

/-- Every derivation has a token. -/
theorem Derives.length_pos {s : Symbol} {ts : List Token} {e : Expr} (h : Derives s ts e) :
    0 < ts.length := Nat.lt_of_lt_of_le e.size_pos h.size_le

/-- A part has at most the tokens of all parts. -/
theorem length_le_partTokens {parts : List (List Token × Expr)} {part : List Token × Expr}
    (h : part ∈ parts) : part.1.length ≤ (partTokens parts).length := by
  induction parts with
  | nil => cases h
  | cons first rest ih =>
    cases rest with
    | nil =>
      obtain rfl := List.mem_singleton.1 h
      exact Nat.le_refl _
    | cons next rest =>
      rw [partTokens_cons_cons, List.length_append, List.length_cons]
      rcases List.mem_cons.1 h with rfl | h
      · omega
      · have := ih h
        omega

/-- No derivation begins with a closing parenthesis. -/
theorem Derives.head?_ne_closing {s : Symbol} {ts : List Token} {e : Expr} (h : Derives s ts e)
    (us : List Token) : (ts ++ us).head? ≠ some .closing := by
  induction h generalizing us with
  | conjunction _ ih => exact ih us
  | or _ _ ih => rw [List.append_assoc]; exact ih _
  | negation _ ih => exact ih us
  | and _ _ ih => rw [List.append_assoc]; exact ih _
  | comparison _ ih => exact ih us
  | not => simp
  | operand _ ih => exact ih us
  | compare _ _ _ ih => rw [List.append_assoc]; exact ih _
  | isIn _ _ _ ih => rw [List.append_assoc]; exact ih _
  | group => simp
  | call => simp
  | quoted => simp
  | word => simp

/-- No derived parts begin with a closing parenthesis. -/
theorem head?_partTokens_ne_closing {s : Symbol} {parts : List (List Token × Expr)}
    (hne : parts ≠ []) (h : ∀ part ∈ parts, Derives s part.1 part.2) (us : List Token) :
    (partTokens parts ++ us).head? ≠ some .closing := by
  cases parts with
  | nil => exact absurd rfl hne
  | cons part parts =>
    have hpart := h part (by simp)
    cases parts with
    | nil => exact hpart.head?_ne_closing us
    | cons next parts =>
      rw [partTokens_cons_cons, List.append_assoc]
      exact hpart.head?_ne_closing _

/-! ## Where a symbol ends -/

/-- Whether a token might carry on a symbol that was read up to it. -/
def continues : Symbol → Token → Bool
  | _, .opening => true
  | .operand, _ => false
  | .comparison, .word w | .negation, .word w => continuesComparison w
  | .conjunction, .word w => continuesComparison w || w = "and"
  | .disjunction, .word w => continuesComparison w || w = "and" || w = "or"
  | _, _ => false

/-- What follows a symbol does not carry it on. -/
def Ends (s : Symbol) (rest : List Token) : Prop :=
  ∀ t, rest.head? = some t → continues s t = false

@[simp] theorem ends_nil (s : Symbol) : Ends s [] := by
  intro t h
  cases h

@[simp] theorem ends_closing (s : Symbol) (ts : List Token) : Ends s (.closing :: ts) := by
  intro t h
  cases h
  cases s <;> rfl

@[simp] theorem ends_comma (s : Symbol) (ts : List Token) : Ends s (.comma :: ts) := by
  intro t h
  cases h
  cases s <;> rfl

/-- A word ends every operand. -/
@[simp] theorem ends_operand_word (w : String) (ts : List Token) :
    Ends .operand (.word w :: ts) := by
  intro t h
  cases h
  rfl

/-- The keyword `and` ends every negation. -/
theorem ends_negation_and (ts : List Token) : Ends .negation (.word "and" :: ts) := by
  intro t h
  cases h
  decide

/-- The keyword `or` ends every conjunction. -/
theorem ends_conjunction_or (ts : List Token) : Ends .conjunction (.word "or" :: ts) := by
  intro t h
  cases h
  decide

/-- What ends a disjunction ends a conjunction. -/
theorem Ends.conjunction {rest : List Token} (h : Ends .disjunction rest) :
    Ends .conjunction rest := by
  intro t ht
  have := h t ht
  cases t <;> simp_all [continues]

/-- What ends a conjunction ends a negation. -/
theorem Ends.negation {rest : List Token} (h : Ends .conjunction rest) : Ends .negation rest := by
  intro t ht
  have := h t ht
  cases t <;> simp_all [continues]

/-- What ends a negation ends a comparison. -/
theorem Ends.comparison {rest : List Token} (h : Ends .negation rest) : Ends .comparison rest := by
  intro t ht
  have := h t ht
  cases t <;> simp_all [continues]

/-- What ends a comparison ends an operand. -/
theorem Ends.operand {rest : List Token} (h : Ends .comparison rest) : Ends .operand rest := by
  intro t ht
  have := h t ht
  cases t <;> simp_all [continues]

end OData.Filter

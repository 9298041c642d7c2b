import OData.Proofs.Grammar

/-!
# Derivations within levels

`DerivesWithin n s ts e` is a derivation of the grammar (`Derives`) that goes
down at most `n` levels.  What stands in a group or in a call is one level
deeper, and so is what a `not` negates.  In a chain every member is one level
deeper than the one before it, since chains group to the right.  The operands of
a comparison and the members of a list stay on its level.

More levels derive more (`DerivesWithin.mono`), and every derivation goes down
fewer levels than it has tokens (`Derives.within`).
-/

namespace OData.Filter

/-- The tokens make up the symbol within some levels and stand for the tree. -/
inductive DerivesWithin : Nat → Symbol → List Token → Expr → Prop where
  /-- A disjunction of one member stays on its level. -/
  | conjunction {n : Nat} {ts : List Token} {e : Expr} :
      DerivesWithin n .conjunction ts e → DerivesWithin n .disjunction ts e
  /-- The other members of a disjunction are one level deeper than the first. -/
  | or {n : Nat} {ts us : List Token} {l r : Expr} :
      DerivesWithin (n + 1) .conjunction ts l → DerivesWithin n .disjunction us r →
      DerivesWithin (n + 1) .disjunction (ts ++ .word "or" :: us) (.or l r)
  /-- A conjunction of one member stays on its level. -/
  | negation {n : Nat} {ts : List Token} {e : Expr} :
      DerivesWithin n .negation ts e → DerivesWithin n .conjunction ts e
  /-- The other members of a conjunction are one level deeper than the first. -/
  | and {n : Nat} {ts us : List Token} {l r : Expr} :
      DerivesWithin (n + 1) .negation ts l → DerivesWithin n .conjunction us r →
      DerivesWithin (n + 1) .conjunction (ts ++ .word "and" :: us) (.and l r)
  /-- A comparison behind no `not` stays on its level. -/
  | comparison {n : Nat} {ts : List Token} {e : Expr} :
      DerivesWithin n .comparison ts e → DerivesWithin n .negation ts e
  /-- What is negated is one level deeper. -/
  | not {n : Nat} {ts : List Token} {e : Expr} :
      DerivesWithin n .negation ts e → DerivesWithin (n + 1) .negation (.word "not" :: ts) (.not e)
  /-- An operand that is not compared stays on its level. -/
  | operand {n : Nat} {ts : List Token} {e : Expr} :
      DerivesWithin n .operand ts e → DerivesWithin n .comparison ts e
  /-- Operands stay on the level of their comparison. -/
  | compare {n : Nat} {ts us : List Token} {l r : Expr} (op : Comparison) :
      DerivesWithin n .operand ts l → DerivesWithin n .operand us r →
      DerivesWithin n .comparison (ts ++ .word op.keyword :: us) (.compare l op r)
  /-- The members of a list stay on its level. -/
  | isIn {n : Nat} {ts : List Token} {e : Expr} {items : List (List Token × Expr)} :
      DerivesWithin n .operand ts e → items ≠ [] →
      (∀ item ∈ items, DerivesWithin n .operand item.1 item.2) →
      DerivesWithin n .comparison (ts ++ .word "in" :: .opening :: (partTokens items ++ [.closing]))
        (.isIn e (partTrees items))
  /-- What stands in a group is one level deeper. -/
  | group {n : Nat} {ts : List Token} {e : Expr} :
      DerivesWithin n .disjunction ts e →
      DerivesWithin (n + 1) .operand (.opening :: (ts ++ [.closing])) e
  /-- The arguments of a call are one level deeper. -/
  | call {n : Nat} {name : String} {args : List (List Token × Expr)} :
      isKeyword name = false → isFunctionName name = true →
      (∀ arg ∈ args, DerivesWithin n .disjunction arg.1 arg.2) →
      DerivesWithin (n + 1) .operand (.word name :: .opening :: (partTokens args ++ [.closing]))
        (.call name (partTrees args))
  /-- A quoted text needs no level. -/
  | quoted {n : Nat} (content : String) :
      DerivesWithin n .operand [.quoted content] (.literal (.string content))
  /-- A leaf needs no level. -/
  | word {n : Nat} {w : String} : isKeyword w = false → DerivesWithin n .operand [.word w] (leaf w)

namespace DerivesWithin

variable {n m : Nat} {s : Symbol} {ts : List Token} {e : Expr}

/-- A derivation within some levels is one of the grammar. -/
theorem derives (h : DerivesWithin n s ts e) : Derives s ts e := by
  induction h with
  | conjunction _ ih => exact .conjunction ih
  | or _ _ ihl ihr => exact .or ihl ihr
  | negation _ ih => exact .negation ih
  | and _ _ ihl ihr => exact .and ihl ihr
  | comparison _ ih => exact .comparison ih
  | not _ ih => exact .not ih
  | operand _ ih => exact .operand ih
  | compare op _ _ ihl ihr => exact .compare op ihl ihr
  | isIn _ hne _ ih ihs => exact .isIn ih hne ihs
  | group _ ih => exact .group ih
  | call hk hf _ ihs => exact .call hk hf ihs
  | quoted content => exact .quoted content
  | word hk => exact .word hk

theorem succ (h : DerivesWithin n s ts e) : DerivesWithin (n + 1) s ts e := by
  induction h with
  | conjunction _ ih => exact .conjunction ih
  | or _ _ ihl ihr => exact .or ihl ihr
  | negation _ ih => exact .negation ih
  | and _ _ ihl ihr => exact .and ihl ihr
  | comparison _ ih => exact .comparison ih
  | not _ ih => exact .not ih
  | operand _ ih => exact .operand ih
  | compare op _ _ ihl ihr => exact .compare op ihl ihr
  | isIn _ hne _ ih ihs => exact .isIn ih hne ihs
  | group _ ih => exact .group ih
  | call hk hf _ ihs => exact .call hk hf ihs
  | quoted content => exact .quoted content
  | word hk => exact .word hk

/-- What is derived within some levels is derived within more. -/
theorem mono (h : DerivesWithin n s ts e) (hle : n ≤ m) : DerivesWithin m s ts e := by
  induction hle with
  | refl => exact h
  | step _ ih => exact ih.succ

end DerivesWithin

/-- A derivation goes down fewer levels than it has tokens. -/
theorem Derives.within {s : Symbol} {ts : List Token} {e : Expr} (h : Derives s ts e) {n : Nat}
    (hn : ts.length ≤ n + 1) : DerivesWithin n s ts e := by
  induction h generalizing n with
  | conjunction _ ih => exact .conjunction (ih hn)
  | or hl hr ihl ihr =>
    rw [List.length_append, List.length_cons] at hn
    have := hl.length_pos
    have := hr.length_pos
    obtain ⟨m, rfl⟩ : ∃ m, n = m + 1 := ⟨n - 1, by omega⟩
    exact .or (ihl (by omega)) (ihr (by omega))
  | negation _ ih => exact .negation (ih hn)
  | and hl hr ihl ihr =>
    rw [List.length_append, List.length_cons] at hn
    have := hl.length_pos
    have := hr.length_pos
    obtain ⟨m, rfl⟩ : ∃ m, n = m + 1 := ⟨n - 1, by omega⟩
    exact .and (ihl (by omega)) (ihr (by omega))
  | comparison _ ih => exact .comparison (ih hn)
  | not h ih =>
    rw [List.length_cons] at hn
    have := h.length_pos
    obtain ⟨m, rfl⟩ : ∃ m, n = m + 1 := ⟨n - 1, by omega⟩
    exact .not (ih (by omega))
  | operand _ ih => exact .operand (ih hn)
  | compare op _ _ ihl ihr =>
    rw [List.length_append, List.length_cons] at hn
    exact .compare op (ihl (by omega)) (ihr (by omega))
  | isIn _ hne _ ih ihs =>
    simp only [List.length_append, List.length_cons, List.length_nil] at hn
    refine .isIn (ih (by omega)) hne fun item hitem => ?_
    have := length_le_partTokens hitem
    exact ihs item hitem (by omega)
  | group _ ih =>
    simp only [List.length_append, List.length_cons, List.length_nil] at hn
    obtain ⟨m, rfl⟩ : ∃ m, n = m + 1 := ⟨n - 1, by omega⟩
    exact .group (ih (by omega))
  | call hk hf _ ihs =>
    simp only [List.length_append, List.length_cons, List.length_nil] at hn
    obtain ⟨m, rfl⟩ : ∃ m, n = m + 1 := ⟨n - 1, by omega⟩
    refine .call hk hf fun arg harg => ?_
    have := length_le_partTokens harg
    exact ihs arg harg (by omega)
  | quoted content => exact .quoted content
  | word hk => exact .word hk

end OData.Filter

import OData.Proofs.Printing

/-!
# Levels of groups

Tokens show where their groups are.  What makes up a symbol ends in one place
(`Derives.append_unique`), so a derivation within some levels splits a chain
where the tokens do, and takes a group for a group.  What stands in the groups
is then derived within these levels too.

There is one lemma for each step down the grammar.  Tokens that make up the lower
symbol are derived as this one, since each other way to derive the higher symbol
would read them up to two places.
-/

namespace OData.Filter

/-- No comparison begins with `not`. -/
theorem not_derives_comparison_not {ts : List Token} {e : Expr} :
    ¬ Derives .comparison (.word "not" :: ts) e := by
  intro h
  have hread : Reads (comparison (below 0 ts.length) (.word "not" :: ts ++ [])) e [] :=
    symbolParser_complete 0 (h.within (Nat.le_refl _)) [] (ends_nil _)
  exact hread.head?_ne_not rfl

namespace DerivesWithin

variable {n : Nat} {ts us : List Token} {l r e e' : Expr}

/-! ## Steps down the grammar -/

theorem conjunction_of (h : DerivesWithin n .disjunction ts e) (hc : Derives .conjunction ts e') :
    DerivesWithin n .conjunction ts e := by
  cases h with
  | conjunction h => exact h
  | or hl hr => exact absurd hc (hl.derives.not_append (ends_conjunction_or _))

theorem negation_of (h : DerivesWithin n .conjunction ts e) (hn : Derives .negation ts e') :
    DerivesWithin n .negation ts e := by
  cases h with
  | negation h => exact h
  | and hl hr => exact absurd hn (hl.derives.not_append (ends_negation_and _))

theorem comparison_of (h : DerivesWithin n .negation ts e) (hc : Derives .comparison ts e') :
    DerivesWithin n .comparison ts e := by
  cases h with
  | comparison h => exact h
  | not h => exact absurd hc not_derives_comparison_not

theorem operand_of (h : DerivesWithin n .comparison ts e) (ho : Derives .operand ts e') :
    DerivesWithin n .operand ts e := by
  cases h with
  | operand h => exact h
  | compare op hl hr => exact absurd ho (hl.derives.not_append (ends_operand_word _ _))
  | isIn hl hne hitems => exact absurd ho (hl.derives.not_append (ends_operand_word _ _))

/-- A negation that is an operand begins with no `not` and compares nothing. -/
theorem operand_of_negation (h : DerivesWithin n .negation ts e) (ho : Derives .operand ts e') :
    DerivesWithin n .operand ts e :=
  (h.comparison_of (.operand ho)).operand_of ho

/-! ## Groups -/

/-- What stands in a group is one level deeper. -/
theorem of_group (h : DerivesWithin n .operand (.opening :: (ts ++ [.closing])) e) :
    ∃ m, n = m + 1 ∧ DerivesWithin m .disjunction ts e := by
  generalize hgroup : Token.opening :: (ts ++ [.closing]) = us at h
  cases h with
  | group h =>
    obtain ⟨-, hts⟩ := List.cons.inj hgroup
    exact ⟨_, rfl, List.append_cancel_right hts ▸ h⟩
  | call => cases hgroup
  | quoted => cases hgroup
  | word => cases hgroup

/-! ## Connectives -/

section Operands

variable (hl : Derives .operand ts l) (hr : Derives .operand us r)
include hl hr

/-- A conjunction of two operands is split at its `and`. -/
theorem of_and (h : DerivesWithin n .disjunction (ts ++ .word "and" :: us) e) :
    DerivesWithin n .operand ts l ∧ DerivesWithin n .operand us r := by
  have hleft : Derives .negation ts l := .comparison (.operand hl)
  have hright : Derives .negation us r := .comparison (.operand hr)
  have hand := h.conjunction_of (.and hleft (.negation hright))
  generalize htokens : ts ++ .word "and" :: us = vs at hand
  cases hand with
  | negation hwhole =>
    -- The left side alone is a negation already, and an `and` does not carry it on.
    exact absurd (htokens ▸ hwhole.derives) (hleft.not_append (ends_negation_and _))
  | and hl' hr' =>
    obtain ⟨rfl, hrest, rfl⟩ :=
      hleft.append_unique hl'.derives (ends_negation_and _) (ends_negation_and _) htokens
    obtain ⟨-, rfl⟩ := List.cons.inj hrest
    obtain rfl := (Derives.negation hright).unique hr'.derives
    exact ⟨hl'.operand_of_negation hl, ((hr'.negation_of hright).operand_of_negation hr).succ⟩

/-- A disjunction of two operands is split at its `or`. -/
theorem of_or (h : DerivesWithin n .disjunction (ts ++ .word "or" :: us) e) :
    DerivesWithin n .operand ts l ∧ DerivesWithin n .operand us r := by
  have hleft : Derives .negation ts l := .comparison (.operand hl)
  have hright : Derives .negation us r := .comparison (.operand hr)
  generalize htokens : ts ++ .word "or" :: us = vs at h
  cases h with
  | conjunction hwhole =>
    -- The left side alone is a conjunction already, and an `or` does not carry it on.
    exact absurd (htokens ▸ hwhole.derives) (hleft.negation.not_append (ends_conjunction_or _))
  | or hl' hr' =>
    obtain ⟨rfl, hrest, rfl⟩ := hleft.negation.append_unique hl'.derives (ends_conjunction_or _)
      (ends_conjunction_or _) htokens
    obtain ⟨-, rfl⟩ := List.cons.inj hrest
    obtain rfl := hright.negation.conjunction.unique hr'.derives
    have hright' := (hr'.conjunction_of hright.negation).negation_of hright
    exact ⟨(hl'.negation_of hleft).operand_of_negation hl, (hright'.operand_of_negation hr).succ⟩

end Operands

/-- A negated operand is what follows its `not`. -/
theorem of_not (hu : Derives .operand us r)
    (h : DerivesWithin n .disjunction (.word "not" :: us) e) : DerivesWithin n .operand us r := by
  have hright : Derives .negation us r := .comparison (.operand hu)
  have hwhole := (h.conjunction_of hright.not.negation).negation_of hright.not
  generalize htokens : Token.word "not" :: us = vs at hwhole
  cases hwhole with
  | comparison h' => exact absurd (htokens ▸ h'.derives) not_derives_comparison_not
  | not h' =>
    obtain ⟨-, rfl⟩ := List.cons.inj htokens
    obtain rfl := hright.unique h'.derives
    exact (h'.operand_of_negation hu).succ

end DerivesWithin

end OData.Filter

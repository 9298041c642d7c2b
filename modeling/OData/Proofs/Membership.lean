import OData.Proofs.FilterAlgebra

/-!
# Membership as equality with a member

An operand that is looked for in a list may as well be compared with the members
one by one.  The first text has an `in` and a list, the second a chain of `eq`
joined by `or`.  They are read by different rules and give different trees, which
have one value on every record (`parse_membership`).

The chain groups to the right, so it is written and evaluated by induction on the
members.
-/

namespace OData.Filter

/-! ## Texts of comparisons and lists -/

section Writes

variable {cs ds : List Char} {l r e : Expr}

theorem Writes.compare (hl : Writes .operand cs l) (op : Comparison) (hr : Writes .operand ds r) :
    Writes .comparison (cs ++ between op.keyword ++ ds) (.compare l op r) := by
  obtain ⟨n, hl⟩ := hl.within
  obtain ⟨m, hr⟩ := hr.within
  exact (hl.compare op hr).writes

/-- A member of a disjunction before the others. -/
theorem Writes.orOthers (hl : Writes .conjunction cs l) (hr : Writes .disjunction ds r) :
    Writes .disjunction (cs ++ between "or" ++ ds) (.or l r) := by
  obtain ⟨ts, hd, hs⟩ := hl
  obtain ⟨us, hd', hs'⟩ := hr
  exact ⟨_, .or hd hd', hs.between hs' (by decide)⟩

theorem Writes.isIn {α : Type} {items : List α} {text : α → List Char} {tree : α → Expr}
    (h : Writes .operand cs e) (hne : items ≠ [])
    (hitems : ∀ item ∈ items, Writes .operand (text item) (tree item)) :
    Writes .comparison (cs ++ between "in" ++ Filter.grouped (separated (items.map text)))
      (.isIn e (items.map tree)) := by
  obtain ⟨ts, hd, hs⟩ := h
  obtain ⟨parts, htrees, hparts, hspells⟩ := exists_parts (D := Derives .operand) hitems
  have hparts_ne : parts ≠ [] := by
    rintro rfl
    exact hne (List.map_eq_nil_iff.1 htrees.symm)
  rw [← htrees]
  exact ⟨_, .isIn hd hparts_ne hparts, hs.between hspells.grouped (by decide)⟩

end Writes

/-! ## Texts of operands -/

/-- A text that is one operand: at some level, the parser of operands reads it to its end. -/
def IsOperandText (text : String) (e : Expr) : Prop :=
  ∃ ts limit levels, tokenize text.toList = .ok ts ∧
    Reads (operand (below limit levels) ts) e []

/-- The grammar derives an operand from the tokens of these texts. -/
theorem isOperandText_iff {text : String} {e : Expr} :
    IsOperandText text e ↔ ∃ ts, tokenize text.toList = .ok ts ∧ Derives .operand ts e := by
  constructor
  · rintro ⟨ts, limit, levels, hts, hread⟩
    obtain ⟨used, rfl, hused⟩ := operand_sound (soundBelow_below limit levels) _ _ _ hread
    rw [List.append_nil] at hts
    exact ⟨used, hts, hused.derives⟩
  · rintro ⟨ts, hts, hd⟩
    have hread : Reads (operand (below 0 ts.length) (ts ++ [])) e [] :=
      symbolParser_complete 0 (hd.within (Nat.le_succ _)) [] (ends_nil _)
    exact ⟨ts, 0, ts.length, hts, hread.cast (List.append_nil ts)⟩

theorem IsOperandText.writes {text : String} {e : Expr} (h : IsOperandText text e) :
    Writes .operand text.toList e := by
  obtain ⟨ts, hts, hd⟩ := isOperandText_iff.1 h
  exact ⟨ts, hd, spells_of_tokenize hts⟩

/-! ## Both texts -/

/-- The text that looks for an operand in a list. -/
def membershipText (x : String) (items : List String) : String :=
  x ++ " in (" ++ ", ".intercalate items ++ ")"

/-- The text that compares an operand with one and another and so on. -/
def equalitiesText (x : String) (items : List String) : String :=
  " or ".intercalate (items.map fun item => x ++ " eq " ++ item)

/-- The tree that compares an expression with one and another and so on. -/
def equalities (e : Expr) : List Expr → Expr
  | [] => .literal (.bool false)
  | [item] => .compare e .eq item
  | item :: next :: items => .or (.compare e .eq item) (equalities e (next :: items))

section Texts

variable {x : String} {e : Expr} {items : List (String × Expr)}
variable (hx : IsOperandText x e) (hne : items ≠ [])
variable (hitems : ∀ item ∈ items, IsOperandText item.1 item.2)
include hx hne hitems

theorem writes_membershipText :
    Writes .disjunction (membershipText x (items.map Prod.fst)).toList
      (.isIn e (items.map Prod.snd)) := by
  have hin := hx.writes.isIn hne fun item hitem => (hitems item hitem).writes
  have htext : (membershipText x (items.map Prod.fst)).toList =
      x.toList ++ between "in" ++ Filter.grouped (separated (items.map fun item => item.1.toList)) := by
    simp [membershipText, between, Filter.grouped, separated, String.toList_intercalate,
      Function.comp_def]
  rw [htext]
  exact hin.negation.conjunction.disjunction

theorem writes_equalitiesText :
    Writes .disjunction (equalitiesText x (items.map Prod.fst)).toList
      (equalities e (items.map Prod.snd)) := by
  induction items with
  | nil => exact absurd rfl hne
  | cons item items ih =>
    have hfirst := hx.writes.compare .eq (hitems item (by simp)).writes
    cases items with
    | nil =>
      have htext : (equalitiesText x [item.1]).toList =
          x.toList ++ between "eq" ++ item.1.toList := by
        simp [equalitiesText, between]
      rw [List.map_singleton, List.map_singleton, htext]
      exact hfirst.negation.conjunction.disjunction
    | cons next items =>
      have hothers := ih (by simp) fun other hother => hitems other (List.mem_cons_of_mem _ hother)
      have htext : (equalitiesText x ((item :: next :: items).map Prod.fst)).toList =
          x.toList ++ between "eq" ++ item.1.toList ++ between "or" ++
            (equalitiesText x ((next :: items).map Prod.fst)).toList := by
        simp [equalitiesText, between, String.toList_intercalate]
      rw [htext]
      exact hfirst.negation.conjunction.orOthers hothers

end Texts

/-! ## Both values -/

theorem Expr.evalAll_eq_map (functions : FunctionTable) (record : Json) (es : List Expr) :
    evalAll functions record es = es.map (Expr.eval functions record) := by
  induction es with
  | nil => rfl
  | cons e es ih => rw [evalAll, ih, List.map_cons]

/-- The chain is true just when the value equals that of one of the members. -/
theorem eval_equalities (functions : FunctionTable) (record : Json) (e : Expr) (items : List Expr) :
    (equalities e items).eval functions record =
      .bool (items.any fun item => equal (e.eval functions record) (item.eval functions record)) := by
  induction items with
  | nil => rfl
  | cons item items ih =>
    cases items with
    | nil => simp [equalities, Expr.eval, Comparison.holds]
    | cons next items =>
      rw [equalities, Expr.eval, ih, Expr.eval, List.any_cons]
      rfl

/-- Membership is equality with a member.  For an operand and one or more members, each of them any
operand as text, limits that are large enough accept both the membership and the chain of equalities.
The two trees have one value on every record, whatever the functions are. -/
theorem parse_membership {x : String} {e : Expr} {items : List (String × Expr)}
    (hx : IsOperandText x e) (hne : items ≠ [])
    (hitems : ∀ item ∈ items, IsOperandText item.1 item.2) :
    (∀ limits : Limits, limits.Suffice (membershipText x (items.map Prod.fst)) →
      parse limits (membershipText x (items.map Prod.fst)) = .ok (.isIn e (items.map Prod.snd))) ∧
    (∀ limits : Limits, limits.Suffice (equalitiesText x (items.map Prod.fst)) →
      parse limits (equalitiesText x (items.map Prod.fst)) =
        .ok (equalities e (items.map Prod.snd))) ∧
    ∀ (functions : FunctionTable) (record : Json),
      (Expr.isIn e (items.map Prod.snd)).eval functions record =
        (equalities e (items.map Prod.snd)).eval functions record := by
  refine ⟨fun limits hlimits => ?_, fun limits hlimits => ?_, fun functions record => ?_⟩
  · exact parse_of_suffice (writes_membershipText hx hne hitems) hlimits
  · exact parse_of_suffice (writes_equalitiesText hx hne hitems) hlimits
  · rw [eval_equalities, Expr.eval, Expr.evalAll_eq_map, List.any_map]
    rfl

/-- A property is looked for among a quoted text, null and a comparison in parentheses, which it
equals. -/
theorem parse_membership_grouped :
    let e : Expr := .property ⟨["status"]⟩
    let inner : Expr := .compare (.property ⟨["a"]⟩) .eq (.property ⟨["b"]⟩)
    let trees : List Expr := [.literal (.string "open"), .literal .null, inner]
    let record : Json := .object [("a", .null), ("status", .bool true)]
    IsOperandText "status" e ∧ IsOperandText "'open'" (.literal (.string "open")) ∧
      IsOperandText "null" (.literal .null) ∧ IsOperandText "(a eq b)" inner ∧
      parse {} "status in ('open', null, (a eq b))" = .ok (.isIn e trees) ∧
      parse {} "status eq 'open' or status eq null or status eq (a eq b)" =
        .ok (equalities e trees) ∧
      (Expr.isIn e trees).eval .empty record = .bool true ∧
      (equalities e trees).eval .empty record = .bool true := by
  intro e inner trees record
  have hx : IsOperandText "status" e :=
    isOperandText_iff.2 ⟨[.word "status"], by decide +kernel, .word rfl⟩
  have hopen : IsOperandText "'open'" (.literal (.string "open")) :=
    isOperandText_iff.2 ⟨[.quoted "open"], by decide +kernel, .quoted "open"⟩
  have hnull : IsOperandText "null" (.literal .null) :=
    isOperandText_iff.2 ⟨[.word "null"], by decide +kernel, .word rfl⟩
  have hinner : IsOperandText "(a eq b)" inner := by
    have hcompare : Derives .comparison [.word "a", .word "eq", .word "b"] inner :=
      .compare .eq (.word (w := "a") rfl) (.word (w := "b") rfl)
    exact isOperandText_iff.2 ⟨_, by decide +kernel,
      hcompare.comparison.negation.conjunction.group⟩
  let items : List (String × Expr) :=
    [("'open'", .literal (.string "open")), ("null", .literal .null), ("(a eq b)", inner)]
  have hitems : ∀ item ∈ items, IsOperandText item.1 item.2 := by
    simp only [items, List.forall_mem_cons]
    exact ⟨hopen, hnull, hinner, nofun⟩
  obtain ⟨hmembership, hequalities, hvalue⟩ := parse_membership hx (List.cons_ne_nil _ _) hitems
  have htrue : (Expr.isIn e trees).eval .empty record = .bool true := rfl
  exact ⟨hx, hopen, hnull, hinner,
    hmembership {} (.inr ⟨by decide +kernel, by decide +kernel, by decide +kernel⟩),
    hequalities {} (.inr ⟨by decide +kernel, by decide +kernel, by decide +kernel⟩),
    htrue, (hvalue .empty record).symm.trans htrue⟩

end OData.Filter

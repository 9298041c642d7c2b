import Mathlib.Data.Nat.Find
import OData.Proofs.Printing

/-!
# The limit of depth

A filter is accepted just when it is short enough, has few enough nodes and is
derived within as many levels as the limits allow.  So limits only cut off: there
is one depth from which on a text is accepted, and greater limits give the same
tree (`parse_cutOff`).

A derivation within some levels bounds what is made of it, by one induction for
each bound.  Its tree is no higher than four times the levels and two more
(`height_le_of_parse`), so later recursion on the tree is bounded too.  The text
of the tree goes down at most twice the levels (`parse_toText_doubled`): it has
parentheses around every chain inside another one, and each pair of them is one
more level.
-/

namespace OData

/-- No limit of a filter is above that of the others. -/
structure Limits.AtMost (limits limits' : Limits) : Prop where
  /-- The texts are no longer. -/
  length : limits.maxFilterLength ≤ limits'.maxFilterLength
  /-- The trees have no more nodes. -/
  nodes : limits.maxNodes ≤ limits'.maxNodes
  /-- The trees are nested no deeper. -/
  depth : limits.maxDepth ≤ limits'.maxDepth

namespace Filter

/-! ## Limits only cut off -/

/-- The levels that a derivation needs, which are fewer than its tokens. -/
theorem Derives.exists_levels {s : Symbol} {ts : List Token} {e : Expr} (h : Derives s ts e) :
    ∃ depth < ts.length, ∀ n, DerivesWithin n s ts e ↔ depth ≤ n := by
  classical
  have hpos := h.length_pos
  have hwithin : DerivesWithin (ts.length - 1) s ts e := h.within (by omega)
  have hsome : ∃ n, DerivesWithin n s ts e := ⟨_, hwithin⟩
  have hleast := Nat.find_min' hsome hwithin
  refine ⟨Nat.find hsome, by omega, fun n => ⟨Nat.find_min' hsome, fun hle => ?_⟩⟩
  exact (Nat.find_spec hsome).mono hle

/-- Limits only cut off.  An accepted text gives the same tree and number of nodes under limits that are
no less, and there is one depth, no greater than the number of its tokens, so that under any limits it is accepted just
when they allow this depth, the nodes of the tree and the bytes of the text. -/
theorem parse_cutOff {limits : Limits} {text : String} {p : ParsedFilter}
    (h : parseFilter limits text = .ok p) :
    (∀ limits' : Limits, limits.AtMost limits' →
      ∃ p', parseFilter limits' text = .ok p' ∧ p'.expr = p.expr ∧ p.expr.same p'.expr = true ∧
        p'.nodeCount = p.nodeCount) ∧
    ∃ (ts : List Token) (depth : Nat), tokenize text.toList = .ok ts ∧ depth ≤ ts.length ∧
      ∀ limits' : Limits, (∃ p', parseFilter limits' text = .ok p') ↔
        depth ≤ limits'.maxDepth ∧ p.nodeCount ≤ limits'.maxNodes ∧
          text.utf8ByteSize ≤ limits'.maxFilterLength := by
  obtain ⟨hparse, hcount⟩ := parseFilter_eq_ok_iff.1 h
  obtain ⟨hlength, hnodes, ts, hts, hwithin⟩ := parse_eq_ok_iff_derivesWithin.1 hparse
  rw [← hcount] at hnodes
  -- The text has one tree under any limits, so its count does not depend on them either.
  have haccepted {limits' : Limits} (hlength' : text.utf8ByteSize ≤ limits'.maxFilterLength)
      (hnodes' : p.nodeCount ≤ limits'.maxNodes)
      (hwithin' : DerivesWithin limits'.maxDepth .disjunction ts p.expr) :
      parseFilter limits' text = .ok p :=
    parseFilter_eq_ok_iff.2
      ⟨parse_eq_ok_iff_derivesWithin.2 ⟨hlength', hcount ▸ hnodes', ts, hts, hwithin'⟩, hcount⟩
  constructor
  · intro limits' hle
    exact ⟨p, haccepted (Nat.le_trans hlength hle.length) (Nat.le_trans hnodes hle.nodes)
      (hwithin.mono hle.depth), rfl, Expr.same_self (wellFormed_of_parse hparse), rfl⟩
  · obtain ⟨depth, hdepth, hiff⟩ := hwithin.derives.exists_levels
    refine ⟨ts, depth, hts, Nat.le_of_lt hdepth, fun limits' => ?_⟩
    constructor
    · rintro ⟨p', h'⟩
      obtain ⟨hparse', -⟩ := parseFilter_eq_ok_iff.1 h'
      obtain ⟨hlength', hnodes', ts', hts', hwithin'⟩ := parse_eq_ok_iff_derivesWithin.1 hparse'
      obtain rfl := Except.ok.inj (hts.symm.trans hts')
      have hexpr := hwithin'.derives.unique hwithin.derives
      rw [hexpr] at hwithin' hnodes'
      exact ⟨(hiff _).1 hwithin', hcount ▸ hnodes', hlength'⟩
    · rintro ⟨hdepth', hnodes', hlength'⟩
      exact ⟨p, haccepted hlength' hnodes' ((hiff _).2 hdepth')⟩

/-- A negation beside another member is accepted as soon as there is one level. -/
theorem parse_cutOff_not :
    let limits : Limits := { maxDepth := 8 }
    let e : Expr := .or (.not (.property ⟨["a"]⟩)) (.property ⟨["b"]⟩)
    let text := "not a or b"
    parseFilter limits text = .ok ⟨e, 4⟩ ∧
      (∀ limits' : Limits, limits.AtMost limits' →
        ∃ p', parseFilter limits' text = .ok p' ∧ p'.expr = e ∧ e.same p'.expr = true ∧
          p'.nodeCount = 4) ∧
      ∃ (ts : List Token) (depth : Nat), tokenize text.toList = .ok ts ∧ depth ≤ ts.length ∧
        ∀ limits' : Limits, (∃ p', parseFilter limits' text = .ok p') ↔
          depth ≤ limits'.maxDepth ∧ 4 ≤ limits'.maxNodes ∧
            text.utf8ByteSize ≤ limits'.maxFilterLength := by
  intro limits e text
  let ts : List Token := [.word "not", .word "a", .word "or", .word "b"]
  have hnot : DerivesWithin 8 .negation [.word "not", .word "a"] (.not (.property ⟨["a"]⟩)) :=
    .not (.comparison (.operand (@DerivesWithin.word 7 "a" (by decide))))
  have hor : DerivesWithin 8 .disjunction ts e :=
    .or (.negation hnot) (.conjunction (.negation (.comparison (.operand
      (@DerivesWithin.word 7 "b" (by decide))))))
  have hts : tokenize text.toList = .ok ts := by decide +kernel
  have hlength : text.utf8ByteSize ≤ limits.maxFilterLength := by decide +kernel
  have hparse : parseFilter limits text = .ok ⟨e, 4⟩ := parseFilter_eq_ok_iff.2
    ⟨parse_eq_ok_iff_derivesWithin.2 ⟨hlength, by decide, ts, hts, hor⟩, rfl⟩
  exact ⟨hparse, parse_cutOff hparse⟩

/-! ## The height of trees -/

namespace Expr

theorem heightAll_le_iff {es : List Expr} {n : Nat} :
    heightAll es ≤ n ↔ ∀ e ∈ es, e.height ≤ n := by
  induction es with
  | nil => simp [heightAll]
  | cons e es ih => rw [heightAll, Nat.max_le, ih, List.forall_mem_cons]

end Expr

/-- The greatest height of a tree that a symbol stands for within some levels. -/
def heightWithin (n : Nat) : Symbol → Nat
  | .disjunction => 4 * n + 2
  | .conjunction => max 2 (4 * n + 1)
  | .negation | .comparison => max 2 (4 * n)
  | .operand => max 1 (4 * n - 1)

theorem leaf_height (w : String) : (leaf w).height = 1 := by
  unfold leaf
  split <;> rfl

/-- Within some levels trees are no higher than the symbol allows. -/
theorem DerivesWithin.height_le {n : Nat} {s : Symbol} {ts : List Token} {e : Expr}
    (h : DerivesWithin n s ts e) : e.height ≤ heightWithin n s := by
  induction h with
  | conjunction _ ih => simp only [heightWithin] at ih ⊢; omega
  | or _ _ ihl ihr => simp only [Expr.height, heightWithin] at ihl ihr ⊢; omega
  | negation _ ih => simp only [heightWithin] at ih ⊢; omega
  | and _ _ ihl ihr => simp only [Expr.height, heightWithin] at ihl ihr ⊢; omega
  | comparison _ ih => exact ih
  | not _ ih => simp only [Expr.height, heightWithin] at ih ⊢; omega
  | operand _ ih => simp only [heightWithin] at ih ⊢; omega
  | compare _ _ _ ihl ihr => simp only [Expr.height, heightWithin] at ihl ihr ⊢; omega
  | isIn _ _ _ ih ihs =>
    have hitems := Expr.heightAll_le_iff.2 (List.forall_mem_map.2 ihs)
    simp only [Expr.height, heightWithin, partTrees] at ih hitems ⊢
    omega
  | group _ ih => simp only [heightWithin] at ih ⊢; omega
  | call _ _ _ ihs =>
    have hargs := Expr.heightAll_le_iff.2 (List.forall_mem_map.2 ihs)
    simp only [Expr.height, heightWithin, partTrees] at hargs ⊢
    omega
  | quoted => simp only [Expr.height, heightWithin]; omega
  | word => rw [leaf_height, heightWithin]; omega

/-- The limit of depth bounds the height of the tree. -/
theorem height_le_of_parse {limits : Limits} {text : String} {e : Expr}
    (h : parse limits text = .ok e) : e.height ≤ 4 * limits.maxDepth + 2 := by
  obtain ⟨-, -, ts, -, hwithin⟩ := parse_eq_ok_iff_derivesWithin.1 h
  exact hwithin.height_le

/-- A comparison of a call, with a chain of both kinds behind it, is as high as one level allows. -/
theorem height_le_of_parse_one :
    let limits : Limits := { maxDepth := 1 }
    let call : Expr := .call "f" [.compare (.property ⟨["a"]⟩) .eq (.property ⟨["b"]⟩)]
    let e : Expr := .or (.and (.compare call .eq (.property ⟨["c"]⟩)) (.property ⟨["d"]⟩))
      (.property ⟨["g"]⟩)
    parse limits "f(a eq b) eq c and d or g" = .ok e ∧ e.height = 4 * limits.maxDepth + 2 ∧
      e.height ≤ 4 * limits.maxDepth + 2 := by
  intro limits call e
  let inner : List Token := [.word "a", .word "eq", .word "b"]
  have hinner : DerivesWithin 0 .disjunction inner
      (.compare (.property ⟨["a"]⟩) .eq (.property ⟨["b"]⟩)) :=
    .conjunction (.negation (.comparison (.compare .eq
      (@DerivesWithin.word 0 "a" (by decide)) (@DerivesWithin.word 0 "b" (by decide)))))
  have hcall : DerivesWithin 1 .operand (.word "f" :: .opening :: (inner ++ [.closing])) call :=
    @DerivesWithin.call 0 "f" [(inner, _)] (by decide) (by decide) (by simpa using hinner)
  have hcompare := hcall.compare .eq (@DerivesWithin.word 1 "c" (by decide))
  have hand := hcompare.comparison.and
    (@DerivesWithin.word 0 "d" (by decide)).operand.comparison.negation
  have hor := hand.or (@DerivesWithin.word 0 "g" (by decide)).operand.comparison.negation.conjunction
  have hlength : "f(a eq b) eq c and d or g".utf8ByteSize ≤ limits.maxFilterLength := by
    decide +kernel
  have hparse : parse limits "f(a eq b) eq c and d or g" = .ok e :=
    parse_eq_ok_iff_derivesWithin.2 ⟨hlength, by decide, _, by decide +kernel, hor⟩
  exact ⟨hparse, by decide, height_le_of_parse hparse⟩

/-! ## The levels of printed trees -/

namespace Expr

theorem levels_le_asTermLevels (e : Expr) : e.levels ≤ e.asTermLevels e.levels := by
  rw [asTermLevels]
  split <;> omega

theorem asTermLevels_le_succ (e : Expr) : e.asTermLevels e.levels ≤ e.levels + 1 := by
  rw [asTermLevels]
  split <;> omega

theorem asOperandLevels_le_succ (e : Expr) : e.asOperandLevels e.levels ≤ e.levels + 1 := by
  rw [asOperandLevels]
  split <;> omega

/-- A side of a comparison has parentheses wherever a side of a connective has them. -/
theorem asTermLevels_le_asOperandLevels (e : Expr) :
    e.asTermLevels e.levels ≤ e.asOperandLevels e.levels := by
  cases e <;> simp [asTermLevels, asOperandLevels, isLogical, isOperand]

/-- A text that goes down no level has no connective, so no parentheses are put around it. -/
theorem asTermLevels_le_of_levels_le {e : Expr} {n : Nat} (h : e.levels ≤ 2 * n - 1) :
    e.asTermLevels e.levels ≤ 2 * n := by
  have hsucc := e.asTermLevels_le_succ
  cases e with
  | and | or => rw [levels] at h hsucc ⊢; omega
  | _ => exact Nat.le_trans h (Nat.sub_le _ _)

/-- The levels of a tree where its text writes a symbol. -/
def levelsAs (e : Expr) : Symbol → Nat
  | .disjunction | .conjunction => e.levels
  | .negation | .comparison => e.asTermLevels e.levels
  | .operand => e.asOperandLevels e.levels

end Expr

/-- The most levels of a text that writes a symbol again which was derived within some levels. -/
def levelsWithin (n : Nat) : Symbol → Nat
  | .disjunction => 2 * n
  | _ => 2 * n - 1

/-- Where it is written again, a tree goes down no more levels than its symbol allows. -/
theorem DerivesWithin.levelsAs_le {n : Nat} {s : Symbol} {ts : List Token} {e : Expr}
    (h : DerivesWithin n s ts e) : e.levelsAs s ≤ levelsWithin n s := by
  induction h with
  | conjunction _ ih =>
    simp only [Expr.levelsAs, levelsWithin] at ih ⊢
    omega
  | @or n _ _ l r _ _ ihl ihr =>
    -- Both sides may be conjunctions and get parentheses.
    simp only [Expr.levelsAs, levelsWithin, Expr.levels] at ihl ihr ⊢
    have hl := l.asTermLevels_le_succ
    have hr := r.asTermLevels_le_succ
    omega
  | @negation _ _ e _ ih =>
    have hterm := e.levels_le_asTermLevels
    simp only [Expr.levelsAs, levelsWithin] at ih ⊢
    omega
  | @and n _ _ l r _ _ ihl ihr =>
    -- The left side was a negation and has its parentheses counted, the right side may get them.
    simp only [Expr.levelsAs, levelsWithin, Expr.levels] at ihl ihr ⊢
    have hr := Expr.asTermLevels_le_of_levels_le ihr
    omega
  | comparison _ ih => exact ih
  | @not _ _ e _ ih =>
    have hnot : (Expr.not e).levelsAs .negation = e.levelsAs .negation + 1 := rfl
    simp only [levelsWithin] at ih ⊢
    omega
  | @operand _ _ e _ ih => exact Nat.le_trans e.asTermLevels_le_asOperandLevels ih
  | compare _ _ _ ihl ihr => exact Nat.max_le.2 ⟨ihl, ihr⟩
  | isIn _ _ _ ih ihs =>
    have hitems := Expr.itemLevels_le_iff.2 (List.forall_mem_map.2 ihs)
    exact Nat.max_le.2 ⟨ih, hitems⟩
  | @group n _ e _ ih =>
    have hoperand := e.asOperandLevels_le_succ
    simp only [Expr.levelsAs, levelsWithin] at ih ⊢
    omega
  | @call n _ args _ _ _ ihs =>
    have hargs := Expr.argLevels_le_iff.2 (List.forall_mem_map.2 ihs)
    exact Nat.succ_le_succ hargs
  | quoted => exact Nat.zero_le _
  | @word n w _ =>
    have hleaf : (leaf w).levelsAs .operand = 0 := by
      unfold leaf
      split <;> rfl
    rw [hleaf]
    exact Nat.zero_le _

/-- The text of an accepted tree goes down at most twice the levels.  If every instant in the tree is
written without a loss, the text is accepted with the same tree, and the number of its nodes, under twice
the limit of depth. -/
theorem parse_toText_doubled {limits limits' : Limits} {text : String} {e : Expr}
    (h : parse limits text = .ok e) (ht : ∀ t ∈ e.instants, Timestamp.isLossless t = true)
    (hdepth : 2 * limits.maxDepth ≤ limits'.maxDepth)
    (hnodes : limits.maxNodes ≤ limits'.maxNodes)
    (hlength : e.toText.utf8ByteSize ≤ limits'.maxFilterLength) :
    ∃ p, parseFilter limits' e.toText = .ok p ∧ p.expr = e ∧ e.same p.expr = true ∧
      p.nodeCount = e.size := by
  have hwell := wellFormed_of_parse h
  have hclock := onClock_of_parse h
  obtain ⟨-, hsize, ts, -, hwithin⟩ := parse_eq_ok_iff_derivesWithin.1 h
  have hlevels : e.levels ≤ 2 * limits.maxDepth := hwithin.levelsAs_le
  obtain ⟨us, hus, hspells⟩ := Expr.writes_toText hwell
  rw [Expr.reread_eq_self hwell fun t hmem => ⟨ht t hmem, hclock t hmem⟩] at hus
  have hparse : parse limits' e.toText = .ok e := parse_eq_ok_iff_derivesWithin.2
    ⟨hlength, Nat.le_trans hsize hnodes, us, hspells.tokenize_eq,
      hus.mono (Nat.le_trans hlevels hdepth)⟩
  exact ⟨⟨e, e.size⟩, parseFilter_eq_ok_iff.2 ⟨hparse, rfl⟩, rfl, Expr.same_self hwell, rfl⟩

/-- A conjunction in a disjunction gets parentheses, so it is one level deeper when it is read again. -/
theorem parse_toText_doubled_grouped :
    let day : Instant :=
      ⟨⟨2024, 1, 1, by decide, by decide, by decide⟩, 0, 0, by decide, by decide⟩
    let e : Expr := .or (.and (.property ⟨["a"]⟩) (.literal (.instant day))) (.property ⟨["b"]⟩)
    let limits : Limits := { maxDepth := 1 }
    let limits' : Limits := { maxDepth := 2 }
    parse limits "a and 2024-01-01 or b" = .ok e ∧
      (∀ t ∈ e.instants, Timestamp.isLossless t = true) ∧
      2 * limits.maxDepth ≤ limits'.maxDepth ∧ limits.maxNodes ≤ limits'.maxNodes ∧
      e.toText.utf8ByteSize ≤ limits'.maxFilterLength ∧
      e.toText = "(a and 2024-01-01T00:00:00.000Z) or b" ∧
      (∃ p, parseFilter limits' e.toText = .ok p ∧ p.expr = e ∧ e.same p.expr = true ∧
        p.nodeCount = e.size) ∧
      (parse limits e.toText).toOption = none := by
  intro day e limits limits'
  let ts : List Token := [.word "a", .word "and", .word "2024-01-01", .word "or", .word "b"]
  have hday : literal? "2024-01-01" = some (.instant day) := by decide +kernel
  have hand : DerivesWithin 1 .conjunction [.word "a", .word "and", .word "2024-01-01"]
      (.and (.property ⟨["a"]⟩) (.literal (.instant day))) := by
    have hword := @DerivesWithin.word 0 "2024-01-01" (by decide)
    rw [leaf, hday] at hword
    exact .and (.comparison (.operand (@DerivesWithin.word 1 "a" (by decide))))
      hword.operand.comparison.negation
  have hor : DerivesWithin 1 .disjunction ts e :=
    .or hand (.conjunction (.negation (.comparison (.operand
      (@DerivesWithin.word 0 "b" (by decide))))))
  have hts : tokenize "a and 2024-01-01 or b".toList = .ok ts := by decide +kernel
  have hparse : parse limits "a and 2024-01-01 or b" = .ok e :=
    parse_eq_ok_iff_derivesWithin.2 ⟨by decide +kernel, by decide, ts, hts, hor⟩
  have ht : ∀ t ∈ e.instants, Timestamp.isLossless t = true := by decide +kernel
  have hlength : e.toText.utf8ByteSize ≤ limits'.maxFilterLength := by decide +kernel
  have htext : e.toText = "(a and 2024-01-01T00:00:00.000Z) or b" := by decide +kernel
  have hrefused : (parse limits e.toText).toOption = none := by
    rw [htext]
    decide +kernel
  exact ⟨hparse, ht, by decide, by decide, hlength, htext,
    parse_toText_doubled hparse ht (by decide) (by decide) hlength, hrefused⟩

end Filter

end OData

import OData.Filter.Walker

/-!
# The counters of the parser

The parser that walks with counters always ends, reads at least one token
wherever it gives a value, and leaves the depth as it found it (`BalancedAt`).

All of this comes from one comparison.  At every depth each part of the walking
parser does what its counterpart of the parser by levels does with the levels
that are left (`Follows`): it gives the same fault or the same value, and stands
where the other one's rest begins.  The induction is on the levels that are left
(`parser_follows`), and only the loop over the items of a listing needs another
one, on the tokens.

The depth is a size, and at the greatest one it cannot be raised.  A counter that
breaks off there gives no value (`StopsFor`).  One that wraps is followed only as
far as it counts (`CountsTo`), and beyond that the depth is lost
(`not_balancedAt_negation_wraps`).  No whole parse comes so far: every level is
behind a token of its own, so the tokens that are left bound the depth (`reach`).

A chain is where the two differ.  The parser by levels reads what follows the
first member as a chain one level deeper.  The loop over the members raises the
depth instead, so behind it the depth is higher by the number of members that
were read (`Opened`), and that is what is lowered.
-/

namespace OData.Filter.Walker

/-! ## Steps -/

section Runs

variable {α β : Type} {c c' : Cursor} {stop : Stop} {a : α} {part : Run α}

theorem run_pure (a : α) (c : Cursor) : run (pure a) c = some (.ok (a, c)) := rfl

theorem run_bind_ok (h : run part c = some (.ok (a, c'))) (next : α → Run β) :
    run (part >>= next) c = run (next a) c' := by
  have hpart : StateT.run part c = ExceptT.mk (some (.ok (a, c'))) := h
  rw [run, StateT.run_bind, hpart]
  rfl

theorem run_bind_error (h : run part c = some (.error stop)) (next : α → Run β) :
    run (part >>= next) c = some (.error stop) := by
  have hpart : StateT.run part c = ExceptT.mk (some (.error stop)) := h
  rw [run, StateT.run_bind, hpart]
  rfl

end Runs

section Steps

variable {s : Walker} {us : List Token} {t : Token} {c : Cursor} {keyword : String}

theorem run_peek (s : Walker) (c : Cursor) :
    run (peek s) c = some (.ok ((s.tokens.drop c.pos).head?, c)) := by
  rw [List.head?_drop]
  rfl

theorem run_advance_nil (h : s.tokens.drop c.pos = []) :
    run (advance s) c = some (.ok (none, c)) := by
  rw [advance, run_bind_ok (run_peek s c), h]
  rfl

theorem run_advance_cons (h : s.tokens.drop c.pos = t :: us) :
    run (advance s) c = some (.ok (some t, ⟨c.pos + 1, c.depth⟩)) := by
  rw [advance, run_bind_ok (run_peek s c), h]
  rfl

theorem run_eatWord_of_eq (h : s.tokens.drop c.pos = .word keyword :: us) :
    run (eatWord s keyword) c = some (.ok (true, ⟨c.pos + 1, c.depth⟩)) := by
  rw [eatWord, run_bind_ok (run_peek s c), h, List.head?_cons, if_pos rfl]
  rfl

theorem run_eatWord_of_ne (h : (s.tokens.drop c.pos).head? ≠ some (.word keyword)) :
    run (eatWord s keyword) c = some (.ok (false, c)) := by
  rw [eatWord, run_bind_ok (run_peek s c), if_neg h]
  rfl

theorem run_enter (s : Walker) (c : Cursor) :
    run (enter s) c =
      if c.depth < greatestSize then
        if s.limit < c.depth + 1 then some (.error (.fault (.tooDeep s.limit)))
        else some (.ok ((), ⟨c.pos, c.depth + 1⟩))
      else match s.overflow with
        | .panics => some (.error .overflow)
        | .wraps => some (.ok ((), ⟨c.pos, 0⟩)) := by
  show run (raised s c.depth >>= fun depth => do
    modify fun c => { c with depth := depth }
    if s.limit < depth then refuse (.tooDeep s.limit)) c = _
  rw [raised]
  by_cases h : c.depth < greatestSize
  · rw [if_pos h, if_pos h, pure_bind]
    show run (if s.limit < c.depth + 1 then refuse (.tooDeep s.limit) else pure ())
      ⟨c.pos, c.depth + 1⟩ = _
    split
    · rfl
    · rfl
  · rw [if_neg h, if_neg h]
    cases s.overflow with
    | panics => rfl
    | wraps => rfl

/-- A level that the limit allows can be entered. -/
theorem run_enter_of_lt (h : c.depth < s.limit) :
    run (enter s) c = some (.ok ((), ⟨c.pos, c.depth + 1⟩)) := by
  rw [run_enter, if_pos (Nat.lt_of_lt_of_le h s.limit_le), if_neg (Nat.not_lt.2 h)]

/-- Levels that have been entered can be left. -/
theorem run_leave {c' : Cursor} {levels : Nat} (h : c'.depth = c.depth + levels) :
    run (leave s levels) c' = some (.ok ((), ⟨c'.pos, c.depth⟩)) := by
  rw [← s.lower_add c.depth levels, ← h]
  rfl

theorem drop_succ (h : s.tokens.drop c.pos = t :: us) : s.tokens.drop (c.pos + 1) = us := by
  rw [← List.tail_drop, h, List.tail_cons]

theorem pos_lt (h : s.tokens.drop c.pos = t :: us) : c.pos < s.tokens.length := by
  have hne : s.tokens.drop c.pos ≠ [] := by
    rw [h]
    exact List.cons_ne_nil t us
  exact List.length_lt_of_drop_ne_nil hne

end Steps

/-! ## The greatest depth -/

/-- A bound on the depth from a cursor on: each token that is left may raise it by one. -/
def reach (s : Walker) (c : Cursor) : Nat := c.depth + (s.tokens.length - c.pos)

/-- The counter counts up to a bound.  One that wraps must not come beyond the greatest size. -/
def CountsTo (s : Walker) (bound : Nat) : Prop :=
  s.overflow = .wraps → s.limit < greatestSize ∨ bound ≤ greatestSize

/-- The walking parser stops for a fault with that fault, or it breaks off because the bound on the depth
is beyond the greatest size. -/
inductive StopsFor (s : Walker) (bound : Nat) : Stop → Fault → Prop
  | fault (fault : Fault) : StopsFor s bound (.fault fault) fault
  | overflow {fault : Fault} (panics : s.overflow = .panics) (lt : greatestSize < bound) :
    StopsFor s bound .overflow fault

section Bounds

variable {s : Walker} {c c' : Cursor} {bound bound' : Nat} {stop : Stop} {fault : Fault}

theorem CountsTo.mono (h : CountsTo s bound) (hle : bound' ≤ bound) : CountsTo s bound' :=
  fun hwraps => (h hwraps).imp_right (Nat.le_trans hle)

theorem StopsFor.mono (h : StopsFor s bound' stop fault) (hle : bound' ≤ bound) :
    StopsFor s bound stop fault := by
  cases h with
  | fault fault => exact .fault fault
  | overflow hpanics hlt => exact .overflow hpanics (Nat.lt_of_lt_of_le hlt hle)

/-- A token that has been read is out of reach. -/
theorem reach_lt (hdepth : c'.depth = c.depth) (hpos : c.pos < c'.pos)
    (hlength : c.pos < s.tokens.length) : s.reach c' < s.reach c := by
  simp only [reach]
  omega

/-- A level entered behind a token is in reach of it. -/
theorem reach_enter (hpos : c.pos < s.tokens.length) :
    s.reach ⟨c.pos + 1, c.depth + 1⟩ = s.reach c := by
  simp only [reach]
  omega

/-- A parser at the deepest level cannot go deeper: it gives the fault, or it breaks off. -/
theorem enter_stops (hlimit : c.depth = s.limit) (hcounts : CountsTo s (s.reach c + 1)) :
    ∃ stop, run (enter s) c = some (.error stop) ∧
      StopsFor s (s.reach c + 1) stop (.tooDeep s.limit) := by
  rw [run_enter]
  by_cases h : c.depth < greatestSize
  · rw [if_pos h, if_pos (hlimit ▸ Nat.lt_succ_self _)]
    exact ⟨_, rfl, .fault _⟩
  · have hreach : greatestSize ≤ s.reach c := Nat.le_trans (Nat.not_lt.1 h) (Nat.le_add_right _ _)
    rw [if_neg h]
    cases hoverflow : s.overflow with
    | panics => exact ⟨_, rfl, .overflow hoverflow (Nat.lt_succ_of_le hreach)⟩
    | wraps =>
      have hlt := hcounts hoverflow
      omega

end Bounds

/-! ## Agreement -/

/-- An outcome from a cursor agrees with what a parser gives on the tokens there, where the depth has a
bound.  Either the outcome is a stop for the fault of the parser, or both are values: then at least one
token was read, the cursor is where the rest of the parser begins, and the values fit. -/
inductive Agrees {α β : Type} (s : Walker) (c : Cursor) (bound : Nat) (Fits : α → Cursor → β → Prop)
    {ts : List Token} : Option (Except Stop (α × Cursor)) → Except Fault (Parsed β ts) → Prop
  | stop {stop : Stop} {fault : Fault} (stops : StopsFor s bound stop fault) :
    Agrees s c bound Fits (some (.error stop)) (.error fault)
  | value {a : α} {c' : Cursor} {p : Parsed β ts} (lt : c.pos < c'.pos)
      (le : c'.pos ≤ s.tokens.length) (rest : s.tokens.drop c'.pos = p.rest)
      (fits : Fits a c' p.value) : Agrees s c bound Fits (some (.ok (a, c'))) (.ok p)

section Agreement

variable {α β : Type} {s : Walker} {c : Cursor} {bound : Nat} {Fits : α → Cursor → β → Prop}
  {ts : List Token}

theorem Agrees.fault (fault : Fault) :
    Agrees s c bound Fits (some (.error (.fault fault)))
      (.error fault : Except Fault (Parsed β ts)) :=
  .stop (.fault fault)

theorem Agrees.inv {outcome : Option (Except Stop (α × Cursor))} {result : Except Fault (Parsed β ts)}
    (h : Agrees s c bound Fits outcome result) :
    (∃ stop fault, outcome = some (.error stop) ∧ result = .error fault ∧
        StopsFor s bound stop fault) ∨
      ∃ a c' b rest hlt, outcome = some (.ok (a, c')) ∧ result = .ok ⟨b, rest, hlt⟩ ∧
        c.pos < c'.pos ∧ c'.pos ≤ s.tokens.length ∧ s.tokens.drop c'.pos = rest ∧ Fits a c' b := by
  cases h with
  | stop stops => exact .inl ⟨_, _, rfl, rfl, stops⟩
  | value lt le rest fits => exact .inr ⟨_, _, _, _, _, rfl, rfl, lt, le, rest, fits⟩

end Agreement

/-- At a depth, a part of the walking parser agrees with a parser, if the counter counts as far as the
tokens reach. -/
def Follows {α β : Type} (s : Walker) (depth : Nat) (Fits : Cursor → α → Cursor → β → Prop)
    (part : Run α) (parser : (ts : List Token) → Except Fault (Parsed β ts)) : Prop :=
  ∀ c ts, c.depth = depth → CountsTo s (s.reach c) → s.tokens.drop c.pos = ts →
    Agrees s c (s.reach c) (Fits c) (run part c) (parser ts)

/-- The values are the same, and the depth is again what it was. -/
def Same {α : Type} (c : Cursor) (a : α) (c' : Cursor) (b : α) : Prop :=
  a = b ∧ c'.depth = c.depth

/-- The items are the same, and two tokens were read for every item. -/
def Listed (c : Cursor) (es : List Expr) (c' : Cursor) (es' : List Expr) : Prop :=
  es = es' ∧ c'.depth = c.depth ∧ c.pos + 2 * es.length ≤ c'.pos

/-- The members of a chain make up an expression, and all but the first one have raised the depth. -/
def Opened (k : Connective) (c : Cursor) (members : Expr × List Expr) (c' : Cursor) (e : Expr) :
    Prop :=
  groupRight k.join members.1 members.2 = e ∧ c'.depth = c.depth + members.2.length ∧
    c.pos + 2 * members.2.length < c'.pos

/-- Members behind keywords make up an expression, and all of them have raised the depth. -/
def Continued (k : Connective) (c : Cursor) (members : List Expr) (c' : Cursor) (e : Expr) : Prop :=
  ∃ next later, members = next :: later ∧ groupRight k.join next later = e ∧
    c'.depth = c.depth + members.length ∧ c.pos + 2 * members.length ≤ c'.pos

/-- The members of a chain, where the depth has not been lowered yet. -/
def opened (s : Walker) (k : Connective) : Run (Expr × List Expr) := do
  let first ← member s k
  let later ← others s k
  return (first, later)

/-- The rule that reads the chains of a connective. -/
def Connective.rule : Connective → Rule
  | .or => .disjunction
  | .and => .conjunction

/-- At a depth, the walking parser agrees with the parser of one level. -/
structure FollowsAt (s : Walker) (depth : Nat) (parser : Rule → Parser Expr) : Prop where
  chain (k : Connective) : Follows s depth (Opened k) (opened s k) (parser k.rule)
  negation : Follows s depth Same (negation s) (parser .negation)

/-- One level below a depth, the walking parser agrees with the parser one level deeper, or neither has
such a level. -/
inductive FollowsBelow (s : Walker) (depth : Nat) : Deeper → Prop
  | none (h : depth = s.limit) : FollowsBelow s depth (.error (.tooDeep s.limit))
  | some {parser : Rule → Parser Expr} (h : depth < s.limit)
      (follows : FollowsAt s (depth + 1) parser) : FollowsBelow s depth (.ok parser)

/-! ## The parser by levels -/

section Levels

variable {deeper : Deeper} {rule : Rule} {w : String} {ts us rest : List Token} {e : Expr}

theorem arguments_of_ne {parser : Rule → Parser Expr} {name : String}
    (h : ts.head? ≠ some .closing) :
    Filter.arguments (.ok parser) name ts =
      members (parser .disjunction) (.strayInCall name) (.openCall name) ts := by
  cases ts with
  | nil => rfl
  | cons t us =>
    cases t with
    | closing => exact absurd rfl h
    | _ => rfl

theorem operand_keyword (h : isKeyword w = true) (us : List Token) :
    Filter.operand deeper (.word w :: us) = .error (.keywordOperand w) := if_pos h

theorem operand_leaf (hkeyword : isKeyword w = false)
    (hcall : ¬ (us.head? = some .opening ∧ isFunctionName w = true)) :
    Filter.operand deeper (.word w :: us) = .ok ⟨leaf w, us, Nat.lt_succ_self _⟩ := by
  refine (if_neg (by simp [hkeyword])).trans ?_
  split
  · next hname =>
    cases us with
    | nil => rfl
    | cons t vs =>
      cases t with
      | opening => exact absurd ⟨rfl, hname⟩ hcall
      | _ => rfl
  · rfl

theorem negation_of_ne (h : ts.head? ≠ some (.word "not")) :
    Filter.negation deeper ts = Filter.comparison deeper ts := by
  rw [Filter.negation]
  rintro us rfl
  exact h rfl

/-- A rule read one level deeper, if there is a deeper level. -/
def again (deeper : Deeper) (rule : Rule) : Parser Expr := fun ts =>
  match deeper with
  | .error fault => .error fault
  | .ok parser => parser rule ts

variable {first : Parser Expr} {keyword : String} {join : Expr → Expr → Expr}

/-- Behind the first member of a chain, the keyword asks for the rest of the chain. -/
theorem chain_of_eq {hlt : (Token.word keyword :: us).length < ts.length}
    (h : first ts = .ok ⟨e, .word keyword :: us, hlt⟩) :
    Filter.chain deeper first keyword join rule ts =
      match again deeper rule us with
      | .error fault => .error fault
      | .ok ⟨r, rest, h⟩ => .ok ⟨join e r, rest, Nat.lt_trans h (Nat.lt_of_succ_lt hlt)⟩ := by
  rw [Filter.chain, h]
  simp only [if_true, again]
  cases deeper with
  | error fault => rfl
  | ok parser => rfl

theorem chain_of_ne {hlt : rest.length < ts.length} (h : first ts = .ok ⟨e, rest, hlt⟩)
    (hne : rest.head? ≠ some (.word keyword)) :
    Filter.chain deeper first keyword join rule ts = .ok ⟨e, rest, hlt⟩ := by
  rw [Filter.chain, h]
  cases rest with
  | nil => rfl
  | cons t us =>
    cases t with
    | word w =>
      have hw : w ≠ keyword := fun heq => hne (congrArg (fun w => some (Token.word w)) heq)
      exact if_neg hw
    | _ => rfl

end Levels

/-! ## Chains and listings -/

section Parts

variable {s : Walker} {depth : Nat}

/-- Where the members of a chain agree, the chain does: what they have raised is lowered. -/
theorem chain_follows {k : Connective} {parser : Parser Expr}
    (h : Follows s depth (Opened k) (opened s k) parser) :
    Follows s depth Same (chain s k) parser := by
  intro c ts hc hcounts hts
  have hchain : chain s k = (opened s k >>= fun members => do
      leave s members.2.length
      return groupRight k.join members.1 members.2) := by
    rw [chain, opened]
    simp only [bind_assoc, pure_bind]
  rw [hchain]
  rcases (h c ts hc hcounts hts).inv with ⟨stop, fault, hrun, hparser, hstop⟩ |
    ⟨⟨first, later⟩, c', e, rest, hlt, hrun, hparser, hpos, hle, hrest, he, hdepth, -⟩
  · rw [run_bind_error hrun, hparser]
    exact .stop hstop
  · rw [run_bind_ok hrun, run_bind_ok (run_leave hdepth), run_pure, hparser]
    exact .value hpos hle hrest ⟨he, rfl⟩

/-- The loop over items reads one item after the other.  The induction is on the tokens that are left. -/
theorem items_follow {k : Listing} {parser : Parser Expr}
    (h : Follows s depth Same (item s k) parser) :
    Follows s depth Listed (items s k) (members parser k.stray k.unclosed) := by
  intro c ts hc hcounts hts
  induction hleft : ts.length using Nat.strongRecOn generalizing c ts with
  | _ left ih =>
    rw [items, members]
    rcases (h c ts hc hcounts hts).inv with ⟨stop, fault, hrun, hparser, hstop⟩ |
      ⟨e, c', _, rest, hlt, hrun, hparser, hpos, hle, hrest, rfl, hdepth⟩
    · rw [run_bind_error hrun, hparser]
      exact .stop hstop
    · rw [run_bind_ok hrun, hparser]
      cases rest with
      | nil =>
        rw [run_bind_ok (run_advance_nil hrest)]
        exact .fault _
      | cons t us =>
        rw [run_bind_ok (run_advance_cons hrest)]
        cases t with
        | closing =>
          have hread : c.pos + 2 * 1 ≤ c'.pos + 1 := by omega
          exact .value (Nat.lt_succ_of_lt hpos) (pos_lt hrest) (drop_succ hrest)
            ⟨rfl, hdepth, hread⟩
        | comma =>
          have hless : us.length < left := hleft ▸ Nat.lt_of_succ_lt hlt
          have hreach : s.reach ⟨c'.pos + 1, c'.depth⟩ < s.reach c :=
            reach_lt hdepth (Nat.lt_succ_of_lt hpos) (Nat.lt_of_lt_of_le hpos hle)
          rcases (ih us.length hless ⟨c'.pos + 1, c'.depth⟩ us (hdepth.trans hc)
            (hcounts.mono (Nat.le_of_lt hreach)) (drop_succ hrest) rfl).inv with
            ⟨stop, fault, hrun', hparser', hstop⟩ |
            ⟨es, c'', _, rest, hlt', hrun', hparser', hpos', hle', hrest', rfl, hdepth', hread⟩
          · simp only [hparser']
            rw [run_bind_error hrun']
            exact .stop (hstop.mono (Nat.le_of_lt hreach))
          · simp only [hparser']
            rw [run_bind_ok hrun']
            have hread' : c.pos + 2 * (e :: es).length ≤ c''.pos := by
              simp only [List.length_cons] at hread ⊢
              omega
            exact .value (Nat.lt_trans hpos (Nat.lt_of_succ_lt hpos')) hle' hrest'
              ⟨rfl, hdepth'.trans hdepth, hread'⟩
        | opening => exact .fault _
        | quoted content => exact .fault _
        | word w => exact .fault _

theorem arguments_follow {parser : Rule → Parser Expr} (h : FollowsAt s depth parser)
    (name : String) : Follows s depth Same (arguments s name) (Filter.arguments (.ok parser) name) := by
  intro c ts hc hcounts hts
  rw [arguments, run_bind_ok (run_peek s c), hts]
  by_cases hclosing : ts.head? = some .closing
  · obtain ⟨us, rfl⟩ := List.head?_eq_some_iff.1 hclosing
    rw [if_pos hclosing, run_bind_ok (run_advance_cons hts)]
    exact .value (Nat.lt_succ_self _) (pos_lt hts) (drop_succ hts) ⟨rfl, rfl⟩
  · have hitem : Follows s depth Same (item s (.call name)) (parser .disjunction) := by
      rw [item]
      exact chain_follows (h.chain .or)
    have hitems : Follows s depth Listed (items s (.call name))
        (members (parser .disjunction) (.strayInCall name) (.openCall name)) := items_follow hitem
    rw [if_neg hclosing, arguments_of_ne hclosing]
    rcases (hitems c ts hc hcounts hts).inv with ⟨stop, fault, hrun, hparser, hstop⟩ |
      ⟨es, c', _, rest, hlt, hrun, hparser, hpos, hle, hrest, rfl, hdepth, -⟩
    · rw [hrun, hparser]
      exact .stop hstop
    · rw [hrun, hparser]
      exact .value hpos hle hrest ⟨rfl, hdepth⟩

/-! ## One level -/

theorem others_of_ne {k : Connective} {c : Cursor}
    (h : (s.tokens.drop c.pos).head? ≠ some (.word k.keyword)) :
    run (others s k) c = some (.ok ([], c)) := by
  rw [others, run_bind_ok (run_eatWord_of_ne h)]
  rfl

variable {deeper : Deeper} (hbelow : FollowsBelow s depth deeper)
include hbelow

/-- The arguments of a call are read one level deeper.  No token is read before this level is entered, so
the depth may come beyond the reach by one. -/
theorem call_agrees (name : String) {c : Cursor} {ts : List Token} (hc : c.depth = depth)
    (hcounts : CountsTo s (s.reach c + 1)) (hts : s.tokens.drop c.pos = ts) :
    Agrees s c (s.reach c + 1) (fun e c' args => e = .call name args ∧ c'.depth = c.depth)
      (run (call s name) c) (Filter.arguments deeper name ts) := by
  rw [call]
  cases hbelow with
  | none hlimit =>
    obtain ⟨stop, hrun, hstop⟩ := enter_stops (hc.trans hlimit) hcounts
    rw [run_bind_error hrun]
    exact .stop hstop
  | some hlimit h =>
    have hreach : s.reach ⟨c.pos, c.depth + 1⟩ = s.reach c + 1 := Nat.add_right_comm _ _ _
    rw [run_bind_ok (run_enter_of_lt (hc ▸ hlimit))]
    rcases (arguments_follow h name ⟨c.pos, c.depth + 1⟩ ts (congrArg (· + 1) hc)
      (hcounts.mono (Nat.le_of_eq hreach)) hts).inv with ⟨stop, fault, hrun, hparser, hstop⟩ |
      ⟨es, c', _, rest, hlt, hrun, hparser, hpos, hle, hrest, rfl, hdepth⟩
    · rw [run_bind_error hrun, hparser]
      exact .stop (hstop.mono (Nat.le_of_eq hreach))
    · rw [run_bind_ok hrun, run_bind_ok (run_leave hdepth), run_pure, hparser]
      exact .value hpos hle hrest ⟨rfl, rfl⟩

/-- A group is read one level deeper, up to its closing parenthesis. -/
theorem group_agrees {c : Cursor} {us : List Token} (hc : c.depth = depth)
    (hcounts : CountsTo s (s.reach c)) (hts : s.tokens.drop c.pos = .opening :: us) :
    Agrees s c (s.reach c) (Same c) (run (group s) ⟨c.pos + 1, c.depth⟩)
      (Filter.operand deeper (.opening :: us)) := by
  have hread : s.reach ⟨c.pos + 1, c.depth⟩ < s.reach c :=
    reach_lt rfl (Nat.lt_succ_self _) (pos_lt hts)
  rw [group]
  cases hbelow with
  | none hlimit =>
    obtain ⟨stop, hrun, hstop⟩ := enter_stops (c := ⟨c.pos + 1, c.depth⟩) (hc.trans hlimit)
      (hcounts.mono hread)
    rw [run_bind_error hrun]
    exact .stop (hstop.mono hread)
  | @some parser hlimit h =>
    have hchain : Follows s (depth + 1) Same (chain s .or) (parser .disjunction) :=
      chain_follows (h.chain .or)
    have hreach := Nat.le_of_eq (reach_enter (pos_lt hts))
    rw [run_bind_ok (run_enter_of_lt (c := ⟨c.pos + 1, c.depth⟩) (hc ▸ hlimit)), Filter.operand]
    rcases (hchain ⟨c.pos + 1, c.depth + 1⟩ us (congrArg (· + 1) hc) (hcounts.mono hreach)
      (drop_succ hts)).inv with ⟨stop, fault, hrun, hparser, hstop⟩ |
      ⟨e, c', _, rest, hlt, hrun, hparser, hpos, hle, hrest, rfl, hdepth⟩
    · rw [hparser, run_bind_error hrun]
      exact .stop (hstop.mono hreach)
    · rw [hparser, run_bind_ok hrun, expect, bind_assoc]
      cases rest with
      | nil =>
        rw [run_bind_ok (run_advance_nil hrest)]
        exact .fault _
      | cons t vs =>
        rw [run_bind_ok (run_advance_cons hrest)]
        cases t with
        | closing =>
          have hleave : run (leave s 1) ⟨c'.pos + 1, c'.depth⟩ =
            some (.ok ((), ⟨c'.pos + 1, c.depth⟩)) := run_leave hdepth
          rw [if_pos rfl, pure_bind, run_bind_ok hleave, run_pure]
          exact .value (Nat.lt_succ_of_lt (Nat.lt_of_succ_lt hpos)) (pos_lt hrest)
            (drop_succ hrest) ⟨rfl, rfl⟩
        | opening => exact .fault _
        | comma => exact .fault _
        | quoted content => exact .fault _
        | word w => exact .fault _

/-- A word is a call if it may name a function and a parenthesis follows, and else a leaf. -/
theorem word_agrees {c : Cursor} {w : String} {us : List Token} (hc : c.depth = depth)
    (hcounts : CountsTo s (s.reach c)) (hts : s.tokens.drop c.pos = .word w :: us) :
    Agrees s c (s.reach c) (Same c) (run (word s w) ⟨c.pos + 1, c.depth⟩)
      (Filter.operand deeper (.word w :: us)) := by
  have hus : s.tokens.drop (Cursor.mk (c.pos + 1) c.depth).pos = us := drop_succ hts
  rw [word]
  cases hkeyword : isKeyword w with
  | true =>
    rw [operand_keyword hkeyword]
    exact .fault _
  | false =>
    rw [if_neg Bool.false_ne_true, run_bind_ok (run_peek s _), hus]
    by_cases hcall : us.head? = some .opening ∧ isFunctionName w = true
    · obtain ⟨hopening, hname⟩ := hcall
      obtain ⟨vs, rfl⟩ := List.head?_eq_some_iff.1 hopening
      rw [if_pos (by simp [hname]), run_bind_ok (run_advance_cons hus), Filter.operand,
        if_neg (by simp [hkeyword]), if_pos hname]
      have hreach : s.reach ⟨c.pos + 1 + 1, c.depth⟩ < s.reach c :=
        reach_lt rfl (Nat.lt_succ_of_lt (Nat.lt_succ_self _)) (pos_lt hts)
      rcases (call_agrees hbelow w (c := ⟨c.pos + 1 + 1, c.depth⟩) hc (hcounts.mono hreach)
        (drop_succ hus)).inv with ⟨stop, fault, hrun, hparser, hstop⟩ |
        ⟨_, c', args, rest, hlt, hrun, hparser, hpos, hle, hrest, rfl, hdepth⟩
      · rw [hparser, hrun]
        exact .stop (hstop.mono hreach)
      · rw [hparser, hrun]
        exact .value (Nat.lt_of_succ_lt (Nat.lt_of_succ_lt hpos)) hle hrest ⟨rfl, hdepth⟩
    · rw [if_neg (by simpa using hcall), operand_leaf hkeyword hcall]
      exact .value (Nat.lt_succ_self _) (pos_lt hts) hus ⟨rfl, rfl⟩

theorem operand_follows : Follows s depth Same (operand s) (Filter.operand deeper) := by
  intro c ts hc hcounts hts
  rw [operand]
  cases ts with
  | nil =>
    rw [run_bind_ok (run_advance_nil hts)]
    exact .fault _
  | cons t us =>
    rw [run_bind_ok (run_advance_cons hts)]
    cases t with
    | opening => exact group_agrees hbelow hc hcounts hts
    | closing => exact .fault _
    | comma => exact .fault _
    | quoted content =>
      exact .value (Nat.lt_succ_self _) (pos_lt hts) (drop_succ hts) ⟨rfl, rfl⟩
    | word w => exact word_agrees hbelow hc hcounts hts

theorem inList_follows : Follows s depth Listed (inList s) (listItems deeper) := by
  intro c ts hc hcounts hts
  rw [inList, expect, bind_assoc]
  cases ts with
  | nil =>
    rw [run_bind_ok (run_advance_nil hts)]
    exact .fault _
  | cons t us =>
    rw [run_bind_ok (run_advance_cons hts)]
    cases t with
    | opening =>
      have hitem : Follows s depth Same (item s .list) (Filter.operand deeper) := by
        rw [item]
        exact operand_follows hbelow
      have hitems : Follows s depth Listed (items s .list)
          (members (Filter.operand deeper) .strayInList .openList) := items_follow hitem
      rw [if_pos rfl, pure_bind, listItems]
      have hreach : s.reach ⟨c.pos + 1, c.depth⟩ < s.reach c :=
        reach_lt rfl (Nat.lt_succ_self _) (pos_lt hts)
      rcases (hitems ⟨c.pos + 1, c.depth⟩ us hc (hcounts.mono (Nat.le_of_lt hreach))
        (drop_succ hts)).inv with ⟨stop, fault, hrun, hparser, hstop⟩ |
        ⟨es, c', _, rest, hlt, hrun, hparser, hpos, hle, hrest, rfl, hdepth, hread⟩
      · rw [hparser, hrun]
        exact .stop (hstop.mono (Nat.le_of_lt hreach))
      · have hread' : c.pos + 2 * es.length ≤ c'.pos := by
          simp only at hread
          omega
        rw [hparser, hrun]
        exact .value (Nat.lt_of_succ_lt hpos) hle hrest ⟨rfl, hdepth, hread'⟩
    | closing => exact .fault _
    | comma => exact .fault _
    | quoted content => exact .fault _
    | word w => exact .fault _

theorem rightSide_follows (op : Comparison) :
    Follows s depth Same (rightSide s op) (Filter.rightSide deeper op) := by
  intro c ts hc hcounts hts
  rw [rightSide, Filter.rightSide]
  rcases (operand_follows hbelow c ts hc hcounts hts).inv with ⟨stop, fault, hrun, hparser, hstop⟩ |
    ⟨e, c', _, rest, hlt, hrun, hparser, hpos, hle, hrest, rfl, hdepth⟩
  · rw [run_bind_error hrun, hparser]
    exact .stop hstop
  · rw [run_bind_ok hrun, hparser, run_bind_ok (run_peek s _), hrest]
    cases rest with
    | nil => exact .value hpos hle hrest ⟨rfl, hdepth⟩
    | cons t us =>
      cases t with
      | word w =>
        cases hw : continuesComparison w with
        | true =>
          simp only [List.head?_cons, hw, if_true]
          exact .fault _
        | false =>
          simp only [List.head?_cons, hw]
          exact .value hpos hle hrest ⟨rfl, hdepth⟩
      | _ => exact .value hpos hle hrest ⟨rfl, hdepth⟩

theorem comparison_follows : Follows s depth Same (comparison s) (Filter.comparison deeper) := by
  intro c ts hc hcounts hts
  rw [comparison, Filter.comparison]
  rcases (operand_follows hbelow c ts hc hcounts hts).inv with ⟨stop, fault, hrun, hparser, hstop⟩ |
    ⟨l, c', _, rest, hlt, hrun, hparser, hpos, hle, hrest, rfl, hdepth⟩
  · rw [run_bind_error hrun, hparser]
    exact .stop hstop
  · rw [run_bind_ok hrun, hparser, run_bind_ok (run_peek s _), hrest]
    cases rest with
    | nil => exact .value hpos hle hrest ⟨rfl, hdepth⟩
    | cons t us =>
      cases t with
      | word w =>
        have hus := drop_succ hrest
        have hreach : s.reach ⟨c'.pos + 1, c'.depth⟩ ≤ s.reach c :=
          Nat.le_of_lt (reach_lt hdepth (Nat.lt_succ_of_lt hpos) (Nat.lt_of_lt_of_le hpos hle))
        simp only [List.head?_cons]
        cases hop : Comparison.ofKeyword? w with
        | some op =>
          simp only
          rw [run_bind_ok (run_advance_cons hrest)]
          rcases (rightSide_follows hbelow op ⟨c'.pos + 1, c'.depth⟩ us (hdepth.trans hc)
            (hcounts.mono hreach) hus).inv with ⟨stop, fault, hrun', hparser', hstop⟩ |
            ⟨r, c'', _, rest', hlt', hrun', hparser', hpos', hle', hrest', rfl, hdepth'⟩
          · rw [run_bind_error hrun', hparser']
            exact .stop (hstop.mono hreach)
          · rw [run_bind_ok hrun', hparser']
            exact .value (Nat.lt_trans hpos (Nat.lt_of_succ_lt hpos')) hle' hrest'
              ⟨rfl, hdepth'.trans hdepth⟩
        | none =>
          simp only
          by_cases hin : w = "in"
          · rw [if_pos hin, if_pos hin, run_bind_ok (run_advance_cons hrest)]
            rcases (inList_follows hbelow ⟨c'.pos + 1, c'.depth⟩ us (hdepth.trans hc)
              (hcounts.mono hreach) hus).inv with ⟨stop, fault, hrun', hparser', hstop⟩ |
              ⟨es, c'', _, rest', hlt', hrun', hparser', hpos', hle', hrest', rfl, hdepth', -⟩
            · rw [run_bind_error hrun', hparser']
              exact .stop (hstop.mono hreach)
            · rw [run_bind_ok hrun', hparser']
              exact .value (Nat.lt_trans hpos (Nat.lt_of_succ_lt hpos')) hle' hrest'
                ⟨rfl, hdepth'.trans hdepth⟩
          · rw [if_neg hin, if_neg hin]
            exact .value hpos hle hrest ⟨rfl, hdepth⟩
      | _ => exact .value hpos hle hrest ⟨rfl, hdepth⟩

theorem negation_follows : Follows s depth Same (negation s) (Filter.negation deeper) := by
  intro c ts hc hcounts hts
  rw [negation]
  by_cases hnot : ts.head? = some (.word "not")
  · obtain ⟨us, rfl⟩ := List.head?_eq_some_iff.1 hnot
    rw [run_bind_ok (run_eatWord_of_eq hts), if_pos rfl]
    have hread : s.reach ⟨c.pos + 1, c.depth⟩ < s.reach c :=
      reach_lt rfl (Nat.lt_succ_self _) (pos_lt hts)
    cases hbelow with
    | none hlimit =>
      obtain ⟨stop, hrun, hstop⟩ := enter_stops (c := ⟨c.pos + 1, c.depth⟩) (hc.trans hlimit)
        (hcounts.mono hread)
      rw [run_bind_error hrun]
      exact .stop (hstop.mono hread)
    | some hlimit h =>
      have hreach := Nat.le_of_eq (reach_enter (pos_lt hts))
      rw [run_bind_ok (run_enter_of_lt (c := ⟨c.pos + 1, c.depth⟩) (hc ▸ hlimit)), Filter.negation]
      rcases (h.negation ⟨c.pos + 1, c.depth + 1⟩ us (congrArg (· + 1) hc) (hcounts.mono hreach)
        (drop_succ hts)).inv with ⟨stop, fault, hrun, hparser, hstop⟩ |
        ⟨e, c', _, rest, hlt, hrun, hparser, hpos, hle, hrest, rfl, hdepth⟩
      · rw [hparser, run_bind_error hrun]
        exact .stop (hstop.mono hreach)
      · rw [hparser, run_bind_ok hrun, run_bind_ok (run_leave hdepth), run_pure]
        exact .value (Nat.lt_of_succ_lt hpos) hle hrest ⟨rfl, rfl⟩
  · rw [run_bind_ok (run_eatWord_of_ne (hts ▸ hnot)), if_neg Bool.false_ne_true,
      negation_of_ne hnot]
    exact comparison_follows hbelow c ts hc hcounts hts

/-- The members behind a keyword are a chain one level deeper. -/
theorem others_agree {k : Connective} {c : Cursor} {us : List Token} (hc : c.depth = depth)
    (hcounts : CountsTo s (s.reach c)) (hts : s.tokens.drop c.pos = .word k.keyword :: us) :
    Agrees s c (s.reach c) (Continued k c) (run (others s k) c) (again deeper k.rule us) := by
  have hothers : run (others s k) c =
      run (enter s >>= fun _ => opened s k >>= fun members => pure (members.1 :: members.2))
        ⟨c.pos + 1, c.depth⟩ := by
    rw [others, run_bind_ok (run_eatWord_of_eq hts), if_pos rfl, opened]
    simp only [bind_assoc, pure_bind]
  have hread : s.reach ⟨c.pos + 1, c.depth⟩ < s.reach c :=
    reach_lt rfl (Nat.lt_succ_self _) (pos_lt hts)
  rw [hothers]
  cases hbelow with
  | none hlimit =>
    obtain ⟨stop, hrun, hstop⟩ := enter_stops (c := ⟨c.pos + 1, c.depth⟩) (hc.trans hlimit)
      (hcounts.mono hread)
    rw [run_bind_error hrun]
    exact .stop (hstop.mono hread)
  | some hlimit h =>
    have hreach := Nat.le_of_eq (reach_enter (pos_lt hts))
    rw [run_bind_ok (run_enter_of_lt (c := ⟨c.pos + 1, c.depth⟩) (hc ▸ hlimit)), again]
    rcases (h.chain k ⟨c.pos + 1, c.depth + 1⟩ us (congrArg (· + 1) hc) (hcounts.mono hreach)
      (drop_succ hts)).inv with ⟨stop, fault, hrun, hparser, hstop⟩ |
      ⟨⟨next, later⟩, c', e, rest, hlt, hrun, hparser, hpos, hle, hrest, hgroup, hdepth, hread⟩
    · rw [run_bind_error hrun, hparser]
      exact .stop (hstop.mono hreach)
    · rw [run_bind_ok hrun, hparser]
      refine .value (Nat.lt_of_succ_lt hpos) hle hrest ⟨next, later, rfl, hgroup, ?_, ?_⟩
      · simp only [List.length_cons] at hdepth ⊢
        omega
      · simp only [List.length_cons] at hread ⊢
        omega

/-- The members of a chain agree with the chain that is grouped level by level. -/
theorem opened_follow {k : Connective} {first : Parser Expr}
    (hfirst : Follows s depth Same (member s k) first) :
    Follows s depth (Opened k) (opened s k)
      (Filter.chain deeper first k.keyword k.join k.rule) := by
  intro c ts hc hcounts hts
  rw [opened]
  rcases (hfirst c ts hc hcounts hts).inv with ⟨stop, fault, hrun, hparser, hstop⟩ |
    ⟨e, c', _, rest, hlt, hrun, hparser, hpos, hle, hrest, rfl, hdepth⟩
  · rw [run_bind_error hrun, Filter.chain, hparser]
    exact .stop hstop
  · rw [run_bind_ok hrun]
    by_cases hkeyword : rest.head? = some (.word k.keyword)
    · obtain ⟨us, rfl⟩ := List.head?_eq_some_iff.1 hkeyword
      rw [chain_of_eq hparser]
      have hreach : s.reach c' ≤ s.reach c :=
        Nat.le_of_lt (reach_lt hdepth hpos (Nat.lt_of_lt_of_le hpos hle))
      rcases (others_agree hbelow (hdepth.trans hc) (hcounts.mono hreach) hrest).inv with
        ⟨stop, fault, hrun', hparser', hstop⟩ |
        ⟨_, c'', r, rest', hlt', hrun', hparser', hpos', hle', hrest', next, later, rfl, rfl,
          hdepth', hread⟩
      · rw [run_bind_error hrun', hparser']
        exact .stop (hstop.mono hreach)
      · have hraised : c''.depth = c.depth + (next :: later).length := by rw [hdepth', hdepth]
        have hread' : c.pos + 2 * (next :: later).length < c''.pos := by omega
        rw [run_bind_ok hrun', hparser']
        exact .value (Nat.lt_trans hpos hpos') hle' hrest' ⟨rfl, hraised, hread'⟩
    · rw [run_bind_ok (others_of_ne (hrest ▸ hkeyword)), chain_of_ne hparser hkeyword]
      exact .value hpos hle hrest ⟨rfl, hdepth, hpos⟩

theorem atLevel_follows : FollowsAt s depth (atLevel deeper) := by
  have hnegation : Follows s depth Same (member s .and) (Filter.negation deeper) := by
    rw [member]
    exact negation_follows hbelow
  have hand : Follows s depth (Opened .and) (opened s .and) (conjunction deeper) :=
    opened_follow hbelow hnegation
  have hconjunction : Follows s depth Same (member s .or) (conjunction deeper) := by
    rw [member]
    exact chain_follows hand
  have hor : Follows s depth (Opened .or) (opened s .or) (disjunction deeper) :=
    opened_follow hbelow hconjunction
  refine ⟨fun k => ?_, negation_follows hbelow⟩
  cases k with
  | or => exact hor
  | and => exact hand

/-! ## All levels -/

omit hbelow

/-- At every depth, the walking parser agrees with the parser that has the levels that are left. -/
theorem parser_follows {levels : Nat} (h : depth + levels = s.limit) :
    FollowsAt s depth (parser s.limit levels) := by
  induction levels generalizing depth with
  | zero => exact atLevel_follows (.none (by omega))
  | succ levels ih => exact atLevel_follows (.some (by omega) (ih (by omega)))

theorem exists_below (h : depth ≤ s.limit) : ∃ deeper, FollowsBelow s depth deeper := by
  rcases Nat.eq_or_lt_of_le h with heq | hlt
  · exact ⟨_, .none heq⟩
  · exact ⟨_, .some hlt (parser_follows (Nat.add_sub_cancel' hlt))⟩

/-! ## Balance -/

/-- An outcome breaks off only where the depth may come beyond the greatest size. -/
def BreaksOffRightly {α : Type} (s : Walker) (c : Cursor) (outcome : Except Stop α) : Prop :=
  outcome = .error .overflow → s.overflow = .panics ∧ greatestSize ≤ s.reach c

/-- From a cursor, a part of the parser ends.  If it gives a value, the depth is what it was, and at least
one token was read and none beyond the last. -/
def BalancedAt {α : Type} (s : Walker) (c : Cursor) (part : Run α) : Prop :=
  ∃ outcome, run part c = some outcome ∧ BreaksOffRightly s c outcome ∧
    ∀ a c', outcome = .ok (a, c') → c'.depth = c.depth ∧ c.pos < c'.pos ∧ c'.pos ≤ s.tokens.length

end Parts

/-- A counter that wraps beyond the greatest size forgets the levels that were entered.  Behind a negation
that begins at this depth, the depth is zero. -/
theorem not_balancedAt_negation_wraps :
    let s : Walker :=
      { tokens := [.word "not", .word "a"], limit := greatestSize, overflow := .wraps }
    let c : Cursor := ⟨0, greatestSize⟩
    c.depth ≤ s.limit ∧ run (negation s) c = some (.ok (.not (leaf "a"), ⟨2, 0⟩)) ∧
      ¬ BalancedAt s c (negation s) := by
  intro s c
  have hinner : run (negation s) ⟨1, 0⟩ = some (.ok (leaf "a", ⟨2, 0⟩)) := by
    obtain ⟨deeper, hbelow⟩ := exists_below (Nat.zero_le s.limit)
    have hreach : s.reach ⟨1, 0⟩ ≤ greatestSize := by decide
    have hparser : Filter.negation deeper [.word "a"] = .ok ⟨leaf "a", [], by decide⟩ := by
      rw [negation_of_ne (by decide), Filter.comparison, operand_leaf (by decide) (by decide)]
    rcases (negation_follows hbelow ⟨1, 0⟩ [.word "a"] rfl (fun _ => .inr hreach) rfl).inv with
      ⟨stop, fault, -, hfault, -⟩ |
      ⟨e, ⟨pos, depth⟩, _, rest, hlt, hrun, hvalue, hpos, hle, -, rfl, hdepth⟩
    · rw [hparser] at hfault
      cases hfault
    · rw [hparser] at hvalue
      cases hvalue
      obtain rfl : depth = 0 := hdepth
      obtain rfl : pos = 2 := Nat.le_antisymm hle hpos
      exact hrun
  have hrun : run (negation s) c = some (.ok (.not (leaf "a"), ⟨2, 0⟩)) := by
    have henter : run (enter s) ⟨1, greatestSize⟩ = some (.ok ((), ⟨1, 0⟩)) := by
      rw [run_enter, if_neg (Nat.lt_irrefl _)]
    have hword : run (eatWord s "not") c = some (.ok (true, ⟨1, greatestSize⟩)) :=
      run_eatWord_of_eq rfl
    rw [negation, run_bind_ok hword, if_pos rfl, run_bind_ok henter, run_bind_ok hinner]
    rfl
  refine ⟨Nat.le_refl _, hrun, ?_⟩
  rintro ⟨outcome, houtcome, -, hbalanced⟩
  rw [hrun] at houtcome
  cases houtcome
  exact absurd (hbalanced _ _ rfl).1 (by decide)

end OData.Filter.Walker

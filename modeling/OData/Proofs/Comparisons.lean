import OData.Filter.Operand

/-!
# Comparisons of operands

The six comparisons are read off one order, which some pairs of operands do not
have.  The order turns around with its sides (`naturalOrder?_swap`), and two
operands have it just when they are of one kind, or an instant and a string that
writes one (`Comparable`).  So the comparisons are coherent on pairs with an
order.  On all other pairs only equality is left, and it holds of null and of
values that are the same at every depth (`equal_iff_of_not_comparable`).
-/

namespace OData

/-! ## Orders that turn around -/

/-- The order of values turns around with its sides. -/
theorem Binary64.compare?_swap (x y : Binary64) : x.compare? y = (y.compare? x).map Ordering.swap := by
  rw [compare?, compare?, Bool.or_comm]
  split
  · rfl
  · exact congrArg some Std.OrientedOrd.eq_swap

theorem Binary64.equal_comm (x y : Binary64) : x.equal y = y.equal x := by
  rw [equal, equal, compare?_swap]
  cases y.compare? x with
  | none => rfl
  | some o => cases o <;> rfl

theorem Date.compare_swap (a b : Date) : a.compare b = (b.compare a).swap := by
  simp only [Date.compare, Ordering.swap_then, ← Std.OrientedOrd.eq_swap]

theorem Instant.compare_swap (a b : Instant) : a.compare b = (b.compare a).swap := by
  simp only [Instant.compare, Ordering.swap_then, ← Std.OrientedOrd.eq_swap, ← Date.compare_swap]

/-! ## Values that are the same -/

namespace Json

theorem Number.equal_comm (m n : Number) : m.equal n = n.equal m := by
  cases m <;> cases n
  case integer.integer i j => simp only [Number.equal, eq_comm]
  case float.float x y => exact Binary64.equal_comm x y
  all_goals rfl

mutual
/-- Deep equality looks at both values alike. -/
theorem equal_comm : ∀ v w : Json, v.equal w = w.equal v
  | .null, w => by cases w <;> rfl
  | .bool a, w => by
    cases w with
    | bool b => simp only [equal, eq_comm]
    | _ => rfl
  | .number m, w => by
    cases w with
    | number n => exact Number.equal_comm m n
    | _ => rfl
  | .string s, w => by
    cases w with
    | string t => simp only [equal, eq_comm]
    | _ => rfl
  | .array xs, w => by
    cases w with
    | array ys => exact equalItems_comm xs ys
    | _ => rfl
  | .object ms, w => by
    cases w with
    | object ns => exact equalMembers_comm ms ns
    | _ => rfl

theorem equalItems_comm : ∀ xs ys : List Json, equalItems xs ys = equalItems ys xs
  | [], ys => by cases ys <;> rfl
  | x :: xs, ys => by
    cases ys with
    | nil => rfl
    | cons y ys => rw [equalItems, equalItems, equal_comm x y, equalItems_comm xs ys]

theorem equalMembers_comm : ∀ ms ns : List (String × Json),
    equalMembers ms ns = equalMembers ns ms
  | [], ns => by cases ns <;> rfl
  | (k, v) :: ms, ns => by
    cases ns with
    | nil => rfl
    | cons n ns =>
      simp only [equalMembers, equal_comm v n.2, equalMembers_comm ms ns, eq_comm]
end

end Json

namespace Filter

variable {a b : Operand}

/-! ## The order of operands -/

/-- The order of operands turns around with its sides. -/
theorem naturalOrder?_swap (a b : Operand) :
    naturalOrder? a b = (naturalOrder? b a).map Ordering.swap := by
  cases a <;> cases b
  case bool.bool => exact congrArg some Std.OrientedOrd.eq_swap
  case number.number x y => exact x.compare?_swap y
  case string.string => exact congrArg some Std.OrientedOrd.eq_swap
  case instant.instant t u => exact congrArg some (t.compare_swap u)
  case instant.string t s =>
    simp only [naturalOrder?, Option.map_map, Function.comp_def, ← Instant.compare_swap]
  case string.instant s t =>
    simp only [naturalOrder?, Option.map_map, Function.comp_def, ← Instant.compare_swap]
  all_goals rfl

theorem naturalOrder?_beq_swap (a b : Operand) (o : Ordering) :
    (naturalOrder? a b == some o) = (naturalOrder? b a == some o.swap) := by
  rw [naturalOrder?_swap a b]
  cases naturalOrder? b a with
  | none => rfl
  | some o' => cases o' <;> cases o <;> rfl

/-- Operands that have an order: two of one kind, or an instant and a string that writes one. -/
inductive Comparable : Operand → Operand → Prop
  /-- Two truth values. -/
  | bools (b c : Bool) : Comparable (.bool b) (.bool c)
  /-- Two numbers, neither of which is NaN. -/
  | numbers {x y : Binary64} : x.isNaN = false → y.isNaN = false →
      Comparable (.number x) (.number y)
  /-- Two strings. -/
  | strings (s t : String) : Comparable (.string s) (.string t)
  /-- Two instants. -/
  | instants (t u : Instant) : Comparable (.instant t) (.instant u)
  /-- An instant and a string that writes one. -/
  | instant_string (t : Instant) {s : String} {u : Instant} : Timestamp.read? s.toList = some u →
      Comparable (.instant t) (.string s)
  /-- A string that writes an instant, and an instant. -/
  | string_instant {s : String} {t : Instant} (u : Instant) : Timestamp.read? s.toList = some t →
      Comparable (.string s) (.instant u)

theorem Comparable.symm (h : Comparable a b) : Comparable b a := by
  cases h with
  | bools b c => exact .bools c b
  | numbers hx hy => exact .numbers hy hx
  | strings s t => exact .strings t s
  | instants t u => exact .instants u t
  | instant_string t hs => exact .string_instant t hs
  | string_instant u hs => exact .instant_string u hs

/-- Just these operands have an order. -/
theorem comparable_iff : Comparable a b ↔ ∃ o, naturalOrder? a b = some o := by
  constructor
  · intro h
    cases h with
    | bools | strings | instants => exact ⟨_, rfl⟩
    | numbers hx hy => exact ⟨_, by rw [naturalOrder?, Binary64.compare?, hx, hy]; rfl⟩
    | instant_string t hs => exact ⟨_, by rw [naturalOrder?, hs]; rfl⟩
    | string_instant u hs => exact ⟨_, by rw [naturalOrder?, hs]; rfl⟩
  · rintro ⟨o, h⟩
    cases a <;> cases b
    case bool.bool b c => exact .bools b c
    case number.number x y =>
      rw [naturalOrder?, Binary64.compare?] at h
      split at h
      · cases h
      · next hnan =>
        rw [Bool.or_eq_true, not_or, Bool.not_eq_true, Bool.not_eq_true] at hnan
        exact .numbers hnan.1 hnan.2
    case string.string s t => exact .strings s t
    case instant.instant t u => exact .instants t u
    case instant.string t s =>
      obtain ⟨u, hs, -⟩ := Option.map_eq_some_iff.1 h
      exact .instant_string t hs
    case string.instant s u =>
      obtain ⟨t, hs, -⟩ := Option.map_eq_some_iff.1 h
      exact .string_instant u hs
    all_goals cases h

theorem naturalOrder?_of_not_comparable (h : ¬ Comparable a b) : naturalOrder? a b = none := by
  rw [comparable_iff, not_exists] at h
  exact Option.eq_none_iff_forall_ne_some.2 h

/-! ## Equality -/

/-- Operands with an order are equal if the order says so. -/
theorem equal_of_comparable (h : Comparable a b) :
    equal a b = (naturalOrder? a b == some .eq) := by
  cases h <;> rfl

/-- Without an order, null equals null and values equal what is the same at every depth. -/
theorem equal_iff_of_not_comparable (h : ¬ Comparable a b) :
    equal a b = true ↔ (a.isNullish = true ∧ b.isNullish = true) ∨
      ∃ v w, a = .structured v ∧ b = .structured w ∧ v.equal w = true := by
  rw [equal.eq_def]
  split
  case isTrue hnull =>
    rw [Bool.and_eq_true]
    refine ⟨.inl, ?_⟩
    rintro (hboth | ⟨v, w, rfl, rfl, -⟩)
    · exact hboth
    · cases hnull
  case isFalse hnull =>
    rw [Bool.or_eq_true, not_or] at hnull
    split
    · simp [Operand.isNullish]
    · next hstructured =>
      rw [naturalOrder?_of_not_comparable h]
      refine ⟨nofun, ?_⟩
      rintro (⟨ha, -⟩ | ⟨v, w, rfl, rfl, -⟩)
      · exact absurd ha hnull.1
      · exact absurd rfl (hstructured v w rfl)

theorem equal_comm (a b : Operand) : equal a b = equal b a := by
  by_cases h : Comparable a b
  · rw [equal_of_comparable h, equal_of_comparable h.symm, naturalOrder?_beq_swap]
    rfl
  · rw [Bool.eq_iff_iff, equal_iff_of_not_comparable h,
      equal_iff_of_not_comparable (mt Comparable.symm h)]
    have hdeep (v w : Json) : v.equal w = true ↔ w.equal v = true := by rw [Json.equal_comm]
    constructor
    · rintro (⟨ha, hb⟩ | ⟨v, w, ha, hb, hvw⟩)
      · exact .inl ⟨hb, ha⟩
      · exact .inr ⟨w, v, hb, ha, (hdeep v w).1 hvw⟩
    · rintro (⟨hb, ha⟩ | ⟨w, v, hb, ha, hwv⟩)
      · exact .inl ⟨ha, hb⟩
      · exact .inr ⟨v, w, ha, hb, (hdeep w v).1 hwv⟩

/-! ## All comparisons -/

namespace Comparison

/-- The comparison of the sides changed over. -/
def turned : Comparison → Comparison
  | .eq => .eq
  | .ne => .ne
  | .gt => .lt
  | .ge => .le
  | .lt => .gt
  | .le => .ge

/-- A comparison holds of two operands as the turned one does of them changed over. -/
theorem holds_turned (op : Comparison) (a b : Operand) : op.turned.holds b a = op.holds a b := by
  have hswap := naturalOrder?_beq_swap a b
  cases op with
  | eq => exact equal_comm b a
  | ne => exact congrArg (!·) (equal_comm b a)
  | gt => exact (hswap .gt).symm
  | lt => exact (hswap .lt).symm
  | ge =>
    rw [holds, hswap .gt, hswap .eq]
    rfl
  | le =>
    rw [holds, hswap .lt, hswap .eq]
    rfl

/-- The comparison that holds in an order. -/
def ofOrdering : Ordering → Comparison
  | .lt => .lt
  | .eq => .eq
  | .gt => .gt

/-- Of the strict comparisons and equality just the one that the order says holds. -/
theorem holds_iff_ofOrdering {o : Ordering} (h : naturalOrder? a b = some o) {op : Comparison}
    (hop : op ∈ [.lt, .eq, .gt]) : op.holds a b = true ↔ op = ofOrdering o := by
  have hequal : equal a b = (some o == some .eq) := by
    rw [equal_of_comparable (comparable_iff.2 ⟨o, h⟩), h]
  simp only [List.mem_cons, List.not_mem_nil, or_false] at hop
  rcases hop with rfl | rfl | rfl
  · rw [holds, h]
    cases o <;> decide
  · rw [holds, hequal]
    cases o <;> decide
  · rw [holds, h]
    cases o <;> decide

/-- The comparisons are coherent.  Equality looks at both sides alike, and the four orders turn around
with the sides.  If the operands have an order, they are either less or equal or greater, and the weak
orders are the strict ones or equality.  If not, no order holds of them, and only null equals null and
values that are the same at every depth are equal. -/
theorem holds_coherent (a b : Operand) :
    (Comparison.eq.holds a b = Comparison.eq.holds b a ∧
      Comparison.ne.holds a b = (!Comparison.eq.holds a b) ∧
      Comparison.gt.holds a b = Comparison.lt.holds b a ∧
      Comparison.ge.holds a b = Comparison.le.holds b a) ∧
    (Comparable a b →
      (∃ op ∈ [Comparison.lt, .eq, .gt],
        ∀ op' ∈ [Comparison.lt, .eq, .gt], op'.holds a b = true ↔ op' = op) ∧
      Comparison.ge.holds a b = (Comparison.gt.holds a b || Comparison.eq.holds a b) ∧
      Comparison.le.holds a b = (Comparison.lt.holds a b || Comparison.eq.holds a b)) ∧
    (¬ Comparable a b →
      (∀ op ∈ [Comparison.lt, .le, .gt, .ge], op.holds a b = false) ∧
      (Comparison.eq.holds a b = true ↔ (a.isNullish = true ∧ b.isNullish = true) ∨
        ∃ v w, a = .structured v ∧ b = .structured w ∧ v.equal w = true)) := by
  refine ⟨⟨?_, rfl, ?_, ?_⟩, fun h => ⟨?_, ?_, ?_⟩, fun h => ⟨?_, ?_⟩⟩
  · exact (Comparison.eq.holds_turned a b).symm
  · exact (Comparison.gt.holds_turned a b).symm
  · exact (Comparison.ge.holds_turned a b).symm
  · obtain ⟨o, ho⟩ := comparable_iff.1 h
    refine ⟨ofOrdering o, by cases o <;> decide, fun op' hop' => holds_iff_ofOrdering ho hop'⟩
  · rw [holds, holds, holds, equal_of_comparable h]
  · rw [holds, holds, holds, equal_of_comparable h]
  · intro op hop
    simp only [List.mem_cons, List.not_mem_nil, or_false] at hop
    have hnone := naturalOrder?_of_not_comparable h
    rcases hop with rfl | rfl | rfl | rfl <;> rw [holds, hnone] <;> rfl
  · exact equal_iff_of_not_comparable h

/-- A string beside an instant is read as an instant from both sides, if it writes one. -/
theorem holds_coherent_instant :
    let day : Operand := .instant
      (.midnight ⟨2024, 2, 29, by decide, by decide, by decide⟩)
    Comparable day (.string "2024-02-29") ∧ ¬ Comparable (.string "2024-02-30") day ∧
      Comparison.eq.holds day (.string "2024-02-29") = true ∧
      Comparison.le.holds (.string "2024-02-29") day = true ∧
      Comparison.eq.holds (.string "2024-02-30") day = false ∧
      Comparison.gt.holds (.string "2024-02-30") day = false := by
  intro day
  have hread : Timestamp.read? "2024-02-29".toList =
      some (.midnight ⟨2024, 2, 29, by decide, by decide, by decide⟩) := by decide +kernel
  have hunread : Timestamp.read? "2024-02-30".toList = none := by decide +kernel
  have hcomparable : Comparable day (.string "2024-02-29") := .instant_string _ hread
  have hnot : ¬ Comparable (.string "2024-02-30") day := by
    rw [comparable_iff, naturalOrder?, hunread]
    nofun
  obtain ⟨⟨-, -, -, hturned⟩, hone, -⟩ := holds_coherent day (.string "2024-02-29")
  obtain ⟨-, -, hnone⟩ := holds_coherent (.string "2024-02-30") day
  have heq : Comparison.eq.holds day (.string "2024-02-29") = true := by
    rw [holds, equal_of_comparable hcomparable, naturalOrder?, hread]
    decide +kernel
  have hge : Comparison.ge.holds day (.string "2024-02-29") = true := by
    rw [(hone hcomparable).2.1, heq, Bool.or_true]
  refine ⟨hcomparable, hnot, heq, hturned ▸ hge, ?_, (hnone hnot).1 .gt (by decide)⟩
  rw [← Bool.not_eq_true, (hnone hnot).2]
  rintro (⟨h, -⟩ | ⟨v, w, h, -⟩) <;> cases h

end Comparison

end Filter

end OData

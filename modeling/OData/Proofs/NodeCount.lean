import OData.Proofs.ParserAgreement
import OData.Proofs.TokenFaults

/-!
# Counting nodes

The tree of a filter is never larger than its text: each node was made of a
token of its own, and each token of at least one byte (`size_le_of_parse`).

So the sums that count the nodes are sizes wherever the text fits in memory
(`Expr.count?_eq`), and a limit of nodes that is no less than the limit of bytes
never refuses a filter.
-/

namespace OData

/-! ## Sums of sizes -/

/-- A number as a size, if it is not too great for one. -/
def asSize? (n : Nat) : Option Nat := if n ≤ greatestSize then some n else none

/-- The sum of two sizes, if they are there and their sum is a size. -/
def addSizes? (m n : Option Nat) : Option Nat := m.bind fun m => n.bind fun n => asSize? (m + n)

theorem asSize?_eq_some {n : Nat} (h : n ≤ greatestSize) : asSize? n = some n := if_pos h

theorem asSize?_eq_none {n : Nat} (h : greatestSize < n) : asSize? n = none :=
  if_neg (Nat.not_le.2 h)

/-- A sum whose parts are too great is too great itself. -/
theorem addSizes?_asSize? (m n : Nat) : addSizes? (asSize? m) (asSize? n) = asSize? (m + n) := by
  rcases Nat.lt_or_ge greatestSize m with hm | hm
  · have hsum : greatestSize < m + n := by omega
    rw [asSize?_eq_none hm, asSize?_eq_none hsum]
    rfl
  · rcases Nat.lt_or_ge greatestSize n with hn | hn
    · have hsum : greatestSize < m + n := by omega
      rw [asSize?_eq_some hm, asSize?_eq_none hn, asSize?_eq_none hsum]
      rfl
    · rw [asSize?_eq_some hm, asSize?_eq_some hn]
      rfl

namespace Filter

/-! ## Nodes -/

namespace Expr

mutual
/-- The nodes of a tree, each with what stands below it. -/
def nodes : Expr → List Expr
  | .and l r => .and l r :: (l.nodes ++ r.nodes)
  | .or l r => .or l r :: (l.nodes ++ r.nodes)
  | .not e => .not e :: e.nodes
  | .compare l op r => .compare l op r :: (l.nodes ++ r.nodes)
  | .isIn e items => .isIn e items :: (e.nodes ++ nodesAll items)
  | .call name args => .call name args :: nodesAll args
  | .property path => [.property path]
  | .literal value => [.literal value]

/-- The nodes of some trees. -/
def nodesAll : List Expr → List Expr
  | [] => []
  | e :: es => e.nodes ++ nodesAll es
end

mutual
/-- The number of nodes summed up in sizes, nothing if a sum on the way is too great. -/
def count? : Expr → Option Nat
  | .and l r | .or l r | .compare l _ r => addSizes? (addSizes? (asSize? 1) l.count?) r.count?
  | .not e => addSizes? (asSize? 1) e.count?
  | .isIn e items =>
    addSizes? (addSizes? (asSize? 1) e.count?) (countFrom? (asSize? 0) items)
  | .call _ args => addSizes? (asSize? 1) (countFrom? (asSize? 0) args)
  | .property _ | .literal _ => asSize? 1

/-- A sum with the numbers of nodes of some trees added one by one. -/
def countFrom? (sum : Option Nat) : List Expr → Option Nat
  | [] => sum
  | e :: es => countFrom? (addSizes? sum e.count?) es
end

mutual
theorem length_nodes : (e : Expr) → e.nodes.length = e.size
  | .and l r | .or l r | .compare l _ r => by
    rw [nodes, size, List.length_cons, List.length_append, length_nodes l, length_nodes r]
    omega
  | .not e => by
    rw [nodes, size, List.length_cons, length_nodes e, Nat.add_comm]
  | .isIn e items => by
    rw [nodes, size, List.length_cons, List.length_append, length_nodes e, length_nodesAll items]
    omega
  | .call _ args => by
    rw [nodes, size, List.length_cons, length_nodesAll args, Nat.add_comm]
  | .property _ | .literal _ => rfl

theorem length_nodesAll : (es : List Expr) → (nodesAll es).length = sizeAll es
  | [] => rfl
  | e :: es => by
    rw [nodesAll, sizeAll, List.length_append, length_nodes e, length_nodesAll es]
end

mutual
/-- The sums are exact as long as they are sizes, and one is too great only if there are too many
nodes. -/
theorem count?_eq : (e : Expr) → e.count? = asSize? e.size
  | .and l r | .or l r | .compare l _ r => by
    rw [count?, size, count?_eq l, count?_eq r, addSizes?_asSize?, addSizes?_asSize?]
  | .not e => by
    rw [count?, size, count?_eq e, addSizes?_asSize?]
  | .isIn e items => by
    rw [count?, size, count?_eq e, countFrom?_eq 0 items, addSizes?_asSize?, addSizes?_asSize?,
      Nat.zero_add]
  | .call _ args => by
    rw [count?, size, countFrom?_eq 0 args, addSizes?_asSize?, Nat.zero_add]
  | .property _ | .literal _ => rfl

theorem countFrom?_eq (sum : Nat) :
    (es : List Expr) → countFrom? (asSize? sum) es = asSize? (sum + sizeAll es)
  | [] => rfl
  | e :: es => by
    rw [countFrom?, sizeAll, count?_eq e, addSizes?_asSize?, countFrom?_eq _ es, Nat.add_assoc]
end

end Expr

/-! ## Texts -/

/-- The tree that all tokens make up has no more nodes than there are tokens. -/
theorem size_le_of_parseTokens {depth : Nat} {ts : List Token} {e : Expr}
    (h : parseTokens depth ts = .ok e) : e.size ≤ ts.length := by
  have hwithin := parseTokens_eq_ok_iff_derivesWithin.1 h
  exact hwithin.derives.size_le

/-- A filter has too many nodes just when it is short enough and its tokens make up a tree with more
nodes than allowed. -/
theorem parse_eq_tooManyNodes_iff {limits : Limits} {text : String} {count most : Nat} :
    parse limits text = .error (.tooManyNodes count most) ↔
      text.utf8ByteSize ≤ limits.maxFilterLength ∧ most = limits.maxNodes ∧
        limits.maxNodes < count ∧ ∃ ts e, tokenize text.toList = .ok ts ∧
          parseTokens limits.maxDepth ts = .ok e ∧ e.size = count := by
  rw [parse_eq_iff]
  constructor
  · intro h
    cases h with
    | refused _ _ hparse =>
      have htokens := onTokens_parseTokens limits.maxDepth _ _ hparse
      cases htokens
    | tooManyNodes hlength hts hparse hnodes =>
      exact ⟨hlength, rfl, hnodes, _, _, hts, hparse, rfl⟩
  · rintro ⟨hlength, rfl, hnodes, ts, e, hts, hparse, rfl⟩
    exact .tooManyNodes hlength hts hparse hnodes

/-- The tree is never larger than the text.  The number that an accepted text reports is that of the
nodes of its tree, which are no more than the tokens and so no more than the bytes.  So the sums that
count them are sizes, also for a tree that is then refused, and no filter is refused for its nodes where
as many nodes as bytes are allowed. -/
theorem size_le_of_parse (limits : Limits) (text : String) :
    (∀ p, parseFilter limits text = .ok p →
      p.nodeCount = p.expr.nodes.length ∧
      ∃ ts, tokenize text.toList = .ok ts ∧ p.nodeCount ≤ ts.length ∧
        ts.length ≤ text.utf8ByteSize) ∧
    (text.utf8ByteSize ≤ greatestSize → ∀ ts e, tokenize text.toList = .ok ts →
      parseTokens limits.maxDepth ts = .ok e → e.count? = some e.size) ∧
    (limits.maxFilterLength ≤ limits.maxNodes → ∀ count most,
      parseFilter limits text ≠ .error (.tooManyNodes count most)) := by
  refine ⟨?_, ?_, ?_⟩
  · intro p h
    obtain ⟨h, hcount⟩ := parseFilter_eq_ok_iff.1 h
    obtain ⟨-, -, ts, hts, hparse⟩ := parse_eq_ok_iff_parseTokens.1 h
    rw [hcount]
    exact ⟨p.expr.length_nodes.symm, ts, hts, size_le_of_parseTokens hparse,
      length_le_utf8ByteSize hts⟩
  · intro hsize ts e hts hparse
    have hnodes := size_le_of_parseTokens hparse
    have htokens := length_le_utf8ByteSize hts
    rw [e.count?_eq, asSize?_eq_some (by omega)]
  · intro hlimits count most h
    obtain ⟨hlength, -, hmany, ts, e, hts, hparse, rfl⟩ :=
      parse_eq_tooManyNodes_iff.1 (parseFilter_eq_error_iff.1 h)
    have hnodes := size_le_of_parseTokens hparse
    have htokens := length_le_utf8ByteSize hts
    omega

/-- Under the default limits, a chain of negations has one node for each token. -/
theorem size_le_of_parse_negations :
    let limits : Limits := {}
    let text := "not not a or b"
    let e : Expr := .or (.not (.not (.property ⟨["a"]⟩))) (.property ⟨["b"]⟩)
    parseFilter limits text = .ok ⟨e, 5⟩ ∧ text.utf8ByteSize ≤ greatestSize ∧
      limits.maxFilterLength ≤ limits.maxNodes ∧ 5 = e.nodes.length ∧
      (∃ ts, tokenize text.toList = .ok ts ∧ 5 = ts.length ∧ ts.length ≤ text.utf8ByteSize) ∧
      e.count? = some e.size ∧
      ∀ count most, parseFilter limits text ≠ .error (.tooManyNodes count most) := by
  intro limits text e
  let ts : List Token := [.word "not", .word "not", .word "a", .word "or", .word "b"]
  have hnot : DerivesWithin 64 .negation [.word "not", .word "not", .word "a"]
      (.not (.not (.property ⟨["a"]⟩))) :=
    .not (.not (.comparison (.operand (@DerivesWithin.word 62 "a" (by decide)))))
  have hor : DerivesWithin 64 .disjunction ts e :=
    .or (.negation hnot) (.conjunction (.negation (.comparison (.operand
      (@DerivesWithin.word 63 "b" (by decide))))))
  have hts : tokenize text.toList = .ok ts := by decide +kernel
  have hlength : text.utf8ByteSize ≤ limits.maxFilterLength := by decide +kernel
  have htokens := parseTokens_eq_ok_iff_derivesWithin.2 hor
  have hparse : parseFilter limits text = .ok ⟨e, 5⟩ := parseFilter_eq_ok_iff.2
    ⟨parse_eq_ok_iff_parseTokens.2 ⟨hlength, by decide, ts, hts, htokens⟩, rfl⟩
  have hsize : text.utf8ByteSize ≤ greatestSize := by decide +kernel
  have hlimits : limits.maxFilterLength ≤ limits.maxNodes := by decide
  obtain ⟨haccepted, hcount, hrefused⟩ := size_le_of_parse limits text
  obtain ⟨hnodes, ts', hts', -, hbytes⟩ := haccepted _ hparse
  obtain rfl := Except.ok.inj (hts.symm.trans hts')
  exact ⟨hparse, hsize, hlimits, hnodes, ⟨ts, hts, rfl, hbytes⟩,
    hcount hsize ts e hts htokens, hrefused hlimits⟩

end Filter

end OData

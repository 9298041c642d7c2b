import OData.Collection.Pipeline
import OData.Proofs.Groups

/-!
# Filters put together

A text that is accepted may be put in parentheses and joined to another one.
The tokens of a text stay as they are before a text that goes on none of them
(`spells_of_tokenize`), so what is accepted writes its tree in any place
(`writes_of_parse`), and the laws of writing give the tree of the whole.  Limits
that accept the whole accept what stands in its groups (`parse_of_group`).

A tree that is put together accepts records as its parts do, so filters form a
Boolean algebra.  A filter alone keeps what its tree accepts, unless it is
blank: then it is no filter and keeps everything.
-/

namespace OData.Filter

/-! ## Tokens before another text -/

/-- A text has its tokens, whatever follows it that goes on none of them. -/
theorem spells_of_tokenize {cs : List Char} {ts : List Token} (h : tokenize cs = .ok ts) :
    Spells cs ts := by
  obtain ⟨ls, hls, rfl⟩ := exists_lexemes_of_tokenize h
  refine lexemesFrom_induction (motive := fun cs ls => Spells cs (ls.filterMap Lexeme.token?))
    spells_nil (fun {l rest ls} hproper hends ih => ?_) hls
  intro tail us htail hus
  have htokens := (ih tail us htail hus).lexeme hproper (hends.append htail)
  rw [List.append_assoc]
  cases l with
  | blank c => exact htokens
  | token t => exact htokens

/-- An accepted text writes its tree in any place. -/
theorem writes_of_parse {limits : Limits} {text : String} {e : Expr}
    (h : parse limits text = .ok e) : Writes .disjunction text.toList e := by
  obtain ⟨ts, hts, hd⟩ := derives_of_parse h
  exact ⟨ts, hd, spells_of_tokenize hts⟩

/-! ## Texts put together -/

/-- A text in parentheses. -/
def inParentheses (a : String) : String := "(" ++ a ++ ")"

/-- Two texts joined by `and`. -/
def conjoined (a b : String) : String := inParentheses a ++ " and " ++ inParentheses b

/-- Two texts joined by `or`. -/
def disjoined (a b : String) : String := inParentheses a ++ " or " ++ inParentheses b

/-- A text behind `not`. -/
def negated (a : String) : String := "not " ++ inParentheses a

section Texts

variable {a b : String} {ts us : List Token} {e f : Expr}

theorem spells_inParentheses (ha : Spells a.toList ts) :
    Spells (inParentheses a).toList (.opening :: (ts ++ [.closing])) := by
  simpa [inParentheses, grouped] using ha.grouped

theorem spells_conjoined (ha : Spells a.toList ts) (hb : Spells b.toList us) :
    Spells (conjoined a b).toList
      (.opening :: (ts ++ [.closing]) ++ .word "and" :: .opening :: (us ++ [.closing])) := by
  have hand : (Token.word "and").Proper := by decide
  have hspells := (spells_inParentheses ha).between (spells_inParentheses hb) hand
  simpa [conjoined, between] using hspells

theorem spells_disjoined (ha : Spells a.toList ts) (hb : Spells b.toList us) :
    Spells (disjoined a b).toList
      (.opening :: (ts ++ [.closing]) ++ .word "or" :: .opening :: (us ++ [.closing])) := by
  have hor : (Token.word "or").Proper := by decide
  have hspells := (spells_inParentheses ha).between (spells_inParentheses hb) hor
  simpa [disjoined, between] using hspells

theorem spells_negated (ha : Spells a.toList ts) :
    Spells (negated a).toList (.word "not" :: .opening :: (ts ++ [.closing])) := by
  simpa [negated] using (spells_inParentheses ha).not

theorem writes_inParentheses (ha : Writes .disjunction a.toList e) :
    Writes .operand (inParentheses a).toList e := by
  obtain ⟨ts, hd, hs⟩ := ha
  exact ⟨_, .group hd, spells_inParentheses hs⟩

theorem writes_conjoined (ha : Writes .disjunction a.toList e)
    (hb : Writes .disjunction b.toList f) :
    Writes .disjunction (conjoined a b).toList (.and e f) := by
  obtain ⟨ts, hd, hs⟩ := ha
  obtain ⟨us, hd', hs'⟩ := hb
  exact ⟨_, .conjunction (.and (.comparison (.operand (.group hd)))
    (.negation (.comparison (.operand (.group hd'))))), spells_conjoined hs hs'⟩

theorem writes_disjoined (ha : Writes .disjunction a.toList e)
    (hb : Writes .disjunction b.toList f) :
    Writes .disjunction (disjoined a b).toList (.or e f) := by
  obtain ⟨ts, hd, hs⟩ := ha
  obtain ⟨us, hd', hs'⟩ := hb
  exact ⟨_, .or (.negation (.comparison (.operand (.group hd))))
    (.conjunction (.negation (.comparison (.operand (.group hd'))))), spells_disjoined hs hs'⟩

theorem writes_negated (ha : Writes .disjunction a.toList e) :
    Writes .disjunction (negated a).toList (.not e) := by
  obtain ⟨ts, hd, hs⟩ := ha
  exact ⟨_, .conjunction (.negation (.not (.comparison (.operand (.group hd))))),
    spells_negated hs⟩

end Texts

/-! ## What trees accept -/

namespace Expr

variable (functions : FunctionTable) (e f : Expr)

theorem accepts_and : (and e f).accepts functions =
    fun record => e.accepts functions record && f.accepts functions record := by
  funext record
  simp only [accepts, eval, Operand.truthy]

theorem accepts_or : (or e f).accepts functions =
    fun record => e.accepts functions record || f.accepts functions record := by
  funext record
  simp only [accepts, eval, Operand.truthy]

theorem accepts_not : (not e).accepts functions = fun record => !e.accepts functions record := by
  funext record
  simp only [accepts, eval, Operand.truthy]

/-- What a conjunction accepts is what one side accepts of what the other one does. -/
theorem filter_and (records : List Json) : records.filter ((and e f).accepts functions) =
    (records.filter (e.accepts functions)).filter (f.accepts functions) := by
  rw [List.filter_filter, accepts_and]
  exact List.filter_congr fun record _ => Bool.and_comm _ _

end Expr

end OData.Filter

namespace OData

/-- Limits as great as a text. -/
structure Limits.Covers (limits : Limits) (text : String) : Prop where
  /-- The text is short enough. -/
  length : text.utf8ByteSize ≤ limits.maxFilterLength
  /-- The tree has few enough nodes. -/
  nodes : text.utf8ByteSize ≤ limits.maxNodes
  /-- The tree is nested little enough. -/
  depth : text.utf8ByteSize ≤ limits.maxDepth

/-- Limits large enough for a text: they accept it, or they are as great as it is. -/
def Limits.Suffice (limits : Limits) (text : String) : Prop :=
  (Filter.parse limits text).isOk = true ∨ limits.Covers text

/-- Limits as great as a text are large enough for a shorter one. -/
theorem Limits.Covers.suffice {limits : Limits} {text part : String} (h : limits.Covers text)
    (hle : part.utf8ByteSize ≤ text.utf8ByteSize) : limits.Suffice part :=
  .inr ⟨Nat.le_trans hle h.length, Nat.le_trans hle h.nodes, Nat.le_trans hle h.depth⟩

namespace Filter

/-- A text that writes an expression gives it under limits that are large enough. -/
theorem parse_of_suffice {limits : Limits} {text : String} {e : Expr}
    (h : Writes .disjunction text.toList e) (hsuffice : limits.Suffice text) :
    parse limits text = .ok e := by
  rcases hsuffice with hok | hcovers
  · cases hparse : parse limits text with
    | error fault =>
      rw [hparse] at hok
      cases hok
    | ok e' =>
      obtain ⟨ts, hd, hs⟩ := h
      obtain ⟨ts', hts, hd'⟩ := derives_of_parse hparse
      obtain rfl := Except.ok.inj (hs.tokenize_eq.symm.trans hts)
      rw [hd.unique hd']
  · exact parse_of_writes h hcovers.length hcovers.nodes hcovers.depth

/-- Two texts are no greater than both in parentheses with a word between them. -/
theorem utf8ByteSize_le_joined (a word b : String) :
    a.utf8ByteSize ≤ (inParentheses a ++ word ++ inParentheses b).utf8ByteSize ∧
      b.utf8ByteSize ≤ (inParentheses a ++ word ++ inParentheses b).utf8ByteSize := by
  simp only [inParentheses, String.utf8ByteSize_append]
  omega

/-- What is negated is no greater than the whole. -/
theorem utf8ByteSize_le_negated (a : String) : a.utf8ByteSize ≤ (negated a).utf8ByteSize := by
  simp only [negated, inParentheses, String.utf8ByteSize_append]
  omega

/-! ## Parts of accepted texts -/

section Parts

variable {limits : Limits} {whole part a b : String} {ts us : List Token} {e f g : Expr}

/-- The tokens of an accepted text derive its tree within the levels that its limits allow. -/
theorem Spells.derivesWithin (hspells : Spells whole.toList ts)
    (h : parse limits whole = .ok g) : DerivesWithin limits.maxDepth .disjunction ts g := by
  obtain ⟨-, -, ts', hts', hd⟩ := parse_eq_ok_iff_derivesWithin.1 h
  cases hspells.tokenize_eq.symm.trans hts'
  exact hd

/-- Limits that accept a text accept what stands in a group of it. -/
theorem parse_of_group (h : parse limits whole = .ok g)
    (hlength : part.utf8ByteSize ≤ whole.utf8ByteSize) (hsize : e.size ≤ g.size)
    (hspells : Spells part.toList ts)
    (hgroup : DerivesWithin limits.maxDepth .operand (.opening :: (ts ++ [.closing])) e) :
    parse limits part = .ok e := by
  obtain ⟨hwhole, hnodes, -⟩ := parse_eq_ok_iff_derivesWithin.1 h
  obtain ⟨m, hm, hd⟩ := hgroup.of_group
  exact parse_eq_ok_iff_derivesWithin.2 ⟨Nat.le_trans hlength hwhole, Nat.le_trans hsize hnodes,
    ts, hspells.tokenize_eq, hd.mono (by omega)⟩

/-- Limits that accept a conjunction accept both sides. -/
theorem parse_of_conjoined (ha : Writes .disjunction a.toList e)
    (hb : Writes .disjunction b.toList f) (h : parse limits (conjoined a b) = .ok (.and e f)) :
    parse limits a = .ok e ∧ parse limits b = .ok f := by
  obtain ⟨ts, hd, hs⟩ := ha
  obtain ⟨us, hd', hs'⟩ := hb
  obtain ⟨hleft, hright⟩ :=
    ((spells_conjoined hs hs').derivesWithin h).of_and (.group hd) (.group hd')
  obtain ⟨hlength, hlength'⟩ := utf8ByteSize_le_joined a " and " b
  exact ⟨parse_of_group h hlength (by simp only [Expr.size]; omega) hs hleft,
    parse_of_group h hlength' (by simp only [Expr.size]; omega) hs' hright⟩

/-- Limits that accept a disjunction accept both sides. -/
theorem parse_of_disjoined (ha : Writes .disjunction a.toList e)
    (hb : Writes .disjunction b.toList f) (h : parse limits (disjoined a b) = .ok (.or e f)) :
    parse limits a = .ok e ∧ parse limits b = .ok f := by
  obtain ⟨ts, hd, hs⟩ := ha
  obtain ⟨us, hd', hs'⟩ := hb
  obtain ⟨hleft, hright⟩ :=
    ((spells_disjoined hs hs').derivesWithin h).of_or (.group hd) (.group hd')
  obtain ⟨hlength, hlength'⟩ := utf8ByteSize_le_joined a " or " b
  exact ⟨parse_of_group h hlength (by simp only [Expr.size]; omega) hs hleft,
    parse_of_group h hlength' (by simp only [Expr.size]; omega) hs' hright⟩

/-- Limits that accept a negation accept what is negated. -/
theorem parse_of_negated (ha : Writes .disjunction a.toList e)
    (h : parse limits (negated a) = .ok (.not e)) : parse limits a = .ok e := by
  obtain ⟨ts, hd, hs⟩ := ha
  have hgroup := ((spells_negated hs).derivesWithin h).of_not (.group hd)
  exact parse_of_group h (utf8ByteSize_le_negated a) (by simp only [Expr.size]; omega) hs hgroup

end Parts

end Filter

namespace Collection

open OData.Filter

/-! ## What filters keep -/

/-- Whether a text is a filter: it is not white space alone. -/
def IsFilter (text : String) : Prop := ∃ c ∈ text.toList, Text.isBlank c = false

namespace IsFilter

theorem append_left {a : String} (h : IsFilter a) (b : String) : IsFilter (a ++ b) := by
  obtain ⟨c, hc, hblank⟩ := h
  exact ⟨c, by simp [hc], hblank⟩

theorem append_right {b : String} (h : IsFilter b) (a : String) : IsFilter (a ++ b) := by
  obtain ⟨c, hc, hblank⟩ := h
  exact ⟨c, by simp [hc], hblank⟩

end IsFilter

theorem isFilter_inParentheses (a : String) : IsFilter (inParentheses a) :=
  IsFilter.append_left (IsFilter.append_left ⟨'(', by decide, by decide⟩ a) ")"

theorem isFilter_conjoined (a b : String) : IsFilter (conjoined a b) :=
  (isFilter_inParentheses b).append_right _

theorem isFilter_disjoined (a b : String) : IsFilter (disjoined a b) :=
  (isFilter_inParentheses b).append_right _

theorem isFilter_negated (a : String) : IsFilter (negated a) :=
  (isFilter_inParentheses a).append_right _

/-- The text of a query is what is no white space alone. -/
theorem filterText_of_isFilter {text : String} (h : IsFilter text) :
    ({ filter := some text } : QueryOptions).filterText = some text := by
  obtain ⟨c, hc, hblank⟩ := h
  have htrim : Text.trim text.toList ≠ [] := by
    intro hnil
    rw [Text.trim_eq_nil_iff.1 hnil c hc] at hblank
    cases hblank
  simpa [QueryOptions.filterText, Option.filter, Text.trimmed] using htrim

theorem filterText_of_not_isFilter {text : String} (h : ¬ IsFilter text) :
    ({ filter := some text } : QueryOptions).filterText = none := by
  have htrim : Text.trim text.toList = [] := by
    refine Text.trim_eq_nil_iff.2 fun c hc => ?_
    rw [← Bool.not_eq_false]
    exact fun hblank => h ⟨c, hc, hblank⟩
  simp [QueryOptions.filterText, Option.filter, Text.trimmed, htrim]

namespace Pipeline

/-- The records that a query with a filter alone keeps. -/
def keep (p : Pipeline) (text : String) (records : List Json) : Except Fault (List Json) :=
  p.filter ({ filter := some text } : QueryOptions).filterText records

/-- A filter keeps what its tree accepts. -/
theorem keep_of_parse {p : Pipeline} {text : String} {e : Expr}
    (hparse : parse p.config.limits text = .ok e) (h : IsFilter text) (records : List Json) :
    p.keep text records = .ok (records.filter (e.accepts p.functions)) := by
  simp only [keep, filterText_of_isFilter h, filter, hparse]

/-- White space alone keeps everything. -/
theorem keep_of_not_isFilter {text : String} (h : ¬ IsFilter text) (p : Pipeline)
    (records : List Json) : p.keep text records = .ok records := by
  simp only [keep, filterText_of_not_isFilter h, filter]

/-- A text that writes an expression keeps what the expression accepts, if the limits are large
enough. -/
theorem keep_of_writes {p : Pipeline} {text : String} {e : Expr}
    (hwrites : Writes .disjunction text.toList e) (hsuffice : p.config.limits.Suffice text)
    (h : IsFilter text) (records : List Json) :
    parse p.config.limits text = .ok e ∧
      p.keep text records = .ok (records.filter (e.accepts p.functions)) := by
  have hparse := parse_of_suffice hwrites hsuffice
  exact ⟨hparse, keep_of_parse hparse h records⟩

/-- Accepted texts form a Boolean algebra.  Put together they give the trees put together, and keep
what the trees accept: a conjunction what both do, a disjunction what one of them does, a negation
the rest.  A text alone keeps what its tree accepts if it is a filter, and else everything.  Limits
that are enough for a text put together are enough for its parts, so a conjunction of two filters
keeps what the second one keeps of what the first one does. -/
theorem keep_composed {limits limits' : Limits} {a b : String} {e f : Expr}
    (ha : parse limits a = .ok e) (hb : parse limits' b = .ok f) (p : Pipeline)
    (records : List Json) :
    (p.config.limits.Suffice (inParentheses a) →
      parse p.config.limits (inParentheses a) = .ok e) ∧
    (p.config.limits.Suffice (conjoined a b) →
      parse p.config.limits (conjoined a b) = .ok (.and e f) ∧
      p.keep (conjoined a b) records =
        .ok ((records.filter (e.accepts p.functions)).filter (f.accepts p.functions)) ∧
      (IsFilter a → IsFilter b →
        p.keep (conjoined a b) records = (p.keep a records).bind (p.keep b))) ∧
    (p.config.limits.Suffice (disjoined a b) →
      parse p.config.limits (disjoined a b) = .ok (.or e f) ∧
      p.keep (disjoined a b) records = .ok (records.filter fun record =>
        e.accepts p.functions record || f.accepts p.functions record) ∧
      (IsFilter a → p.keep a records = .ok (records.filter (e.accepts p.functions))) ∧
      (IsFilter b → p.keep b records = .ok (records.filter (f.accepts p.functions)))) ∧
    (p.config.limits.Suffice (negated a) →
      parse p.config.limits (negated a) = .ok (.not e) ∧
      p.keep (negated a) records =
        .ok (records.filter fun record => !e.accepts p.functions record) ∧
      (IsFilter a → p.keep a records = .ok (records.filter (e.accepts p.functions)))) ∧
    (p.config.limits.Suffice a → IsFilter a →
      p.keep a records = .ok (records.filter (e.accepts p.functions))) ∧
    (p.config.limits.Suffice b → IsFilter b →
      p.keep b records = .ok (records.filter (f.accepts p.functions))) ∧
    (¬ IsFilter a → p.keep a records = .ok records) := by
  have hwa := writes_of_parse ha
  have hwb := writes_of_parse hb
  have hgroup := (writes_inParentheses hwa).comparison.negation.conjunction.disjunction
  refine ⟨parse_of_suffice hgroup, ?_, ?_, ?_, ?_, ?_, ?_⟩
  · intro hsuffice
    obtain ⟨hparse, hkeep⟩ :=
      keep_of_writes (writes_conjoined hwa hwb) hsuffice (isFilter_conjoined a b) records
    obtain ⟨hparse_a, hparse_b⟩ := parse_of_conjoined hwa hwb hparse
    rw [Expr.filter_and] at hkeep
    refine ⟨hparse, hkeep, ?_⟩
    intro hfa hfb
    rw [hkeep, keep_of_parse hparse_a hfa, Except.bind, keep_of_parse hparse_b hfb]
  · intro hsuffice
    obtain ⟨hparse, hkeep⟩ :=
      keep_of_writes (writes_disjoined hwa hwb) hsuffice (isFilter_disjoined a b) records
    obtain ⟨hparse_a, hparse_b⟩ := parse_of_disjoined hwa hwb hparse
    rw [Expr.accepts_or] at hkeep
    exact ⟨hparse, hkeep, fun hfa => keep_of_parse hparse_a hfa records,
      fun hfb => keep_of_parse hparse_b hfb records⟩
  · intro hsuffice
    obtain ⟨hparse, hkeep⟩ :=
      keep_of_writes (writes_negated hwa) hsuffice (isFilter_negated a) records
    rw [Expr.accepts_not] at hkeep
    exact ⟨hparse, hkeep, fun hfa => keep_of_parse (parse_of_negated hwa hparse) hfa records⟩
  · intro hsuffice h
    exact (keep_of_writes hwa hsuffice h records).2
  · intro hsuffice h
    exact (keep_of_writes hwb hsuffice h records).2
  · intro h
    exact keep_of_not_isFilter h p records

/-- A disjunction keeps its grouping as a side of a conjunction. -/
theorem keep_composed_grouped :
    let p : Pipeline := ⟨{}, .empty⟩
    let e : Expr := .or (.property ⟨["x"]⟩) (.property ⟨["y"]⟩)
    let f : Expr := .not (.property ⟨["z"]⟩)
    let both : Json := .object [("x", .bool true), ("z", .bool true)]
    let first : Json := .object [("x", .bool true)]
    let neither : Json := .object []
    conjoined "x or y" "not z" = "(x or y) and (not z)" ∧
      parse {} "x or y" = .ok e ∧ parse {} "not z" = .ok f ∧
      IsFilter "x or y" ∧ IsFilter "not z" ∧
      parse {} (conjoined "x or y" "not z") = .ok (.and e f) ∧
      p.keep (conjoined "x or y" "not z") [both, first, neither] = .ok [first] ∧
      (p.keep "x or y" [both, first, neither]).bind (p.keep "not z") = .ok [first] ∧
      p.keep (disjoined "x or y" "not z") [both, first, neither] = .ok [both, first, neither] ∧
      p.keep (negated "x or y") [both, first, neither] = .ok [neither] := by
  intro p e f both first neither
  have hcovers : p.config.limits.Covers (conjoined "x or y" "not z") :=
    ⟨by decide +kernel, by decide +kernel, by decide +kernel⟩
  have hparts := utf8ByteSize_le_joined "x or y" " and " "not z"
  have hx : Writes .operand ['x'] (.property ⟨["x"]⟩) :=
    writes_word (w := "x") (by decide) (by decide)
  have hy : Writes .operand ['y'] (.property ⟨["y"]⟩) :=
    writes_word (w := "y") (by decide) (by decide)
  have hz : Writes .operand ['z'] (.property ⟨["z"]⟩) :=
    writes_word (w := "z") (by decide) (by decide)
  have he : parse {} "x or y" = .ok e :=
    parse_of_suffice (hx.comparison.negation.or hy.comparison.negation) (hcovers.suffice hparts.1)
  have hf : parse {} "not z" = .ok f :=
    parse_of_suffice hz.comparison.negation.not.conjunction.disjunction (hcovers.suffice hparts.2)
  have hfilter : IsFilter "x or y" := ⟨'x', by decide, by decide⟩
  have hfilter' : IsFilter "not z" := ⟨'n', by decide, by decide⟩
  obtain ⟨-, hand, hor, hnot, -⟩ := keep_composed he hf p [both, first, neither]
  obtain ⟨htree, hkeep, hsame⟩ := hand (.inr hcovers)
  have hbind := hsame hfilter hfilter'
  have hdisjoined := hor (hcovers.suffice (by decide +kernel))
  have hnegated := hnot (hcovers.suffice (by decide +kernel))
  exact ⟨rfl, he, hf, hfilter, hfilter', htree, hkeep, hbind.symm.trans hkeep, hdisjoined.2.1,
    hnegated.2.1⟩

/-- A space that does not break is a word to the parser and white space to the pipeline.  Alone it
keeps a record, and so does its negation. -/
theorem keep_negated_space :
    let p : Pipeline := ⟨{}, .empty⟩
    let record : Json := .object []
    (∃ e, parse {} "\u00a0" = .ok e) ∧ p.keep "\u00a0" [record] = .ok [record] ∧
      p.keep (negated "\u00a0") [record] = .ok [record] := by
  intro p record
  have hspace : ¬ IsFilter "\u00a0" := by
    rintro ⟨c, hc, hblank⟩
    obtain rfl : c = '\u00a0' := by simpa using hc
    cases hblank
  have hparse : parse {} "\u00a0" = .ok (.property ⟨["\u00a0"]⟩) := by with_unfolding_all rfl
  have hcovers : p.config.limits.Covers (negated "\u00a0") :=
    ⟨by decide +kernel, by decide +kernel, by decide +kernel⟩
  exact ⟨⟨_, hparse⟩, keep_of_not_isFilter hspace p _,
    (keep_of_writes (writes_negated (writes_of_parse hparse)) (.inr hcovers)
      (isFilter_negated _) _).2⟩

end Pipeline

end Collection

end OData

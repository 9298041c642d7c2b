import OData.Proofs.Nesting
import OData.Proofs.ParserAgreement

/-!
# Texts between separators

Cutting a text at top level loses nothing and cuts at the separators that the
scan finds, and nowhere else (`topLevelPieces_exact`).

Joining texts with a separator and cutting them again at top level gives the
texts back, if none of them has a separator at top level (`Unbroken`) and each
leaves the scan where it was (`Balanced`).  A balanced text in parentheses has
no separator at top level at all: a scan that started deeper never catches up
with one that started at top level, or both would end alike
(`unbroken_of_shallower`).

A filter that the parser accepts is balanced (`balanced_of_parse`), so it may
stand inside other texts.
-/

namespace OData.Options

/-! ## Texts without a separator -/

/-- A text has no separator at top level when it begins at some nesting. -/
def Unbroken (separator : Char) (n : Nesting) : List Char → Prop
  | [] => True
  | c :: cs => separates separator n c = false ∧ Unbroken separator (n.next c) cs

section Unbroken

variable {separator : Char} {n : Nesting}

theorem unbroken_append {cs ds : List Char} :
    Unbroken separator n (cs ++ ds) ↔
      Unbroken separator n cs ∧ Unbroken separator (n.after cs) ds := by
  induction cs generalizing n with
  | nil => simp [Unbroken]
  | cons c cs ih => rw [List.cons_append, Unbroken, Unbroken, ih, Nesting.after_cons, and_assoc]

theorem unbroken_of_not_mem {cs : List Char} (h : separator ∉ cs) : Unbroken separator n cs := by
  induction cs generalizing n with
  | nil => trivial
  | cons c cs ih =>
    rw [List.mem_cons, not_or] at h
    exact ⟨by simp [separates, Ne.symm h.1], ih h.2⟩

/-- A text is unbroken just when the scan finds no place in it. -/
theorem positionsFrom_eq_nil {offset : Nat} {cs : List Char} :
    positionsFrom separator n offset cs = [] ↔ Unbroken separator n cs := by
  induction cs generalizing n offset with
  | nil => simp [positionsFrom, Unbroken]
  | cons c cs ih => cases h : separates separator n c <;> simp [positionsFrom, Unbroken, h, ih]

/-! ## Cutting -/

theorem piecesFrom_ne_nil (separator : Char) (n : Nesting) (cs : List Char) :
    piecesFrom separator n cs ≠ [] := by
  cases cs with
  | nil => simp [piecesFrom]
  | cons c cs =>
    rw [piecesFrom]
    split
    · simp
    · split <;> simp

theorem length_le_of_mem_piecesFrom {cs piece : List Char}
    (h : piece ∈ piecesFrom separator n cs) : piece.length ≤ cs.length := by
  induction cs generalizing n piece with
  | nil =>
    obtain rfl := List.mem_singleton.1 h
    rfl
  | cons c cs ih =>
    rw [piecesFrom] at h
    split at h
    · rcases List.mem_cons.1 h with rfl | h
      · exact Nat.zero_le _
      · exact (ih h).trans (Nat.le_succ _)
    · split at h
      · next hnil => exact absurd hnil (piecesFrom_ne_nil separator _ cs)
      · next first rest hpieces =>
        rcases List.mem_cons.1 h with rfl | h
        · exact Nat.succ_le_succ (ih (hpieces ▸ List.mem_cons_self))
        · exact (ih (hpieces ▸ List.mem_cons_of_mem _ h)).trans (Nat.le_succ _)

theorem eq_of_separates {c : Char} (h : separates separator n c = true) : c = separator := by
  simp only [separates, Bool.and_eq_true, decide_eq_true_eq] at h
  exact h.1.1

/-- A separator at top level leaves the scan at the start. -/
theorem next_of_separates {c : Char} (h : separates separator n c = true) : n.next c = .top := by
  obtain ⟨quoted, depth⟩ := n
  simp only [separates, Nesting.isTop, Bool.and_eq_true, Bool.not_eq_true',
    decide_eq_true_eq] at h
  obtain ⟨⟨-, hc⟩, rfl, rfl⟩ := h
  exact Nesting.next_of_not_nests hc _

/-- An unbroken text is one piece. -/
theorem piecesFrom_of_unbroken {cs : List Char} (h : Unbroken separator n cs) :
    piecesFrom separator n cs = [cs] := by
  induction cs generalizing n with
  | nil => rfl
  | cons c cs ih =>
    rw [piecesFrom, h.1, ih h.2]
    rfl

/-- A separator behind a text that ends at top level cuts there. -/
theorem piecesFrom_append_cons (hseparator : nests separator = false) {cs : List Char}
    (htop : n.after cs = .top) (ds : List Char) :
    piecesFrom separator n (cs ++ separator :: ds) =
      piecesFrom separator n cs ++ topLevelPieces separator ds := by
  induction cs generalizing n with
  | nil =>
    obtain rfl : n = .top := htop
    have hseparates : separates separator .top separator = true := by
      simp [separates, hseparator, Nesting.isTop, Nesting.top]
    rw [List.nil_append, piecesFrom, piecesFrom, hseparates,
      Nesting.next_of_not_nests hseparator]
    rfl
  | cons c cs ih =>
    rw [List.cons_append, piecesFrom, piecesFrom, ih htop]
    split
    · rfl
    · cases hpieces : piecesFrom separator (n.next c) cs with
      | nil => exact absurd hpieces (piecesFrom_ne_nil separator _ cs)
      | cons piece rest => rfl

/-- The pieces joined by the separator are the text. -/
theorem intercalate_piecesFrom (separator : Char) (n : Nesting) (cs : List Char) :
    [separator].intercalate (piecesFrom separator n cs) = cs := by
  induction cs generalizing n with
  | nil => rfl
  | cons c cs ih =>
    have hne := piecesFrom_ne_nil separator (n.next c) cs
    rw [piecesFrom]
    split
    case isTrue hc =>
      rw [List.intercalate_cons_of_ne_nil hne, ih, eq_of_separates hc]
      rfl
    case isFalse hc =>
      split
      · next hp => exact absurd hp hne
      · next piece rest hp => rw [List.intercalate_cons_cons_left, ← hp, ih]

/-- The first piece has no separator at top level where the text begins, and the others have none at
the start of a text. -/
theorem unbroken_of_piecesFrom {cs first : List Char} {rest : List (List Char)}
    (h : piecesFrom separator n cs = first :: rest) :
    Unbroken separator n first ∧ ∀ piece ∈ rest, Unbroken separator .top piece := by
  induction cs generalizing n first rest with
  | nil =>
    cases h
    exact ⟨trivial, by simp⟩
  | cons c cs ih =>
    obtain ⟨next, later, hpieces⟩ := List.exists_cons_of_ne_nil
      (piecesFrom_ne_nil separator (n.next c) cs)
    obtain ⟨hnext, hlater⟩ := ih hpieces
    rw [piecesFrom, hpieces] at h
    split at h
    case isTrue hc =>
      -- The scan is at top level at a separator, and stays there.
      cases h
      rw [next_of_separates hc] at hnext
      exact ⟨trivial, List.forall_mem_cons.2 ⟨hnext, hlater⟩⟩
    case isFalse hc =>
      cases h
      exact ⟨⟨Bool.not_eq_true _ ▸ hc, hnext⟩, hlater⟩

/-- The places of the separators, in bytes, between pieces of a text that begins at an offset. -/
def placesBetween (separator : Char) (offset : Nat) : List (List Char) → List Nat
  | piece :: next :: rest =>
    let place := offset + Text.byteLength piece
    place :: placesBetween separator (place + separator.utf8Size) (next :: rest)
  | _ => []

/-- The pieces are what is left between the places that the scan finds. -/
theorem positionsFrom_eq_placesBetween (separator : Char) (n : Nesting) (offset : Nat)
    (cs : List Char) :
    positionsFrom separator n offset cs =
      placesBetween separator offset (piecesFrom separator n cs) := by
  induction cs generalizing n offset with
  | nil => rfl
  | cons c cs ih =>
    obtain ⟨first, rest, hpieces⟩ := List.exists_cons_of_ne_nil
      (piecesFrom_ne_nil separator (n.next c) cs)
    rw [positionsFrom, piecesFrom, ih, hpieces]
    split
    case isTrue hc =>
      rw [eq_of_separates hc]
      rfl
    case isFalse hc =>
      cases rest with
      | nil => rfl
      | cons next rest => simp only [placesBetween, Text.byteLength, Nat.add_assoc]

end Unbroken

/-- Cutting at top level is exact.  The pieces joined by the separator are the text, they stand between
the places that the scan finds, and none has a place of its own, so that it is one piece when it is cut
again.  A separator behind a text that ends at top level cuts there, whatever follows. -/
theorem topLevelPieces_exact (separator : Char) (cs : List Char) :
    [separator].intercalate (topLevelPieces separator cs) = cs ∧
    topLevelPositions separator cs = placesBetween separator 0 (topLevelPieces separator cs) ∧
    (∀ piece ∈ topLevelPieces separator cs,
      topLevelPositions separator piece = [] ∧ topLevelPieces separator piece = [piece]) ∧
    (nests separator = false → Nesting.top.after cs = .top → ∀ ds,
      topLevelPieces separator (cs ++ separator :: ds) =
        topLevelPieces separator cs ++ topLevelPieces separator ds) := by
  refine ⟨intercalate_piecesFrom separator .top cs,
    positionsFrom_eq_placesBetween separator .top 0 cs, ?_,
    fun hseparator htop ds => piecesFrom_append_cons hseparator htop ds⟩
  intro piece hpiece
  have hunbroken : Unbroken separator .top piece := by
    obtain ⟨first, rest, hpieces⟩ := List.exists_cons_of_ne_nil
      (piecesFrom_ne_nil separator .top cs)
    rw [topLevelPieces, hpieces] at hpiece
    exact List.forall_mem_cons.2 (unbroken_of_piecesFrom hpieces) piece hpiece
  exact ⟨positionsFrom_eq_nil.2 hunbroken, piecesFrom_of_unbroken hunbroken⟩

/-- A separator of three bytes behind a parenthesis that closes nothing, a group and a quoted text, and
before a group that is never closed. -/
theorem topLevelPieces_exact_unclosed :
    let separator := '→'
    let cs := ")a('→',b)".toList
    let ds := "→b→(c→'d".toList
    nests separator = false ∧ Nesting.top.after cs = .top ∧
      topLevelPieces separator (cs ++ separator :: ds) =
        [cs, [], ['b'], "(c→'d".toList] ∧
      topLevelPositions separator ds = [0, 4] ∧
      topLevelPieces separator "(c→'d".toList = ["(c→'d".toList] := by
  intro separator cs ds
  have hseparator : nests separator = false := by decide
  have htop : Nesting.top.after cs = .top := by decide
  obtain ⟨-, -, -, happend⟩ := topLevelPieces_exact separator cs
  obtain ⟨-, hplaces, hpieces, -⟩ := topLevelPieces_exact separator ds
  refine ⟨hseparator, htop, ?_, ?_, (hpieces _ (by decide)).2⟩
  · rw [happend hseparator htop]
    decide
  · rw [hplaces]
    decide

/-! ## Balanced texts -/

/-- Outside quotes a text leaves the scan as deep as it was. -/
def Balanced (cs : List Char) : Prop :=
  ∀ depth, (⟨false, depth⟩ : Nesting).after cs = ⟨false, depth⟩

theorem balanced_of_not_nests {cs : List Char} (h : ∀ c ∈ cs, nests c = false) : Balanced cs :=
  fun _ => Nesting.after_of_not_nests h _

theorem Balanced.append {cs ds : List Char} (hcs : Balanced cs) (hds : Balanced ds) :
    Balanced (cs ++ ds) := by
  intro depth
  rw [Nesting.after_append, hcs, hds]

theorem Balanced.inParentheses {cs : List Char} (h : Balanced cs) :
    Balanced ('(' :: (cs ++ [')'])) := by
  intro depth
  rw [Nesting.after_cons, Nesting.next_opening, Nesting.after_append, h, Nesting.after_cons,
    Nesting.next_closing, Nesting.after_nil, Nat.add_sub_cancel]

theorem balanced_intercalate {separator : List Char} (hseparator : Balanced separator)
    {texts : List (List Char)} (h : ∀ text ∈ texts, Balanced text) :
    Balanced (separator.intercalate texts) := by
  cases texts with
  | nil => exact fun _ => rfl
  | cons text texts =>
    exact Text.intercalate_induction (fun hcs hds => hcs.append (hseparator.append hds))
      (by simp) h

/-! ## Deeper scans -/

namespace Nesting

/-- Both places are inside quotes or both outside, and the first is at most as deep. -/
def Shallower (n m : Nesting) : Prop := n.quoted = m.quoted ∧ n.depth ≤ m.depth

theorem Shallower.next {n m : Nesting} (h : n.Shallower m) (c : Char) :
    (n.next c).Shallower (m.next c) := by
  obtain ⟨quoted, depth⟩ := n
  obtain ⟨_, depth'⟩ := m
  obtain ⟨rfl, hdepth⟩ := h
  simp only at hdepth
  simp only [Nesting.next]
  split_ifs
  · exact ⟨rfl, hdepth⟩
  · exact ⟨rfl, hdepth⟩
  · exact ⟨rfl, Nat.add_le_add_right hdepth 1⟩
  · exact ⟨rfl, Nat.sub_le_sub_right hdepth 1⟩
  · exact ⟨rfl, hdepth⟩

end Nesting

/-- A scan that ends elsewhere than a shallower one is never at top level.  At top level both would
be at the same place, and stay together from there. -/
theorem unbroken_of_shallower {separator : Char} {n m : Nesting} {cs : List Char}
    (h : n.Shallower m) (hne : n.after cs ≠ m.after cs) : Unbroken separator m cs := by
  induction cs generalizing n m with
  | nil => trivial
  | cons c cs ih =>
    refine ⟨?_, ih (h.next c) hne⟩
    have htop : m.isTop = false := by
      rw [← Bool.not_eq_true]
      intro htop
      refine hne ?_
      obtain ⟨quoted, depth⟩ := n
      obtain ⟨quoted', depth'⟩ := m
      simp only [Nesting.isTop, Bool.and_eq_true, Bool.not_eq_true', decide_eq_true_eq] at htop
      obtain ⟨rfl, rfl⟩ := htop
      obtain ⟨rfl, hdepth⟩ := h
      obtain rfl := Nat.le_zero.1 hdepth
      rfl
    simp [separates, htop]

/-- Inside parentheses a balanced text has no separator at top level. -/
theorem Balanced.unbroken {cs : List Char} (h : Balanced cs) (separator : Char) (depth : Nat) :
    Unbroken separator ⟨false, depth + 1⟩ cs := by
  refine unbroken_of_shallower (n := ⟨false, 0⟩) ⟨rfl, Nat.zero_le _⟩ ?_
  rw [h, h]
  simp

/-- A balanced text in parentheses has no separator at top level. -/
theorem Balanced.unbroken_inParentheses {cs : List Char} (h : Balanced cs) (separator : Char) :
    Unbroken separator .top ('(' :: (cs ++ [')'])) := by
  refine ⟨by simp [separates, nests], unbroken_append.2 ⟨h.unbroken separator 0, ?_, trivial⟩⟩
  simp [separates, nests]

/-! ## Joined texts -/

/-- The pieces of joined texts are these texts. -/
theorem topLevelPieces_intercalate {separator : Char} (hseparator : nests separator = false)
    {texts : List (List Char)} (hne : texts ≠ [])
    (h : ∀ text ∈ texts, Balanced text ∧ Unbroken separator .top text) :
    topLevelPieces separator ([separator].intercalate texts) = texts := by
  induction texts with
  | nil => exact absurd rfl hne
  | cons text texts ih =>
    obtain ⟨hbalanced, hunbroken⟩ := h text (by simp)
    have hpieces := piecesFrom_of_unbroken hunbroken
    have htop : Nesting.top.after text = .top := hbalanced 0
    cases texts with
    | nil => rwa [List.intercalate_singleton]
    | cons next texts =>
      rw [List.intercalate_cons_cons, List.append_assoc, List.singleton_append, topLevelPieces,
        piecesFrom_append_cons hseparator htop, hpieces,
        ih (by simp) fun t ht => h t (List.mem_cons_of_mem _ ht)]
      rfl

end OData.Options

namespace OData.Filter

open OData.Options (Balanced)

/-! ## Accepted filters -/

@[simp] theorem depthAfter_append (depth : Nat) (ts us : List Token) :
    depthAfter depth (ts ++ us) = depthAfter (depthAfter depth ts) us := List.foldl_append

@[simp] theorem depthAfter_cons (depth : Nat) (t : Token) (ts : List Token) :
    depthAfter depth (t :: ts) = depthAfter (t.depthAfter depth) ts := rfl

/-- Parts that close what they open do so together. -/
theorem depthAfter_partTokens {parts : List (List Token × Expr)}
    (h : ∀ part ∈ parts, ∀ depth, depthAfter depth part.1 = depth) (depth : Nat) :
    depthAfter depth (partTokens parts) = depth := by
  induction parts with
  | nil => rfl
  | cons part parts ih =>
    have hpart := h part (by simp) depth
    cases parts with
    | nil => exact hpart
    | cons next parts =>
      rw [partTokens_cons_cons, depthAfter_append, hpart]
      exact ih fun p hp => h p (List.mem_cons_of_mem _ hp)

/-- What the grammar derives closes all parentheses that it opens. -/
theorem Derives.depthAfter_eq {s : Symbol} {ts : List Token} {e : Expr} (h : Derives s ts e)
    (depth : Nat) : depthAfter depth ts = depth := by
  induction h generalizing depth with
  | conjunction _ ih | negation _ ih | comparison _ ih | operand _ ih => exact ih depth
  | or _ _ ihl ihr | and _ _ ihl ihr | compare _ _ _ ihl ihr =>
    rw [depthAfter_append, ihl, depthAfter_cons]
    exact ihr depth
  | not _ ih => exact ih depth
  | isIn _ _ _ ih ihitems =>
    rw [depthAfter_append, ih, depthAfter_cons, depthAfter_cons, depthAfter_append,
      depthAfter_partTokens ihitems]
    rfl
  | group _ ih =>
    rw [depthAfter_cons, depthAfter_append, ih]
    rfl
  | call _ _ _ ihargs =>
    rw [depthAfter_cons, depthAfter_cons, depthAfter_append, depthAfter_partTokens ihargs]
    rfl
  | quoted content => rfl
  | word => rfl

/-- An accepted filter is balanced. -/
theorem balanced_of_parse {limits : Limits} {text : String} {e : Expr}
    (h : parse limits text = .ok e) : Balanced text.toList := by
  obtain ⟨ts, hts, hderives⟩ := derives_of_parse h
  obtain ⟨ls, hls, rfl⟩ := exists_lexemes_of_tokenize hts
  intro depth
  rw [← flatten_source_of_lexemes hls, after_of_lexemes (proper_of_lexemesFrom hls),
    hderives.depthAfter_eq]

end OData.Filter

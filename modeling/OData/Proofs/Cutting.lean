import Mathlib.Data.List.TakeDrop
import Mathlib.Data.List.TakeWhile
import OData.Text.Blank
import OData.Text.Pieces

/-!
# Cutting what was joined

Each way to cut a text undoes a way to put texts together.  A run of a class of
characters ends where the class ends (`takeWhile_append`, `dropWhile_append`,
`span_append`), and trimming looks at both ends alone (`trim_eq_self_iff`).  A cut
at the first separator finds the place where two texts were joined
(`cutAt?_append`), and no other place is cut (`exists_of_cutAt?`).  The pieces of
texts joined by a separator are these texts (`pieces_intercalate`).  What is
joined must not have the separator itself.
-/

namespace OData.Text

/-! ## Runs -/

/-- No character of the class begins the text. -/
def StopsRun (inRun : Char → Bool) (rest : List Char) : Prop :=
  ∀ c, rest.head? = some c → inRun c = false

section Runs

variable {inRun : Char → Bool} {run rest : List Char}

@[simp] theorem stopsRun_nil : StopsRun inRun [] := by
  intro c h
  cases h

@[simp] theorem stopsRun_cons {c : Char} : StopsRun inRun (c :: rest) ↔ inRun c = false := by
  constructor
  · intro h
    exact h c rfl
  · intro h d hd
    obtain rfl := Option.some.inj hd
    exact h

theorem takeWhile_append (hrun : ∀ c ∈ run, inRun c = true) (hrest : StopsRun inRun rest) :
    (run ++ rest).takeWhile inRun = run := by
  rw [List.takeWhile_append_of_pos hrun]
  cases rest with
  | nil => simp
  | cons c rest => simp [stopsRun_cons.1 hrest]

theorem dropWhile_append (hrun : ∀ c ∈ run, inRun c = true) (hrest : StopsRun inRun rest) :
    (run ++ rest).dropWhile inRun = rest := by
  rw [List.dropWhile_append_of_pos hrun]
  cases rest with
  | nil => rfl
  | cons c rest => simp [stopsRun_cons.1 hrest]

theorem span_append (hrun : ∀ c ∈ run, inRun c = true) (hrest : StopsRun inRun rest) :
    (run ++ rest).span inRun = (run, rest) := by
  rw [List.span_eq_takeWhile_dropWhile, takeWhile_append hrun hrest, dropWhile_append hrun hrest]

theorem dropWhile_eq_self_iff {cs : List Char} :
    cs.dropWhile inRun = cs ↔ StopsRun inRun cs := by
  constructor
  · intro h
    cases cs with
    | nil => exact stopsRun_nil
    | cons c cs =>
      rw [stopsRun_cons, ← Bool.not_eq_true]
      intro hc
      rw [List.dropWhile_cons_of_pos hc] at h
      have hle := (List.dropWhile_sublist inRun (l := cs)).length_le
      rw [h, List.length_cons] at hle
      omega
  · intro h
    cases cs with
    | nil => rfl
    | cons c cs => rw [List.dropWhile_cons_of_neg (by simp [stopsRun_cons.1 h])]

theorem stopsRun_append {cs : List Char} (hne : cs ≠ []) (ds : List Char) :
    StopsRun inRun (cs ++ ds) ↔ StopsRun inRun cs := by
  cases cs with
  | nil => exact absurd rfl hne
  | cons c cs => rw [List.cons_append, stopsRun_cons, stopsRun_cons]

theorem StopsRun.of_isPrefix {cs ds : List Char} (h : StopsRun inRun ds)
    (hcs : cs <+: ds) : StopsRun inRun cs := by
  obtain ⟨rest, rfl⟩ := hcs
  intro c hc
  refine h c ?_
  rw [List.head?_append, hc]
  rfl

end Runs

/-! ## White space around a text -/

/-- Trimming changes nothing just when there is no white space at both ends. -/
theorem trim_eq_self_iff {cs : List Char} :
    trim cs = cs ↔ StopsRun isBlank cs ∧ StopsRun isBlank cs.reverse := by
  have hend : trimEnd cs = cs ↔ StopsRun isBlank cs.reverse := by
    rw [trimEnd, List.reverse_eq_iff, dropWhile_eq_self_iff]
  constructor
  · intro h
    have hstart : trimStart cs = cs := by
      refine (List.dropWhile_suffix isBlank).eq_of_length_le ?_
      have hle := (List.dropWhile_sublist isBlank (l := (trimStart cs).reverse)).length_le
      rw [← List.length_reverse, ← trimEnd, ← trim, h, List.length_reverse] at hle
      exact hle
    rw [trim, hstart] at h
    exact ⟨dropWhile_eq_self_iff.1 hstart, hend.1 h⟩
  · rintro ⟨hstart, hstop⟩
    rw [trim, trimStart, dropWhile_eq_self_iff.2 hstart, hend.2 hstop]

/-- Trimming changes nothing where there is no white space. -/
theorem trim_eq_self {cs : List Char} (h : ∀ c ∈ cs, isBlank c = false) : trim cs = cs := by
  refine trim_eq_self_iff.2 ⟨?_, ?_⟩
  · intro c hc
    exact h c (List.mem_of_head? hc)
  · intro c hc
    exact h c (List.mem_reverse.1 (List.mem_of_head? hc))

/-- Between two texts that are trimmed anything may stand. -/
theorem trim_append_append {cs ds : List Char} (hcs : trim cs = cs) (hcsne : cs ≠ [])
    (hds : trim ds = ds) (hdsne : ds ≠ []) (between : List Char) :
    trim (cs ++ (between ++ ds)) = cs ++ (between ++ ds) := by
  have hreverse : (cs ++ (between ++ ds)).reverse = ds.reverse ++ (cs ++ between).reverse := by
    rw [← List.append_assoc, List.reverse_append]
  rw [trim_eq_self_iff, hreverse, stopsRun_append hcsne, stopsRun_append (by simpa using hdsne)]
  exact ⟨(trim_eq_self_iff.1 hcs).1, (trim_eq_self_iff.1 hds).2⟩

/-- A text that is trimmed is trimmed as a list of characters. -/
theorem trim_toList_of_trimmed {text : String} (h : trimmed text = text) :
    trim text.toList = text.toList := by
  have htrim := congrArg String.toList h
  rwa [trimmed, String.toList_ofList] at htrim

/-- Nothing is left of a text that is white space alone. -/
theorem trim_eq_nil_iff {cs : List Char} : trim cs = [] ↔ ∀ c ∈ cs, isBlank c = true := by
  rw [trim, trimEnd, List.reverse_eq_nil_iff, List.dropWhile_eq_nil_iff, trimStart]
  constructor
  · intro h c hc
    rw [← List.takeWhile_append_dropWhile (p := isBlank) (l := cs), List.mem_append] at hc
    rcases hc with hc | hc
    · exact List.all_eq_true.1 List.all_takeWhile c hc
    · exact h c (List.mem_reverse.2 hc)
  · intro h c hc
    exact h c ((List.dropWhile_suffix isBlank).subset (List.mem_reverse.1 hc))

theorem isPrefix_trimEnd (cs : List Char) : trimEnd cs <+: cs := by
  have h := (List.dropWhile_suffix isBlank (l := cs.reverse)).reverse
  rwa [List.reverse_reverse] at h

/-- White space is trimmed down to a text that does not end with it. -/
theorem trimEnd_append {cs : List Char} (h : trimEnd cs = cs) (ds : List Char) :
    trimEnd (cs ++ ds) = cs ++ trimEnd ds := by
  rw [trimEnd, List.reverse_append, List.dropWhile_append]
  split
  · next hblank =>
    rw [trimEnd, List.isEmpty_iff.1 hblank, List.reverse_nil, List.append_nil]
    exact h
  · rw [List.reverse_append, List.reverse_reverse, trimEnd]

/-- Around a text without white space, what stands before is dropped and only the end is trimmed. -/
theorem trim_around {before cs : List Char} (hbefore : ∀ c ∈ before, isBlank c = true)
    (hcs : ∀ c ∈ cs, isBlank c = false) (hne : cs ≠ []) (after : List Char) :
    trim (before ++ (cs ++ after)) = cs ++ trimEnd after := by
  have htrim := trim_eq_self hcs
  obtain ⟨hstart, -⟩ := trim_eq_self_iff.1 htrim
  have hend : trimEnd cs = cs := by
    rwa [trim, trimStart, dropWhile_eq_self_iff.2 hstart] at htrim
  rw [trim, trimStart, dropWhile_append hbefore ((stopsRun_append hne after).2 hstart),
    trimEnd_append hend]

theorem mem_of_mem_trim {cs : List Char} {c : Char} (h : c ∈ trim cs) : c ∈ cs :=
  (List.dropWhile_suffix isBlank).subset ((isPrefix_trimEnd _).subset h)

theorem length_trim_le (cs : List Char) : (trim cs).length ≤ cs.length :=
  (isPrefix_trimEnd _).length_le.trans (List.dropWhile_suffix isBlank).length_le

/-- A trimmed text does not begin with white space. -/
theorem stopsRun_trim (cs : List Char) : StopsRun isBlank (trim cs) := by
  intro c hc
  obtain ⟨rest, hrest⟩ := isPrefix_trimEnd (trimStart cs)
  have hstop := List.head?_dropWhile_not isBlank cs
  rw [← trimStart, ← hrest, List.head?_append, ← trim, hc] at hstop
  exact hstop

/-! ## The first separator -/

/-- A text without a separator is not cut. -/
theorem cutAt?_eq_none {stop : Char → Bool} {cs : List Char} (h : ∀ c ∈ cs, stop c = false) :
    cutAt? stop cs = none := by
  induction cs with
  | nil => rfl
  | cons c cs ih =>
    rw [cutAt?, h c (by simp), ih fun d hd => h d (List.mem_cons_of_mem _ hd)]
    rfl

/-- A text is cut at its first separator. -/
theorem cutAt?_append {stop : Char → Bool} {l r : List Char} {c : Char}
    (hl : ∀ d ∈ l, stop d = false) (hc : stop c = true) :
    cutAt? stop (l ++ c :: r) = some (l, r) := by
  induction l with
  | nil => simp [cutAt?, hc]
  | cons d l ih =>
    rw [List.cons_append, cutAt?, hl d (by simp), ih fun e he => hl e (List.mem_cons_of_mem _ he)]
    rfl

/-- A text that is not cut has no separator. -/
theorem forall_of_cutAt?_eq_none {stop : Char → Bool} {cs : List Char} (h : cutAt? stop cs = none) :
    ∀ c ∈ cs, stop c = false := by
  induction cs with
  | nil => simp
  | cons c cs ih =>
    rw [cutAt?] at h
    split at h
    · cases h
    · next hc =>
      rw [List.forall_mem_cons]
      exact ⟨Bool.not_eq_true _ ▸ hc, ih (Option.map_eq_none_iff.1 h)⟩

/-- A cut is at a separator, and there is none before it. -/
theorem exists_of_cutAt? {stop : Char → Bool} {cs l r : List Char}
    (h : cutAt? stop cs = some (l, r)) :
    (∀ d ∈ l, stop d = false) ∧ ∃ c, stop c = true ∧ cs = l ++ c :: r := by
  induction cs generalizing l with
  | nil => cases h
  | cons c cs ih =>
    rw [cutAt?] at h
    split at h
    · next hc =>
      cases h
      exact ⟨by simp, c, hc, rfl⟩
    · next hc =>
      obtain ⟨⟨l', r'⟩, hcut, he⟩ := Option.map_eq_some_iff.1 h
      cases he
      obtain ⟨hl, d, hd, rfl⟩ := ih hcut
      rw [List.forall_mem_cons]
      exact ⟨⟨Bool.not_eq_true _ ▸ hc, hl⟩, d, hd, rfl⟩

/-! ## Joined texts -/

/-- What holds of some texts, and of two texts with the separator between them, holds of all of them
joined. -/
theorem intercalate_induction {motive : List Char → Prop} {separator : List Char}
    (hjoin : ∀ {cs ds : List Char}, motive cs → motive ds → motive (cs ++ (separator ++ ds)))
    {texts : List (List Char)} (hne : texts ≠ []) (h : ∀ text ∈ texts, motive text) :
    motive (separator.intercalate texts) := by
  induction texts with
  | nil => exact absurd rfl hne
  | cons text texts ih =>
    have htext := h text (by simp)
    cases texts with
    | nil => rwa [List.intercalate_singleton]
    | cons next texts =>
      rw [List.intercalate_cons_cons, List.append_assoc]
      exact hjoin htext (ih (by simp) fun t ht => h t (List.mem_cons_of_mem _ ht))

/-! ## Pieces -/

section Pieces

variable {separator : Char}

/-- A text without the separator is one piece. -/
theorem pieces_eq_singleton {cs : List Char} (h : separator ∉ cs) : pieces separator cs = [cs] := by
  induction cs with
  | nil => rfl
  | cons c cs ih =>
    rw [List.mem_cons, not_or] at h
    rw [pieces, if_neg (Ne.symm h.1), ih h.2]

/-- A piece ends at the separator. -/
theorem pieces_append {piece rest : List Char} (h : separator ∉ piece) :
    pieces separator (piece ++ separator :: rest) = piece :: pieces separator rest := by
  induction piece with
  | nil => simp [pieces]
  | cons c piece ih =>
    rw [List.mem_cons, not_or] at h
    rw [List.cons_append, pieces, if_neg (Ne.symm h.1), ih h.2]

/-- The pieces of joined texts are these texts. -/
theorem pieces_intercalate {ps : List (List Char)} (hne : ps ≠ [])
    (h : ∀ p ∈ ps, separator ∉ p) : pieces separator ([separator].intercalate ps) = ps := by
  induction ps with
  | nil => exact absurd rfl hne
  | cons p ps ih =>
    have hp := h p (by simp)
    cases ps with
    | nil => rw [List.intercalate_singleton, pieces_eq_singleton hp]
    | cons q ps =>
      rw [List.intercalate_cons_cons, List.append_assoc, List.singleton_append, pieces_append hp,
        ih (by simp) fun r hr => h r (List.mem_cons_of_mem _ hr)]

/-- No piece has the separator, and its characters are those of the text. -/
theorem mem_pieces {cs piece : List Char} (h : piece ∈ pieces separator cs) :
    separator ∉ piece ∧ ∀ c ∈ piece, c ∈ cs := by
  induction cs generalizing piece with
  | nil =>
    obtain rfl : piece = [] := by simpa [pieces] using h
    simp
  | cons c cs ih =>
    rw [pieces] at h
    split at h
    case isTrue hc =>
      rcases List.mem_cons.1 h with rfl | h
      · simp
      · exact ⟨(ih h).1, fun d hd => List.mem_cons_of_mem _ ((ih h).2 d hd)⟩
    case isFalse hc =>
      cases hps : pieces separator cs with
      | nil => exact absurd hps (pieces_ne_nil separator cs)
      | cons first rest =>
        rw [hps] at h
        rcases List.mem_cons.1 h with rfl | h
        · have hfirst := ih (hps ▸ List.mem_cons_self)
          refine ⟨?_, ?_⟩
          · rw [List.mem_cons, not_or]
            exact ⟨Ne.symm hc, hfirst.1⟩
          · intro d hd
            rcases List.mem_cons.1 hd with rfl | hd
            · exact List.mem_cons_self
            · exact List.mem_cons_of_mem _ (hfirst.2 d hd)
        · have hpiece := ih (hps ▸ List.mem_cons_of_mem _ h)
          exact ⟨hpiece.1, fun d hd => List.mem_cons_of_mem _ (hpiece.2 d hd)⟩

/-- Every character other than the separator is in a piece. -/
theorem exists_piece_of_mem {cs : List Char} {c : Char} (h : c ∈ cs) (hne : c ≠ separator) :
    ∃ piece ∈ pieces separator cs, c ∈ piece := by
  induction cs with
  | nil => cases h
  | cons d cs ih =>
    rw [pieces]
    split
    case isTrue hd =>
      rcases List.mem_cons.1 h with rfl | h
      · exact absurd hd hne
      · obtain ⟨piece, hpiece, hc⟩ := ih h
        exact ⟨piece, List.mem_cons_of_mem _ hpiece, hc⟩
    case isFalse hd =>
      cases hps : pieces separator cs with
      | nil => exact absurd hps (pieces_ne_nil separator cs)
      | cons first rest =>
        rcases List.mem_cons.1 h with rfl | h
        · exact ⟨c :: first, List.mem_cons_self, List.mem_cons_self⟩
        · obtain ⟨piece, hpiece, hc⟩ := ih h
          rw [hps] at hpiece
          rcases List.mem_cons.1 hpiece with rfl | hpiece
          · exact ⟨d :: piece, List.mem_cons_self, List.mem_cons_of_mem _ hc⟩
          · exact ⟨piece, List.mem_cons_of_mem _ hpiece, hc⟩

end Pieces

end OData.Text

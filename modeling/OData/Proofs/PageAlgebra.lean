import OData.Proofs.Stages

/-!
# Pages of pages

A page of a page is a page of the whole: the records passed over add up, and the
smaller of the two limits counts, where the outer page has used up some of the
inner one's limit (`page_page`).  A list has no more than the greatest size of
elements, so a sum of sizes may stay at the greatest (`page_saturated`), and no
limit is as good as the greatest one (`page_greatestSize`).

The pages of one length, one behind the other, are the start of the list
(`flatMap_page`).  As many as begin before its end are the whole list.
-/

namespace OData.Collection

/-! ## A page of a page -/

section Pages

variable {α : Type} (skip skip' : Nat) (top top' : Option Nat) (xs : List α)

/-- The start of a page is a page under the smaller limit. -/
theorem page_take (t : Nat) :
    (page skip top xs).take t = page skip (Option.merge min (some t) top) xs := by
  cases top with
  | none => simp [page]
  | some m => simp [page, List.take_take]

/-- A page of a page passes over what both pass over. -/
theorem page_page : page skip' top' (page skip top xs) =
    page (skip + skip') (Option.merge min top' (top.map (· - skip'))) xs := by
  cases top' with
  | none =>
    rw [page, ← page_add]
    cases top <;> rfl
  | some t => rw [page, ← page_add, page_take]

end Pages

section Sizes

variable {α : Type} {xs : List α} (h : xs.length ≤ greatestSize)
include h

/-- What is passed over may stay at the greatest size. -/
theorem page_saturated (skip : Nat) (top : Option Nat) :
    page (min greatestSize skip) top xs = page skip top xs := by
  rcases Nat.le_total skip greatestSize with hle | hle
  · rw [Nat.min_eq_right hle]
  · have hgreatest : xs.drop greatestSize = [] := List.drop_eq_nil_of_le h
    have hskip : xs.drop skip = [] := List.drop_eq_nil_of_le (Nat.le_trans h hle)
    rw [Nat.min_eq_left hle, page.eq_def, page.eq_def, hgreatest, hskip]

/-- No limit is as good as the greatest. -/
theorem page_greatestSize (skip : Nat) : page skip (some greatestSize) xs = page skip none xs := by
  refine List.take_of_length_le ?_
  rw [List.length_drop]
  omega

end Sizes

/-! ## Pages one behind the other -/

/-- The number of pages of `n` elements, the last of which may be shorter. -/
def pageCount (n length : Nat) : Nat := (length + (n - 1)) / n

/-- As many pages are counted as begin before the end. -/
theorem lt_pageCount_iff {n k length : Nat} (hn : 0 < n) :
    k < pageCount n length ↔ k * n < length := by
  rw [pageCount, ← Nat.succ_le_iff, Nat.le_div_iff_mul_le hn, Nat.succ_mul]
  omega

/-- All pages of `n` elements. -/
def pagesOf {α : Type} (n : Nat) (xs : List α) : List (List α) :=
  (List.range (pageCount n xs.length)).map fun k => page (k * n) (some n) xs

/-- The first pages are the start of the list. -/
theorem flatMap_page {α : Type} (n count : Nat) (xs : List α) :
    (List.range count).flatMap (fun k => page (k * n) (some n) xs) = xs.take (count * n) := by
  induction count with
  | zero => simp
  | succ count ih =>
    rw [List.range_succ, List.flatMap_append, ih, Nat.succ_mul, List.take_add,
      List.flatMap_singleton, page]

/-- All pages are the whole list. -/
theorem flatten_pagesOf {α : Type} {n : Nat} (hn : 0 < n) (xs : List α) :
    (pagesOf n xs).flatten = xs := by
  have hend : xs.length ≤ pageCount n xs.length * n := by
    rw [← Nat.not_lt, ← lt_pageCount_iff hn]
    exact Nat.lt_irrefl _
  rw [pagesOf, ← List.flatMap_def, flatMap_page, List.take_of_length_le hend]

/-- Paging composes.  A page of a page is the page that passes over both numbers, which stay at the
greatest size, and holds as many elements as the outer one asks for and the inner one has left.  A page
without a limit is one with the greatest limit.  The pages that begin before the end of a list, one
behind the other, are the list. -/
theorem page_composes {α : Type} {xs : List α} (h : xs.length ≤ greatestSize) :
    (∀ skip skip' top top' : Option Nat,
      page (skip'.getD 0) top' (page (skip.getD 0) top xs) =
        page (min greatestSize (skip.getD 0 + skip'.getD 0))
          (Option.merge min top' (top.map (· - skip'.getD 0))) xs) ∧
    (∀ skip, page skip none xs = page skip (some greatestSize) xs) ∧
    ∀ n, 0 < n →
      (∀ k, k < (pagesOf n xs).length ↔ k * n < xs.length) ∧ (pagesOf n xs).flatten = xs := by
  refine ⟨fun skip skip' top top' => ?_, fun skip => (page_greatestSize h skip).symm,
    fun n hn => ⟨fun k => ?_, flatten_pagesOf hn xs⟩⟩
  · rw [page_saturated h, page_page]
  · rw [pagesOf, List.length_map, List.length_range, lt_pageCount_iff hn]

/-- The second page passes over more than the first one holds, or as much as there is at all.  Five
elements are three pages of two. -/
theorem page_composes_five :
    let xs := [1, 2, 3, 4, 5]
    xs.length ≤ greatestSize ∧
      page 3 (some 2) (page 1 (some 2) xs) = page 4 (some 0) xs ∧
      page 1 none (page greatestSize (some 2) xs) = page greatestSize (some 1) xs ∧
      pagesOf 2 xs = [[1, 2], [3, 4], [5]] ∧ (pagesOf 2 xs).flatten = xs := by
  intro xs
  have hlength : xs.length ≤ greatestSize := by decide
  obtain ⟨hpages, -, hall⟩ := page_composes hlength
  exact ⟨hlength, hpages (some 1) (some 3) (some 2) (some 2),
    hpages (some greatestSize) (some 1) (some 2) none, by decide, (hall 2 (by decide)).2⟩

end OData.Collection

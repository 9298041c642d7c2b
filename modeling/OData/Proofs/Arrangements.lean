import Mathlib.Data.List.Basic
import OData.Proofs.Ordering

/-!
# Stable arrangements

A list of records is an arrangement of another one if it has the same records,
in the order of some keys, and those that the keys do not tell apart stand as
they stood.  There is only one such list (`Arranges.unique`), and putting records
in order makes it (`arranges_order`).

So a law of orders is shown by arrangements.  A part of an arrangement arranges
the same part of the records (`Arranges.filter`), so a part is put in order as
it is among all (`order_filter`).  An arrangement by further keys, arranged once
more, is one by all keys (`Arranges.append`), so many keys are as good as many
orders.  An arrangement read backwards is one of the reversed records by the
turned keys (`Arranges.reverse`), so descending is the mirror of ascending.
-/

namespace OData.Collection

open OData.Filter (PropertyPath)

/-- Whether some keys do not tell two records apart. -/
def tied (keys : List OrderKey) (a b : Json) : Bool :=
  compareRecords (keys.map SortKey.ofOrderKey) a b == .eq

/-- A list has the records of another one in the order of some keys, and records that tie are in the
order in which they were. -/
structure Arranges (keys : List OrderKey) (records arranged : List Json) : Prop where
  /-- The records are the same. -/
  perm : arranged.Perm records
  /-- No record comes before one that is less. -/
  ordered : Ordered keys arranged
  /-- The records that tie with any one stand as they stood. -/
  ties : ∀ record, arranged.filter (tied keys record) = records.filter (tied keys record)

/-! ## Ties -/

section Ties

variable {keys : List OrderKey} {a b : Json}

theorem tied_iff : tied keys a b = true ↔
    compareRecords (keys.map SortKey.ofOrderKey) a b = .eq := beq_iff_eq

theorem tied_self (keys : List OrderKey) (a : Json) : tied keys a a = true :=
  tied_iff.2 Std.ReflCmp.compare_self

/-- Lists have the same records if they have the same ones of those that tie. -/
theorem mem_iff_of_ties {xs ys : List Json}
    (h : ∀ record, xs.filter (tied keys record) = ys.filter (tied keys record)) :
    a ∈ xs ↔ a ∈ ys := by
  have hfilter (records : List Json) : a ∈ records.filter (tied keys a) ↔ a ∈ records := by
    rw [List.mem_filter, and_iff_left (tied_self keys a)]
  rw [← hfilter, h, hfilter]

/-- Records that tie tie with the same ones. -/
theorem tied_eq_of_tied (h : tied keys a b = true) : tied keys a = tied keys b := by
  funext c
  rw [tied, tied, Std.TransCmp.congr_left (tied_iff.1 h)]

theorem compareRecords_append (front back : List SortKey) (a b : Json) :
    compareRecords (front ++ back) a b =
      (compareRecords front a b).then (compareRecords back a b) := by
  induction front with
  | nil => rfl
  | cons key front ih =>
    rw [List.cons_append, compareRecords, compareRecords, ih, Ordering.then_assoc]

theorem tied_append (front back : List OrderKey) (a b : Json) :
    tied (front ++ back) a b = (tied back a b && tied front a b) := by
  rw [Bool.eq_iff_iff, Bool.and_eq_true, tied_iff, tied_iff, tied_iff, List.map_append,
    compareRecords_append, Ordering.then_eq_eq, and_comm]

end Ties

/-! ## Lists in order -/

section Ordered

variable {keys : List OrderKey}

/-- The first records of two lists in order tie if each is in both lists. -/
theorem Ordered.tied_head {a b : Json} {xs ys : List Json} (hxs : Ordered keys (a :: xs))
    (hys : Ordered keys (b :: ys)) (ha : a ∈ b :: ys) (hb : b ∈ a :: xs) :
    tied keys a b = true := by
  rcases List.mem_cons.1 ha with rfl | ha
  · exact tied_self keys a
  rcases List.mem_cons.1 hb with rfl | hb
  · exact tied_self keys b
  have hab := List.rel_of_pairwise_cons hxs hb
  have hba := List.rel_of_pairwise_cons hys ha
  exact tied_iff.2 (Std.OrientedCmp.isLE_antisymm hab hba)

/-- Two lists in order are the same if the records that tie stand in the same way in both. -/
theorem Ordered.eq_of_ties {xs ys : List Json} (hxs : Ordered keys xs) (hys : Ordered keys ys)
    (h : ∀ record, xs.filter (tied keys record) = ys.filter (tied keys record)) : xs = ys := by
  induction xs generalizing ys with
  | nil =>
    cases ys with
    | nil => rfl
    | cons b ys => exact absurd ((mem_iff_of_ties h).2 List.mem_cons_self) List.not_mem_nil
  | cons a xs ih =>
    cases ys with
    | nil => exact absurd ((mem_iff_of_ties h).1 List.mem_cons_self) List.not_mem_nil
    | cons b ys =>
      -- The first records tie, so they are the first ones of those that tie with them.
      have htied := hxs.tied_head hys ((mem_iff_of_ties h).1 List.mem_cons_self)
        ((mem_iff_of_ties h).2 List.mem_cons_self)
      have hheads := h a
      rw [List.filter_cons_of_pos (tied_self keys a), List.filter_cons_of_pos htied] at hheads
      obtain ⟨rfl, -⟩ := List.cons.inj hheads
      refine congrArg (a :: ·) (ih hxs.of_cons hys.of_cons fun record => ?_)
      have hrecord := h record
      by_cases ha : tied keys record a = true
      · rw [List.filter_cons_of_pos ha, List.filter_cons_of_pos ha] at hrecord
        exact (List.cons.inj hrecord).2
      · rwa [List.filter_cons_of_neg ha, List.filter_cons_of_neg ha] at hrecord

/-- Records in order are in the order of further keys too, if those that tie are. -/
theorem Ordered.append {back : List OrderKey} {records : List Json} (h : Ordered keys records)
    (hties : ∀ record, Ordered back (records.filter (tied keys record))) :
    Ordered (keys ++ back) records := by
  induction records with
  | nil => exact List.Pairwise.nil
  | cons a records ih =>
    have htail (record : Json) : Ordered back (records.filter (tied keys record)) :=
      (hties record).sublist ((List.sublist_cons_self a records).filter _)
    refine List.Pairwise.cons (fun b hb => ?_) (ih h.of_cons htail)
    rw [List.map_append, compareRecords_append]
    have hab := List.rel_of_pairwise_cons h hb
    cases hcompare : compareRecords (keys.map SortKey.ofOrderKey) a b with
    | lt => rfl
    | eq =>
      have hfirst := hties a
      rw [List.filter_cons_of_pos (tied_self keys a)] at hfirst
      exact List.rel_of_pairwise_cons hfirst (List.mem_filter.2 ⟨hb, tied_iff.2 hcompare⟩)
    | gt =>
      rw [hcompare] at hab
      cases hab

end Ordered

/-! ## Arrangements -/

namespace Arranges

variable {keys : List OrderKey} {records arranged other : List Json}

theorem unique (h : Arranges keys records arranged) (hother : Arranges keys records other) :
    arranged = other :=
  h.ordered.eq_of_ties hother.ordered fun record => (h.ties record).trans (hother.ties record).symm

/-- A part of an arrangement arranges the same part of the records. -/
theorem filter (h : Arranges keys records arranged) (keep : Json → Bool) :
    Arranges keys (records.filter keep) (arranged.filter keep) where
  perm := h.perm.filter keep
  ordered := h.ordered.sublist List.filter_sublist
  ties record := by rw [List.filter_comm, h.ties, List.filter_comm]

/-- An arrangement by further keys, arranged by the first ones, is an arrangement by all. -/
theorem append {back : List OrderKey} (hback : Arranges back records arranged)
    (h : Arranges keys arranged other) : Arranges (keys ++ back) records other where
  perm := h.perm.trans hback.perm
  ordered := by
    refine h.ordered.append fun record => ?_
    rw [h.ties]
    exact hback.ordered.sublist List.filter_sublist
  ties record := by
    have hsplit (xs : List Json) : xs.filter (tied (keys ++ back) record) =
        (xs.filter (tied keys record)).filter (tied back record) := by
      rw [List.filter_filter, funext (tied_append keys back record)]
    rw [hsplit, hsplit, h.ties, List.filter_comm, hback.ties, List.filter_comm]

end Arranges

/-! ## Putting records in order -/

theorem arranges_order (keys : List OrderKey) (records : List Json) :
    Arranges keys records (order keys records) where
  perm := order_perm keys records
  ordered := ordered_order keys records
  ties record := by
    have hordered : Ordered keys (records.filter (tied keys record)) := by
      refine List.pairwise_of_forall_mem_list fun a ha b hb => ?_
      have hab := (List.mem_filter.1 hb).2
      rw [tied_eq_of_tied (List.mem_filter.1 ha).2, tied_iff] at hab
      rw [hab, Ordering.isLE_eq]
    have hsublist : (records.filter (tied keys record)).Sublist (order keys records) := by
      rw [order_eq]
      exact List.sublist_mergeSort (fun a b c => Std.TransCmp.isLE_trans)
        (isLE_compareRecords_total _) hordered List.filter_sublist
    have hkept := hsublist.filter (tied keys record)
    simp only [List.filter_filter, Bool.and_self] at hkept
    exact (hkept.eq_of_length ((order_perm keys records).filter _).length_eq.symm).symm

/-- A part of the records is put in order as it is among all of them. -/
theorem order_filter (keys : List OrderKey) (keep : Json → Bool) (records : List Json) :
    order keys (records.filter keep) = (order keys records).filter keep := by
  have hpart := (arranges_order keys records).filter keep
  exact (arranges_order keys (records.filter keep)).unique hpart

/-- Records changed in what no key reads are put in order as they were before. -/
theorem order_map {keys : List OrderKey} {change : Json → Json}
    (h : ∀ key ∈ keys, ∀ record, (PropertyPath.ofText key.field).resolve (change record) =
      (PropertyPath.ofText key.field).resolve record) (records : List Json) :
    order keys (records.map change) = (order keys records).map change := by
  rw [order_eq, order_eq]
  refine (List.map_mergeSort fun a _ b _ => ?_).symm
  rw [compareRecords_change h]

/-- Putting records in order by further keys and then by the first ones puts them in order by all
keys. -/
theorem order_order (keys back : List OrderKey) (records : List Json) :
    order keys (order back records) = order (keys ++ back) records := by
  have hall := (arranges_order back records).append (arranges_order keys (order back records))
  exact hall.unique (arranges_order (keys ++ back) records)

/-! ## Turned keys -/

/-- The keys of an order with every direction turned around. -/
def turned (keys : List OrderKey) : List OrderKey :=
  keys.map fun key => { key with direction := key.direction.flip }

/-- Under a turned key two records compare the other way around. -/
theorem SortKey.compare_flip (key : SortKey) (a b : Json) :
    SortKey.compare { key with direction := key.direction.flip } a b = key.compare b a := by
  have hvalues : compareOptions (key.value? b) (key.value? a) =
      (compareOptions (key.value? a) (key.value? b)).swap := by
    rw [compareOptions_eq, compareOptions_eq]
    exact Std.OrientedOrd.eq_swap
  obtain ⟨path, direction⟩ := key
  cases direction with
  | ascending => exact hvalues.symm
  | descending =>
    have hswap := congrArg Ordering.swap hvalues
    rw [Ordering.swap_swap] at hswap
    exact hswap.symm

/-- Under turned keys two records compare the other way around, whichever key tells them apart. -/
theorem compareRecords_turned (keys : List OrderKey) (a b : Json) :
    compareRecords ((turned keys).map SortKey.ofOrderKey) a b =
      compareRecords (keys.map SortKey.ofOrderKey) b a := by
  induction keys with
  | nil => rfl
  | cons key keys ih =>
    exact congrArg₂ Ordering.then (SortKey.compare_flip (.ofOrderKey key) a b) ih

/-- Turned keys leave the same records tied. -/
theorem tied_turned (keys : List OrderKey) : tied (turned keys) = tied keys := by
  funext a b
  rw [Bool.eq_iff_iff, tied_iff, tied_iff, compareRecords_turned]
  exact Std.OrientedCmp.eq_comm

/-- An arrangement read backwards arranges the reversed records by the turned keys. -/
theorem Arranges.reverse {keys : List OrderKey} {records arranged : List Json}
    (h : Arranges keys records arranged) :
    Arranges (turned keys) records.reverse arranged.reverse where
  perm := arranged.reverse_perm.trans (h.perm.trans records.reverse_perm.symm)
  ordered := by
    refine List.pairwise_reverse.2 (h.ordered.imp fun {a b} hab => ?_)
    rwa [compareRecords_turned]
  ties record := by
    rw [List.filter_reverse, List.filter_reverse, tied_turned, h.ties]

/-- Descending is the mirror of ascending: to put records in order by turned keys is to put the
reversed records in order by the keys, and to read the result backwards. -/
theorem order_turned (keys : List OrderKey) (records : List Json) :
    order (turned keys) records = (order keys records.reverse).reverse := by
  have hmirror := (arranges_order keys records.reverse).reverse
  rw [List.reverse_reverse] at hmirror
  exact (arranges_order (turned keys) records).unique hmirror

/-! ## Missing values -/

/-- Whether a record has no value under a key. -/
def SortKey.lacks (key : SortKey) (record : Json) : Bool := (key.value? record).isNone

/-- Under an ascending key, only records without a value come before such a record. -/
theorem SortKey.lacks_of_ascending {key : SortKey} {a b : Json} (hkey : key.direction = .ascending)
    (h : (key.compare a b).isLE = true) (hb : key.lacks b = true) : key.lacks a = true := by
  rw [lacks, Option.isNone_iff_eq_none] at hb
  rw [SortKey.compare, hkey, Direction.apply, hb] at h
  rw [lacks]
  cases ha : key.value? a with
  | none => rfl
  | some v =>
    rw [ha] at h
    cases h

/-- Under a descending key, only records with a value come before such a record. -/
theorem SortKey.lacks_of_descending {key : SortKey} {a b : Json}
    (hkey : key.direction = .descending) (h : (key.compare a b).isLE = true)
    (hb : key.lacks b = false) : key.lacks a = false := by
  rw [lacks, Option.isNone_eq_false_iff, Option.isSome_iff_exists] at hb
  obtain ⟨v, hb⟩ := hb
  rw [SortKey.compare, hkey, Direction.apply, hb] at h
  rw [lacks]
  cases ha : key.value? a with
  | none =>
    rw [ha] at h
    cases h
  | some w => rfl

/-- Records of which those of a kind come first are these and then the others. -/
theorem eq_filter_append_filter {first : Json → Bool} {records : List Json}
    (h : records.Pairwise fun a b => first b = true → first a = true) :
    records = records.filter first ++ records.filter fun record => !first record := by
  induction records with
  | nil => rfl
  | cons a records ih =>
    by_cases ha : first a = true
    · simpa [ha] using ih h.of_cons
    · have hnone : ∀ b ∈ records, ¬ first b = true := fun b hb hfirst =>
        ha (List.rel_of_pairwise_cons h hb hfirst)
      rw [List.filter_eq_nil_iff.2 (List.forall_mem_cons.2 ⟨ha, hnone⟩), List.nil_append, eq_comm,
        List.filter_eq_self]
      simpa [ha] using hnone

/-- If the records of a kind come first in an order, they and the others are put in order apart. -/
theorem order_eq_append {keys : List OrderKey} {records : List Json} (first : Json → Bool)
    (h : (order keys records).Pairwise fun a b => first b = true → first a = true) :
    order keys records = order keys (records.filter first) ++
      order keys (records.filter fun record => !first record) := by
  rw [order_filter, order_filter]
  exact eq_filter_append_filter h

/-! ## The stable sort -/

/-- The order of records is a total preorder, and putting records in order is the stable sort by it:
the result is the only arrangement of them.  In it the records without a value under the first key
come first if that key is ascending, and last if it is descending. -/
theorem order_stable :
    (∀ (keys : List SortKey) (a b c : Json),
      compareRecords keys a a = .eq ∧
      compareRecords keys b a = (compareRecords keys a b).swap ∧
      ((compareRecords keys a b).isLE = true → (compareRecords keys b c).isLE = true →
        (compareRecords keys a c).isLE = true)) ∧
    (∀ (keys : List OrderKey) (records arranged : List Json),
      arranged = order keys records ↔ Arranges keys records arranged) ∧
    ∀ (key : OrderKey) (keys : List OrderKey) (records : List Json),
      let lacking := records.filter (SortKey.ofOrderKey key).lacks
      let others := records.filter fun record => !(SortKey.ofOrderKey key).lacks record
      order (key :: keys) records =
        match key.direction with
        | .ascending => order (key :: keys) lacking ++ order (key :: keys) others
        | .descending => order (key :: keys) others ++ order (key :: keys) lacking := by
  refine ⟨?_, ?_, ?_⟩
  · intro keys a b c
    exact ⟨Std.ReflCmp.compare_self, Std.OrientedCmp.eq_swap, Std.TransCmp.isLE_trans⟩
  · intro keys records arranged
    constructor
    · rintro rfl
      exact arranges_order keys records
    · intro h
      exact h.unique (arranges_order keys records)
  · intro key keys records lacking others
    have hfirst := (ordered_order (key :: keys) records).first
    cases hdirection : key.direction with
    | ascending =>
      exact order_eq_append _ (hfirst.imp fun hab => SortKey.lacks_of_ascending hdirection hab)
    | descending =>
      have hothers := order_eq_append (fun record => !(SortKey.ofOrderKey key).lacks record)
        (hfirst.imp fun hab => by simpa using SortKey.lacks_of_descending hdirection hab)
      simpa only [Bool.not_not] using hothers

/-- A number comes before a text, null comes first, and in the other direction it comes last. -/
theorem order_stable_null :
    let missing : Json := .object [("a", .null)]
    let one : Json := .object [("a", .ofNat 1)]
    let text : Json := .object [("a", .string "x")]
    let ascending : OrderKey := ⟨"a", .ascending⟩
    let descending : OrderKey := ⟨"a", .descending⟩
    (compareRecords [.ofOrderKey ascending] missing one).isLE = true ∧
      (compareRecords [.ofOrderKey ascending] one text).isLE = true ∧
      (compareRecords [.ofOrderKey ascending] missing text).isLE = true ∧
      order [ascending] [text, missing] = [missing, text] ∧
      order [descending] [missing, one] = [one, missing] := by
  intro missing one text ascending descending
  obtain ⟨hpreorder, -, hmissing⟩ := order_stable
  have hsingle (key : OrderKey) (record : Json) : order [key] [record] = [record] := by
    rw [order_eq, List.mergeSort_singleton]
  have htext : (SortKey.ofOrderKey ascending).lacks text = false := by decide +kernel
  have hone : (SortKey.ofOrderKey descending).lacks one = false := by decide +kernel
  have hfirst : (SortKey.ofOrderKey ascending).lacks missing = true := by decide +kernel
  have hlast : (SortKey.ofOrderKey descending).lacks missing = true := by decide +kernel
  have hmissingOne : (compareRecords [.ofOrderKey ascending] missing one).isLE = true := by
    decide +kernel
  have honeText : (compareRecords [.ofOrderKey ascending] one text).isLE = true := by
    decide +kernel
  refine ⟨hmissingOne, honeText, (hpreorder _ missing one text).2.2 hmissingOne honeText, ?_, ?_⟩
  · rw [hmissing ascending [] [text, missing]]
    simp only [List.filter_cons, List.filter_nil, htext, hfirst, Bool.not_true, Bool.not_false,
      if_true, Bool.false_eq_true, if_false]
    exact congrArg₂ (· ++ ·) (hsingle ascending missing) (hsingle ascending text)
  · rw [hmissing descending [] [missing, one]]
    simp only [List.filter_cons, List.filter_nil, hone, hlast, Bool.not_true, Bool.not_false,
      if_true, Bool.false_eq_true, if_false]
    exact congrArg₂ (· ++ ·) (hsingle descending one) (hsingle descending missing)

end OData.Collection

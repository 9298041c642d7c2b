import OData.Collection.Order

/-!
# Records in order

The order of values first looks at their kinds, and then at the truth value, the
place or the text of two values of one kind (`compareValues_eq`).  So it is
transitive and turns around with its sides, and so is the order of records by
any keys.

Putting records in order gives records in order, and leaves records that are in
order already as they are.  A part of records in order is in order, and so are
the records with other members, if the keys lead to the same values in them.
-/

namespace OData.Collection

open OData.Filter (PropertyPath)

/-! ## Values -/

/-- The truth value of a value, and false for all that are none. -/
def flagOf : Json → Bool
  | .bool b => b
  | _ => false

/-- The place of a number in the total order, and zero for all that are none. -/
def placeOf : Json → Int
  | .number n => n.value.totalPlace
  | _ => 0

/-- The text of a string, and the empty text for all that are none. -/
def textOf : Json → String
  | .string s => s
  | _ => ""

/-- Values are in the order of their kinds, and those of one kind in the order of what they hold. -/
theorem compareValues_eq : compareValues =
    compareLex (compareOn rank)
      (compareLex (compareOn flagOf) (compareLex (compareOn placeOf) (compareOn textOf))) := by
  funext v w
  cases v <;> cases w
  -- Values of different kinds differ in the first place already.
  case bool.bool | number.number | string.string =>
    simp [compareValues, compareLex, compareOn, rank, flagOf, placeOf, textOf,
      Binary64.totalCompare]
  all_goals rfl

instance : Ord Json := ⟨compareValues⟩

instance : Std.TransOrd Json := by
  have hcompare : (compare : Json → Json → Ordering) = compareValues := rfl
  rw [Std.TransOrd, hcompare, compareValues_eq]
  infer_instance

/-- A missing value comes before the others. -/
theorem compareOptions_eq (v w : Option Json) : compareOptions v w = compare v w := by
  cases v <;> cases w <;> rfl

/-! ## Records -/

/-- One key compares the values of two records, in its direction. -/
theorem SortKey.compare_eq (key : SortKey) : key.compare =
    match key.direction with
    | .ascending => compareOn key.value?
    | .descending => fun a b => compareOn key.value? b a := by
  obtain ⟨path, direction⟩ := key
  funext a b
  cases direction with
  | ascending => exact compareOptions_eq _ _
  | descending =>
    simp only [compare, Direction.apply, compareOptions_eq, compareOn]
    exact Std.OrientedOrd.eq_swap.symm

instance (key : SortKey) : Std.TransCmp key.compare := by
  rw [key.compare_eq]
  cases key.direction <;> infer_instance

instance (keys : List SortKey) : Std.TransCmp (compareRecords keys) := by
  induction keys with
  | nil => exact { eq_swap := rfl, isLE_trans := fun _ _ => rfl }
  | cons key keys _ =>
    exact inferInstanceAs (Std.TransCmp (compareLex key.compare (compareRecords keys)))

/-- Two records compare as two others with the same values to order by. -/
theorem compareRecords_congr {keys : List SortKey} {a b a' b' : Json}
    (ha : ∀ key ∈ keys, key.value? a = key.value? a')
    (hb : ∀ key ∈ keys, key.value? b = key.value? b') :
    compareRecords keys a b = compareRecords keys a' b' := by
  induction keys with
  | nil => rfl
  | cons key keys ih =>
    rw [List.forall_mem_cons] at ha hb
    rw [compareRecords, compareRecords, SortKey.compare, SortKey.compare, ha.1, hb.1, ih ha.2 hb.2]

/-- Records compare as before after a change that keeps the values to order by. -/
theorem compareRecords_change {keys : List OrderKey} {change : Json → Json}
    (h : ∀ key ∈ keys, ∀ record, (PropertyPath.ofText key.field).resolve (change record) =
      (PropertyPath.ofText key.field).resolve record) (a b : Json) :
    compareRecords (keys.map SortKey.ofOrderKey) (change a) (change b) =
      compareRecords (keys.map SortKey.ofOrderKey) a b := by
  have hvalue (record : Json) : ∀ key ∈ keys.map SortKey.ofOrderKey,
      key.value? (change record) = key.value? record := by
    rw [List.forall_mem_map]
    intro key hkey
    rw [SortKey.value?, SortKey.value?, SortKey.ofOrderKey, h key hkey]
  exact compareRecords_congr (hvalue a) (hvalue b)

/-- Of two records one is not after the other. -/
theorem isLE_compareRecords_total (keys : List SortKey) (a b : Json) :
    ((compareRecords keys a b).isLE || (compareRecords keys b a).isLE) = true := by
  have hswap : compareRecords keys b a = (compareRecords keys a b).swap := Std.OrientedCmp.eq_swap
  rw [hswap]
  cases compareRecords keys a b <;> rfl

/-! ## Lists of records -/

/-- No record comes before one that is less. -/
def Ordered (keys : List OrderKey) (records : List Json) : Prop :=
  records.Pairwise fun a b => (compareRecords (keys.map SortKey.ofOrderKey) a b).isLE = true

theorem order_eq (keys : List OrderKey) (records : List Json) : order keys records =
    records.mergeSort fun a b => (compareRecords (keys.map SortKey.ofOrderKey) a b).isLE := by
  have hle (o : Ordering) : (o != .gt) = o.isLE := by cases o <;> rfl
  simp only [order, hle]

theorem order_perm (keys : List OrderKey) (records : List Json) :
    (order keys records).Perm records := List.mergeSort_perm records _

section Lists

variable {keys : List OrderKey} {records : List Json}

theorem ordered_order (keys : List OrderKey) (records : List Json) :
    Ordered keys (order keys records) := by
  rw [order_eq]
  exact List.pairwise_mergeSort (fun a b c => Std.TransCmp.isLE_trans)
    (isLE_compareRecords_total _) records

/-- Records in order stay as they are. -/
theorem order_of_ordered (h : Ordered keys records) : order keys records = records := by
  rw [order_eq]
  exact List.mergeSort_of_pairwise h

/-- Records in order are in the order of the first key. -/
theorem Ordered.first {key : OrderKey} (h : Ordered (key :: keys) records) :
    records.Pairwise fun a b => ((SortKey.ofOrderKey key).compare a b).isLE = true :=
  h.imp fun {a b} hab => by
    rw [List.map_cons, compareRecords, Ordering.isLE_then_iff_and] at hab
    exact hab.1

/-- A part of a list in order is in order. -/
theorem Ordered.sublist (h : Ordered keys records) {part : List Json}
    (hpart : part.Sublist records) : Ordered keys part :=
  List.Pairwise.sublist hpart h

/-- Records in order are in order after a change that keeps the values to order by. -/
theorem Ordered.map (h : Ordered keys records) {change : Json → Json}
    (hchange : ∀ key ∈ keys, ∀ record,
      (PropertyPath.ofText key.field).resolve (change record) =
        (PropertyPath.ofText key.field).resolve record) :
    Ordered keys (records.map change) := by
  refine List.pairwise_map.2 (h.imp fun {a b} hab => ?_)
  rwa [compareRecords_change hchange]

end Lists

end OData.Collection

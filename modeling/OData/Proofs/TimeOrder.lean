import OData.Collection.Order
import OData.Filter.Builtin
import OData.Proofs.DayNumbers
import OData.Proofs.Ordering
import OData.Proofs.TimestampText

/-!
# Timestamps and the order of time

A timestamp with a year of four digits stands for the instant it was written for,
cut to milliseconds (`read?_toText_isCut`).  Its parts have fixed widths and come
from the greatest to the smallest, so the order of timestamps as texts is the
order of their parts as numbers, and that is the order of time
(`compare_toText`).  A leap second has no minute of its own: it is the sixtieth
second of a minute, later than the fifty-ninth and earlier than the next minute.
This is so for all instants on the clock, and these are all that reading gives
(`onClock_of_read?`): a leap second within a minute has the text of the second
that follows it.
-/

namespace OData

/-! ## Cutting to milliseconds -/

namespace Instant

/-- The latest instant of whole milliseconds that is not after another. -/
structure IsCut (u t : Instant) : Prop where
  /-- It is one of whole milliseconds. -/
  whole : u.nanos % 1000000 = 0
  /-- It is not after the other. -/
  notAfter : (u.compare t).isLE = true
  /-- No instant of whole milliseconds lies between the two. -/
  latest : ∀ v : Instant, v.nanos % 1000000 = 0 → (v.compare t).isLE = true →
    (v.compare u).isLE = true

theorem unixSeconds_cutToMillis (t : Instant) : t.cutToMillis.unixSeconds = t.unixSeconds := rfl

theorem isCut_cutToMillis (t : Instant) : t.cutToMillis.IsCut t where
  whole := Nat.mul_mod_left _ _
  notAfter := by
    rw [compare_eq, unixSeconds_cutToMillis, Int.compare_eq_eq.2 rfl, Ordering.eq_then,
      Nat.isLE_compare]
    exact Nat.div_mul_le_self _ _
  latest v hv h := by
    rw [compare_eq, Ordering.isLE_then_iff_or, Nat.isLE_compare] at h
    rw [compare_eq, Ordering.isLE_then_iff_or, Nat.isLE_compare, unixSeconds_cutToMillis]
    refine h.imp_right fun ⟨hseconds, hnanos⟩ => ⟨hseconds, ?_⟩
    have hcut : t.cutToMillis.nanos = t.nanos / 1000000 * 1000000 := rfl
    omega

theorem compare_cutNanos (a b : Instant) : compare a.cutToMillis.nanos b.cutToMillis.nanos =
    compare (a.nanos / 1000000) (b.nanos / 1000000) := by
  have hscale : StrictMono fun n : Nat => n * 1000000 := fun _ _ h =>
    Nat.mul_lt_mul_of_pos_right h (Nat.succ_pos _)
  exact compare_map hscale _ _

/-- Outside of leap seconds the instant is the one of so many whole milliseconds. -/
theorem ofUnixMillis?_cutToMillis {t : Instant} (h : t.nanos < 1000000000) :
    ofUnixMillis? (t.unixSeconds * 1000 + t.nanos / 1000000) = some t.cutToMillis := by
  have hsecond := t.second_lt
  have hday : (t.unixSeconds * 1000 + t.nanos / 1000000) / 86400000 = t.date.dayNumber := by
    rw [unixSeconds]
    omega
  have hrest : ((t.unixSeconds * 1000 + t.nanos / 1000000) % 86400000).toNat =
      t.second * 1000 + t.nanos / 1000000 := by
    rw [unixSeconds]
    omega
  have hparts : (t.second * 1000 + t.nanos / 1000000) / 1000 = t.second ∧
      (t.second * 1000 + t.nanos / 1000000) % 1000 = t.nanos / 1000000 := by omega
  simp only [ofUnixMillis?, hday, hrest, hparts, Date.ofDayNumber?_dayNumber,
    Option.bind_eq_bind, Option.bind_some]
  exact of?_self t.cutToMillis

end Instant

namespace Timestamp

open Decimal

/-- The year has four digits and no sign. -/
def HasPlainYear (t : Instant) : Prop := 0 ≤ t.date.year ∧ t.date.year ≤ 9999

instance : DecidablePred HasPlainYear := fun _ => inferInstanceAs (Decidable (_ ∧ _))

/-- The text of what a timestamp shows is that timestamp. -/
theorem write_shown (t : Instant) : write t.shown = write t := by
  have hwrite {u : Instant} (hdate : u.date = t.date) (hclock : clock u ['Z'] = clock t ['Z']) :
      write u = write t := by
    rw [write_eq, write_eq, hdate, hclock]
  by_cases h : t.OnClock
  · rw [Instant.shown_of_onClock h]
    have hleap : t.nanos / 1000000 * 1000000 / 1000000000 = t.nanos / 1000000000 := by omega
    have hmillis : t.nanos / 1000000 * 1000000 % 1000000000 / 1000000 =
        t.nanos % 1000000000 / 1000000 := by omega
    have hnanos : t.cutToMillis.nanos = t.nanos / 1000000 * 1000000 := rfl
    refine hwrite rfl ?_
    rw [clock, clock, hnanos, hleap, hmillis]
    rfl
  · obtain ⟨hge, hsecond, -⟩ := Instant.succ_lt_of_not_onClock h
    have hn := t.nanos_lt
    have hparts : t.shown.date = t.date ∧ t.shown.second = t.second + 1 ∧
        t.shown.nanos = (t.nanos - 1000000000) / 1000000 * 1000000 := by
      rw [Instant.shown, dif_neg h]
      exact ⟨rfl, rfl, rfl⟩
    have hminute : (t.second + 1) / 60 = t.second / 60 ∧
        (t.second + 1) % 60 = t.second % 60 + 1 := by
      rw [Instant.secondOfMinute] at hsecond
      omega
    have hhour : (t.second + 1) / 3600 = t.second / 3600 := by omega
    have hleap : t.nanos / 1000000000 = 1 := by omega
    have hzero : (t.nanos - 1000000000) / 1000000 * 1000000 / 1000000000 = 0 := by omega
    have hmillis : (t.nanos - 1000000000) / 1000000 * 1000000 % 1000000000 / 1000000 =
        t.nanos % 1000000000 / 1000000 := by omega
    refine hwrite hparts.1 ?_
    simp only [clock, Instant.hour, Instant.minute, Instant.secondOfMinute, hparts.2.1, hparts.2.2,
      hminute, hhour, hleap, hzero, hmillis, Nat.add_zero]

/-- A timestamp reads back as its instant cut to milliseconds if this is on the clock, and always as an
instant that has the same timestamp. -/
theorem read?_toText_isCut {t : Instant} (h : HasPlainYear t) :
    ∃ u : Instant, read? (toText t).toList = some u ∧ (t.OnClock → u.IsCut t) ∧
      toText u = toText t ∧
      (t.nanos < 1000000000 →
        Instant.ofUnixMillis? (t.unixSeconds * 1000 + t.nanos / 1000000) = some u) := by
  refine ⟨t.shown, ?_, fun hclock => ?_, ?_, fun hnanos => ?_⟩
  · rw [toText, String.toList_ofList, read?_write]
    exact if_pos h
  · rw [Instant.shown_of_onClock hclock]
    exact t.isCut_cutToMillis
  · rw [toText, toText, write_shown]
  · rw [Instant.shown_of_onClock (Instant.onClock_of_nanos_lt hnanos)]
    exact Instant.ofUnixMillis?_cutToMillis hnanos

/-- The last moments of a leap second, and of the leap day of year zero. -/
theorem read?_toText_isCut_leap :
    let leap : Instant :=
      ⟨⟨2016, 12, 31, by decide, by decide, by decide⟩, 86399, 1999999999, by decide, by decide⟩
    let early : Instant :=
      ⟨⟨0, 2, 29, by decide, by decide, by decide⟩, 86399, 999999999, by decide, by decide⟩
    (HasPlainYear leap ∧ leap.OnClock ∧
      ∃ u : Instant, read? "2016-12-31T23:59:60.999Z".toList = some u ∧ u.IsCut leap) ∧
    HasPlainYear early ∧ early.nanos < 1000000000 ∧
      ∃ u : Instant, read? "0000-02-29T23:59:59.999Z".toList = some u ∧ u.IsCut early ∧
        Instant.ofUnixMillis? (-62162035200001) = some u := by
  intro leap early
  have hleap : HasPlainYear leap := by decide
  have hclock : leap.OnClock := by decide
  have hearly : HasPlainYear early := by decide
  have hnanos : early.nanos < 1000000000 := by decide
  have htext : toText leap = "2016-12-31T23:59:60.999Z" := by decide +kernel
  have htext' : toText early = "0000-02-29T23:59:59.999Z" := by decide +kernel
  obtain ⟨u, hread, hcut, -⟩ := read?_toText_isCut hleap
  obtain ⟨v, hread', hcut', -, hmillis⟩ := read?_toText_isCut hearly
  rw [htext] at hread
  rw [htext'] at hread'
  have hcount : early.unixSeconds * 1000 + early.nanos / 1000000 = -62162035200001 := by
    decide +kernel
  rw [hcount] at hmillis
  exact ⟨⟨hleap, hclock, u, hread, hcut hclock⟩, hearly, hnanos, v, hread',
    hcut' (Instant.onClock_of_nanos_lt hnanos), hmillis hnanos⟩

/-! ## Numbers of one width -/

section Parts

variable {width m n : Nat} (hpos : 0 < width) (hm : m < 10 ^ width) (hn : n < 10 ^ width)
include hpos hm hn

theorem length_padded_eq : (padded width m).length = (padded width n).length := by
  rw [length_padded hpos hm, length_padded hpos hn]

/-- Numbers of one width are in their order as texts. -/
theorem compare_padded : compare (padded width m) (padded width n) = compare m n := by
  rw [compare_digitsValue (length_padded_eq hpos hm hn) (fun _ => isDigit_of_mem_padded)
    fun _ => isDigit_of_mem_padded, digitsValue_padded, digitsValue_padded]

/-- A part of one width comes before what follows it. -/
theorem compare_part (c : Char) (xs ys : List Char) :
    compare (padded width m ++ c :: xs) (padded width n ++ c :: ys) =
      (compare m n).then (compare xs ys) := by
  rw [compare_append (length_padded_eq hpos hm hn), compare_padded hpos hm hn,
    List.compare_cons_cons, Std.compare_self, Ordering.eq_then]

end Parts

/-! ## The time of day -/

/-- The digits of the time of day, read as one number. -/
def clockNumber (t : Instant) : Nat :=
  ((t.hour * 100 + t.minute) * 100 + (t.secondOfMinute + t.nanos / 1000000000)) * 1000 +
    t.nanos % 1000000000 / 1000000

theorem compare_clock (a b : Instant) :
    compare (clock a ['Z']) (clock b ['Z']) = compare (clockNumber a) (clockNumber b) := by
  have hhour (t : Instant) : t.hour < 10 ^ 2 := Nat.lt_trans t.hour_lt (by decide)
  have hminute (t : Instant) : t.minute < 10 ^ 2 := Nat.lt_trans t.minute_lt (by decide)
  have hclock : compare (clock a ['Z']) (clock b ['Z']) =
      (compare a.hour b.hour).then ((compare a.minute b.minute).then
        ((compare (a.secondOfMinute + a.nanos / 1000000000)
          (b.secondOfMinute + b.nanos / 1000000000)).then
          (compare (a.nanos % 1000000000 / 1000000) (b.nanos % 1000000000 / 1000000)))) := by
    rw [clock, clock, compare_part Nat.two_pos (hhour a) (hhour b),
      compare_part Nat.two_pos (hminute a) (hminute b),
      compare_part Nat.two_pos (writtenSecond_lt a) (writtenSecond_lt b),
      compare_part (Nat.succ_pos 2) (millis_lt a) (millis_lt b), Std.compare_self, Ordering.then_eq]
  rw [hclock, clockNumber, clockNumber,
    compare_mul_add_nat (k := 1000) _ _ (millis_lt a) (millis_lt b),
    compare_mul_add_nat (k := 100) _ _ (writtenSecond_lt a) (writtenSecond_lt b),
    compare_mul_add_nat (k := 100) _ _ (hminute a) (hminute b), Ordering.then_assoc,
    Ordering.then_assoc]

/-- The milliseconds of a leap second are counted on from the second before it. -/
theorem clockNumber_eq (t : Instant) : clockNumber t =
    t.hour * 10000000 + t.minute * 100000 + t.secondOfMinute * 1000 + t.nanos / 1000000 := by
  rw [clockNumber]
  omega

theorem clockNumber_lt {a b : Instant} (ha : a.OnClock) (h : a.second < b.second) :
    clockNumber a < clockNumber b := by
  have hminute := a.minute_lt
  have hminute' := b.minute_lt
  have hsecond := a.secondOfMinute_lt
  have hsecond' := b.secondOfMinute_lt
  have hparts : a.hour < b.hour ∨ a.hour = b.hour ∧ (a.minute < b.minute ∨
      a.minute = b.minute ∧ a.secondOfMinute < b.secondOfMinute) := by
    have ha := a.second_eq
    have hb := b.second_eq
    omega
  -- Only the last second of a minute has a second thousand of milliseconds.
  have hleap : 1000000000 ≤ a.nanos → a.secondOfMinute = 59 := ha
  have hnanos := a.nanos_lt
  rw [clockNumber_eq, clockNumber_eq]
  rcases hparts with hhour | ⟨hhour, hminute | ⟨hminute, hsecond⟩⟩ <;> omega

/-- The digits of the time of day are in the order of time. -/
theorem compare_clockNumber {a b : Instant} (ha : a.OnClock) (hb : b.OnClock) :
    compare (clockNumber a) (clockNumber b) =
      (compare a.second b.second).then (compare (a.nanos / 1000000) (b.nanos / 1000000)) := by
  rcases Nat.lt_trichotomy a.second b.second with h | h | h
  · rw [Nat.compare_eq_lt.2 h, Nat.compare_eq_lt.2 (clockNumber_lt ha h)]
    rfl
  · have hgrows : StrictMono fun n : Nat =>
        b.hour * 10000000 + b.minute * 100000 + b.secondOfMinute * 1000 + n :=
      fun _ _ h => Nat.add_lt_add_left h _
    rw [Nat.compare_eq_eq.2 h, Ordering.eq_then, clockNumber_eq, clockNumber_eq, Instant.hour,
      Instant.minute, Instant.secondOfMinute, h]
    exact compare_map hgrows _ _
  · rw [Nat.compare_eq_gt.2 h, Nat.compare_eq_gt.2 (clockNumber_lt hb h)]
    rfl

/-! ## The order of timestamps -/

/-- The instants that timestamps stand for: the year has four digits and no sign, and a clock shows the
time. -/
def IsPlain (t : Instant) : Prop := HasPlainYear t ∧ t.OnClock

instance : DecidablePred IsPlain := fun _ => inferInstanceAs (Decidable (_ ∧ _))

/-- Timestamps are in the order of their instants, cut to milliseconds. -/
theorem compare_write {a b : Instant} (ha : IsPlain a) (hb : IsPlain b) :
    compare (write a) (write b) = a.cutToMillis.compare b.cutToMillis := by
  have hyear {t : Instant} (h : HasPlainYear t) :
      writeYear t.date.year = padded 4 t.date.year.toNat ∧ t.date.year.toNat < 10 ^ 4 ∧
        (t.date.year.toNat : Int) = t.date.year := by
    obtain ⟨hle, hge⟩ := h
    have hnat : t.date.year.natAbs = t.date.year.toNat := by omega
    refine ⟨?_, by omega, Int.toNat_of_nonneg hle⟩
    simp only [writeYear, hnat]
    rw [if_neg (by omega), if_neg (by omega)]
  obtain ⟨hwrite, hlt, hcast⟩ := hyear ha.1
  obtain ⟨hwrite', hlt', hcast'⟩ := hyear hb.1
  rw [write_eq, write_eq, hwrite, hwrite', compare_part (Nat.succ_pos 3) hlt hlt',
    compare_part Nat.two_pos (month_lt a.date) (month_lt b.date),
    compare_part Nat.two_pos (day_lt a.date) (day_lt b.date), compare_clock,
    compare_clockNumber ha.2 hb.2,
    ← compare_natCast a.date.year.toNat, hcast, hcast', Instant.compare, Instant.compare_cutNanos,
    Date.compare, Ordering.then_assoc, Ordering.then_assoc]
  rfl

/-- Timestamps are in the order of time as strings. -/
theorem compare_toText {a b : Instant} (ha : IsPlain a) (hb : IsPlain b) :
    compare (toText a) (toText b) = a.cutToMillis.compare b.cutToMillis := by
  rw [toText, toText, compare_ofList, compare_write ha hb]

end Timestamp

/-! ## Timestamps in filters and orders -/

namespace Filter

open Timestamp (IsPlain toText)

/-- A comparison says the same of pairs that have the same order. -/
theorem Comparison.holds_congr {a b c d : Operand} (hab : Comparable a b) (hcd : Comparable c d)
    (h : naturalOrder? a b = naturalOrder? c d) (op : Comparison) : op.holds a b = op.holds c d := by
  cases op <;> simp only [holds, equal_of_comparable hab, equal_of_comparable hcd, h]

/-- Comparing timestamps compares their instants. -/
theorem Comparison.holds_timestamps {a b : Instant} (ha : IsPlain a) (hb : IsPlain b)
    (op : Comparison) : op.holds (.string (toText a)) (.string (toText b)) =
      op.holds (.instant a.cutToMillis) (.instant b.cutToMillis) := by
  refine holds_congr (.strings _ _) (.instants _ _) ?_ op
  rw [naturalOrder?, naturalOrder?, Timestamp.compare_toText ha hb]

/-- The instant of the least timestamp. -/
def leastInstant : Instant := .midnight ⟨1, 1, 1, by decide, by decide, by decide⟩

/-- The instant of the greatest timestamp. -/
def greatestInstant : Instant where
  date := ⟨9999, 12, 31, by decide, by decide, by decide⟩
  second := 86399
  nanos := 999000000
  second_lt := by decide
  nanos_lt := by decide

/-- The functions that give a timestamp, and its instant, at some time. -/
inductive GivesTimestamp (time : Instant) : Function → Instant → Prop
  /-- The time itself. -/
  | now : GivesTimestamp time (Builtin.now time) time
  /-- The least timestamp. -/
  | least : GivesTimestamp time Builtin.mindatetime leastInstant
  /-- The greatest timestamp. -/
  | greatest : GivesTimestamp time Builtin.maxdatetime greatestInstant

variable {time t : Instant} {f : Function}

theorem GivesTimestamp.eq_toText (h : GivesTimestamp time f t) (args : List Operand) :
    f args = .string (toText t) := by
  cases h with
  | now => rfl
  | least =>
    have hleast : toText leastInstant = Timestamp.least := by decide +kernel
    rw [hleast]
    rfl
  | greatest =>
    have hgreatest : toText greatestInstant = Timestamp.greatest := by decide +kernel
    rw [hgreatest]
    rfl

theorem GivesTimestamp.isPlain (h : GivesTimestamp time f t) (htime : IsPlain time) :
    IsPlain t := by
  cases h with
  | now => exact htime
  | least => decide
  | greatest => decide

end Filter

namespace Collection

open OData.Filter (Comparison GivesTimestamp Operand PropertyPath)
open Timestamp (IsPlain toText)

/-- Records with timestamps at the first key are put in the order of time, in its direction. -/
theorem pairwise_order_timestamps {key : OrderKey} {keys : List OrderKey} {records : List Json}
    {moment : Json → Instant}
    (h : ∀ r ∈ records, IsPlain (moment r) ∧
      (PropertyPath.ofText key.field).resolve r = some (.string (toText (moment r)))) :
    (order (key :: keys) records).Pairwise fun r s =>
      (key.direction.apply ((moment r).cutToMillis.compare (moment s).cutToMillis)).isLE = true := by
  have hat {r : Json} (hr : r ∈ order (key :: keys) records) : IsPlain (moment r) ∧
      (SortKey.ofOrderKey key).value? r = some (.string (toText (moment r))) := by
    obtain ⟨hplain, hvalue⟩ := h r ((order_perm _ _).mem_iff.1 hr)
    have hpath : (SortKey.ofOrderKey key).path = PropertyPath.ofText key.field := rfl
    rw [SortKey.value?, hpath, hvalue]
    exact ⟨hplain, rfl⟩
  refine (ordered_order (key :: keys) records).first.imp_of_mem fun {r s} hr hs hrs => ?_
  obtain ⟨hplain, hvalue⟩ := hat hr
  obtain ⟨hplain', hvalue'⟩ := hat hs
  rw [SortKey.compare, hvalue, hvalue'] at hrs
  rw [← Timestamp.compare_toText hplain hplain']
  exact hrs

/-- Comparing timestamps as strings is comparing their instants in time, in filters and in orders, for
all instants on the clock in years of four digits and for the functions that give timestamps. -/
theorem timestamps_in_order_of_time {time : Instant} (htime : IsPlain time) :
    (∀ a b : Instant, IsPlain a → IsPlain b →
      compare (toText a) (toText b) = a.cutToMillis.compare b.cutToMillis ∧
      a.cutToMillis.compare b.cutToMillis = (compare a.unixSeconds b.unixSeconds).then
        (compare (a.nanos / 1000000) (b.nanos / 1000000)) ∧
      compareValues (.string (toText a)) (.string (toText b)) =
        a.cutToMillis.compare b.cutToMillis ∧
      ∀ op : Comparison, op.holds (.string (toText a)) (.string (toText b)) =
        op.holds (.instant a.cutToMillis) (.instant b.cutToMillis)) ∧
    (∀ (key : OrderKey) (keys : List OrderKey) (records : List Json) (moment : Json → Instant),
      (∀ r ∈ records, IsPlain (moment r) ∧
        (PropertyPath.ofText key.field).resolve r = some (.string (toText (moment r)))) →
      (order (key :: keys) records).Pairwise fun r s =>
        (key.direction.apply
          ((moment r).cutToMillis.compare (moment s).cutToMillis)).isLE = true) ∧
    ∀ f t, GivesTimestamp time f t → ∀ (args : List Operand) (b : Instant), IsPlain b →
      ∀ op : Comparison,
        op.holds (f args) (.string (toText b)) =
          op.holds (.instant t.cutToMillis) (.instant b.cutToMillis) ∧
        op.holds (.string (toText b)) (f args) =
          op.holds (.instant b.cutToMillis) (.instant t.cutToMillis) := by
  refine ⟨fun a b ha hb => ⟨Timestamp.compare_toText ha hb, ?_, Timestamp.compare_toText ha hb,
    Comparison.holds_timestamps ha hb⟩, fun key keys records moment => pairwise_order_timestamps,
    fun f t hf args b hb op => ?_⟩
  · rw [Instant.compare_eq, Instant.compare_cutNanos]
    rfl
  · have ht := hf.isPlain htime
    rw [hf.eq_toText]
    exact ⟨Comparison.holds_timestamps ht hb op, Comparison.holds_timestamps hb ht op⟩

/-- A leap second comes before the minute that follows it. -/
theorem timestamps_in_order_of_time_leap :
    let leap : Instant :=
      ⟨⟨2016, 12, 31, by decide, by decide, by decide⟩, 86399, 1500000000, by decide, by decide⟩
    let next : Instant := .midnight ⟨2017, 1, 1, by decide, by decide, by decide⟩
    let key : OrderKey := ⟨"at", .ascending⟩
    let record (t : Instant) : Json := .object [("at", .string (toText t))]
    let moment (r : Json) : Instant := if r.equal (record leap) then leap else next
    (IsPlain leap ∧ IsPlain next) ∧
      compare (toText leap) (toText next) = .lt ∧
      Comparison.lt.holds (.string (toText leap)) (.string (toText next)) = true ∧
      Comparison.gt.holds (.string (toText leap)) (Filter.Builtin.mindatetime []) = true ∧
      (∀ r ∈ [record next, record leap], IsPlain (moment r) ∧
        (PropertyPath.ofText key.field).resolve r = some (.string (toText (moment r)))) ∧
      (order [key] [record next, record leap]).Pairwise fun r s =>
        (key.direction.apply ((moment r).cutToMillis.compare (moment s).cutToMillis)).isLE = true := by
  intro leap next key record moment
  have hleap : IsPlain leap := by decide
  have hnext : IsPlain next := by decide
  have hpath : PropertyPath.ofText key.field = ⟨["at"]⟩ := by decide +kernel
  have hresolve (t : Instant) :
      (PropertyPath.ofText key.field).resolve (record t) = some (.string (toText t)) := by
    rw [hpath]
    rfl
  have hrecords : ∀ r ∈ [record next, record leap], IsPlain (moment r) ∧
      (PropertyPath.ofText key.field).resolve r = some (.string (toText (moment r))) := by
    have hfirst : moment (record next) = next := if_neg (by decide +kernel)
    have hlast : moment (record leap) = leap := if_pos (by decide +kernel)
    simp only [List.forall_mem_cons, hfirst, hlast]
    exact ⟨⟨hnext, hresolve next⟩, ⟨hleap, hresolve leap⟩, nofun⟩
  obtain ⟨htimes, horders, hfunctions⟩ := timestamps_in_order_of_time hleap
  obtain ⟨htext, -, -, hholds⟩ := htimes leap next hleap hnext
  refine ⟨⟨hleap, hnext⟩, ?_, ?_, ?_, hrecords, horders key [] _ moment hrecords⟩
  · rw [htext]
    decide +kernel
  · rw [hholds]
    decide +kernel
  · rw [(hfunctions _ _ .least [] leap hleap .gt).2]
    decide +kernel

end Collection

end OData

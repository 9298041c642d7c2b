import OData.Calendar.Timestamp
import OData.Proofs.Cutting
import OData.Proofs.Digits

/-!
# Timestamps read back

A timestamp that is written reads back as the instant that it shows, if its year
has four digits, and else as nothing at all (`read?_write`).  That instant is the
first one with its nanoseconds cut to milliseconds, unless this was in a leap
second that no clock shows (`Instant.shown`).  A year with a sign is read only by
the forms without an offset, and these do not know the `Z` at the end.

Whatever text an instant is read from, a clock shows it (`onClock_of_read?`).
-/

namespace OData

/-! ## Whole milliseconds -/

namespace Instant

/-- The instant with its nanoseconds cut to milliseconds. -/
def cutToMillis (t : Instant) : Instant where
  date := t.date
  second := t.second
  nanos := t.nanos / 1000000 * 1000000
  second_lt := t.second_lt
  nanos_lt := Nat.lt_of_le_of_lt (Nat.div_mul_le_self _ _) t.nanos_lt

/-- Nothing is cut from an instant of whole milliseconds. -/
theorem cutToMillis_eq_self_iff {t : Instant} :
    t.cutToMillis = t ↔ t.nanos % 1000000 = 0 := by
  obtain ⟨date, second, nanos, hs, hn⟩ := t
  simp only [cutToMillis, Instant.mk.injEq, true_and]
  omega

theorem of?_self (t : Instant) : of? t.date t.second t.nanos = some t := by
  simp only [of?, dif_pos t.second_lt, dif_pos t.nanos_lt]

theorem hour_lt (t : Instant) : t.hour < 24 :=
  Nat.div_lt_of_lt_mul t.second_lt

theorem minute_lt (t : Instant) : t.minute < 60 := Nat.mod_lt _ (by decide)

theorem secondOfMinute_lt (t : Instant) : t.secondOfMinute < 60 := Nat.mod_lt _ (by decide)

theorem second_eq (t : Instant) : t.hour * 3600 + t.minute * 60 + t.secondOfMinute = t.second := by
  simp only [hour, minute, secondOfMinute]
  omega

theorem onClock_of_nanos_lt {t : Instant} (h : t.nanos < 1000000000) : t.OnClock :=
  fun hge => absurd hge (Nat.not_le.2 h)

/-- A leap second that no clock shows is in a minute that has another second. -/
theorem succ_lt_of_not_onClock {t : Instant} (h : ¬ t.OnClock) :
    1000000000 ≤ t.nanos ∧ t.secondOfMinute + 1 < 60 ∧ t.second + 1 < 86400 := by
  obtain ⟨hge, hne⟩ := Classical.not_imp.1 h
  have hs := t.second_lt
  rw [secondOfMinute]
  omega

/-- The instant that a timestamp shows: cut to milliseconds, and in the next second of the minute if it is in
a leap second that no clock shows. -/
def shown (t : Instant) : Instant :=
  if h : t.OnClock then t.cutToMillis
  else
    { date := t.date
      second := t.second + 1
      nanos := (t.nanos - 1000000000) / 1000000 * 1000000
      second_lt := (succ_lt_of_not_onClock h).2.2
      nanos_lt := Nat.lt_of_le_of_lt (Nat.div_mul_le_self _ _)
        (Nat.lt_of_le_of_lt (Nat.sub_le _ _) t.nanos_lt) }

theorem shown_of_onClock {t : Instant} (h : t.OnClock) : t.shown = t.cutToMillis := dif_pos h

/-- A timestamp shows just the instants of whole milliseconds that are on the clock. -/
theorem shown_eq_self_iff {t : Instant} : t.shown = t ↔ t.OnClock ∧ t.cutToMillis = t := by
  by_cases h : t.OnClock
  · rw [shown_of_onClock h, and_iff_right h]
  · have hne : t.shown ≠ t := by
      intro heq
      have hsecond : t.shown.second = t.second + 1 := by rw [shown, dif_neg h]
      rw [heq] at hsecond
      omega
    exact ⟨fun heq => absurd heq hne, fun hself => absurd hself.1 h⟩

/-- The parts that are written are in the range of a clock. -/
theorem atTime?_written (t : Instant) {count : Nat} (h : count ≤ 1) :
    atTime? t.date t.hour t.minute (t.secondOfMinute + count)
        (t.nanos % 1000000000 / 1000000 * 1000000) =
      if t.secondOfMinute + count = 60 then
        of? t.date (t.hour * 3600 + t.minute * 60 + 59)
          (t.nanos % 1000000000 / 1000000 * 1000000 + 1000000000)
      else of? t.date (t.second + count) (t.nanos % 1000000000 / 1000000 * 1000000) := by
  have hhour := t.hour_lt
  have hminute := t.minute_lt
  have hlt := t.secondOfMinute_lt
  have hnanos : t.nanos % 1000000000 / 1000000 * 1000000 ≤ 999999999 := by omega
  rw [atTime?, if_neg (by simp; omega), ← Nat.add_assoc, t.second_eq]

/-- The parts that are written make up the instant that is shown. -/
theorem atTime?_parts (t : Instant) :
    atTime? t.date t.hour t.minute (t.secondOfMinute + t.nanos / 1000000000)
      (t.nanos % 1000000000 / 1000000 * 1000000) = some t.shown := by
  have hn := t.nanos_lt
  by_cases hclock : t.OnClock
  · rw [shown_of_onClock hclock, ← of?_self t.cutToMillis]
    rcases Nat.lt_or_ge t.nanos 1000000000 with hless | hge
    · have hlt := t.secondOfMinute_lt
      rw [Nat.div_eq_of_lt hless, atTime?_written t (Nat.zero_le 1), if_neg (by omega),
        Nat.mod_eq_of_lt hless]
      rfl
    · have hcount : t.nanos / 1000000000 = 1 := by omega
      have hlast : t.secondOfMinute = 59 := hclock hge
      have hcut : t.nanos % 1000000000 / 1000000 * 1000000 + 1000000000 =
          t.nanos / 1000000 * 1000000 := by omega
      rw [hcount, atTime?_written t (Nat.le_refl 1), if_pos (by rw [hlast]), hcut, ← hlast,
        t.second_eq]
      rfl
  · obtain ⟨hge, hminute, -⟩ := succ_lt_of_not_onClock hclock
    have hcount : t.nanos / 1000000000 = 1 := by omega
    have hcut : t.nanos % 1000000000 = t.nanos - 1000000000 := by omega
    rw [hcount, atTime?_written t (Nat.le_refl 1), if_neg (by omega), hcut, ← of?_self t.shown,
      shown, dif_neg hclock]

theorem of?_parts {date : Date} {second nanos : Nat} {t : Instant}
    (h : of? date second nanos = some t) : t.second = second ∧ t.nanos = nanos := by
  rw [of?] at h
  split at h
  · split at h
    · cases h
      exact ⟨rfl, rfl⟩
    · cases h
  · cases h

/-- A clock shows every time of day. -/
theorem onClock_of_atTime? {date : Date} {hour minute second nanos : Nat} {t : Instant}
    (h : atTime? date hour minute second nanos = some t) : t.OnClock := by
  rw [atTime?] at h
  split at h
  · cases h
  · next hrange =>
    split at h
    · obtain ⟨hsecond, -⟩ := of?_parts h
      intro _
      omega
    · obtain ⟨-, hnanos⟩ := of?_parts h
      refine onClock_of_nanos_lt ?_
      simp only [Bool.or_eq_true, decide_eq_true_eq, not_or] at hrange
      omega

/-- Whole minutes of less than a day do not take an instant off the clock. -/
theorem onClock_of_earlier? {t u : Instant} {seconds : Int} (ht : t.OnClock)
    (hseconds : seconds % 60 = 0 ∧ seconds.natAbs < 86400) (h : t.earlier? seconds = some u) :
    u.OnClock := by
  have hlt := t.second_lt
  have hparts : u.second % 60 = t.second % 60 ∧ u.nanos = t.nanos := by
    simp only [earlier?] at h
    split at h
    · obtain ⟨date, -, h⟩ := Option.bind_eq_some_iff.1 h
      obtain ⟨hsecond, hnanos⟩ := of?_parts h
      omega
    · split at h
      · obtain ⟨date, -, h⟩ := Option.bind_eq_some_iff.1 h
        obtain ⟨hsecond, hnanos⟩ := of?_parts h
        omega
      · obtain ⟨hsecond, hnanos⟩ := of?_parts h
        omega
  rw [OnClock, hparts.1, hparts.2]
  exact ht

theorem earlier?_zero (t : Instant) : t.earlier? 0 = some t := by
  have hs := t.second_lt
  have hsecond : (t.second : Int).toNat = t.second := Int.toNat_natCast _
  simp only [earlier?, Int.sub_zero]
  rw [if_neg (by omega), if_neg (by omega), hsecond, of?_self]

end Instant

namespace Timestamp

open Decimal

/-! ## Numbers of a width -/

theorem isDigit_of_mem_padded {width n : Nat} {c : Char} (h : c ∈ padded width n) :
    c.isDigit = true := by
  rcases List.mem_append.1 h with h | h
  · exact isDigit_of_mem_zeros h
  · exact isDigit_of_mem_toDigits h

theorem digitsValue_padded (width n : Nat) : digitsValue (padded width n) = n := by
  rw [padded, digitsValue_zeros_append, digitsValue_toDigits]

theorem padded_ne_nil (width n : Nat) : padded width n ≠ [] := by
  rw [padded]
  exact List.append_ne_nil_of_right_ne_nil _ Nat.toDigits_ne_nil

/-- A number that fits has just its width. -/
theorem length_padded {width n : Nat} (hpos : 0 < width) (h : n < 10 ^ width) :
    (padded width n).length = width := by
  have hle : (Nat.toDigits 10 n).length ≤ width :=
    (Nat.length_toDigits_le_iff (by decide) hpos).2 h
  rw [padded, List.length_append, List.length_replicate]
  omega

/-! ## Scanning -/

section Scanning

variable {α β : Type} {cs rest : List Char}

/-- A reader that succeeded hands its value and its rest on. -/
theorem bind_eq {p : Scan α} {a : α} (h : p cs = some (a, rest)) (f : α → Scan β) :
    (p >>= f) cs = f a rest := by
  simp only [bind, StateT.bind, h, Option.bind_some]

theorem bind_eq_none {p : Scan α} (h : p cs = none) (f : α → Scan β) : (p >>= f) cs = none := by
  simp only [bind, StateT.bind, h, Option.bind_none]

theorem lift_eq {o : Option α} {a : α} (h : o = some a) (cs : List Char) :
    (liftM o : Scan α) cs = some (a, cs) := by
  subst h
  rfl

theorem mark_eq {allowed : List Char} {c : Char} (h : c ∈ allowed) :
    mark allowed (c :: rest) = some ((), rest) := by
  rw [mark, if_pos h]

theorem atEnd_cons (c : Char) : atEnd (c :: rest) = none := rfl

/-- A run of digits of the length asked for is read, if no digit or no further one may follow. -/
theorem digits_append {least most : Nat} {run : List Char}
    (hrun : ∀ c ∈ run, c.isDigit = true) (hleast : least ≤ run.length) (hmost : run.length ≤ most)
    (hrest : run.length = most ∨ Text.StopsRun Char.isDigit rest) :
    digits least most (run ++ rest) = some (digitsValue run, rest) := by
  have htake : ((run ++ rest).take most).takeWhile Char.isDigit = run := by
    rw [List.take_append, List.take_of_length_le hmost]
    refine Text.takeWhile_append hrun ?_
    rcases hrest with h | h
    · rw [h, Nat.sub_self, List.take_zero]
      exact Text.stopsRun_nil
    · cases rest with
      | nil => simp
      | cons c rest =>
        cases most - run.length with
        | zero => simp
        | succ k =>
          rw [List.take_succ_cons]
          exact Text.stopsRun_cons.2 (Text.stopsRun_cons.1 h)
  simp only [digits, htake]
  rw [if_neg (by omega), List.drop_left]

/-- No digit, no number. -/
theorem digits_eq_none {least most : Nat} (hleast : 0 < least)
    (hstop : Text.StopsRun Char.isDigit cs) : digits least most cs = none := by
  have hrun : (cs.take most).takeWhile Char.isDigit = [] := by
    cases cs with
    | nil => simp
    | cons c cs =>
      cases most with
      | zero => simp
      | succ most => simp [Text.stopsRun_cons.1 hstop]
  simp only [digits, hrun]
  exact if_pos hleast

/-- A number of some width is read as a number of that width. -/
theorem digits_padded {width n : Nat} (hpos : 0 < width) (h : n < 10 ^ width) :
    digits width width (padded width n ++ rest) = some (n, rest) := by
  have hlength := length_padded hpos h
  rw [digits_append (fun c hc => isDigit_of_mem_padded hc) (by omega) (by omega) (.inl hlength),
    digitsValue_padded]

end Scanning

/-! ## The parts of a timestamp -/

/-- The time of day as it is written, and what follows it. -/
def clock (t : Instant) (rest : List Char) : List Char :=
  padded 2 t.hour ++ ':' :: (padded 2 t.minute ++
    ':' :: (padded 2 (t.secondOfMinute + t.nanos / 1000000000) ++
      '.' :: (padded 3 (t.nanos % 1000000000 / 1000000) ++ rest)))

theorem write_eq (t : Instant) :
    write t = writeYear t.date.year ++ '-' :: (padded 2 t.date.month ++
      '-' :: (padded 2 t.date.day ++ 'T' :: clock t ['Z'])) := rfl

theorem month_lt (d : Date) : d.month < 10 ^ 2 := by
  have := d.month_mem.2
  omega

theorem day_lt (d : Date) : d.day < 10 ^ 2 := by
  have hday := d.day_mem.2
  have hmonth : daysInMonth d.year d.month ≤ 31 := by
    rw [daysInMonth]
    split
    · split <;> omega
    · split <;> omega
  omega

theorem writtenSecond_lt (t : Instant) :
    t.secondOfMinute + t.nanos / 1000000000 < 10 ^ 2 := by
  have hlt := t.secondOfMinute_lt
  have hn := t.nanos_lt
  omega

theorem millis_lt (t : Instant) : t.nanos % 1000000000 / 1000000 < 10 ^ 3 := by omega

/-- Three digits behind a point are milliseconds. -/
theorem fraction_millis {n : Nat} (h : n < 10 ^ 3) {c : Char} (hc : c.isDigit = false)
    (rest : List Char) :
    fraction ('.' :: (padded 3 n ++ c :: rest)) = some (n * 1000000, c :: rest) := by
  have hspan : (padded 3 n ++ c :: rest).span Char.isDigit = (padded 3 n, c :: rest) :=
    Text.span_append (fun d hd => isDigit_of_mem_padded hd) (Text.stopsRun_cons.2 hc)
  have hlength := length_padded (by decide) h
  have htake : (padded 3 n).take 9 = padded 3 n := List.take_of_length_le (by omega)
  simp only [fraction, hspan, htake, hlength, digitsValue_padded, List.isEmpty_iff,
    padded_ne_nil, if_false]

/-! ## Years of four digits -/

/-- The strict form reads what is written for a year of four digits. -/
theorem withOffset_write {t : Instant} (h : 0 ≤ t.date.year ∧ t.date.year ≤ 9999) :
    withOffset (write t) = some (t.shown, []) := by
  have hyear : writeYear t.date.year = padded 4 t.date.year.natAbs := by
    simp only [writeYear]
    rw [if_neg (by omega), if_neg (by omega)]
  have hcast : ((t.date.year.natAbs : Nat) : Int) = t.date.year := Int.natAbs_of_nonneg h.1
  have hhour := t.hour_lt
  have hminute := t.minute_lt
  rw [write_eq, hyear, clock, withOffset]
  rw [bind_eq (digits_padded (by decide) (by omega)), bind_eq (mark_eq (by decide)),
    bind_eq (digits_padded (by decide) (month_lt t.date)), bind_eq (mark_eq (by decide)),
    bind_eq (digits_padded (by decide) (day_lt t.date)), bind_eq (mark_eq (by decide)),
    bind_eq (digits_padded (by decide) (by omega)), bind_eq (mark_eq (by decide)),
    bind_eq (digits_padded (by decide) (by omega)), bind_eq (mark_eq (by decide)),
    bind_eq (digits_padded (by decide) (writtenSecond_lt t)),
    bind_eq (fraction_millis (millis_lt t) (by decide) []),
    bind_eq (show offset ['Z'] = some (0, []) from rfl),
    bind_eq (show atEnd [] = some ((), []) from rfl),
    bind_eq (lift_eq (hcast ▸ Date.of?_self t.date) []),
    bind_eq (lift_eq t.atTime?_parts [])]
  exact lift_eq t.shown.earlier?_zero []

/-! ## Years with a sign -/

/-- A number without white space before it is read as a field. -/
theorem field_padded {n : Nat} (h : n < 10 ^ 2) (rest : List Char) :
    field 2 (padded 2 n ++ rest) = some (n, rest) := by
  have htrim : Text.trimStart (padded 2 n ++ rest) = padded 2 n ++ rest := by
    obtain ⟨d, ds, hd⟩ := List.exists_cons_of_ne_nil (padded_ne_nil 2 n)
    have hblank : Text.isBlank d = false :=
      isBlank_of_isDigit (isDigit_of_mem_padded (hd ▸ List.mem_cons_self))
    rw [Text.trimStart, hd, List.cons_append, List.dropWhile_cons, hblank]
    rfl
  have hlength := length_padded (by decide) h
  have hdigits : digits 1 2 (padded 2 n ++ rest) = some (n, rest) := by
    rw [digits_append (fun d hd => isDigit_of_mem_padded hd) (by omega) (by omega) (.inl hlength),
      digitsValue_padded]
  have hmodify : (modify Text.trimStart : Scan Unit) (padded 2 n ++ rest) =
      some ((), Text.trimStart (padded 2 n ++ rest)) := rfl
  rw [field, bind_eq hmodify, htrim, hdigits]

section Signs

variable (cs : List Char)

theorem year_minus :
    year ('-' :: cs) = (digits 1 cs.length cs).map fun (n, rest) => (-(n : Int), rest) := by
  have hmodify : (modify Text.trimStart : Scan Unit) ('-' :: cs) = some ((), '-' :: cs) := rfl
  have hget : (get : Scan (List Char)) ('-' :: cs) = some ('-' :: cs, '-' :: cs) := rfl
  have hset : (set cs : Scan Unit) ('-' :: cs) = some ((), cs) := rfl
  rw [year, bind_eq hmodify, bind_eq hget]
  simp only [bind_eq hset]
  cases hdigits : digits 1 cs.length cs with
  | none => rw [bind_eq_none hdigits, Option.map_none]
  | some p => rw [bind_eq hdigits]; rfl

theorem year_plus :
    year ('+' :: cs) = (digits 1 cs.length cs).map fun (n, rest) => ((n : Int), rest) := by
  have hmodify : (modify Text.trimStart : Scan Unit) ('+' :: cs) = some ((), '+' :: cs) := rfl
  have hget : (get : Scan (List Char)) ('+' :: cs) = some ('+' :: cs, '+' :: cs) := rfl
  have hset : (set cs : Scan Unit) ('+' :: cs) = some ((), cs) := rfl
  rw [year, bind_eq hmodify, bind_eq hget]
  simp only [bind_eq hset]
  cases hdigits : digits 1 cs.length cs with
  | none => rw [bind_eq_none hdigits, Option.map_none]
  | some p => rw [bind_eq hdigits]; rfl

end Signs

/-- A year with a sign is read back with any number of digits. -/
theorem year_write {y : Int} (h : ¬ (0 ≤ y ∧ y ≤ 9999)) (rest : List Char) :
    year (writeYear y ++ '-' :: rest) = some (y, '-' :: rest) := by
  have hne := padded_ne_nil 4 y.natAbs
  have hdigits : digits 1 (padded 4 y.natAbs ++ '-' :: rest).length
      (padded 4 y.natAbs ++ '-' :: rest) = some (y.natAbs, '-' :: rest) := by
    have hpos : 0 < (padded 4 y.natAbs).length := List.length_pos_iff.2 hne
    have hlength : (padded 4 y.natAbs).length ≤ (padded 4 y.natAbs ++ '-' :: rest).length := by
      rw [List.length_append]
      omega
    rw [digits_append (fun d hd => isDigit_of_mem_padded hd) hpos hlength
      (.inr (Text.stopsRun_cons.2 (by decide))), digitsValue_padded]
  by_cases hneg : y < 0
  · have hyear : writeYear y = '-' :: padded 4 y.natAbs := by
      simp only [writeYear, if_pos hneg]
    have hvalue : -((y.natAbs : Nat) : Int) = y := by omega
    rw [hyear, List.cons_append, year_minus, hdigits]
    simp only [Option.map_some, hvalue]
  · have hyear : writeYear y = '+' :: padded 4 y.natAbs := by
      simp only [writeYear]
      rw [if_neg hneg, if_pos (by omega)]
    have hvalue : ((y.natAbs : Nat) : Int) = y := by omega
    rw [hyear, List.cons_append, year_plus, hdigits]
    simp only [Option.map_some, hvalue]

/-- A date whose year has a sign is read back. -/
theorem date_write {d : Date} (h : ¬ (0 ≤ d.year ∧ d.year ≤ 9999)) (rest : List Char) :
    date (writeYear d.year ++ '-' :: (padded 2 d.month ++ '-' :: (padded 2 d.day ++
      'T' :: rest))) = some (d, 'T' :: rest) := by
  rw [date, bind_eq (year_write h _), bind_eq (mark_eq (by decide)),
    bind_eq (field_padded (month_lt d) _), bind_eq (mark_eq (by decide)),
    bind_eq (field_padded (day_lt d) _)]
  exact lift_eq (Date.of?_self d) _

/-- The forms without an offset stop before the `Z`, and the strict one at the sign. -/
theorem withoutOffset_write {t : Instant} (h : ¬ (0 ≤ t.date.year ∧ t.date.year ≤ 9999)) :
    withOffset (write t) = none ∧ toSeconds (write t) = none ∧ toMinutes (write t) = none ∧
      dateOnly (write t) = none := by
  have hhour : t.hour < 10 ^ 2 := by
    have := t.hour_lt
    omega
  have hminute : t.minute < 10 ^ 2 := by
    have := t.minute_lt
    omega
  have hdate := date_write h (clock t ['Z'])
  refine ⟨?_, ?_, ?_, ?_⟩
  · have hstop : Text.StopsRun Char.isDigit (write t) := by
      rw [write_eq, writeYear]
      split
      · exact Text.stopsRun_cons.2 (by decide)
      · rw [if_pos (by omega)]
        exact Text.stopsRun_cons.2 (by decide)
    rw [withOffset, bind_eq_none (digits_eq_none (by decide) hstop)]
  · rw [write_eq, toSeconds, bind_eq hdate, clock, bind_eq (mark_eq (by decide)),
      bind_eq (field_padded hhour _), bind_eq (mark_eq (by decide)),
      bind_eq (field_padded hminute _), bind_eq (mark_eq (by decide)),
      bind_eq (field_padded (writtenSecond_lt t) _),
      bind_eq (fraction_millis (millis_lt t) (by decide) _), bind_eq_none (atEnd_cons _)]
  · rw [write_eq, toMinutes, bind_eq hdate, clock, bind_eq (mark_eq (by decide)),
      bind_eq (field_padded hhour _), bind_eq (mark_eq (by decide)),
      bind_eq (field_padded hminute _), bind_eq_none (atEnd_cons _)]
  · rw [write_eq, dateOnly, bind_eq hdate, bind_eq_none (atEnd_cons _)]

/-! ## Reading back -/

/-- The characters of a timestamp. -/
def isTimestampChar (c : Char) : Bool :=
  c.isDigit || c = '-' || c = '+' || c = ':' || c = '.' || c = 'T' || c = 'Z'

theorem isBlank_of_isTimestampChar {c : Char} (h : isTimestampChar c = true) :
    Text.isBlank c = false := by
  simp only [isTimestampChar, Bool.or_eq_true, decide_eq_true_eq] at h
  rcases h with (((((h | rfl) | rfl) | rfl) | rfl) | rfl) | rfl
  · exact isBlank_of_isDigit h
  · rfl
  · rfl
  · rfl
  · rfl
  · rfl
  · rfl

theorem isTimestampChar_of_mem_write {t : Instant} {c : Char} (h : c ∈ write t) :
    isTimestampChar c = true := by
  have hpadded {width n : Nat} (hc : c ∈ padded width n) : isTimestampChar c = true := by
    simp [isTimestampChar, isDigit_of_mem_padded hc]
  have hyear (hc : c ∈ writeYear t.date.year) : isTimestampChar c = true := by
    simp only [writeYear] at hc
    split at hc
    · rcases List.mem_cons.1 hc with rfl | hc
      · rfl
      · exact hpadded hc
    · split at hc
      · rcases List.mem_cons.1 hc with rfl | hc
        · rfl
        · exact hpadded hc
      · exact hpadded hc
  rw [write_eq, clock] at h
  simp only [List.mem_append, List.mem_cons, List.not_mem_nil, or_false] at h
  rcases h with h | rfl | h | rfl | h | rfl | h | rfl | h | rfl | h | rfl | h | rfl
  · exact hyear h
  · rfl
  · exact hpadded h
  · rfl
  · exact hpadded h
  · rfl
  · exact hpadded h
  · rfl
  · exact hpadded h
  · rfl
  · exact hpadded h
  · rfl
  · exact hpadded h
  · rfl

/-- A timestamp reads back as the instant that it shows, if its year has four digits. -/
theorem read?_write (t : Instant) :
    read? (write t) = if 0 ≤ t.date.year ∧ t.date.year ≤ 9999 then some t.shown else none := by
  have htrim : Text.trim (write t) = write t := by
    refine Text.trim_eq_self ?_
    intro c hc
    exact isBlank_of_isTimestampChar (isTimestampChar_of_mem_write hc)
  rw [read?, htrim]
  split
  case isTrue h => simp [StateT.run', withOffset_write h]
  case isFalse h =>
    obtain ⟨hoffset, hseconds, hminutes, hdate⟩ := withoutOffset_write h
    simp [StateT.run', hoffset, hseconds, hminutes, hdate]

/-! ## Instants on the clock -/

/-- A property of everything that a reader gives. -/
def Gives {α : Type} (p : Scan α) (P : α → Prop) : Prop :=
  ∀ ⦃cs a rest⦄, p cs = some (a, rest) → P a

section Gives

variable {α β : Type} {P : β → Prop}

/-- What is given last counts, whatever was given before it has some property. -/
theorem Gives.bind {Q : α → Prop} {p : Scan α} {f : α → Scan β} (hp : Gives p Q)
    (hf : ∀ a, Q a → Gives (f a) P) : Gives (p >>= f) P := by
  intro cs b rest h
  obtain ⟨⟨a, cs'⟩, hfirst, hlater⟩ := Option.bind_eq_some_iff.1 h
  exact hf a (hp hfirst) hlater

theorem Gives.then {p : Scan α} {f : α → Scan β} (hf : ∀ a, Gives (f a) P) : Gives (p >>= f) P :=
  Gives.bind (Q := fun _ => True) (fun _ _ _ _ => trivial) fun a _ => hf a

theorem gives_lift {o : Option β} (h : ∀ b, o = some b → P b) : Gives (liftM o : Scan β) P := by
  intro cs b rest hb
  cases o with
  | none => cases hb
  | some c =>
    cases hb
    exact h _ rfl

theorem gives_guard (p : Prop) [Decidable p] : Gives (guard p : Scan Unit) fun _ => p := by
  intro cs a rest h
  by_cases hp : p
  · exact hp
  · rw [guard, if_neg hp] at h
    cases h

theorem gives_pure {b : β} (h : P b) : Gives (pure b : Scan β) P := by
  intro cs a rest ha
  cases ha
  exact h

end Gives

/-- An offset is one of whole minutes and less than a day. -/
theorem gives_offset : Gives offset fun seconds => seconds % 60 = 0 ∧ seconds.natAbs < 86400 := by
  refine Gives.then fun text => ?_
  split
  · exact Gives.then fun _ => gives_pure (by decide)
  · exact Gives.then fun _ => gives_pure (by decide)
  · refine Gives.then fun _ => Gives.then fun _ => Gives.then fun hours => Gives.then fun _ =>
      Gives.then fun minutes => Gives.bind (gives_guard _) fun _ hrange => gives_pure ?_
    simp only [Bool.and_eq_true, decide_eq_true_eq] at hrange
    split <;> omega
  · exact fun _ _ _ h => nomatch h

/-- The strict form gives instants on the clock, which an offset of whole minutes keeps there. -/
theorem gives_withOffset : Gives withOffset Instant.OnClock := by
  refine Gives.then fun year => Gives.then fun _ => Gives.then fun month => Gives.then fun _ =>
    Gives.then fun day => Gives.then fun _ => Gives.then fun hour => Gives.then fun _ =>
    Gives.then fun minute => Gives.then fun _ => Gives.then fun second => Gives.then fun nanos =>
    gives_offset.bind fun seconds hseconds => Gives.then fun _ => Gives.then fun date =>
    Gives.bind (gives_lift fun wall => Instant.onClock_of_atTime?) fun wall hwall => ?_
  exact gives_lift fun t h => Instant.onClock_of_earlier? hwall hseconds h

theorem gives_toSeconds : Gives toSeconds Instant.OnClock :=
  Gives.then fun _ => Gives.then fun _ => Gives.then fun _ => Gives.then fun _ =>
    Gives.then fun _ => Gives.then fun _ => Gives.then fun _ => Gives.then fun _ =>
    Gives.then fun _ => gives_lift fun _ => Instant.onClock_of_atTime?

theorem gives_toMinutes : Gives toMinutes Instant.OnClock :=
  Gives.then fun _ => Gives.then fun _ => Gives.then fun _ => Gives.then fun _ =>
    Gives.then fun _ => Gives.then fun _ => gives_lift fun _ => Instant.onClock_of_atTime?

theorem gives_dateOnly : Gives dateOnly Instant.OnClock :=
  Gives.then fun _ => Gives.then fun _ => gives_pure (Instant.onClock_of_nanos_lt (Nat.succ_pos _))

/-- Whatever instant a text writes, a clock shows it. -/
theorem onClock_of_read? {text : List Char} {t : Instant} (h : read? text = some t) : t.OnClock := by
  have hrun {p : Scan Instant} (hp : Gives p Instant.OnClock)
      (hread : p.run' (Text.trim text) = some t) : t.OnClock := by
    obtain ⟨⟨u, rest⟩, hu, hut⟩ := Option.map_eq_some_iff.1 hread
    exact hut ▸ hp hu
  have hor {o p : Option Instant} (ho : o = some t → t.OnClock) (hp : p = some t → t.OnClock)
      (hread : (o <|> p) = some t) : t.OnClock := by
    cases o with
    | none => exact hp hread
    | some u => exact ho hread
  exact hor (hor (hrun gives_withOffset) (hrun gives_toSeconds))
    (hor (hrun gives_toMinutes) (hrun gives_dateOnly)) h

/-! ## Losses -/

/-- Whether the parts of an instant are written without a loss: in whole milliseconds and a year of four
digits. -/
def isLossless (t : Instant) : Bool :=
  0 ≤ t.date.year && t.date.year ≤ 9999 && t.nanos % 1000000 = 0

theorem isLossless_iff {t : Instant} :
    isLossless t = true ↔ (0 ≤ t.date.year ∧ t.date.year ≤ 9999) ∧ t.cutToMillis = t := by
  rw [Instant.cutToMillis_eq_self_iff]
  simp [isLossless]

/-- Just the instants on the clock that are written without a loss read back. -/
theorem read?_write_eq_some_iff {t : Instant} :
    read? (write t) = some t ↔ isLossless t = true ∧ t.OnClock := by
  rw [read?_write, isLossless_iff]
  split
  case isTrue h => simp [h, Instant.shown_eq_self_iff, and_comm]
  case isFalse h =>
    constructor
    · intro heq
      cases heq
    · rintro ⟨⟨hyear, -⟩, -⟩
      exact absurd hyear h

end Timestamp

end OData

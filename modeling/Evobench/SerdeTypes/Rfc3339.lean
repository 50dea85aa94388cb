import Evobench.SerdeTypes.DateAndTime
import Evobench.Library.FixedWidth
import Mathlib.Order.Monotone.Basic
import Mathlib.Algebra.Order.Group.Nat

/-!
# The order of points in time as texts

A `DateTimeWithOffset` is compared as a text. That is the order of what is read on the clock: the date, the time of day, the
fraction of the second, and only then the offset from UTC (`Rfc3339.text_lt_iff`). It is not always the order of the instants
(`Rfc3339.order_agrees_iff`): between different offsets what is read on the clock can go backwards.

## The model

* `Rfc3339`: what is written in RFC 3339 format, field by field; `text` is the documented form of `to_rfc3339`.
* `Rfc3339.instant`: the point in time, as seconds in UTC and a fraction that goes beyond one second at a leap second, as in
  the library.
* `Rfc3339Form`: that the library writes in this form.
-/

namespace Evobench.SerdeTypes

open Library

/-! ### The calendar -/

/-- The year has a 29th of February. -/
def isLeapYear (year : ℕ) : Bool := year % 4 = 0 && (year % 100 ≠ 0 || year % 400 = 0)

/-- The number of days of a month; months are counted from 1. -/
def daysInMonth (year : ℕ) : ℕ → ℕ
  | 1 => 31
  | 2 => if isLeapYear year then 29 else 28
  | 3 => 31
  | 4 => 30
  | 5 => 31
  | 6 => 30
  | 7 => 31
  | 8 => 31
  | 9 => 30
  | 10 => 31
  | 11 => 30
  | 12 => 31
  | _ => 0

theorem daysInMonth_le (year month : ℕ) : daysInMonth year month ≤ 31 := by
  unfold daysInMonth
  split
  case h_2 =>
    split
    · decide
    · decide
  all_goals decide

/-- The days of the year before a month. -/
def daysBeforeMonth (year : ℕ) : ℕ → ℕ
  | 0 => 0
  | month + 1 => daysBeforeMonth year month + daysInMonth year month

/-- The days before a year. -/
def daysBeforeYear : ℕ → ℕ
  | 0 => 0
  | year + 1 => daysBeforeYear year + daysBeforeMonth year 13

/-- The number of a day. -/
def dayNumber (year month day : ℕ) : ℕ := daysBeforeYear year + daysBeforeMonth year month + day

/-- There is such a date. -/
def IsDate (year month day : ℕ) : Prop := (1 ≤ month ∧ month ≤ 12) ∧ 1 ≤ day ∧ day ≤ daysInMonth year month

instance (year month day : ℕ) : Decidable (IsDate year month day) := inferInstanceAs (Decidable (_ ∧ _ ∧ _))

theorem monotone_daysBeforeMonth (year : ℕ) : Monotone (daysBeforeMonth year) :=
  monotone_nat_of_le_succ fun _ => Nat.le_add_right _ _

theorem monotone_daysBeforeYear : Monotone daysBeforeYear := monotone_nat_of_le_succ fun _ => Nat.le_add_right _ _

/-- Later dates have greater numbers. -/
theorem dayNumber_lt {year month day year' month' day' : ℕ} (h : IsDate year month day) (h' : IsDate year' month' day')
    (hlt : year < year' ∨ year = year' ∧ (month < month' ∨ month = month' ∧ day < day')) :
    dayNumber year month day < dayNumber year' month' day' := by
  obtain ⟨⟨hmonth, hmonth'⟩, hday, hday'⟩ := h
  unfold dayNumber
  have hwithin : daysBeforeMonth year month + day ≤ daysBeforeMonth year (month + 1) := Nat.add_le_add_left hday' _
  rcases hlt with hyear | ⟨rfl, hmonths | ⟨rfl, hdays⟩⟩
  · have hend := monotone_daysBeforeMonth year (show month + 1 ≤ 13 by omega)
    have hnext : daysBeforeYear year + daysBeforeMonth year 13 ≤ daysBeforeYear year' :=
      monotone_daysBeforeYear (show year + 1 ≤ year' from hyear)
    have := h'.2.1
    omega
  · have hnext := monotone_daysBeforeMonth year (show month + 1 ≤ month' from hmonths)
    have := h'.2.1
    omega
  · omega

/-! ### What is written -/

/-- A point in time as it is written in RFC 3339 format. -/
structure Rfc3339 where
  year : ℕ
  month : ℕ
  day : ℕ
  hour : ℕ
  minute : ℕ
  /-- 60 at a leap second. -/
  second : ℕ
  nanos : ℕ
  /-- The local time minus UTC, in minutes. -/
  offset : ℤ
  /-- Four digits are written. -/
  year_lt : year < 10000
  /-- There is such a date. -/
  isDate : IsDate year month day
  /-- There is such a time. -/
  isTime : hour < 24 ∧ minute < 60 ∧ second ≤ 60 ∧ nanos < 1000000000
  /-- Less than a day. -/
  offset_lt : offset.natAbs < 1440
deriving DecidableEq

namespace Rfc3339

/-- The date and the time as they are read on the clock. -/
def clockFields (t : Rfc3339) : ℕ ×ₗ ℕ ×ₗ ℕ ×ₗ ℕ ×ₗ ℕ ×ₗ ℕ :=
  toLex (t.year, toLex (t.month, toLex (t.day, toLex (t.hour, toLex (t.minute, t.second)))))

/-- The fraction of the second, with as many digits as necessary: 0, 3, 6 or 9. -/
def fractionText (nanos : ℕ) : List Char :=
  if nanos = 0 then []
  else if nanos % 1000000 = 0 then '.' :: digits 3 (nanos / 1000000)
  else if nanos % 1000 = 0 then '.' :: digits 6 (nanos / 1000)
  else '.' :: digits 9 nanos

/-- The offset. -/
def offsetText (offset : ℤ) : List Char :=
  (if 0 ≤ offset then '+' else '-') :: (digits 2 (offset.natAbs / 60) ++ ':' :: digits 2 (offset.natAbs % 60))

/-- The date and the time, up to the second. -/
def clockText (fields : ℕ ×ₗ ℕ ×ₗ ℕ ×ₗ ℕ ×ₗ ℕ ×ₗ ℕ) : List Char :=
  digits 4 (ofLex fields).1 ++ '-' :: (digits 2 (ofLex (ofLex fields).2).1 ++
    '-' :: (digits 2 (ofLex (ofLex (ofLex fields).2).2).1 ++ 'T' :: (digits 2 (ofLex (ofLex (ofLex (ofLex fields).2).2).2).1 ++
      ':' :: (digits 2 (ofLex (ofLex (ofLex (ofLex (ofLex fields).2).2).2).2).1 ++
        ':' :: digits 2 (ofLex (ofLex (ofLex (ofLex (ofLex fields).2).2).2).2).2))))

/-- `to_rfc3339` -/
def text (t : Rfc3339) : List Char := clockText t.clockFields ++ (fractionText t.nanos ++ offsetText t.offset)

/-! ### The order of the texts -/

/-- The fields of a date and a time do not have more digits than are written. -/
def ClockBounds (fields : ℕ ×ₗ ℕ ×ₗ ℕ ×ₗ ℕ ×ₗ ℕ ×ₗ ℕ) : Prop :=
  (ofLex fields).1 < 10 ^ 4 ∧ (ofLex (ofLex fields).2).1 < 10 ^ 2 ∧ (ofLex (ofLex (ofLex fields).2).2).1 < 10 ^ 2 ∧
    (ofLex (ofLex (ofLex (ofLex fields).2).2).2).1 < 10 ^ 2 ∧
    (ofLex (ofLex (ofLex (ofLex (ofLex fields).2).2).2).2).1 < 10 ^ 2 ∧
    (ofLex (ofLex (ofLex (ofLex (ofLex fields).2).2).2).2).2 < 10 ^ 2

theorem clockBounds (t : Rfc3339) : ClockBounds t.clockFields := by
  have hyear := t.year_lt
  obtain ⟨hhour, hminute, hsecond, -⟩ := t.isTime
  obtain ⟨⟨-, hmonth⟩, -, hday⟩ := t.isDate
  have := daysInMonth_le t.year t.month
  show t.year < 10 ^ 4 ∧ t.month < 10 ^ 2 ∧ t.day < 10 ^ 2 ∧ t.hour < 10 ^ 2 ∧ t.minute < 10 ^ 2 ∧ t.second < 10 ^ 2
  omega

/-- The date and the time have fields of a fixed width. -/
theorem fixedWidth_clockText : FixedWidth ClockBounds clockText :=
  have second := (fixedWidth_digits 2).cons ':'
  have minute := ((fixedWidth_digits 2).append second).cons ':'
  have hour := ((fixedWidth_digits 2).append minute).cons 'T'
  have day := ((fixedWidth_digits 2).append hour).cons '-'
  have month := ((fixedWidth_digits 2).append day).cons '-'
  (fixedWidth_digits 4).append month

theorem zero_le_of_mem_digits {k n : ℕ} {c : Char} (h : c ∈ digits k n) : '0' ≤ c := by
  obtain ⟨m, hm, rfl⟩ := exists_of_mem_digits h
  refine not_lt.1 fun hlt => ?_
  exact absurd ((digitChar_lt_iff m hm 0 (by decide)).1 hlt) (Nat.not_lt_zero m)

/-- A fraction, with the zeros at its end that are not written. -/
theorem exists_fractionText {n : ℕ} (hn : n ≠ 0) :
    ∃ u a, fractionText n = '.' :: u ∧ u ++ List.replicate a '0' = digits 9 n ∧ ∀ c ∈ u, '0' ≤ c := by
  unfold fractionText
  rw [if_neg hn]
  by_cases hmillis : n % 1000000 = 0
  · rw [if_pos hmillis]
    refine ⟨_, 6, rfl, ?_, fun c hc => zero_le_of_mem_digits hc⟩
    have hpow : 10 ^ 6 = 1000000 := by simp
    rw [digits_add 3 6 n, hpow, hmillis, digits_zero]
  · rw [if_neg hmillis]
    by_cases hmicros : n % 1000 = 0
    · rw [if_pos hmicros]
      refine ⟨_, 3, rfl, ?_, fun c hc => zero_le_of_mem_digits hc⟩
      have hpow : 10 ^ 3 = 1000 := by simp
      rw [digits_add 6 3 n, hpow, hmicros, digits_zero]
    · rw [if_neg hmicros]
      exact ⟨_, 0, rfl, List.append_nil _, fun c hc => zero_le_of_mem_digits hc⟩

/-- Between the same fractions the offset decides. -/
theorem fraction_lt_iff {n n' : ℕ} (hn : n < 1000000000) (hn' : n' < 1000000000) (o o' : ℤ) :
    fractionText n ++ offsetText o < fractionText n' ++ offsetText o' ↔
      n < n' ∨ n = n' ∧ offsetText o < offsetText o' := by
  -- The sign of the offset comes before the point, and before all digits.
  have hsign : ∀ o : ℤ, (if 0 ≤ o then '+' else '-') < '.' ∧ (if 0 ≤ o then '+' else '-') < '0' := by
    intro o
    split
    · decide
    · decide
  by_cases heq : n = n'
  · subst heq
    rw [append_lt_append_iff rfl]
    simp
  · simp only [heq, false_and, or_false]
    rcases Nat.eq_zero_or_pos n with rfl | hpos
    · obtain ⟨u, a, hu, -, -⟩ := exists_fractionText (Ne.symm heq)
      refine iff_of_true ?_ (Nat.pos_of_ne_zero (Ne.symm heq))
      rw [hu, fractionText, if_pos rfl, List.nil_append, offsetText, List.cons_append, List.cons_lt_cons_iff]
      exact .inl (hsign o).1
    · obtain ⟨u, a, hu, hfull, hge⟩ := exists_fractionText hpos.ne'
      rcases Nat.eq_zero_or_pos n' with rfl | hpos'
      · refine iff_of_false ?_ (Nat.not_lt_zero n)
        rw [hu, fractionText, if_pos rfl, List.nil_append, offsetText, List.cons_append, offsetText, List.cons_lt_cons_iff]
        rintro (h | ⟨h, -⟩)
        · exact absurd h (not_lt.2 (hsign o').1.le)
        · exact (hsign o').1.ne' h
      · obtain ⟨u', a', hu', hfull', hge'⟩ := exists_fractionText hpos'.ne'
        have hlength : u.length + a = u'.length + a' := by
          have := congrArg List.length (hfull.trans (show digits 9 n = digits 9 n from rfl))
          have := congrArg List.length hfull'
          simp only [List.length_append, List.length_replicate, length_digits] at *
          omega
        have hlt := (fixedWidth_digits 9).lt_iff n n' hn hn'
        have hne : digits 9 n ≠ digits 9 n' := fun h => heq (((fixedWidth_digits 9).eq_iff hn hn').1 h)
        rw [← hfull, ← hfull'] at hlt hne
        rw [hu, hu', List.cons_append, List.cons_append, List.cons_lt_cons_iff, offsetText, offsetText,
          trimmed_lt_iff hlength hge hge' (hsign o).2 (hsign o').2 _ _ hne, hlt]
        simp

/-- The offset is written before another one. -/
def OffsetBefore (o o' : ℤ) : Prop := 0 ≤ o ∧ o' < 0 ∨ (0 ≤ o ↔ 0 ≤ o') ∧ o.natAbs < o'.natAbs

theorem offsetText_lt_iff {o o' : ℤ} (ho : o.natAbs < 1440) (ho' : o'.natAbs < 1440) :
    offsetText o < offsetText o' ↔ OffsetBefore o o' := by
  have hnumber : digits 2 (o.natAbs / 60) ++ ':' :: digits 2 (o.natAbs % 60) <
      digits 2 (o'.natAbs / 60) ++ ':' :: digits 2 (o'.natAbs % 60) ↔ o.natAbs < o'.natAbs := by
    have hminutes := ((fixedWidth_digits 2).cons ':').lt_iff (o.natAbs % 60) (o'.natAbs % 60) (by omega) (by omega)
    rw [(fixedWidth_digits 2).append_lt_iff (by omega) (by omega), hminutes]
    omega
  have hplus : ('+' : Char) < '-' := by decide
  rw [offsetText, offsetText, List.cons_lt_cons_iff, hnumber, OffsetBefore]
  by_cases h : 0 ≤ o
  · by_cases h' : 0 ≤ o'
    · simp [h, h']
    · simp [h, h', hplus, not_le.1 h']
  · by_cases h' : 0 ≤ o'
    · simp [h, h', hplus.not_gt]
    · simp [h, h']

/-! ### The order of the instants -/

/-- The seconds that are read on the clock, since the first day; a leap second is part of the one before. -/
def clockSeconds (t : Rfc3339) : ℤ :=
  dayNumber t.year t.month t.day * 86400 + t.hour * 3600 + t.minute * 60 + min t.second 59

/-- The fraction; at a leap second it goes beyond one second. -/
def fraction (t : Rfc3339) : ℕ := if t.second = 60 then 1000000000 + t.nanos else t.nanos

/-- What is read on the clock. -/
def reading (t : Rfc3339) : ℤ ×ₗ ℕ := toLex (t.clockSeconds, t.fraction)

/-- The instant, in UTC. -/
def instant (t : Rfc3339) : ℤ ×ₗ ℕ := toLex (t.clockSeconds - 60 * t.offset, t.fraction)

/-- The date, the time and the fraction in the order in which they are written. -/
def shown (t : Rfc3339) : (ℕ ×ₗ ℕ ×ₗ ℕ ×ₗ ℕ ×ₗ ℕ ×ₗ ℕ) ×ₗ ℕ := toLex (t.clockFields, t.nanos)

theorem clockFields_lt_iff {t t' : Rfc3339} : t.clockFields < t'.clockFields ↔
    t.year < t'.year ∨ t.year = t'.year ∧ (t.month < t'.month ∨ t.month = t'.month ∧ (t.day < t'.day ∨ t.day = t'.day ∧
      (t.hour < t'.hour ∨ t.hour = t'.hour ∧ (t.minute < t'.minute ∨ t.minute = t'.minute ∧ t.second < t'.second)))) := by
  simp only [clockFields, Prod.Lex.toLex_lt_toLex]

theorem eq_of_clockFields {t t' : Rfc3339} (h : t.clockFields = t'.clockFields) :
    t.year = t'.year ∧ t.month = t'.month ∧ t.day = t'.day ∧ t.hour = t'.hour ∧ t.minute = t'.minute ∧
      t.second = t'.second := by
  simpa only [clockFields, EmbeddingLike.apply_eq_iff_eq, Prod.mk.injEq] using h

/-- What is written first is in the order of what is read. -/
theorem reading_lt_of_shown_lt {t t' : Rfc3339} (h : t.shown < t'.shown) : t.reading < t'.reading := by
  obtain ⟨hhour, hminute, hsecond, hnanos⟩ := t.isTime
  obtain ⟨hhour', hminute', hsecond', hnanos'⟩ := t'.isTime
  rw [reading, reading, Prod.Lex.toLex_lt_toLex]
  unfold clockSeconds fraction
  rw [shown, shown, Prod.Lex.toLex_lt_toLex, clockFields_lt_iff] at h
  rcases h with h | ⟨heq, hlt⟩
  · by_cases hdate : t.year = t'.year ∧ t.month = t'.month ∧ t.day = t'.day
    · obtain ⟨hyear, hmonth, hday⟩ := hdate
      have htime : t.hour < t'.hour ∨ t.hour = t'.hour ∧
          (t.minute < t'.minute ∨ t.minute = t'.minute ∧ t.second < t'.second) := by omega
      rw [hyear, hmonth, hday]
      -- Between the seconds 59 and 60 the fraction decides.
      split
      · omega
      · split
        · omega
        · omega
    · have hday := dayNumber_lt t.isDate t'.isDate (by omega)
      exact .inl (by omega)
  · obtain ⟨hyear, hmonth, hday, hhours, hminutes, hseconds⟩ := eq_of_clockFields heq
    rw [hyear, hmonth, hday, hhours, hminutes, hseconds]
    refine .inr ⟨rfl, ?_⟩
    split
    · exact Nat.add_lt_add_left hlt _
    · exact hlt

theorem reading_lt_iff {t t' : Rfc3339} : t.reading < t'.reading ↔ t.shown < t'.shown := by
  refine ⟨fun h => ?_, reading_lt_of_shown_lt⟩
  rcases lt_trichotomy t.shown t'.shown with hlt | heq | hgt
  · exact hlt
  · rw [shown, shown, EmbeddingLike.apply_eq_iff_eq, Prod.mk.injEq] at heq
    obtain ⟨hyear, hmonth, hday, hhours, hminutes, hseconds⟩ := eq_of_clockFields heq.1
    have hreading : t.reading = t'.reading := by
      unfold reading clockSeconds fraction
      rw [hyear, hmonth, hday, hhours, hminutes, hseconds, heq.2]
    rw [hreading] at h
    exact absurd h (lt_irrefl _)
  · exact absurd h (reading_lt_of_shown_lt hgt).not_gt

theorem reading_eq_iff {t t' : Rfc3339} : t.reading = t'.reading ↔ t.shown = t'.shown := by
  have hlt : t.reading < t'.reading ↔ t.shown < t'.shown := reading_lt_iff
  have hgt : t'.reading < t.reading ↔ t'.shown < t.shown := reading_lt_iff
  constructor
  · intro h
    rw [h] at hlt hgt
    exact le_antisymm (not_lt.1 fun hc => lt_irrefl _ (hgt.2 hc)) (not_lt.1 fun hc => lt_irrefl _ (hlt.2 hc))
  · intro h
    rw [h] at hlt hgt
    exact le_antisymm (not_lt.1 fun hc => lt_irrefl _ (hgt.1 hc)) (not_lt.1 fun hc => lt_irrefl _ (hlt.1 hc))

/-- **The order of texts**: that of what is read on the clock, and then that of the offsets as they are written. -/
theorem text_lt_iff (t t' : Rfc3339) :
    t.text < t'.text ↔ t.reading < t'.reading ∨ t.reading = t'.reading ∧ OffsetBefore t.offset t'.offset := by
  rw [text, text, fixedWidth_clockText.append_lt_iff t.clockBounds t'.clockBounds,
    fraction_lt_iff t.isTime.2.2.2 t'.isTime.2.2.2, offsetText_lt_iff t.offset_lt t'.offset_lt, reading_lt_iff,
    reading_eq_iff, shown, shown, Prod.Lex.toLex_lt_toLex, EmbeddingLike.apply_eq_iff_eq, Prod.mk.injEq]
  tauto

/-- **The order of the texts agrees with that of the instants**: what is read on the clock, where it differs, is in the order
of the instants, and where it is the same not both offsets are east of Greenwich or zero, unless they are the same. -/
def OrderAgrees (t t' : Rfc3339) : Prop :=
  (t.reading < t'.reading → t.instant < t'.instant) ∧ (t'.reading < t.reading → t'.instant ≤ t.instant) ∧
    (t.reading = t'.reading → t.offset = t'.offset ∨ t.offset < 0 ∨ t'.offset < 0)

/-- At one and the same time on the clock, a greater offset is an earlier instant. -/
theorem instant_lt_iff_of_reading_eq {t t' : Rfc3339} (h : t.reading = t'.reading) :
    t.instant < t'.instant ↔ t'.offset < t.offset := by
  rw [reading, reading, EmbeddingLike.apply_eq_iff_eq, Prod.mk.injEq] at h
  rw [instant, instant, Prod.Lex.toLex_lt_toLex, h.1, h.2]
  simp only [lt_self_iff_false, and_false, or_false]
  omega

theorem order_agrees_iff (t t' : Rfc3339) : (t.text < t'.text ↔ t.instant < t'.instant) ↔ t.OrderAgrees t' := by
  rw [text_lt_iff, OrderAgrees]
  rcases lt_trichotomy t.reading t'.reading with hlt | heq | hgt
  · simp [hlt, hlt.not_gt, hlt.ne]
  · rw [instant_lt_iff_of_reading_eq heq, heq]
    simp only [lt_self_iff_false, true_and, false_or, false_imp_iff, true_imp_iff, OffsetBefore]
    omega
  · simp [hgt, hgt.not_gt, hgt.ne', not_lt]

/-- With the same offset the order is always that of the instants. -/
theorem orderAgrees_of_offset_eq {t t' : Rfc3339} (h : t.offset = t'.offset) : t.OrderAgrees t' := by
  have hlt : ∀ a b : Rfc3339, a.offset = b.offset → a.reading < b.reading → a.instant < b.instant := by
    intro a b hoffset hreading
    rw [reading, reading, Prod.Lex.toLex_lt_toLex] at hreading
    rw [instant, instant, Prod.Lex.toLex_lt_toLex, hoffset]
    rcases hreading with hseconds | ⟨hseconds, hfraction⟩
    · exact .inl (Int.sub_lt_sub_right hseconds _)
    · exact .inr ⟨congrArg (· - 60 * b.offset) hseconds, hfraction⟩
  exact ⟨hlt t t' h, fun hreading => (hlt t' t h.symm hreading).le, fun _ => .inl h⟩

/-- What is read on the clock later, or written later at one time on the clock, is not earlier. -/
def ClockAgrees (t t' : Rfc3339) : Prop :=
  (t.reading < t'.reading → t.instant ≤ t'.instant) ∧
    (t.reading = t'.reading → t.offset = t'.offset ∨ t.offset < 0 ∨ t'.offset < 0)

theorem clockAgrees_of_offset_eq {t t' : Rfc3339} (h : t.offset = t'.offset) : t.ClockAgrees t' :=
  ⟨fun hreading => ((orderAgrees_of_offset_eq h).1 hreading).le, fun _ => .inl h⟩

/-- A text that comes later is that of an instant that is not earlier. -/
theorem le_of_text_lt_iff {t t' : Rfc3339} (hle : ¬ t'.text < t.text) :
    t.instant ≤ t'.instant ↔ t.ClockAgrees t' := by
  rw [text_lt_iff] at hle
  unfold ClockAgrees
  rcases lt_trichotomy t.reading t'.reading with hlt | heq | hgt
  · simp [hlt, hlt.ne]
  · have hlt := instant_lt_iff_of_reading_eq heq.symm
    rw [heq] at hle ⊢
    rw [← not_lt, hlt]
    simp only [lt_self_iff_false, true_and, false_or, false_imp_iff, true_imp_iff, OffsetBefore] at hle ⊢
    omega
  · exact absurd (.inl hgt) hle

end Rfc3339

/-! ### Points in time -/

/-- What is documented about the texts of the library: `to_rfc3339` writes the fields of the local time, and the offset. -/
structure Rfc3339Form (chrono : Chrono) where
  /-- The fields of a point in time. -/
  fields : chrono.DateTime → Rfc3339
  /-- They are written. -/
  toRfc3339_eq : ∀ s t, chrono.parseFromRfc3339 s = some t → chrono.toRfc3339 t = String.ofList (fields t).text

namespace DateTimeWithOffset

variable {chrono : Chrono}

/-- `PartialOrd`: of the texts. -/
instance : LT (DateTimeWithOffset chrono) := ⟨fun a b => a.text < b.text⟩

/-- `to_datetime` -/
def toDatetime (a : DateTimeWithOffset chrono) : chrono.DateTime :=
  (chrono.parseFromRfc3339 a.text).get (by
    obtain ⟨t, ht, -⟩ := a.parses
    rw [ht]
    rfl)

theorem parse_text (a : DateTimeWithOffset chrono) : chrono.parseFromRfc3339 a.text = some a.toDatetime := by
  simp [toDatetime]

/-- The fields that the text consists of. -/
def fields (form : Rfc3339Form chrono) (a : DateTimeWithOffset chrono) : Rfc3339 := form.fields a.toDatetime

variable (form : Rfc3339Form chrono)

theorem text_eq (a : DateTimeWithOffset chrono) : a.text = String.ofList (a.fields form).text := by
  obtain ⟨t, ht, htext⟩ := a.parses
  obtain rfl : a.toDatetime = t := by
    rw [parse_text] at ht
    exact Option.some.inj ht
  rw [← htext]
  exact form.toRfc3339_eq _ _ ht

theorem lt_iff (a b : DateTimeWithOffset chrono) : a < b ↔ (a.fields form).text < (b.fields form).text := by
  show a.text < b.text ↔ _
  rw [String.lt_iff_toList_lt, text_eq form a, text_eq form b, String.toList_ofList, String.toList_ofList]

end DateTimeWithOffset

end Evobench.SerdeTypes

import Evobench.KeyValFs.TimeKey
import Evobench.DateAndTime.NextWindow
import Mathlib.Data.List.DropRight

/-!
# Times of day and time windows as texts

`LocalNaiveTime.fromStr` accepts the seconds from 0 to 60, so that leap seconds can be written; the library for dates and
times, which makes a `NaiveTime` of it later on, knows the seconds 0 to 59 only. `accepted_times_resolve_iff` says for which
accepted texts, dates and times the conversions do without a panic. As in `TimeRanges`, dates are unbounded, so that each has a
next and a previous one.
-/

namespace Evobench.DateAndTime

open Library KeyValFs

/-! ### Texts -/

/-- `char::is_whitespace` -/
def isWhitespace (c : Char) : Bool :=
  (9 ≤ c.toNat && c.toNat ≤ 13) || c.toNat == 0x20 || c.toNat == 0x85 || c.toNat == 0xA0 || c.toNat == 0x1680 ||
    (0x2000 ≤ c.toNat && c.toNat ≤ 0x200A) || c.toNat == 0x2028 || c.toNat == 0x2029 || c.toNat == 0x202F ||
    c.toNat == 0x205F || c.toNat == 0x3000

/-- `trim` -/
def trim (cs : List Char) : List Char := (cs.dropWhile isWhitespace).rdropWhile isWhitespace

/-- `parse_max` -/
def parseMax (s : List Char) (maxIncl : ℕ) (fieldName : String) : Except String ℕ :=
  match parseUInt 256 s with
  | none => .error (fieldName ++ " must be an integer 0.." ++ toString maxIncl)
  | some val =>
    if val.val ≤ maxIncl then .ok val.val
    else .error (fieldName ++ " must be an integer 0.." ++ toString maxIncl)

/-- `LocalNaiveTime::from_str` -/
def LocalNaiveTime.fromStr (s : List Char) : Except String LocalNaiveTime :=
  match splitOnce ':' s with
  | some (h, ms) => do
    let hour ← parseMax h 23 "hour"
    match splitOnce ':' ms with
    | some (m, s) => do
      let minute ← parseMax m 59 "minute"
      -- Allow for leap second
      let second ← parseMax s 60 "second"
      pure ⟨hour, minute, second⟩
    | none => do
      let minute ← parseMax ms 59 "minute"
      pure ⟨hour, minute, 0⟩
  | none => .error "need at least one ':'"

/-- Why a text is no range of times. -/
inductive RangeError where
  /-- from time {from:?}: {e:#} -/
  | fromTime (from_ : List Char) (e : String)
  /-- to time {to:?}: {e:#} -/
  | toTime (to_ : List Char) (e : String)
  /-- expecting exactly one '-', none given -/
  | noneGiven
  /-- expecting exactly one '-', more than one given -/
  | moreThanOneGiven
deriving DecidableEq

/-- `LocalNaiveTimeRange::from_str` -/
def LocalNaiveTimeRange.fromStr (s : List Char) : Except RangeError LocalNaiveTimeRange :=
  match s.splitOn '-' with
  | [from_, to_] => do
    let start ← (LocalNaiveTime.fromStr (trim from_)).mapError (RangeError.fromTime (trim from_))
    let stop ← (LocalNaiveTime.fromStr (trim to_)).mapError (RangeError.toTime (trim to_))
    pure ⟨start, stop⟩
  | [_] => .error .noneGiven
  | _ => .error .moreThanOneGiven

/-! ### Accepted times -/

theorem le_of_parseMax {s : List Char} {maxIncl n : ℕ} {fieldName : String} (h : parseMax s maxIncl fieldName = .ok n) :
    n ≤ maxIncl := by
  unfold parseMax at h
  split at h
  · cases h
  · split at h
    · next hle =>
      cases h
      exact hle
    · cases h

/-- The fields of an accepted time are in the ranges that are checked. -/
theorem LocalNaiveTime.bounds_of_fromStr {s : List Char} {t : LocalNaiveTime} (h : fromStr s = .ok t) :
    t.hour ≤ 23 ∧ t.minute ≤ 59 ∧ t.second ≤ 60 := by
  unfold fromStr at h
  split at h
  · obtain ⟨hour, hhour, h⟩ := except_bind_eq_ok.1 h
    split at h
    · obtain ⟨minute, hminute, h⟩ := except_bind_eq_ok.1 h
      obtain ⟨second, hsecond, h⟩ := except_bind_eq_ok.1 h
      cases h
      exact ⟨le_of_parseMax hhour, le_of_parseMax hminute, le_of_parseMax hsecond⟩
    · obtain ⟨minute, hminute, h⟩ := except_bind_eq_ok.1 h
      cases h
      exact ⟨le_of_parseMax hhour, le_of_parseMax hminute, Nat.zero_le _⟩
  · cases h

/-- An accepted time fits the library's type unless it is at a leap second. -/
theorem LocalNaiveTime.fits_iff_of_fromStr {s : List Char} {t : LocalNaiveTime} (h : fromStr s = .ok t) :
    t.Fits ↔ t.second ≠ 60 := by
  obtain ⟨hhour, hminute, hsecond⟩ := bounds_of_fromStr h
  unfold Fits
  omega

/-- Both times of an accepted range have been accepted. -/
theorem LocalNaiveTimeRange.exists_of_fromStr {s : List Char} {r : LocalNaiveTimeRange} (h : fromStr s = .ok r) :
    (∃ s', LocalNaiveTime.fromStr s' = .ok r.from_) ∧ ∃ s', LocalNaiveTime.fromStr s' = .ok r.to_ := by
  unfold fromStr at h
  split at h
  · next from_ to_ hsplit =>
    obtain ⟨start, hstart, h⟩ := except_bind_eq_ok.1 h
    obtain ⟨stop, hstop, h⟩ := except_bind_eq_ok.1 h
    cases h
    exact ⟨⟨trim from_, mapError_eq_ok.1 hstart⟩, trim to_, mapError_eq_ok.1 hstop⟩
  · cases h
  · cases h

/-! ### When the conversions return -/

namespace LocalNaiveTimeRange

variable {tz : LocalTz} {r : LocalNaiveTimeRange} {nd : NaiveDate} {t : DateTime}

theorem resolve_eq_none_iff : tz.resolve nd r.from_ = none ↔ ∀ v, tz.fromLocal nd r.from_.seconds ≠ .single v := by
  unfold LocalTz.resolve
  cases tz.fromLocal nd r.from_.seconds with
  | none => simp
  | single v => simp
  | ambiguous earliest latest => simp

/-- The closure `dtr_from_nd`, if the end does not have to be looked at or fits. -/
theorem dtrFromNd_eq_of_fitsOn {ε : Type} (h : r.FitsOn tz nd) :
    (r.dtrFromNd tz nd : Outcome ε _) = .ok (r.windowOn tz nd) := by
  obtain ⟨hfrom, hto | hnone⟩ := h
  · exact dtrFromNd_eq hfrom hto nd
  · have hresolve := resolve_eq_none_iff.2 hnone
    rw [dtrFromNd, LocalNaiveTime.withDate_eq_resolve hfrom, hresolve, windowOn, hresolve, Outcome.ok_bind]
    rfl

/-- If there is a window today then the end has been looked at, and fits. -/
theorem fits_of_windowOn {dtr : DateTimeRange} (h : r.FitsOn tz nd) (hwindow : r.windowOn tz nd = some dtr) : r.to_.Fits := by
  by_contra hto
  have hnone := resolve_eq_none_iff.2 (h.2.resolve_left hto)
  rw [(windowOn_eq_some.1 hwindow).1] at hnone
  cases hnone

/-- Today's window is over, and tomorrow's one has begun already. -/
def TomorrowBegun (tz : LocalTz) (r : LocalNaiveTimeRange) (t : DateTime) : Prop :=
  ∃ today next, r.windowOn tz (tz.dateNaive t) = some today ∧ r.windowOn tz (tz.dateNaive t + 1) = some next ∧
    today.to_ ≤ t ∧ next.contains t = true

/-- The `todo!()` is all that can be reached. -/
theorem afterDatetime_returns_iff (h : r.FitsOn tz (tz.dateNaive t)) (allowTimeInsideRange : Bool) :
    (∃ dtr, (r.afterDatetime tz t allowTimeInsideRange : Outcome Empty _) = .ok dtr) ↔
      ¬ (allowTimeInsideRange = false ∧ r.TomorrowBegun tz t) := by
  rw [afterDatetime, dtrFromNd_eq_of_fitsOn h, Outcome.ok_bind]
  cases htoday : r.windowOn tz (tz.dateNaive t) with
  | none =>
    refine iff_of_true ⟨none, rfl⟩ ?_
    rintro ⟨-, today, next, htoday', -⟩
    rw [htoday] at htoday'
    cases htoday'
  | some today =>
    have hto := fits_of_windowOn h htoday
    dsimp only
    by_cases hpast : today.to_ ≤ t
    · have hinside : ¬ today.contains t = true := fun hc => absurd (contains_iff.1 hc).2 (not_lt.2 hpast)
      rw [if_neg hinside, if_pos hpast, dtrFromNd_eq h.1 hto, Outcome.ok_bind]
      cases hnext : r.windowOn tz (tz.dateNaive t + 1) with
      | none =>
        refine iff_of_true ⟨none, rfl⟩ ?_
        rintro ⟨-, today', next, -, hnext', -⟩
        rw [hnext] at hnext'
        cases hnext'
      | some next =>
        have hbegun : r.TomorrowBegun tz t ↔ next.contains t = true := by
          constructor
          · rintro ⟨today', next', htoday', hnext', -, hcontains⟩
            rw [hnext] at hnext'
            rwa [Option.some.inj hnext']
          · intro hcontains
            exact ⟨today, next, htoday, hnext, hpast, hcontains⟩
        rw [hbegun]
        dsimp only
        by_cases hcontains : (!allowTimeInsideRange && next.contains t) = true
        · rw [if_pos hcontains]
          refine iff_of_false ?_ fun hnot => hnot ?_
          · rintro ⟨dtr, hdtr⟩
            cases hdtr
          · simpa using hcontains
        · rw [if_neg hcontains]
          exact iff_of_true ⟨some next, rfl⟩ (by simpa using hcontains)
    · -- The assertion holds, and nothing is left to fail.
      have hnot : ¬ (allowTimeInsideRange = false ∧ r.TomorrowBegun tz t) := by
        rintro ⟨-, today', next, htoday', -, hpast', -⟩
        rw [htoday] at htoday'
        rw [Option.some.inj htoday'] at hpast
        exact hpast hpast'
      refine iff_of_true ?_ hnot
      by_cases hinside : today.contains t = true
      · rw [if_pos hinside]
        split
        · exact ⟨some today, rfl⟩
        · exact dtrFromNd_of_fits h.1 hto _
      · have hfuture : t < today.from_ := by
          by_contra hge
          exact hinside (contains_iff.2 ⟨not_lt.1 hge, not_le.1 hpast⟩)
        rw [if_neg hinside, if_neg hpast, if_pos hfuture, dtrFromNd_eq h.1 hto, Outcome.ok_bind]
        cases r.windowOn tz (tz.dateNaive t - 1) with
        | none => exact ⟨none, rfl⟩
        | some prev =>
          dsimp only
          split
          · split
            · exact ⟨some prev, rfl⟩
            · exact ⟨some today, rfl⟩
          · split
            · exact ⟨some prev, rfl⟩
            · exact ⟨some today, rfl⟩

/-- `FitsOn` for accepted texts: the start is not at a leap second, and neither is the end if it is looked at. -/
theorem fitsOn_iff_of_fromStr {s : List Char} (h : fromStr s = .ok r) :
    r.FitsOn tz nd ↔ r.from_.second ≠ 60 ∧ (r.to_.second ≠ 60 ∨ tz.resolve nd r.from_ = none) := by
  obtain ⟨⟨sfrom, hfrom⟩, sto, hto⟩ := exists_of_fromStr h
  rw [FitsOn, LocalNaiveTime.fits_iff_of_fromStr hfrom, LocalNaiveTime.fits_iff_of_fromStr hto, resolve_eq_none_iff]

end LocalNaiveTimeRange

/-- **Accepted times resolve without a panic** if they are not at a leap second: a time of day on every date; the window that
starts on a date, where the end is looked at only if the start denotes one instant; and the window around or after a time,
unless times inside of it are not allowed and tomorrow's window has begun when today's one is over. -/
theorem accepted_times_resolve_iff (tz : LocalTz) (nd : NaiveDate) (x : DateTime) (allowTimeInsideRange : Bool) :
    (∀ s t, LocalNaiveTime.fromStr s = .ok t →
        ((∃ v, (t.withDateAsUnambiguousLocal tz nd : Outcome Empty _) = .ok v) ↔ t.second ≠ 60)) ∧
      ∀ s r, LocalNaiveTimeRange.fromStr s = .ok r →
        ((∃ dtr, (r.withStartDateAsUnambiguousLocals tz nd : Outcome Empty _) = .ok dtr) ↔
          r.from_.second ≠ 60 ∧ (r.to_.second ≠ 60 ∨ tz.resolve nd r.from_ = none)) ∧
        ((∃ dtr, (r.afterDatetime tz x allowTimeInsideRange : Outcome Empty _) = .ok dtr) ↔
          (r.from_.second ≠ 60 ∧ (r.to_.second ≠ 60 ∨ tz.resolve (tz.dateNaive x) r.from_ = none)) ∧
            ¬ (allowTimeInsideRange = false ∧ r.TomorrowBegun tz x)) := by
  refine ⟨fun s t h => ?_, fun s r h => ⟨?_, ?_⟩⟩
  · rw [← LocalNaiveTime.fits_iff_of_fromStr h]
    by_cases hfits : t.Fits
    · exact iff_of_true ⟨_, LocalNaiveTime.withDate_eq_resolve hfits⟩ hfits
    · refine iff_of_false ?_ hfits
      rintro ⟨v, hv⟩
      rw [LocalNaiveTimeRange.withDate_of_not_fits hfits] at hv
      cases hv
  · rw [← LocalNaiveTimeRange.fitsOn_iff_of_fromStr h, LocalNaiveTimeRange.withStartDate_eq_dtrFromNd]
    by_cases hfits : r.FitsOn tz nd
    · exact iff_of_true (LocalNaiveTimeRange.dtrFromNd_of_fitsOn hfits) hfits
    · refine iff_of_false ?_ hfits
      rintro ⟨dtr, hdtr⟩
      rw [LocalNaiveTimeRange.dtrFromNd_of_not_fitsOn hfits] at hdtr
      cases hdtr
  · rw [← LocalNaiveTimeRange.fitsOn_iff_of_fromStr h]
    by_cases hfits : r.FitsOn tz (tz.dateNaive x)
    · rw [LocalNaiveTimeRange.afterDatetime_returns_iff hfits, and_iff_right hfits]
    · refine iff_of_false ?_ fun hand => hfits hand.1
      rintro ⟨dtr, hdtr⟩
      rw [LocalNaiveTimeRange.afterDatetime, LocalNaiveTimeRange.dtrFromNd_of_not_fitsOn hfits] at hdtr
      cases hdtr

/-- The window around midnight. -/
theorem accepted_times_resolve_sample :
    ∃ dtr, (LocalNaiveTimeRange.nightHours.afterDatetime utc 0 true : Outcome Empty _) = .ok dtr :=
  ((accepted_times_resolve_iff utc 0 0 true).2 "22:00 - 6:00".toList LocalNaiveTimeRange.nightHours
    (by decide +kernel)).2.2 ⟨⟨by decide, .inl (by decide)⟩, fun h => Bool.noConfusion h.1⟩

/-- The last second of a minute with a leap second is accepted as a time, alone or in a range, and then there is a panic. -/
theorem leap_second_panics :
    LocalNaiveTime.fromStr "23:59:60".toList = .ok ⟨23, 59, 60⟩ ∧
      (LocalNaiveTime.withDateAsUnambiguousLocal utc ⟨23, 59, 60⟩ 0 : Outcome Empty _) = .panic "fitting range" ∧
      LocalNaiveTimeRange.fromStr "22:00 - 23:59:60".toList = .ok ⟨⟨22, 0, 0⟩, ⟨23, 59, 60⟩⟩ ∧
      (LocalNaiveTimeRange.withStartDateAsUnambiguousLocals utc ⟨⟨22, 0, 0⟩, ⟨23, 59, 60⟩⟩ 0 : Outcome Empty _) =
        .panic "fitting range" ∧
      (LocalNaiveTimeRange.afterDatetime utc ⟨⟨22, 0, 0⟩, ⟨23, 59, 60⟩⟩ 0 true : Outcome Empty _) = .panic "fitting range" := by
  decide +kernel

end Evobench.DateAndTime

import Evobench.DateAndTime.TimeRanges
import Evobench.Library.Windows
import Mathlib.Order.Monotone.Defs

/-!
# The next time window

`LocalNaiveTimeRange.afterDatetime` looks at the windows that start today, tomorrow and yesterday. `next_window` says that
this is enough, where all local times denote one instant, in order: the window that is returned is the earliest one of all
dates that ends after the given time or, if times inside of it are not allowed, that starts after it. Windows may cross
midnight, and may be empty.
-/

namespace Evobench.DateAndTime

open Library

/-! ### Local times that denote one instant -/

/-- The instant that a time of day denotes on a date, if it is exactly one. -/
def LocalTz.resolve (tz : LocalTz) (nd : NaiveDate) (t : LocalNaiveTime) : Option DateTime :=
  match tz.fromLocal nd t.seconds with
  | .single v => some v
  | _ => none

namespace LocalNaiveTime

variable {ε : Type} {tz : LocalTz} {nd : NaiveDate} {t : LocalNaiveTime} {v : DateTime}

theorem withDate_eq_resolve (h : t.Fits) : (t.withDateAsUnambiguousLocal tz nd : Outcome ε _) = .ok (tz.resolve nd t) :=
  LocalNaiveTimeRange.withDate_of_fits h

/-- Only a time that fits is resolved. -/
theorem withDate_eq_some :
    (t.withDateAsUnambiguousLocal tz nd : Outcome ε _) = .ok (some v) ↔ t.Fits ∧ tz.resolve nd t = some v := by
  by_cases h : t.Fits
  · rw [withDate_eq_resolve h]
    simp [h]
  · rw [LocalNaiveTimeRange.withDate_of_not_fits h]
    simp [h]

/-- The start of a day. -/
def midnight : LocalNaiveTime := ⟨0, 0, 0⟩

theorem midnight_le (t : LocalNaiveTime) : midnight ≤ t := by
  show fields midnight ≤ fields t
  rw [fields, fields, Prod.Lex.toLex_le_toLex]
  rcases Nat.eq_zero_or_pos t.hour with hhour | hhour
  · refine .inr ⟨hhour.symm, ?_⟩
    rw [Prod.Lex.toLex_le_toLex]
    rcases Nat.eq_zero_or_pos t.minute with hminute | hminute
    · exact .inr ⟨hminute.symm, Nat.zero_le _⟩
    · exact .inl hminute
  · exact .inl hhour

/-- The seconds of times that fit are in the order of the times. -/
theorem seconds_lt {t t' : LocalNaiveTime} (h : t.Fits) (hlt : t < t') : t.seconds < t'.seconds := by
  obtain ⟨-, hminute, hsecond⟩ := h
  change fields t < fields t' at hlt
  rw [fields, fields, Prod.Lex.toLex_lt_toLex, Prod.Lex.toLex_lt_toLex] at hlt
  unfold seconds
  dsimp only at hlt
  omega

theorem seconds_lt_day {t : LocalNaiveTime} (h : t.Fits) : t.seconds < 86400 := by
  obtain ⟨hhour, hminute, hsecond⟩ := h
  unfold seconds
  omega

end LocalNaiveTime

/-! ### The window of a date -/

namespace LocalNaiveTimeRange

/-- The date of the end of the window that starts on a date. -/
def endDate (r : LocalNaiveTimeRange) (nd : NaiveDate) : NaiveDate := if r.crossesDayBoundary then nd + 1 else nd

/-- The window that starts on a date, if both of its ends denote one instant. -/
def windowOn (tz : LocalTz) (r : LocalNaiveTimeRange) (nd : NaiveDate) : Option DateTimeRange :=
  match tz.resolve nd r.from_, tz.resolve (r.endDate nd) r.to_ with
  | some start, some stop => some ⟨start, stop⟩
  | _, _ => none

variable {ε : Type} {tz : LocalTz} {r : LocalNaiveTimeRange} {nd : NaiveDate} {dtr : DateTimeRange}

theorem windowOn_eq_some :
    r.windowOn tz nd = some dtr ↔ tz.resolve nd r.from_ = some dtr.from_ ∧ tz.resolve (r.endDate nd) r.to_ = some dtr.to_ := by
  obtain ⟨start, stop⟩ := dtr
  unfold windowOn
  cases tz.resolve nd r.from_ with
  | none => simp
  | some start' =>
    cases tz.resolve (r.endDate nd) r.to_ with
    | none => simp
    | some stop' => simp

/-- What the closure `dtr_from_nd` calculates. -/
theorem dtrFromNd_eq (hfrom : r.from_.Fits) (hto : r.to_.Fits) (nd : NaiveDate) :
    (r.dtrFromNd tz nd : Outcome ε _) = .ok (r.windowOn tz nd) := by
  rw [dtrFromNd, LocalNaiveTime.withDate_eq_resolve hfrom, windowOn, Outcome.ok_bind]
  cases tz.resolve nd r.from_ with
  | none => rfl
  | some start =>
    dsimp only
    rw [LocalNaiveTime.withDate_eq_resolve hto, Outcome.ok_bind]
    rw [endDate]
    cases tz.resolve (if r.crossesDayBoundary then nd + 1 else nd) r.to_ with
    | none => rfl
    | some stop => rfl

/-- `with_start_date_as_unambiguous_locals` -/
def withStartDateAsUnambiguousLocals (tz : LocalTz) (r : LocalNaiveTimeRange) (nd : NaiveDate) :
    Outcome ε (Option DateTimeRange) := do
  match ← r.from_.withDateAsUnambiguousLocal tz nd with
  | none => pure none
  | some start =>
    let ndEnd := if r.crossesDayBoundary then nd + 1 else nd
    match ← r.to_.withDateAsUnambiguousLocal tz ndEnd with
    | none => pure none
    | some stop => pure (some ⟨start, stop⟩)

/-- The method does what the closure in `after_datetime` does. -/
theorem withStartDate_eq_dtrFromNd :
    (r.withStartDateAsUnambiguousLocals tz nd : Outcome ε _) = r.dtrFromNd tz nd := rfl

theorem contains_iff {dtr : DateTimeRange} {t : DateTime} : dtr.contains t = true ↔ dtr.from_ ≤ t ∧ t < dtr.to_ := by
  simp [DateTimeRange.contains]

end LocalNaiveTimeRange

/-! ### UTC -/

/-- The instant of a local time that is a number of seconds after midnight, where the local time is UTC. -/
def utcInstant (nd : ℤ) (seconds : ℕ) : ℤ := (86400 * nd + seconds) * 1000000000

theorem utcInstant_lt {nd nd' : ℤ} {seconds seconds' : ℕ} (h : nd < nd' ∨ nd = nd' ∧ seconds < seconds')
    (hseconds : seconds < 86400) : utcInstant nd seconds < utcInstant nd' seconds' := by
  unfold utcInstant
  omega

/-- UTC. -/
def utc : LocalTz where
  dateNaive t := t / 86400000000000
  fromLocal nd seconds := .single (utcInstant nd seconds)

/-! ### Total resolution -/

/-- **All local times in question denote one instant**, and the instants are in the order of date and time of day. -/
structure LocalTz.Total (tz : LocalTz) (r : LocalNaiveTimeRange) (instant : NaiveDate → LocalNaiveTime → DateTime) :
    Prop where
  /-- There is one instant, on all dates. -/
  resolves : ∀ t ∈ [LocalNaiveTime.midnight, r.from_, r.to_], ∀ nd,
    (t.withDateAsUnambiguousLocal tz nd : Outcome Empty _) = .ok (some (instant nd t))
  /-- The instants are in order. -/
  strictMono : StrictMonoOn (fun local_ : NaiveDate ×ₗ LocalNaiveTime => instant (ofLex local_).1 (ofLex local_).2)
    {local_ | (ofLex local_).2 ∈ [LocalNaiveTime.midnight, r.from_, r.to_]}

namespace LocalTz.Total

variable {tz : LocalTz} {r : LocalNaiveTimeRange} {instant : NaiveDate → LocalNaiveTime → DateTime}

theorem lt_of_date (h : tz.Total r instant) {nd nd' : NaiveDate} {t t' : LocalNaiveTime} (hlt : nd < nd')
    (ht : t ∈ [LocalNaiveTime.midnight, r.from_, r.to_]) (ht' : t' ∈ [LocalNaiveTime.midnight, r.from_, r.to_]) :
    instant nd t < instant nd' t' :=
  h.strictMono (a := toLex (nd, t)) ht (b := toLex (nd', t')) ht' (Prod.Lex.toLex_lt_toLex.2 (.inl hlt))

theorem lt_of_time (h : tz.Total r instant) (nd : NaiveDate) {t t' : LocalNaiveTime} (hlt : t < t')
    (ht : t ∈ [LocalNaiveTime.midnight, r.from_, r.to_]) (ht' : t' ∈ [LocalNaiveTime.midnight, r.from_, r.to_]) :
    instant nd t < instant nd t' :=
  h.strictMono (a := toLex (nd, t)) ht (b := toLex (nd, t')) ht' (Prod.Lex.toLex_lt_toLex.2 (.inr ⟨rfl, hlt⟩))

theorem le_of_time (h : tz.Total r instant) (nd : NaiveDate) {t t' : LocalNaiveTime} (hle : t ≤ t')
    (ht : t ∈ [LocalNaiveTime.midnight, r.from_, r.to_]) (ht' : t' ∈ [LocalNaiveTime.midnight, r.from_, r.to_]) :
    instant nd t ≤ instant nd t' := by
  rcases hle.eq_or_lt with rfl | hlt
  · exact le_refl _
  · exact (h.lt_of_time nd hlt ht ht').le

end LocalTz.Total

namespace LocalNaiveTimeRange

/-- The window of a date, with the instants that its ends denote. -/
def window (r : LocalNaiveTimeRange) (instant : NaiveDate → LocalNaiveTime → DateTime) (nd : NaiveDate) : DateTimeRange :=
  ⟨instant nd r.from_, instant (r.endDate nd) r.to_⟩

variable {tz : LocalTz} {r : LocalNaiveTimeRange} {instant : NaiveDate → LocalNaiveTime → DateTime}

private theorem mem_midnight : LocalNaiveTime.midnight ∈ [LocalNaiveTime.midnight, r.from_, r.to_] := List.mem_cons_self

private theorem mem_from : r.from_ ∈ [LocalNaiveTime.midnight, r.from_, r.to_] := by simp

private theorem mem_to : r.to_ ∈ [LocalNaiveTime.midnight, r.from_, r.to_] := by simp

/-- The windows of all dates, one after the other: one that crosses midnight ends before the time of its start. -/
def windows (h : tz.Total r instant) : Windows DateTime where
  start nd := (r.window instant nd).from_
  stop nd := (r.window instant nd).to_
  start_le_stop nd := by
    show instant nd r.from_ ≤ instant (r.endDate nd) r.to_
    by_cases hcross : r.to_ < r.from_
    · rw [endDate, crossesDayBoundary, if_pos (decide_eq_true hcross)]
      exact (h.lt_of_date (Int.lt_succ nd) mem_from mem_to).le
    · rw [endDate, crossesDayBoundary, if_neg (by simpa using hcross)]
      exact h.le_of_time nd (not_lt.1 hcross) mem_from mem_to
  stop_lt_start nd := by
    show instant (r.endDate nd) r.to_ < instant (nd + 1) r.from_
    by_cases hcross : r.to_ < r.from_
    · rw [endDate, crossesDayBoundary, if_pos (decide_eq_true hcross)]
      exact h.lt_of_time (nd + 1) hcross mem_to mem_from
    · rw [endDate, crossesDayBoundary, if_neg (by simpa using hcross)]
      exact h.lt_of_date (Int.lt_succ nd) mem_to mem_from

theorem fits_of_total (h : tz.Total r instant) : r.from_.Fits ∧ r.to_.Fits :=
  ⟨(LocalNaiveTime.withDate_eq_some.1 (h.resolves _ mem_from 0)).1, (LocalNaiveTime.withDate_eq_some.1 (h.resolves _ mem_to 0)).1⟩

/-- Every date has its window. -/
theorem dtrFromNd_of_total {ε : Type} (h : tz.Total r instant) (nd : NaiveDate) :
    (r.dtrFromNd tz nd : Outcome ε _) = .ok (some (r.window instant nd)) := by
  have hwindow : r.windowOn tz nd = some (r.window instant nd) :=
    windowOn_eq_some.2 ⟨(LocalNaiveTime.withDate_eq_some.1 (h.resolves _ mem_from nd)).2,
      (LocalNaiveTime.withDate_eq_some.1 (h.resolves _ mem_to (r.endDate nd))).2⟩
  rw [dtrFromNd_eq (fits_of_total h).1 (fits_of_total h).2, hwindow]

/-! ### The next window -/

section NextWindow

variable {t : DateTime}

/-- The window of a later date starts later than a time before midnight. -/
theorem lt_from_of_midnight (h : tz.Total r instant) {nd : NaiveDate} (ht : t < instant nd LocalNaiveTime.midnight) :
    t < (r.window instant nd).from_ :=
  ht.trans_le (h.le_of_time nd (LocalNaiveTime.midnight_le r.from_) mem_midnight mem_from)

/-- The window of an earlier date starts earlier than a time after midnight. -/
theorem from_lt_of_midnight (h : tz.Total r instant) {nd : NaiveDate} (ht : instant nd LocalNaiveTime.midnight ≤ t) :
    (r.window instant (nd - 1)).from_ < t :=
  (h.lt_of_date (Int.sub_one_lt_iff.2 (le_refl nd)) mem_from mem_midnight).trans_le ht

/-- A time inside of today's window. -/
theorem afterDatetime_of_inside (h : tz.Total r instant)
    (hinside : (r.window instant (tz.dateNaive t)).contains t = true) :
    (r.afterDatetime tz t true : Outcome Empty _) = .ok (some (r.window instant (tz.dateNaive t))) ∧
      (r.afterDatetime tz t false : Outcome Empty _) = .ok (some (r.window instant (tz.dateNaive t + 1))) := by
  constructor
  · rw [afterDatetime, dtrFromNd_of_total h, Outcome.ok_bind]
    dsimp only
    rw [if_pos hinside, if_pos rfl]
    rfl
  · rw [afterDatetime, dtrFromNd_of_total h, Outcome.ok_bind]
    dsimp only
    rw [if_pos hinside, if_neg Bool.false_ne_true, dtrFromNd_of_total h]

/-- Today's window is over: tomorrow's one is looked at, which has not begun, so that the `todo!()` is not reached. -/
theorem afterDatetime_of_past (h : tz.Total r instant) (hpast : (r.window instant (tz.dateNaive t)).to_ ≤ t)
    (hnext : t < (r.window instant (tz.dateNaive t + 1)).from_) (allowTimeInsideRange : Bool) :
    (r.afterDatetime tz t allowTimeInsideRange : Outcome Empty _) =
      .ok (some (r.window instant (tz.dateNaive t + 1))) := by
  have hinside : ¬ (r.window instant (tz.dateNaive t)).contains t = true := fun hc =>
    absurd (contains_iff.1 hc).2 (not_lt.2 hpast)
  have hnextInside : (r.window instant (tz.dateNaive t + 1)).contains t = false :=
    Bool.eq_false_iff.2 fun hc => absurd (contains_iff.1 hc).1 (not_le.2 hnext)
  rw [afterDatetime, dtrFromNd_of_total h, Outcome.ok_bind]
  dsimp only
  rw [if_neg hinside, if_pos hpast, dtrFromNd_of_total h, Outcome.ok_bind]
  dsimp only
  rw [hnextInside, Bool.and_false, if_neg Bool.false_ne_true]
  rfl

/-- Today's window has not begun: the time may be in yesterday's one. -/
theorem afterDatetime_of_future (h : tz.Total r instant) (hfuture : t < (r.window instant (tz.dateNaive t)).from_)
    (hprev : (r.window instant (tz.dateNaive t - 1)).from_ < t) (allowTimeInsideRange : Bool) :
    (r.afterDatetime tz t allowTimeInsideRange : Outcome Empty _) =
      .ok (some (if t < (r.window instant (tz.dateNaive t - 1)).to_ ∧ allowTimeInsideRange = true then
        r.window instant (tz.dateNaive t - 1) else r.window instant (tz.dateNaive t))) := by
  have hinside : ¬ (r.window instant (tz.dateNaive t)).contains t = true := fun hc =>
    absurd (contains_iff.1 hc).1 (not_le.2 hfuture)
  have hpast : ¬ (r.window instant (tz.dateNaive t)).to_ ≤ t :=
    not_le.2 (hfuture.trans_le ((windows h).start_le_stop (tz.dateNaive t)))
  rw [afterDatetime, dtrFromNd_of_total h, Outcome.ok_bind]
  dsimp only
  rw [if_neg hinside, if_neg hpast, if_pos hfuture, dtrFromNd_of_total h, Outcome.ok_bind]
  dsimp only
  by_cases hprevInside : t < (r.window instant (tz.dateNaive t - 1)).to_
  · rw [if_pos (contains_iff.2 ⟨hprev.le, hprevInside⟩)]
    cases allowTimeInsideRange with
    | true => simp [hprevInside]
    | false => simp
  · rw [if_neg fun hc => hprevInside (contains_iff.1 hc).2, if_neg (not_lt.2 hprev.le),
      if_neg fun hc => hprevInside hc.1]
    rfl

/-- **The next window**: the earliest one of all dates that ends after the time or, if times inside of the window are not
allowed, the earliest one that starts after it. -/
theorem next_window (tz : LocalTz) (r : LocalNaiveTimeRange) (instant : NaiveDate → LocalNaiveTime → DateTime)
    (h : tz.Total r instant) (t : DateTime) (hstart : instant (tz.dateNaive t) LocalNaiveTime.midnight ≤ t)
    (hstop : t < instant (tz.dateNaive t + 1) LocalNaiveTime.midnight) :
    (∃ nd, (r.afterDatetime tz t true : Outcome Empty _) = .ok (some (r.window instant nd)) ∧
        IsLeast {nd | t < (r.window instant nd).to_} nd) ∧
      ∃ nd, (r.afterDatetime tz t false : Outcome Empty _) = .ok (some (r.window instant nd)) ∧
        IsLeast {nd | t < (r.window instant nd).from_} nd := by
  have hprev := from_lt_of_midnight h hstart
  have hnext := lt_from_of_midnight h hstop
  have hnextStop : t < (r.window instant (tz.dateNaive t + 1)).to_ :=
    hnext.trans_le ((windows h).start_le_stop (tz.dateNaive t + 1))
  -- What is before today, seen from tomorrow.
  have htoday : tz.dateNaive t + 1 - 1 = tz.dateNaive t := Int.add_sub_cancel _ _
  by_cases hpast : (r.window instant (tz.dateNaive t)).to_ ≤ t
  · have hfrom : (r.window instant (tz.dateNaive t)).from_ ≤ t :=
      ((windows h).start_le_stop (tz.dateNaive t)).trans hpast
    refine ⟨⟨_, afterDatetime_of_past h hpast hnext true, ?_⟩, _, afterDatetime_of_past h hpast hnext false, ?_⟩
    · exact (windows h).isLeast_stop (by rw [htoday]; exact hpast) hnextStop
    · exact (windows h).isLeast_start (by rw [htoday]; exact hfrom) hnext
  · rw [not_le] at hpast
    by_cases hfuture : t < (r.window instant (tz.dateNaive t)).from_
    · refine ⟨?_, tz.dateNaive t, ?_, (windows h).isLeast_start hprev.le hfuture⟩
      · by_cases hprevInside : t < (r.window instant (tz.dateNaive t - 1)).to_
        · refine ⟨tz.dateNaive t - 1, ?_, ?_⟩
          · rw [afterDatetime_of_future h hfuture hprev true, if_pos ⟨hprevInside, rfl⟩]
          · have hbefore := (windows h).stop_lt_start (tz.dateNaive t - 1 - 1)
            rw [Int.sub_add_cancel] at hbefore
            exact (windows h).isLeast_stop (hbefore.trans hprev).le hprevInside
        · refine ⟨tz.dateNaive t, ?_, (windows h).isLeast_stop (not_lt.1 hprevInside) hpast⟩
          rw [afterDatetime_of_future h hfuture hprev true, if_neg fun hc => hprevInside hc.1]
      · rw [afterDatetime_of_future h hfuture hprev false, if_neg fun hc => Bool.false_ne_true hc.2]
    · rw [not_lt] at hfuture
      obtain ⟨hallowed, hnot⟩ := afterDatetime_of_inside h (contains_iff.2 ⟨hfuture, hpast⟩)
      refine ⟨⟨_, hallowed, ?_⟩, _, hnot, ?_⟩
      · have hbefore := (windows h).stop_lt_start (tz.dateNaive t - 1)
        rw [Int.sub_add_cancel] at hbefore
        exact (windows h).isLeast_stop (hbefore.trans_le hfuture).le hpast
      · exact (windows h).isLeast_start (by rw [htoday]; exact hfuture) hnext

/-- From ten in the evening to six. -/
def nightHours : LocalNaiveTimeRange := ⟨⟨22, 0, 0⟩, ⟨6, 0, 0⟩⟩

theorem utc_total : utc.Total nightHours fun nd t => utcInstant nd t.seconds where
  resolves := by
    intro t ht nd
    have hfits : ∀ t ∈ [LocalNaiveTime.midnight, nightHours.from_, nightHours.to_], t.Fits := by decide
    exact LocalNaiveTime.withDate_eq_resolve (hfits t ht)
  strictMono := by
    intro a ha b hb hlt
    have hfits : ∀ t ∈ [LocalNaiveTime.midnight, nightHours.from_, nightHours.to_], t.Fits := by decide
    refine utcInstant_lt ?_ (LocalNaiveTime.seconds_lt_day (hfits _ ha))
    rcases Prod.Lex.lt_iff.1 hlt with hdate | ⟨hdate, htime⟩
    · exact .inl hdate
    · exact .inr ⟨hdate, LocalNaiveTime.seconds_lt (hfits _ ha) htime⟩

/-- Half past midnight. -/
theorem next_window_sample :
    (∃ nd, (nightHours.afterDatetime utc 1800000000000 true : Outcome Empty _) =
          .ok (some (nightHours.window (fun nd t => utcInstant nd t.seconds) nd)) ∧
        IsLeast {nd | 1800000000000 < (nightHours.window (fun nd t => utcInstant nd t.seconds) nd).to_} nd) ∧
      ∃ nd, (nightHours.afterDatetime utc 1800000000000 false : Outcome Empty _) =
          .ok (some (nightHours.window (fun nd t => utcInstant nd t.seconds) nd)) ∧
        IsLeast {nd | 1800000000000 < (nightHours.window (fun nd t => utcInstant nd t.seconds) nd).from_} nd :=
  next_window utc nightHours _ utc_total 1800000000000 (by decide) (by decide)

end NextWindow

end LocalNaiveTimeRange

end Evobench.DateAndTime

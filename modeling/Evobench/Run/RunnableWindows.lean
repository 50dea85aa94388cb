import Evobench.Run.Config
import Evobench.DateAndTime.NextWindow

/-!
# When a windowed queue is runnable

`ScheduleCondition.isRunnableAt` asks for the window around a time, and `after_datetime` begins with the window that starts
today: if that one does not resolve, because one of its ends is skipped or repeated when the clocks are changed, it gives up.
The window that has started yesterday and contains the time is then never looked at. `runs_inside_windows_iff` says that this
is the only way in which a queue is not run inside of its windows, and exactly them, apart from times at a leap second.

Local times may denote no instant or several ones here; `LocalTz.Monotone` is about those that denote exactly one.
-/

namespace Evobench.DateAndTime

open Library

/-! ### Partial resolution -/

/-- **The instants of local times are in order**, as far as there is exactly one for a local time. -/
structure LocalTz.Monotone (tz : LocalTz) : Prop where
  /-- On one date they are in the order of the times of day. -/
  time_lt : ∀ nd t t' v v', t.Fits → t'.Fits → t < t' → tz.resolve nd t = some v → tz.resolve nd t' = some v' → v < v'
  /-- The instants with a later local date are later. -/
  lt_of_date : ∀ nd t v x, t.Fits → tz.resolve nd t = some v → nd < tz.dateNaive x → v < x
  /-- The instants with an earlier local date are earlier. -/
  gt_of_date : ∀ nd t v x, t.Fits → tz.resolve nd t = some v → tz.dateNaive x < nd → x < v

namespace LocalNaiveTimeRange

/-- The window that starts on the date has both endpoints resolvable. -/
def HasWindow (tz : LocalTz) (r : LocalNaiveTimeRange) (nd : NaiveDate) (dtr : DateTimeRange) : Prop :=
  (r.withStartDateAsUnambiguousLocals tz nd : Outcome Empty _) = .ok (some dtr)

instance (tz : LocalTz) (r : LocalNaiveTimeRange) (nd : NaiveDate) (dtr : DateTimeRange) : Decidable (r.HasWindow tz nd dtr) :=
  inferInstanceAs (Decidable (_ = _))

variable {tz : LocalTz} {r : LocalNaiveTimeRange} {nd : NaiveDate} {t : DateTime} {dtr dtr' : DateTimeRange}

theorem hasWindow_iff : r.HasWindow tz nd dtr ↔ (r.from_.Fits ∧ r.to_.Fits) ∧ r.windowOn tz nd = some dtr := by
  rw [HasWindow, withStartDate_eq_dtrFromNd]
  by_cases hfrom : r.from_.Fits
  · by_cases hto : r.to_.Fits
    · rw [dtrFromNd_eq hfrom hto]
      simp [hfrom, hto]
    · refine iff_of_false (fun h => ?_) fun h => hto h.1.2
      by_cases hfits : r.FitsOn tz nd
      · -- The start denotes no single instant, or else the end would have been looked at.
        have hnone := hfits.2.resolve_left hto
        rw [dtrFromNd, withDate_of_fits hfrom, Outcome.ok_bind] at h
        cases hlocal : tz.fromLocal nd r.from_.seconds with
        | none => simp [hlocal] at h
        | ambiguous earliest latest => simp [hlocal] at h
        | single start => exact hnone start hlocal
      · rw [dtrFromNd_of_not_fitsOn hfits] at h
        cases h
  · refine iff_of_false (fun h => ?_) fun h => hfrom h.1.1
    rw [dtrFromNd_of_not_fitsOn fun hfits => hfrom hfits.1] at h
    cases h

theorem endDate_of_crosses (h : r.to_ < r.from_) (nd : NaiveDate) : r.endDate nd = nd + 1 := by
  rw [endDate, crossesDayBoundary, if_pos (decide_eq_true h)]

theorem endDate_of_not_crosses (h : ¬ r.to_ < r.from_) (nd : NaiveDate) : r.endDate nd = nd := by
  rw [endDate, crossesDayBoundary, if_neg (by simpa using h)]

theorem endDate_le (nd : NaiveDate) : r.endDate nd ≤ nd + 1 := by
  rw [endDate]
  split
  · exact le_refl _
  · exact (Int.lt_succ nd).le

private theorem eq_or_eq_sub_one {a b : ℤ} (hle : a ≤ b) (hge : b ≤ a + 1) : a = b ∨ a = b - 1 := by omega

section Monotone

variable (hmono : tz.Monotone)
include hmono

/-- A window is not over before the date of its end. -/
theorem le_endDate (hto : r.to_.Fits) (h : r.windowOn tz nd = some dtr) (hlt : t < dtr.to_) : tz.dateNaive t ≤ r.endDate nd := by
  by_contra hnot
  exact absurd (hmono.lt_of_date _ _ _ t hto (windowOn_eq_some.1 h).2 (not_le.1 hnot)) (not_lt.2 hlt.le)

/-- A window has not begun before its date. -/
theorem le_dateNaive (hfrom : r.from_.Fits) (h : r.windowOn tz nd = some dtr) (hle : dtr.from_ ≤ t) : nd ≤ tz.dateNaive t := by
  by_contra hnot
  exact absurd (hmono.gt_of_date _ _ _ t hfrom (windowOn_eq_some.1 h).1 (not_le.1 hnot)) (not_lt.2 hle)

/-- A window of a date contains times of this date and of the next one only. -/
theorem date_of_contains (hfrom : r.from_.Fits) (hto : r.to_.Fits) (h : r.windowOn tz nd = some dtr)
    (hcontains : dtr.contains t = true) : nd = tz.dateNaive t ∨ nd = tz.dateNaive t - 1 := by
  obtain ⟨hle, hlt⟩ := contains_iff.1 hcontains
  exact eq_or_eq_sub_one (le_dateNaive hmono hfrom h hle) ((le_endDate hmono hto h hlt).trans (endDate_le nd))

/-- Only a window that crosses midnight is the one of yesterday. -/
theorem crosses_of_yesterday (hto : r.to_.Fits) (h : r.windowOn tz (tz.dateNaive t - 1) = some dtr)
    (hcontains : dtr.contains t = true) : r.to_ < r.from_ := by
  by_contra hnot
  have hle := le_endDate hmono hto h (contains_iff.1 hcontains).2
  rw [endDate_of_not_crosses hnot] at hle
  exact absurd hle (not_le.2 (Int.sub_one_lt_iff.2 (le_refl _)))

/-- Today's window, if it crosses midnight, is not over. -/
theorem lt_to_of_crosses (hto : r.to_.Fits) (hcross : r.to_ < r.from_) (h : r.windowOn tz (tz.dateNaive t) = some dtr) :
    t < dtr.to_ := by
  obtain ⟨-, hstop⟩ := windowOn_eq_some.1 h
  rw [endDate_of_crosses hcross] at hstop
  exact hmono.gt_of_date _ _ _ t hto hstop (Int.lt_succ _)

/-- The window of tomorrow has not begun. -/
theorem lt_from_of_tomorrow (hfrom : r.from_.Fits) (h : r.windowOn tz (tz.dateNaive t + 1) = some dtr) : t < dtr.from_ :=
  hmono.gt_of_date _ _ _ t hfrom (windowOn_eq_some.1 h).1 (Int.lt_succ _)

/-- While the window of yesterday contains the time, today's one has not begun. -/
theorem lt_from_of_yesterday (hfrom : r.from_.Fits) (hto : r.to_.Fits)
    (h : r.windowOn tz (tz.dateNaive t - 1) = some dtr) (hcontains : dtr.contains t = true)
    (h' : r.windowOn tz (tz.dateNaive t) = some dtr') : t < dtr'.from_ := by
  have hcross := crosses_of_yesterday hmono hto h hcontains
  obtain ⟨-, hstop⟩ := windowOn_eq_some.1 h
  rw [endDate_of_crosses hcross, Int.sub_add_cancel] at hstop
  exact (contains_iff.1 hcontains).2.trans
    (hmono.time_lt _ _ _ _ _ hto hfrom hcross hstop (windowOn_eq_some.1 h').1)

/-- Only the windows of today and of yesterday can contain a time. -/
theorem exists_window_iff (hfrom : r.from_.Fits) (hto : r.to_.Fits) :
    (∃ nd, r.HasWindow tz nd dtr ∧ dtr.contains t = true) ↔
      (r.windowOn tz (tz.dateNaive t) = some dtr ∨ r.windowOn tz (tz.dateNaive t - 1) = some dtr) ∧
        dtr.contains t = true := by
  constructor
  · rintro ⟨nd, hwindow, hcontains⟩
    have hon := (hasWindow_iff.1 hwindow).2
    rcases date_of_contains hmono hfrom hto hon hcontains with rfl | rfl
    · exact ⟨.inl hon, hcontains⟩
    · exact ⟨.inr hon, hcontains⟩
  · rintro ⟨hon | hon, hcontains⟩
    · exact ⟨_, hasWindow_iff.2 ⟨⟨hfrom, hto⟩, hon⟩, hcontains⟩
    · exact ⟨_, hasWindow_iff.2 ⟨⟨hfrom, hto⟩, hon⟩, hcontains⟩

/-- The window around a time that `after_datetime` finds: it is looked for only if the one of today resolves. -/
def windowAround (tz : LocalTz) (r : LocalNaiveTimeRange) (t : DateTime) : Option DateTimeRange :=
  match r.windowOn tz (tz.dateNaive t) with
  | none => none
  | some today =>
    if today.contains t then some today else (r.windowOn tz (tz.dateNaive t - 1)).filter (·.contains t)

/-- **What `after_datetime` returns**, as far as the time is inside of it. -/
theorem afterDatetime_spec {ε : Type} (hfrom : r.from_.Fits) (hto : r.to_.Fits) :
    ∃ dtr, (r.afterDatetime tz t true : Outcome ε _) = .ok dtr ∧ dtr.filter (·.contains t) = r.windowAround tz t := by
  rw [afterDatetime, dtrFromNd_eq hfrom hto, Outcome.ok_bind, windowAround]
  cases htoday : r.windowOn tz (tz.dateNaive t) with
  | none => exact ⟨none, rfl, rfl⟩
  | some today =>
    dsimp only
    by_cases hinside : today.contains t = true
    · rw [if_pos hinside, if_pos hinside]
      exact ⟨some today, rfl, by simp [hinside]⟩
    · rw [if_neg hinside, if_neg hinside]
      by_cases hpast : today.to_ ≤ t
      · -- Tomorrow's window has not begun, and yesterday's one is over.
        have hyesterday : (r.windowOn tz (tz.dateNaive t - 1)).filter (·.contains t) = none := by
          rw [Option.filter_eq_none_iff]
          intro prev hprev hcontains
          have hcross := crosses_of_yesterday hmono hto hprev hcontains
          exact absurd (lt_to_of_crosses hmono hto hcross htoday) (not_lt.2 hpast)
        rw [if_pos hpast, dtrFromNd_eq hfrom hto, Outcome.ok_bind, hyesterday]
        cases hnext : r.windowOn tz (tz.dateNaive t + 1) with
        | none => exact ⟨none, rfl, rfl⟩
        | some next =>
          have hoff : next.contains t = false := Bool.eq_false_iff.2 fun hc =>
            absurd (contains_iff.1 hc).1 (not_le.2 (lt_from_of_tomorrow hmono hfrom hnext))
          exact ⟨some next, rfl, by simp [hoff]⟩
      · have hfuture : t < today.from_ := by
          by_contra hnot
          exact hinside (contains_iff.2 ⟨not_lt.1 hnot, not_le.1 hpast⟩)
        rw [if_neg hpast, if_pos hfuture, dtrFromNd_eq hfrom hto, Outcome.ok_bind]
        cases r.windowOn tz (tz.dateNaive t - 1) with
        | none => exact ⟨none, rfl, rfl⟩
        | some prev =>
          dsimp only
          by_cases hprev : prev.contains t = true
          · rw [if_pos hprev]
            exact ⟨some prev, rfl, rfl⟩
          · rw [if_neg hprev]
            by_cases hbefore : t < prev.from_
            · rw [if_pos hbefore]
              exact ⟨some prev, rfl, rfl⟩
            · rw [if_neg hbefore]
              exact ⟨some today, rfl, by rw [Option.filter_some, Option.filter_some, if_neg hinside, if_neg hprev]⟩

end Monotone

end LocalNaiveTimeRange

end Evobench.DateAndTime

namespace Evobench.Run

open Library SerdeTypes DateAndTime

namespace ScheduleCondition

variable {tz : LocalTz} {r : LocalNaiveTimeRange} {t : DateTime}

/-- The queue is runnable exactly in the windows of its times: in the one that contains the time, if there is one. -/
def RunsInsideWindows (tz : LocalTz) (c : ScheduleCondition) (r : LocalNaiveTimeRange) (t : DateTime) : Prop :=
  ∃ window : Option DateTimeRange, (c.isRunnableAt tz t : Outcome Empty _) = .ok (window.map some) ∧
    ∀ dtr, window = some dtr ↔ ∃ nd, r.HasWindow tz nd dtr ∧ dtr.contains t = true

/-- A window is returned while it contains the time. -/
theorem isRunnableAt_of_afterDatetime {ε : Type} (priority : Option Priority) (situation : ProperFilename)
    (stopStart : Option (List String)) (repeatedly moveWhenTimeWindowEnds : Bool) {found : Option DateTimeRange}
    (h : (r.afterDatetime tz t true : Outcome ε _) = .ok found) :
    (isRunnableAt tz (.localNaiveTimeWindow priority situation stopStart repeatedly moveWhenTimeWindowEnds r.from_ r.to_) t :
      Outcome ε _) = .ok ((found.filter (·.contains t)).map some) := by
  rw [isRunnableAt, h, Outcome.ok_bind]
  cases found with
  | none => rfl
  | some dtr =>
    rw [Option.filter_some]
    dsimp only
    split
    · rfl
    · rfl

/-- The window around the time is the one that contains it, or the one of today does not resolve. -/
theorem windowAround_iff (hmono : tz.Monotone) (hfrom : r.from_.Fits) (hto : r.to_.Fits) :
    (∀ dtr, r.windowAround tz t = some dtr ↔ ∃ nd, r.HasWindow tz nd dtr ∧ dtr.contains t = true) ↔
      (∃ dtr, r.HasWindow tz (tz.dateNaive t) dtr) ∨
        ¬ ∃ dtr, r.HasWindow tz (tz.dateNaive t - 1) dtr ∧ dtr.contains t = true := by
  simp only [LocalNaiveTimeRange.exists_window_iff hmono hfrom hto]
  simp only [LocalNaiveTimeRange.hasWindow_iff, hfrom, hto, and_self, true_and, LocalNaiveTimeRange.windowAround]
  cases htoday : r.windowOn tz (tz.dateNaive t) with
  | none =>
    simp only [reduceCtorEq, false_iff, false_or, exists_false, not_and, not_exists]
  | some today =>
    refine iff_of_true (fun dtr => ?_) (.inl ⟨today, rfl⟩)
    dsimp only
    by_cases hinside : today.contains t = true
    · rw [if_pos hinside]
      constructor
      · rintro h
        exact ⟨.inl h, by rw [← Option.some.inj h]; exact hinside⟩
      · rintro ⟨h | h, hcontains⟩
        · exact h
        · -- Both cannot contain the time.
          have hnot := LocalNaiveTimeRange.lt_from_of_yesterday hmono hfrom hto h hcontains htoday
          exact absurd (LocalNaiveTimeRange.contains_iff.1 hinside).1 (not_le.2 hnot)
    · rw [if_neg hinside, Option.filter_eq_some_iff]
      constructor
      · rintro ⟨h, hcontains⟩
        exact ⟨.inr h, hcontains⟩
      · rintro ⟨h | h, hcontains⟩
        · rw [Option.some.inj h] at hinside
          exact absurd hcontains hinside
        · exact ⟨h, hcontains⟩

/-- **A windowed queue runs exactly inside its windows**, where its times have no second 60, unless the window that starts
today does not resolve while the one that has started yesterday contains the time. -/
theorem runs_inside_windows_iff (tz : LocalTz) (hmono : tz.Monotone) (priority : Option Priority)
    (situation : ProperFilename) (stopStart : Option (List String)) (repeatedly moveWhenTimeWindowEnds : Bool)
    (from_ to_ : LocalNaiveTime) (t : DateTime) :
    RunsInsideWindows tz
        (.localNaiveTimeWindow priority situation stopStart repeatedly moveWhenTimeWindowEnds from_ to_) ⟨from_, to_⟩ t ↔
      (LocalNaiveTimeRange.mk from_ to_).FitsOn tz (tz.dateNaive t) ∧
        ((∃ dtr, (LocalNaiveTimeRange.mk from_ to_).HasWindow tz (tz.dateNaive t) dtr) ∨
          ¬ ∃ dtr, (LocalNaiveTimeRange.mk from_ to_).HasWindow tz (tz.dateNaive t - 1) dtr ∧ dtr.contains t = true) := by
  let r : LocalNaiveTimeRange := ⟨from_, to_⟩
  by_cases hfits : r.FitsOn tz (tz.dateNaive t)
  · by_cases hto : to_.Fits
    · obtain ⟨found, hfound, hfilter⟩ :=
        LocalNaiveTimeRange.afterDatetime_spec (r := r) (t := t) (ε := Empty) hmono hfits.1 hto
      have hrun := isRunnableAt_of_afterDatetime priority situation stopStart repeatedly moveWhenTimeWindowEnds hfound
      rw [hfilter] at hrun
      rw [and_iff_right hfits, ← windowAround_iff hmono hfits.1 hto]
      constructor
      · rintro ⟨window, hwindow, hiff⟩
        rw [hrun, Outcome.ok.injEq] at hwindow
        have heq := Option.map_injective (Option.some_injective _) hwindow
        rwa [← heq] at hiff
      · intro hiff
        exact ⟨_, hrun, hiff⟩
    · -- No window has both of its ends, and the end of today's one is not looked at.
      have hnone : ∀ nd dtr, ¬ r.HasWindow tz nd dtr := fun nd dtr h => hto (LocalNaiveTimeRange.hasWindow_iff.1 h).1.2
      obtain ⟨today, htoday⟩ := LocalNaiveTimeRange.dtrFromNd_of_fitsOn (ε := Empty) hfits
      cases today with
      | some dtr => exact absurd htoday (hnone _ dtr)
      | none =>
        have hafter : (r.afterDatetime tz t true : Outcome Empty _) = .ok none := by
          rw [LocalNaiveTimeRange.afterDatetime, htoday, Outcome.ok_bind]
          rfl
        refine iff_of_true ⟨none, ?_, fun dtr => ?_⟩ ⟨hfits, .inr ?_⟩
        · exact isRunnableAt_of_afterDatetime priority situation stopStart repeatedly moveWhenTimeWindowEnds hafter
        · refine iff_of_false (fun h => by cases h) ?_
          rintro ⟨nd, hwindow, -⟩
          exact hnone nd dtr hwindow
        · rintro ⟨dtr, hwindow, -⟩
          exact hnone _ dtr hwindow
  · refine iff_of_false ?_ fun h => hfits h.1
    rintro ⟨window, hwindow, -⟩
    rw [isRunnableAt_of_not_fitsAt (c := .localNaiveTimeWindow priority situation stopStart repeatedly _ _ _) hfits] at hwindow
    cases hwindow

/-! ### The night after which the clocks go forward -/

/-- A time zone in which the clocks are changed, from two to three on day 1. -/
def springTz : LocalTz where
  dateNaive x := if x < 93600000000000 then x / 86400000000000 else (x + 3600000000000) / 86400000000000
  fromLocal nd seconds :=
    if nd < 1 ∨ nd = 1 ∧ seconds < 7200 then .single (utcInstant nd seconds)
    else if nd = 1 ∧ seconds < 10800 then .none
    else .single (utcInstant nd seconds - 3600000000000)

/-- Which instant a local time denotes there. -/
def SpringInstant (nd : ℤ) (seconds : ℕ) (v : ℤ) : Prop :=
  (nd < 1 ∨ nd = 1 ∧ seconds < 7200) ∧ v = (86400 * nd + seconds) * 1000000000 ∨
    (1 < nd ∨ nd = 1 ∧ 10800 ≤ seconds) ∧ v = (86400 * nd + seconds) * 1000000000 - 3600000000000

theorem springTz_resolve {nd : ℤ} {t : LocalNaiveTime} {v : ℤ} (h : springTz.resolve nd t = some v) :
    SpringInstant nd t.seconds v := by
  unfold LocalTz.resolve springTz at h
  dsimp only at h
  by_cases hbefore : nd < 1 ∨ nd = 1 ∧ t.seconds < 7200
  · rw [if_pos hbefore] at h
    exact .inl ⟨hbefore, (Option.some.inj h).symm⟩
  · rw [if_neg hbefore] at h
    by_cases hskipped : nd = 1 ∧ t.seconds < 10800
    · rw [if_pos hskipped] at h
      cases h
    · rw [if_neg hskipped] at h
      exact .inr ⟨by omega, (Option.some.inj h).symm⟩

section SpringInstant

variable {nd v x : ℤ} {seconds : ℕ}

theorem SpringInstant.lt {seconds' : ℕ} {v' : ℤ} (h : SpringInstant nd seconds v) (h' : SpringInstant nd seconds' v')
    (hlt : seconds < seconds') : v < v' := by
  unfold SpringInstant at h h'
  omega

theorem SpringInstant.lt_of_date (h : SpringInstant nd seconds v) (hday : seconds < 86400)
    (hlt : nd < if x < 93600000000000 then x / 86400000000000 else (x + 3600000000000) / 86400000000000) : v < x := by
  unfold SpringInstant at h
  split at hlt
  · omega
  · omega

theorem SpringInstant.gt_of_date (h : SpringInstant nd seconds v)
    (hlt : (if x < 93600000000000 then x / 86400000000000 else (x + 3600000000000) / 86400000000000) < nd) : x < v := by
  unfold SpringInstant at h
  split at hlt
  · omega
  · omega

end SpringInstant

theorem springTz_monotone : springTz.Monotone where
  time_lt _ _ _ _ _ ht _ hlt h h' := (springTz_resolve h).lt (springTz_resolve h') (LocalNaiveTime.seconds_lt ht hlt)
  lt_of_date _ _ _ _ ht h hlt := (springTz_resolve h).lt_of_date (LocalNaiveTime.seconds_lt_day ht) hlt
  gt_of_date _ _ _ _ _ h hlt := (springTz_resolve h).gt_of_date hlt

/-- A situation. -/
def lateHoursName : ProperFilename := ⟨"late-hours", by decide⟩

/-- At eleven in the evening a queue that is run from ten to six is runnable, although the night is shorter. -/
theorem runs_inside_windows_sample :
    RunsInsideWindows springTz (.localNaiveTimeWindow none lateHoursName none false false ⟨22, 0, 0⟩ ⟨6, 0, 0⟩)
      ⟨⟨22, 0, 0⟩, ⟨6, 0, 0⟩⟩ 82800000000000 :=
  (runs_inside_windows_iff springTz springTz_monotone none lateHoursName none false false ⟨22, 0, 0⟩ ⟨6, 0, 0⟩
    82800000000000).2
    ⟨⟨by decide, .inl (by decide)⟩, .inl ⟨⟨79200000000000, 104400000000000⟩, by decide +kernel⟩⟩

/-- From eleven in the evening to half past two. -/
def lateHours : LocalNaiveTimeRange := ⟨⟨23, 0, 0⟩, ⟨2, 30, 0⟩⟩

/-- At one o'clock on day 0 the queue is not runnable, although the window since eleven contains that time. -/
theorem not_run_inside_window :
    springTz.Monotone ∧ ¬ RunsInsideWindows springTz
      (.localNaiveTimeWindow none lateHoursName none false false lateHours.from_ lateHours.to_) lateHours
      3600000000000 := by
  refine ⟨springTz_monotone, ?_⟩
  rintro ⟨window, hwindow, hiff⟩
  -- The window that starts on day 0 would end in the hour that is skipped, and nothing is returned.
  have hnone : (isRunnableAt springTz
      (.localNaiveTimeWindow none lateHoursName none false false lateHours.from_ lateHours.to_) 3600000000000 :
      Outcome Empty _) = .ok none := by decide +kernel
  rw [hnone, Outcome.ok.injEq] at hwindow
  have hwindow : window = none := Option.map_eq_none_iff.1 hwindow.symm
  -- The window of the day before has begun and is not over.
  have hcontains := (hiff ⟨-3600000000000, 9000000000000⟩).2 ⟨-1, by decide +kernel, by decide⟩
  rw [hwindow] at hcontains
  cases hcontains

end ScheduleCondition

end Evobench.Run

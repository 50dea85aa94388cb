import Evobench.SerdeTypes.Priority
import Evobench.DateAndTime.TimeRanges
import Evobench.KeyValFs.KeyVal

/-!
# The configuration of the queues

`ScheduleCondition` says when the jobs of a queue are run, and where they go; `QueuesConfig` is the
pipeline of queues with the two extra queues for finished and for failed jobs. The functions are those
of the source, on the source's fields.

Only the lookup of a runnable queue needs the time zone (`ScheduleCondition.isRunnableAt`).
-/

namespace Evobench.Run

open Library SerdeTypes DateAndTime KeyValFs

/-! ### File names -/

/-- `is_proper_filename` -/
def isProperFilename (v : String) : Bool :=
  !(v == "" || v == "." || v == ".." || v.toList.contains '/' || v.toList.contains '\n' ||
    v.toList.contains '\x00' || 255 < byteLen v)

/-- A file name, not a path, that is neither `.` nor `..`. -/
structure ProperFilename where
  /-- `as_str` -/
  asStr : String
  /-- The name has been checked. -/
  proper : isProperFilename asStr = true
deriving DecidableEq

/-! ### Schedule conditions -/

/-- When the jobs of a queue are run. -/
inductive ScheduleCondition where
  /-- Run jobs in this queue once right away. -/
  | immediately (situation : ProperFilename)
  /-- Run jobs in this queue between the given times on every day. The flags say whether jobs are run
  until their own count reaches zero, and whether the remaining jobs are moved to the next queue when
  time runs out. -/
  | localNaiveTimeWindow (priority : Option Priority) (situation : ProperFilename)
      (stopStart : Option (List String)) (repeatedly moveWhenTimeWindowEnds : Bool) (from_ to_ : LocalNaiveTime)
  /-- A queue that is never run and never emptied. -/
  | inactive
deriving DecidableEq

namespace ScheduleCondition

/-- 1.5 -/
def timedQueueDefaultPriority : Priority := .num (3 / 2)

/-- Whether this queue will never run its jobs. -/
def isInactive : ScheduleCondition → Bool
  | inactive => true
  | _ => false

/-- The command to stop and start around the queue's jobs. -/
def stopStart : ScheduleCondition → Option (List String)
  | immediately _ => none
  | localNaiveTimeWindow _ _ stopStart _ _ _ _ => stopStart
  | inactive => none

/-- Whether the condition offers that flag and it is true. -/
def moveWhenTimeWindowEnds : ScheduleCondition → Bool
  | immediately _ => false
  | localNaiveTimeWindow _ _ _ _ move _ _ => move
  | inactive => false

/-- The situation that the results are grouped by. -/
def situation : ScheduleCondition → Option ProperFilename
  | immediately situation => some situation
  | localNaiveTimeWindow _ situation _ _ _ _ _ => some situation
  | inactive => none

/-- The priority that is added to that of the jobs. -/
def priority : ScheduleCondition → Option Priority
  | immediately _ => some Priority.default
  | localNaiveTimeWindow priority _ _ _ _ _ _ => some (priority.getD timedQueueDefaultPriority)
  | inactive => none

/-- Only inactive queues have no priority. -/
theorem priority_eq_none {c : ScheduleCondition} : c.priority = none ↔ c = inactive := by
  cases c with
  | immediately situation => simp [priority]
  | localNaiveTimeWindow p situation stopStart repeatedly move from_ to_ => simp [priority]
  | inactive => simp [priority]

theorem isInactive_iff {c : ScheduleCondition} : c.isInactive = true ↔ c = inactive := by
  cases c with
  | immediately situation => simp [isInactive]
  | localNaiveTimeWindow p situation stopStart repeatedly move from_ to_ => simp [isInactive]
  | inactive => simp [isInactive]

/-- If runnable, the time window in which it is runnable, if any. -/
def isRunnableAt {ε : Type} (tz : LocalTz) (c : ScheduleCondition) (referenceTime : DateTime) :
    Outcome ε (Option (Option DateTimeRange)) :=
  match c with
  | immediately _ => pure (some none)
  | localNaiveTimeWindow _ _ _ _ _ from_ to_ => do
    match ← (LocalNaiveTimeRange.mk from_ to_).afterDatetime tz referenceTime true with
    | some dtr => pure (if dtr.contains referenceTime then some (some dtr) else none)
    | none => pure none
  | inactive => pure none

/-- A window is only returned while it contains the time. -/
theorem contains_of_isRunnableAt {ε : Type} {tz : LocalTz} {c : ScheduleCondition} {t : DateTime}
    {dtr : DateTimeRange} (h : (c.isRunnableAt tz t : Outcome ε _) = .ok (some (some dtr))) :
    dtr.contains t = true := by
  cases c with
  | immediately situation => cases h
  | localNaiveTimeWindow p situation stopStart repeatedly move from_ to_ =>
    obtain ⟨r, -, hr⟩ := Outcome.bind_eq_ok.1 h
    cases r with
    | none => cases hr
    | some dtr' =>
      by_cases hc : dtr'.contains t = true
      · simp only [hc, if_true, Outcome.pure_eq, Outcome.ok.injEq, Option.some.injEq] at hr
        rwa [← hr]
      · simp [hc] at hr
  | inactive => cases h

/-- Whether it can be told if the condition is fulfilled at the given time: always, but for windows with a time at a
leap second. -/
def FitsAt (tz : LocalTz) (referenceTime : DateTime) : ScheduleCondition → Prop
  | localNaiveTimeWindow _ _ _ _ _ from_ to_ => (LocalNaiveTimeRange.mk from_ to_).FitsOn tz (tz.dateNaive referenceTime)
  | _ => True

theorem isRunnableAt_of_fitsAt {ε : Type} {tz : LocalTz} {c : ScheduleCondition} {t : DateTime} (h : c.FitsAt tz t) :
    ∃ window, (c.isRunnableAt tz t : Outcome ε _) = .ok window := by
  cases c with
  | immediately situation => exact ⟨some none, rfl⟩
  | inactive => exact ⟨none, rfl⟩
  | localNaiveTimeWindow p situation stopStart repeatedly move from_ to_ =>
    obtain ⟨dtr, hdtr⟩ := LocalNaiveTimeRange.afterDatetime_of_fitsOn (ε := ε) h
    rw [isRunnableAt, hdtr, Outcome.ok_bind]
    cases dtr with
    | none => exact ⟨none, rfl⟩
    | some dtr => exact ⟨_, rfl⟩

theorem isRunnableAt_of_not_fitsAt {ε : Type} {tz : LocalTz} {c : ScheduleCondition} {t : DateTime}
    (h : ¬ c.FitsAt tz t) : (c.isRunnableAt tz t : Outcome ε _) = .panic "fitting range" := by
  cases c with
  | immediately situation => exact absurd trivial h
  | inactive => exact absurd trivial h
  | localNaiveTimeWindow p situation stopStart repeatedly move from_ to_ =>
    rw [isRunnableAt, LocalNaiveTimeRange.afterDatetime_of_not_fitsOn h, Outcome.panic_bind]

end ScheduleCondition

/-! ### The queues -/

/-- The configuration of the queues. -/
structure QueuesConfig where
  /-- The queues to use and their scheduled execution condition. -/
  pipeline : List (ProperFilename × ScheduleCondition)
  /-- The queue where to put jobs when they run out of `error_budget`. -/
  erroneousJobsQueue : Option (ProperFilename × ScheduleCondition)
  /-- The queue where to put jobs when they are finished successfully. -/
  doneJobsQueue : Option (ProperFilename × ScheduleCondition)
deriving DecidableEq

end Evobench.Run

import Evobench.Run.BenchmarkingJob

/-!
# A queue of the pipeline, and running a job from it

## The model

* `RunQueue.data`: the loaded copy of a queue, with total priorities.
* `RunQueueWithNext.runJob`: run a job of the current queue, put it where it goes next, and delete its
  old entry.
* `RunQueueWithNext.handleTimeout`: move the rest of a queue on when its time window has ended.
* `RunQueueWithNext.placement`: where a job goes after a run, and with which status; the abstract view of
  all the branches of `runJob`.

## What is proved

* `RunQueueWithNext.safe_runJob`: in every state that `runJob` passes through, the visible files are at
  one of three stages (`Stage`), and `Ok` is returned only at the last one (`Final`).
-/

namespace Evobench.Run

open Library SerdeTypes KeyValFs IoUtils

/-! ### Queues and their data -/

/-- A queue of jobs. -/
structure RunQueue where
  /-- The name of the queue. -/
  fileName : ProperFilename
  /-- When its jobs are run. -/
  scheduleCondition : ScheduleCondition
  /-- The jobs. -/
  queue : Queue BenchmarkingJob
deriving DecidableEq

/-- A loaded copy of a queue's data. -/
structure RunQueueData where
  /-- The queue. -/
  runQueue : RunQueue
  /-- The queue items, with total priority from job and queue. -/
  queueData : List (TimeKey × BenchmarkingJob × Priority)
deriving DecidableEq

namespace RunQueue

/-- `push_front` -/
def pushFront (q : RunQueue) (job : BenchmarkingJob) : Evo Unit := Evo.ofKeyVal (q.queue.pushFront job)

/-- The options of the private method `jobs`. -/
def jobsOpts : QueueGetItemOptions := ⟨true, false, false⟩

/-- What `data` makes of an item. -/
def itemData (q : RunQueue) (item : QueueItem FileContent BenchmarkingJob) (job : BenchmarkingJob) :
    Outcome Error (TimeKey × BenchmarkingJob × Priority) :=
  match q.scheduleCondition.priority with
  | none => .panic "no inactive queue in pipeline"
  | some queuePriority => do
    let jobPriority ← Outcome.ofExcept (job.totalPriority.mapError Error.nonComparable)
    let priority ← Outcome.ofExcept ((jobPriority.add queuePriority).mapError Error.nonComparable)
    let key ← item.key.mapErr Error.keyVal
    pure (key, job, priority)

/-- `data` -/
def data (q : RunQueue) : Evo RunQueueData := do
  let queueData ← q.queue.mapItems jobsOpts Error.keyVal fun item job => Prog.ofOutcome (q.itemData item job)
  pure ⟨q, queueData⟩

/-- Where a key's file is. -/
def slot (q : RunQueue) (key : TimeKey) : String × String := q.queue.slot key

/-- The job stored under a key. -/
def job? (q : RunQueue) (d : Disk FileContent) (key : TimeKey) : Option BenchmarkingJob := q.queue.get? d key

/-- The data is what loading the queue from a disk gives. -/
def Loaded (q : RunQueue) (d : Disk FileContent) (data : RunQueueData) : Prop :=
  data.runQueue = q ∧ ∃ kvs, q.queue.contents d = some kvs ∧
    List.Forall₂ (fun kv a => q.itemData (q.queue.itemOf d kv.1) kv.2 = .ok a) kvs data.queueData

/-- No job is stored in the queue. -/
def Empty (q : RunQueue) (e : Entries FileContent) : Prop := ∀ key, e (q.slot key) = none

/-- The key and the job are those of the item. -/
theorem eq_of_itemData {q : RunQueue} {d : Disk FileContent} {key : TimeKey} {job : BenchmarkingJob}
    {a : TimeKey × BenchmarkingJob × Priority} (h : q.itemData (q.queue.itemOf d key) job = .ok a) :
    a.1 = key ∧ a.2.1 = job := by
  unfold itemData at h
  split at h
  · cases h
  · obtain ⟨jobPriority, -, h⟩ := Outcome.bind_eq_ok.1 h
    obtain ⟨priority, -, h⟩ := Outcome.bind_eq_ok.1 h
    rw [Queue.itemOf_key] at h
    cases h
    exact ⟨rfl, rfl⟩

/-- The only panic is for an inactive queue. -/
theorem inactive_of_itemData {q : RunQueue} {d : Disk FileContent} {key : TimeKey} {job : BenchmarkingJob}
    {msg : String} (h : q.itemData (q.queue.itemOf d key) job = .panic msg) : q.scheduleCondition = .inactive := by
  unfold itemData at h
  split at h
  · next hpriority => exact ScheduleCondition.priority_eq_none.1 hpriority
  · rcases Outcome.bind_eq_panic.1 h with h | ⟨jobPriority, -, h⟩
    · exact absurd h Outcome.ofExcept_ne_panic
    rcases Outcome.bind_eq_panic.1 h with h | ⟨priority, -, h⟩
    · exact absurd h Outcome.ofExcept_ne_panic
    rw [Queue.itemOf_key] at h
    cases h

/-- **Loading a queue.** It changes nothing, and it panics only if there is a job in an inactive queue. -/
theorem safe_data {pid : Pid} {w : EvoWorld} (q : RunQueue) :
    Safe pid (fun v => w.Goes w.disk v) (fun r v => w.Goes w.disk v ∧ match r with
      | .ok data => q.Loaded w.disk data
      | .err _ => True
      | .panic _ => q.scheduleCondition = .inactive ∧ ¬ q.Empty w.disk.entries) q.data w := by
  refine Prog.holds_bind.2 (Queue.safe_mapItems.imp ?_)
  rintro r v ⟨hgoes, hr⟩
  cases r with
  | ok queueData => exact ⟨hgoes, hgoes, rfl, hr⟩
  | err e => exact ⟨hgoes, trivial⟩
  | panic msg =>
    obtain ⟨kvs, hkvs, kv, hkv, hpanic⟩ := hr
    refine ⟨hgoes, inactive_of_itemData hpanic, fun hempty => ?_⟩
    have hget := Queue.get?_of_mem_contents hkvs hkv
    rw [Queue.get?, KeyVal.get?, show w.disk.entries (q.queue.keyVal.slot kv.1) = none from hempty kv.1] at hget
    cases hget

end RunQueue

/-! ### Running a job -/

/-- A queue with its successor, where jobs go next. -/
structure RunQueueWithNext where
  /-- The queue. -/
  current : RunQueue
  /-- Its successor. -/
  next : Option RunQueue
deriving DecidableEq

/-- The status that a job is in after running it. -/
inductive JobStatus where
  /-- It will still be run. -/
  | active
  /-- Job is finished; the argument says if retained in a `done_jobs_queue`. -/
  | done (retained : Bool)
  /-- Positioned in a queue with `ScheduleCondition::Inactive`. -/
  | inactive
  /-- Job ran out of queues before its `remaining_count` was used up. -/
  | dropped
  /-- Ran out of error budget; the argument says if retained in an `erroneous_jobs_queue`. -/
  | error (retained : Bool)
deriving DecidableEq, Repr

/-- If this returns false, then files retained for the whole job execution can be deleted. -/
def JobStatus.canRunAgain : JobStatus → Bool
  | active => true
  | done _ => false
  | inactive => false
  | dropped => false
  | error _ => false

namespace RunQueueWithNext

/-- The closure `finish_completed_job` -/
def finishCompletedJob (job : BenchmarkingJob) (doneJobsQueue : Option RunQueue) (wd : WorkingDirectoryId)
    (remainingCount remainingErrorBudget : UInt8) : Evo JobStatus := do
  let job := job.cloneForQueueReinsertion ⟨remainingCount, remainingErrorBudget, some wd⟩
  match doneJobsQueue with
  | some queue =>
    queue.pushFront job
    pure (.done true)
  | none => pure (.done false)

/-- The closure `handle_out_of_error_budget` -/
def handleOutOfErrorBudget (job : BenchmarkingJob) (erroneousJobsQueue : Option RunQueue)
    (wd : WorkingDirectoryId) (remainingCount : UInt8) : Evo JobStatus := do
  let job := job.cloneForQueueReinsertion ⟨remainingCount, 0, some wd⟩
  match erroneousJobsQueue with
  | some queue =>
    queue.pushFront job
    pure (.error true)
  | none => pure (.error false)

/-- The queue to which a job goes that still has to be run after a success (`maybe_queue`); the outer
`none` is the `unreachable!`. -/
def maybeQueue (self : RunQueueWithNext) : Option (Option RunQueue) :=
  match self.current.scheduleCondition with
  | .immediately _ => some self.next
  | .localNaiveTimeWindow _ _ _ repeatedly _ _ _ => if repeatedly then some (some self.current) else some self.next
  | .inactive => none

/-- The part of `run_job` that puts the job where it goes next. -/
def runAndPlace (self : RunQueueWithNext) (job : BenchmarkingJob) (erroneousJobsQueue doneJobsQueue : Option RunQueue)
    (wd : WorkingDirectoryId) : Evo JobStatus :=
  let remainingCount := job.state.remainingCount
  let remainingErrorBudget := job.state.remainingErrorBudget
  if remainingErrorBudget > 0 then
    if remainingCount > 0 then do
      match ← (Evo.call (.runJob job wd job.pub.reason self.current.scheduleCondition) id).attempt with
      | .error _ =>
        let remainingErrorBudget := remainingErrorBudget - 1
        if remainingErrorBudget > 0 then
          -- re-schedule
          self.current.pushFront (job.cloneForQueueReinsertion ⟨remainingCount, remainingErrorBudget, some wd⟩)
          pure .active
        else handleOutOfErrorBudget job erroneousJobsQueue wd remainingCount
      | .ok () =>
        let remainingCount := remainingCount - 1
        if remainingCount > 0 then
          match self.maybeQueue with
          | none => .panic "already returned at beginning of function"
          | some (some queue) =>
            queue.pushFront (job.cloneForQueueReinsertion ⟨remainingCount, remainingErrorBudget, some wd⟩)
            pure .active
          | some none => pure .dropped
        else finishCompletedJob job doneJobsQueue wd remainingCount remainingErrorBudget
    else finishCompletedJob job doneJobsQueue wd remainingCount remainingErrorBudget
  else handleOutOfErrorBudget job erroneousJobsQueue wd remainingCount

/-- `run_job`: run the given job, which must be from this queue, and whose entry is `item`. -/
def runJob (self : RunQueueWithNext) (item : QueueItem FileContent BenchmarkingJob) (job : BenchmarkingJob)
    (erroneousJobsQueue doneJobsQueue : Option RunQueue) (wd : WorkingDirectoryId) : Evo JobStatus := do
  Evo.ofKeyVal item.lockExclusive
  Sys.withLock item.entry.targetPath do
    let jobStatus ← self.runAndPlace job erroneousJobsQueue doneJobsQueue wd
    Evo.ofKeyVal item.delete
    pure jobStatus

/-- The body of the loop of `handle_timeout`: move an entry on. -/
def moveEntry (self : RunQueueWithNext) (entry : Entry FileContent BenchmarkingJob) : Evo Unit := do
  let val ← Prog.ofExcept (entry.get.mapError Error.keyVal)
  match self.next with
  | some next => next.pushFront val
  | none => pure ()
  let _ ← Evo.ofKeyVal entry.delete
  pure ()

/-- `handle_timeout` -/
def handleTimeout (self : RunQueueWithNext) : Evo Unit :=
  if self.current.scheduleCondition.moveWhenTimeWindowEnds then
    self.current.queue.forSortedEntries Error.keyVal self.moveEntry
  else pure ()

/-! ### Where a job goes -/

/-- How the benchmark run of a call went; `none` if there was no run. -/
abbrev RunResult := Option (Except CallError Unit)

/-- The job as it goes back into a queue after a run. -/
def afterRun (job : BenchmarkingJob) (wd : WorkingDirectoryId) (result : RunResult) : BenchmarkingJob :=
  match result with
  | none => job.cloneForQueueReinsertion { job.state with lastWorkingDirectory := some wd }
  | some (.ok ()) => job.cloneForQueueReinsertion
      { job.state with remainingCount := job.state.remainingCount - 1, lastWorkingDirectory := some wd }
  | some (.error _) => job.cloneForQueueReinsertion
      { job.state with remainingErrorBudget := job.state.remainingErrorBudget - 1, lastWorkingDirectory := some wd }

/-- A job with nothing left to do goes to an extra queue, if there is one. -/
def retain (status : Bool → JobStatus) (queue : Option RunQueue) : JobStatus × Option RunQueue :=
  (status queue.isSome, queue)

/-- The status of a job after a run, and the queue that it goes to, if any; `none` is a panic. -/
def placement (self : RunQueueWithNext) (erroneousJobsQueue doneJobsQueue : Option RunQueue) (job : BenchmarkingJob)
    (result : RunResult) : Option (JobStatus × Option RunQueue) :=
  match result with
  | none =>
    if job.state.remainingErrorBudget > 0 then some (retain .done doneJobsQueue)
    else some (retain .error erroneousJobsQueue)
  | some (.error _) =>
    if job.state.remainingErrorBudget - 1 > 0 then some (.active, some self.current)
    else some (retain .error erroneousJobsQueue)
  | some (.ok ()) =>
    if job.state.remainingCount - 1 > 0 then
      self.maybeQueue.map fun queue => (if queue.isSome then .active else .dropped, queue)
    else some (retain .done doneJobsQueue)

/-- Whether a call runs the benchmark at all. -/
def Ran (job : BenchmarkingJob) (result : RunResult) : Prop :=
  result.isSome = true ↔ job.state.remainingErrorBudget > 0 ∧ job.state.remainingCount > 0

/-- The outside call that a run is. -/
def recorded (self : RunQueueWithNext) (job : BenchmarkingJob) (wd : WorkingDirectoryId) :
    RunResult → List (Σ x : Call, Answer x)
  | none => []
  | some r => [⟨.runJob job wd job.pub.reason self.current.scheduleCondition, r⟩]

/-- The call of `runJob` that is looked at: the queues, the job's old place, and the files before. -/
structure Situation where
  /-- The queue and its successor. -/
  self : RunQueueWithNext
  /-- The queue for failed jobs. -/
  erroneousJobsQueue : Option RunQueue
  /-- The queue for finished jobs. -/
  doneJobsQueue : Option RunQueue
  /-- The job. -/
  job : BenchmarkingJob
  /-- The working directory. -/
  wd : WorkingDirectoryId
  /-- Where the job's entry is. -/
  slot : String × String
  /-- The visible files before the call. -/
  before : Entries FileContent

namespace Situation

variable (s : Situation)

/-- The placement after a result. -/
def placement (result : RunResult) : Option (JobStatus × Option RunQueue) :=
  s.self.placement s.erroneousJobsQueue s.doneJobsQueue s.job result

/-- The files with the job's new entry under a key of a queue. -/
def pushed (result : RunResult) (q : RunQueue) (key : TimeKey) : Entries FileContent :=
  putEntry s.before (q.slot key) (.job (afterRun s.job s.wd result))

/-- The files after the job has been put where it goes, with which status. -/
inductive Placed (result : RunResult) : JobStatus → Entries FileContent → Prop where
  /-- The job has a new entry. -/
  | moved {status : JobStatus} {q : RunQueue} {key : TimeKey} (hq : s.placement result = some (status, some q))
      (hnew : s.before (q.slot key) = none) : Placed result status (s.pushed result q key)
  /-- The job goes to no queue. -/
  | gone {status : JobStatus} (hq : s.placement result = some (status, none)) : Placed result status s.before

/-- The files before the old entry is deleted. -/
def Stage (result : RunResult) (e : Entries FileContent) : Prop := e = s.before ∨ ∃ status, s.Placed result status e

/-- The files after the old entry has been deleted. -/
def Final (result : RunResult) (status : JobStatus) (e : Entries FileContent) : Prop :=
  ∃ e', s.Placed result status e' ∧ e = eraseEntry e' s.slot

/-- A state that a call passes through, which began in `w`. -/
def Passes (w v : EvoWorld) : Prop :=
  ∃ result e, w.Reaches (s.self.recorded s.job s.wd result) e v ∧ (s.Stage result e ∨ ∃ status, s.Final result status e)

/-- How a call ends that began in `w`. -/
def Ends (w : EvoWorld) (r : Outcome Error JobStatus) (v : EvoWorld) : Prop :=
  ∃ result e, w.Reaches (s.self.recorded s.job s.wd result) e v ∧ match r with
    | .ok status => Ran s.job result ∧ s.Final result status e
    | _ => s.Stage result e

end Situation

/-! ### What a call does -/

section Rules

variable {pid : Pid} {s : Situation} {w : EvoWorld}

/-- How the part ends that puts the job where it goes. -/
def EndsPlacing (s : Situation) (w : EvoWorld) (r : Outcome Error JobStatus) (v : EvoWorld) : Prop :=
  ∃ result e, w.Reaches (s.self.recorded s.job s.wd result) e v ∧ match r with
    | .ok status => Ran s.job result ∧ s.Placed result status e
    | _ => s.Stage result e

theorem passes_of_stage {result : RunResult} {e : Entries FileContent} {v : EvoWorld}
    (h : w.Reaches (s.self.recorded s.job s.wd result) e v) (he : s.Stage result e) : s.Passes w v :=
  ⟨result, e, h, .inl he⟩

/-- Pushing the job to the queue that it goes to. -/
theorem safe_pushFront {result : RunResult} {status : JobStatus} {q : RunQueue} {v : EvoWorld}
    (h : w.Reaches (s.self.recorded s.job s.wd result) s.before v) (hran : Ran s.job result)
    (hq : s.placement result = some (status, some q)) :
    Safe pid (s.Passes w) (EndsPlacing s w)
      ((q.pushFront (afterRun s.job s.wd result) >>= fun _ => pure status : Evo JobStatus)) v := by
  have hstage : ∀ key, s.before (q.slot key) = none → s.Stage result (s.pushed result q key) :=
    fun key hnew => .inr ⟨status, .moved hq hnew⟩
  have hpushed : ∀ {key : TimeKey} {u : EvoWorld},
      v.Leads (putEntry v.disk.entries (q.queue.slot key) (Serde.toString (afterRun s.job s.wd result))) u →
      w.Reaches (s.self.recorded s.job s.wd result) (s.pushed result q key) u := by
    intro key u hu
    rw [h.entries] at hu
    exact h.leads hu
  have hfree : ∀ {key : TimeKey}, v.disk.entries (q.queue.slot key) = none → s.before (q.slot key) = none := by
    intro key hnew
    rw [h.entries] at hnew
    exact hnew
  refine Prog.holds_bind.2 (Prog.holds_mapErr.2 (Queue.safe_pushFront ?_ ?_ ?_ ?_ ?_ ?_))
  · exact fun u hu => passes_of_stage (h.same hu) (.inl rfl)
  · exact fun key _ hnew u hu => passes_of_stage (hpushed hu) (hstage key (hfree hnew))
  · exact fun msg u hu => ⟨result, _, h.same hu, .inl rfl⟩
  · exact fun e u hu => ⟨result, _, h.same hu, .inl rfl⟩
  · exact fun key _ hnew e u hu => ⟨result, _, hpushed hu, hstage key (hfree hnew)⟩
  · exact fun key _ hnew u hu => ⟨passes_of_stage (hpushed hu) (hstage key (hfree hnew)),
      result, _, hpushed hu, hran, .moved hq (hfree hnew)⟩

/-- Leaving the job out of all queues. -/
theorem safe_noQueue {result : RunResult} {status : JobStatus} {v : EvoWorld}
    (h : w.Reaches (s.self.recorded s.job s.wd result) s.before v) (hran : Ran s.job result)
    (hq : s.placement result = some (status, none)) :
    Safe pid (s.Passes w) (EndsPlacing s w) (pure status : Evo JobStatus) v :=
  ⟨passes_of_stage h (.inl rfl), result, _, h, hran, .gone hq⟩

/-- Put a job with nothing left to do into an extra queue, if there is one. -/
def pushRetained (status : Bool → JobStatus) (queue : Option RunQueue) (job : BenchmarkingJob) : Evo JobStatus :=
  match queue with
  | some queue => queue.pushFront job >>= fun _ => pure (status true)
  | none => pure (status false)

theorem safe_pushRetained {result : RunResult} {status : Bool → JobStatus} {queue : Option RunQueue} {v : EvoWorld}
    (h : w.Reaches (s.self.recorded s.job s.wd result) s.before v) (hran : Ran s.job result)
    (hq : s.placement result = some (retain status queue)) :
    Safe pid (s.Passes w) (EndsPlacing s w) (pushRetained status queue (afterRun s.job s.wd result)) v := by
  cases queue with
  | none => exact safe_noQueue h hran hq
  | some q => exact safe_pushFront h hran hq

theorem finishCompletedJob_eq {queue : Option RunQueue} {job : BenchmarkingJob} {wd : WorkingDirectoryId}
    {count budget : UInt8} {result : RunResult}
    (h : job.cloneForQueueReinsertion ⟨count, budget, some wd⟩ = afterRun job wd result) :
    finishCompletedJob job queue wd count budget = pushRetained .done queue (afterRun job wd result) := by
  cases queue with
  | none => rfl
  | some q =>
    rw [← h]
    rfl

theorem handleOutOfErrorBudget_eq {queue : Option RunQueue} {job : BenchmarkingJob} {wd : WorkingDirectoryId}
    {count : UInt8} {result : RunResult}
    (h : job.cloneForQueueReinsertion ⟨count, 0, some wd⟩ = afterRun job wd result) :
    handleOutOfErrorBudget job queue wd count = pushRetained .error queue (afterRun job wd result) := by
  cases queue with
  | none => rfl
  | some q =>
    rw [← h]
    rfl

theorem uint8_eq_zero {a : UInt8} (h : ¬ a > 0) : a = 0 := by
  rw [gt_iff_lt, UInt8.not_lt] at h
  exact UInt8.le_antisymm h (UInt8.zero_le)

/-- After a failed run. -/
theorem safe_afterFailure {e : CallError} {v : EvoWorld}
    (h : w.Reaches (s.self.recorded s.job s.wd (some (.error e))) s.before v)
    (hran : Ran s.job (some (.error e))) :
    Safe pid (s.Passes w) (EndsPlacing s w)
      (if s.job.state.remainingErrorBudget - 1 > 0 then do
        s.self.current.pushFront (s.job.cloneForQueueReinsertion
          ⟨s.job.state.remainingCount, s.job.state.remainingErrorBudget - 1, some s.wd⟩)
        pure .active
      else handleOutOfErrorBudget s.job s.erroneousJobsQueue s.wd s.job.state.remainingCount) v := by
  by_cases hbudget : s.job.state.remainingErrorBudget - 1 > 0
  · rw [if_pos hbudget]
    have hplace : s.placement (some (.error e)) = some (.active, some s.self.current) := by
      simp only [Situation.placement, placement, hbudget, if_true]
    have hjob : s.job.cloneForQueueReinsertion ⟨s.job.state.remainingCount,
        s.job.state.remainingErrorBudget - 1, some s.wd⟩ = afterRun s.job s.wd (some (.error e)) := rfl
    rw [hjob]
    exact safe_pushFront h hran hplace
  · have hjob : s.job.cloneForQueueReinsertion ⟨s.job.state.remainingCount, 0, some s.wd⟩ =
        afterRun s.job s.wd (some (.error e)) := by
      simp only [afterRun, uint8_eq_zero hbudget]
    have hplace : s.placement (some (.error e)) = some (retain .error s.erroneousJobsQueue) := by
      simp only [Situation.placement, placement, hbudget, if_false]
    rw [if_neg hbudget, handleOutOfErrorBudget_eq hjob]
    exact safe_pushRetained h hran hplace

/-- After a successful run. -/
theorem safe_afterSuccess {v : EvoWorld} (h : w.Reaches (s.self.recorded s.job s.wd (some (.ok ()))) s.before v)
    (hran : Ran s.job (some (.ok ()))) :
    Safe pid (s.Passes w) (EndsPlacing s w)
      (if s.job.state.remainingCount - 1 > 0 then
        match s.self.maybeQueue with
        | none => .panic "already returned at beginning of function"
        | some (some queue) => do
          queue.pushFront (s.job.cloneForQueueReinsertion
            ⟨s.job.state.remainingCount - 1, s.job.state.remainingErrorBudget, some s.wd⟩)
          pure .active
        | some none => pure .dropped
      else finishCompletedJob s.job s.doneJobsQueue s.wd (s.job.state.remainingCount - 1)
        s.job.state.remainingErrorBudget) v := by
  by_cases hcount : s.job.state.remainingCount - 1 > 0
  · have hplace : s.placement (some (.ok ())) =
        s.self.maybeQueue.map fun queue => (if queue.isSome then .active else .dropped, queue) := by
      simp only [Situation.placement, placement, hcount, if_true]
    have hjob : s.job.cloneForQueueReinsertion ⟨s.job.state.remainingCount - 1, s.job.state.remainingErrorBudget,
        some s.wd⟩ = afterRun s.job s.wd (some (.ok ())) := rfl
    rw [if_pos hcount, hjob]
    rcases hqueue : s.self.maybeQueue with _ | ⟨_ | q⟩
    · exact ⟨passes_of_stage h (.inl rfl), _, _, h, .inl rfl⟩
    · exact safe_noQueue h hran (by rw [hplace, hqueue]; rfl)
    · exact safe_pushFront h hran (by rw [hplace, hqueue]; rfl)
  · have hplace : s.placement (some (.ok ())) = some (retain .done s.doneJobsQueue) := by
      simp only [Situation.placement, placement, hcount, if_false]
    have hjob : s.job.cloneForQueueReinsertion ⟨s.job.state.remainingCount - 1, s.job.state.remainingErrorBudget,
        some s.wd⟩ = afterRun s.job s.wd (some (.ok ())) := rfl
    rw [if_neg hcount, finishCompletedJob_eq hjob]
    exact safe_pushRetained h hran hplace

theorem safe_runAndPlace (hstart : w.disk.entries = s.before) :
    Safe pid (s.Passes w) (EndsPlacing s w)
      (s.self.runAndPlace s.job s.erroneousJobsQueue s.doneJobsQueue s.wd) w := by
  have h₀ : w.Reaches (s.self.recorded s.job s.wd none) s.before w := hstart ▸ World.Reaches.refl w
  unfold runAndPlace
  by_cases hbudget : s.job.state.remainingErrorBudget > 0
  case neg =>
    -- the error budget was already used up
    have hjob : s.job.cloneForQueueReinsertion ⟨s.job.state.remainingCount, 0, some s.wd⟩ =
        afterRun s.job s.wd none := by
      simp only [afterRun, uint8_eq_zero hbudget]
    have hplace : s.placement none = some (retain .error s.erroneousJobsQueue) := by
      simp only [Situation.placement, placement, hbudget, if_false]
    rw [if_neg hbudget, handleOutOfErrorBudget_eq hjob]
    exact safe_pushRetained h₀ (by simp [Ran, hbudget]) hplace
  by_cases hcount : s.job.state.remainingCount > 0
  case neg =>
    have hplace : s.placement none = some (retain .done s.doneJobsQueue) := by
      simp only [Situation.placement, placement, hbudget, if_true]
    have hjob : s.job.cloneForQueueReinsertion ⟨s.job.state.remainingCount, s.job.state.remainingErrorBudget,
        some s.wd⟩ = afterRun s.job s.wd none := rfl
    rw [if_pos hbudget, if_neg hcount, finishCompletedJob_eq hjob]
    exact safe_pushRetained h₀ (by simp [Ran, hcount]) hplace
  rw [if_pos hbudget, if_pos hcount]
  have hran : ∀ r, Ran s.job (some r) := fun r => by simp [Ran, hbudget, hcount]
  -- the benchmark is run
  refine Prog.holds_bind.2 (Prog.holds_attempt.2 (Prog.holds_bind.2 (safe_call
    (passes_of_stage h₀ (.inl rfl)) fun v hv => ?_)))
  have h₁ : w.Reaches (s.self.recorded s.job s.wd (some (w.event.answer
      (.runJob s.job s.wd s.job.pub.reason s.self.current.scheduleCondition)))) s.before v := hstart ▸ hv
  refine ⟨passes_of_stage h₁ (.inl rfl), ?_⟩
  generalize w.event.answer (.runJob s.job s.wd s.job.pub.reason s.self.current.scheduleCondition) = answer at h₁
  rcases answer with e | ⟨⟩
  · exact ⟨passes_of_stage h₁ (.inl rfl), safe_afterFailure h₁ (hran _)⟩
  · exact ⟨passes_of_stage h₁ (.inl rfl), safe_afterSuccess h₁ (hran _)⟩

/-- **A call of `runJob`**: the states it passes through, and its end. -/
theorem safe_runJob {item : QueueItem FileContent BenchmarkingJob} (hstart : w.disk.entries = s.before)
    (hslot : (item.entry.baseDir, item.entry.fileName) = s.slot) :
    Safe pid (s.Passes w) (s.Ends w) (s.self.runJob item s.job s.erroneousJobsQueue s.doneJobsQueue s.wd) w := by
  have h₀ : w.Reaches (s.self.recorded s.job s.wd none) s.before w := hstart ▸ World.Reaches.refl w
  refine Prog.holds_bind.2 (Prog.holds_mapErr.2 (QueueItem.safe_lockExclusive
    (fun v hv => passes_of_stage (h₀.same hv) (.inl rfl)) (fun e v hv => ⟨none, _, h₀.same hv, .inl rfl⟩)
    fun v hv => ?_))
  -- the part that runs under the lock of the item, seen from `v`
  refine safe_withLock (Prog.holds_bind.2 ((safe_runAndPlace (s := s) (hv.entries.trans hstart)).mono ?_ ?_))
  · rintro u ⟨result, e, hu, he⟩
    exact ⟨result, e, hv.through hu, he⟩
  · rintro r u ⟨result, e, hu, he⟩
    have hu' := hv.through hu
    cases r with
    | err err => exact fun u' h' => ⟨⟨result, e, hu'.same h'.leads, .inl he⟩, result, e, hu'.same h'.leads, he⟩
    | panic msg => exact fun u' h' => ⟨⟨result, e, hu'.same h'.leads, .inl he⟩, result, e, hu'.same h'.leads, he⟩
    | ok status =>
      obtain ⟨hran, he⟩ := he
      have hstage : s.Stage result e := .inr ⟨status, he⟩
      have hfinal : s.Final result status (eraseEntry e s.slot) := ⟨e, he, rfl⟩
      have herase : ∀ {u' : EvoWorld}, u.Leads (eraseEntry u.disk.entries (item.entry.baseDir, item.entry.fileName)) u' →
          w.Reaches (s.self.recorded s.job s.wd result) (eraseEntry e s.slot) u' := by
        intro u' h'
        rw [hslot, hu'.entries] at h'
        exact hu'.leads h'
      refine Prog.holds_bind.2 (Prog.holds_mapErr.2 (QueueItem.safe_delete ?_ ?_ ?_ ?_))
      · exact fun u' h' => ⟨result, e, hu'.same h', .inl hstage⟩
      · exact fun u' h' => ⟨result, _, herase h', .inr ⟨status, hfinal⟩⟩
      · exact fun err u' h' u'' h'' => ⟨⟨result, e, (hu'.same h').same h''.leads, .inl hstage⟩,
          result, e, (hu'.same h').same h''.leads, hstage⟩
      · exact fun u' h' => ⟨⟨result, _, herase h', .inr ⟨status, hfinal⟩⟩, fun u'' h'' =>
          ⟨⟨result, _, (herase h').same h''.leads, .inr ⟨status, hfinal⟩⟩,
            result, _, (herase h').same h''.leads, hran, hfinal⟩⟩

/-! ### Moving an entry on -/

/-- The files with a value pushed to the next queue, if there is one. -/
inductive Passed (self : RunQueueWithNext) (val : BenchmarkingJob) (e : Entries FileContent) :
    Entries FileContent → Prop where
  /-- There is no next queue. -/
  | dropped (hnext : self.next = none) : Passed self val e e
  /-- The value has a new entry. -/
  | moved {n : RunQueue} {key : TimeKey} (hnext : self.next = some n) (hnew : e (n.slot key) = none) :
      Passed self val e (putEntry e (n.slot key) (.job val))

/-- **Moving an entry on.** -/
theorem safe_moveEntry {self : RunQueueWithNext} {entry : Entry FileContent BenchmarkingJob}
    {Q : Outcome Error Unit → EvoWorld → Prop}
    (hfail : ∀ r e w', r.isOk = false → (e = w.disk.entries ∨ ∃ val, self.Passed val w.disk.entries e) →
      w.Leads e w' → Q r w')
    (hok : ∀ val e w', entry.get = .ok val → self.Passed val w.disk.entries e →
      w.Leads (eraseEntry e (entry.baseDir, entry.fileName)) w' → Q (.ok ()) w') :
    Safe pid (fun _ => True) Q (self.moveEntry entry) w := by
  have hkeep : ∀ r w', r.isOk = false → w.Leads w.disk.entries w' → Q r w' := fun r w' hr => hfail r _ w' hr (.inl rfl)
  cases hget : entry.get with
  | error err =>
    simp only [moveEntry, hget]
    exact ⟨trivial, hkeep _ w rfl (World.Leads.refl w)⟩
  | ok val =>
    -- the deletion, after the value has been passed on
    have hdelete : ∀ {e v}, self.Passed val w.disk.entries e → w.Leads e v →
        Safe pid (fun _ => True) Q (Evo.ofKeyVal entry.delete >>= fun _ => pure ()) v := by
      intro e v hpassed hv
      refine Prog.holds_bind.2 (Prog.holds_mapErr.2 (Entry.safe_delete (fun _ _ => trivial) (fun _ _ => trivial)
        (fun err u hu => ?_) fun _ u hu => ⟨trivial, ?_⟩))
      · rw [hv.entries] at hu
        exact hfail _ e u rfl (.inr ⟨val, hpassed⟩) (hv.trans hu)
      · rw [hv.entries] at hu
        exact hok val e u hget hpassed (hv.trans hu)
    simp only [moveEntry, hget]
    cases hnext : self.next with
    | none => exact hdelete (.dropped hnext) (World.Leads.refl w)
    | some n =>
      refine Prog.holds_bind.2 ⟨trivial, ?_⟩
      refine Prog.holds_bind.2 (Prog.holds_mapErr.2 (Queue.safe_pushFront (fun _ _ => trivial)
        (fun _ _ _ _ _ => trivial) (fun msg v hv => hkeep _ v rfl hv) (fun err v hv => hkeep _ v rfl hv) ?_ ?_))
      · exact fun key _ hnew err v hv => hfail _ _ v rfl (.inr ⟨val, .moved hnext hnew⟩) hv
      · exact fun key _ hnew v hv => hdelete (.moved hnext hnew) hv

end Rules

end RunQueueWithNext

end Evobench.Run

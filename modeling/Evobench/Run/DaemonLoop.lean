import Evobench.Run.QueueScan

/-!
# The loop of the daemon

The loop of `run_queues` loads the queues, picks the most prioritized job of those that are runnable at
the moment, and runs it. `RunContext` remembers in which time windows jobs were run, for the queues whose
remaining jobs are to be moved on when the window has ended; `close_open_queues` moves them. The loop does
not call it.

## The model

* `RunContext`: the `stop_start` command that is active, and the open queues with the ends of their windows.
* `mostPrioritizedJob`, `runNextJob`, `iteration`: one iteration of the loop.
* `pickNext`, `afterPick`: its two phases, `iteration_eq`.

## What is proved

* `Stable`, `keeps_afterPick`, `keeps_pushFront`: what is kept by an iteration after its pick, and by the insertion of a job:
  any property of the state that the calls to the outside, new entries with the time of the clock, and the deletion of the picked
  entry keep. `stable_closedSince` is one: a queue in which everything is newer than a time that has come.
* `safe_pickNext`: a pick changes no files, and its clock reading is not after its end.
-/

namespace Evobench.Run

open Library SerdeTypes DateAndTime KeyValFs IoUtils RunQueueWithNext

/-! ### The choice of the next job -/

/-- A loaded queue with its successor. -/
structure RunQueueDataWithNext where
  /-- The queue. -/
  current : RunQueueData
  /-- Its successor. -/
  next : Option RunQueueData

/-- `run_queue_with_next` -/
def RunQueueDataWithNext.runQueueWithNext (self : RunQueueDataWithNext) : RunQueueWithNext :=
  ⟨self.current.runQueue, self.next.map RunQueueData.runQueue⟩

/-- A job that is picked to be run. -/
structure Choice where
  /-- Its queue, and the successor. -/
  queue : RunQueueDataWithNext
  /-- The time window, if the queue has one. -/
  window : Option DateTimeRange
  /-- The entry. -/
  item : QueueItem FileContent BenchmarkingJob
  /-- The job. -/
  job : BenchmarkingJob
  /-- Its priority. -/
  priority : Priority

namespace RunQueuesData

/-- `run_queue_with_nexts` -/
def withNexts : List RunQueueData → List RunQueueDataWithNext
  | [] => []
  | data :: rest => ⟨data, rest.head?⟩ :: withNexts rest

/-- `active_queues`: the queues that are runnable at the given time. -/
def activeQueues (tz : LocalTz) (referenceTime : DateTime) :
    List RunQueueDataWithNext → Outcome Error (List (RunQueueDataWithNext × Option DateTimeRange))
  | [] => pure []
  | rq :: rest => do
    let range ← rq.current.runQueue.scheduleCondition.isRunnableAt tz referenceTime
    let active ← activeQueues tz referenceTime rest
    match range with
    | some dtr => pure ((rq, dtr) :: active)
    | none => pure active

/-- The most prioritized job of a queue, the first one of several. -/
def firstJob (rq : RunQueueDataWithNext × Option DateTimeRange) :
    Option ((TimeKey × BenchmarkingJob × Priority) × RunQueueDataWithNext × Option DateTimeRange) :=
  (rq.1.current.queueData.argmin fun entry => entry.2.2.neg).map fun entry => (entry, rq)

/-- The options of `most_prioritized_job`. -/
def pickOpts : QueueGetItemOptions := ⟨true, false, false⟩

/-- `most_prioritized_job`: the most prioritized job across all runnable queues. -/
def mostPrioritizedJob (tz : LocalTz) (data : RunQueuesData) (now : DateTime) : Evo (Option Choice) := do
  let active ← Prog.ofOutcome (activeQueues tz now (withNexts data.pipelineData))
  match (active.filterMap firstJob).argmin fun x => x.1.2.2.neg with
  | some ((key, job, prio), rq, dtr) => do
    match ← Evo.ofKeyVal (rq.current.runQueue.queue.getItem key pickOpts) with
    | some item => pure (some ⟨rq, dtr, item, job, prio⟩)
    | none => pure none
  | none => pure none

end RunQueuesData

/-! ### The run context -/

/-- What the loop remembers. -/
structure RunContext where
  /-- A running stop action, if any. -/
  currentStopStart : Option (List String)
  /-- Queues with time ranges and flag `move_when_time_window_ends`, that were started processing entries from, with
  the end of the time range. -/
  openQueues : AList fun _ : ProperFilename => DateTime

namespace RunContext

/-- `default` -/
def default : RunContext := ⟨none, ∅⟩

/-- `run_command` -/
def runCommand (cmd : List String) (startStop : String) : Evo Unit :=
  if cmd = [] then .panic "start_stop should have been checked in `check_run_queues` already"
  else Evo.call (.stopStart (cmd ++ [startStop])) id

/-- Run the command if there is one. -/
def runCommandOf : Option (List String) → String → Evo Unit
  | some cmd, startStop => runCommand cmd startStop
  | none, _ => pure ()

/-- `stop_start_be` -/
def stopStartBe (self : RunContext) (stopStart : Option (List String)) : Evo RunContext :=
  if stopStart = self.currentStopStart then pure self
  else do
    runCommandOf self.currentStopStart "start"
    runCommandOf stopStart "stop"
    pure { self with currentStopStart := stopStart }

/-- `running_job_in_windowed_queue`: remember the queue for later closing. -/
def runningJobInWindowedQueue (self : RunContext) (queue : RunQueue) (dtr : DateTimeRange) : RunContext :=
  if queue.scheduleCondition.moveWhenTimeWindowEnds then
    { self with openQueues := self.openQueues.insert queue.fileName dtr.to_ }
  else self

/-- The open queues for which the time window has closed, by name. -/
def dueQueues (self : RunContext) (now : DateTime) : List ProperFilename :=
  ((self.openQueues.entries.filter fun open_ => open_.2 ≤ now).map Sigma.fst).insertionSort fun a b => a.asStr ≤ b.asStr

/-- The loop of `close_open_queues`. -/
def closeQueues (self : RunContext) (runQueues : RunQueues) : List ProperFilename → Evo RunContext
  | [] => pure self
  | fileName :: rest =>
    match runQueues.getRunQueueWithNextByName fileName with
    | some rqwn => do
      rqwn.handleTimeout
      closeQueues { self with openQueues := self.openQueues.erase fileName } runQueues rest
    | none => closeQueues self runQueues rest

/-- `close_open_queues`: run closing actions for those open queues for which the time window has closed. -/
def closeOpenQueues (self : RunContext) (now : DateTime) (runQueues : RunQueues) : Evo RunContext :=
  self.closeQueues runQueues (self.dueQueues now)

end RunContext

/-! ### One iteration -/

namespace RunQueuesData

/-- The part of `run_next_job` after the choice. -/
def runChosen (data : RunQueuesData) (runContext : RunContext) :
    Option Choice → Evo (RunContext × Option (BenchmarkingJob × JobStatus))
  | some choice => do
    let rq := choice.queue.current.runQueue
    let runContext ← runContext.stopStartBe rq.scheduleCondition.stopStart
    let runContext := match choice.window with
      | some dtr => runContext.runningJobInWindowedQueue rq dtr
      | none => runContext
    let workingDirectoryId ← Evo.call (.getAWorkingDirectoryFor choice.job.pub.runParameters) id
    Evo.call .clearCurrentWorkingDirectory id
    let jobStatus ← choice.queue.runQueueWithNext.runJob choice.item choice.job data.runQueues.erroneousJobsQueue
      data.runQueues.doneJobsQueue workingDirectoryId
    pure (runContext, some (choice.job, jobStatus))
  | none => do
    let runContext ← runContext.stopStartBe none
    pure (runContext, none)

/-- `run_next_job`: run the first or most prioritized job in the queues. -/
def runNextJob (tz : LocalTz) (data : RunQueuesData) (timestamp : SystemTime) (runContext : RunContext) :
    Evo (RunContext × Option (BenchmarkingJob × JobStatus)) := do
  let job ← data.mostPrioritizedJob tz timestamp.nanos
  data.runChosen runContext job

end RunQueuesData

/-- The end of an iteration: clean up after a job that will not be run again. -/
def cleanUpAfter : Option (BenchmarkingJob × JobStatus) → Evo Unit
  | some (job, jobStatus) =>
    if jobStatus.canRunAgain then pure ()
    else Evo.call (.deleteUncompressedLogs job.benchmarkingJobParameters) id
  | none => pure ()

/-- An iteration of the loop in `run_queues`. -/
def iteration (tz : LocalTz) (queues : RunQueues) (runContext : RunContext) :
    Evo (RunContext × Option (BenchmarkingJob × JobStatus)) := do
  let queuesData ← queues.data
  let timestamp ← Sys.systemTime
  let (runContext, ran) ← queuesData.runNextJob tz timestamp runContext
  cleanUpAfter ran
  pure (runContext, ran)

/-! ### Two phases -/

/-- The first part of an iteration: the loaded queues, the clock reading, and the job picked. -/
def pickNext (tz : LocalTz) (queues : RunQueues) : Evo (RunQueuesData × SystemTime × Option Choice) := do
  let queuesData ← queues.data
  let timestamp ← Sys.systemTime
  let job ← queuesData.mostPrioritizedJob tz timestamp.nanos
  pure (queuesData, timestamp, job)

/-- The rest of an iteration. -/
def afterPick (runContext : RunContext) (picked : RunQueuesData × SystemTime × Option Choice) :
    Evo (RunContext × Option (BenchmarkingJob × JobStatus)) := do
  let (runContext, ran) ← picked.1.runChosen runContext picked.2.2
  cleanUpAfter ran
  pure (runContext, ran)

theorem iteration_eq (tz : LocalTz) (queues : RunQueues) (runContext : RunContext) :
    iteration tz queues runContext = pickNext tz queues >>= afterPick runContext := by
  simp only [iteration, pickNext, afterPick, RunQueuesData.runNextJob, bind_assoc, pure_bind]

/-! ### What stays closed -/

/-- The clock does not go backwards. -/
def ClockSteady (w : EvoWorld) : Prop := ∀ i j, i ≤ j → (w.env i).now.nanos ≤ (w.env j).now.nanos

/-- Nothing is in the queue that was put there before the given time, and that time has come. -/
structure ClosedSince (q : RunQueue) (time : DateTime) (w : EvoWorld) : Prop where
  /-- The clock does not go backwards. -/
  steady : ClockSteady w
  /-- The time has come. -/
  passed : time ≤ w.event.now.nanos
  /-- Everything in the queue is newer. -/
  entries : ∀ key : TimeKey, w.disk.entries (q.slot key) ≠ none → time ≤ (key.nanos.val : ℤ)

theorem ClockSteady.leads {w w' : EvoWorld} {e : Entries FileContent} (h : ClockSteady w) (hw : w.Leads e w') :
    ClockSteady w' := by
  unfold ClockSteady
  rw [hw.env]
  exact h

namespace ClosedSince

variable {q : RunQueue} {time : DateTime} {w w' : EvoWorld}

/-- It is enough to look at the entries. -/
theorem leads (h : ClosedSince q time w) {e : Entries FileContent} (hw : w.Leads e w')
    (he : ∀ key : TimeKey, e (q.slot key) ≠ none → time ≤ (key.nanos.val : ℤ)) : ClosedSince q time w' := by
  refine ⟨h.steady.leads hw, h.passed.trans ?_, by rw [hw.entries]; exact he⟩
  rw [World.event, World.event, hw.env]
  exact h.steady _ _ hw.tick

theorem same (h : ClosedSince q time w) (hw : w.Leads w.disk.entries w') : ClosedSince q time w' := h.leads hw h.entries

theorem erase (h : ClosedSince q time w) {slot : String × String} (hw : w.Leads (eraseEntry w.disk.entries slot) w') :
    ClosedSince q time w' := by
  refine h.leads hw fun key hkey => h.entries key fun hnone => hkey ?_
  rw [eraseEntry, Function.update_apply, hnone, ite_self]

/-- A new entry is newer. -/
theorem push (h : ClosedSince q time w) {q' : RunQueue} {key : TimeKey} {content : FileContent}
    (hkey : (key.nanos.val : ℤ) = w.event.now.nanos)
    (hw : w.Leads (putEntry w.disk.entries (q'.queue.slot key) content) w') : ClosedSince q time w' := by
  refine h.leads hw fun key' hkey' => ?_
  by_cases hslot : q.slot key' = q'.queue.slot key
  · obtain rfl : key' = key := asFilenameStr_injective (Prod.mk.inj hslot).2
    rw [hkey]
    exact h.passed
  · rw [putEntry, Function.update_of_ne hslot] at hkey'
    exact h.entries key' hkey'

theorem call (h : ClosedSince q time w) {cs : List (Σ x : Call, Answer x)} (hw : w.Reaches cs w.disk.entries w') :
    ClosedSince q time w' := by
  refine ⟨?_, ?_, ?_⟩
  · unfold ClockSteady
    rw [hw.env]
    exact h.steady
  · rw [World.event, hw.env]
    exact h.passed.trans (h.steady _ _ hw.tick)
  · rw [hw.entries]
    exact h.entries

end ClosedSince

/-! ### What an iteration keeps -/

/-- A property of the state that is kept by all that the loop and the insertions do: they call the outside, put jobs in
`J` under new keys with the time of the clock, and erase the entry at a given place, if there is one. -/
structure Stable (slot : Option (String × String)) (J : BenchmarkingJob → Prop) (I : EvoWorld → Prop) : Prop where
  /-- The visible files stay as they are. -/
  same : ∀ w w' : EvoWorld, I w → w.Leads w.disk.entries w' → I w'
  /-- The outside is called. -/
  call : ∀ (w w' : EvoWorld) cs, I w → w.Reaches cs w.disk.entries w' → I w'
  /-- There is a new entry. -/
  push : ∀ (w w' : EvoWorld) (q : RunQueue) (key : TimeKey) (job : BenchmarkingJob), J job → I w →
    (key.nanos.val : ℤ) = w.event.now.nanos → w.disk.entries (q.slot key) = none →
    w.Leads (putEntry w.disk.entries (q.slot key) (.job job)) w' → I w'
  /-- The entry is erased. -/
  erase : ∀ (w w' : EvoWorld), ∀ p ∈ slot, I w → w.Leads (eraseEntry w.disk.entries p) w' → I w'

theorem stable_closedSince (q : RunQueue) (time : DateTime) (slot : Option (String × String)) (J : BenchmarkingJob → Prop) :
    Stable slot J (ClosedSince q time) where
  same _ _ h hw := h.same hw
  call _ _ _ h hw := h.call hw
  push _ _ _ _ _ _ h hkey _ hw := h.push hkey hw
  erase _ _ _ _ h hw := h.erase hw

/-- Where the entry of a picked job is. -/
def pickedSlot (job : Option Choice) : Option (String × String) :=
  job.map fun choice => (choice.item.entry.baseDir, choice.item.entry.fileName)

section Keeps

variable {pid : Pid} {α : Type} {slot : Option (String × String)} {J : BenchmarkingJob → Prop}
  {I : EvoWorld → Prop}

theorem keeps_pushFront (hI : Stable slot J I) (q : RunQueue) {job : BenchmarkingJob} (hjob : J job) :
    Prog.Keeps (machine pid) I (q.pushFront job) := by
  intro w h
  refine Prog.holds_mapErr.2 (Queue.safe_pushFront ?_ ?_ ?_ ?_ ?_ ?_)
  · exact fun _ _ => trivial
  · exact fun _ _ _ _ _ => trivial
  · exact fun _ v hv => hI.same w v h hv
  · exact fun _ v hv => hI.same w v h hv
  · exact fun key hkey hnew _ v hv => hI.push w v q key job hjob h hkey hnew hv
  · exact fun key hkey hnew v hv => hI.push w v q key job hjob h hkey hnew hv

theorem keeps_call (hI : Stable slot J I) (x : Call) (result : Answer x → Except CallError α) :
    Prog.Keeps (machine pid) I (Evo.call x result) := by
  refine Prog.Keeps.bind (fun w h => ?_) fun r => Prog.Keeps.ofExcept _
  exact safe_call trivial fun w' hw => ⟨trivial, hI.call w w' _ h hw⟩

theorem keeps_deleteItem {item : QueueItem FileContent BenchmarkingJob}
    (hI : Stable (some (item.entry.baseDir, item.entry.fileName)) J I) :
    Prog.Keeps (machine pid) I (Evo.ofKeyVal item.delete) := by
  intro w h
  refine Prog.holds_mapErr.2 (QueueItem.safe_delete ?_ ?_ ?_ ?_)
  · exact fun _ _ => trivial
  · exact fun _ _ => trivial
  · exact fun _ v hv => hI.same w v h hv
  · exact fun v hv => hI.erase w v _ rfl h hv

theorem keeps_lockItem (hI : Stable slot J I) (item : QueueItem FileContent BenchmarkingJob) :
    Prog.Keeps (machine pid) I (Evo.ofKeyVal item.lockExclusive) := by
  intro w h
  refine Prog.holds_mapErr.2 (QueueItem.safe_lockExclusive ?_ ?_ ?_)
  · exact fun _ _ => trivial
  · exact fun _ v hv => hI.same w v h hv
  · exact fun v hv => hI.same w v h hv

/-- Putting a job where it goes. -/
theorem keeps_runAndPlace (hI : Stable slot J I) (rqwn : RunQueueWithNext) {job : BenchmarkingJob}
    (hjob : ∀ state, J (job.cloneForQueueReinsertion state)) (erroneousJobsQueue doneJobsQueue : Option RunQueue)
    (wd : WorkingDirectoryId) :
    Prog.Keeps (machine pid) I (rqwn.runAndPlace job erroneousJobsQueue doneJobsQueue wd) := by
  have hpush : ∀ (queue : RunQueue) (state : BenchmarkingJobState) (status : JobStatus),
      Prog.Keeps (machine pid) I (queue.pushFront (job.cloneForQueueReinsertion state) >>= fun _ => pure status) :=
    fun queue state _ => (keeps_pushFront hI queue (hjob state)).bind fun _ => .ret _
  unfold runAndPlace
  dsimp only
  split
  · split
    · refine (keeps_call hI _ _).attempt.bind fun r => ?_
      cases r with
      | error e =>
        dsimp only
        split
        · exact hpush _ _ _
        · cases erroneousJobsQueue with
          | none => exact .ret _
          | some queue => exact hpush queue _ _
      | ok _ =>
        dsimp only
        split
        · split
          · exact .panic _
          · exact hpush _ _ _
          · exact .ret _
        · cases doneJobsQueue with
          | none => exact .ret _
          | some queue => exact hpush queue _ _
    · cases doneJobsQueue with
      | none => exact .ret _
      | some queue => exact hpush queue _ _
  · cases erroneousJobsQueue with
    | none => exact .ret _
    | some queue => exact hpush queue _ _

theorem keeps_runJob {item : QueueItem FileContent BenchmarkingJob}
    (hI : Stable (some (item.entry.baseDir, item.entry.fileName)) J I) (rqwn : RunQueueWithNext) {job : BenchmarkingJob}
    (hjob : ∀ state, J (job.cloneForQueueReinsertion state)) (erroneousJobsQueue doneJobsQueue : Option RunQueue)
    (wd : WorkingDirectoryId) :
    Prog.Keeps (machine pid) I (rqwn.runJob item job erroneousJobsQueue doneJobsQueue wd) := by
  refine (keeps_lockItem hI item).bind fun _ => Prog.Keeps.finally_ ?_ ?_
  · exact (keeps_runAndPlace hI rqwn hjob erroneousJobsQueue doneJobsQueue wd).bind fun status =>
      (keeps_deleteItem hI).bind fun _ => .ret _
  · rintro w x w' h hact
    obtain ⟨-, rfl⟩ := Prod.mk.inj (Option.some.inj hact)
    exact hI.same w _ h ⟨rfl, rfl, rfl, Nat.le_succ _⟩

theorem keeps_stopStartBe (hcall : ∀ cmd, Prog.Keeps (machine pid) I (Evo.call (.stopStart cmd) id)) (context : RunContext)
    (stopStart : Option (List String)) : Prog.Keeps (machine pid) I (context.stopStartBe stopStart) := by
  have hcommand : ∀ cmd startStop, Prog.Keeps (machine pid) I (RunContext.runCommandOf cmd startStop) := by
    rintro (_ | cmd) startStop
    · exact .ret _
    · dsimp only [RunContext.runCommandOf, RunContext.runCommand]
      split
      · exact .panic _
      · exact hcall _
  unfold RunContext.stopStartBe
  split
  · exact .ret _
  · exact (hcommand _ _).bind fun _ => (hcommand _ _).bind fun _ => .ret _

theorem keeps_cleanUpAfter (hcall : ∀ params, Prog.Keeps (machine pid) I (Evo.call (.deleteUncompressedLogs params) id))
    (ran : Option (BenchmarkingJob × JobStatus)) : Prog.Keeps (machine pid) I (cleanUpAfter ran) := by
  rcases ran with _ | ⟨job, status⟩
  · exact .ret _
  · dsimp only [cleanUpAfter]
    split
    · exact .ret _
    · exact hcall _

/-- The rest of an iteration. -/
theorem keeps_afterPick (context : RunContext) (picked : RunQueuesData × SystemTime × Option Choice)
    (hI : Stable (pickedSlot picked.2.2) J I)
    (hjob : ∀ choice, picked.2.2 = some choice → ∀ state, J (choice.job.cloneForQueueReinsertion state)) :
    Prog.Keeps (machine pid) I (afterPick context picked) := by
  obtain ⟨data, timestamp, job⟩ := picked
  refine Prog.Keeps.bind ?_ fun r => (keeps_cleanUpAfter (fun _ => keeps_call hI _ _) _).bind fun _ => .ret _
  cases job with
  | none => exact (keeps_stopStartBe (fun _ => keeps_call hI _ _) _ _).bind fun _ => .ret _
  | some choice =>
    exact (keeps_stopStartBe (fun _ => keeps_call hI _ _) _ _).bind fun _ => (keeps_call hI _ _).bind fun _ =>
      (keeps_call hI _ _).bind fun _ => (keeps_runJob hI _ (hjob choice rfl) _ _ _).bind fun _ => .ret _

end Keeps

/-! ### What a pick does -/

theorem RunQueuesData.current_mem_withNexts {l : List RunQueueData} {rq : RunQueueDataWithNext} (h : rq ∈ withNexts l) :
    rq.current ∈ l := by
  induction l with
  | nil => cases h
  | cons data rest ih =>
    rcases List.mem_cons.1 h with rfl | h
    · exact List.mem_cons_self
    · exact List.mem_cons_of_mem _ (ih h)

/-- **A pick** changes no files, and the time that it has read is not after its end. -/
theorem safe_pickNext {tz : LocalTz} {qs : RunQueues} {pid : Pid} {w : EvoWorld} (hsteady : ClockSteady w) :
    Safe pid (fun _ => True) (fun r v => w.Goes w.disk v ∧ match r with
      | .ok (_, timestamp, _) => timestamp.nanos ≤ v.event.now.nanos
      | _ => True) (pickNext tz qs) w := by
  refine Prog.holds_bind.2 (qs.safe_data.mono (fun _ _ => trivial) ?_)
  rintro r v ⟨hv, -⟩
  cases r with
  | err e => exact ⟨hv, trivial⟩
  | panic msg => exact ⟨hv, trivial⟩
  | ok data =>
    refine Prog.holds_bind.2 (safe_systemTime trivial (fun _ _ => trivial) fun v₁ hv₁ => ?_)
    have hw₁ := hv.same hv₁
    -- what comes after the reading takes time only
    have hend : ∀ v₂ : EvoWorld, v₁.Goes v₁.disk v₂ → w.Goes w.disk v₂ ∧ v.event.now.nanos ≤ v₂.event.now.nanos := by
      intro v₂ hv₂
      refine ⟨hw₁.same hv₂, ?_⟩
      rw [World.event, World.event, hv₂.env, hv₁.env, hv.env]
      exact hsteady _ _ (hv₁.tick.trans hv₂.tick)
    refine Prog.holds_bind.2 (Prog.holds_bind.2 ?_)
    cases RunQueuesData.activeQueues tz v.event.now.nanos (RunQueuesData.withNexts data.pipelineData) with
    | err e => exact ⟨trivial, hw₁, trivial⟩
    | panic msg => exact ⟨trivial, hw₁, trivial⟩
    | ok active =>
      refine ⟨trivial, ?_⟩
      simp only [Prog.Then]
      cases (active.filterMap RunQueuesData.firstJob).argmin fun x => x.1.2.2.neg with
      | none => exact ⟨trivial, trivial, hend v₁ (.refl v₁)⟩
      | some best =>
        refine Prog.holds_bind.2 (Prog.holds_mapErr.2 (Prog.holds_bind.2 (KeyVal.goes_entryOpt ?_ ?_ ?_ ?_)))
        · exact fun _ _ => trivial
        · exact fun e v₂ hv₂ => ⟨hw₁.same hv₂, trivial⟩
        · exact fun _ v₂ hv₂ => ⟨trivial, trivial, trivial, hend v₂ hv₂⟩
        · exact fun _ _ v₂ hv₂ => ⟨trivial, trivial, trivial, hend v₂ hv₂⟩

/-! ### A night -/

/-- A time zone without offset. -/
def sampleTz : LocalTz where
  dateNaive t := t / 86400000000000
  fromLocal date seconds := .single (date * 86400000000000 + seconds * 1000000000)

/-- The name of a queue that is run at night. -/
def nightName : ProperFilename := ⟨"night", by decide⟩

/-- The name of the queue after it. -/
def lateName : ProperFilename := ⟨"late", by decide⟩

/-- A directory with a job for each of the ids. -/
def nightJobs (ids : List UInt64) : Dir FileContent :=
  (ids.map fun id => (⟨AsKey.asFilenameStr (⟨0, 1, id⟩ : TimeKey), some (.job sampleJob)⟩ :
    (_ : String) × Option FileContent)).toAList

end Evobench.Run

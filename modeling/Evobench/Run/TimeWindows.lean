import Evobench.Run.Alternation

/-!
# The end of a time window

A queue with `move_when_time_window_ends` is to hand on its remaining jobs to the next queue of the
pipeline when its window is over. `close_open_queues` would do this, but the loop does not call it, so
nothing but a run moves a job. So a window is closed only if there is nothing to move when it ends.

## The model

* `WindowEnd`: a stretch of a run of the loop, from the last iteration before the end of a window that runs
  a job, to the first job that is picked after the end. Before, in between and while the iteration is
  about to run its job, other processes insert jobs.
* `WindowEnd.Closed`: at that pick, no job from before the end is left in the queue, and all those that
  were still there have been moved to the next queue.
* `WindowEnd.NothingToMove`: the condition, on the state in which the last iteration begins, the result of
  its benchmark, and the insertions of other processes.

## What is proved

* `final_of_afterPick`: a run runs one benchmark at most, and does with the job what the result says.
* `exists_windowEnd`, by induction over the run: if a job was run in a window and a job is picked when the
  window is over, this is the first such pick, or one after it.
* `windows_closed_iff`: `Closed` if and only if `NothingToMove`; then the last job is where its result
  sends it, and nothing older is in the queue at any later time.

## Honest scope

* Jobs that were in the queue when the window ended are told from later ones by the times in their keys.
* The loop itself goes on for ever; an iteration that ends with an error, or a daemon that is killed, ends
  the run.
-/

namespace Evobench.Run

open Library SerdeTypes DateAndTime KeyValFs IoUtils RunQueueWithNext

/-! ### What a run does -/

/-- In between, nothing is done to the visible files, and no benchmark is run. -/
structure Quiet (w v : EvoWorld) : Prop where
  /-- The files. -/
  entries : v.disk.entries = w.disk.entries
  /-- The calls that are made. -/
  calls : ∃ cs, v.calls = cs ++ w.calls
  /-- No benchmark is among them. -/
  runs : benchmarkRuns w v = []

/-- The result of a call that is a benchmark run. -/
def runOf : (Σ x : Call, Answer x) → Option (Except CallError Unit)
  | ⟨.runJob _ _ _ _, r⟩ => some r
  | _ => none

theorem benchmarkRuns_eq_filterMap {w v : EvoWorld} {cs : List (Σ x : Call, Answer x)} (h : v.calls = cs ++ w.calls) :
    benchmarkRuns w v = cs.filterMap runOf := by
  have htake : v.calls.take (v.calls.length - w.calls.length) = cs := by
    rw [h, List.length_append, Nat.add_sub_cancel, List.take_left]
  rw [benchmarkRuns, htake]
  rfl

/-- The benchmark runs in two stretches. -/
theorem benchmarkRuns_trans {w v u : EvoWorld} (h : ∃ cs, v.calls = cs ++ w.calls) (h' : ∃ cs, u.calls = cs ++ v.calls) :
    benchmarkRuns w u = benchmarkRuns v u ++ benchmarkRuns w v := by
  obtain ⟨cs, hcs⟩ := h
  obtain ⟨cs', hcs'⟩ := h'
  rw [benchmarkRuns_eq_filterMap hcs, benchmarkRuns_eq_filterMap hcs', ← List.filterMap_append]
  exact benchmarkRuns_eq_filterMap (by rw [hcs', hcs, List.append_assoc])

theorem Quiet.refl (w : EvoWorld) : Quiet w w :=
  ⟨rfl, ⟨[], rfl⟩, benchmarkRuns_eq_filterMap (List.nil_append _).symm⟩

theorem Quiet.trans {w v u : EvoWorld} (h : Quiet w v) (h' : Quiet v u) : Quiet w u := by
  refine ⟨h'.entries.trans h.entries, ?_, ?_⟩
  · obtain ⟨cs, hcs⟩ := h.calls
    obtain ⟨cs', hcs'⟩ := h'.calls
    exact ⟨cs' ++ cs, by rw [hcs', hcs, List.append_assoc]⟩
  · rw [benchmarkRuns_trans h.calls h'.calls, h.runs, h'.runs]
    rfl

section Afterwards

variable {pid : Pid} {w w' : EvoWorld}

/-- A call that is no benchmark. -/
theorem quiet_call {α : Type} {x : Call} (result : Answer x → Except CallError α) (hx : ∀ r, runOf ⟨x, r⟩ = none) :
    Prog.Keeps (machine pid) (Quiet w) (Evo.call x result) := by
  refine Prog.Keeps.bind (fun v h => ?_) fun r => Prog.Keeps.ofExcept _
  refine safe_call trivial fun v' hv => ⟨trivial, h.trans ⟨hv.entries, ⟨_, hv.calls⟩, ?_⟩⟩
  rw [benchmarkRuns_eq_filterMap hv.calls, List.filterMap_cons, hx]
  rfl

/-- **What a run does**: the benchmark is run at most once, the job is put where it goes, and its old entry is erased. -/
theorem final_of_afterPick {context context' : RunContext} {data : RunQueuesData} {timestamp : SystemTime} {choice : Choice}
    {ran : Option (BenchmarkingJob × JobStatus)}
    (hrun : (afterPick context (data, timestamp, some choice)).run (machine pid) w = some (.ok (context', ran), w')) :
    ∃ wd result status, benchmarkRuns w w' = result.toList ∧
      (Situation.mk choice.queue.runQueueWithNext data.runQueues.erroneousJobsQueue data.runQueues.doneJobsQueue choice.job wd
        (choice.item.entry.baseDir, choice.item.entry.fileName) w.disk.entries).Final result status w'.disk.entries := by
  obtain ⟨⟨context₁, ran₁⟩, u, hchosen, hrun⟩ := Prog.run_bind_eq_ok.1 hrun
  obtain ⟨_, u', hclean, hrun⟩ := Prog.run_bind_eq_ok.1 hrun
  obtain ⟨-, rfl⟩ := Prod.mk.inj (Option.some.inj hrun)
  obtain ⟨context₂, v₁, hstop, hchosen⟩ := Prog.run_bind_eq_ok.1 hchosen
  obtain ⟨wd, v₂, hwd, hchosen⟩ := Prog.run_bind_eq_ok.1 hchosen
  obtain ⟨_, v₃, hclear, hchosen⟩ := Prog.run_bind_eq_ok.1 hchosen
  obtain ⟨status, v₄, hjob, hchosen⟩ := Prog.run_bind_eq_ok.1 hchosen
  obtain ⟨-, rfl⟩ := Prod.mk.inj (Option.some.inj hchosen)
  have hstopped : Quiet w v₁ := (keeps_stopStartBe (fun _ => quiet_call _ fun _ => rfl) _ _).run (.refl w) hstop
  have hchose : Quiet w v₂ := (quiet_call _ fun _ => rfl).run hstopped hwd
  have hbefore : Quiet w v₃ := (quiet_call _ fun _ => rfl).run hchose hclear
  have hafter : Quiet v₄ u' := (keeps_cleanUpAfter (fun _ => quiet_call _ fun _ => rfl) _).run (.refl v₄) hclean
  obtain ⟨result, e, hreaches, -, hfinal⟩ := ((Prog.holds_iff _).1 (safe_runJob (s := ⟨choice.queue.runQueueWithNext,
    data.runQueues.erroneousJobsQueue, data.runQueues.doneJobsQueue, choice.job, wd,
    (choice.item.entry.baseDir, choice.item.entry.fileName), v₃.disk.entries⟩) rfl rfl)).2 _ _ hjob
  refine ⟨wd, result, status, ?_, ?_⟩
  · have hruns : benchmarkRuns v₃ v₄ = result.toList := by
      rw [benchmarkRuns_eq_filterMap hreaches.calls]
      rcases result with _ | r
      · rfl
      · rfl
    have hcalls : ∃ cs, v₄.calls = cs ++ w.calls := by
      obtain ⟨cs, hcs⟩ := hbefore.calls
      exact ⟨_ ++ cs, by rw [hreaches.calls, hcs, List.append_assoc]⟩
    rw [benchmarkRuns_trans hcalls hafter.calls, benchmarkRuns_trans hbefore.calls ⟨_, hreaches.calls⟩, hafter.runs, hbefore.runs,
      hruns, List.nil_append, List.append_nil]
  · rw [hafter.entries, hreaches.entries, ← hbefore.entries]
    exact hfinal

end Afterwards

/-! ### The end of a window -/

/-- A job is picked at a reading of the clock. -/
def Picks (tz : LocalTz) (qs : RunQueues) (reading : SystemTime) (job : Choice) (s s' : LoopState) : Prop :=
  LoopStep tz qs (.pick (some job)) s s' ∧ ∃ context data, s'.phase = .picked context (data, reading, some job)

/-- A job was picked out of the queue in a window with that end. -/
def UsedUntil (q : RunQueue) (stop : DateTime) (es : List LoopEvent) : Prop :=
  ∃ job dtr, LoopEvent.pick (some job) ∈ es ∧ job.queue.current.runQueue = q ∧ job.window = some dtr ∧ dtr.to_ = stop

/-- Everything in the queue was put there at that time or later. -/
def NothingOlder (q : RunQueue) (stop : DateTime) (s : LoopState) : Prop :=
  ∀ key : TimeKey, s.world.disk.entries (q.slot key) ≠ none → stop ≤ (key.nanos.val : ℤ)

/-- **The end of a window** in a run of the loop: a job was run in the window, out of a queue that is to be closed when the window
ends; the iteration that picks `job` is the last one before the end that runs a job, and `later` is the first job that is picked
after the end. Other processes insert jobs at any time. -/
structure WindowEnd (tz : LocalTz) (qs : RunQueues) (q : RunQueue) (stop : DateTime) (start : LoopState) where
  /-- What happens before the iteration. -/
  before : List LoopEvent
  /-- What happens between the iteration and the later pick. -/
  between : List LoopEvent
  /-- The state when the job is picked. -/
  begun : LoopState
  /-- When it has been picked. -/
  picked : LoopState
  /-- When its run begins. -/
  ready : LoopState
  /-- When the iteration is over. -/
  ended : LoopState
  /-- When the later job is picked. -/
  found : LoopState
  /-- When it has been picked. -/
  after : LoopState
  /-- The job of the iteration. -/
  job : Choice
  /-- The time at which it is picked. -/
  reading : SystemTime
  /-- The later job. -/
  later : Choice
  /-- The time at which it is picked. -/
  laterReading : SystemTime
  /-- The queue is in the pipeline. -/
  mem : q ∈ qs.pipeline
  /-- It is to be closed when a window ends. -/
  moves : q.scheduleCondition.moveWhenTimeWindowEnds = true
  /-- The run up to the iteration. -/
  run_before : LoopRun tz qs before start begun
  /-- The pick. -/
  pick : Picks tz qs reading job begun picked
  /-- Insertions. -/
  wait : ∃ es, LoopRun tz qs es picked ready ∧ ∀ e ∈ es, e = .insert
  /-- The run of the job. -/
  run : LoopStep tz qs .run ready ended
  /-- No job is picked. -/
  run_between : LoopRun tz qs between ended found
  /-- No job is picked. -/
  idle : ∀ c, LoopEvent.pick (some c) ∉ between
  /-- The later pick. -/
  pick_later : Picks tz qs laterReading later found after
  /-- The iteration begins before the end. -/
  open_ : reading.nanos < stop
  /-- The later pick is after the end. -/
  isOver : stop ≤ laterReading.nanos
  /-- A job was run out of the queue in the window. -/
  used : UsedUntil q stop (before ++ [.pick (some job)])

/-- A run with that result puts the job into the queue: a failure that leaves error budget into its own queue, a success after
which it still has to be run into its own queue or the next one. -/
def Choice.GoesInto (job : Choice) (q : RunQueue) : RunResult → Prop
  | none => False
  | some (.error _) => job.job.state.remainingErrorBudget - 1 > 0 ∧ job.queue.current.runQueue = q
  | some (.ok ()) => job.job.state.remainingCount - 1 > 0 ∧
      if job.queue.current.runQueue.scheduleCondition.passesOn then job.queue.runQueueWithNext.next = some q
      else job.queue.current.runQueue = q

namespace WindowEnd

variable {tz : LocalTz} {qs : RunQueues} {q : RunQueue} {stop : DateTime} {start : LoopState}

/-- A job is still in the queue when the iteration is over: it was put there before the end of the window, or back by the run. -/
def StillThere (e : WindowEnd tz qs q stop start) (key : TimeKey) : Prop :=
  e.ended.world.disk.entries (q.slot key) ≠ none ∧
    ((key.nanos.val : ℤ) < stop ∨ e.ready.world.disk.entries (q.slot key) = none)

/-- **The window is closed** when the later job is picked: nothing is left in the queue from before its end, and every job that
was still there has been moved to the next queue of the pipeline. -/
structure Closed (e : WindowEnd tz qs q stop start) : Prop where
  /-- Nothing is left. -/
  older : NothingOlder q stop e.found
  /-- The jobs have been moved. -/
  moved : ∀ key content, e.StillThere key → e.ended.world.disk.entries (q.slot key) = some content →
    e.found.world.disk.entries (q.slot key) = none ∧ ∀ next, RunQueueWithNext.mk q (some next) ∈ qs.runQueueWithNexts →
      ∃ key', e.ended.world.disk.entries (next.slot key') = none ∧ e.found.world.disk.entries (next.slot key') = some content

/-- **There is nothing to move**: when the last iteration before the end begins, no job from before the end is in the queue but
the one that it picks; its run does not put a job into the queue; and other processes put none there before the end. -/
structure NothingToMove (e : WindowEnd tz qs q stop start) : Prop where
  /-- The picked job is alone. -/
  alone : ∀ key : TimeKey, (key.nanos.val : ℤ) < stop → e.begun.world.disk.entries (q.slot key) ≠ none → e.job.Of q key
  /-- It leaves. -/
  leaves : ∀ result : RunResult, benchmarkRuns e.ready.world e.ended.world = result.toList → ¬ e.job.GoesInto q result
  /-- No job is inserted before the run. -/
  spared : ∀ key : TimeKey, (key.nanos.val : ℤ) < stop → e.picked.world.disk.entries (q.slot key) = none →
    e.ready.world.disk.entries (q.slot key) = none
  /-- No job is inserted after it. -/
  spared_later : ∀ key : TimeKey, (key.nanos.val : ℤ) < stop → e.ended.world.disk.entries (q.slot key) = none →
    e.found.world.disk.entries (q.slot key) = none

/-- Where the job of the iteration is when the later one is picked. -/
inductive SentOn (e : WindowEnd tz qs q stop start) : Prop where
  /-- In the next queue of the pipeline or in one of the extra queues, as it goes on after its run. -/
  | put {q' : RunQueue} {key' : TimeKey} {wd : WorkingDirectoryId} {result : RunResult}
    (hresult : benchmarkRuns e.ready.world e.ended.world = result.toList)
    (hqueue : e.job.queue.runQueueWithNext.next = some q' ∨ qs.doneJobsQueue = some q' ∨ qs.erroneousJobsQueue = some q')
    (hentry : e.found.world.disk.entries (q'.slot key') = some (some (.job (afterRun e.job.job wd result))))
  /-- In no queue, if it has left the pipeline. -/
  | left {result : RunResult} {status : JobStatus}
    (hresult : benchmarkRuns e.ready.world e.ended.world = result.toList)
    (hplacement : e.job.queue.runQueueWithNext.placement qs.erroneousJobsQueue qs.doneJobsQueue e.job.job result =
      some (status, none))
    (hleft : JobCall.LeftPipeline status)

end WindowEnd

/-! ### Where a run puts its job -/

theorem placement_of_goesInto {job : Choice} {q : RunQueue} {result : RunResult} (h : job.GoesInto q result)
    (hactive : job.queue.current.runQueue.scheduleCondition ≠ .inactive) (erroneousJobsQueue doneJobsQueue : Option RunQueue) :
    job.queue.runQueueWithNext.placement erroneousJobsQueue doneJobsQueue job.job result = some (.active, some q) := by
  rcases result with _ | e | ⟨⟩
  · exact h.elim
  · obtain ⟨hbudget, rfl⟩ := h
    exact if_pos hbudget
  · obtain ⟨hcount, h⟩ := h
    have hcurrent : job.queue.runQueueWithNext.current.scheduleCondition = job.queue.current.runQueue.scheduleCondition := rfl
    rw [placement, if_pos hcount, maybeQueue, hcurrent]
    cases hcondition : job.queue.current.runQueue.scheduleCondition with
    | immediately situation =>
      rw [hcondition, ScheduleCondition.passesOn, if_pos rfl] at h
      simp [h]
    | localNaiveTimeWindow priority situation stopStart repeatedly move from_ to_ =>
      rw [hcondition, ScheduleCondition.passesOn] at h
      cases repeatedly with
      | true =>
        obtain rfl : job.queue.current.runQueue = q := by simpa using h
        rfl
      | false =>
        have hnext : job.queue.runQueueWithNext.next = some q := by simpa using h
        simp [hnext]
    | inactive => exact absurd hcondition hactive

theorem goesInto_of_placement {qs : RunQueues} {job : Choice} {q : RunQueue} {result : RunResult} {status : JobStatus}
    (hq : q ∈ qs.pipeline)
    (h : job.queue.runQueueWithNext.placement qs.erroneousJobsQueue qs.doneJobsQueue job.job result = some (status, some q)) :
    job.GoesInto q result := by
  have hextra : ¬ (qs.doneJobsQueue = some q ∨ qs.erroneousJobsQueue = some q) := fun hextra =>
    not_mem_pipeline_of_extra hextra hq
  rcases result with _ | e | ⟨⟩
  · simp only [placement] at h
    split_ifs at h
    · exact absurd (.inl (eq_of_retain_some h).2) hextra
    · exact absurd (.inr (eq_of_retain_some h).2) hextra
  · simp only [placement] at h
    split_ifs at h with hbudget
    · simp only [Option.some.injEq, Prod.mk.injEq] at h
      exact ⟨hbudget, h.2⟩
    · exact absurd (.inr (eq_of_retain_some h).2) hextra
  · simp only [placement] at h
    split_ifs at h with hcount
    · obtain ⟨queue, hqueue, h⟩ := Option.map_eq_some_iff.1 h
      obtain ⟨-, rfl⟩ := Prod.mk.inj h
      refine ⟨hcount, ?_⟩
      have hcurrent : job.queue.runQueueWithNext.current.scheduleCondition = job.queue.current.runQueue.scheduleCondition := rfl
      rw [maybeQueue, hcurrent] at hqueue
      cases hcondition : job.queue.current.runQueue.scheduleCondition with
      | immediately situation =>
        rw [hcondition] at hqueue
        rw [ScheduleCondition.passesOn, if_pos rfl]
        exact Option.some.inj hqueue
      | localNaiveTimeWindow priority situation stopStart repeatedly move from_ to_ =>
        rw [hcondition] at hqueue
        rw [ScheduleCondition.passesOn]
        cases repeatedly with
        | true => exact Option.some.inj (Option.some.inj hqueue)
        | false => exact Option.some.inj hqueue
      | inactive =>
        rw [hcondition] at hqueue
        cases hqueue
    · exact absurd (.inl (eq_of_retain_some h).2) hextra

/-! ### The picked job -/

section Picks

variable {tz : LocalTz} {qs : RunQueues} {reading : SystemTime} {job : Choice} {s s' : LoopState}

/-- What is picked is the best job of what was loaded. -/
theorem Picks.best (h : Picks tz qs reading job s s') :
    ∃ context data key, s'.phase = .picked context (data, reading, some job) ∧ data.LoadedFrom qs s.world.disk ∧
      data.Best tz qs reading.nanos job key := by
  obtain ⟨hstep, context, data, hphase⟩ := h
  cases hstep with
  | pick hrun =>
    simp only [Phase.picked.injEq, Prod.mk.injEq] at hphase
    obtain ⟨-, -, rfl, -⟩ := hphase
    obtain ⟨hload, key, hbest⟩ := best_of_pickNext hrun
    exact ⟨_, _, key, rfl, hload, hbest⟩

/-- The job's entry. -/
theorem Picks.entry (h : Picks tz qs reading job s s') :
    ∃ key, pickedSlot (some job) = some (job.queue.current.runQueue.slot key) ∧ job.Of job.queue.current.runQueue key ∧
      s.world.disk.entries (job.queue.current.runQueue.slot key) ≠ none := by
  obtain ⟨context, data, key, -, hload, hbest⟩ := h.best
  obtain ⟨hdir, hname, -⟩ := hbest.item
  obtain ⟨qd, hqd, hqueue, p, hentry⟩ := hbest.waits.held
  have hslot : (job.item.entry.baseDir, job.item.entry.fileName) = job.queue.current.runQueue.slot key := Prod.ext hdir hname
  refine ⟨key, congrArg some hslot, ⟨rfl, hname⟩, ?_⟩
  have hkept := hload.kept qd hqd _ hentry
  rwa [hqueue] at hkept

theorem Picks.mem (h : Picks tz qs reading job s s') : job.queue.runQueueWithNext ∈ qs.runQueueWithNexts := by
  obtain ⟨context, data, key, -, -, hbest⟩ := h.best
  exact hbest.next

/-- The queue of a picked job is not inactive. -/
theorem Picks.active (h : Picks tz qs reading job s s') : job.queue.current.runQueue.scheduleCondition ≠ .inactive := by
  obtain ⟨context, data, key, -, -, hbest⟩ := h.best
  intro hinactive
  have hrunnable := hbest.waits.runnable
  rw [hinactive] at hrunnable
  cases hrunnable

end Picks

/-- Insertions erase nothing. -/
theorem entry_of_inserts {tz : LocalTz} {qs : RunQueues} {es : List LoopEvent} {s s' : LoopState} {p : String × String}
    {content : Option FileContent} (hrun : LoopRun tz qs es s s') (h : ∀ e ∈ es, e = .insert)
    (hentry : s.world.disk.entries p = some content) : s'.world.disk.entries p = some content := by
  induction hrun with
  | nil s => exact hentry
  | cons hstep hrun ih =>
    obtain rfl := h _ List.mem_cons_self
    refine ih (fun e he => h e (List.mem_cons_of_mem _ he)) ?_
    cases hstep with
    | insert hfirst hpush =>
      have hstable := stable_entry (Option.some_ne_none p).symm (fun _ => True) content
      exact (keeps_pushFront hstable _ trivial).run hentry hpush

/-! ### Single steps -/

section Steps

variable {tz : LocalTz} {qs : RunQueues} {s s' : LoopState}

theorem entries_of_pick {job : Option Choice} (hsteady : ClockSteady s.world) (hstep : LoopStep tz qs (.pick job) s s') :
    s'.world.disk.entries = s.world.disk.entries := by
  cases hstep with
  | pick hrun => rw [(goes_of_pickNext hsteady hrun).disk]

theorem idle_of_run (hstep : LoopStep tz qs .run s s') : ∃ context, s'.phase = .idle context := by
  cases hstep with
  | run hrun => exact ⟨_, rfl⟩

theorem final_of_run {context : RunContext} {data : RunQueuesData} {timestamp : SystemTime} {job : Choice}
    (hphase : s.phase = .picked context (data, timestamp, some job)) (hstep : LoopStep tz qs .run s s') :
    ∃ wd result status, benchmarkRuns s.world s'.world = result.toList ∧
      (Situation.mk job.queue.runQueueWithNext data.runQueues.erroneousJobsQueue data.runQueues.doneJobsQueue job.job wd
        (job.item.entry.baseDir, job.item.entry.fileName) s.world.disk.entries).Final result status s'.world.disk.entries := by
  cases hstep with
  | run hrun =>
    simp only [Phase.picked.injEq] at hphase
    obtain ⟨rfl, rfl⟩ := hphase
    exact final_of_afterPick hrun

/-- The reading of a pick is not after its end. -/
theorem reading_le_of_picks {reading : SystemTime} {job : Choice} (hsteady : ClockSteady s.world)
    (h : Picks tz qs reading job s s') : reading.nanos ≤ s'.world.event.now.nanos := by
  obtain ⟨hstep, context, data, hphase⟩ := h
  cases hstep with
  | pick hrun =>
    simp only [Phase.picked.injEq, Prod.mk.injEq] at hphase
    obtain ⟨-, -, rfl, -⟩ := hphase
    exact (((Prog.holds_iff _).1 (safe_pickNext hsteady)).2 _ _ hrun).2

end Steps

/-! ### From the iteration to the later pick -/

namespace WindowEnd

variable {tz : LocalTz} {qs : RunQueues} {q : RunQueue} {stop : DateTime} {start : LoopState}
  {e : WindowEnd tz qs q stop start}

theorem mem_allQueues (e : WindowEnd tz qs q stop start) : q ∈ qs.allQueues := mem_allQueues_of_mem_pipeline e.mem

theorem steady_begun (e : WindowEnd tz qs q stop start) (hclock : ClockSteady start.world) : ClockSteady e.begun.world :=
  steady_of_loopRun hclock e.run_before

theorem steady_picked (e : WindowEnd tz qs q stop start) (hclock : ClockSteady start.world) : ClockSteady e.picked.world :=
  steady_of_step (e.steady_begun hclock) e.pick.1

theorem steady_ready (e : WindowEnd tz qs q stop start) (hclock : ClockSteady start.world) : ClockSteady e.ready.world := by
  obtain ⟨es, hwait, -⟩ := e.wait
  exact steady_of_loopRun (e.steady_picked hclock) hwait

theorem steady_ended (e : WindowEnd tz qs q stop start) (hclock : ClockSteady start.world) : ClockSteady e.ended.world :=
  steady_of_step (e.steady_ready hclock) e.run

theorem steady_found (e : WindowEnd tz qs q stop start) (hclock : ClockSteady start.world) : ClockSteady e.found.world :=
  steady_of_loopRun (e.steady_ended hclock) e.run_between

/-- The job is about to be run. -/
theorem phase_ready (e : WindowEnd tz qs q stop start) :
    ∃ context data, e.ready.phase = .picked context (data, e.reading, some e.job) ∧ data.runQueues = qs := by
  obtain ⟨context, data, key, hphase, hload, -⟩ := e.pick.best
  obtain ⟨es, hwait, hinserts⟩ := e.wait
  exact ⟨context, data, (phase_of_inserts hwait hinserts).trans hphase, hload.runQueues⟩

/-- The entry at the job's place is the job's. -/
theorem of_of_slot (e : WindowEnd tz qs q stop start) {key : TimeKey} (h : pickedSlot (some e.job) = some (q.slot key)) :
    e.job.Of q key := by
  obtain ⟨key', hslot, hof, -⟩ := e.pick.entry
  have hcurrent := mem_allQueues_of_mem_pipeline (qs.current_mem e.pick.mem)
  obtain ⟨hqueue, rfl⟩ := qs.slot_inj hcurrent e.mem_allQueues (Option.some.inj (hslot.symm.trans h))
  exact ⟨hqueue, hof.2⟩

theorem slot_of_of (e : WindowEnd tz qs q stop start) {key : TimeKey} (h : e.job.Of q key) :
    pickedSlot (some e.job) = some (q.slot key) := by
  obtain ⟨key', hslot, ⟨-, hname⟩, -⟩ := e.pick.entry
  obtain rfl : key' = key := asFilenameStr_injective (hname.symm.trans h.2)
  rw [hslot, h.1]

/-- Where the job's entry is. -/
def slot (e : WindowEnd tz qs q stop start) : String × String := (e.job.item.entry.baseDir, e.job.item.entry.fileName)

/-- The run, as `safe_runJob` looks at it. -/
def situation (e : WindowEnd tz qs q stop start) (wd : WorkingDirectoryId) : Situation :=
  ⟨e.job.queue.runQueueWithNext, qs.erroneousJobsQueue, qs.doneJobsQueue, e.job.job, wd, e.slot, e.ready.world.disk.entries⟩

/-- What the run does. -/
theorem exists_final (e : WindowEnd tz qs q stop start) :
    ∃ wd result status, benchmarkRuns e.ready.world e.ended.world = result.toList ∧
      (e.situation wd).Final result status e.ended.world.disk.entries := by
  obtain ⟨context, data, hphase, hqueues⟩ := e.phase_ready
  obtain ⟨wd, result, status, hresult, hfinal⟩ := final_of_run hphase e.run
  rw [hqueues] at hfinal
  exact ⟨wd, result, status, hresult, hfinal⟩

section Entries

variable (e) (hclock : ClockSteady start.world) {q' : RunQueue} {key : TimeKey} {content : Option FileContent}

include hclock

theorem entries_picked : e.picked.world.disk.entries = e.begun.world.disk.entries :=
  entries_of_pick (e.steady_begun hclock) e.pick.1

/-- An entry stays where it is between the iteration and the later pick. -/
theorem found_of_ended (hq : q' ∈ qs.allQueues) (h : e.ended.world.disk.entries (q'.slot key) = some content) :
    e.found.world.disk.entries (q'.slot key) = some content := by
  obtain ⟨context, hphase⟩ := idle_of_run e.run
  have hspares : e.ended.phase.Spares (q'.slot key) := by
    rw [hphase]
    trivial
  exact (entry_of_loopRun (e.steady_ended hclock) hq e.run_between hspares (fun c hc => absurd hc (e.idle c)) h).2

/-- So does one that is not the job's from the run on. -/
theorem found_of_ready (hq : q' ∈ qs.allQueues) (hslot : pickedSlot (some e.job) ≠ some (q'.slot key))
    (h : e.ready.world.disk.entries (q'.slot key) = some content) : e.found.world.disk.entries (q'.slot key) = some content := by
  obtain ⟨context, data, hphase, -⟩ := e.phase_ready
  have hspares : e.ready.phase.Spares (q'.slot key) := by
    rw [hphase]
    exact hslot
  have hended := (entry_of_step (e.steady_ready hclock) hq e.run hspares (fun c hc => nomatch hc) h).2
  exact e.found_of_ended hclock hq hended

theorem found_of_begun (hnot : ¬ e.job.Of q key) (h : e.begun.world.disk.entries (q.slot key) = some content) :
    e.found.world.disk.entries (q.slot key) = some content := by
  obtain ⟨es, hwait, hinserts⟩ := e.wait
  rw [← e.entries_picked hclock] at h
  exact e.found_of_ready hclock e.mem_allQueues (fun hslot => hnot (e.of_of_slot hslot)) (entry_of_inserts hwait hinserts h)

/-- The job's entry is there until it is run. -/
theorem exists_ready : ∃ content, e.ready.world.disk.entries e.slot = some content := by
  obtain ⟨key, hslot, -, hentry⟩ := e.pick.entry
  obtain ⟨es, hwait, hinserts⟩ := e.wait
  obtain ⟨content, hcontent⟩ := Option.ne_none_iff_exists'.1 hentry
  rw [← e.entries_picked hclock] at hcontent
  refine ⟨content, ?_⟩
  rw [show e.slot = e.job.queue.current.runQueue.slot key from Option.some.inj hslot]
  exact entry_of_inserts hwait hinserts hcontent

/-- The new entry of the job is not at the place of the old one. -/
theorem slot_ne (hnew : e.ready.world.disk.entries (q'.slot key) = none) : q'.slot key ≠ e.slot := by
  intro hslot
  obtain ⟨content, hcontent⟩ := e.exists_ready hclock
  rw [← hslot, hnew] at hcontent
  cases hcontent

/-- If the run puts the job somewhere, it has a new entry there. -/
theorem ended_of_placement {wd : WorkingDirectoryId} {result : RunResult} {e' : Entries FileContent}
    (hnew : e.ready.world.disk.entries (q'.slot key) = none)
    (he' : e' = (e.situation wd).pushed result q' key) (hended : e.ended.world.disk.entries = eraseEntry e' e.slot) :
    e.ended.world.disk.entries (q'.slot key) = some (some (.job (afterRun e.job.job wd result))) := by
  rw [hended, eraseEntry, Function.update_of_ne (e.slot_ne hclock hnew), he', Situation.pushed, putEntry, Function.update_self]
  rfl

omit hclock in
/-- The queue into which the run puts the job. -/
theorem mem_allQueues_of_placement {result : RunResult} {status : JobStatus}
    (h : e.job.queue.runQueueWithNext.placement qs.erroneousJobsQueue qs.doneJobsQueue e.job.job result =
      some (status, some q')) : q' ∈ qs.allQueues := by
  obtain ⟨key, -⟩ := e.pick.entry
  let call : JobCall := ⟨e.job.queue.runQueueWithNext, key, e.job.job, 0⟩
  exact mem_allQueues_of_destination (c := call) e.pick.mem (destination_of_placement h)

omit hclock in
/-- What is in the queue when the iteration is over was there before and is not the job's entry, or the run has put it there. -/
theorem ready_or_goesInto (h : e.ended.world.disk.entries (q.slot key) ≠ none) :
    (e.ready.world.disk.entries (q.slot key) ≠ none ∧ ¬ e.job.Of q key) ∨
      ∃ result, benchmarkRuns e.ready.world e.ended.world = result.toList ∧ e.job.GoesInto q result := by
  obtain ⟨wd, result, status, hresult, e', hplaced, hended⟩ := e.exists_final
  replace h : eraseEntry e' e.slot (q.slot key) ≠ none := by rwa [hended] at h
  have hslot : q.slot key ≠ e.slot := by
    intro hslot
    rw [eraseEntry, hslot] at h
    exact h (Function.update_self _ _ _)
  have hnot : ¬ e.job.Of q key := fun hof => hslot (Option.some.inj (e.slot_of_of hof)).symm
  rw [eraseEntry, Function.update_of_ne hslot] at h
  cases hplaced with
  | gone hplacement => exact .inl ⟨h, hnot⟩
  | @moved q' key' hplacement hnew =>
    by_cases hput : q.slot key = q'.slot key'
    · -- the entry is the new one, so the queue is the one of the placement
      obtain ⟨rfl, -⟩ := qs.slot_inj e.mem_allQueues (e.mem_allQueues_of_placement hplacement) hput
      exact .inr ⟨result, hresult, goesInto_of_placement e.mem hplacement⟩
    · rw [Situation.pushed, putEntry, Function.update_of_ne hput] at h
      exact .inl ⟨h, hnot⟩

/-- If the run puts the job into the queue, there is a new entry in it. -/
theorem exists_of_goesInto {result : RunResult} (hresult : benchmarkRuns e.ready.world e.ended.world = result.toList)
    (h : e.job.GoesInto q result) :
    ∃ key content, e.ready.world.disk.entries (q.slot key) = none ∧ e.ended.world.disk.entries (q.slot key) = some content := by
  obtain ⟨wd, result', status, hresult', e', hplaced, hended⟩ := e.exists_final
  obtain rfl : result = result' := by simpa using congrArg List.head? (hresult.symm.trans hresult')
  have hplacement := placement_of_goesInto h e.pick.active qs.erroneousJobsQueue qs.doneJobsQueue
  cases hplaced with
  | gone hgone =>
    have habsurd := hplacement.symm.trans hgone
    cases habsurd
  | @moved q' key hmoved hnew =>
    obtain ⟨-, hq⟩ := Prod.mk.inj (Option.some.inj (hplacement.symm.trans hmoved))
    obtain rfl : q = q' := Option.some.inj hq
    exact ⟨key, _, hnew, e.ended_of_placement hclock hnew rfl hended⟩

/-- Where there is nothing to move, nothing is still there. -/
theorem not_stillThere (h : e.NothingToMove) : ¬ e.StillThere key := by
  rintro ⟨hended, hstill⟩
  rcases e.ready_or_goesInto hended with ⟨hready, hnot⟩ | ⟨result, hresult, hgoes⟩
  · rcases hstill with hlt | hnone
    · -- it was there when the iteration began, and it is not the job
      have hpicked : e.picked.world.disk.entries (q.slot key) ≠ none := fun hnone => hready (h.spared key hlt hnone)
      rw [e.entries_picked hclock] at hpicked
      exact hnot (h.alone key hlt hpicked)
    · exact hready hnone
  · exact h.leaves result hresult hgoes

theorem closed_of_nothingToMove (h : e.NothingToMove) : e.Closed := by
  refine ⟨fun key hfound => ?_, fun key content hstill => absurd hstill (e.not_stillThere hclock h)⟩
  by_contra hlt
  rw [not_le] at hlt
  have hended : e.ended.world.disk.entries (q.slot key) ≠ none := fun hnone => hfound (h.spared_later key hlt hnone)
  exact e.not_stillThere hclock h ⟨hended, .inl hlt⟩

theorem nothingToMove_of_closed (h : e.Closed) : e.NothingToMove where
  alone key hlt hbegun := by
    by_contra hnot
    obtain ⟨content, hcontent⟩ := Option.ne_none_iff_exists'.1 hbegun
    have hfound := e.found_of_begun hclock hnot hcontent
    exact absurd (h.older key (by rw [hfound]; exact Option.some_ne_none content)) (not_le.2 hlt)
  leaves result hresult hgoes := by
    obtain ⟨key, content, hnew, hended⟩ := e.exists_of_goesInto hclock hresult hgoes
    have hstill : e.StillThere key := ⟨by rw [hended]; exact Option.some_ne_none content, .inr hnew⟩
    have hgone := (h.moved key content hstill hended).1
    rw [e.found_of_ended hclock e.mem_allQueues hended] at hgone
    cases hgone
  spared key hlt hpicked := by
    by_contra hready
    obtain ⟨content, hcontent⟩ := Option.ne_none_iff_exists'.1 hready
    have hslot : pickedSlot (some e.job) ≠ some (q.slot key) := by
      intro hslot
      obtain ⟨key', hslot', -, hentry⟩ := e.pick.entry
      rw [← Option.some.inj (hslot.symm.trans hslot'), ← e.entries_picked hclock, hpicked] at hentry
      exact hentry rfl
    have hfound := e.found_of_ready hclock e.mem_allQueues hslot hcontent
    exact absurd (h.older key (by rw [hfound]; exact Option.some_ne_none content)) (not_le.2 hlt)
  spared_later key hlt _ := by
    by_contra hfound
    exact absurd (h.older key hfound) (not_le.2 hlt)

/-- A job of the queue has been sent on. -/
theorem sentOn_of_nothingToMove (h : e.NothingToMove) (hjob : e.job.queue.current.runQueue = q) : e.SentOn := by
  obtain ⟨wd, result, status, hresult, e', hplaced, hended⟩ := e.exists_final
  obtain ⟨key, -⟩ := e.pick.entry
  have hleft (h : e.job.queue.runQueueWithNext.placement qs.erroneousJobsQueue qs.doneJobsQueue e.job.job result =
      some (status, none)) : JobCall.LeftPipeline status :=
    leftPipeline_of_placement (c := ⟨e.job.queue.runQueueWithNext, key, e.job.job, wd⟩) h
  cases hplaced with
  | gone hplacement => exact .left hresult hplacement (hleft hplacement)
  | @moved q' key' hplacement hnew =>
    have hentry := e.ended_of_placement hclock hnew rfl hended
    refine .put hresult ?_ (e.found_of_ended hclock (e.mem_allQueues_of_placement hplacement) hentry)
    rcases next_of_placement (c := ⟨e.job.queue.runQueueWithNext, key, e.job.job, wd⟩) hplacement with rfl | hextra | hnext
    · -- it would go back into the queue
      have hgoes := goesInto_of_placement (qs.current_mem e.pick.mem) hplacement
      rw [show e.job.queue.runQueueWithNext.current = q from hjob] at hgoes
      exact absurd hgoes (h.leaves result hresult)
    · exact .inr hextra
    · exact .inl hnext.1

/-- From the later pick on, nothing older comes back. -/
theorem closedSince_after (h : e.Closed) : ClosedSince q stop e.after.world := by
  have hsteady := e.steady_found hclock
  refine ⟨steady_of_step hsteady e.pick_later.1, e.isOver.trans (reading_le_of_picks hsteady e.pick_later), ?_⟩
  rw [entries_of_pick hsteady e.pick_later.1]
  exact h.older

end Entries

end WindowEnd

/-! ### Every window that is over has an end -/

theorem LoopRun.snoc {tz : LocalTz} {qs : RunQueues} {es : List LoopEvent} {e : LoopEvent} {s t u : LoopState}
    (hrun : LoopRun tz qs es s t) (hstep : LoopStep tz qs e t u) : LoopRun tz qs (es ++ [e]) s u := by
  induction hrun with
  | nil s => exact .cons hstep (.nil u)
  | cons hfirst _ ih => exact .cons hfirst (ih hstep)

theorem UsedUntil.mono {q : RunQueue} {stop : DateTime} {es es' : List LoopEvent} (h : UsedUntil q stop es)
    (hsub : ∀ e ∈ es, e ∈ es') : UsedUntil q stop es' := by
  obtain ⟨job, dtr, hmem, hjob⟩ := h
  exact ⟨job, dtr, hsub _ hmem, hjob⟩

section Progress

variable {tz : LocalTz} {qs : RunQueues} {q : RunQueue} {stop : DateTime} {start s s' : LoopState} {es : List LoopEvent}
  {e : LoopEvent}

/-- How far a run has come with the end of a window, after the given events. -/
inductive Progress (tz : LocalTz) (qs : RunQueues) (q : RunQueue) (stop : DateTime) (start : LoopState) (es : List LoopEvent)
    (s : LoopState) : Prop where
  /-- No job was run in the window. -/
  | unused (h : ¬ UsedUntil q stop es)
  /-- The last job that was picked before the end is about to be run. -/
  | waiting {before es' : List LoopEvent} {begun picked : LoopState} {reading : SystemTime} {job : Choice}
    (hused : UsedUntil q stop es) (hbefore : LoopRun tz qs before start begun) (hpick : Picks tz qs reading job begun picked)
    (hopen : reading.nanos < stop) (hused' : UsedUntil q stop (before ++ [.pick (some job)]))
    (hwait : LoopRun tz qs es' picked s) (hinserts : ∀ e ∈ es', e = .insert)
  /-- It has been run, and no other job has been picked since. -/
  | ran {before es' between : List LoopEvent} {begun picked ready ended : LoopState} {reading : SystemTime} {job : Choice}
    (hused : UsedUntil q stop es) (hbefore : LoopRun tz qs before start begun) (hpick : Picks tz qs reading job begun picked)
    (hopen : reading.nanos < stop) (hused' : UsedUntil q stop (before ++ [.pick (some job)]))
    (hwait : LoopRun tz qs es' picked ready) (hinserts : ∀ e ∈ es', e = .insert) (hrun : LoopStep tz qs .run ready ended)
    (hbetween : LoopRun tz qs between ended s) (hidle : ∀ c, LoopEvent.pick (some c) ∉ between)
  /-- The window is over. -/
  | isOver {es' : List LoopEvent} (w : WindowEnd tz qs q stop start) (hrun : LoopRun tz qs es' w.after s)

theorem picks_of_step {job : Choice} (hstep : LoopStep tz qs (.pick (some job)) s s') :
    ∃ reading, Picks tz qs reading job s s' := by
  cases id hstep with
  | pick hrun => exact ⟨_, hstep, _, _, rfl⟩

/-- While a job waits to be run no job is picked. -/
theorem not_pick_of_wait {picked : LoopState} {begun : LoopState} {reading : SystemTime} {job : Choice} {c : Option Choice}
    (hpick : Picks tz qs reading job begun picked) (hwait : LoopRun tz qs es picked s) (hinserts : ∀ e ∈ es, e = .insert)
    (hstep : LoopStep tz qs (.pick c) s s') : False := by
  obtain ⟨-, context, data, hphase⟩ := hpick
  have hwaiting := (phase_of_inserts hwait hinserts).trans hphase
  cases hstep with
  | pick hrun => cases hwaiting

/-- A window in which a job is picked has not ended. -/
theorem reading_lt_of_picks {reading : SystemTime} {job : Choice} {dtr : DateTimeRange} (h : Picks tz qs reading job s s')
    (hwindow : job.window = some dtr) : reading.nanos < dtr.to_ := by
  obtain ⟨context, data, key, -, -, hbest⟩ := h.best
  have hrunnable := hbest.waits.runnable
  rw [hwindow] at hrunnable
  have hcontains := ScheduleCondition.contains_of_isRunnableAt hrunnable
  simp only [DateTimeRange.contains, Bool.and_eq_true, decide_eq_true_eq] at hcontains
  exact hcontains.2

variable (hq : q ∈ qs.pipeline) (hmoves : q.scheduleCondition.moveWhenTimeWindowEnds = true)

include hq hmoves

/-- **One step** of a run. -/
theorem progress_of_step (hrun : LoopRun tz qs es start s) (h : Progress tz qs q stop start es s)
    (hstep : LoopStep tz qs e s s') : Progress tz qs q stop start (es ++ [e]) s' := by
  have hmono : UsedUntil q stop es → UsedUntil q stop (es ++ [e]) := fun hused => hused.mono fun _ => List.mem_append_left _
  cases h with
  | isOver w hover => exact .isOver w (hover.snoc hstep)
  | unused hunused =>
    by_cases hused : UsedUntil q stop (es ++ [e])
    case neg => exact .unused hused
    -- the step is the first pick in the window
    obtain ⟨job, dtr, hmem, hqueue, hwindow, hstop⟩ := id hused
    rcases List.mem_append.1 hmem with hmem | hmem
    · exact absurd ⟨job, dtr, hmem, hqueue, hwindow, hstop⟩ hunused
    · obtain rfl := List.mem_singleton.1 hmem
      obtain ⟨reading, hpick⟩ := picks_of_step hstep
      have hopen : reading.nanos < stop := hstop ▸ reading_lt_of_picks hpick hwindow
      exact .waiting hused hrun hpick hopen hused (.nil s') (fun _ he => nomatch he)
  | waiting hused hbefore hpick hopen hused' hwait hinserts =>
    cases e with
    | insert =>
      refine .waiting (hmono hused) hbefore hpick hopen hused' (hwait.snoc hstep) fun e he => ?_
      exact (List.mem_append.1 he).elim (hinserts e) List.mem_singleton.1
    | pick c => exact (not_pick_of_wait hpick hwait hinserts hstep).elim
    | run => exact .ran (hmono hused) hbefore hpick hopen hused' hwait hinserts hstep (.nil s') fun _ he => nomatch he
  | ran hused hbefore hpick hopen hused' hwait hinserts hran hbetween hidle =>
    by_cases hjob : ∃ c, e = .pick (some c)
    · obtain ⟨c, rfl⟩ := hjob
      obtain ⟨reading, hpick'⟩ := picks_of_step hstep
      by_cases hopen' : reading.nanos < stop
      · exact .waiting (hmono hused) hrun hpick' hopen' (hmono hused) (.nil s') fun _ he => nomatch he
      · exact .isOver ⟨_, _, _, _, _, _, _, _, _, _, _, _, hq, hmoves, hbefore, hpick, ⟨_, hwait, hinserts⟩, hran, hbetween, hidle,
          hpick', hopen, not_lt.1 hopen', hused'⟩ (.nil s')
    · refine .ran (hmono hused) hbefore hpick hopen hused' hwait hinserts hran (hbetween.snoc hstep) fun c hc => ?_
      rcases List.mem_append.1 hc with hc | hc
      · exact hidle c hc
      · exact hjob ⟨c, (List.mem_singleton.1 hc).symm⟩

theorem progress_of_run {es₀ : List LoopEvent} (hrun₀ : LoopRun tz qs es₀ start s) (h : Progress tz qs q stop start es₀ s)
    (hrun : LoopRun tz qs es s s') : Progress tz qs q stop start (es₀ ++ es) s' := by
  induction hrun generalizing es₀ with
  | nil s => rwa [List.append_nil]
  | @cons e es s t u hstep _ ih =>
    rw [List.append_cons]
    exact ih (hrun₀.snoc hstep) (progress_of_step hq hmoves hrun₀ h hstep)

/-- **Every window has an end**: if a job was run in it, and a job is picked when it is over, then this is the first such pick, or
one after it. -/
theorem exists_windowEnd {reading : SystemTime} {job : Choice} (hrun : LoopRun tz qs es start s) (hused : UsedUntil q stop es)
    (hpick : Picks tz qs reading job s s') (hover : stop ≤ reading.nanos) :
    ∃ w : WindowEnd tz qs q stop start, w.found = s ∧ w.after = s' ∨ ∃ es', LoopRun tz qs es' w.after s := by
  have hstart : Progress tz qs q stop start [] start := .unused fun ⟨_, _, hmem, _⟩ => nomatch hmem
  cases progress_of_run hq hmoves (.nil start) hstart hrun with
  | unused hunused => exact absurd hused hunused
  | waiting _ _ hpick' _ _ hwait hinserts => exact (not_pick_of_wait hpick' hwait hinserts hpick.1).elim
  | ran _ hbefore hpick' hopen hused' hwait hinserts hran hbetween hidle =>
    exact ⟨⟨_, _, _, _, _, _, _, _, _, _, _, _, hq, hmoves, hbefore, hpick', ⟨_, hwait, hinserts⟩, hran, hbetween, hidle, hpick,
      hopen, hover, hused'⟩, .inl ⟨rfl, rfl⟩⟩
  | isOver w hafter => exact ⟨w, .inr ⟨_, hafter⟩⟩

end Progress

/-! ### The main result -/

/-- What has been closed stays closed. -/
theorem closedSince_of_loopRun {tz : LocalTz} {qs : RunQueues} {q : RunQueue} {stop : DateTime} {es : List LoopEvent}
    {s s' : LoopState} (hrun : LoopRun tz qs es s s') (h : ClosedSince q stop s.world) : ClosedSince q stop s'.world := by
  induction hrun with
  | nil s => exact h
  | cons hstep _ ih => exact ih (stable_step (fun slot => stable_closedSince q stop slot _) h.steady hstep h)

/-- **Time windows are closed** exactly if there is nothing to move when they end. In every run of the loop with a clock that
never goes backwards, for every queue that is to be closed when a window ends and every such window in which a job of it was run:
at the first pick after the end nothing is left and all jobs have been moved, if and only if in the last iteration before the end
there was nothing to move; then the last job has been sent on, and nothing older is in the queue at any time afterwards. And every
pick after the end of such a window is the first one or comes after it. -/
theorem windows_closed_iff {tz : LocalTz} {qs : RunQueues} {q : RunQueue} {stop : DateTime} {start : LoopState}
    (hclock : ClockSteady start.world) :
    (∀ w : WindowEnd tz qs q stop start, (w.Closed ↔ w.NothingToMove) ∧
      (w.NothingToMove → (w.job.queue.current.runQueue = q → w.SentOn) ∧
        ∀ es s, LoopRun tz qs es w.after s → NothingOlder q stop s)) ∧
    (q ∈ qs.pipeline → q.scheduleCondition.moveWhenTimeWindowEnds = true →
      ∀ es s s' reading job, LoopRun tz qs es start s → UsedUntil q stop es → Picks tz qs reading job s s' →
        stop ≤ reading.nanos →
        ∃ w : WindowEnd tz qs q stop start, w.found = s ∧ w.after = s' ∨ ∃ es', LoopRun tz qs es' w.after s) := by
  refine ⟨fun w => ⟨⟨w.nothingToMove_of_closed hclock, w.closed_of_nothingToMove hclock⟩, fun h => ⟨?_, ?_⟩⟩, ?_⟩
  · exact w.sentOn_of_nothingToMove hclock h
  · intro es s hrun
    exact (closedSince_of_loopRun hrun (w.closedSince_after hclock (w.closed_of_nothingToMove hclock h))).entries
  · intro hq hmoves es s s' reading job hrun hused hpick hover
    exact exists_windowEnd hq hmoves hrun hused hpick hover

/-! ### A night -/

/-- A queue whose jobs are run in the first three seconds of a day, and one for the rest. -/
def nightQueues : RunQueues where
  config := ⟨[(nightName,
      .localNaiveTimeWindow none nightName none false true ⟨0, 0, 0⟩ ⟨0, 0, 3⟩),
    (lateName, .immediately dayName)], none, none⟩
  basedir := "queues"
  checked := by decide +kernel

/-- The first queue. -/
def nightQueue : RunQueue :=
  makeRunQueue "queues" (nightName,
    .localNaiveTimeWindow none nightName none false true ⟨0, 0, 0⟩ ⟨0, 0, 3⟩)

/-- Two jobs are in the first queue, and the window ends with the given operation. -/
def nightWorld (cut : ℕ) : EvoWorld where
  disk := Function.update (fun _ => ∅) "queues/night" (nightJobs [0, 1])
  locks := fun _ => none
  env := fun i => ⟨if i < cut then ⟨500000000, by decide⟩ else ⟨4000000000, by decide⟩, none, sampleAnswer⟩
  tick := 0
  ids := fun _ => 0
  calls := []

theorem nightWorld_steady (cut : ℕ) : ClockSteady (nightWorld cut) := by
  intro i j hij
  simp only [nightWorld]
  split
  · split
    · exact le_rfl
    · decide
  · next hi => rw [if_neg (by omega)]

/-- The states of the night. -/
def nights (cut : ℕ) : ℕ → LoopState := turnsFrom nightQueues (nightWorld cut)

/-- The reading of the clock with which a job has been picked. -/
def readingOf (s : LoopState) : SystemTime :=
  match s.phase with
  | .picked _ next => next.2.1
  | .idle _ => .epoch

theorem picks_night {cut n : ℕ} {c : Choice} (h : pickAt nightQueues (nightWorld cut) n = some c) :
    Picks sampleTz nightQueues (readingOf (nights cut (n + 1))) c (nights cut n) (nights cut (n + 1)) := by
  obtain ⟨reading, hstep, context, data, hphase⟩ := picks_of_step (turn_pick h)
  refine ⟨hstep, context, data, ?_⟩
  rw [show nights cut (n + 1) = turnsFrom nightQueues (nightWorld cut) (n + 1) from rfl, readingOf, hphase]

/-- The picks in a night, as far as they can be compared. -/
def nightPick (cut n : ℕ) : Option (RunQueue × String × Option RunQueue × Option DateTime) :=
  (pickAt nightQueues (nightWorld cut) n).map fun c =>
    (c.queue.current.runQueue, c.item.entry.fileName, c.queue.runQueueWithNext.next, c.window.map (·.to_))

section Nights

variable {cut n : ℕ} {before : List LoopEvent} {job later : Choice} {dtr : DateTimeRange}

/-- The end of the window, where a job is picked in the window, run, and another one picked after it. -/
def nightEnd (hbefore : LoopRun sampleTz nightQueues before (nights cut 0) (nights cut n))
    (hjob : pickAt nightQueues (nightWorld cut) n = some job) (hqueue : job.queue.current.runQueue = nightQueue)
    (hwindow : job.window = some dtr) (hto : dtr.to_ = 3000000000)
    (hrun : LoopStep sampleTz nightQueues .run (nights cut (n + 1)) (nights cut (n + 2)))
    (hlater : pickAt nightQueues (nightWorld cut) (n + 2) = some later)
    (hopen : (readingOf (nights cut (n + 1))).nanos < 3000000000) (hover : 3000000000 ≤ (readingOf (nights cut (n + 3))).nanos) :
    WindowEnd sampleTz nightQueues nightQueue 3000000000 (nights cut 0) where
  before := before
  between := []
  begun := nights cut n
  picked := nights cut (n + 1)
  ready := nights cut (n + 1)
  ended := nights cut (n + 2)
  found := nights cut (n + 2)
  after := nights cut (n + 3)
  job := job
  reading := readingOf (nights cut (n + 1))
  later := later
  laterReading := readingOf (nights cut (n + 3))
  mem := by decide +kernel
  moves := rfl
  run_before := hbefore
  pick := picks_night hjob
  wait := ⟨[], .nil _, fun _ he => nomatch he⟩
  run := hrun
  run_between := .nil _
  idle := fun _ he => nomatch he
  pick_later := picks_night hlater
  open_ := hopen
  isOver := hover
  used := ⟨job, dtr, List.mem_append_right _ List.mem_cons_self, hqueue, hwindow, hto⟩

/-- Nobody inserts a job in the night. -/
theorem nothingToMove_night (hbefore : LoopRun sampleTz nightQueues before (nights cut 0) (nights cut n))
    (hjob : pickAt nightQueues (nightWorld cut) n = some job) (hqueue : job.queue.current.runQueue = nightQueue)
    (hwindow : job.window = some dtr) (hto : dtr.to_ = 3000000000)
    (hrun : LoopStep sampleTz nightQueues .run (nights cut (n + 1)) (nights cut (n + 2)))
    (hlater : pickAt nightQueues (nightWorld cut) (n + 2) = some later)
    (hopen : (readingOf (nights cut (n + 1))).nanos < 3000000000) (hover : 3000000000 ≤ (readingOf (nights cut (n + 3))).nanos)
    (halone : ∀ key : TimeKey, (nights cut n).world.disk.entries (nightQueue.slot key) ≠ none →
      job.item.entry.fileName = asFilenameStr key)
    (hleaves : ∀ result : RunResult, benchmarkRuns (nights cut (n + 1)).world (nights cut (n + 2)).world = result.toList →
      ¬ job.GoesInto nightQueue result) :
    (nightEnd hbefore hjob hqueue hwindow hto hrun hlater hopen hover).NothingToMove :=
  ⟨fun key _ hkey => ⟨hqueue, halone key hkey⟩, hleaves, fun _ _ hnone => hnone, fun _ _ hnone => hnone⟩

end Nights

/-- The second job of the night is still in its queue when, after the end of the window, the first one is picked for its
second run. -/
theorem window_not_closed :
    ¬ ∀ (tz : LocalTz) (qs : RunQueues) (q : RunQueue) (stop : DateTime) (w : EvoWorld), ClockSteady w →
      ∀ e : WindowEnd tz qs q stop ⟨.idle .default, w⟩, e.Closed := by
  intro hall
  obtain ⟨job, hjob, hpick⟩ := Option.map_eq_some_iff.1 (show nightPick 8 0 = some (nightQueue, "0-1-0",
    some (makeRunQueue "queues" (lateName, .immediately dayName)), some 3000000000) by decide +kernel)
  obtain ⟨later, hlater⟩ := Option.isSome_iff_exists.1
    (show (pickAt nightQueues (nightWorld 8) 2).isSome = true by decide +kernel)
  simp only [Prod.mk.injEq, Option.map_eq_some_iff] at hpick
  obtain ⟨hqueue, -, -, dtr, hwindow, hto⟩ := hpick
  have hclosed := hall _ _ _ _ _ (nightWorld_steady 8) (nightEnd (.nil _) hjob hqueue hwindow hto
    (turn_run (by decide +kernel)) hlater (by decide +kernel) (by decide +kernel))
  have hentry : (nights 8 2).world.disk.entries (nightQueue.slot ⟨0, 1, 1⟩) ≠ none :=
    Option.isSome_iff_ne_none.1 (by decide +kernel)
  exact absurd (hclosed.older ⟨0, 1, 1⟩ hentry) (by decide)

/-- The jobs in the queue of the night. -/
theorem name_of_entry {cut n : ℕ} {key : TimeKey} (h : (nights cut n).world.disk.entries (nightQueue.slot key) ≠ none) :
    asFilenameStr key ∈ ((nights cut n).world.disk "queues/night").keys := by
  rw [show (nights cut n).world.disk.entries (nightQueue.slot key) = _ from
    Disk.entries_eq_file (isTmp_asFilenameStr key)] at h
  rw [← AList.mem_keys, ← AList.lookup_isSome]
  exact Option.isSome_iff_ne_none.2 h

/-- If the window ends while the last job of the night is run, it is closed: that job goes on to the next queue. -/
theorem windows_closed_iff_sample :
    ∃ e : WindowEnd sampleTz nightQueues nightQueue 3000000000 (nights 35 0),
      e.begun = nights 35 2 ∧ e.found = nights 35 4 ∧ e.Closed ∧ e.SentOn := by
  obtain ⟨first, hfirst⟩ := Option.isSome_iff_exists.1
    (show (pickAt nightQueues (nightWorld 35) 0).isSome = true by decide +kernel)
  obtain ⟨job, hjob, hpick⟩ := Option.map_eq_some_iff.1 (show nightPick 35 2 = some (nightQueue, "0-1-1",
    some (makeRunQueue "queues" (lateName, .immediately dayName)), some 3000000000) by decide +kernel)
  obtain ⟨later, hlater⟩ := Option.isSome_iff_exists.1
    (show (pickAt nightQueues (nightWorld 35) 4).isSome = true by decide +kernel)
  simp only [Prod.mk.injEq, Option.map_eq_some_iff] at hpick
  obtain ⟨hqueue, hname, hnext, dtr, hwindow, hto⟩ := hpick
  have hbefore : LoopRun sampleTz nightQueues [.pick (some first), .run] (nights 35 0) (nights 35 2) :=
    .cons (turn_pick hfirst) (.cons (turn_run (by decide +kernel)) (.nil _))
  have hrun : LoopStep sampleTz nightQueues .run (nights 35 3) (nights 35 4) := turn_run (by decide +kernel)
  have hopen : (readingOf (nights 35 3)).nanos < 3000000000 := by decide +kernel
  have hover : 3000000000 ≤ (readingOf (nights 35 5)).nanos := by decide +kernel
  have halone : ∀ key : TimeKey, (nights 35 2).world.disk.entries (nightQueue.slot key) ≠ none →
      job.item.entry.fileName = asFilenameStr key := by
    intro key hkey
    have hmem := name_of_entry hkey
    rw [show ((nights 35 2).world.disk "queues/night").keys = ["0-1-1"] by decide +kernel, List.mem_singleton] at hmem
    rw [hmem]
    exact hname
  have hleaves : ∀ result : RunResult, benchmarkRuns (nights 35 3).world (nights 35 4).world = result.toList →
      ¬ job.GoesInto nightQueue result := by
    intro result hresult hgoes
    -- the run has succeeded, so the job goes to the next queue
    have hruns : benchmarkRuns (nights 35 3).world (nights 35 4).world = [.ok ()] := by decide +kernel
    obtain rfl : some (.ok ()) = result := by simpa using congrArg List.head? (hruns.symm.trans hresult)
    have hpasses : job.queue.current.runQueue.scheduleCondition.passesOn = true := by
      rw [hqueue]
      rfl
    obtain ⟨-, hgoes⟩ := show job.GoesInto nightQueue (some (.ok ())) from hgoes
    rw [if_pos hpasses] at hgoes
    exact absurd (hnext.symm.trans hgoes) (by decide +kernel)
  have hnothing := nothingToMove_night hbefore hjob hqueue hwindow hto hrun hlater hopen hover halone hleaves
  have hsteady : ClockSteady (nights 35 0).world := nightWorld_steady 35
  obtain ⟨hiff, hsent⟩ := (windows_closed_iff hsteady).1 (nightEnd hbefore hjob hqueue hwindow hto hrun hlater hopen hover)
  exact ⟨_, rfl, rfl, hiff.2 hnothing, (hsent hnothing).1 hqueue⟩

end Evobench.Run

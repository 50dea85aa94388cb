import Evobench.Run.RunQueues

/-!
# The life of a job

A job that has been queued is run again and again: each call of `run_job` takes its entry, runs the
benchmark, puts the job where it goes next, and deletes the old entry. Here this is followed over whole
lives, for any accepted configuration, any contents of the queues, and any behaviour of the outside.

* `JobCall`: a call of `run_job` on a queued job; `JobCall.Accounted` says what it has done after `Ok`.
* `Life`: the results of the benchmark runs in a sequence of calls on the same job, where each call finds
  the entry that the one before has made. Between the calls anything may happen to other entries.

`job_conserved` is the main result: no call loses or duplicates a job or touches another one, the counts
are kept, and so a job is run no more often than its counts allow.

A call that returns an error ends the daemon's loop. It leaves the old entry in place, and possibly the
new one beside it; lives are made of calls that return `Ok`.
-/

namespace Evobench.Run

open Library SerdeTypes KeyValFs IoUtils RunQueueWithNext

/-- A call of `run_job` on a queued job. -/
structure JobCall where
  /-- The queue that the job is in, and its successor. -/
  queue : RunQueueWithNext
  /-- The key of the job's entry. -/
  key : TimeKey
  /-- The job. -/
  job : BenchmarkingJob
  /-- The working directory to run it in. -/
  wd : WorkingDirectoryId

namespace JobCall

variable (qs : RunQueues) (c : JobCall)

/-- Where the job's entry is. -/
def slot : String × String := c.queue.current.slot c.key

/-- The item that `get_item` gives for the job. -/
def item : QueueItem FileContent BenchmarkingJob :=
  ⟨⟨c.queue.current.queue.keyVal.baseDir, AsKey.asFilenameStr c.key, some (.job c.job)⟩, .noLock⟩

/-- The call. -/
def program : Evo JobStatus := c.queue.runJob c.item c.job qs.erroneousJobsQueue qs.doneJobsQueue c.wd

/-- The job is in the queue. -/
def Queued (w : EvoWorld) : Prop :=
  c.queue ∈ qs.runQueueWithNexts ∧ w.disk.entries c.slot = some (some (.job c.job))

/-- The queue that a status says the job has been put into. -/
def Destination (status : JobStatus) (q : RunQueue) : Prop :=
  status = .active ∧ (q = c.queue.current ∨ c.queue.next = some q) ∨
    status = .done true ∧ qs.doneJobsQueue = some q ∨ status = .error true ∧ qs.erroneousJobsQueue = some q

/-- The statuses that say that the job is in no queue any more. -/
def LeftPipeline (status : JobStatus) : Prop := status = .dropped ∨ status = .done false ∨ status = .error false

/-- What a call has done that returned `Ok`: the benchmark has been run at most once, with the given result, the
job's old entry is gone, and its new entry, if it has one, is at the given place; nothing else has changed. -/
def Accounted (w w' : EvoWorld) (status : JobStatus) (result : RunResult) (place : Option (RunQueue × TimeKey)) : Prop :=
  w'.calls = c.queue.recorded c.job c.wd result ++ w.calls ∧ match place with
    | some (q, key) => q ∈ qs.allQueues ∧ c.Destination qs status q ∧ w.disk.entries (q.slot key) = none ∧
        w'.disk.entries = eraseEntry (putEntry w.disk.entries (q.slot key) (.job (afterRun c.job c.wd result))) c.slot
    | none => LeftPipeline status ∧ w'.disk.entries = eraseEntry w.disk.entries c.slot

/-- The only file that is new in `w'` is the one under that key of that queue. -/
def OnlyNew (w w' : EvoWorld) (q : RunQueue) (key : TimeKey) : Prop :=
  ∀ q' ∈ qs.allQueues, ∀ key', w.disk.entries (q'.slot key') = none → w'.disk.entries (q'.slot key') ≠ none →
    q' = q ∧ key' = key

/-- The job is in a queue: in its old entry, or in a new one, as it goes on after the run. -/
def InQueue (w v : EvoWorld) : Prop :=
  v.disk.entries c.slot = some (some (.job c.job)) ∨
    ∃ q ∈ qs.allQueues, ∃ key result, w.disk.entries (q.slot key) = none ∧
      v.disk.entries (q.slot key) = some (some (.job (afterRun c.job c.wd result)))

/-- The run recorded in `v` is one after which the job goes to no queue. -/
def GoesNowhere (w v : EvoWorld) : Prop :=
  ∃ result status, v.calls = c.queue.recorded c.job c.wd result ++ w.calls ∧
    c.queue.placement qs.erroneousJobsQueue qs.doneJobsQueue c.job result = some (status, none) ∧ LeftPipeline status

/-- The call as `safe_runJob` looks at it. -/
def situation (w : EvoWorld) : Situation :=
  ⟨c.queue, qs.erroneousJobsQueue, qs.doneJobsQueue, c.job, c.wd, c.slot, w.disk.entries⟩

end JobCall

/-! ### Single calls -/

section Calls

variable {qs : RunQueues} {c : JobCall} {w w' v : EvoWorld} {status : JobStatus} {result : RunResult} {pid : Pid}

theorem holds_program (c : JobCall) (qs : RunQueues) (w : EvoWorld) (pid : Pid) :
    Safe pid ((c.situation qs w).Passes w) ((c.situation qs w).Ends w) (c.program qs) w :=
  safe_runJob (s := c.situation qs w) rfl rfl

theorem eq_of_retain_some {status : Bool → JobStatus} {queue : Option RunQueue} {st : JobStatus} {q : RunQueue}
    (h : some (retain status queue) = some (st, some q)) : st = status true ∧ queue = some q := by
  simp only [retain, Option.some.injEq, Prod.mk.injEq] at h
  obtain ⟨rfl, hq⟩ := h
  exact ⟨by rw [hq]; rfl, hq⟩

theorem eq_of_retain_none {status : Bool → JobStatus} {queue : Option RunQueue} {st : JobStatus}
    (h : some (retain status queue) = some (st, none)) : st = status false := by
  simp only [retain, Option.some.injEq, Prod.mk.injEq] at h
  obtain ⟨rfl, hq⟩ := h
  rw [hq]
  rfl

/-- A job that still has to be run goes to the current queue or to the next one. -/
theorem maybeQueue_eq {self : RunQueueWithNext} {q : RunQueue} (h : self.maybeQueue = some (some q)) :
    q = self.current ∨ self.next = some q := by
  unfold maybeQueue at h
  split at h
  · exact .inr (Option.some.inj h)
  · split_ifs at h
    · exact .inl (Option.some.inj (Option.some.inj h)).symm
    · exact .inr (Option.some.inj h)
  · cases h

/-- The queue of a placement fits the status. -/
theorem destination_of_placement {q : RunQueue}
    (h : c.queue.placement qs.erroneousJobsQueue qs.doneJobsQueue c.job result = some (status, some q)) :
    c.Destination qs status q := by
  rcases result with _ | e | ⟨⟩
  · simp only [placement] at h
    split_ifs at h
    · exact .inr (.inl (eq_of_retain_some h))
    · exact .inr (.inr (eq_of_retain_some h))
  · simp only [placement] at h
    split_ifs at h
    · simp only [Option.some.injEq, Prod.mk.injEq] at h
      exact .inl ⟨h.1.symm, .inl h.2.symm⟩
    · exact .inr (.inr (eq_of_retain_some h))
  · simp only [placement] at h
    split_ifs at h
    · obtain ⟨queue, hqueue, h⟩ := Option.map_eq_some_iff.1 h
      obtain ⟨rfl, rfl⟩ := Prod.mk.inj h
      exact .inl ⟨rfl, maybeQueue_eq hqueue⟩
    · exact .inr (.inl (eq_of_retain_some h))

/-- A placement in no queue is seen from the status. -/
theorem leftPipeline_of_placement
    (h : c.queue.placement qs.erroneousJobsQueue qs.doneJobsQueue c.job result = some (status, none)) :
    JobCall.LeftPipeline status := by
  rcases result with _ | e | ⟨⟩
  · simp only [placement] at h
    split_ifs at h
    · exact .inr (.inl (eq_of_retain_none h))
    · exact .inr (.inr (eq_of_retain_none h))
  · simp only [placement] at h
    split_ifs at h
    · cases h
    · exact .inr (.inr (eq_of_retain_none h))
  · simp only [placement] at h
    split_ifs at h
    · obtain ⟨queue, hqueue, h⟩ := Option.map_eq_some_iff.1 h
      obtain ⟨rfl, rfl⟩ := Prod.mk.inj h
      exact .inl rfl
    · exact .inr (.inl (eq_of_retain_none h))

/-- All destinations are queues of the configuration. -/
theorem mem_allQueues_of_destination {q : RunQueue} (hc : c.queue ∈ qs.runQueueWithNexts)
    (h : c.Destination qs status q) : q ∈ qs.allQueues := by
  simp only [RunQueues.allQueues, List.mem_append, Option.mem_toList]
  rcases h with ⟨-, rfl | hnext⟩ | ⟨-, hdone⟩ | ⟨-, herror⟩
  · exact .inl (.inl (qs.current_mem hc))
  · exact .inl (.inl (qs.next_mem hc hnext))
  · exact .inr hdone
  · exact .inl (.inr herror)

/-- The old entry is not the new one. -/
theorem slot_ne {q : RunQueue} {key : TimeKey} (hq : c.Queued qs w) (hnew : w.disk.entries (q.slot key) = none) :
    q.slot key ≠ c.slot := by
  intro he
  rw [he, hq.2] at hnew
  cases hnew

/-- The end of a call that returns `Ok`. -/
theorem accounted_of_final {e : Entries FileContent} (hq : c.Queued qs w)
    (hr : w.Reaches (c.queue.recorded c.job c.wd result) e w') (hf : (c.situation qs w).Final result status e) :
    ∃ place, c.Accounted qs w w' status result place := by
  obtain ⟨e', hplaced, rfl⟩ := hf
  cases hplaced with
  | @moved q key hplacement hnew =>
    have hdest := destination_of_placement (c := c) hplacement
    exact ⟨some (q, key), hr.calls, mem_allQueues_of_destination hq.1 hdest, hdest, hnew, hr.entries⟩
  | gone hplacement => exact ⟨none, hr.calls, leftPipeline_of_placement (c := c) hplacement, hr.entries⟩

/-- A new entry is new in one queue only. -/
theorem onlyNew_of_accounted {q : RunQueue} {key : TimeKey} (h : c.Accounted qs w w' status result (some (q, key))) :
    JobCall.OnlyNew qs w w' q key := by
  obtain ⟨-, hq, -, -, hentries⟩ := h
  intro q' hq' key' hnone hsome
  by_contra hne
  have hslot : q'.slot key' ≠ q.slot key := fun he => hne (qs.slot_inj hq' hq he)
  apply hsome
  rw [hentries, eraseEntry, Function.update_apply, putEntry, Function.update_of_ne hslot, hnone, ite_self]

/-- Before the old entry is deleted it is there. -/
theorem inQueue_of_stage {e : Entries FileContent} (hq : c.Queued qs w)
    (hr : w.Reaches (c.queue.recorded c.job c.wd result) e v) (hs : (c.situation qs w).Stage result e) :
    v.disk.entries c.slot = some (some (.job c.job)) := by
  rw [hr.entries]
  rcases hs with rfl | ⟨status, hplaced⟩
  · exact hq.2
  · cases hplaced with
    | moved hplacement hnew =>
      exact (Function.update_of_ne (slot_ne hq hnew).symm _ _).trans hq.2
    | gone hplacement => exact hq.2

/-- In every state passed through the job is in a queue, unless it goes nowhere. -/
theorem inQueue_of_passes (hq : c.Queued qs w) (hv : (c.situation qs w).Passes w v) :
    c.InQueue qs w v ∨ c.GoesNowhere qs w v := by
  obtain ⟨result, e, hr, hs | ⟨status, e', hplaced, rfl⟩⟩ := hv
  · exact .inl (.inl (inQueue_of_stage hq hr hs))
  · cases hplaced with
    | @moved q key hplacement hnew =>
      refine .inl (.inr ⟨q, mem_allQueues_of_destination hq.1 (destination_of_placement (c := c) hplacement), key,
        result, hnew, ?_⟩)
      rw [hr.entries]
      exact (Function.update_of_ne (slot_ne hq hnew) _ _).trans (Function.update_self _ _ _)
    | gone hplacement =>
      exact .inr ⟨result, status, hr.calls, hplacement, leftPipeline_of_placement (c := c) hplacement⟩

/-- A call leaves all other entries alone. -/
theorem frame_of_passes (hv : (c.situation qs w).Passes w v) {p : String × String} (hp : p ≠ c.slot)
    (hsome : w.disk.entries p ≠ none) : v.disk.entries p = w.disk.entries p := by
  have hplaced : ∀ {result status e}, (c.situation qs w).Placed result status e → e p = w.disk.entries p := by
    intro result status e h
    cases h with
    | moved hplacement hnew =>
      refine Function.update_of_ne ?_ _ _
      intro he
      exact hsome (by rw [he]; exact hnew)
    | gone hplacement => rfl
  obtain ⟨result, e, hr, (rfl | ⟨status, h⟩) | ⟨status, e', h, rfl⟩⟩ := hv
  · rw [hr.entries]
    rfl
  · rw [hr.entries, hplaced h]
  · rw [hr.entries]
    exact (Function.update_of_ne hp _ _).trans (hplaced h)

end Calls

/-! ### Lives -/

/-- The results of the benchmark runs between two states, the latest one first. -/
def benchmarkRuns (w w' : EvoWorld) : List (Except CallError Unit) :=
  (w'.calls.take (w'.calls.length - w.calls.length)).filterMap fun
    | ⟨.runJob _ _ _ _, r⟩ => some r
    | _ => none

/-- The results of the benchmark runs in successive calls on the same job, each of which returns `Ok`, the first one
on the entry at a given place. -/
inductive Life (qs : RunQueues) : String × String → BenchmarkingJob → List (Except CallError Unit) → Prop where
  /-- The last call that is looked at. -/
  | last {c : JobCall} {pid : Pid} {w w' : EvoWorld} {status : JobStatus} (hq : c.Queued qs w)
      (hrun : (c.program qs).run (machine pid) w = some (.ok status, w')) : Life qs c.slot c.job (benchmarkRuns w w')
  /-- A call that has made a new entry, from which the life goes on. -/
  | again {c : JobCall} {pid : Pid} {w w' : EvoWorld} {status : JobStatus} {q : RunQueue} {key : TimeKey}
      {job : BenchmarkingJob} {results : List (Except CallError Unit)} (hq : c.Queued qs w)
      (hrun : (c.program qs).run (machine pid) w = some (.ok status, w'))
      (hnew : w.disk.entries (q.slot key) = none) (hjob : w'.disk.entries (q.slot key) = some (some (.job job)))
      (hlife : Life qs (q.slot key) job results) : Life qs c.slot c.job (benchmarkRuns w w' ++ results)

theorem benchmarkRuns_eq {c : JobCall} {w w' : EvoWorld} {result : RunResult}
    (h : w'.calls = c.queue.recorded c.job c.wd result ++ w.calls) : benchmarkRuns w w' = result.toList := by
  rcases result with _ | r
  · simp [benchmarkRuns, h, recorded]
  · simp [benchmarkRuns, h, recorded]

/-- The number of successes among results of runs. -/
def successes (results : List (Except CallError Unit)) : ℕ := results.countP fun r => r.isOk

/-- The number of failures among results of runs. -/
def failures (results : List (Except CallError Unit)) : ℕ := results.countP fun r => !r.isOk

theorem successes_append (rs rs' : List (Except CallError Unit)) :
    successes (rs ++ rs') = successes rs + successes rs' := List.countP_append

theorem failures_append (rs rs' : List (Except CallError Unit)) :
    failures (rs ++ rs') = failures rs + failures rs' := List.countP_append

theorem toNat_sub_one {a : UInt8} (h : a > 0) : (a - 1).toNat = a.toNat - 1 := by
  have h1 : (1 : UInt8) ≤ a := by
    rw [UInt8.le_iff_toNat_le]
    exact UInt8.lt_iff_toNat_lt.1 h
  rw [UInt8.toNat_sub_of_le a 1 h1]
  rfl

/-- **What a run uses up.** -/
theorem counts_afterRun {job : BenchmarkingJob} {result : RunResult} (wd : WorkingDirectoryId) (h : Ran job result) :
    successes result.toList + (afterRun job wd result).state.remainingCount.toNat = job.state.remainingCount.toNat ∧
      failures result.toList + (afterRun job wd result).state.remainingErrorBudget.toNat =
        job.state.remainingErrorBudget.toNat := by
  rcases result with _ | e | ⟨⟩
  · simp [successes, failures, afterRun, BenchmarkingJob.cloneForQueueReinsertion]
  · obtain ⟨hbudget, -⟩ := h.1 rfl
    have hpos := UInt8.lt_iff_toNat_lt.1 hbudget
    simp only [successes, failures, afterRun, BenchmarkingJob.cloneForQueueReinsertion, Option.toList_some,
      List.countP_singleton, Except.isOk, Except.toBool, toNat_sub_one hbudget]
    simp at hpos ⊢
    omega
  · obtain ⟨-, hcount⟩ := h.1 rfl
    have hpos := UInt8.lt_iff_toNat_lt.1 hcount
    simp only [successes, failures, afterRun, BenchmarkingJob.cloneForQueueReinsertion, Option.toList_some,
      List.countP_singleton, Except.isOk, Except.toBool, toNat_sub_one hcount]
    simp at hpos ⊢
    omega

/-- The new entry of a call holds the job as it is after the run. -/
theorem eq_afterRun {qs : RunQueues} {c : JobCall} {w w' : EvoWorld} {status : JobStatus} {result : RunResult}
    {place : Option (RunQueue × TimeKey)} {q : RunQueue} {key : TimeKey} {job : BenchmarkingJob} (hq : c.Queued qs w)
    (h : c.Accounted qs w w' status result place) (hnew : w.disk.entries (q.slot key) = none)
    (hjob : w'.disk.entries (q.slot key) = some (some (.job job))) : job = afterRun c.job c.wd result := by
  obtain ⟨-, hplace⟩ := h
  rcases place with _ | ⟨q', key'⟩
  · rw [hplace.2, eraseEntry, Function.update_of_ne (slot_ne hq hnew), hnew] at hjob
    cases hjob
  · obtain ⟨-, -, -, hentries⟩ := hplace
    rw [hentries, eraseEntry, Function.update_of_ne (slot_ne hq hnew), putEntry, Function.update_apply] at hjob
    split_ifs at hjob with he
    · cases hjob
      rfl
    · rw [hnew] at hjob
      cases hjob

/-- How a call ends that returns `Ok`. -/
theorem accounted_of_run {qs : RunQueues} {c : JobCall} {w w' : EvoWorld} {status : JobStatus} {pid : Pid}
    (hq : c.Queued qs w) (hrun : (c.program qs).run (machine pid) w = some (.ok status, w')) :
    ∃ result place, Ran c.job result ∧ c.Accounted qs w w' status result place := by
  obtain ⟨result, e, hr, hran, hf⟩ := ((Prog.holds_iff _).1 (holds_program c qs w pid)).2 _ _ hrun
  obtain ⟨place, hplace⟩ := accounted_of_final hq hr hf
  exact ⟨result, place, hran, hplace⟩

/-- The runs of a life stay within the counts of the job. -/
theorem life_bounds {qs : RunQueues} {slot : String × String} {job : BenchmarkingJob}
    {results : List (Except CallError Unit)} (h : Life qs slot job results) :
    successes results ≤ job.state.remainingCount.toNat ∧ failures results ≤ job.state.remainingErrorBudget.toNat := by
  induction h with
  | @last c pid w w' status hq hrun =>
    obtain ⟨result, place, hran, haccounted⟩ := accounted_of_run hq hrun
    have hcounts := counts_afterRun c.wd hran
    rw [benchmarkRuns_eq haccounted.1]
    omega
  | @again c pid w w' status q key job results hq hrun hnew hjob hlife ih =>
    obtain ⟨result, place, hran, haccounted⟩ := accounted_of_run hq hrun
    obtain rfl := eq_afterRun hq haccounted hnew hjob
    have hcounts := counts_afterRun c.wd hran
    rw [benchmarkRuns_eq haccounted.1, successes_append, failures_append]
    omega

/-- **Jobs are conserved and accounted for.** For any accepted configuration, any contents of the queues, any queued
job and any behaviour of the outside:

* in every state that a call passes through, the job is in a queue, unless the call's run is one after which it
  goes nowhere, and all other entries are as before;
* after `Ok` the job has been accounted for, in at most one new entry, and after anything else its old entry is
  still there;
* over its life the job succeeds and fails no more often than its counts allow. -/
theorem job_conserved (qs : RunQueues) :
    (∀ (c : JobCall) (pid : Pid) (w : EvoWorld), c.Queued qs w →
      (∀ v ∈ (c.program qs).visited (machine pid) w, (c.InQueue qs w v ∨ c.GoesNowhere qs w v) ∧
        ∀ p ≠ c.slot, w.disk.entries p ≠ none → v.disk.entries p = w.disk.entries p) ∧
      (∀ status w', (c.program qs).run (machine pid) w = some (.ok status, w') →
        ∃ result place, Ran c.job result ∧ c.Accounted qs w w' status result place ∧
          ∀ q key, place = some (q, key) → JobCall.OnlyNew qs w w' q key) ∧
      ∀ r w', (c.program qs).run (machine pid) w = some (r, w') → r.isOk = false →
        w'.disk.entries c.slot = some (some (.job c.job))) ∧
    ∀ slot job results, Life qs slot job results → successes results ≤ job.state.remainingCount.toNat ∧
      failures results ≤ job.state.remainingErrorBudget.toNat := by
  refine ⟨fun c pid w hq => ⟨fun v hv => ?_, fun status w' hrun => ?_, fun r w' hrun hr => ?_⟩,
    fun _ _ _ hlife => life_bounds hlife⟩
  · have hpasses := ((Prog.holds_iff _).1 (holds_program c qs w pid)).1 v hv
    exact ⟨inQueue_of_passes hq hpasses, fun p hp hsome => frame_of_passes hpasses hp hsome⟩
  · obtain ⟨result, place, hran, haccounted⟩ := accounted_of_run hq hrun
    refine ⟨result, place, hran, haccounted, ?_⟩
    rintro q key rfl
    exact onlyNew_of_accounted haccounted
  · obtain ⟨result, e, hreaches, hend⟩ := ((Prog.holds_iff _).1 (holds_program c qs w pid)).2 r w' hrun
    cases r with
    | ok status => cases hr
    | err e => exact inQueue_of_stage hq hreaches hend
    | panic msg => exact inQueue_of_stage hq hreaches hend

/-- The job of the small configuration, picked from its first queue. -/
def sampleCall : JobCall where
  queue := sampleQueues.runQueueWithNexts.get ⟨0, by decide +kernel⟩
  key := sampleKey
  job := sampleJob
  wd := 7

theorem sampleCall_queued : sampleCall.Queued sampleQueues sampleWorld :=
  ⟨List.get_mem _ _, by decide +kernel⟩

theorem sampleCall_active :
    ((sampleCall.program sampleQueues).run (machine 5) sampleWorld).map Prod.fst = some (.ok .active) := by
  decide +kernel

/-- The call succeeds, and the job is accounted for. -/
theorem job_conserved_sample :
    ∃ w', (sampleCall.program sampleQueues).run (machine 5) sampleWorld = some (.ok .active, w') ∧
      (∃ result place, sampleCall.Accounted sampleQueues sampleWorld w' .active result place) ∧
      successes (benchmarkRuns sampleWorld w') ≤ 2 := by
  obtain ⟨⟨r, w'⟩, hrun, hr⟩ := Option.map_eq_some_iff.1 sampleCall_active
  cases hr
  obtain ⟨hcalls, hlife⟩ := job_conserved sampleQueues
  obtain ⟨-, hok, -⟩ := hcalls sampleCall 5 sampleWorld sampleCall_queued
  obtain ⟨result, place, -, haccounted, -⟩ := hok _ _ hrun
  exact ⟨w', hrun, ⟨result, place, haccounted⟩, (hlife _ _ _ (.last sampleCall_queued hrun)).1⟩

end Evobench.Run

import Evobench.Run.QueueScan

/-!
# The status of a job, and where the job is

After a run, `run_job` returns the status of the job. The status is computed in each branch by itself, while
the queue that the job is put into has its own schedule condition. Its consumer deletes the cached files of
the job when the status says that it will not be run again.

* `JobCall.PutInto`: the job has a new entry in the queue.
* `StatusAgrees`: the documented meaning of every status, in terms of the queues and the counts.
* `JobCall.StaysActive`: the call does not put a job that still has to be run into an `Inactive` queue, and
  the job has not been used up before.

`status_agrees_iff` is the main result: the status agrees exactly in this case. `run_job` never returns
`JobStatus::Inactive`; a job that is put into the `Inactive` queue at the end of the pipeline is said to be
`Active` (`status_disagrees`).
-/

namespace Evobench.Run

open Library SerdeTypes KeyValFs IoUtils RunQueueWithNext

/-! ### The meaning of the statuses -/

namespace JobCall

variable (qs : RunQueues) (c : JobCall)

/-- The job, as it goes on after the run, has a new entry in the queue. -/
def PutInto (w w' : EvoWorld) (q : RunQueue) : Prop :=
  ∃ key result, w.disk.entries (q.slot key) = none ∧
    w'.disk.entries (q.slot key) = some (some (.job (afterRun c.job c.wd result)))

/-- How often the job has still to be run after the run. -/
def countLeft (result : RunResult) : ℕ := c.job.state.remainingCount.toNat - successes result.toList

/-- How often the job may still fail after the run. -/
def budgetLeft (result : RunResult) : ℕ := c.job.state.remainingErrorBudget.toNat - failures result.toList

/-- **The meaning of a status** that a call has returned, with the given result of its benchmark run. -/
structure StatusAgrees (w w' : EvoWorld) (result : RunResult) (status : JobStatus) : Prop where
  /-- The job can be run again if it is in a queue of the pipeline that is run. -/
  canRunAgain : status.canRunAgain = true ↔
    ∃ q ∈ qs.pipeline, q.scheduleCondition ≠ .inactive ∧ c.PutInto w w' q
  /-- It is inactive if it is in an `Inactive` queue of the pipeline. -/
  inactive : status = .inactive ↔ ∃ q ∈ qs.pipeline, q.scheduleCondition = .inactive ∧ c.PutInto w w' q
  /-- It is done if there is nothing left to run. -/
  done : ∀ retained, status = .done retained ↔
    c.countLeft result = 0 ∧ (retained = true ↔ ∃ q ∈ qs.doneJobsQueue, c.PutInto w w' q)
  /-- It is in error if the error budget is used up. -/
  error : ∀ retained, status = .error retained ↔
    c.budgetLeft result = 0 ∧ (retained = true ↔ ∃ q ∈ qs.erroneousJobsQueue, c.PutInto w w' q)

/-- A job that still has to be run is not put into an `Inactive` queue: not after a success into the queue where it goes
next, and not after a failure into its own queue; and a job is not queued with neither count nor budget. -/
structure StaysActive (result : RunResult) : Prop where
  /-- There was something left. -/
  fresh : ¬ (c.job.state.remainingCount = 0 ∧ c.job.state.remainingErrorBudget = 0)
  /-- After a success. -/
  success : result = some (.ok ()) → c.job.state.remainingCount ≠ 1 →
    ∀ q, c.queue.maybeQueue = some (some q) → q.scheduleCondition ≠ .inactive
  /-- After a failure. -/
  failure : ∀ e, result = some (.error e) → c.job.state.remainingErrorBudget ≠ 1 →
    c.queue.current.scheduleCondition ≠ .inactive

end JobCall

/-! ### Where the job is -/

section Rules

variable {qs : RunQueues} {c : JobCall} {w w' : EvoWorld} {status : JobStatus} {result : RunResult}

/-- A job that has been moved is in its new queue, and in no other one. -/
theorem putInto_moved {q q' : RunQueue} {key : TimeKey} (hq : c.Queued qs w) (hmem : q ∈ qs.allQueues)
    (hnew : w.disk.entries (q.slot key) = none)
    (hentries : w'.disk.entries = eraseEntry (putEntry w.disk.entries (q.slot key)
      (.job (afterRun c.job c.wd result))) c.slot) (hmem' : q' ∈ qs.allQueues) :
    c.PutInto w w' q' ↔ some q = some q' := by
  constructor
  · rintro ⟨key', result', hnone, hsome⟩
    rw [hentries, eraseEntry, Function.update_of_ne (slot_ne hq hnone), putEntry, Function.update_apply] at hsome
    split_ifs at hsome with hslot
    · rw [(qs.slot_inj hmem' hmem hslot).1]
    · rw [hnone] at hsome
      cases hsome
  · intro h
    obtain rfl := Option.some.inj h
    refine ⟨key, result, hnew, ?_⟩
    rw [hentries, eraseEntry, Function.update_of_ne (slot_ne hq hnew), putEntry, Function.update_self]

/-- A job that goes nowhere is in no queue. -/
theorem putInto_gone {q' : RunQueue} (hq : c.Queued qs w) (hentries : w'.disk.entries = eraseEntry w.disk.entries c.slot) :
    c.PutInto w w' q' ↔ none = some q' := by
  constructor
  · rintro ⟨key', result', hnone, hsome⟩
    rw [hentries, eraseEntry, Function.update_of_ne (slot_ne hq hnone), hnone] at hsome
    cases hsome
  · intro h
    cases h

/-- How a call ends that returns `Ok`: the placement tells the status, and the queue that the job is put into. -/
theorem placement_of_run {pid : Pid} (hq : c.Queued qs w)
    (hrun : (c.program qs).run (machine pid) w = some (.ok status, w'))
    (hresult : w'.calls = c.queue.recorded c.job c.wd result ++ w.calls) :
    Ran c.job result ∧ ∃ dest,
      c.queue.placement qs.erroneousJobsQueue qs.doneJobsQueue c.job result = some (status, dest) ∧
        ∀ q ∈ qs.allQueues, (c.PutInto w w' q ↔ dest = some q) := by
  obtain ⟨result', e, hreaches, hran, e', hplaced, rfl⟩ := ((Prog.holds_iff _).1 (holds_program c qs w pid)).2 _ _ hrun
  obtain rfl : result' = result := recorded_injective (List.append_cancel_right (hreaches.calls.symm.trans hresult))
  refine ⟨hran, ?_⟩
  cases hplaced with
  | @moved q key hplacement hnew =>
    have hmem := mem_allQueues_of_destination hq.1 (destination_of_placement (c := c) hplacement)
    exact ⟨some q, hplacement, fun q' hq' => putInto_moved hq hmem hnew hreaches.entries hq'⟩
  | gone hplacement => exact ⟨none, hplacement, fun q' hq' => putInto_gone hq hreaches.entries⟩

/-- The extra queues are two. -/
theorem done_ne_erroneous {q : RunQueue} (hdone : qs.doneJobsQueue = some q) : qs.erroneousJobsQueue ≠ some q := by
  intro herroneous
  have hnodup := qs.accepted.nodup_names
  rw [List.map_append, List.map_append, List.nodup_append', hdone, herroneous] at hnodup
  refine hnodup.2.2 (List.mem_append_right _ ?_) (List.mem_singleton_self _)
  exact List.mem_singleton_self _

theorem mem_allQueues_of_extra {q : RunQueue} (h : qs.doneJobsQueue = some q ∨ qs.erroneousJobsQueue = some q) :
    q ∈ qs.allQueues := by
  simp only [RunQueues.allQueues, List.mem_append, Option.mem_toList]
  rcases h with h | h
  · exact .inr h
  · exact .inl (.inr h)

/-! ### The statuses, one by one -/

section Statuses

variable {dest : Option RunQueue} (hput : ∀ q ∈ qs.allQueues, (c.PutInto w w' q ↔ dest = some q))

include hput

theorem putInto_pipeline_iff {P : RunQueue → Prop} :
    (∃ q ∈ qs.pipeline, P q ∧ c.PutInto w w' q) ↔ ∃ q ∈ qs.pipeline, P q ∧ dest = some q := by
  refine exists_congr fun q => and_congr_right fun hq => and_congr_right fun _ => ?_
  exact hput q (mem_allQueues_of_mem_pipeline hq)

theorem putInto_done_iff : (∃ q ∈ qs.doneJobsQueue, c.PutInto w w' q) ↔ ∃ q ∈ qs.doneJobsQueue, dest = some q := by
  refine exists_congr fun q => and_congr_right fun hq => ?_
  exact hput q (mem_allQueues_of_extra (.inl hq))

theorem putInto_erroneous_iff :
    (∃ q ∈ qs.erroneousJobsQueue, c.PutInto w w' q) ↔ ∃ q ∈ qs.erroneousJobsQueue, dest = some q := by
  refine exists_congr fun q => and_congr_right fun hq => ?_
  exact hput q (mem_allQueues_of_extra (.inr hq))

/-- A job in an extra queue, or in none, is not in the pipeline. -/
theorem not_putInto_pipeline (hdest : ∀ q, dest = some q → q ∉ qs.pipeline) (P : RunQueue → Prop) :
    ¬ ∃ q ∈ qs.pipeline, P q ∧ c.PutInto w w' q := by
  rw [putInto_pipeline_iff hput]
  rintro ⟨q, hq, -, he⟩
  exact hdest q he hq

/-- A finished job. -/
theorem agrees_done (hdest : dest = qs.doneJobsQueue) (hcount : c.countLeft result = 0)
    (hbudget : c.budgetLeft result ≠ 0) :
    c.StatusAgrees qs w w' result (.done qs.doneJobsQueue.isSome) := by
  have hnot : ∀ q, dest = some q → q ∉ qs.pipeline := fun q hq => not_mem_pipeline_of_extra (.inl (hdest ▸ hq))
  refine ⟨iff_of_false (by simp [JobStatus.canRunAgain]) (not_putInto_pipeline hput hnot _),
    iff_of_false (by simp) (not_putInto_pipeline hput hnot _), fun retained => ?_,
    fun retained => iff_of_false (by simp) fun h => hbudget h.1⟩
  rw [putInto_done_iff hput, hdest]
  cases qs.doneJobsQueue with
  | none => cases retained <;> simp [hcount]
  | some q => cases retained <;> simp [hcount]

/-- A job whose error budget is used up: if there is nothing left to run either, then it might as well be done. -/
theorem agrees_error (hdest : dest = qs.erroneousJobsQueue) (hbudget : c.budgetLeft result = 0) :
    c.StatusAgrees qs w w' result (.error qs.erroneousJobsQueue.isSome) ↔ c.countLeft result ≠ 0 := by
  have hnot : ∀ q, dest = some q → q ∉ qs.pipeline := fun q hq => not_mem_pipeline_of_extra (.inr (hdest ▸ hq))
  have hdone : ¬ ∃ q ∈ qs.doneJobsQueue, dest = some q := by
    rintro ⟨q, hq, he⟩
    exact done_ne_erroneous hq (hdest ▸ he)
  constructor
  · intro h hcount
    have hfalse := (h.done false).2 ⟨hcount, by rw [putInto_done_iff hput]; exact iff_of_false (by simp) hdone⟩
    cases hfalse
  · intro hcount
    refine ⟨iff_of_false (by simp [JobStatus.canRunAgain]) (not_putInto_pipeline hput hnot _),
      iff_of_false (by simp) (not_putInto_pipeline hput hnot _),
      fun retained => iff_of_false (by simp) fun h => hcount h.1, fun retained => ?_⟩
    rw [putInto_erroneous_iff hput, hdest]
    cases qs.erroneousJobsQueue with
    | none => cases retained <;> simp [hbudget]
    | some q => cases retained <;> simp [hbudget]

/-- A job that has dropped off the pipeline. -/
theorem agrees_dropped (hdest : dest = none) (hcount : c.countLeft result ≠ 0) (hbudget : c.budgetLeft result ≠ 0) :
    c.StatusAgrees qs w w' result .dropped := by
  have hnot : ∀ q, dest = some q → q ∉ qs.pipeline := by
    intro q hq
    rw [hdest] at hq
    cases hq
  exact ⟨iff_of_false (by simp [JobStatus.canRunAgain]) (not_putInto_pipeline hput hnot _),
    iff_of_false (by simp) (not_putInto_pipeline hput hnot _),
    fun _ => iff_of_false (by simp) fun h => hcount h.1, fun _ => iff_of_false (by simp) fun h => hbudget h.1⟩

/-- A job that is said to be active: its queue should not be an `Inactive` one. -/
theorem agrees_active {q : RunQueue} (hdest : dest = some q) (hq : q ∈ qs.pipeline) (hcount : c.countLeft result ≠ 0)
    (hbudget : c.budgetLeft result ≠ 0) :
    c.StatusAgrees qs w w' result .active ↔ q.scheduleCondition ≠ .inactive := by
  have hpipeline : ∀ P : RunQueue → Prop, (∃ q ∈ qs.pipeline, P q ∧ c.PutInto w w' q) ↔ P q := by
    intro P
    rw [putInto_pipeline_iff hput, hdest]
    constructor
    · rintro ⟨q', -, hP, he⟩
      rwa [Option.some.inj he]
    · exact fun hP => ⟨q, hq, hP, rfl⟩
  constructor
  · exact fun h => (hpipeline fun q => q.scheduleCondition ≠ .inactive).1 (h.canRunAgain.1 rfl)
  · intro hactive
    exact ⟨iff_of_true rfl ((hpipeline fun q => q.scheduleCondition ≠ .inactive).2 hactive),
      iff_of_false (by simp) fun h => hactive ((hpipeline fun q => q.scheduleCondition = .inactive).1 h),
      fun _ => iff_of_false (by simp) fun h => hcount h.1, fun _ => iff_of_false (by simp) fun h => hbudget h.1⟩

end Statuses

end Rules

/-! ### The main result -/

section Agreement

variable {qs : RunQueues} {c : JobCall} {w w' : EvoWorld} {status : JobStatus} {result : RunResult}

theorem ne_zero_of_pos {a : UInt8} (h : a > 0) : a ≠ 0 := by
  intro he
  rw [he] at h
  exact absurd h (by decide)

theorem toNat_ne_zero {a : UInt8} (h : a > 0) : a.toNat ≠ 0 := (UInt8.lt_iff_toNat_lt.1 h).ne'

/-- One more than one is left, or exactly one. -/
theorem sub_one_pos_iff {a : UInt8} (h : a > 0) : a - 1 > 0 ↔ a ≠ 1 := by
  have hone := toNat_sub_one h
  have hpos := UInt8.lt_iff_toNat_lt.1 h
  rw [gt_iff_lt, UInt8.lt_iff_toNat_lt, hone, ne_eq, ← UInt8.toNat_inj]
  simp at hpos ⊢
  omega

theorem agrees_of_placement {dest : Option RunQueue} (hc : c.queue ∈ qs.runQueueWithNexts) (hran : Ran c.job result)
    (hplacement : c.queue.placement qs.erroneousJobsQueue qs.doneJobsQueue c.job result = some (status, dest))
    (hput : ∀ q ∈ qs.allQueues, (c.PutInto w w' q ↔ dest = some q)) :
    c.StatusAgrees qs w w' result status ↔ c.StaysActive result := by
  rcases result with _ | e | ⟨⟩
  · -- The benchmark was not run.
    simp only [placement] at hplacement
    split_ifs at hplacement with hbudget
    · obtain ⟨rfl, rfl⟩ := Prod.mk.inj (Option.some.inj hplacement)
      have hcount : c.job.state.remainingCount = 0 := by
        refine uint8_eq_zero fun hcount => ?_
        have hsome := hran.2 ⟨hbudget, hcount⟩
        cases hsome
      refine iff_of_true (agrees_done hput rfl ?_ ?_) ⟨fun h => ne_zero_of_pos hbudget h.2, ?_, ?_⟩
      · simp [JobCall.countLeft, hcount]
      · simpa [JobCall.budgetLeft, failures] using toNat_ne_zero hbudget
      · exact fun h => by cases h
      · exact fun e h => by cases h
    · obtain ⟨rfl, rfl⟩ := Prod.mk.inj (Option.some.inj hplacement)
      have hzero := uint8_eq_zero hbudget
      rw [agrees_error hput rfl (by simp [JobCall.budgetLeft, hzero])]
      constructor
      · intro hcount
        refine ⟨fun h => hcount ?_, (fun h => by cases h), fun e h => by cases h⟩
        simp [JobCall.countLeft, h.1]
      · intro h hcount
        refine h.fresh ⟨UInt8.toNat_inj.1 ?_, hzero⟩
        simpa [JobCall.countLeft, successes] using hcount
  · -- It has failed.
    obtain ⟨hbudget, hcount⟩ := hran.1 rfl
    have hleft : c.countLeft (some (.error e)) ≠ 0 := by
      simpa [JobCall.countLeft, successes, Except.isOk, Except.toBool] using toNat_ne_zero hcount
    have hbudgetLeft : c.budgetLeft (some (.error e)) = c.job.state.remainingErrorBudget.toNat - 1 := by
      simp [JobCall.budgetLeft, failures, Except.isOk, Except.toBool]
    have hfresh : ¬ (c.job.state.remainingCount = 0 ∧ c.job.state.remainingErrorBudget = 0) :=
      fun h => ne_zero_of_pos hcount h.1
    simp only [placement] at hplacement
    split_ifs at hplacement with hagain
    · obtain ⟨rfl, rfl⟩ := Prod.mk.inj (Option.some.inj hplacement)
      have hne := (sub_one_pos_iff hbudget).1 hagain
      have hagain' : c.budgetLeft (some (.error e)) ≠ 0 := by
        rw [hbudgetLeft, ← toNat_sub_one hbudget]
        exact toNat_ne_zero hagain
      rw [agrees_active hput rfl (qs.current_mem hc) hleft hagain']
      constructor
      · exact fun hactive => ⟨hfresh, (fun h => by cases h), fun _ _ _ => hactive⟩
      · exact fun h => h.failure e rfl hne
    · obtain ⟨rfl, rfl⟩ := Prod.mk.inj (Option.some.inj hplacement)
      have hone : c.job.state.remainingErrorBudget = 1 := by
        by_contra hne
        exact hagain ((sub_one_pos_iff hbudget).2 hne)
      refine iff_of_true ?_ ⟨hfresh, (fun h => by cases h), fun _ _ hne => absurd hone hne⟩
      rw [agrees_error hput rfl (by rw [hbudgetLeft, hone]; rfl)]
      exact hleft
  · -- It has succeeded.
    obtain ⟨hbudget, hcount⟩ := hran.1 rfl
    have hleft : c.budgetLeft (some (.ok ())) ≠ 0 := by
      simpa [JobCall.budgetLeft, failures, Except.isOk, Except.toBool] using toNat_ne_zero hbudget
    have hcountLeft : c.countLeft (some (.ok ())) = c.job.state.remainingCount.toNat - 1 := by
      simp [JobCall.countLeft, successes, Except.isOk, Except.toBool]
    have hfresh : ¬ (c.job.state.remainingCount = 0 ∧ c.job.state.remainingErrorBudget = 0) :=
      fun h => ne_zero_of_pos hcount h.1
    simp only [placement] at hplacement
    split_ifs at hplacement with hagain
    · obtain ⟨queue, hqueue, h⟩ := Option.map_eq_some_iff.1 hplacement
      obtain ⟨rfl, rfl⟩ := Prod.mk.inj h
      have hne := (sub_one_pos_iff hcount).1 hagain
      have hagain' : c.countLeft (some (.ok ())) ≠ 0 := by
        rw [hcountLeft, ← toNat_sub_one hcount]
        exact toNat_ne_zero hagain
      cases queue with
      | none =>
        refine iff_of_true (agrees_dropped hput rfl hagain' hleft) ⟨hfresh, fun _ _ q hq => ?_, fun e h => by cases h⟩
        rw [hqueue] at hq
        cases hq
      | some q =>
        have hmem : q ∈ qs.pipeline := by
          rcases maybeQueue_eq hqueue with rfl | hnext
          · exact qs.current_mem hc
          · exact qs.next_mem hc hnext
        rw [show (if (some q).isSome = true then JobStatus.active else JobStatus.dropped) = .active from rfl,
          agrees_active hput rfl hmem hagain' hleft]
        constructor
        · intro hactive
          refine ⟨hfresh, fun _ _ q' hq' => ?_, fun e h => by cases h⟩
          rw [hqueue] at hq'
          rwa [← Option.some.inj (Option.some.inj hq')]
        · exact fun h => h.success rfl hne q hqueue
    · obtain ⟨rfl, rfl⟩ := Prod.mk.inj (Option.some.inj hplacement)
      have hone : c.job.state.remainingCount = 1 := by
        by_contra hne
        exact hagain ((sub_one_pos_iff hcount).2 hne)
      exact iff_of_true (agrees_done hput rfl (by rw [hcountLeft, hone]; rfl) hleft)
        ⟨hfresh, fun _ hne => absurd hone hne, fun e h => by cases h⟩

/-- **The status agrees with where the job is** exactly if the job is not put into an `Inactive` queue while it still
has to be run, and it was not queued with neither count nor error budget. -/
theorem status_agrees_iff {pid : Pid} (hq : c.Queued qs w)
    (hrun : (c.program qs).run (machine pid) w = some (.ok status, w'))
    (hresult : w'.calls = c.queue.recorded c.job c.wd result ++ w.calls) :
    c.StatusAgrees qs w w' result status ↔ c.StaysActive result := by
  obtain ⟨hran, dest, hplacement, hput⟩ := placement_of_run hq hrun hresult
  exact agrees_of_placement hq.1 hran hplacement hput

end Agreement

/-- The job of the small configuration when its last run has been left. -/
def lastCall : JobCall := { sampleCall with job := { sampleJob with state := ⟨1, 1, none⟩ } }

/-- The state with that job. -/
def lastWorld : EvoWorld :=
  { sampleWorld with
    disk := Function.update (fun _ => ∅) "queues/now"
      (AList.singleton (asFilenameStr sampleKey) (some (.job lastCall.job))) }

/-- The last run of a job: its status agrees. -/
theorem status_agrees_iff_sample :
    lastCall.StatusAgrees sampleQueues lastWorld (sampleAfter (lastCall.program sampleQueues) lastWorld) (some (.ok ()))
      (.done false) ↔ lastCall.StaysActive (some (.ok ())) := by
  have hok : ((lastCall.program sampleQueues).run (machine 5) lastWorld).map Prod.fst = some (.ok (.done false)) := by
    decide +kernel
  exact status_agrees_iff ⟨List.get_mem _ _, by decide +kernel⟩ (run_eq_sampleAfter hok) (by decide +kernel)

/-- After the first of two runs the job is in the `Inactive` queue, but it is said to be active. -/
theorem status_disagrees :
    ¬ ∀ (qs : RunQueues) (c : JobCall) (w w' : EvoWorld) (status : JobStatus) (result : RunResult) (pid : Pid),
      c.Queued qs w → (c.program qs).run (machine pid) w = some (.ok status, w') →
      w'.calls = c.queue.recorded c.job c.wd result ++ w.calls → c.StatusAgrees qs w w' result status := by
  intro hall
  have hagrees := hall sampleQueues sampleCall sampleWorld _ .active (some (.ok ())) 5 sampleCall_queued
    (run_eq_sampleAfter sampleCall_active) (by decide +kernel)
  have hfirst : sampleCall.PutInto sampleWorld (sampleAfter (sampleCall.program sampleQueues) sampleWorld)
      (makeRunQueue "queues" (parkedName, .inactive)) :=
    ⟨⟨0, 5, 0⟩, some (.ok ()), by decide +kernel, by decide +kernel⟩
  have hinactive := hagrees.inactive.2 ⟨_, by decide +kernel, rfl, hfirst⟩
  cases hinactive

end Evobench.Run

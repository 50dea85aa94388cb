import Evobench.Run.JobLife
import Mathlib.Logic.Relation

/-!
# Scanning the queues while jobs move through them

The daemon, and every listing of the jobs, loads the data of all queues of the pipeline
(`RunQueues.data`). For a queue without a priority, an `Inactive` one, this panics at the first job, on
the assumption that no such queue is in a pipeline. Here the assumption is followed over runs: jobs are
inserted, run, and moved on when a time window ends.

* `Action`, `Step`: what happens between two scans. The result of a benchmark run is part of the action.
* `Action.Spares`: the action does not put a job into an `Inactive` queue of the pipeline.
* `scan_never_panics`: in a run of such actions no scan panics.

The check of the configuration allows an `Inactive` queue at the end of the pipeline, and suggests it, so
not all actions are such (`scan_panics_sample`).
-/

namespace Evobench.Run

open Library SerdeTypes KeyValFs IoUtils RunQueueWithNext

/-! ### Actions -/

/-- Whether a queue passes a job that has to be run again on to the next queue. -/
def ScheduleCondition.passesOn : ScheduleCondition → Bool
  | .immediately _ => true
  | .localNaiveTimeWindow _ _ _ repeatedly _ _ _ => !repeatedly
  | .inactive => false

/-- What can happen to the queues. -/
inductive Action where
  /-- A job is inserted. -/
  | insert (job : BenchmarkingJob)
  /-- A queued job is run, with the given result of the benchmark run, if there is one. -/
  | runJob (c : JobCall) (result : RunResult)
  /-- The time window of a queue has ended. -/
  | handleTimeout (q : RunQueueWithNext)

/-- The actions, by any process; they may also end in an error. -/
inductive Step (qs : RunQueues) : Action → EvoWorld → EvoWorld → Prop where
  /-- `insert_jobs` pushes a job to the first queue. -/
  | insert {pid : Pid} {w w' : EvoWorld} {q : RunQueue} {job : BenchmarkingJob} {r : Outcome Error Unit}
      (hfirst : qs.first = some q) (hrun : (q.pushFront job).run (machine pid) w = some (r, w')) :
      Step qs (.insert job) w w'
  /-- `run_job` -/
  | runJob {pid : Pid} {w w' : EvoWorld} {c : JobCall} {result : RunResult} {r : Outcome Error JobStatus}
      (hq : c.Queued qs w) (hrun : (c.program qs).run (machine pid) w = some (r, w'))
      (hresult : w'.calls = c.queue.recorded c.job c.wd result ++ w.calls) : Step qs (.runJob c result) w w'
  /-- `handle_timeout` -/
  | handleTimeout {pid : Pid} {w w' : EvoWorld} {q : RunQueueWithNext} {r : Outcome Error Unit}
      (hq : q ∈ qs.runQueueWithNexts) (hrun : q.handleTimeout.run (machine pid) w = some (r, w')) :
      Step qs (.handleTimeout q) w w'

/-- The action keeps jobs out of the `Inactive` queue of the pipeline. -/
def Action.Spares (qs : RunQueues) (w : EvoWorld) : Action → Prop
  | .insert _ => ∀ q, qs.first = some q → q.scheduleCondition ≠ .inactive
  | .runJob c result => ∀ n, c.queue.next = some n → n.scheduleCondition = .inactive →
      c.queue.current.scheduleCondition.passesOn = true → result = some (.ok ()) → c.job.state.remainingCount = 1
  | .handleTimeout q => ∀ n, q.next = some n → n.scheduleCondition = .inactive →
      q.current.scheduleCondition.moveWhenTimeWindowEnds = true → q.current.Empty w.disk.entries

/-- No job is in an `Inactive` queue of the pipeline. -/
def InactiveEmpty (qs : RunQueues) (e : Entries FileContent) : Prop :=
  ∀ q ∈ qs.pipeline, q.scheduleCondition = .inactive → q.Empty e

/-! ### What keeps the queue empty -/

section Rules

variable {qs : RunQueues} {e : Entries FileContent}

theorem mem_allQueues_of_mem_pipeline {q : RunQueue} (h : q ∈ qs.pipeline) : q ∈ qs.allQueues := by
  rw [RunQueues.allQueues, List.append_assoc]
  exact List.mem_append_left _ h

/-- An entry in another queue does no harm. -/
theorem inactiveEmpty_putEntry {q : RunQueue} {key : TimeKey} {content : FileContent} (h : InactiveEmpty qs e)
    (hq : q ∈ qs.allQueues) (hne : q ∈ qs.pipeline → q.scheduleCondition ≠ .inactive) :
    InactiveEmpty qs (putEntry e (q.slot key) content) := by
  intro q' hq' hinactive key'
  have hslot : q'.slot key' ≠ q.slot key := by
    intro he
    obtain ⟨rfl, -⟩ := qs.slot_inj (mem_allQueues_of_mem_pipeline hq') hq he
    exact hne hq' hinactive
  rw [putEntry, Function.update_of_ne hslot]
  exact h q' hq' hinactive key'

theorem inactiveEmpty_eraseEntry {p : String × String} (h : InactiveEmpty qs e) : InactiveEmpty qs (eraseEntry e p) := by
  intro q hq hinactive key
  rw [eraseEntry, Function.update_apply]
  split_ifs
  · rfl
  · exact h q hq hinactive key

/-- The extra queues are not in the pipeline. -/
theorem not_mem_pipeline_of_extra {q : RunQueue} (h : qs.doneJobsQueue = some q ∨ qs.erroneousJobsQueue = some q) :
    q ∉ qs.pipeline := by
  intro hq
  have hnodup := qs.accepted.nodup_names
  rw [List.map_append, List.map_append, List.nodup_append', List.nodup_append'] at hnodup
  obtain ⟨⟨-, -, h₁⟩, -, h₂⟩ := hnodup
  have hname := List.mem_map_of_mem (f := RunQueue.fileName) hq
  rcases h with hdone | herror
  · exact h₂ (List.mem_append_left _ hname) (by rw [hdone]; exact List.mem_singleton_self _)
  · exact h₁ hname (by rw [herror]; exact List.mem_singleton_self _)

/-- A job goes to the next queue only after a success, while it still has to be run. -/
theorem next_of_placement {c : JobCall} {result : RunResult} {status : JobStatus} {q : RunQueue}
    (h : c.queue.placement qs.erroneousJobsQueue qs.doneJobsQueue c.job result = some (status, some q)) :
    q = c.queue.current ∨ (qs.doneJobsQueue = some q ∨ qs.erroneousJobsQueue = some q) ∨
      c.queue.next = some q ∧ c.queue.current.scheduleCondition.passesOn = true ∧ result = some (.ok ()) ∧
        c.job.state.remainingCount ≠ 1 := by
  rcases result with _ | e | ⟨⟩
  · simp only [placement] at h
    split_ifs at h
    · exact .inr (.inl (.inl (eq_of_retain_some h).2))
    · exact .inr (.inl (.inr (eq_of_retain_some h).2))
  · simp only [placement] at h
    split_ifs at h
    · simp only [Option.some.injEq, Prod.mk.injEq] at h
      exact .inl h.2.symm
    · exact .inr (.inl (.inr (eq_of_retain_some h).2))
  · simp only [placement] at h
    split_ifs at h with hcount
    · obtain ⟨queue, hqueue, h⟩ := Option.map_eq_some_iff.1 h
      obtain ⟨-, rfl⟩ := Prod.mk.inj h
      have hne : c.job.state.remainingCount ≠ 1 := by
        intro hone
        rw [hone] at hcount
        exact absurd hcount (by decide)
      unfold maybeQueue at hqueue
      split at hqueue
      · next hcond => exact .inr (.inr ⟨Option.some.inj hqueue, by rw [hcond]; rfl, rfl, hne⟩)
      · next hcond =>
        split_ifs at hqueue with hrepeatedly
        · exact .inl (Option.some.inj (Option.some.inj hqueue)).symm
        · refine .inr (.inr ⟨Option.some.inj hqueue, ?_, rfl, hne⟩)
          rw [hcond]
          simpa [ScheduleCondition.passesOn] using hrepeatedly
      · cases hqueue
    · exact .inr (.inl (.inl (eq_of_retain_some h).2))

/-- What has been recorded tells the result. -/
theorem recorded_injective {c : JobCall} {result result' : RunResult}
    (h : c.queue.recorded c.job c.wd result = c.queue.recorded c.job c.wd result') : result = result' := by
  rcases result with _ | r
  · rcases result' with _ | r'
    · rfl
    · cases h
  · rcases result' with _ | r'
    · cases h
    · simp only [recorded, List.cons.injEq, and_true] at h
      cases h
      rfl

variable {pid : Pid} {w w' : EvoWorld}

theorem inactiveEmpty_insert {q : RunQueue} {job : BenchmarkingJob} {r : Outcome Error Unit}
    (h : InactiveEmpty qs w.disk.entries) (hfirst : qs.first = some q)
    (hspares : Action.Spares qs w (.insert job)) (hrun : (q.pushFront job).run (machine pid) w = some (r, w')) :
    InactiveEmpty qs w'.disk.entries := by
  have hq : q ∈ qs.pipeline := List.mem_of_head? hfirst
  have hput : ∀ key : TimeKey, InactiveEmpty qs (putEntry w.disk.entries (q.slot key) (.job job)) := fun key =>
    inactiveEmpty_putEntry h (mem_allQueues_of_mem_pipeline hq) fun _ => hspares q hfirst
  have hsafe : Safe pid (fun _ => True) (fun _ v => InactiveEmpty qs v.disk.entries) (q.pushFront job) w := by
    refine Prog.holds_mapErr.2 (Queue.safe_pushFront ?_ ?_ ?_ ?_ ?_ ?_)
    · exact fun _ _ => trivial
    · exact fun _ _ _ _ _ => trivial
    · exact fun msg v hv => hv.entries ▸ h
    · exact fun e v hv => hv.entries ▸ h
    · exact fun key _ _ e v hv => hv.entries ▸ hput key
    · exact fun key _ _ v hv => hv.entries ▸ hput key
  exact ((Prog.holds_iff _).1 hsafe).2 r w' hrun

theorem inactiveEmpty_runJob {c : JobCall} {result : RunResult} {r : Outcome Error JobStatus}
    (h : InactiveEmpty qs w.disk.entries) (hq : c.Queued qs w) (hspares : Action.Spares qs w (.runJob c result))
    (hrun : (c.program qs).run (machine pid) w = some (r, w'))
    (hresult : w'.calls = c.queue.recorded c.job c.wd result ++ w.calls) : InactiveEmpty qs w'.disk.entries := by
  obtain ⟨result', e, hreaches, hend⟩ := ((Prog.holds_iff _).1 (holds_program c qs w pid)).2 r w' hrun
  obtain rfl : result' = result := recorded_injective (List.append_cancel_right (hreaches.calls.symm.trans hresult))
  -- wherever the job is put, it is not the inactive queue
  have hplaced : ∀ {status e'}, (c.situation qs w).Placed result' status e' → InactiveEmpty qs e' := by
    intro status e' hplaced
    cases hplaced with
    | gone hplacement => exact h
    | @moved q key hplacement hnew =>
      refine inactiveEmpty_putEntry h (mem_allQueues_of_destination hq.1 (destination_of_placement (c := c) hplacement)) ?_
      intro hpipeline hinactive
      rcases next_of_placement (c := c) hplacement with rfl | hextra | ⟨hnext, hpasses, hok, hcount⟩
      · have hcurrent := h _ hpipeline hinactive c.key
        rw [show w.disk.entries (c.queue.current.slot c.key) = _ from hq.2] at hcurrent
        cases hcurrent
      · exact not_mem_pipeline_of_extra hextra hpipeline
      · exact hcount (hspares q hnext hinactive hpasses hok)
  have hstage : (c.situation qs w).Stage result' e → InactiveEmpty qs e := by
    rintro (rfl | ⟨status, hstage⟩)
    · exact h
    · exact hplaced hstage
  rw [hreaches.entries]
  cases r with
  | ok status =>
    obtain ⟨-, e', hfinal, rfl⟩ := hend
    exact inactiveEmpty_eraseEntry (hplaced hfinal)
  | err err => exact hstage hend
  | panic msg => exact hstage hend

theorem inactiveEmpty_handleTimeout {q : RunQueueWithNext} {r : Outcome Error Unit}
    (h : InactiveEmpty qs w.disk.entries) (hq : q ∈ qs.runQueueWithNexts)
    (hspares : Action.Spares qs w (.handleTimeout q))
    (hrun : q.handleTimeout.run (machine pid) w = some (r, w')) : InactiveEmpty qs w'.disk.entries := by
  -- what holds before each entry of the queue is moved
  let Inv : EvoWorld → Prop := fun v => InactiveEmpty qs v.disk.entries ∧
    ∀ n, q.next = some n → n.scheduleCondition = .inactive → q.current.Empty v.disk.entries
  have hsafe : Safe pid (fun _ => True) (fun _ v => InactiveEmpty qs v.disk.entries) q.handleTimeout w := by
    unfold handleTimeout
    split_ifs with hmove
    case neg => exact ⟨trivial, h⟩
    have hInv : Inv w := ⟨h, fun n hn hinactive => hspares n hn hinactive hmove⟩
    have hkeep : ∀ {v u : EvoWorld}, Inv v → v.Leads v.disk.entries u → Inv u := by
      intro v u hv hu
      simp only [Inv, hu.entries]
      exact hv
    refine Prog.holds_bind.2 (Prog.holds_mapErr.2 (KeyVal.safe_sortedKeys trivial (fun _ _ => trivial)
      (fun _ v hv => (hkeep hInv hv.leads).1) fun keys v _ hv => ?_))
    refine Prog.holds_forEach (fun _ => Inv) (fun key rest u hu => ?_) (fun u hu => ⟨trivial, hu.1⟩)
      (hkeep hInv hv.leads)
    refine Prog.holds_bind.2 (Prog.holds_mapErr.2 (KeyVal.safe_entryOpt (fun _ _ => trivial) ?_ ?_ ?_))
    · exact fun _ t ht => (hkeep hu ht).1
    · exact fun _ t ht => ⟨trivial, hkeep hu ht⟩
    · intro content hcontent t ht
      -- there is an entry, so the next queue is not an inactive one
      have hnext : ∀ n, q.next = some n → n.scheduleCondition ≠ .inactive := by
        intro n hn hinactive
        have hnone := hu.2 n hn hinactive key
        rw [show u.disk.entries (q.current.slot key) = _ from hcontent] at hnone
        cases hnone
      have hpassed : ∀ {val e}, q.Passed val t.disk.entries e → InactiveEmpty qs e := by
        intro val e hpassed
        cases hpassed with
        | dropped hn => exact (hkeep hu ht).1
        | moved hn hnew =>
          exact inactiveEmpty_putEntry (hkeep hu ht).1 (mem_allQueues_of_mem_pipeline (qs.next_mem hq hn))
            fun _ => hnext _ hn
      change Safe pid _ _ (q.moveEntry _) t
      refine safe_moveEntry (fun r e s hr he hs => ?_) ?_
      · have hempty : InactiveEmpty qs s.disk.entries := by
          rw [hs.entries]
          rcases he with rfl | ⟨val, he⟩
          · exact (hkeep hu ht).1
          · exact hpassed he
        cases r with
        | ok x => cases hr
        | err err => exact hempty
        | panic msg => exact hempty
      · exact fun val e s _ he hs => ⟨hs.entries ▸ inactiveEmpty_eraseEntry (hpassed he),
          fun n hn hinactive => absurd hinactive (hnext n hn)⟩
  exact ((Prog.holds_iff _).1 hsafe).2 r w' hrun

end Rules

/-! ### Runs -/

/-- A step that spares the inactive queue keeps it empty. -/
theorem inactiveEmpty_step {qs : RunQueues} {a : Action} {w w' : EvoWorld} (h : InactiveEmpty qs w.disk.entries)
    (hspares : a.Spares qs w) (hstep : Step qs a w w') : InactiveEmpty qs w'.disk.entries := by
  cases hstep with
  | insert hfirst hrun => exact inactiveEmpty_insert h hfirst hspares hrun
  | runJob hq hrun hresult => exact inactiveEmpty_runJob h hq hspares hrun hresult
  | handleTimeout hq hrun => exact inactiveEmpty_handleTimeout h hq hspares hrun

/-- Steps that spare the inactive queue. -/
def SparingStep (qs : RunQueues) (w w' : EvoWorld) : Prop := ∃ a : Action, a.Spares qs w ∧ Step qs a w w'

theorem inactiveEmpty_run {qs : RunQueues} {w w' : EvoWorld} (h : InactiveEmpty qs w.disk.entries)
    (hrun : Relation.ReflTransGen (SparingStep qs) w w') : InactiveEmpty qs w'.disk.entries := by
  induction hrun with
  | refl => exact h
  | tail _ hstep ih =>
    obtain ⟨a, hspares, hstep⟩ := hstep
    exact inactiveEmpty_step ih hspares hstep

/-- No scan of the disk panics, whatever the outside does. -/
def ScanSafe (qs : RunQueues) (d : Disk FileContent) : Prop :=
  ∀ (pid : Pid) (v : EvoWorld), v.disk = d →
    (∀ r u, qs.data.run (machine pid) v = some (r, u) → r.isPanic = false) ∧
      ∀ q ∈ qs.pipeline, ∀ r u, q.data.run (machine pid) v = some (r, u) → r.isPanic = false

/-- **Scans do not panic** in a run that starts with no job in an inactive queue of the pipeline, as long as every
step spares it. -/
theorem scan_never_panics {qs : RunQueues} {w w' : EvoWorld} (h : InactiveEmpty qs w.disk.entries)
    (hrun : Relation.ReflTransGen (SparingStep qs) w w') : ScanSafe qs w'.disk := by
  have hempty := inactiveEmpty_run h hrun
  rintro pid v hv
  rw [← hv] at hempty
  refine ⟨fun r u hdata => ?_, fun q hq r u hdata => ?_⟩
  · obtain ⟨-, hr⟩ := ((Prog.holds_iff _).1 qs.safe_data).2 r u hdata
    cases r with
    | ok data => rfl
    | err e => rfl
    | panic msg =>
      obtain ⟨q, hq, hinactive, hsome⟩ := hr
      exact absurd (hempty q hq hinactive) hsome
  · obtain ⟨-, hr⟩ := ((Prog.holds_iff _).1 q.safe_data).2 r u hdata
    cases r with
    | ok data => rfl
    | err e => rfl
    | panic msg => exact absurd (hempty q hq hr.1) hr.2

theorem sampleEmpty_empty (q : RunQueue) : q.Empty sampleEmpty.disk.entries := by
  intro key
  rw [show sampleEmpty.disk.entries (q.slot key) = _ from Disk.entries_eq_file (isTmp_asFilenameStr key)]
  exact AList.lookup_empty _

/-- Inserting the job of the small configuration. -/
def sampleInsert : Evo Unit := sampleCall.queue.current.pushFront sampleJob

theorem sampleInsert_step :
    Step sampleQueues (.insert sampleJob) sampleEmpty (sampleAfter sampleInsert sampleEmpty) := by
  have hok : (sampleInsert.run (machine 5) sampleEmpty).map Prod.fst = some (.ok ()) := by decide +kernel
  exact .insert (by decide +kernel) (run_eq_sampleAfter hok)

/-- The insertion does no harm. -/
theorem scan_never_panics_sample : ScanSafe sampleQueues (sampleAfter sampleInsert sampleEmpty).disk := by
  have hspares : Action.Spares sampleQueues sampleEmpty (.insert sampleJob) := by
    intro q hq
    rw [show sampleQueues.first = some sampleCall.queue.current by decide +kernel] at hq
    cases hq
    decide +kernel
  exact scan_never_panics (fun q _ _ => sampleEmpty_empty q) (.single ⟨_, hspares, sampleInsert_step⟩)

/-- The first run of the inserted job. -/
def sampleFirstRun : JobCall := { sampleCall with key := ⟨0, 5, 0⟩ }

theorem sampleFirstRun_step :
    Step sampleQueues (.runJob sampleFirstRun (some (.ok ()))) (sampleAfter sampleInsert sampleEmpty)
      (sampleAfter (sampleFirstRun.program sampleQueues) (sampleAfter sampleInsert sampleEmpty)) := by
  have hok : ((sampleFirstRun.program sampleQueues).run (machine 5) (sampleAfter sampleInsert sampleEmpty)).map
      Prod.fst = some (.ok .active) := by
    decide +kernel
  exact .runJob ⟨List.get_mem _ _, by decide +kernel⟩ (run_eq_sampleAfter hok) (by decide +kernel)

/-- A scan after the first run panics: the job is in the `Inactive` queue. -/
theorem scan_panics_sample :
    ¬ ∀ (qs : RunQueues) (w w' : EvoWorld), (∀ q ∈ qs.pipeline, q.Empty w.disk.entries) →
      Relation.ReflTransGen (fun w w' => ∃ a, Step qs a w w') w w' → ScanSafe qs w'.disk := by
  intro hall
  have hsafe := hall sampleQueues sampleEmpty _ (fun q _ => sampleEmpty_empty q)
    (.tail (.single ⟨_, sampleInsert_step⟩) ⟨_, sampleFirstRun_step⟩)
  have hpanic : ∀ v : EvoWorld, v = sampleAfter (sampleFirstRun.program sampleQueues)
      (sampleAfter sampleInsert sampleEmpty) →
      ((sampleQueues.data.run (machine 5) v).map fun x => x.1.isPanic) = some true := by
    rintro v rfl
    decide +kernel
  obtain ⟨⟨r, u⟩, hrun, hr⟩ := Option.map_eq_some_iff.1 (hpanic _ rfl)
  exact absurd ((hsafe 5 _ rfl).1 r u hrun) (by simp [hr])

end Evobench.Run

import Evobench.Run.RunQueue
import Mathlib.Data.List.MinMax
import Mathlib.Data.List.Nodup

/-!
# The pipeline of queues

## The model

* `checkRunQueues`: the validation of a queue configuration.
* `RunQueues`: a configuration that has passed it, with the directory that its queues are in. The check is
  a field, as the source's constructor makes it.
* `RunQueues.data`: the loaded copy of all queues, with the index by commit.
* `RunQueuesData.mostPrioritizedJob`: the choice of the next job to run.

## What is proved

* `RunQueues.nodup_names`, `RunQueues.inactive_last`, `RunQueues.erroneous_inactive`,
  `RunQueues.done_inactive`: what an accepted configuration is like.
* `RunQueues.slot_inj`: the entries of two queues are never the same files.
-/

namespace Evobench.Run

open Library SerdeTypes DateAndTime KeyValFs IoUtils

/-! ### Checking a configuration -/

/-- The closure `check_seen`: a queue name may be used once. -/
def checkSeen (seen : List ProperFilename) (fileName : ProperFilename) : Except String (List ProperFilename) :=
  if fileName ∈ seen then .error s!"duplicate queue name {fileName.asStr}"
  else .ok (fileName :: seen)

/-- The check of a queue's own condition. -/
def checkScheduleCondition : ScheduleCondition → Except String Unit
  | .immediately _ => .ok ()
  | .localNaiveTimeWindow _ _ stopStart _ _ _ _ =>
    if stopStart = some [] then
      .error "`LocalNaiveTimeWindow.stop_start` was given but is the empty list, require at least a program name/path"
    else .ok ()
  | .inactive => .ok ()

/-- The loop over the pipeline: the names seen, and the number of inactive queues. -/
def checkPipeline (seen : List ProperFilename) (inactiveCount : ℕ) :
    List RunQueue → Except String (List ProperFilename × ℕ)
  | [] => .ok (seen, inactiveCount)
  | q :: rest => do
    let seen ← checkSeen seen q.fileName
    checkScheduleCondition q.scheduleCondition
    checkPipeline seen (if q.scheduleCondition.isInactive then inactiveCount + 1 else inactiveCount) rest

/-- The closure `check_extra_queue` -/
def checkExtraQueue (name : String) (seen : List ProperFilename) :
    Option RunQueue → Except String (List ProperFilename)
  | none => .ok seen
  | some q => do
    let seen ← checkSeen seen q.fileName
    if q.scheduleCondition.isInactive then .ok seen
    else .error s!"the `{name}` must be of kind `Inactive`"

/-- `check_run_queues`: verify that the queue configuration is valid. -/
def checkRunQueues (pipeline : List RunQueue) (erroneousJobsQueue doneJobsQueue : Option RunQueue) :
    Except String Unit :=
  if pipeline = [] then
    .error "no queues defined -- need at least one, also suggested is to add a `Inactive` as the last"
  else do
    let (seen, inactiveCount) ← checkPipeline [] 0 pipeline
    if inactiveCount > 1 then
      .error "can have at most one `Inactive` queue"
    else if inactiveCount > 0 ∧ pipeline.getLast?.map RunQueue.scheduleCondition ≠ some .inactive then
      .error "`Inactive` queue must be the last in the pipeline"
    else do
      let seen ← checkExtraQueue "erroneous_jobs_queue" seen erroneousJobsQueue
      let _ ← checkExtraQueue "done_jobs_queue" seen doneJobsQueue
      pure ()

/-- `make_run_queue` -/
def makeRunQueue (runQueuesBasedir : String) (cfg : ProperFilename × ScheduleCondition) : RunQueue :=
  ⟨cfg.1, cfg.2, ⟨⟨appendPath runQueuesBasedir cfg.1.asStr, .all⟩⟩⟩

/-- The queues of an accepted configuration. -/
structure RunQueues where
  /-- The configuration. -/
  config : QueuesConfig
  /-- The directory that the queues are in. -/
  basedir : String
  /-- The configuration has been checked. -/
  checked : checkRunQueues (config.pipeline.map (makeRunQueue basedir))
    (config.erroneousJobsQueue.map (makeRunQueue basedir)) (config.doneJobsQueue.map (makeRunQueue basedir)) = .ok ()

namespace RunQueues

/-- The queues that jobs go through. -/
def pipeline (qs : RunQueues) : List RunQueue := qs.config.pipeline.map (makeRunQueue qs.basedir)

/-- The queue for failed jobs. -/
def erroneousJobsQueue (qs : RunQueues) : Option RunQueue := qs.config.erroneousJobsQueue.map (makeRunQueue qs.basedir)

/-- The queue for finished jobs. -/
def doneJobsQueue (qs : RunQueues) : Option RunQueue := qs.config.doneJobsQueue.map (makeRunQueue qs.basedir)

/-- All queues of all kinds. -/
def allQueues (qs : RunQueues) : List RunQueue :=
  qs.pipeline ++ qs.erroneousJobsQueue.toList ++ qs.doneJobsQueue.toList

/-- Pair the queues with their successors. -/
def withNexts : List RunQueue → List RunQueueWithNext
  | [] => []
  | q :: rest => ⟨q, rest.head?⟩ :: withNexts rest

/-- The pipeline's queues with their successors. -/
def runQueueWithNexts (qs : RunQueues) : List RunQueueWithNext := withNexts qs.pipeline

/-- The first queue, where jobs are inserted. -/
def first (qs : RunQueues) : Option RunQueue := qs.pipeline.head?

/-- `get_run_queue_with_next_by_name` -/
def getRunQueueWithNextByName (qs : RunQueues) (fileName : ProperFilename) : Option RunQueueWithNext :=
  qs.runQueueWithNexts.find? fun q => q.current.fileName = fileName

end RunQueues

/-! ### Loading all queues -/

/-- A loaded copy of the on-disk data. -/
structure RunQueuesData where
  /-- The queues. -/
  runQueues : RunQueues
  /-- The data of each queue of the pipeline. -/
  pipelineData : List RunQueueData
  /-- Value is (index in `pipelineData`, index within its `queueData`). -/
  jobsByCommitId : AList fun _ : GitHash => List (ℕ × ℕ)

namespace RunQueuesData

/-- Enter the place of a job. -/
def addJob (m : AList fun _ : GitHash => List (ℕ × ℕ)) (commitId : GitHash) (place : ℕ × ℕ) :
    AList fun _ : GitHash => List (ℕ × ℕ) :=
  match m.lookup commitId with
  | none => m.insert commitId [place]
  | some places => m.insert commitId (places ++ [place])

/-- Enter the jobs of a queue's data, the `i`-th one. -/
def addJobs (m : AList fun _ : GitHash => List (ℕ × ℕ)) (i : ℕ) :
    ℕ → List (TimeKey × BenchmarkingJob × Priority) → AList fun _ : GitHash => List (ℕ × ℕ)
  | _, [] => m
  | j, (_, job, _) :: rest => addJobs (addJob m job.pub.runParameters.commitId (i, j)) i (j + 1) rest

/-- Enter the jobs of all queues' data, from the `i`-th one. -/
def indexJobs (m : AList fun _ : GitHash => List (ℕ × ℕ)) :
    ℕ → List RunQueueData → AList fun _ : GitHash => List (ℕ × ℕ)
  | _, [] => m
  | i, data :: rest => indexJobs (addJobs m i 0 data.queueData) (i + 1) rest

/-- `jobs_by_commit_id` -/
def placesOf (data : RunQueuesData) (commitId : GitHash) : List (ℕ × ℕ) :=
  (data.jobsByCommitId.lookup commitId).getD []

end RunQueuesData

namespace RunQueues

/-- Load the data of each queue. -/
def dataOf : List RunQueue → Evo (List RunQueueData)
  | [] => pure []
  | q :: rest => do
    let data ← q.data
    let datas ← dataOf rest
    pure (data :: datas)

/-- `data` -/
def data (qs : RunQueues) : Evo RunQueuesData := do
  let pipelineData ← dataOf qs.pipeline
  pure ⟨qs, pipelineData, RunQueuesData.indexJobs ∅ 0 pipelineData⟩

end RunQueues

/-! ### What an accepted configuration is like -/

theorem checkSeen_eq_ok {seen seen' : List ProperFilename} {fileName : ProperFilename}
    (h : checkSeen seen fileName = .ok seen') : fileName ∉ seen ∧ seen' = fileName :: seen := by
  unfold checkSeen at h
  split_ifs at h with hmem
  cases h
  exact ⟨hmem, rfl⟩

/-- The names of an accepted pipeline are new and distinct, and its inactive queues are counted. -/
theorem checkPipeline_eq_ok {qs : List RunQueue} {seen seen' : List ProperFilename} {n n' : ℕ}
    (h : checkPipeline seen n qs = .ok (seen', n')) (hseen : seen.Nodup) :
    seen'.Nodup ∧ (∀ name, name ∈ seen' ↔ name ∈ seen ∨ name ∈ qs.map RunQueue.fileName) ∧
      (qs.map RunQueue.fileName).Nodup ∧ (∀ name ∈ qs.map RunQueue.fileName, name ∉ seen) ∧
      n' = n + qs.countP fun q => q.scheduleCondition.isInactive := by
  induction qs generalizing seen n with
  | nil =>
    cases h
    simp [hseen]
  | cons q rest ih =>
    rw [checkPipeline] at h
    obtain ⟨seen₁, h₁, h⟩ := except_bind_eq_ok.1 h
    obtain ⟨hnew, rfl⟩ := checkSeen_eq_ok h₁
    obtain ⟨-, -, h⟩ := except_bind_eq_ok.1 h
    obtain ⟨hnodup, hmem, hrest, hdisj, hcount⟩ := ih h (List.nodup_cons.2 ⟨hnew, hseen⟩)
    refine ⟨hnodup, fun name => ?_, ?_, ?_, ?_⟩
    · rw [hmem, List.map_cons, List.mem_cons, List.mem_cons]
      tauto
    · rw [List.map_cons, List.nodup_cons]
      exact ⟨fun hq => hdisj _ hq List.mem_cons_self, hrest⟩
    · intro name hname
      rcases List.mem_cons.1 hname with rfl | hname
      · exact hnew
      · exact fun hs => hdisj _ hname (List.mem_cons_of_mem _ hs)
    · rw [hcount, List.countP_cons]
      by_cases hq : q.scheduleCondition.isInactive = true
      · simp [hq]
        omega
      · simp [hq]

theorem checkExtraQueue_eq_ok {name : String} {seen seen' : List ProperFilename} {q : Option RunQueue}
    (h : checkExtraQueue name seen q = .ok seen') :
    (∀ x, x ∈ seen' ↔ x ∈ seen ∨ x ∈ q.toList.map RunQueue.fileName) ∧
      (∀ x ∈ q.toList.map RunQueue.fileName, x ∉ seen) ∧
      ∀ x ∈ q, RunQueue.scheduleCondition x = .inactive := by
  cases q with
  | none =>
    cases h
    simp
  | some q =>
    obtain ⟨seen₁, h₁, h⟩ := except_bind_eq_ok.1 h
    obtain ⟨hnew, rfl⟩ := checkSeen_eq_ok h₁
    split_ifs at h with hinactive
    cases h
    refine ⟨fun x => ?_, ?_, ?_⟩
    · simp only [List.mem_cons, Option.toList_some, List.map_cons, List.map_nil, List.not_mem_nil, or_false]
      exact or_comm
    · simpa using hnew
    · rintro x ⟨⟩
      exact ScheduleCondition.isInactive_iff.1 hinactive

/-- What the check makes sure of. -/
structure Accepted (pipeline : List RunQueue) (erroneousJobsQueue doneJobsQueue : Option RunQueue) : Prop where
  /-- There is a queue. -/
  nonempty : pipeline ≠ []
  /-- No name is used twice. -/
  nodup_names : ((pipeline ++ erroneousJobsQueue.toList ++ doneJobsQueue.toList).map RunQueue.fileName).Nodup
  /-- An inactive queue has no successor. -/
  inactive_last : ∀ l q r, pipeline = l ++ q :: r → q.scheduleCondition = .inactive → r = []
  /-- The queue for failed jobs is inactive. -/
  erroneous_inactive : ∀ q ∈ erroneousJobsQueue, RunQueue.scheduleCondition q = .inactive
  /-- The queue for finished jobs is inactive. -/
  done_inactive : ∀ q ∈ doneJobsQueue, RunQueue.scheduleCondition q = .inactive

/-- With at most one inactive queue, and the last one inactive if any is, no inactive queue has a successor. -/
theorem inactive_last_of_count {pipeline l r : List RunQueue} {q : RunQueue}
    (hcount : pipeline.countP (fun q => q.scheduleCondition.isInactive) ≤ 1)
    (hlast : 0 < pipeline.countP (fun q => q.scheduleCondition.isInactive) →
      pipeline.getLast?.map RunQueue.scheduleCondition = some .inactive)
    (hp : pipeline = l ++ q :: r) (hq : q.scheduleCondition = .inactive) : r = [] := by
  have hqi := ScheduleCondition.isInactive_iff.2 hq
  by_contra hr
  obtain ⟨x, hx⟩ : ∃ x, r.getLast? = some x := ⟨r.getLast hr, List.getLast?_eq_some_getLast hr⟩
  have hsum : pipeline.countP (fun q => q.scheduleCondition.isInactive) =
      l.countP (fun q => q.scheduleCondition.isInactive) + (r.countP (fun q => q.scheduleCondition.isInactive) + 1) := by
    rw [hp, List.countP_append, List.countP_cons, if_pos hqi]
  -- the last queue comes after `q` and is inactive, too
  have hxi := hlast (by omega)
  have hlast' : pipeline.getLast? = some x := by
    rw [hp, List.getLast?_append, List.getLast?_cons, hx]
    rfl
  rw [hlast', Option.map_some, Option.some.injEq] at hxi
  have hpos : 0 < r.countP (fun q => q.scheduleCondition.isInactive) :=
    List.countP_pos_iff.2 ⟨x, List.mem_of_getLast? hx, ScheduleCondition.isInactive_iff.2 hxi⟩
  omega

theorem accepted_of_checkRunQueues {pipeline : List RunQueue} {erroneousJobsQueue doneJobsQueue : Option RunQueue}
    (h : checkRunQueues pipeline erroneousJobsQueue doneJobsQueue = .ok ()) :
    Accepted pipeline erroneousJobsQueue doneJobsQueue := by
  unfold checkRunQueues at h
  split_ifs at h with hne
  obtain ⟨⟨seen, n⟩, hpipeline, h⟩ := except_bind_eq_ok.1 h
  dsimp only at h
  split_ifs at h with hone hlast
  obtain ⟨seen₁, herroneous, h⟩ := except_bind_eq_ok.1 h
  obtain ⟨seen₂, hdone, -⟩ := except_bind_eq_ok.1 h
  obtain ⟨-, hmem, hnodup, -, hcount⟩ := checkPipeline_eq_ok hpipeline List.nodup_nil
  obtain ⟨hmem₁, hnew₁, hinactive₁⟩ := checkExtraQueue_eq_ok herroneous
  obtain ⟨-, hnew₂, hinactive₂⟩ := checkExtraQueue_eq_ok hdone
  rw [Nat.zero_add] at hcount
  rw [hcount] at hone hlast
  have hsingle : ∀ q : Option RunQueue, (q.toList.map RunQueue.fileName).Nodup := by
    rintro (_ | q)
    · exact List.nodup_nil
    · exact List.nodup_singleton _
  refine ⟨hne, ?_, ?_, hinactive₁, hinactive₂⟩
  · rw [List.map_append, List.map_append, List.nodup_append', List.nodup_append']
    refine ⟨⟨hnodup, hsingle _, fun x hx hx' => ?_⟩, hsingle _, fun x hx hx' => ?_⟩
    · exact hnew₁ x hx' ((hmem x).2 (.inr hx))
    · rcases List.mem_append.1 hx with hx | hx
      · exact hnew₂ x hx' ((hmem₁ x).2 (.inl ((hmem x).2 (.inr hx))))
      · exact hnew₂ x hx' ((hmem₁ x).2 (.inr hx))
  · intro l q r hp hq
    refine inactive_last_of_count (by omega) (fun hpos => ?_) hp hq
    by_contra hne'
    exact hlast ⟨hpos, hne'⟩

namespace RunQueues

variable (qs : RunQueues)

theorem accepted : Accepted qs.pipeline qs.erroneousJobsQueue qs.doneJobsQueue := accepted_of_checkRunQueues qs.checked

/-- Every queue is a directory of its own below the base directory. -/
theorem baseDir_eq {q : RunQueue} (h : q ∈ qs.allQueues) :
    q.queue.keyVal.baseDir = appendPath qs.basedir q.fileName.asStr := by
  simp only [allQueues, pipeline, erroneousJobsQueue, doneJobsQueue, List.mem_append, List.mem_map,
    Option.mem_toList, Option.map_eq_some_iff] at h
  rcases h with (⟨cfg, -, rfl⟩ | ⟨cfg, -, rfl⟩) | ⟨cfg, -, rfl⟩
  · rfl
  · rfl
  · rfl

theorem appendPath_inj {dir a b : String} (h : appendPath dir a = appendPath dir b) : a = b := by
  simpa [appendPath] using h

/-- Queues are told apart by their names. -/
theorem eq_of_fileName {q q' : RunQueue} (h : q ∈ qs.allQueues) (h' : q' ∈ qs.allQueues)
    (he : q.fileName = q'.fileName) : q = q' :=
  List.inj_on_of_nodup_map qs.accepted.nodup_names h h' he

/-- **The entries of two queues are never the same files.** -/
theorem slot_inj {q q' : RunQueue} {k k' : TimeKey} (h : q ∈ qs.allQueues) (h' : q' ∈ qs.allQueues)
    (he : q.slot k = q'.slot k') : q = q' ∧ k = k' := by
  have hdir : q.queue.keyVal.baseDir = q'.queue.keyVal.baseDir := (Prod.mk.inj he).1
  rw [qs.baseDir_eq h, qs.baseDir_eq h'] at hdir
  have hname : q.fileName = q'.fileName := by
    have := appendPath_inj hdir
    cases hq : q.fileName
    cases hq' : q'.fileName
    simp_all
  obtain rfl := qs.eq_of_fileName h h' hname
  exact ⟨rfl, q.queue.keyVal.slot_injective he⟩

theorem mem_withNexts {l : List RunQueue} {q : RunQueueWithNext} (h : q ∈ withNexts l) :
    ∃ a r, l = a ++ q.current :: r ∧ q.next = r.head? := by
  induction l with
  | nil => cases h
  | cons x rest ih =>
    rcases List.mem_cons.1 h with rfl | h
    · exact ⟨[], rest, rfl, rfl⟩
    · obtain ⟨a, r, rfl, hr⟩ := ih h
      exact ⟨x :: a, r, rfl, hr⟩

theorem current_mem {q : RunQueueWithNext} (h : q ∈ qs.runQueueWithNexts) : q.current ∈ qs.pipeline := by
  obtain ⟨a, r, hp, -⟩ := mem_withNexts h
  rw [hp]
  simp

theorem next_mem {q : RunQueueWithNext} {n : RunQueue} (h : q ∈ qs.runQueueWithNexts) (hn : q.next = some n) :
    n ∈ qs.pipeline := by
  obtain ⟨a, r, hp, hr⟩ := mem_withNexts h
  rw [hr] at hn
  rw [hp]
  exact List.mem_append_right _ (List.mem_cons_of_mem _ (List.mem_of_head? hn))

/-! ### What loading gives -/

theorem safe_dataOf {pid : Pid} {w v : EvoWorld} (queues : List RunQueue) (hv : w.Goes w.disk v) :
    Safe pid (fun u => w.Goes w.disk u) (fun r u => w.Goes w.disk u ∧ match r with
      | .ok datas => List.Forall₂ (fun q data => q.Loaded w.disk data) queues datas
      | .err _ => True
      | .panic _ => ∃ q ∈ queues, q.scheduleCondition = .inactive ∧ ¬ q.Empty w.disk.entries) (dataOf queues) v := by
  induction queues generalizing v with
  | nil => exact ⟨hv, hv, List.Forall₂.nil⟩
  | cons q rest ih =>
    refine Prog.holds_bind.2 (q.safe_data.mono (fun u hu => hv.same hu) ?_)
    rintro r u ⟨hu, hr⟩
    have hu' := hv.same hu
    rw [hv.disk] at hr
    cases r with
    | err e => exact ⟨hu', trivial⟩
    | panic msg => exact ⟨hu', q, List.mem_cons_self, hr⟩
    | ok data =>
      refine Prog.holds_bind.2 ((ih hu').imp ?_)
      rintro r t ⟨ht, hr'⟩
      cases r with
      | err e => exact ⟨ht, trivial⟩
      | panic msg =>
        obtain ⟨q', hq', hinactive⟩ := hr'
        exact ⟨ht, q', List.mem_cons_of_mem _ hq', hinactive⟩
      | ok datas => exact ⟨ht, ht, List.Forall₂.cons hr hr'⟩

/-- **Loading the pipeline.** -/
theorem safe_data {pid : Pid} {w : EvoWorld} :
    Safe pid (fun v => w.Goes w.disk v) (fun r v => w.Goes w.disk v ∧ match r with
      | .ok data => data.runQueues = qs ∧ data.jobsByCommitId = RunQueuesData.indexJobs ∅ 0 data.pipelineData ∧
          List.Forall₂ (fun q data => q.Loaded w.disk data) qs.pipeline data.pipelineData
      | .err _ => True
      | .panic _ => ∃ q ∈ qs.pipeline, q.scheduleCondition = .inactive ∧ ¬ q.Empty w.disk.entries) qs.data w := by
  refine Prog.holds_bind.2 ((safe_dataOf qs.pipeline (World.Goes.refl w)).imp ?_)
  rintro r v ⟨hv, hr⟩
  cases r with
  | err e => exact ⟨hv, trivial⟩
  | panic msg => exact ⟨hv, hr⟩
  | ok datas => exact ⟨hv, hv, rfl, rfl, hr⟩

end RunQueues

/-! ### A small configuration -/

/-- The name of a queue. -/
def nowName : ProperFilename := ⟨"now", by decide⟩

/-- The name of a queue that is never run. -/
def parkedName : ProperFilename := ⟨"parked", by decide⟩

/-- The name of a situation. -/
def dayName : ProperFilename := ⟨"day", by decide⟩

/-- A pipeline as the error text of `check_run_queues` suggests it: with an `Inactive` queue as the last. -/
def sampleQueues : RunQueues where
  config := ⟨[(nowName, .immediately dayName), (parkedName, .inactive)], none, none⟩
  basedir := "queues"
  checked := by decide +kernel

/-- A job that is to be run twice. -/
def sampleJob : BenchmarkingJob where
  pub := ⟨none, ⟨⟨0⟩, []⟩, ⟨"target", ".", "make", [], ""⟩⟩
  state := ⟨2, 1, none⟩
  priority := .num 0
  currentBoost := .num 0

/-- The key of the job's entry. -/
def sampleKey : TimeKey := ⟨0, 1, 0⟩

/-- An outside in which everything works. -/
def sampleAnswer : (x : Call) → Answer x
  | .runJob _ _ _ _ => .ok ()
  | .getAWorkingDirectoryFor _ => .ok 0
  | .clearCurrentWorkingDirectory => .ok ()
  | .stopStart _ => .ok ()
  | .deleteUncompressedLogs _ => .ok ()
  | .openPollingPool => .ok ()
  | .commitIsValid _ => .ok true
  | .print _ => .ok ()
  | .flush => .ok ()

/-- The job is in the first queue. -/
def sampleWorld : EvoWorld where
  disk := Function.update (fun _ => ∅) "queues/now" (AList.singleton (asFilenameStr sampleKey) (some (.job sampleJob)))
  locks := fun _ => none
  env := fun _ => ⟨.epoch, none, sampleAnswer⟩
  tick := 1
  ids := fun _ => 0
  calls := []

/-- The same with nothing queued. -/
def sampleEmpty : EvoWorld := { sampleWorld with disk := fun _ => ∅ }

/-- The state at the end of a program. -/
def sampleAfter {α : Type} (p : Evo α) (w : EvoWorld) : EvoWorld := ((p.run (machine 5) w).getD (.panic "", w)).2

theorem run_eq_sampleAfter {α : Type} {p : Evo α} {w : EvoWorld} {r : Outcome Error α}
    (h : (p.run (machine 5) w).map Prod.fst = some r) : p.run (machine 5) w = some (r, sampleAfter p w) := by
  obtain ⟨⟨r', w'⟩, hrun, rfl⟩ := Option.map_eq_some_iff.1 h
  rw [sampleAfter, hrun]
  rfl

end Evobench.Run

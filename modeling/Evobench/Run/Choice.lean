import Evobench.Run.DaemonLoop
import Evobench.Library.FirstMinimum

/-!
# The choice of the next job

`most_prioritized_job` takes the most prioritized job of each runnable queue, the first one of several, and of
these the most prioritized one, again the first. The documentation says what is meant by this: the oldest job
with the maximum total priority in the earliest queue.

* `RunQueuesData.Waits`: a job of the loaded data is in a queue that is runnable at the given time.
* `RunQueuesData.Best`: the documented choice among the waiting jobs.
* `waiting`: the list of the waiting jobs, in the order of the pipeline and of the keys. Both minima
  together are the first minimum of this list (`argmin_firstJobs`).

`picked_iff` is the main result. The choice is made as documented at every time at which it can be told of
all queues if they are runnable. It can not be told of a time window with a time at second 60, which the
configuration allows (`picked_leap_second`).

Priorities are exact numbers here: that a sum of `f64`s is rounded, or overflows, is not modelled. So jobs whose
totals differ by less than the rounding are told apart here, but not by the code.
-/

namespace Evobench.Run

open Library SerdeTypes DateAndTime KeyValFs IoUtils

/-! ### What is meant -/

/-- The total priority of a job in a queue. -/
def RunQueue.totalPriority (q : RunQueue) (job : BenchmarkingJob) : Option Priority := do
  let queuePriority ← q.scheduleCondition.priority
  let jobPriority ← job.totalPriority.toOption
  (jobPriority.add queuePriority).toOption

/-- The first queue comes earlier in the pipeline. -/
def RunQueues.Earlier (qs : RunQueues) (q q' : RunQueue) : Prop := [q, q'].Sublist qs.pipeline

namespace RunQueuesData

/-- The data is what loading the queues from a disk gives. -/
structure LoadedFrom (data : RunQueuesData) (qs : RunQueues) (d : Disk FileContent) : Prop where
  /-- The queues. -/
  runQueues : data.runQueues = qs
  /-- Their data. -/
  pipeline : List.Forall₂ (fun q data => q.Loaded d data) qs.pipeline data.pipelineData

/-- The entries that have been loaded are still there. -/
def Kept (data : RunQueuesData) (e : Entries FileContent) : Prop :=
  ∀ qd ∈ data.pipelineData, ∀ entry ∈ qd.queueData, e (qd.runQueue.slot entry.1) ≠ none

/-- A job is in a queue that is runnable at the given time, in the given window, with the given total priority. -/
structure Waits (tz : LocalTz) (data : RunQueuesData) (t : DateTime) (q : RunQueue) (window : Option DateTimeRange)
    (key : TimeKey) (job : BenchmarkingJob) (priority : Priority) : Prop where
  /-- The job is in the queue. -/
  held : ∃ qd ∈ data.pipelineData, qd.runQueue = q ∧ ∃ p, (key, job, p) ∈ qd.queueData
  /-- The queue is runnable. -/
  runnable : (q.scheduleCondition.isRunnableAt tz t : Outcome Error _) = .ok (some window)
  /-- The total priority. -/
  total : q.totalPriority job = some priority

/-- **The documented choice**: of the waiting jobs with the highest total priority the oldest one in the earliest
queue. -/
structure Best (tz : LocalTz) (qs : RunQueues) (data : RunQueuesData) (t : DateTime) (choice : Choice) (key : TimeKey) :
    Prop where
  /-- It is a waiting job. -/
  waits : data.Waits tz t choice.queue.current.runQueue choice.window key choice.job choice.priority
  /-- The item is that of its entry. -/
  item : choice.item.entry.baseDir = choice.queue.current.runQueue.queue.keyVal.baseDir ∧
    choice.item.entry.fileName = asFilenameStr key ∧ choice.item.perhapsLock = .noLock
  /-- The queue is paired with its successor in the pipeline. -/
  next : choice.queue.runQueueWithNext ∈ qs.runQueueWithNexts
  /-- No waiting job has a higher priority. -/
  highest : ∀ q window key' job priority, data.Waits tz t q window key' job priority → priority ≤ choice.priority
  /-- No waiting job with the same priority is in an earlier queue, or in the same queue and older. -/
  first : ∀ q window key' job, data.Waits tz t q window key' job choice.priority →
    ¬ qs.Earlier q choice.queue.current.runQueue ∧ (q = choice.queue.current.runQueue → ¬ key' < key)

/-- How `most_prioritized_job` has to end; it may fail only if the file system does when the entry is opened. -/
def Picked (tz : LocalTz) (qs : RunQueues) (data : RunQueuesData) (t : DateTime) (fault : Option ℕ) :
    Outcome Error (Option Choice) → Prop
  | .ok (some choice) => ∃ key, data.Best tz qs t choice key
  | .ok none => ∀ q window key job priority, ¬ data.Waits tz t q window key job priority
  | .err _ => fault ≠ none ∧ ∃ q window key job priority, data.Waits tz t q window key job priority
  | .panic _ => False

end RunQueuesData

/-! ### The loaded data -/

/-- The items carry the total priority. -/
theorem totalPriority_of_itemData {q : RunQueue} {d : Disk FileContent} {key : TimeKey} {job : BenchmarkingJob}
    {a : TimeKey × BenchmarkingJob × Priority} (h : q.itemData (q.queue.itemOf d key) job = .ok a) :
    q.totalPriority a.2.1 = some a.2.2 := by
  have hjob := (RunQueue.eq_of_itemData h).2
  unfold RunQueue.itemData at h
  split at h
  · cases h
  · next queuePriority hpriority =>
    obtain ⟨jobPriority, hj, h⟩ := Outcome.bind_eq_ok.1 h
    obtain ⟨priority, hp, h⟩ := Outcome.bind_eq_ok.1 h
    obtain ⟨key', -, h⟩ := Outcome.bind_eq_ok.1 h
    cases h
    simp only [RunQueue.totalPriority, hpriority]
    cases hjob' : job.totalPriority with
    | error e =>
      rw [hjob'] at hj
      cases hj
    | ok jp =>
      rw [hjob'] at hj
      cases hj
      cases hadd : jobPriority.add queuePriority with
      | error e =>
        rw [hadd] at hp
        cases hp
      | ok total =>
        rw [hadd] at hp
        cases hp
        simp [hadd, Except.toOption]

theorem RunQueue.Loaded.totalPriority {q : RunQueue} {d : Disk FileContent} {data : RunQueueData} (h : q.Loaded d data)
    {entry : TimeKey × BenchmarkingJob × Priority} (hentry : entry ∈ data.queueData) :
    data.runQueue.totalPriority entry.2.1 = some entry.2.2 := by
  obtain ⟨rfl, kvs, -, hdata⟩ := h
  obtain ⟨kv, -, hitem⟩ := exists_of_forall₂ hdata hentry
  exact totalPriority_of_itemData hitem

theorem pairwise_of_forall₂ {α β : Type} {R : α → β → Prop} {S : α → α → Prop} {T : β → β → Prop} {l : List α} {l' : List β}
    (h : List.Forall₂ R l l') (hl : l.Pairwise S) (hST : ∀ a a' b b', R a b → R a' b' → S a a' → T b b') :
    l'.Pairwise T := by
  induction h with
  | nil => exact List.Pairwise.nil
  | @cons a b l l' hab hrest ih =>
    rw [List.pairwise_cons] at hl ⊢
    refine ⟨fun b' hb' => ?_, ih hl.2⟩
    obtain ⟨a', ha', hR⟩ := exists_of_forall₂ hrest hb'
    exact hST a a' b b' hab hR (hl.1 a' ha')

/-- The entries are in the order of their keys. -/
theorem RunQueue.Loaded.pairwise {q : RunQueue} {d : Disk FileContent} {data : RunQueueData} (h : q.Loaded d data) :
    data.queueData.Pairwise fun a b => a.1 ≤ b.1 := by
  obtain ⟨-, kvs, hkvs, hdata⟩ := h
  refine pairwise_of_forall₂ hdata (Queue.pairwise_contents hkvs) ?_
  intro kv kv' a a' ha ha' hle
  rw [(eq_of_itemData ha).1, (eq_of_itemData ha').1]
  exact hle

/-- The places of the elements of a list without duplicates. -/
theorem pairwise_idxOf {α : Type} [DecidableEq α] {l : List α} (h : l.Nodup) :
    l.Pairwise fun a b => l.idxOf a < l.idxOf b := by
  rw [List.pairwise_iff_getElem]
  intro i j hi hj hij
  rwa [h.idxOf_getElem, h.idxOf_getElem]

namespace RunQueuesData

theorem LoadedFrom.map_runQueue {data : RunQueuesData} {qs : RunQueues} {d : Disk FileContent}
    (h : data.LoadedFrom qs d) : data.pipelineData.map RunQueueData.runQueue = qs.pipeline := by
  have hloaded := h.pipeline
  generalize qs.pipeline = queues, data.pipelineData = datas at hloaded
  induction hloaded with
  | nil => rfl
  | cons hq _ ih => rw [List.map_cons, ih, hq.1]

theorem map_current_withNexts (l : List RunQueueData) :
    (withNexts l).map RunQueueDataWithNext.current = l := by
  induction l with
  | nil => rfl
  | cons data rest ih => rw [withNexts, List.map_cons, ih]

/-- The successors of the data are the data of the successors. -/
theorem map_runQueueWithNext_withNexts (l : List RunQueueData) :
    (withNexts l).map RunQueueDataWithNext.runQueueWithNext = RunQueues.withNexts (l.map RunQueueData.runQueue) := by
  induction l with
  | nil => rfl
  | cons data rest ih =>
    rw [withNexts, List.map_cons, ih, List.map_cons, RunQueues.withNexts, List.head?_map]
    rfl

/-! ### The waiting jobs -/

/-- The window of a queue that is runnable. -/
def windowAt (tz : LocalTz) (t : DateTime) (rq : RunQueueDataWithNext) : Option (Option DateTimeRange) :=
  match (rq.current.runQueue.scheduleCondition.isRunnableAt tz t : Outcome Error _) with
  | .ok window => window
  | _ => none

/-- The queues that are runnable. -/
def runnableQueues (tz : LocalTz) (t : DateTime) (l : List RunQueueDataWithNext) :
    List (RunQueueDataWithNext × Option DateTimeRange) :=
  l.filterMap fun rq => (windowAt tz t rq).map fun window => (rq, window)

/-- The jobs that wait, in the order of the pipeline and of their keys. -/
def waiting (active : List (RunQueueDataWithNext × Option DateTimeRange)) :
    List ((TimeKey × BenchmarkingJob × Priority) × RunQueueDataWithNext × Option DateTimeRange) :=
  active.flatMap fun rq => rq.1.current.queueData.map fun entry => (entry, rq)

section Active

variable {tz : LocalTz} {t : DateTime}

theorem windowAt_eq_some {rq : RunQueueDataWithNext} {window : Option DateTimeRange} :
    windowAt tz t rq = some window ↔
      (rq.current.runQueue.scheduleCondition.isRunnableAt tz t : Outcome Error _) = .ok (some window) := by
  unfold windowAt
  split
  · next w hw => rw [hw, Outcome.ok.injEq]
  · next hw =>
    constructor
    · intro h
      cases h
    · exact fun h => absurd h (hw _)

theorem runnableQueues_cons (rq : RunQueueDataWithNext) (rest : List RunQueueDataWithNext) :
    runnableQueues tz t (rq :: rest) =
      ((windowAt tz t rq).map fun window => (rq, window)).toList ++ runnableQueues tz t rest := by
  cases h : windowAt tz t rq with
  | none => simp [runnableQueues, h]
  | some window => simp [runnableQueues, h]

theorem activeQueues_of_fitsAt {l : List RunQueueDataWithNext}
    (h : ∀ rq ∈ l, rq.current.runQueue.scheduleCondition.FitsAt tz t) :
    activeQueues tz t l = .ok (runnableQueues tz t l) := by
  induction l with
  | nil => rfl
  | cons rq rest ih =>
    obtain ⟨window, hwindow⟩ := ScheduleCondition.isRunnableAt_of_fitsAt (ε := Error) (h rq List.mem_cons_self)
    have hrest := ih fun rq' hrq' => h rq' (List.mem_cons_of_mem _ hrq')
    have hat : windowAt tz t rq = window := by rw [windowAt, hwindow]
    rw [activeQueues, hwindow, Outcome.ok_bind, hrest, Outcome.ok_bind, runnableQueues_cons, hat]
    cases window with
    | none => rfl
    | some dtr => rfl

theorem activeQueues_of_not_fitsAt {l : List RunQueueDataWithNext}
    (h : ¬ ∀ rq ∈ l, rq.current.runQueue.scheduleCondition.FitsAt tz t) :
    activeQueues tz t l = .panic "fitting range" := by
  induction l with
  | nil => exact absurd (fun rq hrq => by cases hrq) h
  | cons rq rest ih =>
    rw [activeQueues]
    by_cases hrq : rq.current.runQueue.scheduleCondition.FitsAt tz t
    · obtain ⟨window, hwindow⟩ := ScheduleCondition.isRunnableAt_of_fitsAt (ε := Error) hrq
      have hrest : ¬ ∀ rq ∈ rest, rq.current.runQueue.scheduleCondition.FitsAt tz t :=
        fun hall => h (List.forall_mem_cons.2 ⟨hrq, hall⟩)
      rw [hwindow, Outcome.ok_bind, ih hrest, Outcome.panic_bind]
    · rw [ScheduleCondition.isRunnableAt_of_not_fitsAt hrq, Outcome.panic_bind]

/-- **The nested minima are the first minimum of the waiting jobs.** -/
theorem argmin_firstJobs (active : List (RunQueueDataWithNext × Option DateTimeRange)) :
    ((active.filterMap firstJob).argmin fun x => x.1.2.2.neg) = (waiting active).argmin fun x => x.1.2.2.neg := by
  have hfirst : active.filterMap firstJob = (active.map fun rq => rq.1.current.queueData.map fun entry =>
      (entry, rq)).filterMap fun l => l.argmin fun x => x.1.2.2.neg := by
    rw [List.filterMap_map]
    refine List.filterMap_congr fun rq _ => ?_
    exact (argmin_map (f := fun x : (TimeKey × BenchmarkingJob × Priority) × RunQueueDataWithNext ×
      Option DateTimeRange => x.1.2.2.neg) (fun entry => (entry, rq)) rq.1.current.queueData).symm
  rw [hfirst, argmin_flatten, waiting, List.flatMap]

end Active

section Loaded

variable {tz : LocalTz} {t : DateTime} {qs : RunQueues} {d : Disk FileContent} {data : RunQueuesData}

/-- The list of the waiting jobs. -/
def waitingAt (tz : LocalTz) (t : DateTime) (data : RunQueuesData) :
    List ((TimeKey × BenchmarkingJob × Priority) × RunQueueDataWithNext × Option DateTimeRange) :=
  waiting (runnableQueues tz t (withNexts data.pipelineData))

theorem mem_runnableQueues {l : List RunQueueDataWithNext} {rq : RunQueueDataWithNext × Option DateTimeRange} :
    rq ∈ runnableQueues tz t l ↔ rq.1 ∈ l ∧
      (rq.1.current.runQueue.scheduleCondition.isRunnableAt tz t : Outcome Error _) = .ok (some rq.2) := by
  rw [runnableQueues, List.mem_filterMap]
  constructor
  · rintro ⟨rq', hmem, h⟩
    obtain ⟨window, hwindow, rfl⟩ := Option.map_eq_some_iff.1 h
    exact ⟨hmem, windowAt_eq_some.1 hwindow⟩
  · rintro ⟨hmem, h⟩
    exact ⟨rq.1, hmem, by rw [windowAt_eq_some.2 h]; rfl⟩

/-- What is in the list waits. -/
theorem waits_of_mem_waitingAt (hload : data.LoadedFrom qs d)
    {x : (TimeKey × BenchmarkingJob × Priority) × RunQueueDataWithNext × Option DateTimeRange}
    (hx : x ∈ waitingAt tz t data) :
    x.2.1 ∈ withNexts data.pipelineData ∧ x.1 ∈ x.2.1.current.queueData ∧
      data.Waits tz t x.2.1.current.runQueue x.2.2 x.1.1 x.1.2.1 x.1.2.2 := by
  obtain ⟨rq, hrq, hx⟩ := List.mem_flatMap.1 hx
  obtain ⟨entry, hentry, rfl⟩ := List.mem_map.1 hx
  obtain ⟨hmem, hrunnable⟩ := mem_runnableQueues.1 hrq
  have hcurrent : rq.1.current ∈ data.pipelineData := current_mem_withNexts hmem
  obtain ⟨q, -, hloaded⟩ := exists_of_forall₂ hload.pipeline hcurrent
  exact ⟨hmem, hentry, ⟨⟨_, hcurrent, rfl, entry.2.2, hentry⟩, hrunnable, hloaded.totalPriority hentry⟩⟩

/-- What waits is in the list. -/
theorem Waits.mem_waitingAt (hload : data.LoadedFrom qs d) {q : RunQueue} {window : Option DateTimeRange} {key : TimeKey}
    {job : BenchmarkingJob} {priority : Priority} (h : data.Waits tz t q window key job priority) :
    ∃ rq : RunQueueDataWithNext, rq.current.runQueue = q ∧ ((key, job, priority), (rq, window)) ∈ waitingAt tz t data := by
  obtain ⟨qd, hqd, rfl, p, hentry⟩ := h.held
  rw [← map_current_withNexts data.pipelineData] at hqd
  obtain ⟨rq, hrq, rfl⟩ := List.mem_map.1 hqd
  obtain ⟨q, -, hloaded⟩ := exists_of_forall₂ hload.pipeline (current_mem_withNexts hrq)
  have hp : p = priority := Option.some.inj ((hloaded.totalPriority hentry).symm.trans h.total)
  subst hp
  exact ⟨rq, rfl, List.mem_flatMap.2 ⟨(rq, window), mem_runnableQueues.2 ⟨hrq, h.runnable⟩,
    List.mem_map_of_mem hentry⟩⟩

/-- No queue comes earlier than one that comes earlier than it. -/
theorem not_earlier {q q' : RunQueue} (h : qs.Earlier q q') : ¬ qs.Earlier q' q := by
  have hnodup : qs.pipeline.Nodup := by
    have hnames := qs.accepted.nodup_names
    rw [List.append_assoc, List.map_append] at hnames
    exact List.Nodup.of_map _ hnames.of_append_left
  have hlt : ∀ {a b : RunQueue}, qs.Earlier a b → qs.pipeline.idxOf a < qs.pipeline.idxOf b := fun hab =>
    List.pairwise_iff_forall_sublist.1 (pairwise_idxOf hnodup) hab
  exact fun h' => lt_asymm (hlt h) (hlt h')

theorem map_runQueue_withNexts (hload : data.LoadedFrom qs d) :
    (withNexts data.pipelineData).map (fun rq => rq.current.runQueue) = qs.pipeline := by
  rw [← hload.map_runQueue]
  conv_rhs => rw [← map_current_withNexts data.pipelineData, List.map_map]
  rfl

theorem sublist_runnableQueues (l : List RunQueueDataWithNext) :
    ((runnableQueues tz t l).map fun rq => rq.1.current.runQueue).Sublist (l.map fun rq => rq.current.runQueue) := by
  induction l with
  | nil => exact List.Sublist.slnil
  | cons rq rest ih =>
    rw [runnableQueues_cons, List.map_append, List.map_cons]
    cases windowAt tz t rq with
    | none => exact ih.cons _
    | some window => exact ih.cons_cons _

/-- The list is in the order of the pipeline and of the keys. -/
theorem pairwise_waitingAt (hload : data.LoadedFrom qs d) :
    (waitingAt tz t data).Pairwise fun x y => qs.Earlier x.2.1.current.runQueue y.2.1.current.runQueue ∨
      x.2.1.current.runQueue = y.2.1.current.runQueue ∧ x.1.1 ≤ y.1.1 := by
  have hsublist : ((runnableQueues tz t (withNexts data.pipelineData)).map fun rq => rq.1.current.runQueue).Sublist
      qs.pipeline := by
    rw [← map_runQueue_withNexts hload]
    exact sublist_runnableQueues _
  rw [waitingAt, waiting, List.pairwise_flatMap]
  refine ⟨fun rq hrq => ?_, ?_⟩
  · rw [List.pairwise_map]
    obtain ⟨q, -, hloaded⟩ := exists_of_forall₂ hload.pipeline (current_mem_withNexts (mem_runnableQueues.1 hrq).1)
    exact hloaded.pairwise.imp fun hle => .inr ⟨rfl, hle⟩
  · rw [List.pairwise_iff_forall_sublist]
    intro rq rq' h x hx y hy
    obtain ⟨entry, -, rfl⟩ := List.mem_map.1 hx
    obtain ⟨entry', -, rfl⟩ := List.mem_map.1 hy
    have hpair := h.map fun rq : RunQueueDataWithNext × Option DateTimeRange => rq.1.current.runQueue
    exact .inl (hpair.trans hsublist)

/-- The choice for an element of the list. -/
def choiceOf (x : (TimeKey × BenchmarkingJob × Priority) × RunQueueDataWithNext × Option DateTimeRange)
    (content : Option FileContent) : Choice :=
  ⟨x.2.1, x.2.2, ⟨⟨x.2.1.current.runQueue.queue.keyVal.baseDir, asFilenameStr x.1.1, content⟩, .noLock⟩, x.1.2.1, x.1.2.2⟩

/-- **The first minimum is the documented choice.** -/
theorem best_of_argmin (hload : data.LoadedFrom qs d)
    {x : (TimeKey × BenchmarkingJob × Priority) × RunQueueDataWithNext × Option DateTimeRange}
    (hx : ((waitingAt tz t data).argmin fun x => x.1.2.2.neg) = some x) (content : Option FileContent) :
    data.Best tz qs t (choiceOf x content) x.1.1 := by
  obtain ⟨hmem, -, hwaits⟩ := waits_of_mem_waitingAt hload (List.argmin_mem hx)
  refine ⟨hwaits, ⟨rfl, rfl, rfl⟩, ?_, ?_, ?_⟩
  · have hnexts : (withNexts data.pipelineData).map RunQueueDataWithNext.runQueueWithNext = qs.runQueueWithNexts := by
      rw [map_runQueueWithNext_withNexts, hload.map_runQueue]
      rfl
    rw [← hnexts]
    exact List.mem_map_of_mem hmem
  · intro q window key job priority h
    obtain ⟨rq, -, hrq⟩ := h.mem_waitingAt hload
    have hle := List.le_of_mem_argmin hrq (Option.mem_def.2 hx)
    exact Priority.neg_le_neg_iff.1 hle
  · intro q window key job h
    obtain ⟨rq, rfl, hrq⟩ := h.mem_waitingAt hload
    rcases rel_of_argmin (pairwise_waitingAt hload) hx hrq rfl with hself | hearlier | ⟨hsame, hle⟩
    · obtain ⟨hentry, hqueue⟩ := Prod.mk.inj hself
      have hkey : key = x.1.1 := (congrArg Prod.fst hentry)
      have hrq' : (choiceOf x content).queue.current.runQueue = rq.current.runQueue := by
        rw [choiceOf, ← hself]
      rw [hrq', hkey]
      exact ⟨fun h => not_earlier h h, fun _ => lt_irrefl _⟩
    · exact ⟨fun h => not_earlier hearlier h, fun he => absurd hearlier (he ▸ fun h => not_earlier h h)⟩
    · refine ⟨fun h => ?_, fun _ => not_lt.2 hle⟩
      rw [show (choiceOf x content).queue.current.runQueue = rq.current.runQueue from hsame] at h
      exact not_earlier h h

end Loaded

/-! ### The call -/

/-- Getting an item without locking it. -/
theorem run_getItem (queue : Queue BenchmarkingJob) (key : TimeKey) (pid : Pid) (w : EvoWorld) :
    (Evo.ofKeyVal (queue.getItem key pickOpts)).run (machine pid) w = some (match w.event.fault with
      | some errno => .err (.keyVal (.io queue.keyVal.baseDir (appendPath queue.keyVal.baseDir (asFilenameStr key))
          "opening value file" (.other errno)))
      | none => .ok ((w.disk.entries (queue.slot key)).map fun content =>
          ⟨⟨queue.keyVal.baseDir, asFilenameStr key, content⟩, .noLock⟩), w.next w.disk) := by
  have hslot : w.disk.entries (queue.slot key) = w.disk.file queue.keyVal.baseDir (asFilenameStr key) :=
    Disk.entries_eq_file (isTmp_asFilenameStr key)
  rw [hslot]
  simp only [Evo.ofKeyVal, Queue.getItem, KeyVal.entryOpt, if_pos (verified_asFilenameStr key)]
  cases hfault : w.event.fault with
  | some errno =>
    simp only [Sys.openFile, Prog.op_bind, Prog.attempt, Prog.run, Prog.mapErr, machine, act, failing, hfault]
    rfl
  | none =>
    cases hfile : w.disk.file queue.keyVal.baseDir (asFilenameStr key) with
    | none =>
      simp only [Sys.openFile, Prog.op_bind, Prog.attempt, Prog.run, Prog.mapErr, machine, act, failing, hfault, hfile]
      rfl
    | some content =>
      simp only [Sys.openFile, Prog.op_bind, Prog.attempt, Prog.run, Prog.mapErr, machine, act, failing, hfault, hfile]
      rfl

section Calls

variable {tz : LocalTz} {t : DateTime} {qs : RunQueues} {d : Disk FileContent} {data : RunQueuesData} {w : EvoWorld}

/-- What is loaded is there. -/
theorem LoadedFrom.kept (h : data.LoadedFrom qs d) : data.Kept d.entries := by
  intro qd hqd entry hentry
  obtain ⟨q, -, rfl, kvs, hkvs, hdata⟩ := exists_of_forall₂ h.pipeline hqd
  obtain ⟨kv, hkv, hitem⟩ := exists_of_forall₂ hdata hentry
  rw [(RunQueue.eq_of_itemData hitem).1]
  have hget := Queue.get?_of_mem_contents hkvs hkv
  intro hnone
  rw [Queue.get?, KeyVal.get?, show d.entries (qd.runQueue.queue.keyVal.slot kv.1) = none from hnone] at hget
  cases hget

theorem forall_withNexts (h : data.LoadedFrom qs d) (P : RunQueue → Prop) :
    (∀ rq ∈ withNexts data.pipelineData, P rq.current.runQueue) ↔ ∀ q ∈ qs.pipeline, P q := by
  rw [← map_runQueue_withNexts h, List.forall_mem_map]

/-- The call when it can not be told which queues are runnable. -/
theorem run_mostPrioritizedJob_of_not_fitsAt (hload : data.LoadedFrom qs d) (pid : Pid)
    (hfits : ¬ ∀ q ∈ qs.pipeline, q.scheduleCondition.FitsAt tz t) :
    (data.mostPrioritizedJob tz t).run (machine pid) w = some (.panic "fitting range", w) := by
  have hloaded := mt (forall_withNexts hload fun q => q.scheduleCondition.FitsAt tz t).1 hfits
  rw [mostPrioritizedJob, activeQueues_of_not_fitsAt hloaded]
  rfl

/-- The call otherwise: only the entry of the chosen job is opened. -/
theorem run_mostPrioritizedJob_of_fitsAt (hload : data.LoadedFrom qs d) (pid : Pid)
    (hfits : ∀ q ∈ qs.pipeline, q.scheduleCondition.FitsAt tz t) :
    (data.mostPrioritizedJob tz t).run (machine pid) w =
      match (waitingAt tz t data).argmin fun x => x.1.2.2.neg with
      | none => some (.ok none, w)
      | some x => some (match w.event.fault with
        | some errno => .err (.keyVal (.io x.2.1.current.runQueue.queue.keyVal.baseDir
            (appendPath x.2.1.current.runQueue.queue.keyVal.baseDir (asFilenameStr x.1.1)) "opening value file"
            (.other errno)))
        | none => .ok ((w.disk.entries (x.2.1.current.runQueue.slot x.1.1)).map (choiceOf x)), w.next w.disk) := by
  have hloaded := (forall_withNexts hload fun q => q.scheduleCondition.FitsAt tz t).2 hfits
  rw [mostPrioritizedJob, activeQueues_of_fitsAt hloaded, Prog.ofOutcome, Prog.ret_bind, argmin_firstJobs, waitingAt]
  cases (waiting (runnableQueues tz t (withNexts data.pipelineData))).argmin fun x => x.1.2.2.neg with
  | none => rfl
  | some x =>
    obtain ⟨⟨key, job, priority⟩, rq, dtr⟩ := x
    dsimp only
    rw [Prog.run_bind, run_getItem]
    cases w.event.fault with
    | some errno => rfl
    | none =>
      dsimp only [Option.bind_some]
      rw [RunQueue.slot]
      cases w.disk.entries (rq.current.runQueue.queue.slot key) with
      | none => rfl
      | some content => rfl

/-- **The scheduling choice**: `most_prioritized_job` ends, and it ends as documented if and only if it can be told of
every queue of the pipeline if it is runnable. -/
theorem picked_iff (pid : Pid) (hload : data.LoadedFrom qs d) (hkept : data.Kept w.disk.entries) :
    ∃ r w', (data.mostPrioritizedJob tz t).run (machine pid) w = some (r, w') ∧
      (data.Picked tz qs t w.event.fault r ↔ ∀ q ∈ qs.pipeline, q.scheduleCondition.FitsAt tz t) := by
  by_cases hfits : ∀ q ∈ qs.pipeline, q.scheduleCondition.FitsAt tz t
  · have hrun := run_mostPrioritizedJob_of_fitsAt (w := w) hload pid hfits
    cases hbest : (waitingAt tz t data).argmin fun x => x.1.2.2.neg with
    | none =>
      rw [hbest] at hrun
      refine ⟨_, _, hrun, fun _ => hfits, fun _ q window key job priority h => ?_⟩
      obtain ⟨rq, -, hmem⟩ := h.mem_waitingAt hload
      rw [List.argmin_eq_none] at hbest
      rw [hbest] at hmem
      cases hmem
    | some x =>
      rw [hbest] at hrun
      refine ⟨_, _, hrun, fun _ => hfits, fun _ => ?_⟩
      obtain ⟨hmem, hentry, hwaits⟩ := waits_of_mem_waitingAt hload (List.argmin_mem hbest)
      cases hfault : w.event.fault with
      | some errno => exact ⟨by simp, _, _, _, _, _, hwaits⟩
      | none =>
        cases hfile : w.disk.entries (x.2.1.current.runQueue.slot x.1.1) with
        | none => exact absurd hfile (hkept _ (current_mem_withNexts hmem) _ hentry)
        | some content => exact ⟨x.1.1, best_of_argmin hload hbest content⟩
  · exact ⟨_, _, run_mostPrioritizedJob_of_not_fitsAt hload pid hfits, fun h => h.elim, fun h => absurd h hfits⟩

end Calls

/-! ### Two configurations -/

/-- A queue for the night, and two others. -/
def rankedQueues : RunQueues where
  config := ⟨[(nightName, .localNaiveTimeWindow (some (.num 0)) nightName none false false ⟨0, 0, 1⟩ ⟨0, 0, 3⟩),
    (nowName, .immediately dayName), (lateName, .immediately dayName)], none, none⟩
  basedir := "queues"
  checked := by decide +kernel

/-- The ids and priorities of the jobs in them. -/
def rankedJobs : List (List (UInt64 × ℚ)) := [[(0, 1)], [(1, -1), (2, 0), (3, 0)], [(0, 0)]]

/-- A job as it is loaded. -/
def ranked (job : UInt64 × ℚ) : TimeKey × BenchmarkingJob × Priority :=
  (⟨0, 1, job.1⟩, { sampleJob with priority := .num job.2 }, .num job.2)

/-- A queue that is loaded. -/
def rankedQueue (q : RunQueue × List (UInt64 × ℚ)) : RunQueueData := ⟨q.1, q.2.map ranked⟩

/-- What is loaded. -/
def rankedData : RunQueuesData where
  runQueues := rankedQueues
  pipelineData := (rankedQueues.pipeline.zip rankedJobs).map rankedQueue
  jobsByCommitId := ∅

/-- The directory of a queue. -/
def rankedDir (q : RunQueue × List (UInt64 × ℚ)) : Dir FileContent :=
  (q.2.map fun job => (⟨AsKey.asFilenameStr (ranked job).1, some (.job (ranked job).2.1)⟩ :
    (_ : String) × Option FileContent)).toAList

/-- The jobs are in the files. -/
def rankedWorld : EvoWorld :=
  { sampleEmpty with
    disk := fun dir =>
      (((rankedQueues.pipeline.zip rankedJobs).find? fun q => q.1.queue.keyVal.baseDir = dir).map rankedDir).getD ∅ }

theorem itemData_ranked {q : RunQueue} (hq : q.scheduleCondition.priority = some (.num 0)) (d : Disk FileContent)
    (job : UInt64 × ℚ) : q.itemData (q.queue.itemOf d (ranked job).1) (ranked job).2.1 = .ok (ranked job) := by
  have hadd : (Priority.num job.2).add (.num 0) = .ok (.num job.2) := by rw [Priority.add, add_zero]
  have htotal : (ranked job).2.1.totalPriority = .ok (.num job.2) := hadd
  rw [RunQueue.itemData, hq]
  simp only [htotal, Except.mapError, Outcome.ofExcept, Outcome.ok_bind, hadd, Queue.itemOf_key]
  rfl

theorem rankedData_loadedFrom : rankedData.LoadedFrom rankedQueues rankedWorld.disk := by
  have hcontents : ∀ q ∈ rankedQueues.pipeline.zip rankedJobs, q.1.scheduleCondition.priority = some (.num 0) ∧
      q.1.queue.contents rankedWorld.disk = some (q.2.map fun job => ((ranked job).1, (ranked job).2.1)) := by
    decide +kernel
  have hpipeline : rankedQueues.pipeline = (rankedQueues.pipeline.zip rankedJobs).map Prod.fst := by decide +kernel
  refine ⟨rfl, ?_⟩
  rw [hpipeline]
  refine List.forall₂_map_left_iff.2 (List.forall₂_map_right_iff.2 (List.forall₂_same.2 fun q hq => ?_))
  obtain ⟨hpriority, hcontent⟩ := hcontents q hq
  refine ⟨rfl, _, hcontent, List.forall₂_map_left_iff.2 (List.forall₂_map_right_iff.2 (List.forall₂_same.2 fun job _ => ?_))⟩
  exact itemData_ranked hpriority _ job

/-- The entry that is picked. -/
def pickedEntry (run : Option (Outcome Error (Option Choice) × EvoWorld)) : Option (String × String) :=
  match run with
  | some (.ok (some choice), _) => some (choice.item.entry.baseDir, choice.item.entry.fileName)
  | _ => none

/-- Outside of the window of the night, one of the jobs with the priority 0 is picked: the older one in the first of the two
other queues. -/
theorem picked_iff_sample : ∃ choice w',
    (rankedData.mostPrioritizedJob sampleTz 0).run (machine 5) rankedWorld = some (.ok (some choice), w') ∧
    rankedData.Picked sampleTz rankedQueues 0 none (.ok (some choice)) ∧
    (choice.item.entry.baseDir, choice.item.entry.fileName) = ("queues/now", "0-1-2") := by
  have hentry : pickedEntry ((rankedData.mostPrioritizedJob sampleTz 0).run (machine 5) rankedWorld) =
      some ("queues/now", "0-1-2") := by decide +kernel
  have hfits : ∀ q ∈ rankedQueues.pipeline, q.scheduleCondition.FitsAt sampleTz 0 := by
    have hwindow : (LocalNaiveTimeRange.mk ⟨0, 0, 1⟩ ⟨0, 0, 3⟩).FitsOn sampleTz 0 := ⟨by decide, .inl (by decide)⟩
    exact List.forall_mem_cons.2 ⟨hwindow, List.forall_mem_cons.2 ⟨trivial, List.forall_mem_cons.2 ⟨trivial, nofun⟩⟩⟩
  have hpick : ∃ r w', (rankedData.mostPrioritizedJob sampleTz 0).run (machine 5) rankedWorld = some (r, w') ∧
      (rankedData.Picked sampleTz rankedQueues 0 none r ↔ ∀ q ∈ rankedQueues.pipeline, q.scheduleCondition.FitsAt sampleTz 0) :=
    picked_iff 5 rankedData_loadedFrom rankedData_loadedFrom.kept
  obtain ⟨r, w', hrun, hiff⟩ := hpick
  have hpicked := hiff.2 hfits
  rw [hrun] at hentry
  rcases r with (_ | choice) | _ | _
  · cases hentry
  · exact ⟨choice, w', hrun, hpicked, Option.some.inj hentry⟩
  · cases hentry
  · cases hentry
/-- A queue whose jobs are run until the end of a day with a leap second. -/
def leapQueues : RunQueues where
  config := ⟨[(nightName,
    .localNaiveTimeWindow none nightName none false false ⟨22, 0, 0⟩ ⟨23, 59, 60⟩)], none, none⟩
  basedir := "queues"
  checked := by decide +kernel

/-- The data of that configuration when nothing is queued. -/
def leapData : RunQueuesData where
  runQueues := leapQueues
  pipelineData := [⟨makeRunQueue "queues" (nightName,
    .localNaiveTimeWindow none nightName none false false ⟨22, 0, 0⟩ ⟨23, 59, 60⟩), []⟩]
  jobsByCommitId := ∅

/-- With that queue no choice is made, but there is a panic. -/
theorem picked_leap_second :
    ¬ ∀ (tz : LocalTz) (t : DateTime) (qs : RunQueues) (d : Disk FileContent) (data : RunQueuesData) (w : EvoWorld) (pid : Pid),
      data.LoadedFrom qs d → data.Kept w.disk.entries →
      ∃ r w', (data.mostPrioritizedJob tz t).run (machine pid) w = some (r, w') ∧
        data.Picked tz qs t w.event.fault r := by
  intro hall
  have hload : leapData.LoadedFrom leapQueues sampleEmpty.disk :=
    ⟨rfl, .cons ⟨rfl, [], by decide +kernel, .nil⟩ .nil⟩
  obtain ⟨r, w', hrun, hpicked⟩ := hall ⟨fun _ => 0, fun _ _ => .single 0⟩ 0 leapQueues _ leapData sampleEmpty 5 hload hload.kept
  have hpanic : (leapData.mostPrioritizedJob ⟨fun _ => 0, fun _ _ => .single 0⟩ 0).run (machine 5) sampleEmpty =
      some (.panic "fitting range", sampleEmpty) := rfl
  obtain ⟨rfl, rfl⟩ := Prod.mk.inj (Option.some.inj (hpanic.symm.trans hrun))
  exact hpicked

end RunQueuesData

/-! ### The choice in an iteration -/

/-- What an iteration of the loop loads and picks. -/
theorem best_of_pickNext {tz : LocalTz} {qs : RunQueues} {pid : Pid} {w w₁ : EvoWorld} {data : RunQueuesData}
    {timestamp : SystemTime} {choice : Choice}
    (hrun : (pickNext tz qs).run (machine pid) w = some (.ok (data, timestamp, some choice), w₁)) :
    data.LoadedFrom qs w.disk ∧ ∃ key, data.Best tz qs timestamp.nanos choice key := by
  obtain ⟨data', w₂, hdata, hrun⟩ := Prog.run_bind_eq_ok.1 hrun
  obtain ⟨-, hqueues, -, hloaded⟩ := ((Prog.holds_iff _).1 qs.safe_data).2 _ _ hdata
  have hload : data'.LoadedFrom qs w.disk := ⟨hqueues, hloaded⟩
  obtain ⟨timestamp', w₃, -, hrun⟩ := Prog.run_bind_eq_ok.1 hrun
  obtain ⟨job, w₄, hjob, hrun⟩ := Prog.run_bind_eq_ok.1 hrun
  obtain ⟨he, -⟩ := Prod.mk.inj (Option.some.inj hrun)
  obtain ⟨rfl, rfl, rfl⟩ : data' = data ∧ timestamp' = timestamp ∧ job = some choice := by simpa using he
  refine ⟨hload, ?_⟩
  by_cases hfits : ∀ q ∈ qs.pipeline, q.scheduleCondition.FitsAt tz timestamp'.nanos
  · rw [RunQueuesData.run_mostPrioritizedJob_of_fitsAt hload pid hfits] at hjob
    cases hbest : (RunQueuesData.waitingAt tz timestamp'.nanos data').argmin fun x => x.1.2.2.neg with
    | none =>
      rw [hbest] at hjob
      cases hjob
    | some x =>
      rw [hbest] at hjob
      obtain ⟨hr, -⟩ := Prod.mk.inj (Option.some.inj hjob)
      cases hfault : w₃.event.fault with
      | some errno =>
        rw [hfault] at hr
        cases hr
      | none =>
        rw [hfault, Outcome.ok.injEq] at hr
        obtain ⟨content, -, rfl⟩ := Option.map_eq_some_iff.1 hr
        exact ⟨x.1.1, RunQueuesData.best_of_argmin hload hbest content⟩
  · rw [RunQueuesData.run_mostPrioritizedJob_of_not_fitsAt hload pid hfits] at hjob
    cases hjob

end Evobench.Run

import Evobench.Run.PoolAllocation

/-!
# Which directory is taken over

If the pool is full and all its directories are wanted for other commits, `get_a_working_directory_for` takes the one whose
`last_use` lies furthest back. The field is set when a directory is made, and when the pool is opened, from the modification
time of the status file; a job that runs in the directory writes the file and leaves the field.

## The model

* `PoolHistory`: the pool, the modification times, and when each directory was really used.
* `HistoryStep`, `HistoryRun`: what a daemon does with the pool, at increasing times.

## What is proved

* `inOrder_of_run`: over all runs `last_use` is never later than the real last use.
* `takeover_least_recently_used_iff`: when the directory that is taken over is the least recently used one.

## Honest scope

A step takes no time. Status files are written by the daemon only, not by somebody who marks a directory, and nobody deletes
them: a directory without one, which gets the time of the opening as its `last_use` and a new file, is there only if `clone_repo`
was interrupted before its first save. `HistoryStep.open_` leaves this case out, as nothing says when such a directory was made.
-/

namespace Evobench.Run

open Library IoUtils

/-! ### Uses of a directory -/

/-- What is done with a directory while a job is run in it. -/
inductive DirectoryOp where
  /-- `set_and_save_status`, and whether the file could be saved -/
  | setAndSaveStatus (status : Status) (saved : Bool)
  /-- The directory is at the commit: what `commit` and `checkout` enter. -/
  | setCommit (commit : GitHash)

namespace PooledDirectory

/-- The effect on the pool's entry. -/
def apply (dir : PooledDirectory) : DirectoryOp → PooledDirectory
  | .setAndSaveStatus status saved =>
    { dir with
      toWorkingDirectory :=
        { dir.toWorkingDirectory.setStatus status with statusNeedsSaving := dir.statusNeedsSaving && !saved } }
  | .setCommit commit => { dir with commit := some commit }

/-- No use of a directory changes `last_use`. -/
theorem lastUse_foldl_apply (ops : List DirectoryOp) (dir : PooledDirectory) :
    (ops.foldl apply dir).lastUse = dir.lastUse := by
  induction ops generalizing dir with
  | nil => rfl
  | cons op ops ih =>
    rw [List.foldl_cons, ih]
    cases op with
    | setAndSaveStatus status saved => rfl
    | setCommit commit => rfl

end PooledDirectory

/-- `delete_working_directory`, in memory -/
def WorkingDirectoryPool.remove (p : WorkingDirectoryPool) (id : WorkingDirectoryId) : WorkingDirectoryPool where
  capacity := p.capacity
  nextId := p.nextId
  allEntries := p.allEntries.erase id
  below e he := p.below e (SortedMap.mem_erase.1 he).1

/-! ### Runs of a daemon -/

/-- A pool and what has happened to its directories. -/
structure PoolHistory where
  /-- The pool. -/
  pool : WorkingDirectoryPool
  /-- The modification times of the status files. -/
  mtime : WorkingDirectoryId → SystemTime
  /-- When a job was run in a directory for the last time, or when it was made. -/
  used : WorkingDirectoryId → SystemTime
  /-- The time of the last step. -/
  now : SystemTime

/-- The times, with that of a directory that has been made in a call. -/
def withMade (p p' : WorkingDirectoryPool) (now : SystemTime) (times : WorkingDirectoryId → SystemTime) :
    WorkingDirectoryId → SystemTime :=
  if p'.nextId = p.nextId then times else Function.update times p.nextId now

/-- A step of a daemon at time `now`. -/
inductive HistoryStep (now : SystemTime) : PoolHistory → PoolHistory → Prop where
  /-- A directory is chosen, which is made now if it is a new one. -/
  | choose {h : PoolHistory} {call : PoolCall} {result : Except CallError WorkingDirectoryId} {p' : WorkingDirectoryPool}
    (hmade : ∀ fileName made, call.cloneRepo fileName = .ok made → made.2 = now) (hcall : call.run h.pool = .ok (result, p')) :
    HistoryStep now h ⟨p', withMade h.pool p' now h.mtime, withMade h.pool p' now h.used, now⟩
  /-- A job is run in a directory. -/
  | job {h : PoolHistory} {id : WorkingDirectoryId} {dir : PooledDirectory} (saved : Bool) (ops : List DirectoryOp)
    (hdir : (id, dir) ∈ h.pool.activeEntries) :
    HistoryStep now h ⟨h.pool.enter id (ops.foldl .apply dir) (h.pool.below _ (List.mem_of_mem_filter hdir)),
      if saved then Function.update h.mtime id now else h.mtime, Function.update h.used id now, now⟩
  /-- A directory is deleted. -/
  | delete {h : PoolHistory} (id : WorkingDirectoryId) : HistoryStep now h ⟨h.pool.remove id, h.mtime, h.used, now⟩
  /-- The pool is opened, again or by a new daemon. -/
  | open_ {h : PoolHistory} {p' : WorkingDirectoryPool} (hcapacity : p'.capacity = h.pool.capacity)
    (hlast : ∀ e ∈ p'.allEntries.entries, e.2.lastUse = h.mtime e.1) : HistoryStep now h ⟨p', h.mtime, h.used, now⟩

/-- The steps of daemons, at increasing times. -/
inductive HistoryRun : PoolHistory → PoolHistory → Prop where
  /-- No step. -/
  | nil (h : PoolHistory) : HistoryRun h h
  /-- One more step. -/
  | step {h₀ h h' : PoolHistory} {now : SystemTime} (hrun : HistoryRun h₀ h) (hnow : h.now.nanos < now.nanos)
    (hstep : HistoryStep now h h') : HistoryRun h₀ h'

namespace PoolHistory

/-- Before there is any directory. -/
structure Start (h : PoolHistory) : Prop where
  /-- There is none. -/
  entries : h.pool.allEntries.entries = []
  /-- Nothing was written or used. -/
  times : ∀ id, h.mtime id = h.now ∧ h.used id = h.now

/-- Nothing is taken for later than it was. -/
structure InOrder (h : PoolHistory) : Prop where
  /-- A status file is written by a use. -/
  mtime_le : ∀ id, (h.mtime id).nanos ≤ (h.used id).nanos
  /-- A use is in the past. -/
  used_le : ∀ id, (h.used id).nanos ≤ h.now.nanos
  /-- `last_use` is not later than the last use. -/
  lastUse_le : ∀ e ∈ h.pool.allEntries.entries, e.2.lastUse.nanos ≤ (h.used e.1).nanos

/-- A job was run in the directory since its `last_use`. -/
def Stale (h : PoolHistory) (e : WorkingDirectoryId × PooledDirectory) : Prop :=
  e.2.lastUse.nanos < (h.used e.1).nanos

/-- The search for the smallest `last_use` prefers `e` to `d`. -/
def Before (e d : WorkingDirectoryId × PooledDirectory) : Prop :=
  e.2.lastUse.nanos < d.2.lastUse.nanos ∨ e.2.lastUse.nanos = d.2.lastUse.nanos ∧ e.1 < d.1

/-- The directory is the one that was used the longest time ago. -/
def LeastRecentlyUsed (h : PoolHistory) (id : WorkingDirectoryId) : Prop :=
  ∀ e ∈ h.pool.activeEntries, (h.used id).nanos ≤ (h.used e.1).nanos

/-- A directory in which a job was run since its `last_use` does not come first, unless it is the one to be taken. -/
def StaleNotFirst (h : PoolHistory) : Prop :=
  ∀ d ∈ h.pool.activeEntries, h.Stale d → (∃ e ∈ h.pool.activeEntries, Before e d) ∨ h.LeastRecentlyUsed d.1

end PoolHistory

/-! ### The invariant -/

namespace PoolCall

variable {call : PoolCall} {p p' : WorkingDirectoryPool} {result : Except CallError WorkingDirectoryId}

/-- An entry of the initialized pool is one of the pool's, with the same `last_use`. -/
theorem exists_lastUse_of_initialized {e : WorkingDirectoryId × PooledDirectory}
    (h : e ∈ (p.initialized call.noncachedCommit).allEntries.entries) :
    ∃ e' ∈ p.allEntries.entries, e'.1 = e.1 ∧ e'.2.lastUse = e.2.lastUse := by
  have hview : WorkingDirectoryPool.view call.noncachedCommit e ∈
      (WorkingDirectoryPool.initCommits call.noncachedCommit p.allEntries.entries).2.map
        (WorkingDirectoryPool.view call.noncachedCommit) := List.mem_map_of_mem h
  rw [WorkingDirectoryPool.view_initCommits] at hview
  obtain ⟨e', he', hsame⟩ := List.mem_map.1 hview
  refine ⟨e', he', (WorkingDirectoryPool.eq_of_view hsame).1, ?_⟩
  show (WorkingDirectoryPool.view call.noncachedCommit e').2.1.lastUse = _
  rw [hsame]
  rfl

/-- **What a call does with `last_use`**: nothing, but for a directory that it makes. -/
theorem lastUse_of_run (h : call.run p = .ok (result, p')) {e : WorkingDirectoryId × PooledDirectory}
    (he : e ∈ p'.allEntries.entries) :
    (∃ e' ∈ p.allEntries.entries, e'.1 = e.1 ∧ e'.2.lastUse = e.2.lastUse) ∨
      e.1 = p.nextId ∧ p'.nextId ≠ p.nextId ∧ ∃ fileName made, call.cloneRepo fileName = .ok made ∧ e.2.lastUse = made.2 := by
  cases WorkingDirectoryPool.chosen_of_getAWorkingDirectoryFor h with
  | unreadable hinit => exact .inl (exists_lastUse_of_initialized he)
  | same hinit hmem hcommit => exact .inl (exists_lastUse_of_initialized he)
  | obsolete hinit hnone hmem hcommit hunwanted => exact .inl (exists_lastUse_of_initialized he)
  | leastRecentlyUsed hinit hnone hwanted hfull hmem => exact .inl (exists_lastUse_of_initialized he)
  | new hinit hnone hwanted hroom hnew =>
    obtain ⟨-, hlt, ⟨error, -, -, hentries⟩ | ⟨made, hclone, -, hentries⟩⟩ := WorkingDirectoryPool.getNew_spec hnew
    · rw [hentries] at he
      exact .inl (exists_lastUse_of_initialized he)
    · rw [hentries] at he
      rcases SortedMap.mem_insert.1 he with rfl | ⟨he, -⟩
      · exact .inr ⟨rfl, ne_of_gt hlt, _, made, hclone, rfl⟩
      · exact .inl (exists_lastUse_of_initialized he)

end PoolCall

namespace PoolHistory

variable {h₀ h h' : PoolHistory} {now : SystemTime}

theorem inOrder_of_start (hstart : h.Start) : h.InOrder where
  mtime_le id := by
    obtain ⟨hmtime, hused⟩ := hstart.times id
    rw [hmtime, hused]
  used_le id := by
    obtain ⟨-, hused⟩ := hstart.times id
    rw [hused]
  lastUse_le e he := by
    rw [hstart.entries] at he
    cases he

/-- A time that is set to now stays in the past, and no time goes back. -/
theorem le_withMade {p p' : WorkingDirectoryPool} {times : WorkingDirectoryId → SystemTime} {id : WorkingDirectoryId}
    (hpast : (times id).nanos ≤ now.nanos) :
    (times id).nanos ≤ (withMade p p' now times id).nanos ∧ (withMade p p' now times id).nanos ≤ now.nanos := by
  rw [withMade]
  split
  · exact ⟨le_rfl, hpast⟩
  · rw [Function.update_apply]
    split
    · exact ⟨hpast, le_rfl⟩
    · exact ⟨le_rfl, hpast⟩

theorem le_update {times : WorkingDirectoryId → SystemTime} {id id' : WorkingDirectoryId}
    (hpast : (times id').nanos ≤ now.nanos) :
    (times id').nanos ≤ (Function.update times id now id').nanos ∧ (Function.update times id now id').nanos ≤ now.nanos := by
  rw [Function.update_apply]
  split
  · exact ⟨hpast, le_rfl⟩
  · exact ⟨le_rfl, hpast⟩

/-- **One step** keeps the order. -/
theorem inOrder_of_step (hin : h.InOrder) (hnow : h.now.nanos < now.nanos) (hstep : HistoryStep now h h') : h'.InOrder := by
  have hpast : ∀ id, (h.used id).nanos ≤ now.nanos := fun id => (hin.used_le id).trans hnow.le
  cases hstep with
  | @choose call result p' hmade hcall =>
    refine ⟨fun id => ?_, fun id => (le_withMade (hpast id)).2, fun e he => ?_⟩
    · show (withMade h.pool p' now h.mtime id).nanos ≤ (withMade h.pool p' now h.used id).nanos
      rw [withMade, withMade]
      split
      · exact hin.mtime_le id
      · rw [Function.update_apply, Function.update_apply]
        split
        · exact le_rfl
        · exact hin.mtime_le id
    · show e.2.lastUse.nanos ≤ (withMade h.pool p' now h.used e.1).nanos
      rcases PoolCall.lastUse_of_run hcall he with ⟨e', he', hid, hlast⟩ | ⟨hid, hne, fileName, made, hclone, hlast⟩
      · have hle := hin.lastUse_le e' he'
        rw [hid, hlast] at hle
        exact hle.trans (le_withMade (hpast e.1)).1
      · rw [withMade, if_neg hne, hid, Function.update_self, hlast, hmade _ _ hclone]
  | @job id dir saved ops hdir =>
    refine ⟨fun id' => ?_, fun id' => (le_update (hpast id')).2, fun e he => ?_⟩
    · show (ite (saved = true) (Function.update h.mtime id now) h.mtime id').nanos ≤ (Function.update h.used id now id').nanos
      split
      · rw [Function.update_apply, Function.update_apply]
        split
        · exact le_rfl
        · exact hin.mtime_le id'
      · exact (hin.mtime_le id').trans (le_update (hpast id')).1
    · show e.2.lastUse.nanos ≤ (Function.update h.used id now e.1).nanos
      rcases SortedMap.mem_insert.1 he with rfl | ⟨he, -⟩
      · have hle := hin.lastUse_le _ (List.mem_of_mem_filter hdir)
        rw [PooledDirectory.lastUse_foldl_apply]
        exact hle.trans (le_update (hpast id)).1
      · exact (hin.lastUse_le e he).trans (le_update (hpast e.1)).1
  | delete id =>
    exact ⟨hin.mtime_le, hpast, fun e he => hin.lastUse_le e (SortedMap.mem_erase.1 he).1⟩
  | open_ hcapacity hlast =>
    refine ⟨hin.mtime_le, hpast, fun e he => ?_⟩
    rw [hlast e he]
    exact hin.mtime_le e.1

/-- **All runs** keep the order. -/
theorem inOrder_of_run (hstart : h₀.Start) (hrun : HistoryRun h₀ h) : h.InOrder := by
  induction hrun with
  | nil => exact inOrder_of_start hstart
  | step _ hnow hstep ih => exact inOrder_of_step ih hnow hstep

/-! ### The choice -/

/-- The first directory with the smallest `last_use` is the one that no other comes before. -/
theorem argmin_lastUse {p : WorkingDirectoryPool} {d : WorkingDirectoryId × PooledDirectory}
    (h : (p.activeEntries.argmin fun e => e.2.lastUse) = some d) :
    d ∈ p.activeEntries ∧ (∀ e ∈ p.activeEntries, d.2.lastUse.nanos ≤ e.2.lastUse.nanos) ∧
      ∀ e ∈ p.activeEntries, e = d ∨ Before d e := by
  have hsorted : p.activeEntries.Pairwise fun a b => a.1 < b.1 := p.allEntries.sorted.filter _
  have hle : ∀ e ∈ p.activeEntries, d.2.lastUse.nanos ≤ e.2.lastUse.nanos := by
    intro e he
    let lastUse (e : WorkingDirectoryId × PooledDirectory) : SystemTime := e.2.lastUse
    have hmin : lastUse d ≤ lastUse e := List.le_of_mem_argmin he h
    exact hmin
  refine ⟨List.argmin_mem h, hle, fun e he => ?_⟩
  rcases (hle e he).lt_or_eq with hlt | heq
  · exact .inr (.inl hlt)
  · rcases rel_of_argmin hsorted h he (nanos_injective heq.symm) with rfl | hid
    · exact .inl rfl
    · exact .inr (.inr ⟨heq, hid⟩)

theorem not_before {e d : WorkingDirectoryId × PooledDirectory} (h : Before e d) : ¬ (e = d ∨ Before d e) := by
  rintro (rfl | h')
  · rcases h with h | ⟨-, h⟩
    · exact lt_irrefl _ h
    · exact lt_irrefl _ h
  · rcases h with h | ⟨heq, h⟩
    · rcases h' with h' | ⟨heq', -⟩
      · exact lt_asymm h h'
      · exact absurd heq' (ne_of_gt h)
    · rcases h' with h' | ⟨-, h'⟩
      · exact absurd heq (ne_of_gt h')
      · exact lt_asymm h h'

/-- Initializing the commits does not change which directory has the smallest `last_use`. -/
theorem argmin_of_initialized {p : WorkingDirectoryPool} {noncachedCommit : WorkingDirectoryId → Except CallError GitHash}
    {e : WorkingDirectoryId × PooledDirectory}
    (h : ((p.initialized noncachedCommit).activeEntries.argmin fun e => e.2.lastUse) = some e) :
    ∃ d, (p.activeEntries.argmin fun e => e.2.lastUse) = some d ∧ d.1 = e.1 := by
  let lastUse (v : WorkingDirectoryId × PooledDirectory × Except CallError GitHash) : SystemTime := v.2.1.lastUse
  have hmap : ∀ l : List (WorkingDirectoryId × PooledDirectory),
      (l.map (WorkingDirectoryPool.view noncachedCommit)).argmin lastUse =
        (l.argmin fun e => e.2.lastUse).map (WorkingDirectoryPool.view noncachedCommit) :=
    fun l => argmin_map (f := lastUse) (WorkingDirectoryPool.view noncachedCommit) l
  have hview := hmap (p.initialized noncachedCommit).activeEntries
  rw [WorkingDirectoryPool.view_activeEntries, hmap, h, Option.map_some] at hview
  obtain ⟨d, hd, hsame⟩ := Option.map_eq_some_iff.1 hview
  exact ⟨d, hd, (WorkingDirectoryPool.eq_of_view hsame).1⟩

/-- A directory is taken over: it is the first with the smallest `last_use`. -/
theorem argmin_of_takeover {call : PoolCall} {p p' : WorkingDirectoryPool} {id : WorkingDirectoryId}
    (hfull : p.cap ≤ p.activeLen) (helsewhere : ∀ e ∈ p.activeEntries, call.WantedElsewhere e)
    (hcall : call.run p = .ok (.ok id, p')) :
    ∃ d, (p.activeEntries.argmin fun e => e.2.lastUse) = some d ∧ d.1 = id := by
  have hcommit : ∀ e ∈ (p.initialized call.noncachedCommit).activeEntries, ∀ c, e.2.commit = some c →
      c ≠ call.commitId ∧ call.runQueuesData.Wanted c := by
    intro e he c hc
    obtain ⟨e', he', hview⟩ := WorkingDirectoryPool.exists_of_mem_initialized he
    obtain ⟨-, hsame⟩ := WorkingDirectoryPool.eq_of_view hview
    obtain ⟨c', hc', hne, hwanted⟩ := helsewhere e' he'
    rw [hsame, WorkingDirectoryPool.commitOfDirectory_eq hc] at hc'
    obtain rfl := Except.ok.inj hc'
    exact ⟨hne, hwanted⟩
  generalize hresult : (Except.ok id : Except CallError WorkingDirectoryId) = result at hcall
  cases WorkingDirectoryPool.chosen_of_getAWorkingDirectoryFor hcall with
  | unreadable hinit => cases hresult
  | same hinit he hsame => exact absurd rfl (hcommit _ he _ hsame).1
  | obsolete hinit hnone he hc hunwanted =>
    rw [(RunQueuesData.haveJobWithCommitId_iff call.indexed).2 (hcommit _ he _ hc).2] at hunwanted
    cases hunwanted
  | new hinit hnone hwanted hroom hnew =>
    rw [WorkingDirectoryPool.activeLen_initialized] at hroom
    exact absurd hroom (not_lt.2 hfull)
  | leastRecentlyUsed hinit hnone hwanted hfull' he =>
    obtain ⟨d, hd, hid⟩ := argmin_of_initialized he
    exact ⟨d, hd, hid.trans (Except.ok.inj hresult).symm⟩

/-- After a job in a directory its `last_use` is behind. -/
theorem stale_of_job (hin : h.InOrder) (hnow : h.now.nanos < now.nanos) {id : WorkingDirectoryId} {dir : PooledDirectory}
    (hdir : (id, dir) ∈ h.pool.activeEntries) (ops : List DirectoryOp) :
    (ops.foldl PooledDirectory.apply dir).lastUse.nanos < (Function.update h.used id now id).nanos := by
  have hle := hin.lastUse_le _ (List.mem_of_mem_filter hdir)
  have hused := hin.used_le id
  rw [PooledDirectory.lastUse_foldl_apply, Function.update_self]
  dsimp only at hle
  omega

/-- **Which directory is taken over**: in every run, it is the least recently used one exactly if no directory in which a job
was run since its `last_use` comes first, unless that is the least recently used one. -/
theorem takeover_least_recently_used_iff (hstart : h₀.Start) (hrun : HistoryRun h₀ h) {call : PoolCall}
    {id : WorkingDirectoryId} {p' : WorkingDirectoryPool} (hfull : h.pool.cap ≤ h.pool.activeLen)
    (helsewhere : ∀ e ∈ h.pool.activeEntries, call.WantedElsewhere e) (hcall : call.run h.pool = .ok (.ok id, p')) :
    ((∃ dir, (id, dir) ∈ h.pool.activeEntries) ∧ h.LeastRecentlyUsed id) ↔ h.StaleNotFirst := by
  have hin := inOrder_of_run hstart hrun
  obtain ⟨d, hmin, rfl⟩ := argmin_of_takeover hfull helsewhere hcall
  obtain ⟨hd, hle, hbefore⟩ := argmin_lastUse hmin
  constructor
  · rintro ⟨-, hlru⟩ e he -
    rcases hbefore e he with rfl | hbefore
    · exact .inr hlru
    · exact .inl ⟨d, hd, hbefore⟩
  · intro hnot
    refine ⟨⟨d.2, hd⟩, ?_⟩
    by_cases hstale : h.Stale d
    · rcases hnot d hd hstale with ⟨e, he, hed⟩ | hlru
      · exact absurd (hbefore e he) (not_before hed)
      · exact hlru
    · intro e he
      have hlast := hin.lastUse_le e (List.mem_of_mem_filter he)
      exact (not_lt.1 hstale).trans ((hle e he).trans hlast)

end PoolHistory

/-! ### A pool with two directories -/

/-- A moment. -/
def moment (seconds : Fin 10) : SystemTime := ⟨seconds * 1000000000, by omega⟩

/-- A job for a commit. -/
def jobFor (commit : GitHash) : BenchmarkingJob :=
  { sampleJob with pub := { sampleJob.pub with runParameters := ⟨commit, []⟩ } }

/-- A queue with jobs for three commits. -/
def threeJobs : List RunQueueData :=
  [⟨makeRunQueue "queues" (parkedName, .inactive),
    [(sampleKey, jobFor ⟨0⟩, .num 0), (sampleKey, jobFor ⟨1⟩, .num 0), (sampleKey, jobFor ⟨2⟩, .num 0)]⟩]

/-- A request for one of the commits, which is also where a new clone is at. -/
def requestFor (commit : GitHash) (seconds : Fin 10) : PoolCall where
  runParameters := ⟨commit, []⟩
  runQueuesData := ⟨sampleQueues, threeJobs, RunQueuesData.indexJobs ∅ 0 threeJobs⟩
  indexed := rfl
  noncachedCommit _ := .error "git rev-parse HEAD"
  cloneRepo _ := .ok (commit, moment seconds)

/-- The pool with the first one. -/
def firstMade : WorkingDirectoryPool :=
  (roomForTwo.advance (by decide)).enter 0 (clonedDirectory ['0'] (⟨0⟩, moment 1)) (by decide)

/-- The pool with both. -/
def bothMade : WorkingDirectoryPool :=
  (firstMade.advance (by decide)).enter 1 (clonedDirectory ['1'] (⟨1⟩, moment 2)) (by decide)

/-- Before there are directories. -/
def emptyHistory : PoolHistory := ⟨roomForTwo, fun _ => moment 0, fun _ => moment 0, moment 0⟩

/-- When each directory was made. -/
def madeTimes : WorkingDirectoryId → SystemTime :=
  Function.update (Function.update (fun _ => moment 0) 0 (moment 1)) 1 (moment 2)

/-- The directories have been made one after the other. -/
def twoMade : PoolHistory := ⟨bothMade, madeTimes, madeTimes, moment 2⟩

theorem start_emptyHistory : emptyHistory.Start := ⟨rfl, fun _ => ⟨rfl, rfl⟩⟩

theorem twoMade_run : HistoryRun emptyHistory twoMade := by
  have hfirst : (requestFor ⟨0⟩ 1).run roomForTwo = .ok (.ok 0, firstMade) := rfl
  have hsecond : (requestFor ⟨1⟩ 2).run firstMade = .ok (.ok 1, bothMade) := rfl
  have hmade : ∀ commit seconds fileName made, (requestFor commit seconds).cloneRepo fileName = .ok made →
      made.2 = moment seconds := by
    rintro commit seconds fileName made ⟨⟩
    rfl
  exact .step (.step (.nil _) (by decide) (.choose (hmade _ 1) hfirst)) (by decide) (.choose (hmade _ 2) hsecond)

/-- Two directories with the first two commits are wanted when the third one is requested. -/
theorem wantedElsewhere_of_two {p : WorkingDirectoryPool} {a b : WorkingDirectoryId × PooledDirectory}
    (h : p.activeEntries = [a, b]) (ha : a.2.commit = some ⟨0⟩) (hb : b.2.commit = some ⟨1⟩) :
    ∀ e ∈ p.activeEntries, (requestFor ⟨2⟩ 4).WantedElsewhere e := by
  intro e he
  rw [h] at he
  rcases List.mem_pair.1 he with rfl | rfl
  · exact ⟨⟨0⟩, WorkingDirectoryPool.commitOfDirectory_eq ha, by decide, ((0, 0), jobFor ⟨0⟩), by decide, rfl⟩
  · exact ⟨⟨1⟩, WorkingDirectoryPool.commitOfDirectory_eq hb, by decide, ((0, 1), jobFor ⟨1⟩), by decide, rfl⟩

/-- The third request is for the commit that neither has. -/
theorem thirdRequest_run : ∃ p', (requestFor ⟨2⟩ 4).run bothMade = .ok (.ok 0, p') := ⟨_, rfl⟩

/-- Where no job was run, the first directory is taken over, and it is the least recently used one. -/
theorem takeover_least_recently_used_sample :
    ((∃ dir, (0, dir) ∈ twoMade.pool.activeEntries) ∧ twoMade.LeastRecentlyUsed 0) ↔ twoMade.StaleNotFirst := by
  obtain ⟨p', hcall⟩ := thirdRequest_run
  exact PoolHistory.takeover_least_recently_used_iff start_emptyHistory twoMade_run (by decide)
    (wantedElsewhere_of_two rfl rfl rfl) hcall

/-- What a job does with its directory. -/
def jobOps : List DirectoryOp := [.setAndSaveStatus .processing true, .setAndSaveStatus .finished true]

/-- The pool after a job in the first directory. -/
def firstUsed : WorkingDirectoryPool :=
  bothMade.enter 0 (jobOps.foldl .apply (clonedDirectory ['0'] (⟨0⟩, moment 1))) (by decide)

/-- The job was run after the second directory was made. -/
def jobRun : PoolHistory :=
  ⟨firstUsed, Function.update madeTimes 0 (moment 3), Function.update madeTimes 0 (moment 3), moment 3⟩

theorem jobRun_run : HistoryRun emptyHistory jobRun := by
  have hdir : (0, clonedDirectory ['0'] (⟨0⟩, moment 1)) ∈ twoMade.pool.activeEntries := List.mem_cons_self
  exact .step twoMade_run (by decide) (.job true jobOps hdir)

/-- After a job in the first directory it is taken over, although the second one was used before. -/
theorem used_taken_over :
    ¬ ∀ (h₀ h : PoolHistory) (call : PoolCall) (id : WorkingDirectoryId) (p' : WorkingDirectoryPool), h₀.Start →
      HistoryRun h₀ h → h.pool.cap ≤ h.pool.activeLen → (∀ e ∈ h.pool.activeEntries, call.WantedElsewhere e) →
      call.run h.pool = .ok (.ok id, p') → (∃ dir, (id, dir) ∈ h.pool.activeEntries) ∧ h.LeastRecentlyUsed id := by
  intro hall
  obtain ⟨p', hcall⟩ : ∃ p', (requestFor ⟨2⟩ 4).run firstUsed = .ok (.ok 0, p') := ⟨_, rfl⟩
  obtain ⟨-, hlru⟩ := hall emptyHistory jobRun _ 0 p' start_emptyHistory jobRun_run (by decide)
    (wantedElsewhere_of_two rfl rfl rfl) hcall
  have hsecond : (1, clonedDirectory ['1'] (⟨1⟩, moment 2)) ∈ jobRun.pool.activeEntries :=
    List.mem_cons_of_mem _ List.mem_cons_self
  exact absurd (hlru _ hsecond) (by decide)

end Evobench.Run

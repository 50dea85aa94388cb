import Evobench.Library.FirstMinimum
import Evobench.Library.LastMaximum
import Evobench.Library.SortedMap
import Evobench.Run.WorkingDirectoryPool

/-!
# The choice of a working directory

`get_a_working_directory_for` (src/run/working_directory_pool.rs) gives a job a directory of the pool: one that has its commit
checked out, else one whose commit is not wanted any more, else a new one, and if the pool is full, the one whose last use
lies furthest back.

## The model

* `PooledDirectory`, `WorkingDirectoryPool`: the pool with what the choice looks at. All ids are below the next one, which is a
  field: opening a pool makes it so (`ids_fresh_iff`), and new ids keep it.
* `PoolCall`, `PoolCalls`: calls one after the other. The answers of git are parts of a call.

## What is proved

* `toState_getNew`: a new directory is entered as in `WorkingDirectoryPoolState`.
* `getAWorkingDirectoryFor_spec`: what each call gives, that the pool stays within its capacity, and when a directory that
  has the requested commit is returned.

## Honest scope

The commit of a directory is the one that the pool has cached, or else the one that git reads from it. All that are not cached
are read first, and the call fails where one of them cannot be read (`one_unreadable`).
-/

namespace Evobench.Run

open Library IoUtils

/-! ### The pool -/

instance : LinearOrder WorkingDirectoryId where
  le_refl := UInt64.le_refl
  le_trans _ _ _ := UInt64.le_trans
  le_antisymm _ _ := UInt64.le_antisymm
  le_total := UInt64.le_total
  lt_iff_le_not_ge a b := by
    rw [UInt64.le_iff_toNat_le, UInt64.le_iff_toNat_le, UInt64.lt_iff_toNat_lt]
    omega
  toDecidableLE := inferInstance

theorem nanos_injective : Function.Injective SystemTime.nanos := by
  rintro ⟨a, ha⟩ ⟨b, hb⟩ h
  cases h
  rfl

instance : LinearOrder SystemTime := @LinearOrder.lift' SystemTime ℤ Int.instLinearOrder SystemTime.nanos nanos_injective

/-- `Status::score`: how well the directory is usable for a given commit id -/
def Status.score : Status → ℕ
  | checkedOut => 1
  | processing => 2
  | error => 3
  | finished => 4
  | examination => 5

/-- A working directory as it is kept in the pool. -/
structure PooledDirectory extends WorkingDirectory where
  /-- Its name in the base directory. -/
  fileName : List Char
  /-- Possibly initialized lazily. -/
  commit : Option GitHash
  /-- The last use: the modification time of the status file. -/
  lastUse : SystemTime
deriving DecidableEq

/-- What `commit()` gives for a directory, if git gives `noncachedCommit`. -/
def commitOfDirectory (noncachedCommit : WorkingDirectoryId → Except CallError GitHash)
    (e : WorkingDirectoryId × PooledDirectory) : Except CallError GitHash :=
  match e.2.commit with
  | some commit => .ok commit
  | none => noncachedCommit e.1

/-- `clone_repo`, after the clone: its HEAD is at the commit, and the status is new. -/
def clonedDirectory (fileName : List Char) (made : GitHash × SystemTime) : PooledDirectory :=
  ⟨⟨made.2, 0, .checkedOut, false⟩, fileName, some made.1, made.2⟩

/-- The pool. -/
structure WorkingDirectoryPool where
  /-- How many directories should be maintained. -/
  capacity : { n : UInt8 // n ≠ 0 }
  /-- The next id. -/
  nextId : UInt64
  /-- Contains working directories with `Status::Error`, too. -/
  allEntries : SortedMap WorkingDirectoryId PooledDirectory
  /-- The ids are used up. -/
  below : ∀ e ∈ allEntries.entries, e.1 < nextId

namespace WorkingDirectoryPool

/-- `active_entries`: the entries that can be used for processing -/
def activeEntries (p : WorkingDirectoryPool) : List (WorkingDirectoryId × PooledDirectory) :=
  p.allEntries.entries.filter fun e => e.2.status.canBeUsedForJobs

/-- `active_len` -/
def activeLen (p : WorkingDirectoryPool) : ℕ := p.activeEntries.length

/-- `capacity` -/
def cap (p : WorkingDirectoryPool) : ℕ := p.capacity.1.toNat

theorem lt_add_one {n : UInt64} (h : n.toNat + 1 < UInt64.size) : n < n + 1 := by
  rw [UInt64.lt_iff_toNat_lt, UInt64.toNat_add, UInt64.toNat_one, Nat.mod_eq_of_lt h]
  exact Nat.lt_succ_self _

/-- Count up the next id. -/
def advance (p : WorkingDirectoryPool) (h : p.nextId.toNat + 1 < UInt64.size) : WorkingDirectoryPool :=
  { p with nextId := p.nextId + 1, below := fun e he => lt_trans (p.below e he) (lt_add_one h) }

/-- Enter a directory with an id that is used up. -/
def enter (p : WorkingDirectoryPool) (id : WorkingDirectoryId) (dir : PooledDirectory) (h : id < p.nextId) :
    WorkingDirectoryPool where
  capacity := p.capacity
  nextId := p.nextId
  allEntries := p.allEntries.insert id dir
  below e he := by
    rcases SortedMap.mem_insert.1 he with rfl | ⟨he, -⟩
    · exact h
    · exact p.below e he

/-- `get_new`: the new id or an error, and the pool afterwards -/
def getNew (p : WorkingDirectoryPool) (cloneRepo : List Char → Except CallError (GitHash × SystemTime)) :
    Outcome CallError (Except CallError WorkingDirectoryId × WorkingDirectoryPool) :=
  if h : p.nextId.toNat + 1 < UInt64.size then
    match cloneRepo (toDirectoryFileName p.nextId) with
    | .error e => .ok (.error e, p.advance h)
    | .ok made =>
      .ok (.ok p.nextId, (p.advance h).enter p.nextId (clonedDirectory (toDirectoryFileName p.nextId) made) (lt_add_one h))
  else .panic "attempt to add with overflow"

/-- The loop of `init_active_commit_ids`: it ends with the first error, and keeps what was initialized before. -/
def initCommits (noncachedCommit : WorkingDirectoryId → Except CallError GitHash) :
    List (WorkingDirectoryId × PooledDirectory) → Except CallError Unit × List (WorkingDirectoryId × PooledDirectory)
  | [] => (.ok (), [])
  | e :: rest =>
    if e.2.status.canBeUsedForJobs then
      match commitOfDirectory noncachedCommit e with
      | .error error => (.error error, e :: rest)
      | .ok commit =>
        ((initCommits noncachedCommit rest).1, (e.1, { e.2 with commit := some commit }) :: (initCommits noncachedCommit rest).2)
    else ((initCommits noncachedCommit rest).1, e :: (initCommits noncachedCommit rest).2)

/-- All that there is to an entry, but for whether its commit is cached. -/
def view (noncachedCommit : WorkingDirectoryId → Except CallError GitHash) (e : WorkingDirectoryId × PooledDirectory) :
    WorkingDirectoryId × PooledDirectory × Except CallError GitHash :=
  (e.1, { e.2 with commit := none }, commitOfDirectory noncachedCommit e)

variable {noncachedCommit : WorkingDirectoryId → Except CallError GitHash}

/-- Entries that look the same have the same id and commit. -/
theorem eq_of_view {e e' : WorkingDirectoryId × PooledDirectory} (h : view noncachedCommit e = view noncachedCommit e') :
    e.1 = e'.1 ∧ commitOfDirectory noncachedCommit e = commitOfDirectory noncachedCommit e' := by
  constructor
  · show (view noncachedCommit e).1 = (view noncachedCommit e').1
    rw [h]
  · show (view noncachedCommit e).2.2 = (view noncachedCommit e').2.2
    rw [h]

/-- Initializing the commits changes nothing else. -/
theorem view_initCommits (noncachedCommit : WorkingDirectoryId → Except CallError GitHash)
    (entries : List (WorkingDirectoryId × PooledDirectory)) :
    (initCommits noncachedCommit entries).2.map (view noncachedCommit) = entries.map (view noncachedCommit) := by
  induction entries with
  | nil => rfl
  | cons e rest ih =>
    rw [initCommits]
    split
    · cases hcommit : commitOfDirectory noncachedCommit e with
      | error error => rfl
      | ok commit =>
        have hview : view noncachedCommit (e.1, { e.2 with commit := some commit }) = view noncachedCommit e := by
          rw [view, view, hcommit]
          rfl
        rw [List.map_cons, List.map_cons, ih, hview]
    · rw [List.map_cons, List.map_cons, ih]

theorem keys_initCommits (entries : List (WorkingDirectoryId × PooledDirectory)) :
    (initCommits noncachedCommit entries).2.map Prod.fst = entries.map Prod.fst := by
  have h := congrArg (List.map Prod.fst) (view_initCommits noncachedCommit entries)
  rwa [List.map_map, List.map_map] at h

/-- `init_active_commit_ids` -/
def initActiveCommitIds (p : WorkingDirectoryPool) (noncachedCommit : WorkingDirectoryId → Except CallError GitHash) :
    Except CallError Unit × WorkingDirectoryPool :=
  ((initCommits noncachedCommit p.allEntries.entries).1,
    { p with
      allEntries := p.allEntries.withSameKeys (initCommits noncachedCommit p.allEntries.entries).2 (keys_initCommits _)
      below := by
        intro e he
        have hkey := List.mem_map_of_mem (f := Prod.fst) he
        rw [SortedMap.withSameKeys, keys_initCommits] at hkey
        obtain ⟨e', he', hid⟩ := List.mem_map.1 hkey
        rw [← hid]
        exact p.below e' he' })

/-- The entries whose commit is wanted. -/
def filterCommits (wanted : GitHash → Bool) :
    List (WorkingDirectoryId × PooledDirectory) → Outcome CallError (List (WorkingDirectoryId × PooledDirectory))
  | [] => .ok []
  | e :: rest =>
    match e.2.commit with
    | none => .panic "initialized above"
    | some commit => (filterCommits wanted rest).bind fun found => .ok (if wanted commit then e :: found else found)

end WorkingDirectoryPool

/-- `have_job_with_commit_id` -/
def RunQueuesData.haveJobWithCommitId (data : RunQueuesData) (commitId : GitHash) : Bool := !(data.placesOf commitId).isEmpty

namespace WorkingDirectoryPool

/-- `try_get_fitting_working_directory_for`, after the commits are initialized -/
def pickFitting (p : WorkingDirectoryPool) (runParameters : RunParameters) (runQueuesData : RunQueuesData) :
    Outcome CallError (Option WorkingDirectoryId) := do
  -- Find one with the same commit, preferring one that proceeded further.
  let same ← filterCommits (· = runParameters.commitId) p.activeEntries
  match maxByKey (fun e => e.2.status.score) same with
  | some (id, _) => pure (some id)
  | none => do
    -- Find one that is not used by other jobs in the pipeline.
    let obsolete ← filterCommits (fun commit => !runQueuesData.haveJobWithCommitId commit) p.activeEntries
    pure ((maxByKey (fun e => e.2.status.score) obsolete).map Prod.fst)

/-- `try_get_fitting_working_directory_for` -/
def tryGetFittingWorkingDirectoryFor (p : WorkingDirectoryPool) (runParameters : RunParameters)
    (runQueuesData : RunQueuesData) (noncachedCommit : WorkingDirectoryId → Except CallError GitHash) :
    Outcome CallError (Except CallError (Option WorkingDirectoryId) × WorkingDirectoryPool) :=
  match p.initActiveCommitIds noncachedCommit with
  | (.error e, p) => .ok (.error e, p)
  | (.ok (), p) => do
    let found ← p.pickFitting runParameters runQueuesData
    pure (.ok found, p)

/-- `get_a_working_directory_for`: the id or an error, and the pool afterwards -/
def getAWorkingDirectoryFor (p : WorkingDirectoryPool) (runParameters : RunParameters) (runQueuesData : RunQueuesData)
    (noncachedCommit : WorkingDirectoryId → Except CallError GitHash)
    (cloneRepo : List Char → Except CallError (GitHash × SystemTime)) :
    Outcome CallError (Except CallError WorkingDirectoryId × WorkingDirectoryPool) := do
  match ← p.tryGetFittingWorkingDirectoryFor runParameters runQueuesData noncachedCommit with
  | (.error e, p) => pure (.error e, p)
  | (.ok (some id), p) => pure (.ok id, p)
  | (.ok none, p) =>
    if p.activeLen < p.cap then p.getNew cloneRepo
    else
      match p.activeEntries.argmin fun e => e.2.lastUse with
      | some (id, _) => pure (.ok id, p)
      | none => .panic "capacity is guaranteed >= 1"

/-! ### The state of the base directory -/

/-- What `WorkingDirectoryPoolState` has of the pool. -/
def toState (p : WorkingDirectoryPool) : WorkingDirectoryPoolState :=
  ⟨p.nextId, fun id => (p.allEntries.get? id).map fun dir => (dir.fileName, dir.toWorkingDirectory)⟩

/-- A new directory is entered as it is there. -/
theorem toState_getNew (p : WorkingDirectoryPool) (cloneRepo : List Char → Except CallError (GitHash × SystemTime)) :
    p.toState.getNew (fun fname => (cloneRepo fname).map fun made => (clonedDirectory fname made).toWorkingDirectory) =
      (p.getNew cloneRepo).bind fun r => .ok (r.1, r.2.toState) := by
  rw [WorkingDirectoryPoolState.getNew, WorkingDirectoryPoolState.takeNextId, getNew]
  by_cases h : p.nextId.toNat + 1 < UInt64.size
  case neg =>
    rw [if_neg (show ¬ p.toState.nextId.toNat + 1 < UInt64.size from h), dif_neg h]
    rfl
  rw [if_pos (show p.toState.nextId.toNat + 1 < UInt64.size from h), dif_pos h]
  have hnext : p.toState.nextId = p.nextId := rfl
  cases hclone : cloneRepo (toDirectoryFileName p.nextId) with
  | error e =>
    simp only [Outcome.bind, hnext, hclone, Except.map]
    rfl
  | ok made =>
    simp only [Outcome.bind, hnext, hclone, Except.map, Outcome.ok.injEq, Prod.mk.injEq, true_and]
    have hentries : ((p.advance h).enter p.nextId (clonedDirectory (toDirectoryFileName p.nextId) made)
        (lt_add_one h)).allEntries =
      p.allEntries.insert p.nextId (clonedDirectory (toDirectoryFileName p.nextId) made) := rfl
    rw [toState, toState, hentries]
    congr 1
    funext id
    rw [SortedMap.get?_insert, Function.update_apply]
    split
    · rfl
    · rfl

/-! ### What a choice is -/

variable (p : WorkingDirectoryPool) (runParameters : RunParameters) (runQueuesData : RunQueuesData)
  (noncachedCommit : WorkingDirectoryId → Except CallError GitHash)
  (cloneRepo : List Char → Except CallError (GitHash × SystemTime))

/-- The pool with the commits initialized. -/
def initialized : WorkingDirectoryPool := (p.initActiveCommitIds noncachedCommit).2

/-- No directory that can be used has the commit. -/
def NoneAt (p : WorkingDirectoryPool) (commit : GitHash) : Prop := ∀ e ∈ p.activeEntries, e.2.commit ≠ some commit

/-- All directories that can be used have commits that are wanted. -/
def AllWanted (p : WorkingDirectoryPool) (data : RunQueuesData) : Prop :=
  ∀ e ∈ p.activeEntries, ∃ c, e.2.commit = some c ∧ data.haveJobWithCommitId c = true

/-- What `get_a_working_directory_for` can do. -/
inductive Chosen : Except CallError WorkingDirectoryId → WorkingDirectoryPool → Prop where
  /-- A commit cannot be read. -/
  | unreadable {error : CallError} (hinit : (p.initActiveCommitIds noncachedCommit).1 = .error error) :
    Chosen (.error error) (p.initialized noncachedCommit)
  /-- A directory with the same commit. -/
  | same {e : WorkingDirectoryId × PooledDirectory} (hinit : (p.initActiveCommitIds noncachedCommit).1 = .ok ())
    (he : e ∈ (p.initialized noncachedCommit).activeEntries) (hcommit : e.2.commit = some runParameters.commitId) :
    Chosen (.ok e.1) (p.initialized noncachedCommit)
  /-- A directory that is not used by other jobs. -/
  | obsolete {e : WorkingDirectoryId × PooledDirectory} {commit : GitHash}
    (hinit : (p.initActiveCommitIds noncachedCommit).1 = .ok ())
    (hnone : (p.initialized noncachedCommit).NoneAt runParameters.commitId)
    (he : e ∈ (p.initialized noncachedCommit).activeEntries) (hcommit : e.2.commit = some commit)
    (hunwanted : runQueuesData.haveJobWithCommitId commit = false) : Chosen (.ok e.1) (p.initialized noncachedCommit)
  /-- A new one. -/
  | new {result : Except CallError WorkingDirectoryId} {p' : WorkingDirectoryPool}
    (hinit : (p.initActiveCommitIds noncachedCommit).1 = .ok ())
    (hnone : (p.initialized noncachedCommit).NoneAt runParameters.commitId)
    (hwanted : (p.initialized noncachedCommit).AllWanted runQueuesData)
    (hroom : (p.initialized noncachedCommit).activeLen < p.cap)
    (hnew : (p.initialized noncachedCommit).getNew cloneRepo = .ok (result, p')) : Chosen result p'
  /-- The one whose last use lies furthest back. -/
  | leastRecentlyUsed {e : WorkingDirectoryId × PooledDirectory}
    (hinit : (p.initActiveCommitIds noncachedCommit).1 = .ok ())
    (hnone : (p.initialized noncachedCommit).NoneAt runParameters.commitId)
    (hwanted : (p.initialized noncachedCommit).AllWanted runQueuesData)
    (hfull : p.cap ≤ (p.initialized noncachedCommit).activeLen)
    (he : (p.initialized noncachedCommit).activeEntries.argmin (fun e => e.2.lastUse) = some e) :
    Chosen (.ok e.1) (p.initialized noncachedCommit)

variable {p runParameters runQueuesData noncachedCommit cloneRepo}

theorem initCommits_ok {entries : List (WorkingDirectoryId × PooledDirectory)}
    (h : (initCommits noncachedCommit entries).1 = .ok ()) :
    ∀ e ∈ (initCommits noncachedCommit entries).2, e.2.status.canBeUsedForJobs = true → ∃ c, e.2.commit = some c := by
  induction entries with
  | nil => exact fun e he => absurd he List.not_mem_nil
  | cons first rest ih =>
    rw [initCommits] at h ⊢
    split_ifs at h ⊢ with husable
    · cases hcommit : commitOfDirectory noncachedCommit first with
      | error error =>
        rw [hcommit] at h
        cases h
      | ok commit =>
        rw [hcommit] at h
        intro e he hactive
        rcases List.mem_cons.1 he with rfl | he
        · exact ⟨commit, rfl⟩
        · exact ih h e he hactive
    · intro e he hactive
      rcases List.mem_cons.1 he with rfl | he
      · exact absurd hactive husable
      · exact ih h e he hactive

theorem initCommits_error {entries : List (WorkingDirectoryId × PooledDirectory)} {error : CallError}
    (h : (initCommits noncachedCommit entries).1 = .error error) :
    ∃ e ∈ entries, e.2.status.canBeUsedForJobs = true ∧ commitOfDirectory noncachedCommit e = .error error := by
  induction entries with
  | nil => cases h
  | cons first rest ih =>
    rw [initCommits] at h
    split_ifs at h with husable
    · cases hcommit : commitOfDirectory noncachedCommit first with
      | error e =>
        rw [hcommit] at h
        cases h
        exact ⟨first, List.mem_cons_self, husable, hcommit⟩
      | ok commit =>
        rw [hcommit] at h
        obtain ⟨e, he, hrest⟩ := ih h
        exact ⟨e, List.mem_cons_of_mem _ he, hrest⟩
    · obtain ⟨e, he, hrest⟩ := ih h
      exact ⟨e, List.mem_cons_of_mem _ he, hrest⟩

/-- The directories that can be used stay the same when the commits are initialized. -/
theorem view_activeEntries (p : WorkingDirectoryPool) (noncachedCommit : WorkingDirectoryId → Except CallError GitHash) :
    (p.initialized noncachedCommit).activeEntries.map (view noncachedCommit) =
      p.activeEntries.map (view noncachedCommit) := by
  have hfilter : ∀ l : List (WorkingDirectoryId × PooledDirectory),
      (l.filter fun e => e.2.status.canBeUsedForJobs).map (view noncachedCommit) =
        (l.map (view noncachedCommit)).filter fun v => v.2.1.status.canBeUsedForJobs := by
    intro l
    rw [List.filter_map]
    rfl
  rw [activeEntries, activeEntries, hfilter, hfilter]
  exact congrArg (List.filter _) (view_initCommits noncachedCommit p.allEntries.entries)

theorem activeLen_initialized (p : WorkingDirectoryPool) (noncachedCommit : WorkingDirectoryId → Except CallError GitHash) :
    (p.initialized noncachedCommit).activeLen = p.activeLen := by
  have h := congrArg List.length (view_activeEntries p noncachedCommit)
  rwa [List.length_map, List.length_map] at h

theorem commitOfDirectory_eq {e : WorkingDirectoryId × PooledDirectory} {c : GitHash} (h : e.2.commit = some c) :
    commitOfDirectory noncachedCommit e = .ok c := by rw [commitOfDirectory, h]

/-- A directory of the initialized pool was there before, and the other way round. -/
theorem exists_of_mem_initialized {e : WorkingDirectoryId × PooledDirectory}
    (h : e ∈ (p.initialized noncachedCommit).activeEntries) :
    ∃ e' ∈ p.activeEntries, view noncachedCommit e' = view noncachedCommit e := by
  have hview := List.mem_map_of_mem (f := view noncachedCommit) h
  rw [view_activeEntries] at hview
  exact List.mem_map.1 hview

theorem exists_initialized_of_mem (noncachedCommit : WorkingDirectoryId → Except CallError GitHash)
    {e : WorkingDirectoryId × PooledDirectory} (h : e ∈ p.activeEntries) :
    ∃ e' ∈ (p.initialized noncachedCommit).activeEntries, view noncachedCommit e' = view noncachedCommit e := by
  have hview := List.mem_map_of_mem (f := view noncachedCommit) h
  rw [← view_activeEntries] at hview
  exact List.mem_map.1 hview

theorem commit_of_initialized (h : (p.initActiveCommitIds noncachedCommit).1 = .ok ()) :
    ∀ e ∈ (p.initialized noncachedCommit).activeEntries, ∃ c, e.2.commit = some c := by
  intro e he
  obtain ⟨hmem, hactive⟩ := List.mem_filter.1 he
  exact initCommits_ok h e hmem hactive

theorem filterCommits_eq {wanted : GitHash → Bool} {l : List (WorkingDirectoryId × PooledDirectory)}
    (h : ∀ e ∈ l, ∃ c, e.2.commit = some c) : filterCommits wanted l = .ok (l.filter fun e => e.2.commit.any wanted) := by
  induction l with
  | nil => rfl
  | cons e rest ih =>
    obtain ⟨c, hc⟩ := h e List.mem_cons_self
    rw [filterCommits, hc, ih fun e' he' => h e' (List.mem_cons_of_mem _ he'), List.filter_cons, hc]
    rfl

/-- **The inversion of the choice.** -/
theorem chosen_of_getAWorkingDirectoryFor {result : Except CallError WorkingDirectoryId} {p' : WorkingDirectoryPool}
    (h : p.getAWorkingDirectoryFor runParameters runQueuesData noncachedCommit cloneRepo = .ok (result, p')) :
    Chosen p runParameters runQueuesData noncachedCommit cloneRepo result p' := by
  obtain ⟨⟨found, p₁⟩, hfound, h⟩ := Outcome.bind_eq_ok.1 h
  rw [tryGetFittingWorkingDirectoryFor] at hfound
  cases hinit : (p.initActiveCommitIds noncachedCommit).1 with
  | error error =>
    have hpair : p.initActiveCommitIds noncachedCommit = (.error error, p.initialized noncachedCommit) :=
      Prod.ext hinit rfl
    rw [hpair] at hfound
    cases hfound
    cases h
    exact .unreadable hinit
  | ok x =>
    have hpair : p.initActiveCommitIds noncachedCommit = (.ok (), p.initialized noncachedCommit) := Prod.ext hinit rfl
    rw [hpair] at hfound
    obtain ⟨picked, hpicked, hfound⟩ := Outcome.bind_eq_ok.1 hfound
    cases hfound
    have hcommits := commit_of_initialized hinit
    simp only [pickFitting, WorkingDirectoryPool.filterCommits_eq hcommits, Outcome.ok_bind] at hpicked
    cases hsame : maxByKey (fun e => e.2.status.score) ((p.initialized noncachedCommit).activeEntries.filter fun e =>
      e.2.commit.any fun c => decide (c = runParameters.commitId)) with
    | some e =>
      rw [hsame] at hpicked
      cases hpicked
      cases h
      obtain ⟨he, hcommit⟩ := List.mem_filter.1 (maxByKey_spec hsame).1
      obtain ⟨c, hc⟩ := hcommits e he
      rw [hc, Option.any_some, decide_eq_true_iff] at hcommit
      exact .same hinit he (by rw [hc, hcommit])
    | none =>
      rw [hsame] at hpicked
      have hnone : (p.initialized noncachedCommit).NoneAt runParameters.commitId := by
        intro e he hcommit
        have hmem := List.filter_eq_nil_iff.1 (maxByKey_eq_none.1 hsame) e he
        rw [hcommit] at hmem
        simp at hmem
      cases hobsolete : maxByKey (fun e => e.2.status.score) ((p.initialized noncachedCommit).activeEntries.filter fun e =>
        e.2.commit.any fun c => !runQueuesData.haveJobWithCommitId c) with
      | some e =>
        simp only [hobsolete] at hpicked
        cases hpicked
        cases h
        obtain ⟨he, hunwanted⟩ := List.mem_filter.1 (maxByKey_spec hobsolete).1
        obtain ⟨c, hc⟩ := hcommits e he
        rw [hc, Option.any_some, Bool.not_eq_true'] at hunwanted
        exact .obsolete hinit hnone he hc hunwanted
      | none =>
        simp only [hobsolete] at hpicked
        cases hpicked
        have hwanted : (p.initialized noncachedCommit).AllWanted runQueuesData := by
          intro e he
          obtain ⟨c, hc⟩ := hcommits e he
          have hmem := List.filter_eq_nil_iff.1 (maxByKey_eq_none.1 hobsolete) e he
          rw [hc, Option.any_some] at hmem
          exact ⟨c, hc, by simpa using hmem⟩
        simp only [Option.map_none] at h
        split_ifs at h with hroom
        · exact .new hinit hnone hwanted hroom h
        · cases hmin : (p.initialized noncachedCommit).activeEntries.argmin fun e => e.2.lastUse with
          | none =>
            rw [hmin] at h
            cases h
          | some e =>
            rw [hmin] at h
            cases h
            exact .leastRecentlyUsed hinit hnone hwanted (not_lt.1 hroom) hmin

/-! ### New directories -/

/-- A new directory is entered with the next id, or nothing but the next id changes. -/
theorem getNew_spec {result : Except CallError WorkingDirectoryId} {p' : WorkingDirectoryPool}
    (h : p.getNew cloneRepo = .ok (result, p')) :
    p'.capacity = p.capacity ∧ p.nextId < p'.nextId ∧
      ((∃ e, cloneRepo (toDirectoryFileName p.nextId) = .error e ∧ result = .error e ∧ p'.allEntries = p.allEntries) ∨
        ∃ made, cloneRepo (toDirectoryFileName p.nextId) = .ok made ∧ result = .ok p.nextId ∧
          p'.allEntries = p.allEntries.insert p.nextId (clonedDirectory (toDirectoryFileName p.nextId) made)) := by
  rw [getNew] at h
  split at h
  · next hlt =>
    cases hclone : cloneRepo (toDirectoryFileName p.nextId) with
    | error e =>
      rw [hclone] at h
      cases h
      exact ⟨rfl, lt_add_one hlt, .inl ⟨e, rfl, rfl, rfl⟩⟩
    | ok made =>
      rw [hclone] at h
      cases h
      exact ⟨rfl, lt_add_one hlt, .inr ⟨made, rfl, rfl, rfl⟩⟩
  · cases h

/-- With the new directory there is one more that can be used. -/
theorem perm_activeEntries {p' : WorkingDirectoryPool} {dir : PooledDirectory}
    (h : p'.allEntries = p.allEntries.insert p.nextId dir) (husable : dir.status.canBeUsedForJobs = true) :
    p'.activeEntries.Perm ((p.nextId, dir) :: p.activeEntries) := by
  have hfresh : ∀ e ∈ p.allEntries.entries, e.1 ≠ p.nextId := fun e he => ne_of_lt (p.below e he)
  have hperm := (SortedMap.perm_insert (v := dir) hfresh).filter fun e => e.2.status.canBeUsedForJobs
  rw [← h, List.filter_cons, if_pos husable] at hperm
  exact hperm

end WorkingDirectoryPool

/-! ### The guarantees -/

/-- A job in the pipeline wants the commit. -/
def RunQueuesData.Wanted (data : RunQueuesData) (commitId : GitHash) : Prop :=
  ∃ x ∈ data.entries, RunQueuesData.commitOf x.2 = commitId

theorem RunQueuesData.haveJobWithCommitId_iff {data : RunQueuesData} {commitId : GitHash}
    (h : data.jobsByCommitId = indexJobs ∅ 0 data.pipelineData) :
    data.haveJobWithCommitId commitId = true ↔ data.Wanted commitId := by
  rw [haveJobWithCommitId, Bool.not_eq_true', List.isEmpty_eq_false_iff_exists_mem, placesOf_eq h]
  constructor
  · rintro ⟨place, hplace⟩
    obtain ⟨x, hx, -⟩ := List.mem_map.1 hplace
    obtain ⟨hx, hcommit⟩ := List.mem_filter.1 hx
    exact ⟨x, hx, by simpa using hcommit⟩
  · rintro ⟨x, hx, hcommit⟩
    exact ⟨x.1, List.mem_map_of_mem (List.mem_filter.2 ⟨hx, by simpa using hcommit⟩)⟩

/-- A call of `get_a_working_directory_for`, with what git answers in it. -/
structure PoolCall where
  /-- The parameters of the job. -/
  runParameters : RunParameters
  /-- The loaded queues. -/
  runQueuesData : RunQueuesData
  /-- The index is the one that is made when they are loaded. -/
  indexed : runQueuesData.jobsByCommitId = RunQueuesData.indexJobs ∅ 0 runQueuesData.pipelineData
  /-- `noncached_commit` -/
  noncachedCommit : WorkingDirectoryId → Except CallError GitHash
  /-- The clone of a repository: its HEAD, and the time. -/
  cloneRepo : List Char → Except CallError (GitHash × SystemTime)

namespace PoolCall

/-- The commit that is requested. -/
def commitId (call : PoolCall) : GitHash := call.runParameters.commitId

/-- The call on a pool. -/
def run (call : PoolCall) (p : WorkingDirectoryPool) :
    Outcome CallError (Except CallError WorkingDirectoryId × WorkingDirectoryPool) :=
  p.getAWorkingDirectoryFor call.runParameters call.runQueuesData call.noncachedCommit call.cloneRepo

/-- A directory that can be used has a commit checked out. -/
def CheckedOut (call : PoolCall) (p : WorkingDirectoryPool) (id : WorkingDirectoryId) (commitId : GitHash) : Prop :=
  ∃ e ∈ p.activeEntries, e.1 = id ∧ commitOfDirectory call.noncachedCommit e = .ok commitId

/-- A directory has a commit checked out that is not the requested one and that a job in the pipeline wants. -/
def WantedElsewhere (call : PoolCall) (e : WorkingDirectoryId × PooledDirectory) : Prop :=
  ∃ c, commitOfDirectory call.noncachedCommit e = .ok c ∧ c ≠ call.commitId ∧ call.runQueuesData.Wanted c

/-- The commits of all directories that can be used can be read. -/
def Readable (call : PoolCall) (p : WorkingDirectoryPool) : Prop :=
  ∀ e ∈ p.activeEntries, ∃ commitId, commitOfDirectory call.noncachedCommit e = .ok commitId

/-- A directory is returned that has the requested commit. -/
def ReturnsSame (call : PoolCall) (p : WorkingDirectoryPool) : Prop :=
  ∃ id p', call.run p = .ok (.ok id, p') ∧ call.CheckedOut p id call.commitId

/-- What a call guarantees that makes `after` of the pool `p`. -/
structure Guaranteed (call : PoolCall) (p : WorkingDirectoryPool) (result : Except CallError WorkingDirectoryId)
    (after : WorkingDirectoryPool) : Prop where
  /-- What is returned can be used. -/
  usable : ∀ id, result = .ok id → ∃ dir, (id, dir) ∈ after.activeEntries
  /-- A directory with the requested commit is returned if there is one. -/
  same : (∃ id, call.CheckedOut p id call.commitId) → ∀ id, result = .ok id → call.CheckedOut p id call.commitId
  /-- Then only reading a commit can fail, and else also cloning a new directory. -/
  fails : ∀ e, result = .error e → (∃ d ∈ p.activeEntries, commitOfDirectory call.noncachedCommit d = .error e) ∨
    (¬ ∃ id, call.CheckedOut p id call.commitId) ∧ call.cloneRepo (toDirectoryFileName p.nextId) = .error e
  /-- Only below the capacity a new directory is made, or an id is used up for it. -/
  allocates : (after.nextId = p.nextId ∧ after.allEntries.entries.map Prod.fst = p.allEntries.entries.map Prod.fst) ∨
    p.activeLen < p.cap
  /-- A directory with another commit that is wanted is taken only if the pool is full with such directories. -/
  takesOver : ∀ e ∈ p.allEntries.entries, result = .ok e.1 → call.WantedElsewhere e →
    p.activeLen = p.cap ∧ ∀ e' ∈ p.activeEntries, call.WantedElsewhere e'

variable {call : PoolCall} {p p' : WorkingDirectoryPool} {result : Except CallError WorkingDirectoryId}

theorem eq_of_mem {e e' : WorkingDirectoryId × PooledDirectory} (h : e ∈ p.allEntries.entries)
    (h' : e' ∈ p.allEntries.entries) (he : e.1 = e'.1) : e = e' :=
  List.inj_on_of_nodup_map p.allEntries.nodup_keys h h' he

/-- The entry for a directory of the initialized pool. -/
theorem view_of_mem {e e' : WorkingDirectoryId × PooledDirectory} (h : e ∈ p.allEntries.entries)
    (h' : e' ∈ (p.initialized call.noncachedCommit).activeEntries) (he : e.1 = e'.1) :
    commitOfDirectory call.noncachedCommit e = commitOfDirectory call.noncachedCommit e' := by
  obtain ⟨e₀, he₀, hview⟩ := WorkingDirectoryPool.exists_of_mem_initialized h'
  obtain ⟨hid, hsame⟩ := WorkingDirectoryPool.eq_of_view hview
  obtain rfl := eq_of_mem h (List.mem_of_mem_filter he₀) (he.trans hid.symm)
  exact hsame

theorem checkedOut_of_mem {e : WorkingDirectoryId × PooledDirectory} {c : GitHash}
    (h : e ∈ (p.initialized call.noncachedCommit).activeEntries) (hc : e.2.commit = some c) :
    call.CheckedOut p e.1 c := by
  obtain ⟨e₀, he₀, hview⟩ := WorkingDirectoryPool.exists_of_mem_initialized h
  obtain ⟨hid, hsame⟩ := WorkingDirectoryPool.eq_of_view hview
  exact ⟨e₀, he₀, hid, hsame.trans (WorkingDirectoryPool.commitOfDirectory_eq hc)⟩

theorem not_checkedOut_of_noneAt (hinit : (p.initActiveCommitIds call.noncachedCommit).1 = .ok ())
    (h : (p.initialized call.noncachedCommit).NoneAt call.commitId) :
    ¬ ∃ id, call.CheckedOut p id call.commitId := by
  rintro ⟨id, e, he, -, hcommit⟩
  obtain ⟨e', he', hview⟩ := WorkingDirectoryPool.exists_initialized_of_mem call.noncachedCommit he
  obtain ⟨c, hc⟩ := WorkingDirectoryPool.commit_of_initialized hinit e' he'
  obtain ⟨-, hsame⟩ := WorkingDirectoryPool.eq_of_view hview
  rw [WorkingDirectoryPool.commitOfDirectory_eq hc, hcommit] at hsame
  cases hsame
  exact h e' he' hc

/-- If no directory has the requested commit, and the commits of all of them are wanted, they are all in that position. -/
theorem wantedElsewhere_of_allWanted (hnone : (p.initialized call.noncachedCommit).NoneAt call.commitId)
    (hwanted : (p.initialized call.noncachedCommit).AllWanted call.runQueuesData) :
    ∀ e ∈ p.activeEntries, call.WantedElsewhere e := by
  intro e he
  obtain ⟨e', he', hview⟩ := WorkingDirectoryPool.exists_initialized_of_mem call.noncachedCommit he
  obtain ⟨c, hc, hjob⟩ := hwanted e' he'
  obtain ⟨-, hsame⟩ := WorkingDirectoryPool.eq_of_view hview
  refine ⟨c, ?_, ?_, (RunQueuesData.haveJobWithCommitId_iff call.indexed).1 hjob⟩
  · rw [← hsame, WorkingDirectoryPool.commitOfDirectory_eq hc]
  · rintro rfl
    exact hnone e' he' hc

/-- **One call**, on a pool within its capacity. -/
theorem guaranteed_of_run (hcap : p.activeLen ≤ p.cap) (h : call.run p = .ok (result, p')) :
    call.Guaranteed p result p' := by
  have hids : (p.initialized call.noncachedCommit).allEntries.entries.map Prod.fst = p.allEntries.entries.map Prod.fst :=
    WorkingDirectoryPool.keys_initCommits p.allEntries.entries
  cases WorkingDirectoryPool.chosen_of_getAWorkingDirectoryFor h with
  | unreadable hinit =>
    obtain ⟨e, he, husable, herror⟩ := WorkingDirectoryPool.initCommits_error hinit
    refine ⟨nofun, fun _ _ => nofun, fun error' herror' => .inl ⟨e, ?_, ?_⟩, .inl ⟨rfl, hids⟩, fun _ _ => nofun⟩
    · exact List.mem_filter.2 ⟨he, husable⟩
    · cases herror'
      exact herror
  | @same e hinit he hcommit =>
    refine ⟨?_, ?_, fun _ => nofun, .inl ⟨rfl, hids⟩, ?_⟩
    · rintro id ⟨⟩
      exact ⟨e.2, he⟩
    · rintro - id ⟨⟩
      exact checkedOut_of_mem he hcommit
    · rintro e₀ he₀ heq ⟨c, hc, hne, -⟩
      rw [view_of_mem he₀ he (Except.ok.inj heq).symm, WorkingDirectoryPool.commitOfDirectory_eq hcommit] at hc
      exact absurd (Except.ok.inj hc).symm hne
  | @obsolete e commit hinit hnone he hcommit hunwanted =>
    refine ⟨?_, fun hsame => absurd hsame (not_checkedOut_of_noneAt hinit hnone), fun _ => nofun, .inl ⟨rfl, hids⟩, ?_⟩
    · rintro id ⟨⟩
      exact ⟨e.2, he⟩
    · rintro e₀ he₀ heq ⟨c, hc, -, hwanted⟩
      rw [view_of_mem he₀ he (Except.ok.inj heq).symm, WorkingDirectoryPool.commitOfDirectory_eq hcommit] at hc
      cases hc
      rw [(RunQueuesData.haveJobWithCommitId_iff call.indexed).2 hwanted] at hunwanted
      cases hunwanted
  | new hinit hnone hwanted hroom hnew =>
    rw [WorkingDirectoryPool.activeLen_initialized] at hroom
    have hno := not_checkedOut_of_noneAt hinit hnone
    obtain ⟨-, -, ⟨e, hclone, rfl, hentries⟩ | ⟨made, hclone, rfl, hentries⟩⟩ := WorkingDirectoryPool.getNew_spec hnew
    · refine ⟨nofun, fun _ _ => nofun, ?_, .inr hroom, fun _ _ => nofun⟩
      rintro e' ⟨⟩
      exact .inr ⟨hno, hclone⟩
    · refine ⟨?_, fun hsame => absurd hsame hno, fun _ => nofun, .inr hroom, ?_⟩
      · rintro id ⟨⟩
        exact ⟨_, (WorkingDirectoryPool.perm_activeEntries hentries rfl).mem_iff.2 List.mem_cons_self⟩
      · intro e₀ he₀ heq
        have hid : p.nextId = e₀.1 := Except.ok.inj heq
        exact absurd hid (ne_of_gt (p.below e₀ he₀))
  | @leastRecentlyUsed e hinit hnone hwanted hfull he =>
    rw [WorkingDirectoryPool.activeLen_initialized] at hfull
    refine ⟨?_, fun hsame => absurd hsame (not_checkedOut_of_noneAt hinit hnone), fun _ => nofun, .inl ⟨rfl, hids⟩, ?_⟩
    · rintro id ⟨⟩
      exact ⟨e.2, List.argmin_mem he⟩
    · exact fun _ _ _ _ => ⟨le_antisymm hcap hfull, wantedElsewhere_of_allWanted hnone hwanted⟩

theorem readable_iff : call.Readable p ↔ (p.initActiveCommitIds call.noncachedCommit).1 = .ok () := by
  constructor
  · intro hreadable
    cases hinit : (p.initActiveCommitIds call.noncachedCommit).1 with
    | ok x => rfl
    | error e =>
      obtain ⟨d, hd, husable, herror⟩ := WorkingDirectoryPool.initCommits_error hinit
      obtain ⟨c, hc⟩ := hreadable d (List.mem_filter.2 ⟨hd, husable⟩)
      rw [herror] at hc
      cases hc
  · intro hinit e he
    obtain ⟨e', he', hview⟩ := WorkingDirectoryPool.exists_initialized_of_mem call.noncachedCommit he
    obtain ⟨c, hc⟩ := WorkingDirectoryPool.commit_of_initialized hinit e' he'
    refine ⟨c, ?_⟩
    rw [← (WorkingDirectoryPool.eq_of_view hview).2, WorkingDirectoryPool.commitOfDirectory_eq hc]

/-- **A directory that has the commit is returned** exactly if the commits of all of them can be read. -/
theorem returnsSame_iff (hsame : ∃ id, call.CheckedOut p id call.commitId) : call.ReturnsSame p ↔ call.Readable p := by
  constructor
  · rintro ⟨id, p', hrun, -⟩
    refine readable_iff.2 ?_
    generalize hresult : Except.ok id = result at hrun
    cases WorkingDirectoryPool.chosen_of_getAWorkingDirectoryFor hrun with
    | unreadable hinit => cases hresult
    | same hinit he hcommit => exact hinit
    | obsolete hinit hnone he hcommit hunwanted => exact hinit
    | new hinit hnone hwanted hroom hnew => exact hinit
    | leastRecentlyUsed hinit hnone hwanted hfull he => exact hinit
  · intro hreadable
    have hinit := readable_iff.1 hreadable
    have hpair : p.initActiveCommitIds call.noncachedCommit = (.ok (), p.initialized call.noncachedCommit) := Prod.ext hinit rfl
    have hcommits := WorkingDirectoryPool.commit_of_initialized hinit
    cases hmax : maxByKey (fun e => e.2.status.score) ((p.initialized call.noncachedCommit).activeEntries.filter fun e =>
      e.2.commit.any fun c => decide (c = call.runParameters.commitId)) with
    | none =>
      -- the search by the commit finds one
      refine absurd hsame (not_checkedOut_of_noneAt hinit fun e he hcommit => ?_)
      have hmem := List.filter_eq_nil_iff.1 (maxByKey_eq_none.1 hmax) e he
      rw [hcommit] at hmem
      exact hmem (decide_eq_true rfl)
    | some e =>
      obtain ⟨he, hcommit⟩ := List.mem_filter.1 (maxByKey_spec hmax).1
      obtain ⟨c, hc⟩ := hcommits e he
      rw [hc, Option.any_some, decide_eq_true_iff] at hcommit
      refine ⟨e.1, p.initialized call.noncachedCommit, ?_, checkedOut_of_mem he (by rw [hc, hcommit]; rfl)⟩
      rw [run, WorkingDirectoryPool.getAWorkingDirectoryFor, WorkingDirectoryPool.tryGetFittingWorkingDirectoryFor, hpair]
      simp only [WorkingDirectoryPool.pickFitting, WorkingDirectoryPool.filterCommits_eq hcommits, Outcome.ok_bind, hmax]
      rfl

/-- A call keeps the pool within its capacity. -/
theorem activeLen_le_of_run (hcap : p.activeLen ≤ p.cap) (h : call.run p = .ok (result, p')) : p'.activeLen ≤ p'.cap := by
  have hinitialized : (p.initialized call.noncachedCommit).activeLen ≤ (p.initialized call.noncachedCommit).cap := by
    rw [WorkingDirectoryPool.activeLen_initialized]
    exact hcap
  cases WorkingDirectoryPool.chosen_of_getAWorkingDirectoryFor h with
  | unreadable hinit => exact hinitialized
  | same hinit he hcommit => exact hinitialized
  | obsolete hinit hnone he hcommit hunwanted => exact hinitialized
  | leastRecentlyUsed hinit hnone hwanted hfull he => exact hinitialized
  | new hinit hnone hwanted hroom hnew =>
    obtain ⟨hcapacity, -, hcases⟩ := WorkingDirectoryPool.getNew_spec hnew
    have hcap' : p'.cap = p.cap := by rw [WorkingDirectoryPool.cap, hcapacity]; rfl
    rw [hcap']
    rcases hcases with ⟨e, -, -, hentries⟩ | ⟨made, -, -, hentries⟩
    · have hactive : p'.activeEntries = (p.initialized call.noncachedCommit).activeEntries := by
        rw [WorkingDirectoryPool.activeEntries, hentries]
        rfl
      rw [WorkingDirectoryPool.activeLen, hactive]
      exact hinitialized
    · have hlength := (WorkingDirectoryPool.perm_activeEntries hentries rfl).length_eq
      rw [List.length_cons] at hlength
      rw [WorkingDirectoryPool.activeLen] at hroom ⊢
      omega

end PoolCall

/-- Calls one after the other. In between, directories may be set aside, deleted, used and read again, as long as there are
not more that can be used than before. -/
inductive PoolCalls : WorkingDirectoryPool → WorkingDirectoryPool → Prop where
  /-- No calls. -/
  | nil (p : WorkingDirectoryPool) : PoolCalls p p
  /-- A call. -/
  | call {p₀ p p' : WorkingDirectoryPool} {call : PoolCall} {result : Except CallError WorkingDirectoryId}
    (hrun : PoolCalls p₀ p) (hcall : call.run p = .ok (result, p')) : PoolCalls p₀ p'
  /-- Another change of the pool. -/
  | between {p₀ p p' : WorkingDirectoryPool} (hrun : PoolCalls p₀ p) (hcapacity : p'.capacity = p.capacity)
    (hlen : p'.activeLen ≤ p.activeLen) : PoolCalls p₀ p'

theorem PoolCalls.activeLen_le {p₀ p : WorkingDirectoryPool} (hrun : PoolCalls p₀ p) (hcap : p₀.activeLen ≤ p₀.cap) :
    p.activeLen ≤ p.cap := by
  induction hrun with
  | nil => exact hcap
  | call _ hcall ih => exact PoolCall.activeLen_le_of_run ih hcall
  | between _ hcapacity hlen ih =>
    rw [WorkingDirectoryPool.cap, hcapacity]
    exact hlen.trans ih

/-- **The choice of a working directory**: after any sequence of calls from a pool within its capacity the pool is within it,
each call on it returns what is guaranteed, and it returns a directory that has the requested commit, if there is one, exactly
if the commits of all directories can be read. -/
theorem getAWorkingDirectoryFor_spec {p₀ p : WorkingDirectoryPool} (hcap : p₀.activeLen ≤ p₀.cap)
    (hrun : PoolCalls p₀ p) :
    p.activeLen ≤ p.cap ∧
      (∀ (call : PoolCall) (result : Except CallError WorkingDirectoryId) (p' : WorkingDirectoryPool),
        call.run p = .ok (result, p') → call.Guaranteed p result p') ∧
      ∀ call : PoolCall, (∃ id, call.CheckedOut p id call.commitId) → (call.ReturnsSame p ↔ call.Readable p) :=
  ⟨hrun.activeLen_le hcap, fun _ _ _ => PoolCall.guaranteed_of_run (hrun.activeLen_le hcap), fun _ => PoolCall.returnsSame_iff⟩

/-! ### A pool with two directories -/

/-- A pool for two directories, which are not there yet. -/
def roomForTwo : WorkingDirectoryPool := ⟨⟨2, by decide⟩, 0, SortedMap.empty, by simp [SortedMap.empty]⟩

/-- A request for the commit of the only job. -/
def sampleRequest : PoolCall where
  runParameters := sampleJob.pub.runParameters
  runQueuesData := sampleData
  indexed := by
    obtain ⟨v', hdata⟩ := sampleData_run
    obtain ⟨-, -, hindex, -⟩ := ((Prog.holds_iff _).1 sampleQueues.safe_data).2 _ _ hdata
    exact hindex
  noncachedCommit _ := .error "git rev-parse HEAD"
  cloneRepo _ := .ok (sampleJob.pub.runParameters.commitId, .epoch)

theorem roomForTwo_room : roomForTwo.nextId.toNat + 1 < UInt64.size := by decide

theorem zero_lt_nextId : 0 < (roomForTwo.advance roomForTwo_room).nextId := by decide

/-- The pool with a directory that has been made for the request. -/
def onlyOne : WorkingDirectoryPool :=
  (roomForTwo.advance roomForTwo_room).enter 0
    (clonedDirectory ['0'] (sampleJob.pub.runParameters.commitId, .epoch)) zero_lt_nextId

/-- The directory that has been made is taken for the next request. -/
theorem getAWorkingDirectoryFor_sample : sampleRequest.ReturnsSame onlyOne := by
  have hcall : sampleRequest.run roomForTwo = .ok (.ok 0, onlyOne) := rfl
  have hsame : sampleRequest.CheckedOut onlyOne 0 sampleRequest.commitId := ⟨_, List.mem_cons_self, rfl, rfl⟩
  have hreadable : sampleRequest.Readable onlyOne := by
    intro e he
    obtain rfl := List.mem_singleton.1 he
    exact ⟨_, rfl⟩
  obtain ⟨-, -, hreturns⟩ := getAWorkingDirectoryFor_spec (by decide) (.call (.nil roomForTwo) hcall)
  exact (hreturns sampleRequest ⟨0, hsame⟩).2 hreadable

/-- The pool with another directory, whose commit is not cached. -/
def withUnread : WorkingDirectoryPool :=
  (onlyOne.advance (by decide)).enter 1
    { clonedDirectory ['1'] (sampleJob.pub.runParameters.commitId, .epoch) with commit := none } (by decide)

/-- If the commit of the other directory cannot be read, the call fails although the first one has the commit. -/
theorem one_unreadable :
    ¬ ∀ (call : PoolCall) (p : WorkingDirectoryPool), p.activeLen ≤ p.cap →
      (∃ id, call.CheckedOut p id call.commitId) → call.ReturnsSame p := by
  intro hall
  have hsame : sampleRequest.CheckedOut withUnread 0 sampleRequest.commitId := ⟨_, List.mem_cons_self, rfl, rfl⟩
  obtain ⟨id, p', hrun, -⟩ := hall sampleRequest withUnread (by decide) ⟨0, hsame⟩
  cases hrun

end Evobench.Run

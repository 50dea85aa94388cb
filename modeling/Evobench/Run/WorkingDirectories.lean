import Evobench.Run.RunQueues

/-!
# Working directories and their cleanup

A job is run in a working directory of a pool. After a successful run the directory may be deleted: the
`auto_clean` configuration gives an age and a number of runs that it must have reached, and the flag
`wait_until_commit_done` is to keep it while there is more to do for its commit.

## The model

* `WorkingDirectory.needsCleanup`: the decision, on the directory's status, the clock, and the answer of
  the closure about other jobs.
* `processInWorkingDirectory`, `workingDirectoryCleanup`: a run in a directory of the pool, and what comes
  after it; `runJobInPool` is how `JobRunnerWithJob::run_job` uses them.
* `RunQueuesData.haveMoreJobRunsForSameCommit`: the closure, on the data of the queues.

## What is proved

* `RunQueuesData.placesOf_eq`: the index of the jobs by commit lists the entries of the commit.
* `deleted_iff_of_run`: when a successful run has deleted its directory.
* `cleanup_as_documented_iff`: when that is what the documentation of the flag says.

## Honest scope

The count of runs is not bounded here. The commands, git, and the files that are written on the way are
outside operations that may fail.
-/

namespace Evobench.Run

open Library SerdeTypes KeyValFs IoUtils

/-! ### Directories -/

/-- `Status` -/
inductive Status where
  /-- Only checked out for that commit. -/
  | checkedOut
  /-- Currently running. -/
  | processing
  /-- Project benchmarking gave an error for that commit. -/
  | error
  /-- Project benchmarking ran through for that commit. -/
  | finished
  /-- Marked for examination. -/
  | examination
deriving DecidableEq, Repr

/-- Whether the daemon is allowed to use the directory. -/
def Status.canBeUsedForJobs : Status → Bool
  | checkedOut => true
  | processing => true
  | finished => true
  | error => false
  | examination => false

/-- A working directory, with its status. -/
structure WorkingDirectory where
  /-- When it was made. -/
  creationTimestamp : SystemTime
  /-- How many runs were started in it. -/
  numRuns : ℕ
  /-- The status. -/
  status : Status
  /-- Whether the status file is out of date. -/
  statusNeedsSaving : Bool
deriving DecidableEq

/-- The `auto_clean` configuration. -/
structure WorkingDirectoryAutoCleanOpts where
  /-- The minimum age in days. -/
  minAgeDays : UInt16
  /-- The minimum number of runs. -/
  minNumRuns : ℕ
  /-- If true, directories are not deleted when any job for the same commit id is in the queue. -/
  waitUntilCommitDone : Bool
deriving DecidableEq

namespace WorkingDirectory

/-- Set the status, and count a run that starts. -/
def setStatus (wd : WorkingDirectory) (status : Status) : WorkingDirectory :=
  if wd.status ≠ status then
    { wd with status := status, numRuns := if status = .processing then wd.numRuns + 1 else wd.numRuns }
  else { wd with status := status }

/-- `needs_cleanup`, at the given time -/
def needsCleanup (wd : WorkingDirectory) (opts : Option WorkingDirectoryAutoCleanOpts)
    (haveOtherJobsForSameCommit : Option Bool) (now : SystemTime) : Except CallError Bool :=
  match opts with
  | some ⟨minAgeDays, minNumRuns, waitUntilCommitDone⟩ =>
    let minAge : ℤ := 24 * 3600 * minAgeDays.toNat * 1000000000
    if now.nanos < wd.creationTimestamp.nanos then .error "calculating age for working directory"
    else
      let isOldEnough := decide (now.nanos - wd.creationTimestamp.nanos ≥ minAge)
      let isUsedEnough := decide (wd.numRuns ≥ minNumRuns)
      .ok (isOldEnough && isUsedEnough && (!waitUntilCommitDone ||
        match haveOtherJobsForSameCommit with
        | some have_ => have_
        | none => true))
  | none => .ok false

end WorkingDirectory

/-! ### The pool -/

/-- The operations of the pool. -/
inductive PoolOp where
  /-- `lock_mut` -/
  | lockMut
  /-- `set_current_working_directory` -/
  | setCurrentWorkingDirectory (id : WorkingDirectoryId)
  /-- Look an entry up. -/
  | getEntry (id : WorkingDirectoryId)
  /-- Change an entry. -/
  | setEntry (id : WorkingDirectoryId) (wd : WorkingDirectory)
  /-- Write the status file. -/
  | saveStatus (id : WorkingDirectoryId)
  /-- Bring the directory to the job's commit: whether that was a change. -/
  | checkout (id : WorkingDirectoryId)
  /-- Run the benchmarking command, and what belongs to it. -/
  | runCommand (id : WorkingDirectoryId)
  /-- `save_processing_error` -/
  | saveProcessingError (id : WorkingDirectoryId)
  /-- `SystemTime::now` -/
  | systemTime
  /-- Take an entry out of the pool. -/
  | removeEntry (id : WorkingDirectoryId)
  /-- `remove_dir_all` -/
  | removeDirAll (id : WorkingDirectoryId)
  /-- Move the results of the run in place. -/
  | moveResults

/-- Their answers. -/
def PoolAns : PoolOp → Type
  | .lockMut => Except CallError Unit
  | .setCurrentWorkingDirectory _ => Except CallError Unit
  | .getEntry _ => Option WorkingDirectory
  | .setEntry _ _ => Unit
  | .saveStatus _ => Except CallError Unit
  | .checkout _ => Except CallError Bool
  | .runCommand _ => Except CallError Unit
  | .saveProcessingError _ => Except CallError Unit
  | .systemTime => SystemTime
  | .removeEntry _ => Unit
  | .removeDirAll _ => Except CallError Unit
  | .moveResults => Except CallError Unit

/-- A program on the pool. -/
abbrev PoolProg := Prog PoolOp PoolAns CallError

/-- The pool and its surroundings. -/
structure PoolWorld where
  /-- The entries of the pool. -/
  allEntries : WorkingDirectoryId → Option WorkingDirectory
  /-- The directories on the disk. -/
  dirs : List WorkingDirectoryId
  /-- The clock when it is read. -/
  now : SystemTime
  /-- The answers of the operations that can fail, one after the other; `true` means a change to `checkout`. -/
  env : ℕ → Except CallError Bool
  /-- The number of these operations so far. -/
  tick : ℕ

namespace PoolWorld

/-- The answer of the next operation that can fail. -/
def answer (s : PoolWorld) : Except CallError Bool := s.env s.tick

/-- The same without a value. -/
def outcome (s : PoolWorld) : Except CallError Unit := s.answer.map fun _ => ()

/-- Go on. -/
def next (s : PoolWorld) : PoolWorld := { s with tick := s.tick + 1 }

end PoolWorld

/-- The effect of the operations. -/
def poolAct : (o : PoolOp) → PoolWorld → Option (PoolAns o × PoolWorld)
  | .lockMut, s => some (s.outcome, s.next)
  | .setCurrentWorkingDirectory _, s => some (s.outcome, s.next)
  | .getEntry id, s => some (s.allEntries id, s)
  | .setEntry id wd, s => some ((), { s with allEntries := Function.update s.allEntries id (some wd) })
  | .saveStatus _, s => some (s.outcome, s.next)
  | .checkout _, s => some (s.answer, s.next)
  | .runCommand _, s => some (s.outcome, s.next)
  | .saveProcessingError _, s => some (s.outcome, s.next)
  | .systemTime, s => some (s.now, s)
  | .removeEntry id, s => some ((), { s with allEntries := Function.update s.allEntries id none })
  | .removeDirAll id, s =>
    match s.outcome with
    | .error e => some (.error e, s.next)
    | .ok () =>
      if id ∈ s.dirs then some (.ok (), { s.next with dirs := s.dirs.filter (· ≠ id) })
      else some (.error "No such file or directory", s.next)
  | .moveResults, s => some (s.outcome, s.next)

/-- The pool as a machine. -/
def poolMachine : Machine PoolOp PoolAns PoolWorld := ⟨poolAct⟩

/-- A linear token that says what to do with a directory after a run. -/
structure WorkingDirectoryCleanupToken where
  /-- The directory. -/
  workingDirectoryId : WorkingDirectoryId
  /-- Whether to delete it. -/
  needsCleanup : Bool
deriving DecidableEq

namespace Pool

variable (id : WorkingDirectoryId)

/-- `lock_mut` -/
def lockMut : PoolProg Unit := Prog.op .lockMut Prog.ofExcept

/-- `set_current_working_directory` -/
def setCurrentWorkingDirectory : PoolProg Unit := Prog.op (.setCurrentWorkingDirectory id) Prog.ofExcept

/-- `get_working_directory_mut` -/
def getEntry : PoolProg (Option WorkingDirectory) := Prog.op (.getEntry id) Prog.ret

/-- Change an entry. -/
def setEntry (wd : WorkingDirectory) : PoolProg Unit := Prog.op (.setEntry id wd) Prog.ret

/-- Write the status file. -/
def saveStatus : PoolProg Unit := Prog.op (.saveStatus id) Prog.ofExcept

/-- The git commands of `checkout`: whether the commit was changed -/
def checkout : PoolProg Bool := Prog.op (.checkout id) Prog.ofExcept

/-- Run the benchmarking command. -/
def runCommand : PoolProg Unit := Prog.op (.runCommand id) Prog.ofExcept

/-- `save_processing_error` -/
def saveProcessingError : PoolProg Unit := Prog.op (.saveProcessingError id) Prog.ofExcept

/-- `SystemTime::now` -/
def systemTime : PoolProg SystemTime := Prog.op .systemTime Prog.ret

/-- Take an entry out of the pool. -/
def removeEntry : PoolProg Unit := Prog.op (.removeEntry id) Prog.ret

/-- `remove_dir_all` -/
def removeDirAll : PoolProg Unit := Prog.op (.removeDirAll id) Prog.ofExcept

/-- Move the results of the run in place. -/
def moveResults : PoolProg Unit := Prog.op .moveResults Prog.ofExcept

/-- `set_and_save_status` -/
def setAndSaveStatus (wd : WorkingDirectory) (status : Status) : PoolProg Unit := do
  setEntry id (wd.setStatus status)
  if wd.status ≠ status ∨ wd.statusNeedsSaving = true then
    saveStatus id
  setEntry id { wd.setStatus status with statusNeedsSaving := false }

/-- The action of `run_job`: check the commit out and run the command. -/
def runAction : PoolProg Unit := do
  if ← checkout id then
    match ← getEntry id with
    | none => .panic "not removed"
    | some wd => setAndSaveStatus id wd .checkedOut
  runCommand id

/-- The part of `process_in_working_directory` after the action. -/
def afterAction (autoClean : Option WorkingDirectoryAutoCleanOpts) (haveOtherJobsForSameCommit : Option Bool) :
    Except CallError Unit → PoolProg WorkingDirectoryCleanupToken
  | .ok () => do
    lockMut
    match ← getEntry id with
    | none => .panic "we're not removing it in the mean time"
    | some wd => do
      setAndSaveStatus id wd .finished
      match ← getEntry id with
      | none => .panic "we're not removing it in the mean time"
      | some wd => do
        let now ← systemTime
        let needsCleanup ← Prog.ofExcept (wd.needsCleanup autoClean haveOtherJobsForSameCommit now)
        pure ⟨id, needsCleanup⟩
  | .error error => do
    lockMut
    match ← getEntry id with
    | none => .panic "we're not removing it in the mean time"
    | some wd => do
      setAndSaveStatus id wd .error
      saveProcessingError id
      .throw error

/-- `process_in_working_directory` -/
def processInWorkingDirectory (autoClean : Option WorkingDirectoryAutoCleanOpts)
    (haveOtherJobsForSameCommit : Option Bool) : PoolProg WorkingDirectoryCleanupToken := do
  lockMut
  setCurrentWorkingDirectory id
  match ← getEntry id with
  | none => .throw "working directory id must still exist"
  | some wd =>
    if wd.status.canBeUsedForJobs then do
      setAndSaveStatus id wd .processing
      let result ← (runAction id).attempt
      afterAction id autoClean haveOtherJobsForSameCommit result
    else .throw "working directory is set aside"

/-- `delete_working_directory` -/
def deleteWorkingDirectory : PoolProg Unit := do
  match ← getEntry id with
  | none => .throw "working directory id must still exist"
  | some _ => do
    removeEntry id
    removeDirAll id

/-- `working_directory_cleanup` -/
def workingDirectoryCleanup (token : WorkingDirectoryCleanupToken) : PoolProg Unit :=
  if token.needsCleanup then do
    lockMut
    deleteWorkingDirectory token.workingDirectoryId
  else pure ()

/-- What `JobRunnerWithJob::run_job` does with the pool; the closure gives `haveMore`. -/
def runJobInPool (autoClean : Option WorkingDirectoryAutoCleanOpts) (haveMore : Bool) : PoolProg Unit := do
  let token ← processInWorkingDirectory id autoClean (some haveMore)
  workingDirectoryCleanup token
  moveResults

end Pool

/-! ### What a run does -/

namespace Pool

variable {id : WorkingDirectoryId} {s : PoolWorld} {α β : Type}

/-- Between `s` and `t` nothing has happened but steps that can fail. -/
structure Goes (s t : PoolWorld) : Prop where
  /-- The entries. -/
  allEntries : t.allEntries = s.allEntries
  /-- The directories. -/
  dirs : t.dirs = s.dirs
  /-- The clock. -/
  now : t.now = s.now

/-- Between `s` and `t` only the entry of `id` has changed, to `wd`. -/
structure Sets (id : WorkingDirectoryId) (wd : WorkingDirectory) (s t : PoolWorld) : Prop where
  /-- The entry. -/
  entry : t.allEntries id = some wd
  /-- The directories. -/
  dirs : t.dirs = s.dirs
  /-- The clock. -/
  now : t.now = s.now

/-- `Q` holds when `p` returns a value. -/
def OnOk (Q : α → PoolWorld → Prop) (p : PoolProg α) (s : PoolWorld) : Prop :=
  Prog.Holds poolMachine (fun _ => True) (fun r t => match r with
    | .ok a => Q a t
    | _ => True) p s

theorem onOk_ret {Q : α → PoolWorld → Prop} {a : α} (h : Q a s) : OnOk Q (pure a) s := ⟨trivial, h⟩

theorem onOk_panic {Q : α → PoolWorld → Prop} {msg : String} : OnOk Q (.panic msg) s := ⟨trivial, trivial⟩

theorem onOk_throw {Q : α → PoolWorld → Prop} {e : CallError} : OnOk Q (.throw e) s := ⟨trivial, trivial⟩

theorem onOk_ofExcept {Q : α → PoolWorld → Prop} {x : Except CallError α} (h : ∀ a, x = .ok a → Q a s) :
    OnOk Q (Prog.ofExcept x) s := by
  cases x with
  | ok a => exact ⟨trivial, h a rfl⟩
  | error e => exact ⟨trivial, trivial⟩

theorem onOk_bind {Q : β → PoolWorld → Prop} {p : PoolProg α} {f : α → PoolProg β}
    (h : OnOk (fun a t => OnOk Q (f a) t) p s) : OnOk Q (p >>= f) s := by
  refine Prog.holds_bind.2 (Prog.Holds.imp h fun r t hr => ?_)
  cases r with
  | ok a => exact hr
  | err e => trivial
  | panic msg => trivial

theorem onOk_of_all {Q : α → PoolWorld → Prop} {p : PoolProg α} (h : ∀ a t, Q a t) : OnOk Q p s := by
  refine Prog.Holds.imp (Prog.holds_of_act (fun _ _ _ _ _ _ => trivial) p trivial) fun r t _ => ?_
  cases r with
  | ok a => exact h a t
  | err e => trivial
  | panic msg => trivial

theorem onOk_attempt {Q : Except CallError α → PoolWorld → Prop} {p : PoolProg α}
    (h : OnOk (fun a t => Q (.ok a) t) p s) (herror : ∀ e t, Q (.error e) t) : OnOk Q p.attempt s := by
  refine Prog.holds_attempt.2 (Prog.Holds.imp h fun r t hr => ?_)
  cases r with
  | ok a => exact hr
  | err e => exact herror e t
  | panic msg => trivial

/-- After an operation that can only succeed or fail. -/
theorem onOk_fallible {Q : α → PoolWorld → Prop} {o : PoolOp} {k : PoolAns o → PoolProg α} {x : PoolAns o}
    {t : PoolWorld} (hact : poolAct o s = some (x, t)) (h : OnOk Q (k x) t) : OnOk Q (.op o k) s := by
  refine ⟨trivial, fun x' t' hx => ?_⟩
  obtain ⟨rfl, rfl⟩ := Prod.mk.inj (Option.some.inj (hact.symm.trans hx))
  exact h

theorem goes_next (s : PoolWorld) : Goes s s.next := ⟨rfl, rfl, rfl⟩

theorem onOk_lockMut {Q : Unit → PoolWorld → Prop} (h : ∀ t, Goes s t → Q () t) : OnOk Q lockMut s :=
  onOk_fallible rfl (onOk_ofExcept fun _ _ => h _ (goes_next s))

theorem onOk_setCurrentWorkingDirectory {Q : Unit → PoolWorld → Prop} (h : ∀ t, Goes s t → Q () t) :
    OnOk Q (setCurrentWorkingDirectory id) s :=
  onOk_fallible rfl (onOk_ofExcept fun _ _ => h _ (goes_next s))

theorem onOk_saveStatus {Q : Unit → PoolWorld → Prop} (h : ∀ t, Goes s t → Q () t) : OnOk Q (saveStatus id) s :=
  onOk_fallible rfl (onOk_ofExcept fun _ _ => h _ (goes_next s))

theorem onOk_checkout {Q : Bool → PoolWorld → Prop} (h : ∀ b t, Goes s t → Q b t) : OnOk Q (checkout id) s :=
  onOk_fallible rfl (onOk_ofExcept fun b _ => h b _ (goes_next s))

theorem onOk_runCommand {Q : Unit → PoolWorld → Prop} (h : ∀ t, Goes s t → Q () t) : OnOk Q (runCommand id) s :=
  onOk_fallible rfl (onOk_ofExcept fun _ _ => h _ (goes_next s))

theorem onOk_moveResults {Q : Unit → PoolWorld → Prop} (h : ∀ t, Goes s t → Q () t) : OnOk Q moveResults s :=
  onOk_fallible rfl (onOk_ofExcept fun _ _ => h _ (goes_next s))

theorem onOk_removeDirAll {Q : Unit → PoolWorld → Prop} (h : ∀ t, id ∉ t.dirs → Q () t) :
    OnOk Q (removeDirAll id) s := by
  cases houtcome : s.outcome with
  | error e =>
    have hact : poolAct (.removeDirAll id) s = some (.error e, s.next) := by simp only [poolAct, houtcome]
    exact onOk_fallible hact ⟨trivial, trivial⟩
  | ok x =>
    by_cases hid : id ∈ s.dirs
    · have hact : poolAct (.removeDirAll id) s = some (.ok (), { s.next with dirs := s.dirs.filter (· ≠ id) }) := by
        simp only [poolAct, houtcome, hid, if_true]
      exact onOk_fallible hact ⟨trivial, h _ (by simp)⟩
    · have hact : poolAct (.removeDirAll id) s = some (.error "No such file or directory", s.next) := by
        simp only [poolAct, houtcome, hid, if_false]
      exact onOk_fallible hact ⟨trivial, trivial⟩

/-- Setting a status: the entry is changed, and nothing else. -/
theorem onOk_setAndSaveStatus {Q : Unit → PoolWorld → Prop} {wd : WorkingDirectory} {status : Status}
    (h : ∀ t, Sets id { wd.setStatus status with statusNeedsSaving := false } s t → Q () t) :
    OnOk Q (setAndSaveStatus id wd status) s := by
  -- the last step, from a state that differs from `s` in the entries only
  have hlast : ∀ {t : PoolWorld}, t.dirs = s.dirs → t.now = s.now →
      OnOk Q (setEntry id { wd.setStatus status with statusNeedsSaving := false }) t := fun hdirs hnow =>
    onOk_fallible rfl ⟨trivial, h _ ⟨Function.update_self _ _ _, hdirs, hnow⟩⟩
  refine onOk_bind (onOk_fallible rfl (onOk_ret ?_))
  split_ifs
  · exact onOk_bind (onOk_saveStatus fun t ht => hlast ht.dirs ht.now)
  · exact hlast rfl rfl

/-- What is looked up is what has been set. -/
theorem onOk_getEntry {Q : β → PoolWorld → Prop} {wd : WorkingDirectory} {f : Option WorkingDirectory → PoolProg β}
    (hentry : s.allEntries id = some wd) (h : OnOk Q (f (some wd)) s) : OnOk Q (getEntry id >>= f) s :=
  onOk_bind (onOk_fallible rfl (onOk_ret (by rw [hentry]; exact h)))

/-- The entry of `id` has got another status at most, with the creation time and the number of runs of `wd`. -/
structure Keeps (id : WorkingDirectoryId) (wd : WorkingDirectory) (s t : PoolWorld) : Prop where
  /-- The entry. -/
  entry : ∃ wd', t.allEntries id = some wd' ∧ wd'.creationTimestamp = wd.creationTimestamp ∧ wd'.numRuns = wd.numRuns
  /-- The directories. -/
  dirs : t.dirs = s.dirs
  /-- The clock. -/
  now : t.now = s.now

theorem creationTimestamp_setStatus (wd : WorkingDirectory) (status : Status) :
    (wd.setStatus status).creationTimestamp = wd.creationTimestamp := by
  unfold WorkingDirectory.setStatus
  split
  · rfl
  · rfl

theorem numRuns_setStatus {wd : WorkingDirectory} {status : Status} (h : status ≠ .processing) :
    (wd.setStatus status).numRuns = wd.numRuns := by
  simp only [WorkingDirectory.setStatus, if_neg h]
  split
  · rfl
  · rfl

theorem onOk_runAction {Q : Unit → PoolWorld → Prop} {wd : WorkingDirectory} (hentry : s.allEntries id = some wd)
    (h : ∀ t, Keeps id wd s t → Q () t) : OnOk Q (runAction id) s := by
  refine onOk_bind (onOk_checkout fun changed u hu => ?_)
  have hentry' : u.allEntries id = some wd := by rw [hu.allEntries, hentry]
  cases changed with
  | false =>
    refine onOk_runCommand fun t ht => h t ⟨⟨wd, by rw [ht.allEntries, hentry'], rfl, rfl⟩, ?_, ?_⟩
    · rw [ht.dirs, hu.dirs]
    · rw [ht.now, hu.now]
  | true =>
    refine onOk_getEntry hentry' (onOk_bind (onOk_setAndSaveStatus fun v hv => ?_))
    refine onOk_runCommand fun t ht => h t ⟨⟨_, by rw [ht.allEntries]; exact hv.entry, ?_, ?_⟩, ?_, ?_⟩
    · exact creationTimestamp_setStatus wd .checkedOut
    · exact numRuns_setStatus (by decide)
    · rw [ht.dirs, hv.dirs, hu.dirs]
    · rw [ht.now, hv.now, hu.now]

/-- The part after a successful action asks `needsCleanup`. -/
theorem onOk_afterAction {Q : WorkingDirectoryCleanupToken → PoolWorld → Prop}
    {autoClean : Option WorkingDirectoryAutoCleanOpts} {have_ : Option Bool} {wd : WorkingDirectory}
    (hentry : s.allEntries id = some wd)
    (h : ∀ (t : PoolWorld) (wd' : WorkingDirectory) (needs : Bool), Keeps id wd s t →
      wd'.creationTimestamp = wd.creationTimestamp → wd'.numRuns = wd.numRuns →
      wd'.needsCleanup autoClean have_ s.now = .ok needs → Q ⟨id, needs⟩ t) :
    OnOk Q (afterAction id autoClean have_ (.ok ())) s := by
  refine onOk_bind (onOk_lockMut fun u hu => ?_)
  refine onOk_getEntry (by rw [hu.allEntries, hentry]) (onOk_bind (onOk_setAndSaveStatus fun t ht => ?_))
  refine onOk_getEntry ht.entry (onOk_bind (onOk_fallible rfl (onOk_ret ?_)))
  refine onOk_bind (onOk_ofExcept fun needs hneeds => onOk_ret ?_)
  have hdirs : t.dirs = s.dirs := ht.dirs.trans hu.dirs
  have hnow : t.now = s.now := ht.now.trans hu.now
  have hcreation : (wd.setStatus .finished).creationTimestamp = wd.creationTimestamp := creationTimestamp_setStatus _ _
  have hruns : (wd.setStatus .finished).numRuns = wd.numRuns := numRuns_setStatus (by decide)
  rw [hnow] at hneeds
  exact h t _ needs ⟨⟨_, ht.entry, hcreation, hruns⟩, hdirs, hnow⟩ hcreation hruns hneeds

theorem onOk_workingDirectoryCleanup {Q : Unit → PoolWorld → Prop} {needs : Bool}
    (hkeep : needs = false → Q () s) (hdelete : ∀ t, needs = true → id ∉ t.dirs → Q () t) :
    OnOk Q (workingDirectoryCleanup ⟨id, needs⟩) s := by
  cases needs with
  | false => exact onOk_ret (hkeep rfl)
  | true =>
    refine onOk_bind (onOk_lockMut fun u _ => onOk_bind (onOk_fallible rfl (onOk_ret ?_)))
    cases u.allEntries id with
    | none => exact onOk_throw
    | some wd => exact onOk_bind (onOk_fallible rfl (onOk_ret (onOk_removeDirAll fun t ht => hdelete t rfl ht)))

/-- **A successful run** deletes its directory exactly if `needsCleanup` says so, on the entry with the run counted. -/
theorem onOk_runJobInPool (autoClean : Option WorkingDirectoryAutoCleanOpts) (haveMore : Bool) {wd : WorkingDirectory}
    (hentry : s.allEntries id = some wd) (hdir : id ∈ s.dirs) :
    OnOk (fun _ t => ∃ (wd' : WorkingDirectory) (needs : Bool), wd'.creationTimestamp = wd.creationTimestamp ∧
      wd'.numRuns = (wd.setStatus .processing).numRuns ∧ wd'.needsCleanup autoClean (some haveMore) s.now = .ok needs ∧
      (id ∉ t.dirs ↔ needs = true)) (runJobInPool id autoClean haveMore) s := by
  refine onOk_bind (onOk_bind (onOk_lockMut fun s₁ h₁ => ?_))
  refine onOk_bind (onOk_setCurrentWorkingDirectory fun s₂ h₂ => ?_)
  refine onOk_getEntry (by rw [h₂.allEntries, h₁.allEntries, hentry]) ?_
  by_cases husable : wd.status.canBeUsedForJobs = true
  case neg =>
    simp only [husable]
    exact onOk_throw
  simp only [husable, if_true]
  refine onOk_bind (onOk_setAndSaveStatus fun s₃ h₃ => onOk_bind (onOk_attempt (onOk_runAction h₃.entry ?_) ?_))
  case refine_2 =>
    -- a failed action ends in an error
    intro e t
    refine onOk_bind (onOk_of_all fun _ u => onOk_bind (onOk_of_all fun entry v => ?_))
    cases entry with
    | none => exact onOk_panic
    | some wd =>
      exact onOk_bind (onOk_of_all fun _ _ => onOk_bind (onOk_of_all fun _ _ => onOk_throw))
  intro s₄ h₄
  obtain ⟨wd₄, hentry₄, hcreation₄, hruns₄⟩ := h₄.entry
  refine onOk_afterAction hentry₄ fun s₅ wd₅ needs h₅ hcreation₅ hruns₅ hneeds => ?_
  have hnow : s₄.now = s.now := h₄.now.trans (h₃.now.trans (h₂.now.trans h₁.now))
  have hdirs : s₅.dirs = s.dirs :=
    h₅.dirs.trans (h₄.dirs.trans (h₃.dirs.trans (h₂.dirs.trans h₁.dirs)))
  have hcreation : wd₅.creationTimestamp = wd.creationTimestamp :=
    hcreation₅.trans (hcreation₄.trans (creationTimestamp_setStatus wd .processing))
  have hruns : wd₅.numRuns = (wd.setStatus .processing).numRuns := hruns₅.trans hruns₄
  rw [hnow] at hneeds
  refine onOk_bind (onOk_workingDirectoryCleanup ?_ ?_)
  · rintro rfl
    refine onOk_moveResults fun t ht => ⟨wd₅, false, hcreation, hruns, hneeds, ?_⟩
    rw [ht.dirs, hdirs]
    simp [hdir]
  · rintro u rfl hu
    refine onOk_moveResults fun t ht => ⟨wd₅, true, hcreation, hruns, hneeds, ?_⟩
    rw [ht.dirs]
    simp [hu]

end Pool

/-! ### The jobs of a commit -/

namespace RunQueuesData

/-- The entries of a queue's data with their places, in the `i`-th queue, from the `j`-th entry on. -/
def placed (i : ℕ) : ℕ → List (TimeKey × BenchmarkingJob × Priority) → List ((ℕ × ℕ) × BenchmarkingJob)
  | _, [] => []
  | j, (_, job, _) :: rest => ((i, j), job) :: placed i (j + 1) rest

/-- The entries of all queues from the `i`-th one on. -/
def placedFrom : ℕ → List RunQueueData → List ((ℕ × ℕ) × BenchmarkingJob)
  | _, [] => []
  | i, data :: rest => placed i 0 data.queueData ++ placedFrom (i + 1) rest

/-- All entries of the pipeline with their places. -/
def entries (data : RunQueuesData) : List ((ℕ × ℕ) × BenchmarkingJob) := placedFrom 0 data.pipelineData

/-- The commit of a job. -/
def commitOf (job : BenchmarkingJob) : GitHash := job.pub.runParameters.commitId

/-- `have_more_job_runs_for_same_commit` -/
def haveMoreJobRunsForSameCommit (data : RunQueuesData) (job : BenchmarkingJob) : Bool :=
  if job.state.remainingCount > 1 then true
  else decide ((data.placesOf job.pub.runParameters.commitId).length > 1)

/-- The places entered for a commit. -/
def entered (m : AList fun _ : GitHash => List (ℕ × ℕ)) (commitId : GitHash) : List (ℕ × ℕ) :=
  (m.lookup commitId).getD []

/-- The places of the entries of a commit. -/
def placesIn (l : List ((ℕ × ℕ) × BenchmarkingJob)) (commitId : GitHash) : List (ℕ × ℕ) :=
  (l.filter fun x => commitOf x.2 = commitId).map Prod.fst

theorem placesIn_append (l l' : List ((ℕ × ℕ) × BenchmarkingJob)) (commitId : GitHash) :
    placesIn (l ++ l') commitId = placesIn l commitId ++ placesIn l' commitId := by
  simp [placesIn]

theorem entered_addJob (m : AList fun _ : GitHash => List (ℕ × ℕ)) (c c' : GitHash) (place : ℕ × ℕ) :
    entered (addJob m c place) c' = if c = c' then entered m c' ++ [place] else entered m c' := by
  unfold addJob
  by_cases hc : c = c'
  · subst hc
    cases hm : m.lookup c with
    | none => simp [entered, hm]
    | some places => simp [entered, hm]
  · have hc' : c' ≠ c := fun h => hc h.symm
    cases hm : m.lookup c with
    | none => simp [entered, hc, AList.lookup_insert_ne hc']
    | some places => simp [entered, hc, AList.lookup_insert_ne hc']

theorem entered_addJobs (m : AList fun _ : GitHash => List (ℕ × ℕ)) (i j : ℕ)
    (l : List (TimeKey × BenchmarkingJob × Priority)) (c : GitHash) :
    entered (addJobs m i j l) c = entered m c ++ placesIn (placed i j l) c := by
  induction l generalizing m j with
  | nil => simp [addJobs, placed, placesIn]
  | cons x rest ih =>
    obtain ⟨key, job, priority⟩ := x
    rw [addJobs, ih, entered_addJob, placed]
    by_cases hc : job.pub.runParameters.commitId = c
    · simp [hc, placesIn, commitOf]
    · simp [hc, placesIn, commitOf]

theorem entered_indexJobs (m : AList fun _ : GitHash => List (ℕ × ℕ)) (i : ℕ) (l : List RunQueueData) (c : GitHash) :
    entered (indexJobs m i l) c = entered m c ++ placesIn (placedFrom i l) c := by
  induction l generalizing m i with
  | nil => simp [indexJobs, placedFrom, placesIn]
  | cons data rest ih => rw [indexJobs, ih, entered_addJobs, placedFrom, placesIn_append, List.append_assoc]

/-- **The index by commit** lists the places of the entries with that commit, in order. -/
theorem placesOf_eq {data : RunQueuesData} (h : data.jobsByCommitId = indexJobs ∅ 0 data.pipelineData) (c : GitHash) :
    data.placesOf c = placesIn data.entries c := by
  have hempty : entered ∅ c = [] := rfl
  rw [placesOf, h]
  change entered (indexJobs ∅ 0 data.pipelineData) c = _
  rw [entered_indexJobs, hempty, List.nil_append, entries]

theorem mem_placed {i j : ℕ} {l : List (TimeKey × BenchmarkingJob × Priority)} {x : (ℕ × ℕ) × BenchmarkingJob}
    (h : x ∈ placed i j l) : x.1.1 = i ∧ j ≤ x.1.2 := by
  induction l generalizing j with
  | nil => cases h
  | cons y rest ih =>
    obtain ⟨key, job, priority⟩ := y
    rcases List.mem_cons.1 h with rfl | h
    · exact ⟨rfl, le_rfl⟩
    · obtain ⟨hi, hj⟩ := ih h
      exact ⟨hi, Nat.le_of_succ_le hj⟩

theorem mem_placedFrom {i : ℕ} {l : List RunQueueData} {x : (ℕ × ℕ) × BenchmarkingJob} (h : x ∈ placedFrom i l) :
    i ≤ x.1.1 := by
  induction l generalizing i with
  | nil => cases h
  | cons data rest ih =>
    rcases List.mem_append.1 h with h | h
    · exact (mem_placed h).1.ge
    · have := ih h
      omega

theorem nodup_placed (i j : ℕ) (l : List (TimeKey × BenchmarkingJob × Priority)) :
    ((placed i j l).map Prod.fst).Nodup := by
  induction l generalizing j with
  | nil => exact List.nodup_nil
  | cons y rest ih =>
    obtain ⟨key, job, priority⟩ := y
    rw [placed, List.map_cons, List.nodup_cons]
    refine ⟨fun hmem => ?_, ih (j + 1)⟩
    obtain ⟨x, hx, he⟩ := List.mem_map.1 hmem
    have hle := (mem_placed hx).2
    rw [he] at hle
    exact Nat.lt_irrefl j hle

/-- No place is listed twice. -/
theorem nodup_placedFrom (i : ℕ) (l : List RunQueueData) : ((placedFrom i l).map Prod.fst).Nodup := by
  induction l generalizing i with
  | nil => exact List.nodup_nil
  | cons data rest ih =>
    rw [placedFrom, List.map_append, List.nodup_append']
    refine ⟨nodup_placed i 0 _, ih (i + 1), ?_⟩
    intro place hplace hplace'
    obtain ⟨x, hx, rfl⟩ := List.mem_map.1 hplace
    obtain ⟨y, hy, he⟩ := List.mem_map.1 hplace'
    have h1 := (mem_placed hx).1
    have h2 := mem_placedFrom hy
    rw [he] at h2
    omega

/-- There is more than one entry of the commit exactly if there is one in another place. -/
theorem one_lt_length_iff {data : RunQueuesData} {place : ℕ × ℕ} {job : BenchmarkingJob}
    (h : data.jobsByCommitId = indexJobs ∅ 0 data.pipelineData) (hjob : (place, job) ∈ data.entries) :
    1 < (data.placesOf (commitOf job)).length ↔ ∃ x ∈ data.entries, x.1 ≠ place ∧ commitOf x.2 = commitOf job := by
  have hmem : place ∈ data.placesOf (commitOf job) := by
    rw [placesOf_eq h]
    exact List.mem_map.2 ⟨(place, job), List.mem_filter.2 ⟨hjob, by simp⟩, rfl⟩
  have hnodup : (data.placesOf (commitOf job)).Nodup := by
    rw [placesOf_eq h]
    exact (nodup_placedFrom 0 data.pipelineData).sublist (List.filter_sublist.map Prod.fst)
  constructor
  · intro hlen
    obtain ⟨place', hplace', hne⟩ : ∃ place' ∈ data.placesOf (commitOf job), place' ≠ place := by
      by_contra hall
      push Not at hall
      have hsub : data.placesOf (commitOf job) ⊆ [place] := fun p hp => List.mem_singleton.2 (hall p hp)
      have hle := (List.subperm_of_subset hnodup hsub).length_le
      rw [List.length_singleton] at hle
      omega
    rw [placesOf_eq h] at hplace'
    obtain ⟨x, hx, rfl⟩ := List.mem_map.1 hplace'
    obtain ⟨hx, hcommit⟩ := List.mem_filter.1 hx
    exact ⟨x, hx, hne, by simpa using hcommit⟩
  · rintro ⟨x, hx, hne, hcommit⟩
    have hmem' : x.1 ∈ data.placesOf (commitOf job) := by
      rw [placesOf_eq h]
      exact List.mem_map.2 ⟨x, List.mem_filter.2 ⟨hx, by simpa using hcommit⟩, rfl⟩
    have hsub : [x.1, place] ⊆ data.placesOf (commitOf job) := by
      intro p hp
      rcases List.mem_pair.1 hp with rfl | rfl
      · exact hmem'
      · exact hmem
    have hpair : [x.1, place].Nodup := by simpa using hne
    exact (List.subperm_of_subset hpair hsub).length_le

/-- More has to be done for the commit of a picked job: by the job itself, or by another entry of the pipeline. -/
def MoreRuns (data : RunQueuesData) (place : ℕ × ℕ) (job : BenchmarkingJob) : Prop :=
  1 < job.state.remainingCount.toNat ∨ ∃ x ∈ data.entries, x.1 ≠ place ∧ commitOf x.2 = commitOf job

theorem haveMoreJobRunsForSameCommit_iff {data : RunQueuesData} {place : ℕ × ℕ} {job : BenchmarkingJob}
    (h : data.jobsByCommitId = indexJobs ∅ 0 data.pipelineData) (hjob : (place, job) ∈ data.entries) :
    data.haveMoreJobRunsForSameCommit job = true ↔ data.MoreRuns place job := by
  have hcount : job.state.remainingCount > 1 ↔ 1 < job.state.remainingCount.toNat := UInt8.lt_iff_toNat_lt
  unfold haveMoreJobRunsForSameCommit MoreRuns
  rw [← one_lt_length_iff h hjob, ← hcount]
  split_ifs with hc
  · simp [hc]
  · simp [hc, commitOf]

end RunQueuesData

/-! ### When a directory is deleted -/

/-- The directory has reached the age and the number of runs, with the run that is starting counted. -/
def WorkingDirectoryAutoCleanOpts.Reached (opts : WorkingDirectoryAutoCleanOpts) (wd : WorkingDirectory)
    (now : SystemTime) : Prop :=
  24 * 3600 * (opts.minAgeDays.toNat : ℤ) * 1000000000 ≤ now.nanos - wd.creationTimestamp.nanos ∧
    opts.minNumRuns ≤ (wd.setStatus .processing).numRuns

/-- After a successful run the directory is gone exactly if the thresholds are reached and, when the flag is set, the
closure has answered that there is more to do. -/
theorem deleted_iff_of_run {id : WorkingDirectoryId} {opts : WorkingDirectoryAutoCleanOpts} {haveMore : Bool}
    {wd : WorkingDirectory} {s t : PoolWorld} (hentry : s.allEntries id = some wd) (hdir : id ∈ s.dirs)
    (hrun : (Pool.runJobInPool id (some opts) haveMore).run poolMachine s = some (.ok (), t)) :
    id ∉ t.dirs ↔ opts.Reached wd s.now ∧ (opts.waitUntilCommitDone = true → haveMore = true) := by
  obtain ⟨wd', needs, hcreation, hruns, hneeds, hdeleted⟩ :=
    ((Prog.holds_iff _).1 (Pool.onOk_runJobInPool (some opts) haveMore hentry hdir)).2 _ _ hrun
  rw [hdeleted]
  obtain ⟨days, runs, wait⟩ := opts
  simp only [WorkingDirectory.needsCleanup, hcreation, hruns] at hneeds
  split_ifs at hneeds with hage
  cases hneeds
  simp only [WorkingDirectoryAutoCleanOpts.Reached, Bool.and_eq_true, Bool.or_eq_true, decide_eq_true_eq,
    Bool.not_eq_true', ge_iff_le]
  cases wait with
  | false => simp
  | true => simp

/-- **The documented cleanup.** A successful run of a job that was picked from the loaded data deletes its directory as
the flag is documented exactly if the flag is not set or the thresholds are not reached. -/
theorem cleanup_as_documented_iff {qs : RunQueues} {pid : Pid} {v v' : EvoWorld} {data : RunQueuesData} {place : ℕ × ℕ}
    {job : BenchmarkingJob} {id : WorkingDirectoryId} {opts : WorkingDirectoryAutoCleanOpts} {wd : WorkingDirectory}
    {s t : PoolWorld} (hdata : qs.data.run (machine pid) v = some (.ok data, v')) (hjob : (place, job) ∈ data.entries)
    (hentry : s.allEntries id = some wd) (hdir : id ∈ s.dirs)
    (hrun : (Pool.runJobInPool id (some opts) (data.haveMoreJobRunsForSameCommit job)).run poolMachine s =
      some (.ok (), t)) :
    (id ∉ t.dirs ↔ opts.Reached wd s.now ∧ (opts.waitUntilCommitDone = true → ¬ data.MoreRuns place job)) ↔
      opts.waitUntilCommitDone = false ∨ ¬ opts.Reached wd s.now := by
  obtain ⟨-, -, hindex, -⟩ := ((Prog.holds_iff _).1 qs.safe_data).2 _ _ hdata
  rw [deleted_iff_of_run hentry hdir hrun, RunQueuesData.haveMoreJobRunsForSameCommit_iff hindex hjob]
  by_cases hreached : opts.Reached wd s.now
  · cases hwait : opts.waitUntilCommitDone with
    | false => simp
    | true =>
      simp only [hreached, true_and, true_implies, not_true_eq_false, or_false, Bool.true_eq_false, iff_false]
      exact fun h => iff_not_self h
  · simp [hreached]

/-- A pool with one directory, in which everything works. -/
def samplePool : PoolWorld where
  allEntries := Function.update (fun _ => none) 7 (some ⟨.epoch, 80, .finished, false⟩)
  dirs := [7]
  now := ⟨4 * 24 * 3600 * 1000000000, by decide⟩
  env := fun _ => .ok false
  tick := 0

/-- The recommended thresholds. -/
def sampleOpts (wait : Bool) : WorkingDirectoryAutoCleanOpts := ⟨3, 80, wait⟩

/-- A run in the directory of that pool, for a job with more to do for its commit. -/
def sampleCleanup (wait : Bool) : PoolProg Unit := Pool.runJobInPool 7 (some (sampleOpts wait)) true

/-- The pool after it. -/
def sampleCleanedUp (wait : Bool) : PoolWorld :=
  (((sampleCleanup wait).run poolMachine samplePool).getD (.panic "", samplePool)).2

theorem sampleCleanup_run (wait : Bool) :
    (sampleCleanup wait).run poolMachine samplePool = some (.ok (), sampleCleanedUp wait) := by
  have hok : ∀ wait, ((sampleCleanup wait).run poolMachine samplePool).map Prod.fst = some (.ok ()) := by
    decide +kernel
  obtain ⟨⟨r, t⟩, hrun, rfl⟩ := Option.map_eq_some_iff.1 (hok wait)
  rw [sampleCleanedUp, hrun]
  rfl

/-- The data of the small configuration. -/
def sampleData : RunQueuesData :=
  match sampleQueues.data.run (machine 5) sampleWorld with
  | some (.ok data, _) => data
  | _ => ⟨sampleQueues, [], ∅⟩

theorem sampleData_run : ∃ v', sampleQueues.data.run (machine 5) sampleWorld = some (.ok sampleData, v') := by
  have hok : ((sampleQueues.data.run (machine 5) sampleWorld).map fun x => x.1.isOk) = some true := by decide +kernel
  obtain ⟨⟨r, v'⟩, hrun, hr⟩ := Option.map_eq_some_iff.1 hok
  cases r with
  | ok data => exact ⟨v', by rw [sampleData, hrun]⟩
  | err e => cases hr
  | panic msg => cases hr

theorem sampleData_mem : ((0, 0), sampleJob) ∈ sampleData.entries := by decide +kernel

/-- Without the flag the directory is deleted as documented. -/
theorem cleanup_as_documented_sample :
    (7 ∉ (sampleCleanedUp false).dirs ↔ (sampleOpts false).Reached ⟨.epoch, 80, .finished, false⟩ samplePool.now ∧
      ((sampleOpts false).waitUntilCommitDone = true → ¬ sampleData.MoreRuns (0, 0) sampleJob)) ↔
      (sampleOpts false).waitUntilCommitDone = false ∨
        ¬ (sampleOpts false).Reached ⟨.epoch, 80, .finished, false⟩ samplePool.now := by
  obtain ⟨v', hdata⟩ := sampleData_run
  have hmore : sampleData.haveMoreJobRunsForSameCommit sampleJob = true := by decide +kernel
  exact cleanup_as_documented_iff hdata sampleData_mem rfl (by decide)
    (by rw [hmore]; exact sampleCleanup_run false)

/-- With the flag the directory is deleted although the job itself still has to be run. -/
theorem cleanup_not_as_documented :
    ¬ ∀ (qs : RunQueues) (pid : Pid) (v v' : EvoWorld) (data : RunQueuesData) (place : ℕ × ℕ) (job : BenchmarkingJob)
      (id : WorkingDirectoryId) (opts : WorkingDirectoryAutoCleanOpts) (wd : WorkingDirectory) (s t : PoolWorld),
      qs.data.run (machine pid) v = some (.ok data, v') → (place, job) ∈ data.entries → s.allEntries id = some wd →
      id ∈ s.dirs → (Pool.runJobInPool id (some opts) (data.haveMoreJobRunsForSameCommit job)).run poolMachine s =
        some (.ok (), t) →
      (id ∉ t.dirs ↔ opts.Reached wd s.now ∧ (opts.waitUntilCommitDone = true → ¬ data.MoreRuns place job)) := by
  intro hall
  obtain ⟨v', hdata⟩ := sampleData_run
  have hmore : sampleData.haveMoreJobRunsForSameCommit sampleJob = true := by decide +kernel
  have hclaim := hall sampleQueues 5 sampleWorld v' sampleData (0, 0) sampleJob 7 (sampleOpts true) _ samplePool
    (sampleCleanedUp true) hdata sampleData_mem rfl (by decide) (by rw [hmore]; exact sampleCleanup_run true)
  have hdeleted : 7 ∉ (sampleCleanedUp true).dirs := by decide +kernel
  exact (hclaim.1 hdeleted).2 rfl (.inl (by decide))

end Evobench.Run

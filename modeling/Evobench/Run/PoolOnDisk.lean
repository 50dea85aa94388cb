import Evobench.Run.WorkingDirectoryPool

/-!
# The pool in memory and on disk

The pool has a map of its directories, and the base directory has the directories. An operation changes the one and the other
in several steps, each of which can fail: `get_new` enters a directory after it has been cloned, its HEAD has been read and its
status has been saved; `delete_working_directory` takes it out of the map before it is removed.

## The model

* `CloneAnswers`: the steps of `clone_repo` with what comes of each.
* `OpStep`, `OpRun`: the operations on the map and the base directory of `PoolSystem`.

## What is proved

* `memory_agrees_iff`: in every run in which no failure comes between the two, the map has exactly the ids of the directories;
  and each further operation keeps it so exactly if this is so for it.

## Honest scope

Other processes do not touch the base directory.
-/

namespace Evobench.Run

open Library IoUtils

/-! ### Operations -/

/-- What the steps of `clone_repo` come to. -/
structure CloneAnswers where
  /-- `git_clone` -/
  gitClone : Except CallError Unit
  /-- Whether a directory is left when it fails. -/
  leftOver : Bool
  /-- `get_head_commit_id` -/
  head : Except CallError GitHash
  /-- The time. -/
  now : SystemTime
  /-- Write the status file. -/
  saveStatus : Except CallError Unit

namespace CloneAnswers

/-- `clone_repo` -/
def cloneRepo (a : CloneAnswers) (_dirFileName : List Char) : Except CallError WorkingDirectory := do
  a.gitClone
  let _ ← a.head
  let wd : WorkingDirectory := ⟨a.now, 0, .checkedOut, true⟩
  a.saveStatus
  pure { wd with statusNeedsSaving := false }

/-- There is a directory afterwards. -/
def makesDirectory (a : CloneAnswers) : Bool := a.gitClone.isOk || a.leftOver

theorem makesDirectory_of_cloneRepo {a : CloneAnswers} {dirFileName : List Char} {wd : WorkingDirectory}
    (h : a.cloneRepo dirFileName = .ok wd) : a.makesDirectory = true := by
  obtain ⟨x, hclone, -⟩ := except_bind_eq_ok.1 h
  rw [makesDirectory, hclone]
  rfl

end CloneAnswers

/-- `set_and_save_status` on an entry of the pool -/
def WorkingDirectoryPoolState.setStatus (pool : WorkingDirectoryPoolState) (id : WorkingDirectoryId)
    (entry : List Char × WorkingDirectory) (status : Status) (saved : Bool) : WorkingDirectoryPoolState :=
  let wd := { entry.2.setStatus status with statusNeedsSaving := entry.2.statusNeedsSaving && !saved }
  { pool with allEntries := Function.update pool.allEntries id (some (entry.1, wd)) }

/-- The directories with an id are the same, whatever else was written. -/
def SameIds (files files' : BaseDir) : Prop :=
  ∀ name id, OsString.directoryId name = some id → (files' name = some true ↔ files name = some true)

/-- An operation, with what decides how it goes. -/
inductive PoolOperation where
  /-- `open` -/
  | open_
  /-- `open`, with an error -/
  | openFails
  /-- `get_new` -/
  | allocate (clone : CloneAnswers)
  /-- `delete_working_directory`, and whether `remove_dir_all` has removed the directory -/
  | delete (id : WorkingDirectoryId) (gone : Bool)
  /-- `set_and_save_status`, and whether the file could be saved -/
  | setAside (id : WorkingDirectoryId) (status : Status) (saved : Bool)

/-- The steps. -/
inductive OpStep : PoolOperation → PoolSystem → PoolSystem → Prop where
  /-- The pool is opened. -/
  | open_ {files files' : BaseDir} {before : Option WorkingDirectoryPoolState} {entries : List (OsString × Bool)}
    {openDir : List Char → Except CallError WorkingDirectory} {pool : WorkingDirectoryPoolState}
    (hlist : Lists entries files) (hopen : WorkingDirectoryPoolState.open_ openDir (.ok (readDir entries)) = .ok pool)
    (hfiles : SameIds files files') : OpStep .open_ ⟨files, before⟩ ⟨files', some pool⟩
  /-- The pool could not be opened. -/
  | openFails {files files' : BaseDir} {before : Option WorkingDirectoryPoolState} (hfiles : SameIds files files') :
    OpStep .openFails ⟨files, before⟩ ⟨files', none⟩
  /-- A directory is made, or not. -/
  | allocate {files files' : BaseDir} {pool pool' : WorkingDirectoryPoolState} {clone : CloneAnswers}
    {result : Except CallError WorkingDirectoryId} (hrun : pool.getNew clone.cloneRepo = .ok (result, pool'))
    (hfiles : SameIds
      (if clone.makesDirectory then Function.update files (directoryName pool.nextId) (some true) else files) files') :
    OpStep (.allocate clone) ⟨files, some pool⟩ ⟨files', some pool'⟩
  /-- A directory is deleted. -/
  | delete {files files' : BaseDir} {pool pool' : WorkingDirectoryPoolState} {id : WorkingDirectoryId} {gone : Bool}
    {fname : List Char} {wd : WorkingDirectory} {removeDirAll : List Char → Except CallError Unit}
    {result : Except CallError Unit} (hentry : pool.allEntries id = some (fname, wd))
    (hrun : pool.deleteWorkingDirectory id removeDirAll = (result, pool'))
    (hgone : result = .ok () → gone = true)
    (hfiles : SameIds (if gone then Function.update files (.ofChars fname) none else files) files') :
    OpStep (.delete id gone) ⟨files, some pool⟩ ⟨files', some pool'⟩
  /-- The directory to be deleted is unknown. -/
  | deleteUnknown {files : BaseDir} {pool pool' : WorkingDirectoryPoolState} {id : WorkingDirectoryId} {gone : Bool}
    {removeDirAll : List Char → Except CallError Unit} {result : Except CallError Unit}
    (hentry : pool.allEntries id = none) (hrun : pool.deleteWorkingDirectory id removeDirAll = (result, pool')) :
    OpStep (.delete id gone) ⟨files, some pool⟩ ⟨files, some pool'⟩
  /-- The status of a directory is set. -/
  | setAside {files files' : BaseDir} {pool : WorkingDirectoryPoolState} {id : WorkingDirectoryId}
    {entry : List Char × WorkingDirectory} {status : Status} {saved : Bool} (hentry : pool.allEntries id = some entry)
    (hfiles : SameIds files files') :
    OpStep (.setAside id status saved) ⟨files, some pool⟩ ⟨files', some (pool.setStatus id entry status saved)⟩

/-- The runs whose operations satisfy `P` in the states before them. -/
inductive OpRun (P : PoolOperation → PoolSystem → Prop) : PoolSystem → PoolSystem → Prop where
  /-- No operation. -/
  | nil (s : PoolSystem) : OpRun P s s
  /-- One more operation. -/
  | step {s₀ s s' : PoolSystem} {op : PoolOperation} (hrun : OpRun P s₀ s) (hop : P op s) (hstep : OpStep op s s') :
    OpRun P s₀ s'

/-! ### Agreement -/

namespace PoolSystem

/-- The map of an open pool has exactly the ids `N` for which there is a directory `N`. -/
def Agrees (s : PoolSystem) : Prop :=
  ∀ pool, s.pool = some pool → ∀ id, pool.allEntries id ≠ none ↔ s.files (directoryName id) = some true

/-- No failure comes between the map and the base directory. -/
def NothingBetween (op : PoolOperation) (s : PoolSystem) : Prop :=
  match op with
  | .open_ => ∀ name id, s.files name = some true → OsString.directoryId name = some id → s.files (directoryName id) = some true
  | .openFails => True
  | .allocate clone => (∃ wd, ∀ fname, clone.cloneRepo fname = .ok wd) ∨ clone.makesDirectory = false
  | .delete id gone => ∀ pool fname wd, s.pool = some pool → pool.allEntries id = some (fname, wd) →
      fname = toDirectoryFileName id ∧ gone = true
  | .setAside _ _ _ => True

/-- What the runs keep. -/
structure Kept (s : PoolSystem) : Prop where
  /-- The map and the base directory agree. -/
  agrees : s.Agrees
  /-- The entries have names with their ids. -/
  named : ∀ pool, s.pool = some pool → ∀ id entry, pool.allEntries id = some entry →
    OsString.directoryId (.ofChars entry.1) = some id
  /-- The ids are used up. -/
  below : ∀ pool, s.pool = some pool → ∀ id, pool.allEntries id ≠ none → id < pool.nextId

end PoolSystem

/-! ### What opening a pool finds -/

/-- What was found is entered. -/
theorem ne_none_of_openDirectories {openDir : List Char → Except CallError WorkingDirectory}
    {found : List (WorkingDirectoryId × List Char)}
    {before allEntries : WorkingDirectoryId → Option (List Char × WorkingDirectory)}
    (h : openDirectories openDir found before = .ok allEntries) {id : WorkingDirectoryId}
    (hid : before id ≠ none ∨ ∃ fname, (id, fname) ∈ found) : allEntries id ≠ none := by
  induction found generalizing before with
  | nil =>
    cases h
    rcases hid with hbefore | ⟨fname, hmem⟩
    · exact hbefore
    · cases hmem
  | cons x found ih =>
    obtain ⟨id', fname'⟩ := x
    obtain ⟨wd, -, h⟩ := except_bind_eq_ok.1 h
    refine ih h ?_
    rcases hid with hbefore | ⟨fname, hmem⟩
    · left
      rw [Function.update_apply]
      split
      · exact Option.some_ne_none _
      · exact hbefore
    · rcases List.mem_cons.1 hmem with he | hmem
      · left
        cases he
        rw [Function.update_self]
        exact Option.some_ne_none _
      · exact .inr ⟨fname, hmem⟩

section Open

variable {openDir : List Char → Except CallError WorkingDirectory} {entries : List (OsString × Bool)} {files : BaseDir}
  {pool : WorkingDirectoryPoolState}

/-- The entries of an opened pool are directories with their ids. -/
theorem directory_of_open (hlist : Lists entries files)
    (h : WorkingDirectoryPoolState.open_ openDir (.ok (readDir entries)) = .ok pool) {id : WorkingDirectoryId}
    {entry : List Char × WorkingDirectory} (hentry : pool.allEntries id = some entry) :
    files (.ofChars entry.1) = some true ∧ OsString.directoryId (.ofChars entry.1) = some id := by
  obtain ⟨found, hscan, hopen⟩ := WorkingDirectoryPoolState.open_eq_ok h
  obtain ⟨-, -, -, hfound⟩ := openEntries_spec hscan
  rcases mem_of_openDirectories hopen hentry with hmem | hnone
  · rw [hfound, List.mem_filterMap] at hmem
    obtain ⟨e, he, hfound'⟩ := hmem
    obtain ⟨rfl, hid⟩ := foundDirectory_eq_some_iff.1 hfound'
    exact ⟨(hlist _ _).1 he, hid⟩
  · cases hnone

/-- The ids of an opened pool are those of all directories. -/
theorem ne_none_iff_of_open (hlist : Lists entries files)
    (h : WorkingDirectoryPoolState.open_ openDir (.ok (readDir entries)) = .ok pool) {id : WorkingDirectoryId} :
    pool.allEntries id ≠ none ↔ ∃ name, files name = some true ∧ OsString.directoryId name = some id := by
  constructor
  · intro hid
    obtain ⟨entry, hentry⟩ := Option.ne_none_iff_exists'.1 hid
    exact ⟨_, directory_of_open hlist h hentry⟩
  · rintro ⟨name, hname, hid⟩
    obtain ⟨found, hscan, hopen⟩ := WorkingDirectoryPoolState.open_eq_ok h
    obtain ⟨-, -, -, hfound⟩ := openEntries_spec hscan
    obtain ⟨cs, hcs, -⟩ := Option.bind_eq_some_iff.1 hid
    obtain rfl := OsString.eq_ofChars_of_toStr hcs
    refine ne_none_of_openDirectories hopen (.inr ⟨cs, ?_⟩)
    rw [hfound, List.mem_filterMap]
    exact ⟨_, (hlist _ _).2 hname, foundDirectory_eq_some_iff.2 ⟨rfl, hid⟩⟩

end Open

/-! ### One operation -/

theorem SameIds.directory {files files' : BaseDir} (h : SameIds files files') (id : WorkingDirectoryId) :
    files' (directoryName id) = some true ↔ files (directoryName id) = some true :=
  h _ id (directoryId_directoryName id)

theorem directoryName_inj {id id' : WorkingDirectoryId} (h : directoryName id = directoryName id') : id = id' := by
  have hid := directoryId_directoryName id
  rw [h, directoryId_directoryName] at hid
  exact (Option.some.inj hid).symm

/-- The map after `get_new`. -/
theorem allEntries_of_getNew {pool pool' : WorkingDirectoryPoolState}
    {cloneRepo : List Char → Except CallError WorkingDirectory} {result : Except CallError WorkingDirectoryId}
    (h : pool.getNew cloneRepo = .ok (result, pool')) :
    pool.nextId < pool'.nextId ∧
      ((∃ e, cloneRepo (toDirectoryFileName pool.nextId) = .error e ∧ pool'.allEntries = pool.allEntries) ∨
        ∃ wd, cloneRepo (toDirectoryFileName pool.nextId) = .ok wd ∧ pool'.allEntries =
          Function.update pool.allEntries pool.nextId (some (toDirectoryFileName pool.nextId, wd))) := by
  obtain ⟨⟨id, pool₁⟩, hid, h⟩ := Outcome.bind_eq_ok.1 h
  obtain ⟨rfl, hlt, hentries⟩ := eq_of_takeNextId hid
  cases hclone : cloneRepo (toDirectoryFileName pool.nextId) with
  | error e =>
    simp only [hclone] at h
    cases h
    exact ⟨hlt, .inl ⟨e, rfl, hentries⟩⟩
  | ok wd =>
    simp only [hclone] at h
    cases h
    refine ⟨hlt, .inr ⟨wd, rfl, ?_⟩⟩
    rw [hentries]

namespace PoolSystem

variable {files : BaseDir} {pool : WorkingDirectoryPoolState} {s s' : PoolSystem} {op : PoolOperation}

theorem agrees_some : (PoolSystem.mk files (some pool)).Agrees ↔
    ∀ id, pool.allEntries id ≠ none ↔ files (directoryName id) = some true := by
  refine ⟨fun h => h pool rfl, fun h pool' hpool => ?_⟩
  rw [← Option.some.inj hpool]
  exact h

/-- What is written elsewhere does not matter. -/
theorem agrees_of_sameIds {files' : BaseDir} (h : SameIds files files') :
    (PoolSystem.mk files' (some pool)).Agrees ↔ (PoolSystem.mk files (some pool)).Agrees := by
  rw [agrees_some, agrees_some]
  exact forall_congr' fun id => by rw [h.directory id]

/-- A directory that is entered, and made. -/
theorem agrees_enter {allEntries : WorkingDirectoryId → Option (List Char × WorkingDirectory)} {id : WorkingDirectoryId}
    {entry : List Char × WorkingDirectory} (h : ∀ id', allEntries id' ≠ none ↔ files (directoryName id') = some true)
    (id' : WorkingDirectoryId) : Function.update allEntries id (some entry) id' ≠ none ↔
      Function.update files (directoryName id) (some true) (directoryName id') = some true := by
  by_cases hid : id' = id
  · rw [hid, Function.update_self, Function.update_self]
    exact ⟨fun _ => rfl, fun _ => Option.some_ne_none _⟩
  · have hname : directoryName id' ≠ directoryName id := fun hname => hid (directoryName_inj hname)
    rw [Function.update_of_ne hid, Function.update_of_ne hname]
    exact h id'

/-- A directory that is taken out, and removed. -/
theorem agrees_remove {allEntries : WorkingDirectoryId → Option (List Char × WorkingDirectory)} {id : WorkingDirectoryId}
    (h : ∀ id', allEntries id' ≠ none ↔ files (directoryName id') = some true) (id' : WorkingDirectoryId) :
    Function.update allEntries id none id' ≠ none ↔
      Function.update files (directoryName id) none (directoryName id') = some true := by
  by_cases hid : id' = id
  · rw [hid, Function.update_self, Function.update_self]
    simp
  · have hname : directoryName id' ≠ directoryName id := fun hname => hid (directoryName_inj hname)
    rw [Function.update_of_ne hid, Function.update_of_ne hname]
    exact h id'

/-- **One operation** keeps the agreement exactly if no failure comes between. -/
theorem agrees_step_iff (h : s.Kept) (hstep : OpStep op s s') : s'.Agrees ↔ NothingBetween op s := by
  cases hstep with
  | @open_ files files' before entries openDir pool hlist hopen hfiles =>
    rw [agrees_of_sameIds hfiles, agrees_some]
    constructor
    · intro hagrees name id hname hid
      exact (hagrees id).1 ((ne_none_iff_of_open hlist hopen).2 ⟨name, hname, hid⟩)
    · intro hspelled id
      rw [ne_none_iff_of_open hlist hopen]
      constructor
      · rintro ⟨name, hname, hid⟩
        exact hspelled name id hname hid
      · intro hname
        exact ⟨_, hname, directoryId_directoryName id⟩
  | openFails hfiles =>
    refine ⟨fun _ => trivial, fun _ pool hpool => ?_⟩
    cases hpool
  | @allocate files files' pool pool' clone result hrun hfiles =>
    have hagrees := agrees_some.1 h.agrees
    obtain ⟨-, ⟨e, hclone, hentries⟩ | ⟨wd, hclone, hentries⟩⟩ := allEntries_of_getNew hrun
    · rw [agrees_of_sameIds hfiles, agrees_some, hentries]
      constructor
      · intro hafter
        right
        by_contra hmakes
        rw [Bool.not_eq_false] at hmakes
        rw [if_pos hmakes] at hafter
        have hknown := (hafter pool.nextId).2 (Function.update_self _ _ _)
        exact UInt64.lt_irrefl _ (h.below pool rfl pool.nextId hknown)
      · rintro (⟨wd, hok⟩ | hnone)
        · rw [hok] at hclone
          cases hclone
        · rw [if_neg (Bool.eq_false_iff.1 hnone)]
          exact hagrees
    · rw [agrees_of_sameIds hfiles, agrees_some, hentries, if_pos (CloneAnswers.makesDirectory_of_cloneRepo hclone)]
      refine ⟨fun _ => .inl ⟨wd, fun fname => ?_⟩, fun _ id => agrees_enter hagrees id⟩
      rw [← hclone]
      rfl
  | @delete files files' pool pool' id gone fname wd removeDirAll result hentry hrun hgone hfiles =>
    have hagrees := agrees_some.1 h.agrees
    have hpool' : pool'.allEntries = Function.update pool.allEntries id none := by
      rw [WorkingDirectoryPoolState.deleteWorkingDirectory, hentry] at hrun
      rw [← (Prod.mk.inj hrun).2]
    rw [agrees_of_sameIds hfiles, agrees_some, hpool']
    constructor
    · intro hafter pool₀ fname₀ wd₀ hpool₀ hentry₀
      obtain rfl := Option.some.inj hpool₀
      rw [hentry] at hentry₀
      cases hentry₀
      have hbefore : files (directoryName id) = some true := by
        apply (hagrees id).1
        rw [hentry]
        exact Option.some_ne_none _
      -- the directory is not there any more, so it was removed under this name
      have hgoneNow : ¬ (if gone = true then Function.update files (.ofChars fname) none else files) (directoryName id) =
          some true := by
        intro hthere
        exact (hafter id).2 hthere (Function.update_self _ _ _)
      split_ifs at hgoneNow with hremoved
      · refine ⟨?_, hremoved⟩
        by_contra hne
        have hname : directoryName id ≠ OsString.ofChars fname := by
          intro hname
          have hcs := congrArg OsString.toStr hname
          rw [directoryName, OsString.toStr_ofChars, OsString.toStr_ofChars] at hcs
          exact hne (Option.some.inj hcs).symm
        rw [Function.update_of_ne hname] at hgoneNow
        exact hgoneNow hbefore
      · exact absurd hbefore hgoneNow
    · intro hnothing id'
      obtain ⟨rfl, hremoved⟩ := hnothing pool fname wd rfl hentry
      rw [if_pos hremoved]
      exact agrees_remove hagrees id'
  | @deleteUnknown files pool pool' id gone removeDirAll result hentry hrun =>
    have hpool' : pool' = pool := by
      rw [WorkingDirectoryPoolState.deleteWorkingDirectory, hentry] at hrun
      exact (Prod.mk.inj hrun).2.symm
    rw [hpool']
    refine ⟨fun _ pool₀ fname wd hpool₀ hentry₀ => ?_, fun _ => h.agrees⟩
    rw [← Option.some.inj hpool₀, hentry] at hentry₀
    cases hentry₀
  | @setAside files files' pool id entry status saved hentry hfiles =>
    have hagrees := agrees_some.1 h.agrees
    rw [agrees_of_sameIds hfiles, agrees_some]
    refine ⟨fun _ => trivial, fun _ id' => ?_⟩
    rw [← hagrees id', WorkingDirectoryPoolState.setStatus]
    dsimp only
    rw [Function.update_apply]
    split
    · next hid =>
      rw [hid, hentry]
      simp
    · rfl

/-- The entries keep their names, and the ids are used up. -/
theorem kept_of_step (h : s.Kept) (hop : NothingBetween op s) (hstep : OpStep op s s') : s'.Kept := by
  have hagrees := (agrees_step_iff h hstep).2 hop
  suffices hentries : ∀ pool', s'.pool = some pool' → ∀ id entry, pool'.allEntries id = some entry →
      OsString.directoryId (.ofChars entry.1) = some id ∧ id < pool'.nextId by
    refine ⟨hagrees, fun pool' hpool' id entry hentry => (hentries pool' hpool' id entry hentry).1, fun pool' hpool' id hid => ?_⟩
    obtain ⟨entry, hentry⟩ := Option.ne_none_iff_exists'.1 hid
    exact (hentries pool' hpool' id entry hentry).2
  have hbefore : ∀ pool, s.pool = some pool → ∀ id entry, pool.allEntries id = some entry →
      OsString.directoryId (.ofChars entry.1) = some id ∧ id < pool.nextId := by
    intro pool hpool id entry hentry
    refine ⟨h.named pool hpool id entry hentry, h.below pool hpool id ?_⟩
    rw [hentry]
    exact Option.some_ne_none _
  cases hstep with
  | open_ hlist hopen hfiles =>
    rintro pool' ⟨⟩ id entry hentry
    exact ⟨(directory_of_open hlist hopen hentry).2, lt_nextId_of_open hopen hentry⟩
  | openFails hfiles =>
    rintro pool' ⟨⟩
  | @allocate files files' pool pool' clone result hrun hfiles =>
    rintro pool'' ⟨⟩ id entry hentry
    obtain ⟨hlt, ⟨e, -, hentries⟩ | ⟨wd, -, hentries⟩⟩ := allEntries_of_getNew hrun
    · rw [hentries] at hentry
      obtain ⟨hid, hbelow⟩ := hbefore pool rfl id entry hentry
      exact ⟨hid, UInt64.lt_trans hbelow hlt⟩
    · rw [hentries, Function.update_apply] at hentry
      split_ifs at hentry with hid
      · cases hentry
        rw [hid]
        exact ⟨directoryId_directoryName _, hlt⟩
      · obtain ⟨hname, hbelow⟩ := hbefore pool rfl id entry hentry
        exact ⟨hname, UInt64.lt_trans hbelow hlt⟩
  | @delete files files' pool pool' id gone fname wd removeDirAll result hentry hrun hgone hfiles =>
    rintro pool'' ⟨⟩ id' entry' hentry'
    obtain ⟨hnext, hentries⟩ := eq_of_deleteWorkingDirectory hrun
    rw [hnext]
    exact hbefore pool rfl id' entry' (hentries id' entry' hentry')
  | @deleteUnknown files pool pool' id gone removeDirAll result hentry hrun =>
    rintro pool'' ⟨⟩ id' entry' hentry'
    obtain ⟨hnext, hentries⟩ := eq_of_deleteWorkingDirectory hrun
    rw [hnext]
    exact hbefore pool rfl id' entry' (hentries id' entry' hentry')
  | @setAside files files' pool id entry status saved hentry hfiles =>
    rintro pool'' ⟨⟩ id' entry' hentry'
    rw [WorkingDirectoryPoolState.setStatus] at hentry' ⊢
    dsimp only at hentry' ⊢
    rw [Function.update_apply] at hentry'
    split_ifs at hentry' with hid
    · cases hentry'
      rw [hid]
      exact hbefore pool rfl id entry hentry
    · exact hbefore pool rfl id' entry' hentry'

theorem kept_of_run {s₀ : PoolSystem} (h : s₀.Kept) (hrun : OpRun NothingBetween s₀ s) : s.Kept := by
  induction hrun with
  | nil => exact h
  | step _ hop hstep ih => exact kept_of_step ih hop hstep

/-- Before the pool is opened. -/
theorem kept_closed (files : BaseDir) : (PoolSystem.mk files none).Kept := by
  refine ⟨?_, ?_, ?_⟩
  · rintro pool ⟨⟩
  · rintro pool ⟨⟩
  · rintro pool ⟨⟩

end PoolSystem

/-- **The pool in memory and on disk**: in every run in which no failure comes between the map and the base directory they agree
after each operation, and then one more operation keeps them so exactly if none comes between in it. -/
theorem memory_agrees_iff {files : BaseDir} {s : PoolSystem} (hrun : OpRun PoolSystem.NothingBetween ⟨files, none⟩ s) :
    s.Agrees ∧ ∀ op s', OpStep op s s' → (s'.Agrees ↔ PoolSystem.NothingBetween op s) := by
  have hkept := PoolSystem.kept_of_run (PoolSystem.kept_closed files) hrun
  exact ⟨hkept.agrees, fun _ _ => PoolSystem.agrees_step_iff hkept⟩

/-! ### A directory that is forgotten -/

/-- The pool has been opened without directories, and a directory has been made. -/
theorem madeZero_run : OpRun PoolSystem.NothingBetween ⟨noFiles, none⟩
    ⟨Function.update noFiles (directoryName 0) (some true), some zeroPool⟩ := by
  let clone : CloneAnswers := ⟨.ok (), false, .ok ⟨0⟩, .epoch, .ok ()⟩
  have hopened : WorkingDirectoryPoolState.open_ (fun _ => .ok newWorkingDirectory) (.ok (readDir [])) = .ok newPool := rfl
  have hempty : Lists [] noFiles := by
    intro name isDir
    simp [noFiles]
  have hmade : newPool.getNew clone.cloneRepo = .ok (.ok 0, zeroPool) := rfl
  have hopen : OpStep .open_ ⟨noFiles, none⟩ ⟨noFiles, some newPool⟩ := .open_ hempty hopened fun _ _ _ => Iff.rfl
  have hallocate : OpStep (.allocate clone) ⟨noFiles, some newPool⟩
      ⟨Function.update noFiles (directoryName 0) (some true), some zeroPool⟩ := .allocate hmade fun _ _ _ => Iff.rfl
  have hnothing : PoolSystem.NothingBetween (.allocate clone) ⟨noFiles, some newPool⟩ :=
    Or.inl ⟨newWorkingDirectory, fun _ => rfl⟩
  refine .step (.step (.nil _) ?_ hopen) hnothing hallocate
  intro name id hname
  cases hname

/-- With the directory that has been made, the pool agrees. -/
theorem memory_agrees_sample :
    (PoolSystem.mk (Function.update noFiles (directoryName 0) (some true)) (some zeroPool)).Agrees ∧
      ∀ op s', OpStep op ⟨Function.update noFiles (directoryName 0) (some true), some zeroPool⟩ s' →
        (s'.Agrees ↔ PoolSystem.NothingBetween op ⟨Function.update noFiles (directoryName 0) (some true), some zeroPool⟩) :=
  memory_agrees_iff madeZero_run

/-- If a directory cannot be removed, the pool forgets it. -/
theorem directory_forgotten :
    ¬ ∀ (files : BaseDir) (s : PoolSystem), OpRun (fun _ _ => True) ⟨files, none⟩ s → s.Agrees := by
  intro hall
  have hmono : ∀ {s s' : PoolSystem}, OpRun PoolSystem.NothingBetween s s' → OpRun (fun _ _ => True) s s' := by
    intro s s' hrun
    induction hrun with
    | nil => exact .nil _
    | step _ _ hstep ih => exact .step ih trivial hstep
  have hdeleted : zeroPool.deleteWorkingDirectory 0 (fun _ => .error "deleting directory") =
      (.error "deleting directory", ⟨1, Function.update zeroPool.allEntries 0 none⟩) := rfl
  have hstep : OpStep (.delete 0 false) ⟨Function.update noFiles (directoryName 0) (some true), some zeroPool⟩
      ⟨Function.update noFiles (directoryName 0) (some true), some ⟨1, Function.update zeroPool.allEntries 0 none⟩⟩ :=
    .delete rfl hdeleted nofun fun _ _ _ => Iff.rfl
  have hagrees := PoolSystem.agrees_some.1 (hall noFiles _ (.step (hmono madeZero_run) trivial hstep))
  exact (hagrees 0).2 (Function.update_self _ _ _) rfl

end Evobench.Run

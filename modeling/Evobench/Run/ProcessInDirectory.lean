import Evobench.Run.WorkingDirectories

/-!
# Processing a working directory

`process_in_working_directory` (src/run/working_directory_pool.rs) makes the `current` link, sets the status of a directory to
`Processing`, runs an action in it, and sets the status to `Finished` or `Error`. Each of these can fail.

## The model

* `DirWorld`, `dirMachine`: the pool, the `current` link and the status files. The link cannot be made where there is one. A save
  that fails leaves the file (the rename is its last step), except that for a directory that cannot be used for jobs the
  permissions are set after the rename: then the file may have been replaced.
* `Pool.processWith`: the function for any action; `Pool.processInWorkingDirectory` is an instance.

## What is proved

* `processWith_spec`, `processed_consistently`: what is left after each way to end.

## Honest scope

The value of the action is handed on, it is not in the model. The lock is one of the operations that can fail: other processes
do not change the directory meanwhile.
-/

namespace Evobench.Run

open Library IoUtils

/-! ### The machine -/

/-- The pool with the link and the status files. -/
structure DirWorld where
  /-- The pool. -/
  pool : PoolWorld
  /-- Where the `current` link leads to. -/
  current : Option WorkingDirectoryId
  /-- The status files. -/
  saved : WorkingDirectoryId → Option Status
  /-- Whether a save that fails has failed after the rename, where there is something to do then. -/
  wrote : ℕ → Bool

namespace DirWorld

/-- The answer of the next operation that can fail. -/
def outcome (s : DirWorld) : Except CallError Unit := s.pool.outcome

/-- Go on. -/
def next (s : DirWorld) : DirWorld := { s with pool := s.pool.next }

/-- Change an entry. -/
def setEntry (s : DirWorld) (id : WorkingDirectoryId) (wd : WorkingDirectory) : DirWorld :=
  { s with pool := { s.pool with allEntries := Function.update s.pool.allEntries id (some wd) } }

/-- The answer of `symlink`. -/
def linkOutcome (s : DirWorld) : Except CallError Unit := if s.current = none then s.outcome else .error "File exists"

/-- The link is made if the answer is good. -/
def linked (s : DirWorld) (id : WorkingDirectoryId) : DirWorld :=
  match s.linkOutcome with
  | .ok () => { s.next with current := some id }
  | .error _ => s.next

/-- Whether a save that fails has replaced the status file: only the permissions are set after the rename, and only for a status
that cannot be used for jobs. -/
def replaced (s : DirWorld) (id : WorkingDirectoryId) : Bool :=
  s.wrote s.pool.tick && (s.pool.allEntries id).any fun wd => !wd.status.canBeUsedForJobs

/-- The status file, as the answer is good or bad. -/
def savedNext (s : DirWorld) (id : WorkingDirectoryId) : DirWorld :=
  if s.outcome.isOk = true ∨ s.replaced id = true then
    { s.next with saved := Function.update s.saved id ((s.pool.allEntries id).map (·.status)) }
  else s.next

end DirWorld

/-- The effect of the operations. -/
def dirAct : (o : PoolOp) → DirWorld → Option (PoolAns o × DirWorld)
  | .setCurrentWorkingDirectory id, s => some (s.linkOutcome, s.linked id)
  | .saveStatus id, s => some (s.outcome, s.savedNext id)
  | o, s => (poolAct o s.pool).map fun x => (x.1, { s with pool := x.2 })

/-- The pool with the link and the status files as a machine. -/
def dirMachine : Machine PoolOp PoolAns DirWorld := ⟨dirAct⟩

namespace Pool

/-- `process_in_working_directory` -/
def processWith (id : WorkingDirectoryId) (action : PoolProg Unit) (autoClean : Option WorkingDirectoryAutoCleanOpts)
    (haveOtherJobsForSameCommit : Option Bool) : PoolProg WorkingDirectoryCleanupToken := do
  lockMut
  setCurrentWorkingDirectory id
  match ← getEntry id with
  | none => .throw "working directory id must still exist"
  | some wd =>
    if wd.status.canBeUsedForJobs then do
      setAndSaveStatus id wd .processing
      let result ← action.attempt
      afterAction id autoClean haveOtherJobsForSameCommit result
    else .throw "working directory is set aside"

/-- What a job does is an instance. -/
theorem processInWorkingDirectory_eq (id : WorkingDirectoryId) (autoClean : Option WorkingDirectoryAutoCleanOpts)
    (haveOtherJobsForSameCommit : Option Bool) :
    processInWorkingDirectory id autoClean haveOtherJobsForSameCommit =
      processWith id (runAction id) autoClean haveOtherJobsForSameCommit := rfl

end Pool

/-! ### How it can end -/

/-- Whether `set_and_save_status` writes the file. -/
def WorkingDirectory.NeedsSaving (wd : WorkingDirectory) (status : Status) : Prop :=
  wd.status ≠ status ∨ wd.statusNeedsSaving = true

instance (wd : WorkingDirectory) (status : Status) : Decidable (wd.NeedsSaving status) :=
  inferInstanceAs (Decidable (_ ∨ _))

/-- The status has been set and saved. -/
structure Stored (id : WorkingDirectoryId) (wd : WorkingDirectory) (status : Status) (s t : DirWorld) : Prop where
  /-- The entry. -/
  entries : t.pool.allEntries =
    Function.update s.pool.allEntries id (some { wd.setStatus status with statusNeedsSaving := false })
  /-- The file, if it was written. -/
  saved : wd.NeedsSaving status → t.saved = Function.update s.saved id (some status)
  /-- The file, if not. -/
  kept : ¬ wd.NeedsSaving status → t.saved = s.saved
  /-- The link. -/
  current : t.current = s.current
  /-- The clock. -/
  now : t.pool.now = s.pool.now

/-- The status has been set, but not saved. -/
structure NotSaved (id : WorkingDirectoryId) (wd : WorkingDirectory) (status : Status) (s t : DirWorld) : Prop where
  /-- The entry. -/
  entries : t.pool.allEntries = Function.update s.pool.allEntries id (some (wd.setStatus status))
  /-- The file of a directory that can be used. -/
  kept : status.canBeUsedForJobs = true → t.saved = s.saved
  /-- The file. -/
  saved : t.saved = s.saved ∨ t.saved = Function.update s.saved id (some status)
  /-- The link. -/
  current : t.current = s.current

/-- Entries and files are the same. -/
structure SameDirectories (s t : DirWorld) : Prop where
  /-- The entries. -/
  entries : t.pool.allEntries = s.pool.allEntries
  /-- The files. -/
  saved : t.saved = s.saved

/-- What is left of a failure before the action is started. -/
inductive NotStarted (id : WorkingDirectoryId) (s t : DirWorld) : Prop where
  /-- There is no lock, or no new link: everything is as before. -/
  | asBefore (hsame : SameDirectories s t) (hcurrent : t.current = s.current)
  /-- The directory is unknown or cannot be used: there is a new link. -/
  | linkOnly (hsame : SameDirectories s t) (hbefore : s.current = none) (hcurrent : t.current = some id)
    (hentry : ∀ wd, s.pool.allEntries id = some wd → wd.status.canBeUsedForJobs = false)
  /-- The status could not be saved: there is a new link, and the entry has the new status; the files are as before. -/
  | unsaved {wd : WorkingDirectory} (hbefore : s.current = none) (hentry : s.pool.allEntries id = some wd)
    (husable : wd.status.canBeUsedForJobs = true) (hunsaved : NotSaved id wd .processing { s with current := some id } t)
    (hsaved : t.saved = s.saved)

/-- The action is started in `t`. -/
structure StartedIn (id : WorkingDirectoryId) (s t : DirWorld) : Prop where
  /-- The link. -/
  before : s.current = none
  /-- The directory is in status `Processing`. -/
  stored : ∃ wd, s.pool.allEntries id = some wd ∧ wd.status.canBeUsedForJobs = true ∧
    Stored id wd .processing { s with current := some id } t

/-- The status after an action. -/
def finalStatus : Except CallError Unit → Status
  | .ok () => .finished
  | .error _ => .error

/-- After the action, the lock can be taken and the status saved. -/
def SavesAfter (wd : WorkingDirectory) (status : Status) (s : DirWorld) : Prop :=
  s.outcome = .ok () ∧ (wd.NeedsSaving status → s.next.outcome = .ok ())

/-- How it ends after an action with the given result in `s`. -/
inductive EndsAfter (id : WorkingDirectoryId) (autoClean : Option WorkingDirectoryAutoCleanOpts)
    (haveOthers : Option Bool) (r : Except CallError Unit) (s : DirWorld) :
    Outcome CallError WorkingDirectoryCleanupToken → DirWorld → Prop where
  /-- There is no lock. -/
  | noLock {e : CallError} {t : DirWorld} (hlock : s.outcome = .error e) (hsame : SameDirectories s t) :
    EndsAfter id autoClean haveOthers r s (.err e) t
  /-- The directory has been removed. -/
  | removed {msg : String} {t : DirWorld} (hentry : s.pool.allEntries id = none) :
    EndsAfter id autoClean haveOthers r s (.panic msg) t
  /-- The status could not be saved. -/
  | unsaved {wd : WorkingDirectory} {e : CallError} {t : DirWorld} (hentry : s.pool.allEntries id = some wd)
    (hneeds : wd.NeedsSaving (finalStatus r)) (hsave : s.next.outcome = .error e)
    (hunsaved : NotSaved id wd (finalStatus r) s t) : EndsAfter id autoClean haveOthers r s (.err e) t
  /-- The action has failed, and the status is saved. -/
  | failed {wd : WorkingDirectory} {e e' : CallError} {t : DirWorld} (hentry : s.pool.allEntries id = some wd)
    (hr : r = .error e) (hsaves : SavesAfter wd .error s) (hstored : Stored id wd .error s t) :
    EndsAfter id autoClean haveOthers r s (.err e') t
  /-- The action has succeeded, and the status is saved. -/
  | finished {wd : WorkingDirectory} {t : DirWorld} (hentry : s.pool.allEntries id = some wd)
    (hr : r = .ok ()) (hsaves : SavesAfter wd .finished s) (hstored : Stored id wd .finished s t) :
    EndsAfter id autoClean haveOthers r s
      (Outcome.ofExcept (wd.needsCleanup autoClean haveOthers s.pool.now) >>= fun needs => .ok ⟨id, needs⟩) t

/-! ### Rules -/

namespace Pool

variable {α β : Type} {id : WorkingDirectoryId} {s : DirWorld} {autoClean : Option WorkingDirectoryAutoCleanOpts}
  {haveOthers : Option Bool}

/-- `p` ends as `Q` says. -/
def Ends (Q : Outcome CallError α → DirWorld → Prop) (p : PoolProg α) (s : DirWorld) : Prop :=
  Prog.Holds dirMachine (fun _ => True) Q p s

theorem ends_ofExcept {Q : Outcome CallError β → DirWorld → Prop} {x : Except CallError α} {f : α → PoolProg β}
    (herror : ∀ e, x = .error e → Q (.err e) s) (hok : ∀ a, x = .ok a → Ends Q (f a) s) :
    Ends Q (Prog.ofExcept x >>= f) s := by
  cases x with
  | ok a => exact hok a rfl
  | error e => exact ⟨trivial, herror e rfl⟩

theorem ends_lockMut {Q : Outcome CallError β → DirWorld → Prop} {f : Unit → PoolProg β}
    (herror : ∀ e, s.outcome = .error e → Q (.err e) s.next) (hok : s.outcome = .ok () → Ends Q (f ()) s.next) :
    Ends Q (lockMut >>= f) s :=
  Prog.holds_op_of_act trivial rfl (ends_ofExcept herror fun _ => hok)

theorem ends_setCurrentWorkingDirectory {Q : Outcome CallError β → DirWorld → Prop} {f : Unit → PoolProg β}
    (herror : ∀ e, s.linkOutcome = .error e → Q (.err e) s.next)
    (hok : s.current = none → Ends Q (f ()) { s.next with current := some id }) :
    Ends Q (setCurrentWorkingDirectory id >>= f) s := by
  cases hlink : s.linkOutcome with
  | error e =>
    have hact : dirAct (.setCurrentWorkingDirectory id) s = some (.error e, s.next) := by
      simp only [dirAct, DirWorld.linked, hlink]
    exact Prog.holds_op_of_act trivial hact ⟨trivial, herror e hlink⟩
  | ok x =>
    have hact : dirAct (.setCurrentWorkingDirectory id) s = some (.ok (), { s.next with current := some id }) := by
      simp only [dirAct, DirWorld.linked, hlink]
    have hnone : s.current = none := by
      by_contra hsome
      rw [DirWorld.linkOutcome, if_neg hsome] at hlink
      cases hlink
    exact Prog.holds_op_of_act trivial hact (hok hnone)

theorem ends_getEntry {Q : Outcome CallError β → DirWorld → Prop} {f : Option WorkingDirectory → PoolProg β}
    (h : Ends Q (f (s.pool.allEntries id)) s) : Ends Q (getEntry id >>= f) s :=
  Prog.holds_op_of_act trivial rfl h

/-- Setting and saving a status. -/
theorem ends_setAndSaveStatus {Q : Outcome CallError β → DirWorld → Prop} {f : Unit → PoolProg β} {wd : WorkingDirectory}
    {status : Status}
    (herror : ∀ e t, wd.NeedsSaving status → s.outcome = .error e → NotSaved id wd status s t → Q (.err e) t)
    (hok : ∀ t, (wd.NeedsSaving status → s.outcome = .ok ()) → Stored id wd status s t → Ends Q (f ()) t) :
    Ends Q (setAndSaveStatus id wd status >>= f) s := by
  let s₁ : DirWorld := s.setEntry id (wd.setStatus status)
  have hstatus : (wd.setStatus status).status = status := by
    rw [WorkingDirectory.setStatus]
    split
    · rfl
    · rfl
  -- the file as it is written
  have hsaved : Function.update s₁.saved id ((s₁.pool.allEntries id).map (·.status)) =
      Function.update s.saved id (some status) := by
    show Function.update s.saved id ((Function.update s.pool.allEntries id _ id).map _) = _
    rw [Function.update_self, Option.map_some, hstatus]
  refine Prog.holds_op_of_act (t := s₁) trivial rfl ?_
  show Ends Q ((if wd.NeedsSaving status then
      saveStatus id >>= fun _ => setEntry id { wd.setStatus status with statusNeedsSaving := false }
    else setEntry id { wd.setStatus status with statusNeedsSaving := false }) >>= f) s₁
  by_cases hneeds : wd.NeedsSaving status
  · rw [if_pos hneeds]
    cases houtcome : s.outcome with
    | error e =>
      have hact : dirAct (.saveStatus id) s₁ = some (.error e, s₁.savedNext id) := by
        show some (s.outcome, s₁.savedNext id) = _
        rw [houtcome]
        rfl
      refine Prog.holds_op_of_act trivial hact ⟨trivial, herror e _ hneeds houtcome ?_⟩
      have hreplaced : status.canBeUsedForJobs = true → s₁.replaced id = false := by
        intro husable
        have hentry : s₁.pool.allEntries id = some (wd.setStatus status) := Function.update_self _ _ _
        rw [DirWorld.replaced, hentry, Option.any_some, hstatus, husable, Bool.not_true, Bool.and_false]
      rw [DirWorld.savedNext]
      split
      case isTrue hwritten =>
        refine ⟨rfl, fun husable => ?_, .inr hsaved, rfl⟩
        rcases hwritten with hok | hwritten
        · replace hok : s.outcome.isOk = true := hok
          rw [houtcome] at hok
          cases hok
        · rw [hreplaced husable] at hwritten
          cases hwritten
      case isFalse => exact ⟨rfl, fun _ => rfl, .inl rfl, rfl⟩
    | ok x =>
      have hact : dirAct (.saveStatus id) s₁ = some (.ok (), s₁.savedNext id) := by
        show some (s.outcome, s₁.savedNext id) = _
        rw [houtcome]
        rfl
      have hok₁ : s₁.outcome.isOk = true := by
        show s.outcome.isOk = true
        rw [houtcome]
        rfl
      refine Prog.holds_op_of_act trivial hact (Prog.holds_op_of_act trivial rfl (hok _ (fun _ => houtcome) ?_))
      rw [DirWorld.savedNext, if_pos (.inl hok₁)]
      refine ⟨?_, fun _ => hsaved, fun hnot => absurd hneeds hnot, rfl, rfl⟩
      exact Function.update_idem _ _ _
  · rw [if_neg hneeds]
    refine Prog.holds_op_of_act trivial rfl (hok _ (fun h => absurd h hneeds) ?_)
    exact ⟨Function.update_idem _ _ _, fun h => absurd h hneeds, fun _ => rfl, rfl, rfl⟩

/-- The decision about the cleanup does not look at the status. -/
theorem needsCleanup_setStatus (wd : WorkingDirectory) (opts : Option WorkingDirectoryAutoCleanOpts) (now : SystemTime) :
    ({ wd.setStatus .finished with statusNeedsSaving := false } : WorkingDirectory).needsCleanup opts haveOthers now =
      wd.needsCleanup opts haveOthers now := by
  have hcreation : (wd.setStatus .finished).creationTimestamp = wd.creationTimestamp := creationTimestamp_setStatus _ _
  have hruns : (wd.setStatus .finished).numRuns = wd.numRuns := numRuns_setStatus (by decide)
  unfold WorkingDirectory.needsCleanup
  simp only [hcreation, hruns]

/-- The part after the action. -/
theorem ends_afterAction (r : Except CallError Unit) :
    Ends (EndsAfter id autoClean haveOthers r s) (afterAction id autoClean haveOthers r) s := by
  have hlocked : SameDirectories s s.next := ⟨rfl, rfl⟩
  cases r with
  | ok x =>
    refine ends_lockMut (fun e he => .noLock he hlocked) fun hlock => ends_getEntry ?_
    cases hentry : s.next.pool.allEntries id with
    | none => exact ⟨trivial, .removed hentry⟩
    | some wd =>
      refine ends_setAndSaveStatus
        (fun e t hneeds hsave ht => .unsaved hentry hneeds hsave ⟨ht.entries, ht.kept, ht.saved, ht.current⟩)
        fun t hsaves ht => ends_getEntry ?_
      have hstored : Stored id wd .finished s t := ⟨ht.entries, ht.saved, ht.kept, ht.current, ht.now⟩
      rw [hstored.entries, Function.update_self]
      refine Prog.holds_op_of_act trivial rfl ?_
      have hend : EndsAfter id autoClean haveOthers (.ok ()) s _ t :=
        .finished hentry rfl ⟨hlock, hsaves⟩ hstored
      rw [← needsCleanup_setStatus, ← hstored.now] at hend
      refine ends_ofExcept (fun e he => ?_) fun needs hneeds => ⟨trivial, ?_⟩
      · rw [he] at hend
        exact hend
      · rw [hneeds] at hend
        exact hend
  | error e =>
    refine ends_lockMut (fun e he => .noLock he hlocked) fun hlock => ends_getEntry ?_
    cases hentry : s.next.pool.allEntries id with
    | none => exact ⟨trivial, .removed hentry⟩
    | some wd =>
      refine ends_setAndSaveStatus
        (fun e t hneeds hsave ht => .unsaved hentry hneeds hsave ⟨ht.entries, ht.kept, ht.saved, ht.current⟩)
        fun t hsaves ht => ?_
      have hstored : ∀ u : DirWorld, u.pool.allEntries = t.pool.allEntries → u.saved = t.saved → u.current = t.current →
          u.pool.now = t.pool.now → Stored id wd .error s u := by
        intro u hentries hsaved hcurrent hnow
        refine ⟨hentries.trans ht.entries, fun hneeds => hsaved.trans (ht.saved hneeds),
          fun hnot => hsaved.trans (ht.kept hnot), hcurrent.trans ht.current, hnow.trans ht.now⟩
      refine Prog.holds_op_of_act trivial rfl (ends_ofExcept (fun e' _ => ?_) fun _ _ => ⟨trivial, ?_⟩)
      · exact .failed hentry rfl ⟨hlock, hsaves⟩ (hstored _ rfl rfl rfl rfl)
      · exact .failed hentry rfl ⟨hlock, hsaves⟩ (hstored _ rfl rfl rfl rfl)

/-- **What is left at the end**: nothing was started, or the action was run. -/
theorem processWith_spec {action : PoolProg Unit} {result : Outcome CallError WorkingDirectoryCleanupToken} {t : DirWorld}
    (hrun : (processWith id action autoClean haveOthers).run dirMachine s = some (result, t)) :
    ((∃ e, result = .err e) ∧ NotStarted id s t) ∨
      ∃ u v, StartedIn id s u ∧ ((∃ msg, action.run dirMachine u = some (.panic msg, v) ∧ result = .panic msg) ∨
        ∃ r, action.run dirMachine u = some (Outcome.ofExcept r, v) ∧ EndsAfter id autoClean haveOthers r v result t) := by
  suffices hends : Ends (fun result t => ((∃ e, result = .err e) ∧ NotStarted id s t) ∨
      ∃ u v, StartedIn id s u ∧ ((∃ msg, action.run dirMachine u = some (.panic msg, v) ∧ result = .panic msg) ∨
        ∃ r, action.run dirMachine u = some (Outcome.ofExcept r, v) ∧ EndsAfter id autoClean haveOthers r v result t))
      (processWith id action autoClean haveOthers) s from ((Prog.holds_iff _).1 hends).2 _ _ hrun
  refine ends_lockMut (fun e _ => .inl ⟨⟨e, rfl⟩, .asBefore ⟨rfl, rfl⟩ rfl⟩) fun _ => ?_
  refine ends_setCurrentWorkingDirectory (fun e _ => .inl ⟨⟨e, rfl⟩, .asBefore ⟨rfl, rfl⟩ rfl⟩) fun hbefore => ?_
  refine ends_getEntry ?_
  show Ends _ (match s.pool.allEntries id with | none => _ | some wd => _) _
  cases hentry : s.pool.allEntries id with
  | none =>
    refine ⟨trivial, .inl ⟨⟨_, rfl⟩, .linkOnly ⟨rfl, rfl⟩ hbefore rfl ?_⟩⟩
    intro wd hwd
    rw [hentry] at hwd
    cases hwd
  | some wd =>
    by_cases husable : wd.status.canBeUsedForJobs = true
    case neg =>
      simp only [husable]
      refine ⟨trivial, .inl ⟨⟨_, rfl⟩, .linkOnly ⟨rfl, rfl⟩ hbefore rfl ?_⟩⟩
      intro wd' hwd'
      rw [hentry] at hwd'
      obtain rfl := Option.some.inj hwd'
      exact Bool.eq_false_iff.2 husable
    simp only [husable, if_true]
    refine ends_setAndSaveStatus (fun e u hneeds _ hu => .inl ⟨⟨e, rfl⟩, ?_⟩) fun u _ hu => ?_
    · exact .unsaved hbefore hentry husable ⟨hu.entries, hu.kept, hu.saved, hu.current⟩ (hu.kept rfl)
    · have hstarted : StartedIn id s u :=
        ⟨hbefore, wd, hentry, husable, hu.entries, hu.saved, hu.kept, hu.current, hu.now⟩
      refine Prog.holds_bind.2 (Prog.holds_attempt.2 ((Prog.holds_iff _).2 ⟨fun _ _ => trivial, fun r v hr => ?_⟩))
      cases r with
      | panic msg => exact .inr ⟨u, v, hstarted, .inl ⟨msg, hr, rfl⟩⟩
      | ok x => exact (ends_afterAction (.ok x)).imp fun result t ht => .inr ⟨u, v, hstarted, .inr ⟨.ok x, hr, ht⟩⟩
      | err e => exact (ends_afterAction (.error e)).imp fun result t ht => .inr ⟨u, v, hstarted, .inr ⟨.error e, hr, ht⟩⟩

end Pool

/-! ### What can be relied on -/

/-- After an action with the given result, which has left the entry `wd` in `s`. -/
structure Settled (id : WorkingDirectoryId) (autoClean : Option WorkingDirectoryAutoCleanOpts) (haveOthers : Option Bool)
    (r : Except CallError Unit) (wd : WorkingDirectory) (s : DirWorld) (result : Outcome CallError WorkingDirectoryCleanupToken)
    (t : DirWorld) : Prop where
  /-- It returns a value exactly if the action has, the status could be saved, and there is a decision about the cleanup. -/
  ok_iff : result.isOk = true ↔
    r = .ok () ∧ SavesAfter wd .finished s ∧ ∃ needs, wd.needsCleanup autoClean haveOthers s.pool.now = .ok needs
  /-- If the status could be saved, the file is as the action has ended; where there was nothing to save, if it was so before. -/
  saved : SavesAfter wd (finalStatus r) s → (¬ wd.NeedsSaving (finalStatus r) → s.saved id = some (finalStatus r)) →
    t.saved id = some (finalStatus r)
  /-- If it could not, that is an error. -/
  unsaved : ¬ SavesAfter wd (finalStatus r) s → ∃ e, result = .err e

/-- What `process_in_working_directory` leaves. -/
inductive LeftConsistent (id : WorkingDirectoryId) (action : PoolProg Unit) (autoClean : Option WorkingDirectoryAutoCleanOpts)
    (haveOthers : Option Bool) (s : DirWorld) (result : Outcome CallError WorkingDirectoryCleanupToken) (t : DirWorld) :
    Prop where
  /-- The action was not started. -/
  | notStarted {e : CallError} (hresult : result = .err e) (hleft : NotStarted id s t)
  /-- The action has panicked. -/
  | panicked {u v : DirWorld} {msg : String} (hstarted : StartedIn id s u)
    (haction : action.run dirMachine u = some (.panic msg, v)) (hresult : result = .panic msg)
  /-- The action has ended. -/
  | settled {u v : DirWorld} {r : Except CallError Unit} (hstarted : StartedIn id s u)
    (haction : action.run dirMachine u = some (Outcome.ofExcept r, v))
    (hsettled : ∀ wd, v.pool.allEntries id = some wd → Settled id autoClean haveOthers r wd v result t)

section

variable {id : WorkingDirectoryId} {action : PoolProg Unit} {autoClean : Option WorkingDirectoryAutoCleanOpts}
  {haveOthers : Option Bool} {r : Except CallError Unit} {wd : WorkingDirectory} {s t : DirWorld}
  {result : Outcome CallError WorkingDirectoryCleanupToken}

theorem Stored.saved_eq {status : Status} (h : Stored id wd status s t)
    (hkept : ¬ wd.NeedsSaving status → s.saved id = some status) : t.saved id = some status := by
  by_cases hneeds : wd.NeedsSaving status
  · rw [h.saved hneeds, Function.update_self]
  · rw [h.kept hneeds]
    exact hkept hneeds

theorem settled_of_endsAfter (hend : EndsAfter id autoClean haveOthers r s result t) (hentry : s.pool.allEntries id = some wd) :
    Settled id autoClean haveOthers r wd s result t := by
  have hwd : ∀ {wd' : WorkingDirectory}, s.pool.allEntries id = some wd' → wd' = wd := fun h =>
    Option.some.inj (h.symm.trans hentry)
  cases hend with
  | @noLock e _ hlock hsame =>
    have hnot : ∀ status, ¬ SavesAfter wd status s := by
      rintro status ⟨hok, -⟩
      rw [hlock] at hok
      cases hok
    exact ⟨⟨nofun, fun h => absurd h.2.1 (hnot _)⟩, fun h => absurd h (hnot _), fun _ => ⟨e, rfl⟩⟩
  | removed hnone =>
    rw [hentry] at hnone
    cases hnone
  | @unsaved wd' e _ hentry' hneeds hsave hunsaved =>
    obtain rfl := hwd hentry'
    have hnot : ¬ SavesAfter wd' (finalStatus r) s := by
      rintro ⟨-, hok⟩
      rw [hok hneeds] at hsave
      cases hsave
    refine ⟨⟨nofun, ?_⟩, fun h => absurd h hnot, fun _ => ⟨e, rfl⟩⟩
    rintro ⟨rfl, hsaves, -⟩
    exact absurd hsaves hnot
  | @failed wd' e e' _ hentry' hr hsaves hstored =>
    obtain rfl := hwd hentry'
    obtain rfl := hr
    exact ⟨⟨nofun, nofun⟩, fun _ hkept => hstored.saved_eq hkept, fun hnot => absurd hsaves hnot⟩
  | @finished wd' _ hentry' hr hsaves hstored =>
    obtain rfl := hwd hentry'
    obtain rfl := hr
    refine ⟨?_, fun _ hkept => hstored.saved_eq hkept, fun hnot => absurd hsaves hnot⟩
    cases hneeds : wd'.needsCleanup autoClean haveOthers s.pool.now with
    | error e => exact ⟨nofun, fun ⟨_, _, _, hneeds⟩ => nomatch hneeds⟩
    | ok needs => exact ⟨fun _ => ⟨rfl, hsaves, needs, rfl⟩, fun _ => rfl⟩

/-- **Processing a working directory**: a failure before the action leaves at most a new `current` link, and the status
`Processing` in memory if it could not be saved; after the action the saved status and the result follow the action, as far as
the status can be saved. -/
theorem processed_consistently
    (hrun : (Pool.processWith id action autoClean haveOthers).run dirMachine s = some (result, t)) :
    LeftConsistent id action autoClean haveOthers s result t := by
  rcases Pool.processWith_spec hrun with ⟨⟨e, he⟩, hleft⟩ | ⟨u, v, hstarted, ⟨msg, haction, hresult⟩ | ⟨r, haction, hend⟩⟩
  · exact .notStarted he hleft
  · exact .panicked hstarted haction hresult
  · exact .settled hstarted haction fun wd hentry => settled_of_endsAfter hend hentry

end

/-- The pool with one directory, and its status file. -/
def sampleDirWorld : DirWorld := ⟨samplePool, none, fun _ => some .finished, fun _ => false⟩

/-- The same after an action that does nothing. -/
def sampleProcessed : DirWorld :=
  (((Pool.processWith 7 (pure ()) none none).run dirMachine sampleDirWorld).getD (.panic "", sampleDirWorld)).2

/-- Where everything works, the status is saved. -/
theorem processed_sample :
    LeftConsistent 7 (pure ()) none none sampleDirWorld (.ok ⟨7, false⟩) sampleProcessed := processed_consistently rfl

/-- If the directory is unknown, the call fails with a new link to it. -/
theorem link_to_unknown :
    ¬ ∀ (id : WorkingDirectoryId) (action : PoolProg Unit) (s t : DirWorld) (e : CallError),
      s.pool.allEntries id = none → (Pool.processWith id action none none).run dirMachine s = some (.err e, t) →
      t.pool.allEntries = s.pool.allEntries ∧ t.saved = s.saved ∧ t.current = s.current := by
  intro hall
  obtain ⟨-, -, hcurrent⟩ := hall 8 (pure ()) sampleDirWorld _ _ rfl rfl
  cases hcurrent

end Evobench.Run

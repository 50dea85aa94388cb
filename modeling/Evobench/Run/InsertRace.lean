import Evobench.KeyValFs.Interference
import Evobench.Run.InsertJobs

/-!
# Two processes that insert jobs

`insert_jobs` takes the lock on the table before it checks the jobs, and wants to keep it until they have been
recorded. `KeyVal::insert` takes and drops the same lock on the same open file, though, and the first drop
releases it: from there on another process can get in between the check and the records.

## The model

* `InsertRace`: two processes that run `insertJobs` without `force` on the same queues and table, one operation
  at a time in any order.
* `InsertContext.PushedBy`: a process has pushed a job with the given hash.
* `InsertRace.Allowed`: the condition on the step with which a process begins while the other has begun.

## What is proved

* `upholds_insertJobs`: a process pushes no job of a hash that is in the table, as long as the other process
  leaves that entry alone.
* `not_pushed_by_both`: in runs whose steps are allowed no hash is pushed by both.
-/

namespace Evobench.Run

open Library SerdeTypes KeyValFs IoUtils

/-! ### One process among others -/

namespace InsertContext

variable (cx : InsertContext)

/-- The table has an entry for the hash. -/
def InHistory (w : EvoWorld) (hash : BenchmarkingJobParametersHash) : Prop :=
  w.disk.file cx.alreadyInserted.baseDir (asFilenameStr hash) ≠ none

/-- The queue has a job with the hash that the process has pushed since `w₀`. -/
def PushedBy (w₀ w : EvoWorld) (pid : Pid) (hash : BenchmarkingJobParametersHash) : Prop :=
  ∃ (key : TimeKey) (job : BenchmarkingJob), key.pid = pid ∧ cx.hashOf job = hash ∧
    w.disk.file cx.firstQueue.queue.keyVal.baseDir (asFilenameStr key) = some (some (.job job)) ∧
      w₀.disk.file cx.firstQueue.queue.keyVal.baseDir (asFilenameStr key) ≠ some (some (.job job))

/-- The files that a process may change. -/
def Owned (pid : Pid) (dir name : String) : Prop :=
  dir = cx.alreadyInserted.baseDir ∨ cx.firstQueue.queue.FilesOf pid dir name

/-- What a process relies on for a hash: the others leave its files in the queue alone, and if the hash is one of its
batch, then also the table's entry for it. -/
def Relied (pid : Pid) (jobs : List BenchmarkingJob) (hash : BenchmarkingJobParametersHash) (w w' : EvoWorld) : Prop :=
  (∀ dir name, cx.firstQueue.queue.FilesOf pid dir name → w'.disk.file dir name = w.disk.file dir name) ∧
    (hash ∈ jobs.map cx.hashOf → cx.InHistory w hash → cx.InHistory w' hash)

/-- The process has pushed no job with the hash, and if it is one of its batch, then the table has an entry for it. -/
def Careful (w₀ : EvoWorld) (pid : Pid) (jobs : List BenchmarkingJob) (hash : BenchmarkingJobParametersHash)
    (w : EvoWorld) : Prop :=
  (hash ∈ jobs.map cx.hashOf → cx.InHistory w hash) ∧ ¬ cx.PushedBy w₀ w pid hash

end InsertContext

section Process

variable {cx : InsertContext} {w₀ w w' : EvoWorld} {pid : Pid} {jobs : List BenchmarkingJob} {opts : InsertOpts}
  {hash : BenchmarkingJobParametersHash}

/-- Whether a process has pushed something is seen from its own files. -/
theorem pushedBy_of_same (h : ∀ key : TimeKey, key.pid = pid →
      w'.disk.file cx.firstQueue.queue.keyVal.baseDir (asFilenameStr key) =
        w.disk.file cx.firstQueue.queue.keyVal.baseDir (asFilenameStr key))
    (hpushed : cx.PushedBy w₀ w' pid hash) : cx.PushedBy w₀ w pid hash := by
  obtain ⟨key, job, hkey, hhash, hthere, hnew⟩ := hpushed
  rw [h key hkey] at hthere
  exact ⟨key, job, hkey, hhash, hthere, hnew⟩

theorem not_pushedBy_start : ¬ cx.PushedBy w₀ w₀ pid hash := by
  rintro ⟨key, job, -, -, hthere, hnew⟩
  exact hnew hthere

theorem careful_of_relied (w w' : EvoWorld) (h : cx.Relied pid jobs hash w w') (hw : cx.Careful w₀ pid jobs hash w) :
    cx.Careful w₀ pid jobs hash w' := by
  refine ⟨fun hmem => h.2 hmem (hw.1 hmem), fun hpushed => hw.2 (pushedBy_of_same (fun key hkey => ?_) hpushed)⟩
  exact h.1 _ _ ⟨key, hkey, rfl, .inl rfl⟩

theorem relied_refl (w : EvoWorld) : cx.Relied pid jobs hash w w := ⟨fun _ _ _ => rfl, fun _ h => h⟩

theorem relied_trans (w v u : EvoWorld) (h : cx.Relied pid jobs hash w v) (h' : cx.Relied pid jobs hash v u) :
    cx.Relied pid jobs hash w u :=
  ⟨fun dir name hf => (h'.1 dir name hf).trans (h.1 dir name hf), fun hmem hw => h'.2 hmem (h.2 hmem hw)⟩

/-- Changes of other files than the entries that count. -/
theorem careful_of_touches {T : String → String → Prop}
    (hhistory : hash ∈ jobs.map cx.hashOf → ¬ T cx.alreadyInserted.baseDir (asFilenameStr hash))
    (hqueue : ∀ key : TimeKey, key.pid = pid → ¬ T cx.firstQueue.queue.keyVal.baseDir (asFilenameStr key))
    (w w' : EvoWorld) (h : Touches T w w') (hw : cx.Careful w₀ pid jobs hash w) :
    cx.Careful w₀ pid jobs hash w' := by
  refine ⟨fun hmem => ?_, fun hpushed => hw.2 (pushedBy_of_same (fun key hkey => ?_) hpushed)⟩
  · rw [InsertContext.InHistory, h _ _ (hhistory hmem)]
    exact hw.1 hmem
  · exact h _ _ (hqueue key hkey)

theorem careful_of_untouched (w w' : EvoWorld) (h : Untouched w w') (hw : cx.Careful w₀ pid jobs hash w) :
    cx.Careful w₀ pid jobs hash w' :=
  careful_of_touches (fun _ => not_false) (fun _ _ => not_false) w w' h hw

/-! ### What the parts of the program touch -/

theorem respects_call {α : Type} {T : String → String → Prop} {x : Call} {result : Answer x → Except CallError α} :
    TouchesOnly pid T (fun _ => True) (Evo.call x result) :=
  touchesOnly_op (fun _ _ h => h.elim) fun _ _ _ _ => .ofExcept fun _ _ => trivial

theorem respects_checkCommit {T : String → String → Prop} (job : BenchmarkingJob) :
    TouchesOnly pid T (fun _ => True) (cx.checkCommit job) := by
  refine .bind respects_call fun isValid _ => ?_
  split
  · exact trivial
  · exact trivial

theorem respects_report {T : String → String → Prop} {i : ℕ} (toInsert : List JobToInsert) :
    TouchesOnly pid T (fun _ => True) (cx.report i toInsert) := by
  induction toInsert generalizing i with
  | nil => exact respects_call
  | cons job rest ih => exact .bind respects_call fun _ _ => ih

/-- An update of the table touches the files of the hash. -/
theorem respects_recordJob (toInsert : JobToInsert) :
    TouchesOnly pid (cx.alreadyInserted.Files toInsert.hash) (fun _ => True) (cx.recordJob toInsert) := by
  refine .bind (Q := fun _ => True) ?_ fun _ _ => ?_
  · refine .bind (.mapErr KeyVal.respects_entryOpt) fun found hfound => ?_
    cases found with
    | none => exact trivial
    | some entry =>
      obtain ⟨hdir, hname⟩ := hfound entry rfl
      refine .bind (.mapErr (Entry.respects_delete.imp fun _ _ h => h.mono ?_)) fun _ _ => trivial
      rintro dir name ⟨rfl, rfl⟩
      exact ⟨hdir, .inl hname⟩
  · refine .bind (Q := fun _ => True) (touchesOnly_op (fun _ _ h => h.elim) fun _ _ _ _ => trivial) fun now _ => ?_
    exact .mapErr KeyVal.respects_insert

theorem respects_checkJobs {T : String → String → Prop} (jobs : List BenchmarkingJob) {jobsToInsert : List JobToInsert}
    {jobsAlreadyInserted : List String} :
    TouchesOnly pid T (fun _ => True) (cx.checkJobs opts jobs jobsToInsert jobsAlreadyInserted) := by
  induction jobs generalizing jobsToInsert jobsAlreadyInserted with
  | nil => exact trivial
  | cons job jobs ih =>
    refine .bind (.mapErr KeyVal.respects_entryOpt) fun found _ => ?_
    cases found with
    | none => exact .bind (respects_checkCommit job) fun _ _ => ih
    | some entry =>
      refine .bind (Q := fun _ => True) (.ofExcept fun _ _ => trivial) fun values _ => ?_
      show TouchesOnly pid T _ (if _ then _ else if _ then _ else _)
      split
      · exact .bind (respects_checkCommit job) fun _ _ => ih
      · split
        · exact ih
        · exact ih

/-- The loop that inserts jobs touches files of the process in the queue, and the table's files of the jobs' hashes. -/
theorem respects_recordJobs (toInsert : List JobToInsert) {n : ℕ} :
    TouchesOnly pid (fun dir name => cx.firstQueue.queue.FilesOf pid dir name ∨
      ∃ x ∈ toInsert, cx.alreadyInserted.Files x.hash dir name) (fun _ => True) (cx.recordJobs toInsert n) := by
  induction toInsert generalizing n with
  | nil => exact trivial
  | cons x rest ih =>
    refine .bind (.mapErr (Queue.respects_pushFront.imp fun _ _ h => h.mono fun _ _ hf => .inl hf)) fun _ _ => ?_
    refine .bind ((respects_recordJob x).imp fun _ _ h => h.mono fun _ _ hf => .inr ⟨x, List.mem_cons_self, hf⟩)
      fun _ _ => ?_
    refine ih.imp fun _ _ h => h.mono fun _ _ hf => hf.imp_right ?_
    rintro ⟨y, hy, hfiles⟩
    exact ⟨y, List.mem_cons_of_mem _ hy, hfiles⟩

/-- **A process changes its own files and the table only.** -/
theorem respects_insertJobs : TouchesOnly pid (cx.Owned pid) (fun _ => True) (cx.insertJobs jobs opts) := by
  refine .bind (.mapErr KeyVal.respects_lockExclusive) fun _ _ => touchesOnly_withLock ?_
  refine .bind respects_call fun _ _ => .bind (respects_checkJobs jobs) fun checked _ => ?_
  obtain ⟨toInsert, alreadyInserted⟩ := checked
  show TouchesOnly pid _ _ (if _ then _ else if _ then _ else _)
  split
  · exact trivial
  · split
    · exact .bind (respects_report toInsert) fun _ _ => trivial
    · exact (respects_recordJobs toInsert).imp fun _ _ h => h.mono fun _ _ hf =>
        hf.elim .inr fun ⟨_, _, hfiles⟩ => .inl hfiles.1

/-! ### A process pushes nothing that is recorded -/

/-- A program that touches no file at all. -/
theorem upholds_of_untouched {α : Type} {p : Evo α} (hp : TouchesOnly pid (fun _ _ => False) (fun _ => True) p)
    (hw : cx.Careful w₀ pid jobs hash w) :
    Prog.Upholds (machine pid) (cx.Relied pid jobs hash) (cx.Careful w₀ pid jobs hash) (fun _ _ => True) p w :=
  (upholds_of_touchesOnly careful_of_relied hp careful_of_untouched hw).mono (fun _ => id) fun _ _ _ _ => trivial

/-- A job that may be inserted: its hash is not the one that is looked at. -/
def InsertContext.Other (cx : InsertContext) (hash : BenchmarkingJobParametersHash) (x : JobToInsert) : Prop :=
  cx.hashOf x.job = x.hash ∧ x.hash ≠ hash

/-- **The check** passes no job of the hash on. -/
theorem upholds_checkJobs (hforce : opts.force = false) (rest : List BenchmarkingJob) (hrest : rest ⊆ jobs)
    {jobsToInsert : List JobToInsert} {jobsAlreadyInserted : List String} (hother : ∀ x ∈ jobsToInsert, cx.Other hash x)
    (hw : cx.Careful w₀ pid jobs hash w) :
    Prog.Upholds (machine pid) (cx.Relied pid jobs hash) (cx.Careful w₀ pid jobs hash)
      (fun r _ => ∀ checked, r = .ok checked → ∀ x ∈ checked.1, cx.Other hash x)
      (cx.checkJobs opts rest jobsToInsert jobsAlreadyInserted) w := by
  induction rest generalizing jobsToInsert jobsAlreadyInserted w with
  | nil =>
    refine ⟨hw, ?_⟩
    rintro _ ⟨⟩
    exact hother
  | cons job rest ih =>
    obtain ⟨hjob, hrest⟩ := List.cons_subset.1 hrest
    -- an entry of that hash is found
    have hentry : Prog.Upholds (machine pid) (cx.Relied pid jobs hash) (cx.Careful w₀ pid jobs hash)
        (fun r _ => cx.hashOf job = hash → r ≠ .ok none)
        (cx.alreadyInserted.entryOpt (cx.hashOf job) : Tool FileContent Call Answer KeyValError (Option (Entry FileContent
          (BenchmarkingJobParameters × List SystemTime)))) w := by
      by_cases hhash : cx.hashOf job = hash
      · have hthere : ∀ t, cx.Careful w₀ pid jobs hash t →
            t.disk.file cx.alreadyInserted.baseDir (asFilenameStr (cx.hashOf job)) ≠ none := by
          intro t ht
          rw [hhash]
          exact ht.1 (hhash ▸ List.mem_map_of_mem hjob)
        exact (KeyVal.upholds_entryOpt careful_of_relied careful_of_untouched hthere hw).mono (fun _ => id)
          fun _ _ _ h _ => h
      · exact (upholds_of_touchesOnly careful_of_relied KeyVal.respects_entryOpt careful_of_untouched hw).mono
          (fun _ => id) fun _ _ _ _ h => absurd h hhash
    refine .bind (.mapErr (hentry.mono (fun _ => id) fun r t ht hr => ?_))
    cases r with
    | err e => exact fun _ h => nomatch h
    | panic msg => exact fun _ h => nomatch h
    | ok found =>
      cases found with
      | none =>
        refine .bind ((upholds_of_untouched (respects_checkCommit job) ht).mono (fun _ => id) fun r u hu _ => ?_)
        cases r with
        | err e => exact fun _ h => nomatch h
        | panic msg => exact fun _ h => nomatch h
        | ok _ =>
          refine ih hrest (fun x hx => ?_) hu
          rcases List.mem_append.1 hx with hx | hx
          · exact hother x hx
          · obtain rfl := List.mem_singleton.1 hx
            exact ⟨rfl, fun hhash => hr hhash rfl⟩
      | some entry =>
        refine .bind ((upholds_of_untouched (.ofExcept fun _ _ => trivial) ht).mono (fun _ => id) fun r u hu _ => ?_)
        cases r with
        | err e => exact fun _ h => nomatch h
        | panic msg => exact fun _ h => nomatch h
        | ok values =>
          show Prog.Upholds _ _ _ _ (if opts.force then _ else if opts.quiet then _ else _) u
          rw [if_neg (by simp [hforce])]
          split
          · exact ih hrest hother hu
          · exact ih hrest hother hu

variable (hdir : cx.alreadyInserted.baseDir ≠ cx.firstQueue.queue.keyVal.baseDir)
include hdir

/-- **A push** of a job with another hash. -/
theorem upholds_push {job : BenchmarkingJob} (hhash : cx.hashOf job ≠ hash) (hw : cx.Careful w₀ pid jobs hash w) :
    Prog.Upholds (machine pid) (cx.Relied pid jobs hash) (cx.Careful w₀ pid jobs hash) (fun _ _ => True)
      (cx.firstQueue.pushFront job) w := by
  refine .mapErr ((Queue.upholds_pushFront (fun _ _ h => h.1) careful_of_relied ?_ ?_ hw).mono (fun _ => id) ?_)
  · refine careful_of_touches (fun _ h => hdir h.1) fun key _ h => ?_
    rw [isTmp_asFilenameStr] at h
    cases h.2
  · rintro t u key hkey hd ⟨hhistory, hnot⟩
    refine ⟨fun hmem => ?_, ?_⟩
    · rw [InsertContext.InHistory, hd, file_put_of_not fun h => hdir h.1, file_erase_of_not fun h => hdir h.1]
      exact hhistory hmem
    · rintro ⟨key', job', hkey', hhash', hthere, hnew⟩
      rw [hd, Disk.file_put] at hthere
      split at hthere
      · cases hthere
        exact hhash hhash'
      · rw [file_erase_of_not] at hthere
        · exact hnot ⟨key', job', hkey', hhash', hthere, hnew⟩
        · rintro ⟨-, he⟩
          have htmp := isTmp_asFilenameStr key'
          rw [he, isTmp_dot] at htmp
          cases htmp
  · intro r t _ _
    cases r with
    | ok _ => trivial
    | err e => trivial
    | panic msg => trivial

omit hdir in
/-- The entry of a hash is no file of another one. -/
theorem not_files_asFilenameStr {hash' : BenchmarkingJobParametersHash} (hhash : hash' ≠ hash) (dir : String) :
    ¬ cx.alreadyInserted.Files hash' dir (asFilenameStr hash) := by
  rintro ⟨-, he | he⟩
  · exact hhash (asFilenameStr_injective he).symm
  · have htmp := isTmp_asFilenameStr hash
    rw [he, isTmp_dot] at htmp
    cases htmp

/-- **An update of the table** for another hash. -/
theorem upholds_recordJob {x : JobToInsert} (hhash : x.hash ≠ hash) (hw : cx.Careful w₀ pid jobs hash w) :
    Prog.Upholds (machine pid) (cx.Relied pid jobs hash) (cx.Careful w₀ pid jobs hash) (fun _ _ => True)
      (cx.recordJob x) w :=
  (upholds_of_touchesOnly careful_of_relied (respects_recordJob x) (careful_of_touches
    (fun _ => not_files_asFilenameStr hhash _) fun _ _ h => hdir h.1.symm) hw).mono (fun _ => id) fun _ _ _ _ => trivial

/-- **The loop that inserts jobs**, all of them with other hashes. -/
theorem upholds_recordJobs (toInsert : List JobToInsert) (hother : ∀ x ∈ toInsert, cx.Other hash x) {n : ℕ}
    (hw : cx.Careful w₀ pid jobs hash w) :
    Prog.Upholds (machine pid) (cx.Relied pid jobs hash) (cx.Careful w₀ pid jobs hash) (fun _ _ => True)
      (cx.recordJobs toInsert n) w := by
  induction toInsert generalizing n w with
  | nil => exact ⟨hw, trivial⟩
  | cons x rest ih =>
    obtain ⟨hx, hne⟩ := hother x List.mem_cons_self
    refine .bind ((upholds_push hdir (hx ▸ hne) hw).mono (fun _ => id) fun r t ht _ => ?_)
    cases r with
    | err e => trivial
    | panic msg => trivial
    | ok _ =>
      refine .bind ((upholds_recordJob hdir hne ht).mono (fun _ => id) fun r u hu _ => ?_)
      cases r with
      | err e => trivial
      | panic msg => trivial
      | ok _ => exact ih (fun y hy => hother y (List.mem_cons_of_mem _ hy)) hu

/-- **A whole call** pushes no job of a hash that is recorded, or that its batch does not have. -/
theorem upholds_insertJobs (hforce : opts.force = false) (hw : cx.Careful w₀ pid jobs hash w) :
    Prog.Upholds (machine pid) (cx.Relied pid jobs hash) (cx.Careful w₀ pid jobs hash) (fun _ _ => True)
      (cx.insertJobs jobs opts) w := by
  refine .bind ((upholds_of_untouched (.mapErr KeyVal.respects_lockExclusive) hw).mono (fun _ => id) fun r v hv _ => ?_)
  cases r with
  | err e => trivial
  | panic msg => trivial
  | ok _ =>
    refine .finally_ (Prog.Upholds.mono (I := cx.Careful w₀ pid jobs hash) (Q := fun _ _ => True) ?_ (fun _ => id)
      fun r t ht _ u hu x u' hact => ⟨?_, trivial⟩)
    · refine .bind ((upholds_of_untouched respects_call hv).mono (fun _ => id) fun r t ht _ => ?_)
      cases r with
      | err e => trivial
      | panic msg => trivial
      | ok _ =>
        refine .bind ((upholds_checkJobs hforce jobs (List.Subset.refl _) (fun x hx => (List.not_mem_nil hx).elim)
          ht).mono (fun _ => id) fun r u hu hr => ?_)
        cases r with
        | err e => trivial
        | panic msg => trivial
        | ok checked =>
          have hother := hr checked rfl
          obtain ⟨toInsert, alreadyInserted⟩ := checked
          show Prog.Upholds _ _ _ _ (if _ then _ else if _ then _ else _) u
          split
          · exact ⟨hu, trivial⟩
          · split
            · refine .bind ((upholds_of_untouched (respects_report toInsert) hu).mono (fun _ => id) fun r t ht _ => ?_)
              cases r with
              | err e => trivial
              | panic msg => trivial
              | ok _ => exact ⟨ht, trivial⟩
            · exact upholds_recordJobs hdir toInsert hother hu
    · exact careful_of_untouched u u' ((touches_act hact).mono fun _ _ h => h) (careful_of_relied t u hu ht)

end Process

/-! ### Two processes -/

/-- Two processes that insert jobs without `force`. -/
structure InsertRace where
  /-- What both of them work on. -/
  cx : InsertContext
  /-- The process ids. -/
  pid : Bool → Pid
  /-- The batches. -/
  jobs : Bool → List BenchmarkingJob
  /-- The options. -/
  opts : Bool → InsertOpts
  /-- The processes are different. -/
  pid_ne : ∀ i, pid (!i) ≠ pid i
  /-- Neither of them is to force an insertion. -/
  not_force : ∀ i, (opts i).force = false
  /-- The table has a directory of its own. -/
  separate : cx.alreadyInserted.baseDir ≠ cx.firstQueue.queue.keyVal.baseDir

/-- The processes as a pool. -/
abbrev InsertPool := Pool Bool (Op FileContent Call) (Ans FileContent Call Answer) EvoWorld Error ℕ

namespace InsertRace

variable (race : InsertRace)

/-- What a process runs. -/
def program (i : Bool) : Evo ℕ := race.cx.insertJobs (race.jobs i) (race.opts i)

/-- The machine as the processes see it. -/
def machines (i : Bool) : Machine (Op FileContent Call) (Ans FileContent Call Answer) EvoWorld := machine (race.pid i)

/-- No process has begun. -/
def start (w : EvoWorld) : InsertPool := ⟨w, race.program, fun _ => 0⟩

/-- The hashes of a batch. -/
def hashes (i : Bool) : List BenchmarkingJobParametersHash := (race.jobs i).map race.cx.hashOf

/-- What the process has still to do leaves the table's entry for the hash alone. -/
def Leaves (c : InsertPool) (i : Bool) (hash : BenchmarkingJobParametersHash) : Prop :=
  Prog.Respects (race.machines i) (fun w w' => race.cx.InHistory w hash → race.cx.InHistory w' hash) (fun _ => True)
    (c.procs i)

/-- The process has pushed a job with the hash. -/
def PushedBy (w₀ : EvoWorld) (c : InsertPool) (i : Bool) (hash : BenchmarkingJobParametersHash) : Prop :=
  race.cx.PushedBy w₀ c.state (race.pid i) hash

/-- The condition on steps: if a process gets the lock that it begins with while the other one has begun already, then
each hash that both of them have in their batches is in the table for the rest of the other call, or the other call has
ended without pushing it. -/
def Allowed (w₀ : EvoWorld) (i : Bool) (c c' : InsertPool) : Prop :=
  c.done i = 0 → ¬ c'.Ended i → c.done (!i) ≠ 0 → ∀ hash ∈ race.hashes i, hash ∈ race.hashes (!i) →
    race.cx.InHistory c.state hash ∧ race.Leaves c (!i) hash ∨ c.Ended (!i) ∧ ¬ race.PushedBy w₀ c (!i) hash

/-- Why the process will have no part in a double insertion of the hash. -/
inductive Harmless (w₀ : EvoWorld) (c : InsertPool) (hash : BenchmarkingJobParametersHash) (i : Bool) : Prop where
  /-- It has not begun, and both have the hash in their batches. -/
  | waiting (hdone : c.done i = 0) (hboth : ∀ j, hash ∈ race.hashes j)
  /-- It has ended without pushing it. -/
  | ended (hended : c.Ended i) (hnot : ¬ race.PushedBy w₀ c i hash)
  /-- It will find it in the table, if it has it in its batch. -/
  | careful (hup : Prog.Upholds (race.machines i) (race.cx.Relied (race.pid i) (race.jobs i) hash)
        (race.cx.Careful w₀ (race.pid i) (race.jobs i) hash) (fun _ _ => True) (c.procs i) c.state)
      (hleaves : hash ∈ race.hashes i → race.Leaves c (!i) hash)

/-- The invariant. -/
structure Inv (w₀ : EvoWorld) (c : InsertPool) : Prop where
  /-- Each process changes its own files only. -/
  own : ∀ i, TouchesOnly (race.pid i) (race.cx.Owned (race.pid i)) (fun _ => True) (c.procs i)
  /-- A process that has not begun has done nothing. -/
  idle : ∀ i, c.done i = 0 → c.procs i = race.program i ∧ ∀ hash, ¬ race.PushedBy w₀ c i hash
  /-- One of the processes will not push the hash. -/
  apart : ∀ hash, ∃ i, race.Harmless w₀ c hash i

variable {race} {w₀ : EvoWorld} {c c' : InsertPool} {i : Bool} {hash : BenchmarkingJobParametersHash}

theorem upholds_program (hw : race.cx.Careful w₀ (race.pid i) (race.jobs i) hash c.state) :
    Prog.Upholds (race.machines i) (race.cx.Relied (race.pid i) (race.jobs i) hash)
      (race.cx.Careful w₀ (race.pid i) (race.jobs i) hash) (fun _ _ => True) (race.program i) c.state :=
  upholds_insertJobs race.separate (race.not_force i) hw

theorem inv_start (w : EvoWorld) : race.Inv w (race.start w) := by
  have hnot : ∀ i hash, ¬ race.PushedBy w (race.start w) i hash := fun i hash => not_pushedBy_start
  refine ⟨fun i => respects_insertJobs, fun i _ => ⟨rfl, hnot i⟩, fun hash => ?_⟩
  by_cases hboth : ∀ j, hash ∈ race.hashes j
  · exact ⟨true, .waiting rfl hboth⟩
  · obtain ⟨i, hi⟩ := not_forall.1 hboth
    exact ⟨i, .careful (upholds_program ⟨fun h => absurd h hi, hnot i hash⟩) fun h => absurd h hi⟩

/-- The changes of a process are no changes of the other one's files. -/
theorem relied_of_touches {w w' : EvoWorld} (h : Touches (race.cx.Owned (race.pid (!i))) w w') (dir name : String)
    (hf : race.cx.firstQueue.queue.FilesOf (race.pid i) dir name) : w'.disk.file dir name = w.disk.file dir name := by
  refine h dir name ?_
  rintro (hdir | hother)
  · obtain ⟨key, -, hbase, -⟩ := hf
    exact race.separate (hdir.symm.trans hbase)
  · exact Queue.not_filesOf (race.pid_ne i) hother hf

/-- The other process's steps make no difference to what a process has pushed. -/
theorem pushedBy_of_touches {w w' : EvoWorld} (h : Touches (race.cx.Owned (race.pid (!i))) w w')
    (hpushed : race.cx.PushedBy w₀ w' (race.pid i) hash) : race.cx.PushedBy w₀ w (race.pid i) hash :=
  pushedBy_of_same (fun key hkey => relied_of_touches h _ _ ⟨key, hkey, rfl, .inl rfl⟩) hpushed

/-- A process is the one that steps, or the other one. -/
theorem eq_or_eq_not (i j : Bool) : i = j ∨ i = !j := by
  cases i <;> cases j <;> simp

/-- What a step changes. -/
structure Stepped (race : InsertRace) (i : Bool) (c c' : InsertPool) : Prop where
  /-- Only the own files. -/
  touches : Touches (race.cx.Owned (race.pid i)) c.state c'.state
  /-- The other process has as much to do as before. -/
  procs : c'.procs (!i) = c.procs (!i)
  /-- The other process has done as much as before. -/
  done : c'.done (!i) = c.done (!i)
  /-- The process has done something. -/
  begun : c'.done i ≠ 0
  /-- The rest keeps to the own files. -/
  own : TouchesOnly (race.pid i) (race.cx.Owned (race.pid i)) (fun _ => True) (c'.procs i)

/-- Steps are counted. -/
theorem done_of_step (hstep : Pool.Step race.machines i c c') : c'.done i ≠ 0 ∧ c'.done (!i) = c.done (!i) := by
  cases hstep with
  | op hprog hact =>
    have hne : (!i) ≠ i := by simp
    exact ⟨by simp, Function.update_of_ne hne _ _⟩

theorem stepped_of_step (hown : TouchesOnly (race.pid i) (race.cx.Owned (race.pid i)) (fun _ => True) (c.procs i))
    (hstep : Pool.Step race.machines i c c') : race.Stepped i c c' := by
  cases hstep with
  | @op o k x s' hprog hact =>
    rw [hprog] at hown
    obtain ⟨htouches, hk⟩ := hown c.state x s' hact
    have hne : (!i) ≠ i := by simp
    obtain ⟨hbegun, hdone⟩ := done_of_step (Pool.Step.op hprog hact)
    exact ⟨htouches, Function.update_of_ne hne _ _, hdone, hbegun, by simpa using hk⟩

/-- What keeps the table's entry still does so after a step, and has done so in it. -/
theorem leaves_of_step (h : race.Leaves c i hash) (hstep : Pool.Step race.machines i c c') :
    race.Leaves c' i hash ∧ (race.cx.InHistory c.state hash → race.cx.InHistory c'.state hash) := by
  cases hstep with
  | @op o k x s' hprog hact =>
    unfold Leaves at h ⊢
    rw [hprog] at h
    obtain ⟨hkeep, hk⟩ := h c.state x s' hact
    exact ⟨by simpa using hk, hkeep⟩

/-- A careful process goes on carefully. -/
theorem upholds_of_step {I : EvoWorld → Prop} (h : Prog.Upholds (race.machines i)
      (race.cx.Relied (race.pid i) (race.jobs i) hash) I (fun _ _ => True) (c.procs i) c.state)
    (hstep : Pool.Step race.machines i c c') : Prog.Upholds (race.machines i)
      (race.cx.Relied (race.pid i) (race.jobs i) hash) I (fun _ _ => True) (c'.procs i) c'.state := by
  cases hstep with
  | @op o k x s' hprog hact =>
    rw [hprog] at h
    simpa using h.step (relied_refl c.state) hact

/-- **Steps of the other process.** -/
theorem harmless_of_other (hstep : Pool.Step race.machines (!i) c c') (hs : race.Stepped (!i) c c')
    (h : race.Harmless w₀ c hash i) : race.Harmless w₀ c' hash i := by
  have hprocs : c'.procs i = c.procs i := by simpa using hs.procs
  have hdone : c'.done i = c.done i := by simpa using hs.done
  cases h with
  | waiting hwait hboth => exact .waiting (hdone.trans hwait) hboth
  | ended hended hnot =>
    refine .ended ?_ fun hpushed => hnot (pushedBy_of_touches hs.touches hpushed)
    unfold Pool.Ended
    rw [hprocs]
    exact hended
  | careful hup hleaves =>
    have hrelied : race.cx.Relied (race.pid i) (race.jobs i) hash c.state c'.state :=
      ⟨relied_of_touches hs.touches, fun hmem => (leaves_of_step (hleaves hmem) hstep).2⟩
    refine .careful ?_ fun hmem => (leaves_of_step (hleaves hmem) hstep).1
    rw [hprocs]
    exact hup.rely relied_trans careful_of_relied (fun _ _ _ _ _ => trivial) hrelied

/-- The operation with which a process begins changes no file. -/
theorem untouched_of_begin (hprog : c.procs i = race.program i) (hstep : Pool.Step race.machines i c c') :
    Untouched c.state c'.state := by
  cases hstep with
  | @op o k x s' hop hact =>
    rw [hop] at hprog
    obtain ⟨rfl, -⟩ := Prog.op.inj hprog
    exact (touches_act hact).mono fun _ _ h => h

/-- **Steps of the process itself.** -/
theorem harmless_of_own (hinv : race.Inv w₀ c) (hstep : Pool.Step race.machines i c c') (hs : race.Stepped i c c')
    (hallowed : race.Allowed w₀ i c c') (h : race.Harmless w₀ c hash i) : ∃ j, race.Harmless w₀ c' hash j := by
  -- what holds of the other process goes on to hold
  have hother : race.Harmless w₀ c hash (!i) → ∃ j, race.Harmless w₀ c' hash j := by
    intro h
    refine ⟨!i, harmless_of_other ?_ ?_ h⟩
    · rwa [Bool.not_not]
    · rwa [Bool.not_not]
  cases h with
  | waiting hwait hboth =>
    obtain ⟨hprog, hnot⟩ := hinv.idle i hwait
    by_cases hended : c'.Ended i
    · refine ⟨i, .ended hended fun hpushed => hnot hash (pushedBy_of_same (fun key _ => ?_) hpushed)⟩
      exact untouched_of_begin hprog hstep _ _ not_false
    by_cases hfirst : c.done (!i) = 0
    · exact hother (.waiting hfirst hboth)
    rcases hallowed hwait hended hfirst hash (hboth i) (hboth (!i)) with ⟨hhistory, hleaves⟩ | ⟨hend, hnotpushed⟩
    · refine ⟨i, .careful (upholds_of_step ?_ hstep) fun _ => ?_⟩
      · rw [hprog]
        exact upholds_program ⟨fun _ => hhistory, hnot hash⟩
      · unfold Leaves
        rw [hs.procs]
        exact hleaves
    · exact hother (.ended hend hnotpushed)
  | ended hended hnot =>
    cases hstep with
    | op hprog hact => exact absurd hprog (hended _ _)
  | careful hup hleaves =>
    refine ⟨i, .careful (upholds_of_step hup hstep) fun hmem => ?_⟩
    unfold Leaves
    rw [hs.procs]
    exact hleaves hmem

/-- **The invariant is kept** by steps that are allowed. -/
theorem inv_step (hinv : race.Inv w₀ c) (hstep : Pool.Step race.machines i c c') (hallowed : race.Allowed w₀ i c c') :
    race.Inv w₀ c' := by
  have hs := stepped_of_step (hinv.own i) hstep
  refine ⟨fun j => ?_, fun j hj => ?_, fun hash => ?_⟩
  · rcases eq_or_eq_not j i with rfl | rfl
    · exact hs.own
    · rw [hs.procs]
      exact hinv.own (!i)
  · rcases eq_or_eq_not j i with rfl | rfl
    · exact absurd hj hs.begun
    · rw [hs.done] at hj
      obtain ⟨hprog, hnot⟩ := hinv.idle (!i) hj
      refine ⟨hs.procs.trans hprog, fun hash hpushed => hnot hash (pushedBy_of_touches ?_ hpushed)⟩
      rw [Bool.not_not]
      exact hs.touches
  · obtain ⟨j, hj⟩ := hinv.apart hash
    rcases eq_or_eq_not j i with rfl | rfl
    · exact harmless_of_own hinv hstep hs hallowed hj
    · refine ⟨!i, harmless_of_other ?_ ?_ hj⟩
      · rwa [Bool.not_not]
      · rwa [Bool.not_not]

/-- A harmless process has not pushed the hash. -/
theorem not_pushedBy_of_harmless (hinv : race.Inv w₀ c) (h : race.Harmless w₀ c hash i) :
    ¬ race.PushedBy w₀ c i hash := by
  cases h with
  | waiting hdone hboth => exact (hinv.idle i hdone).2 hash
  | ended hended hnot => exact hnot
  | careful hup hleaves => exact hup.first.2

end InsertRace

/-- **No hash is pushed by both processes**, in any run whose steps meet the condition. -/
theorem not_pushed_by_both (race : InsertRace) {w₀ : EvoWorld} {c : InsertPool}
    (hrun : Pool.Reaches race.machines (race.Allowed w₀) (race.start w₀) c) (hash : BenchmarkingJobParametersHash) :
    ¬ (race.PushedBy w₀ c true hash ∧ race.PushedBy w₀ c false hash) := by
  rintro ⟨htrue, hfalse⟩
  have hinv : race.Inv w₀ c := hrun.invariant (race.Inv w₀) (InsertRace.inv_start w₀)
    fun _ _ _ h hstep hallowed => InsertRace.inv_step h hstep hallowed
  obtain ⟨i, hi⟩ := hinv.apart hash
  have hnot := InsertRace.not_pushedBy_of_harmless hinv hi
  cases i with
  | true => exact hnot htrue
  | false => exact hnot hfalse

/-! ### Two orders of steps -/

/-- Two processes, the first one with two jobs, the second one with one of them. -/
def sampleRace (job job' : BenchmarkingJob) : InsertRace where
  cx := sampleInsertContext
  pid i := if i then 5 else 6
  jobs i := if i then [job, job'] else [sampleJob]
  opts _ := sampleInsertOpts
  pid_ne := by decide
  not_force _ := rfl
  separate := by decide +kernel

/-- The first process has pushed and recorded its first job. -/
def sampleRaceBetween (job job' : BenchmarkingJob) : InsertPool :=
  Pool.exec (sampleRace job job').machines ((sampleRace job job').start sampleEmpty) (List.replicate 27 true)

/-- Then the second process begins. -/
def sampleRaceBegun (job job' : BenchmarkingJob) : InsertPool :=
  Pool.exec (sampleRace job job').machines (sampleRaceBetween job job') [false]

/-- It runs to its end, and the first one goes on. -/
def sampleRaceEnd (job job' : BenchmarkingJob) : InsertPool :=
  Pool.exec (sampleRace job job').machines (sampleRaceBegun job job') (List.replicate 60 false ++ List.replicate 60 true)

/-- What the first process has still to do is to push and record its second job. -/
theorem procs_sampleRaceBetween : (sampleRaceBetween sampleJob sampleOtherJob).procs true =
    Sys.withLock sampleInsertContext.alreadyInserted.baseDir
      (sampleInsertContext.recordJobs [⟨sampleOtherJob, sampleInsertContext.hashOf sampleOtherJob, []⟩] 1) := by
  with_unfolding_all rfl

/-- It leaves the record of the first job alone. -/
theorem leaves_sampleRaceBetween : (sampleRace sampleJob sampleOtherJob).Leaves (sampleRaceBetween sampleJob sampleOtherJob)
    true (sampleInsertContext.hashOf sampleJob) := by
  unfold InsertRace.Leaves
  rw [procs_sampleRaceBetween]
  refine (touchesOnly_withLock (respects_recordJobs _)).imp fun w w' h hhistory => ?_
  rw [InsertContext.InHistory, h]
  · exact hhistory
  · rintro (⟨key, -, hdir, -⟩ | ⟨x, hx, hfiles⟩)
    · exact absurd hdir (by decide +kernel)
    · obtain rfl := List.mem_singleton.1 hx
      exact not_files_asFilenameStr (by decide +kernel) _ hfiles

/-- Steps of a process are allowed that has begun, or while the other one has not. -/
theorem allowed_of_done {race : InsertRace} {w₀ : EvoWorld} {i : Bool} {c c' : InsertPool}
    (h : c.done i ≠ 0 ∨ c.done (!i) = 0) : race.Allowed w₀ i c c' := by
  intro hdone _ hother
  rcases h with h | h
  · exact absurd hdone h
  · exact absurd h hother

/-- The second process begins when the first one has recorded the job that both of them have: it does not push it again. -/
theorem not_pushed_by_both_sample :
    (sampleRace sampleJob sampleOtherJob).PushedBy sampleEmpty (sampleRaceEnd sampleJob sampleOtherJob) true
        (sampleInsertContext.hashOf sampleJob) ∧
      ¬ ((sampleRace sampleJob sampleOtherJob).PushedBy sampleEmpty (sampleRaceEnd sampleJob sampleOtherJob) true
          (sampleInsertContext.hashOf sampleJob) ∧
        (sampleRace sampleJob sampleOtherJob).PushedBy sampleEmpty (sampleRaceEnd sampleJob sampleOtherJob) false
          (sampleInsertContext.hashOf sampleJob)) := by
  constructor
  · refine ⟨⟨0, 5, 0⟩, sampleJob, rfl, rfl, ?_, ?_⟩
    · decide +kernel
    · decide +kernel
  have hbetween : Pool.Reaches (sampleRace sampleJob sampleOtherJob).machines
      ((sampleRace sampleJob sampleOtherJob).Allowed sampleEmpty) ((sampleRace sampleJob sampleOtherJob).start sampleEmpty)
      (sampleRaceBetween sampleJob sampleOtherJob) := by
    refine Pool.reaches_exec_of (fun c => c.done false = 0) (fun i hi c c' hc hstep => ?_) .start rfl
    obtain rfl := List.eq_of_mem_replicate hi
    exact ⟨allowed_of_done (.inr hc), (InsertRace.done_of_step hstep).2.trans hc⟩
  have hbegun : Pool.Reaches (sampleRace sampleJob sampleOtherJob).machines
      ((sampleRace sampleJob sampleOtherJob).Allowed sampleEmpty) ((sampleRace sampleJob sampleOtherJob).start sampleEmpty)
      (sampleRaceBegun sampleJob sampleOtherJob) := by
    refine Pool.reaches_exec_of (fun c => c = sampleRaceBetween sampleJob sampleOtherJob ∨ c.done false ≠ 0)
      (fun i hi c c' hc hstep => ?_) hbetween (.inl rfl)
    obtain rfl := List.mem_singleton.1 hi
    refine ⟨?_, .inr (InsertRace.done_of_step hstep).1⟩
    rcases hc with rfl | hdone
    · intro _ _ _ hash hmem _
      obtain rfl := List.mem_singleton.1 hmem
      exact .inl ⟨by unfold InsertContext.InHistory; decide +kernel, leaves_sampleRaceBetween⟩
    · exact allowed_of_done (.inl hdone)
  refine not_pushed_by_both (sampleRace sampleJob sampleOtherJob) ?_ _
  refine Pool.reaches_exec_of (fun c => ∀ i, c.done i ≠ 0) (fun i _ c c' hc hstep => ?_) hbegun ?_
  · refine ⟨allowed_of_done (.inl (hc i)), fun j => ?_⟩
    rcases InsertRace.eq_or_eq_not j i with rfl | rfl
    · exact (InsertRace.done_of_step hstep).1
    · rw [(InsertRace.done_of_step hstep).2]
      exact hc _
  · decide +kernel

/-- In between two insertions of the first process the second one pushes the job that the first one has checked
already. -/
theorem pushed_by_both :
    ¬ ∀ (race : InsertRace) (w₀ : EvoWorld) (c : InsertPool),
      Pool.Reaches race.machines (fun _ _ _ => True) (race.start w₀) c →
        ∀ hash, ¬ (race.PushedBy w₀ c true hash ∧ race.PushedBy w₀ c false hash) := by
  intro hall
  have hbetween : Pool.Reaches (sampleRace sampleOtherJob sampleJob).machines (fun _ _ _ => True)
      ((sampleRace sampleOtherJob sampleJob).start sampleEmpty) (sampleRaceBetween sampleOtherJob sampleJob) :=
    Pool.reaches_exec (fun _ _ _ => trivial) .start _
  have hbegun := Pool.reaches_exec (fun _ _ _ => trivial) hbetween [false]
  refine hall (sampleRace sampleOtherJob sampleJob) sampleEmpty (sampleRaceEnd sampleOtherJob sampleJob)
    (Pool.reaches_exec (fun _ _ _ => trivial) hbegun _)
    (sampleInsertContext.hashOf sampleJob) ⟨?_, ?_⟩
  · refine ⟨⟨0, 5, 1⟩, sampleJob, rfl, rfl, ?_, ?_⟩
    · decide +kernel
    · decide +kernel
  · refine ⟨⟨0, 6, 0⟩, sampleJob, rfl, rfl, ?_, ?_⟩
    · decide +kernel
    · decide +kernel

end Evobench.Run

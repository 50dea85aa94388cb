import Evobench.Run.RunQueues

/-!
# Inserting jobs

`insertJobs` puts a batch of jobs into the first queue, and records their parameters in the table of the
already inserted jobs. Parameters that are in the table already are not inserted again, unless this is forced.

## The model

* `InsertContext`: the queues, the directory of the table, and the functions of other packages that are used.
* `InsertContext.checkJobs`: the loop over the batch, which sorts out what has been inserted before.
* `InsertContext.recordJobs`: the loop that inserts what is left.
* `Deduplicated`: what the source wants of a call: no parameters are inserted twice.

## What is proved

* `safe_checkJobs`: the check looks at the table as it is before any job of the batch has been recorded.
* `safe_recordJobs`: every job that it is given is pushed, as long as there are no errors.
* `insert_deduplicated_iff`: the exact condition for a call without `force` to deduplicate.
-/

namespace Evobench.Run

open Library SerdeTypes KeyValFs IoUtils

/-! ### The table of the already inserted jobs -/

/-- The hash of a job's parameters, in a form that can be a file name. -/
structure BenchmarkingJobParametersHash where
  /-- The hash. -/
  asStr : String
  /-- It can be a file name. -/
  verified_asStr : verified asStr = true
deriving DecidableEq

instance : AsKey BenchmarkingJobParametersHash where
  asFilenameStr hash := hash.asStr
  tryFromFilenameStr fileName := if h : verified fileName = true then some ⟨fileName, h⟩ else none
  debug hash := "BenchmarkingJobParametersHash(\"" ++ hash.asStr ++ "\")"
  verified_asFilenameStr hash := hash.verified_asStr
  tryFrom_asFilenameStr hash := dif_pos hash.verified_asStr

/-- The parameters and the insertion times by the hash of the parameters. -/
abbrev AlreadyInserted := KeyVal BenchmarkingJobParametersHash (BenchmarkingJobParameters × List SystemTime)

/-- A commit id as it is printed. -/
def GitHash.toString (hash : GitHash) : String :=
  String.ofList ((List.range 40).map fun i => Nat.digitChar (hash.bytes.toNat / 16 ^ (39 - i) % 16))

/-! ### The program -/

/-- What `insert_jobs` is given besides the jobs and the options. -/
structure InsertContext where
  /-- The queues. -/
  runQueues : RunQueues
  /-- The directory of the installation's state. -/
  globalAppStateDir : String
  /-- The URL of the remote repository, as `{:?}` prints it. -/
  url : String
  /-- The SHA-256 hash of the serialized parameters, in the URL-safe variant of base64. -/
  cryptoHash : BenchmarkingJobParameters → BenchmarkingJobParametersHash
  /-- `system_time_to_rfc3339` -/
  systemTimeToRfc3339 : SystemTime → String
  /-- `ron_to_string_pretty` on parameters -/
  ronParameters : BenchmarkingJobParameters → String
  /-- `ron_to_string_pretty` on a job -/
  ronJob : BenchmarkingJob → String

/-- The options of an insertion. -/
structure InsertOpts where
  /-- Show the details of the jobs that would be inserted instead of inserting them. -/
  dryRun : Bool
  /-- Allow insertion of parameters that have been inserted before. -/
  force : Bool
  /-- Skip parameters that have been inserted before quietly. -/
  quiet : Bool
deriving DecidableEq

/-- A job that has passed the check. -/
structure JobToInsert where
  /-- The job. -/
  job : BenchmarkingJob
  /-- The hash of its parameters. -/
  hash : BenchmarkingJobParametersHash
  /-- All insertion times, for adding the new one. -/
  insertionTimes : List SystemTime
deriving DecidableEq

namespace InsertContext

variable (cx : InsertContext)

/-- The table, as `open_already_inserted` opens it. -/
def alreadyInserted : AlreadyInserted := ⟨appendPath cx.globalAppStateDir "already_inserted", .all⟩

/-- `RunQueues::first` -/
def firstQueue : RunQueue := cx.runQueues.pipeline.head cx.runQueues.accepted.nonempty

/-- The hash that a job is entered under. -/
def hashOf (job : BenchmarkingJob) : BenchmarkingJobParametersHash := cx.cryptoHash job.benchmarkingJobParameters

/-- What is said about parameters that have been inserted before. -/
def alreadyInsertedMessage (params : BenchmarkingJobParameters) (insertionTimes : List SystemTime) : String :=
  let times := String.intercalate ", " (insertionTimes.map cx.systemTimeToRfc3339)
  s!"These parameters have already been inserted at {times}:\n{cx.ronParameters params}"

/-- The check that the commit of a job exists. -/
def checkCommit (job : BenchmarkingJob) : Evo Unit := do
  let commit := job.pub.runParameters.commitId
  let isValid ← Evo.call (.commitIsValid commit) id
  if isValid then pure ()
  else .throw (.bail s!"commit {commit.toString} does not exist in the repository at {cx.url}")

/-- The loop over the batch, with `jobs_to_insert` and `jobs_already_inserted` so far. -/
def checkJobs (opts : InsertOpts) :
    List BenchmarkingJob → List JobToInsert → List String → Evo (List JobToInsert × List String)
  | [], jobsToInsert, jobsAlreadyInserted => pure (jobsToInsert, jobsAlreadyInserted)
  | job :: jobs, jobsToInsert, jobsAlreadyInserted => do
    match ← Evo.ofKeyVal (cx.alreadyInserted.entryOpt (cx.hashOf job)) with
    | some entry =>
      let (params, insertionTimes) ← Prog.ofExcept (entry.get.mapError Error.keyVal)
      if opts.force then
        cx.checkCommit job
        checkJobs opts jobs (jobsToInsert ++ [⟨job, cx.hashOf job, insertionTimes⟩]) jobsAlreadyInserted
      else if opts.quiet then
        checkJobs opts jobs jobsToInsert jobsAlreadyInserted
      else
        checkJobs opts jobs jobsToInsert (jobsAlreadyInserted ++ [cx.alreadyInsertedMessage params insertionTimes])
    | none =>
      cx.checkCommit job
      checkJobs opts jobs (jobsToInsert ++ [⟨job, cx.hashOf job, []⟩]) jobsAlreadyInserted

/-- The report of a dry run, from the `i`-th job. -/
def report : ℕ → List JobToInsert → Evo Unit
  | _, [] => Evo.call .flush id
  | i, toInsert :: rest => do
    Evo.call (.print s!"would insert job {i + 1}:\n{cx.ronJob toInsert.job}\n") id
    report (i + 1) rest

/-- Delete the entry of a hash, if there is one. -/
def deleteEntry (hash : BenchmarkingJobParametersHash) : Evo Unit := do
  match ← Evo.ofKeyVal (cx.alreadyInserted.entryOpt hash) with
  | some entry =>
    let _ ← Evo.ofKeyVal entry.delete
    pure ()
  | none => pure ()

/-- Update the table after a push. -/
def recordJob (toInsert : JobToInsert) : Evo Unit := do
  cx.deleteEntry toInsert.hash
  let now ← Sys.systemTime
  Evo.ofKeyVal (cx.alreadyInserted.insert toInsert.hash
    (toInsert.job.benchmarkingJobParameters, toInsert.insertionTimes ++ [now]) true)

/-- The loop that inserts the jobs, with their number so far. -/
def recordJobs : List JobToInsert → ℕ → Evo ℕ
  | [], numInserted => pure numInserted
  | toInsert :: rest, numInserted => do
    cx.firstQueue.pushFront toInsert.job
    cx.recordJob toInsert
    recordJobs rest (numInserted + 1)

/-- The part of `insert_jobs` that runs with the lock on the table. -/
def insertJobsLocked (jobs : List BenchmarkingJob) (opts : InsertOpts) : Evo ℕ := do
  Evo.call .openPollingPool id
  let (jobsToInsert, jobsAlreadyInserted) ← cx.checkJobs opts jobs [] []
  if jobsAlreadyInserted ≠ [] then
    .throw (.bail ("there are jobs that were already inserted:\n\n" ++ String.intercalate "\n\n" jobsAlreadyInserted))
  else if opts.dryRun then
    cx.report 0 jobsToInsert
    pure 0
  else cx.recordJobs jobsToInsert 0

/-- `insert_jobs`: insert the jobs into the first queue and the table; the number of jobs inserted. -/
def insertJobs (jobs : List BenchmarkingJob) (opts : InsertOpts) : Evo ℕ := do
  Evo.ofKeyVal cx.alreadyInserted.lockExclusive
  Sys.withLock cx.alreadyInserted.baseDir (cx.insertJobsLocked jobs opts)

end InsertContext

/-! ### What a call is to do -/

namespace InsertContext

variable (cx : InsertContext)

/-- Where the entry of a job's parameters is in the table. -/
def historySlot (job : BenchmarkingJob) : String × String := cx.alreadyInserted.slot (cx.hashOf job)

/-- The parameters of the job are in the table. -/
def isRecorded (e : Entries FileContent) (job : BenchmarkingJob) : Bool := (e (cx.historySlot job)).isSome

/-- The times in the table's entry for a job's parameters. -/
def insertionTimes (e : Entries FileContent) (job : BenchmarkingJob) : List SystemTime :=
  match e (cx.historySlot job) with
  | some (some (.insertion _ times)) => times
  | _ => []

/-- The first queue has an entry with the job in `w'` that was not there in `w`. -/
def NewEntry (w w' : EvoWorld) (key : TimeKey) (job : BenchmarkingJob) : Prop :=
  w'.disk.entries (cx.firstQueue.slot key) = some (some (.job job)) ∧
    w.disk.entries (cx.firstQueue.slot key) ≠ some (some (.job job))

/-- The times in the table's entry for a job's parameters are those of `w`, and a time of the call. -/
def Recorded (w w' : EvoWorld) (job : BenchmarkingJob) : Prop :=
  ∃ params n, w.tick ≤ n ∧ n ≤ w'.tick ∧ w'.disk.entries (cx.historySlot job) =
    some (some (.insertion params (cx.insertionTimes w.disk.entries job ++ [(w.env n).now])))

/-- No parameters have been inserted twice. -/
structure Deduplicated (w w' : EvoWorld) (r : Outcome Error ℕ) : Prop where
  /-- At most one job per hash is pushed. -/
  once : ∀ {key key' job job'}, cx.NewEntry w w' key job → cx.NewEntry w w' key' job' →
    cx.hashOf job = cx.hashOf job' → key = key' ∧ job = job'
  /-- None is pushed whose hash was recorded. -/
  notRecorded : ∀ {key job}, cx.NewEntry w w' key job → cx.isRecorded w.disk.entries job = false
  /-- What has been pushed is recorded in the end. -/
  recorded : r.isOk = true → ∀ {key job}, cx.NewEntry w w' key job → cx.Recorded w w' job

/-- The jobs whose parameters are not in the table. -/
def fresh (e : Entries FileContent) (jobs : List BenchmarkingJob) : List BenchmarkingJob :=
  jobs.filter fun job => !cx.isRecorded e job

/-- The condition for deduplication: nothing is going to be inserted, or the parameters of the jobs that are differ
from each other. -/
def Deduplicable (opts : InsertOpts) (jobs : List BenchmarkingJob) (e : Entries FileContent) : Prop :=
  opts.dryRun = true ∨ (opts.quiet = false ∧ ∃ job ∈ jobs, cx.isRecorded e job = true) ∨
    ((cx.fresh e jobs).map cx.hashOf).Nodup

end InsertContext

/-! ### Programs that look at the visible files only -/

/-- Between `w` and `v` the visible files have become `e`. -/
def Becomes (w : EvoWorld) (e : Entries FileContent) (v : EvoWorld) : Prop := ∃ cs, w.Reaches cs e v

section Rules

variable {w v u : EvoWorld} {e e' : Entries FileContent} {pid : Pid}

theorem Becomes.refl (w : EvoWorld) : Becomes w w.disk.entries w := ⟨_, World.Reaches.refl w⟩

theorem Becomes.entries (h : Becomes w e v) : v.disk.entries = e := by
  obtain ⟨cs, h⟩ := h
  exact h.entries

theorem Becomes.tick (h : Becomes w e v) : w.tick ≤ v.tick := by
  obtain ⟨cs, h⟩ := h
  exact h.tick

theorem Becomes.event (h : Becomes w e v) : v.event = w.env v.tick := by
  obtain ⟨cs, h⟩ := h
  rw [World.event, h.env]

theorem Becomes.env (h : Becomes w e v) : v.env = w.env := by
  obtain ⟨cs, h⟩ := h
  exact h.env

theorem Becomes.trans (h : Becomes w e v) (h' : Becomes v e' u) : Becomes w e' u := by
  obtain ⟨cs, h⟩ := h
  obtain ⟨cs', h'⟩ := h'
  exact ⟨cs' ++ cs, h'.entries, by rw [h'.calls, h.calls, List.append_assoc], h'.env.trans h.env,
    Nat.le_trans h.tick h'.tick⟩

theorem Becomes.leads (h : Becomes w e v) (h' : v.Leads e' u) : Becomes w e' u := by
  obtain ⟨cs, h⟩ := h
  exact ⟨cs, h.leads h'⟩

theorem Becomes.same (h : Becomes w e v) (h' : v.Leads v.disk.entries u) : Becomes w e u :=
  h.leads (h.entries ▸ h')

theorem Becomes.call {cs : List (Σ x : Call, Answer x)} (h : Becomes w e v) (h' : v.Reaches cs v.disk.entries u) :
    Becomes w e u := h.trans ⟨cs, h.entries ▸ h'⟩

theorem Becomes.ofExcept {α : Type} (r : Except Error α) (hv : Becomes w e v) :
    Safe pid (Becomes w e) (fun _ u => Becomes w e u) (Prog.ofExcept r : Evo α) v := by
  cases r with
  | ok a => exact ⟨hv, hv⟩
  | error err => exact ⟨hv, hv⟩

theorem Becomes.evoCall {α : Type} {x : Call} {result : Answer x → Except CallError α} (hv : Becomes w e v) :
    Safe pid (Becomes w e) (fun _ u => Becomes w e u) (Evo.call x result) v := by
  refine Prog.holds_bind.2 (safe_call hv fun u hu => ⟨hv.call hu, ?_⟩)
  exact (hv.call hu).ofExcept _

end Rules

/-! ### Checking the batch -/

section Check

variable {cx : InsertContext} {opts : InsertOpts} {pid : Pid} {w v : EvoWorld}

theorem safe_checkCommit {e : Entries FileContent} (job : BenchmarkingJob) (hv : Becomes w e v) :
    Safe pid (Becomes w e) (fun _ u => Becomes w e u) (cx.checkCommit job) v := by
  refine Prog.holds_bind.2 (hv.evoCall.imp fun r u hu => ?_)
  cases r with
  | err err => exact hu
  | panic msg => exact hu
  | ok isValid =>
    cases isValid with
    | true => exact ⟨hu, hu⟩
    | false => exact ⟨hu, hu⟩

/-- How the check of a batch ends: it changes nothing, it passes on the jobs that have not been recorded, and it has
something to say about the others unless it is quiet. -/
def InsertContext.Checked (cx : InsertContext) (opts : InsertOpts) (w : EvoWorld) (jobs : List BenchmarkingJob)
    (jobsToInsert : List JobToInsert) (jobsAlreadyInserted : List String)
    (r : Outcome Error (List JobToInsert × List String)) (u : EvoWorld) : Prop :=
  Becomes w w.disk.entries u ∧ ∀ toInsert alreadyInserted, r = .ok (toInsert, alreadyInserted) →
    toInsert = jobsToInsert ++ (cx.fresh w.disk.entries jobs).map (fun job => ⟨job, cx.hashOf job, []⟩) ∧
      (alreadyInserted = [] ↔ jobsAlreadyInserted = [] ∧
        (opts.quiet = true ∨ ∀ job ∈ jobs, cx.isRecorded w.disk.entries job = false))

/-- **Checking.** -/
theorem safe_checkJobs (hforce : opts.force = false) (jobs : List BenchmarkingJob) {jobsToInsert : List JobToInsert}
    {jobsAlreadyInserted : List String} (hv : Becomes w w.disk.entries v) :
    Safe pid (Becomes w w.disk.entries) (cx.Checked opts w jobs jobsToInsert jobsAlreadyInserted)
      (cx.checkJobs opts jobs jobsToInsert jobsAlreadyInserted) v := by
  induction jobs generalizing jobsToInsert jobsAlreadyInserted v with
  | nil =>
    refine ⟨hv, hv, ?_⟩
    rintro _ _ ⟨⟩
    simp [InsertContext.fresh]
  | cons job jobs ih =>
    rw [InsertContext.checkJobs]
    refine Prog.holds_bind.2 (Prog.holds_mapErr.2 (KeyVal.safe_entryOpt (fun u hu => hv.same hu) ?_ ?_ ?_))
    · exact fun err u hu => ⟨hv.same hu, fun _ _ h => nomatch h⟩
    · intro hnone u hu
      rw [hv.entries] at hnone
      have hfresh : cx.isRecorded w.disk.entries job = false := by
        rw [InsertContext.isRecorded, InsertContext.historySlot, hnone]
        rfl
      refine Prog.holds_bind.2 ((safe_checkCommit job (hv.same hu)).imp fun r t ht => ?_)
      cases r with
      | err err => exact ⟨ht, fun _ _ h => nomatch h⟩
      | panic msg => exact ⟨ht, fun _ _ h => nomatch h⟩
      | ok _ =>
        refine (ih ht).imp fun r t' ht' => ⟨ht'.1, fun toInsert alreadyInserted hr => ?_⟩
        obtain ⟨hinsert, halready⟩ := ht'.2 toInsert alreadyInserted hr
        simp only [InsertContext.fresh] at hinsert ⊢
        rw [hinsert, halready]
        simp [hfresh]
    · intro content hcontent u hu
      rw [hv.entries] at hcontent
      have hrecorded : cx.isRecorded w.disk.entries job = true := by
        rw [InsertContext.isRecorded, InsertContext.historySlot, hcontent]
        rfl
      refine Prog.holds_bind.2 (((hv.same hu).ofExcept _).imp fun r t ht => ?_)
      cases r with
      | err err => exact ⟨ht, fun _ _ h => nomatch h⟩
      | panic msg => exact ⟨ht, fun _ _ h => nomatch h⟩
      | ok found =>
        simp only [Prog.Then, hforce]
        cases hquiet : opts.quiet with
        | true =>
          refine (ih ht).imp fun r t' ht' => ⟨ht'.1, fun toInsert alreadyInserted hr => ?_⟩
          obtain ⟨hinsert, halready⟩ := ht'.2 toInsert alreadyInserted hr
          simp only [InsertContext.fresh] at hinsert ⊢
          rw [hinsert, halready]
          simp [hrecorded, hquiet]
        | false =>
          refine (ih ht).imp fun r t' ht' => ⟨ht'.1, fun toInsert alreadyInserted hr => ?_⟩
          obtain ⟨hinsert, halready⟩ := ht'.2 toInsert alreadyInserted hr
          simp only [InsertContext.fresh] at hinsert ⊢
          rw [hinsert, halready]
          simp [hrecorded, hquiet]

end Check

/-! ### Inserting what is left -/

section Record

variable {cx : InsertContext} {pid : Pid} {w v : EvoWorld} {e : Entries FileContent}

theorem safe_pushFirst {job : BenchmarkingJob} {Q : Outcome Error Unit → EvoWorld → Prop} (hv : Becomes w e v)
    (hkeep : ∀ r u, r.isOk = false → Becomes w e u → Q r u)
    (hput : ∀ key, e (cx.firstQueue.slot key) = none → ∀ r u,
      Becomes w (putEntry e (cx.firstQueue.slot key) (.job job)) u → Q r u) :
    Safe pid (fun _ => True) Q (cx.firstQueue.pushFront job) v := by
  refine Prog.holds_mapErr.2 (Queue.safe_pushFront (fun _ _ => trivial) (fun _ _ _ _ _ => trivial) ?_ ?_ ?_ ?_)
  · exact fun msg u hu => hkeep _ u rfl (hv.same hu)
  · exact fun err u hu => hkeep _ u rfl (hv.same hu)
  · intro key _ hnone err u hu
    rw [hv.entries] at hnone hu
    exact hput key hnone _ u (hv.leads hu)
  · intro key _ hnone u hu
    rw [hv.entries] at hnone hu
    exact hput key hnone _ u (hv.leads hu)

theorem eraseEntry_of_none {slot : String × String} (h : e slot = none) : eraseEntry e slot = e := by
  rw [eraseEntry, Function.update_eq_self_iff, h]

theorem safe_deleteEntry {hash : BenchmarkingJobParametersHash} {Q : Outcome Error Unit → EvoWorld → Prop}
    (hv : Becomes w e v) (hkeep : ∀ r u, r.isOk = false → Becomes w e u → Q r u)
    (hok : ∀ u, Becomes w (eraseEntry e (cx.alreadyInserted.slot hash)) u → Q (.ok ()) u) :
    Safe pid (fun _ => True) Q (cx.deleteEntry hash) v := by
  refine Prog.holds_bind.2 (Prog.holds_mapErr.2 (KeyVal.safe_entryOpt (fun _ _ => trivial) ?_ ?_ ?_))
  · exact fun err u hu => hkeep _ u rfl (hv.same hu)
  · intro hnone u hu
    rw [hv.entries] at hnone
    exact ⟨trivial, hok u (by rw [eraseEntry_of_none hnone]; exact hv.same hu)⟩
  · intro content _ u hu
    have hu' := hv.same hu
    refine Prog.holds_bind.2 (Prog.holds_mapErr.2 (Entry.safe_delete (fun _ _ => trivial) (fun _ _ => trivial) ?_ ?_))
    · exact fun err t ht => hkeep _ t rfl (hu'.same ht)
    · intro _ t ht
      rw [hu'.entries] at ht
      exact ⟨trivial, hok t (hu'.leads ht)⟩

/-- **Updating the table.** Only the entry of the hash is changed, and after `Ok` it is the new one. -/
theorem safe_recordJob {toInsert : JobToInsert} {Q : Outcome Error Unit → EvoWorld → Prop} (hv : Becomes w e v)
    (hkeep : ∀ r u, r.isOk = false → Becomes w e u → Q r u)
    (herase : ∀ r u, r.isOk = false → Becomes w (eraseEntry e (cx.alreadyInserted.slot toInsert.hash)) u → Q r u)
    (hput : ∀ n, w.tick ≤ n → ∀ r u, n ≤ u.tick → Becomes w (putEntry e (cx.alreadyInserted.slot toInsert.hash)
      (.insertion toInsert.job.benchmarkingJobParameters (toInsert.insertionTimes ++ [(w.env n).now]))) u → Q r u) :
    Safe pid (fun _ => True) Q (cx.recordJob toInsert) v := by
  refine Prog.holds_bind.2 (safe_deleteEntry hv ?_ fun u hu => ?_)
  · intro r u hr hu
    cases r with
    | ok _ => cases hr
    | err err => exact hkeep _ u rfl hu
    | panic msg => exact hkeep _ u rfl hu
  refine Prog.holds_bind.2 (safe_systemTime trivial (fun _ _ => trivial) fun t ht => ?_)
  have ht' := hu.same ht.leads
  rw [hu.event]
  have hwas : putEntry (eraseEntry e (cx.alreadyInserted.slot toInsert.hash)) (cx.alreadyInserted.slot toInsert.hash) =
      putEntry e (cx.alreadyInserted.slot toInsert.hash) := by
    funext c
    exact Function.update_idem _ _ _
  refine Prog.holds_mapErr.2 (KeyVal.safe_insert (fun _ _ => trivial) (fun _ _ _ => trivial) ?_ ?_ ?_)
  · exact fun err t' hl => herase _ t' rfl (ht'.same hl)
  · intro _ err t' hl
    rw [ht'.entries, hwas] at hl
    exact hput u.tick hu.tick _ t' (Nat.le_trans ht.tick hl.tick) (ht'.leads hl)
  · intro _ t' hl
    rw [ht'.entries, hwas] at hl
    exact hput u.tick hu.tick _ t' (Nat.le_trans ht.tick hl.tick) (ht'.leads hl)

/-- The visible files after the pushes of jobs under keys, starting from the files `e₀`. -/
structure Pushed (cx : InsertContext) (e₀ : Entries FileContent) (pushes : List (TimeKey × BenchmarkingJob))
    (e : Entries FileContent) : Prop where
  /-- Nothing else has been pushed. -/
  only : ∀ {key job}, e (cx.firstQueue.slot key) = some (some (.job job)) →
    e₀ (cx.firstQueue.slot key) = some (some (.job job)) ∨ (key, job) ∈ pushes
  /-- Nothing has been taken out of the queue. -/
  old : cx.alreadyInserted.baseDir ≠ cx.firstQueue.queue.keyVal.baseDir → ∀ {key},
    e₀ (cx.firstQueue.slot key) ≠ none → e (cx.firstQueue.slot key) ≠ none
  /-- What has been pushed is there. -/
  kept : cx.alreadyInserted.baseDir ≠ cx.firstQueue.queue.keyVal.baseDir → ∀ x ∈ pushes,
    e (cx.firstQueue.slot x.1) = some (some (.job x.2)) ∧ e₀ (cx.firstQueue.slot x.1) = none
  /-- No key has been used twice. -/
  nodup : cx.alreadyInserted.baseDir ≠ cx.firstQueue.queue.keyVal.baseDir → (pushes.map Prod.fst).Nodup

namespace Pushed

variable {e₀ : Entries FileContent} {pushes : List (TimeKey × BenchmarkingJob)} {key : TimeKey} {job : BenchmarkingJob}

theorem start (cx : InsertContext) (e : Entries FileContent) : Pushed cx e [] e :=
  ⟨fun h => .inl h, fun _ _ h => h, fun _ _ hx => (List.not_mem_nil hx).elim, fun _ => List.nodup_nil⟩

theorem push (h : Pushed cx e₀ pushes e) (hnone : e (cx.firstQueue.slot key) = none) :
    Pushed cx e₀ (pushes ++ [(key, job)]) (putEntry e (cx.firstQueue.slot key) (.job job)) := by
  have hother : ∀ {key'}, key' ≠ key →
      putEntry e (cx.firstQueue.slot key) (.job job) (cx.firstQueue.slot key') = e (cx.firstQueue.slot key') := by
    intro key' hne
    exact Function.update_of_ne (fun he => hne (cx.firstQueue.queue.keyVal.slot_injective he)) _ _
  refine ⟨fun {key' job'} hjob => ?_, fun hdir key' hsome => ?_, fun hdir x hx => ?_, fun hdir => ?_⟩
  · by_cases hk : key' = key
    · subst hk
      rw [putEntry, Function.update_self] at hjob
      cases hjob
      exact .inr (List.mem_append_right _ (List.mem_singleton_self _))
    · rw [hother hk] at hjob
      exact (h.only hjob).imp id (List.mem_append_left _)
  · by_cases hk : key' = key
    · subst hk
      rw [putEntry, Function.update_self]
      simp
    · rw [hother hk]
      exact h.old hdir hsome
  · rcases List.mem_append.1 hx with hx | hx
    · obtain ⟨hthere, hnew⟩ := h.kept hdir x hx
      refine ⟨?_, hnew⟩
      rw [hother, hthere]
      rintro rfl
      rw [hnone] at hthere
      cases hthere
    · obtain rfl := List.mem_singleton.1 hx
      refine ⟨Function.update_self _ _ _, ?_⟩
      by_contra hsome
      exact h.old hdir hsome hnone
  · rw [List.map_append, List.nodup_append']
    refine ⟨h.nodup hdir, List.nodup_singleton _, fun k hk hk' => ?_⟩
    obtain rfl := List.mem_singleton.1 hk'
    obtain ⟨x, hx, rfl⟩ := List.mem_map.1 hk
    rw [(h.kept hdir x hx).1] at hnone
    cases hnone

/-- Whatever happens to the table's entry of a hash. -/
theorem record {hash : BenchmarkingJobParametersHash} {c : Option (Option FileContent)} (h : Pushed cx e₀ pushes e)
    (hc : ∀ job, c ≠ some (some (.job job))) :
    Pushed cx e₀ pushes (Function.update e (cx.alreadyInserted.slot hash) c) := by
  have hother : cx.alreadyInserted.baseDir ≠ cx.firstQueue.queue.keyVal.baseDir → ∀ key,
      Function.update e (cx.alreadyInserted.slot hash) c (cx.firstQueue.slot key) = e (cx.firstQueue.slot key) :=
    fun hdir key => Function.update_of_ne (fun he => hdir (Prod.mk.inj he).1.symm) _ _
  refine ⟨fun {key job} hjob => ?_, fun hdir key hsome => ?_, fun hdir x hx => ?_, h.nodup⟩
  · show _ ∨ _
    rw [Function.update_apply] at hjob
    split_ifs at hjob with he
    · exact absurd hjob (hc job)
    · exact h.only hjob
  · rw [hother hdir]
    exact h.old hdir hsome
  · rw [hother hdir]
    exact h.kept hdir x hx

theorem erase {hash : BenchmarkingJobParametersHash} (h : Pushed cx e₀ pushes e) :
    Pushed cx e₀ pushes (eraseEntry e (cx.alreadyInserted.slot hash)) := h.record (by simp)

theorem put {hash : BenchmarkingJobParametersHash} {params : BenchmarkingJobParameters} {times : List SystemTime}
    (h : Pushed cx e₀ pushes e) :
    Pushed cx e₀ pushes (putEntry e (cx.alreadyInserted.slot hash) (.insertion params times)) := h.record (by simp)

end Pushed

/-- How the loop that inserts jobs ends: a part of them has been pushed, and if it ends with `Ok` then all of them,
and they are recorded. -/
def InsertContext.Inserted (cx : InsertContext) (w : EvoWorld) (jobs : List BenchmarkingJob)
    (pushes : List (TimeKey × BenchmarkingJob)) (r : Outcome Error ℕ) (u : EvoWorld) : Prop :=
  ∃ more e, Becomes w e u ∧ Pushed cx w.disk.entries (pushes ++ more) e ∧ more.map Prod.snd <+: jobs ∧
    (r.isOk = true → more.map Prod.snd = jobs ∧ ∀ x ∈ pushes ++ more, cx.Recorded w u x.2)

/-- An end that is not `Ok`. -/
theorem inserted_of_not_ok {jobs : List BenchmarkingJob} {pushes more : List (TimeKey × BenchmarkingJob)}
    {r : Outcome Error ℕ} {u : EvoWorld} (hu : Becomes w e u) (hp : Pushed cx w.disk.entries (pushes ++ more) e)
    (hmore : more.map Prod.snd <+: jobs) (hr : r.isOk = false) : cx.Inserted w jobs pushes r u :=
  ⟨more, e, hu, hp, hmore, fun hok => by rw [hr] at hok; cases hok⟩

/-- What has been recorded stays so when another entry is written, or when it is written again. -/
theorem recorded_put {u : EvoWorld} {job job' : BenchmarkingJob} {params : BenchmarkingJobParameters} {n : ℕ}
    (hfresh : cx.isRecorded w.disk.entries job' = false) (hn : w.tick ≤ n) (hnu : n ≤ u.tick)
    (hentries : u.disk.entries = putEntry e (cx.historySlot job') (.insertion params ([] ++ [(w.env n).now])))
    (h : cx.historySlot job = cx.historySlot job' ∨ ∃ params n, w.tick ≤ n ∧ n ≤ u.tick ∧ e (cx.historySlot job) =
      some (some (.insertion params (cx.insertionTimes w.disk.entries job ++ [(w.env n).now])))) :
    cx.Recorded w u job := by
  by_cases hslot : cx.historySlot job = cx.historySlot job'
  · have htimes : cx.insertionTimes w.disk.entries job = [] := by
      rw [InsertContext.isRecorded, Option.isSome_eq_false_iff, Option.isNone_iff_eq_none] at hfresh
      rw [InsertContext.insertionTimes, hslot, hfresh]
    refine ⟨params, n, hn, hnu, ?_⟩
    rw [htimes, hentries, hslot]
    exact Function.update_self _ _ _
  · obtain ⟨params', n', hn', hnu', he⟩ := h.resolve_left hslot
    refine ⟨params', n', hn', hnu', ?_⟩
    rw [hentries, ← he]
    exact Function.update_of_ne hslot _ _

/-- **The loop that inserts jobs.** -/
theorem safe_recordJobs (jobs : List BenchmarkingJob)
    (hfresh : ∀ job ∈ jobs, cx.isRecorded w.disk.entries job = false) {pushes : List (TimeKey × BenchmarkingJob)} {n : ℕ}
    (hv : Becomes w e v) (hp : Pushed cx w.disk.entries pushes e) (hrec : ∀ x ∈ pushes, cx.Recorded w v x.2) :
    Safe pid (fun _ => True) (cx.Inserted w jobs pushes)
      (cx.recordJobs (jobs.map fun job => ⟨job, cx.hashOf job, []⟩) n) v := by
  induction jobs generalizing pushes n e v with
  | nil =>
    refine ⟨trivial, [], e, hv, by rwa [List.append_nil], List.nil_prefix, fun _ => ⟨rfl, ?_⟩⟩
    rwa [List.append_nil]
  | cons job jobs ih =>
    obtain rfl := hv.entries
    refine Prog.holds_bind.2 (safe_pushFirst (Becomes.refl v) ?_ fun key hnone r u hu => ?_)
    · intro r u hr hu
      have hnothing : Pushed cx w.disk.entries (pushes ++ []) v.disk.entries := by rwa [List.append_nil]
      cases r with
      | ok _ => cases hr
      | err err => exact inserted_of_not_ok (hv.trans hu) hnothing List.nil_prefix rfl
      | panic msg => exact inserted_of_not_ok (hv.trans hu) hnothing List.nil_prefix rfl
    have hp₁ : Pushed cx w.disk.entries (pushes ++ [(key, job)]) _ := hp.push hnone
    have hpre : [(key, job)].map Prod.snd <+: job :: jobs := ⟨jobs, rfl⟩
    cases r with
    | err err => exact inserted_of_not_ok (hv.trans hu) hp₁ hpre rfl
    | panic msg => exact inserted_of_not_ok (hv.trans hu) hp₁ hpre rfl
    | ok _ =>
      refine Prog.holds_bind.2 (safe_recordJob hu ?_ ?_ fun m hm r t hmt ht => ?_)
      · intro r t hr ht
        cases r with
        | ok _ => cases hr
        | err err => exact inserted_of_not_ok (hv.trans ht) hp₁ hpre rfl
        | panic msg => exact inserted_of_not_ok (hv.trans ht) hp₁ hpre rfl
      · intro r t hr ht
        cases r with
        | ok _ => cases hr
        | err err => exact inserted_of_not_ok (hv.trans ht) hp₁.erase hpre rfl
        | panic msg => exact inserted_of_not_ok (hv.trans ht) hp₁.erase hpre rfl
      cases r with
      | err err => exact inserted_of_not_ok (hv.trans ht) hp₁.put hpre rfl
      | panic msg => exact inserted_of_not_ok (hv.trans ht) hp₁.put hpre rfl
      | ok _ =>
        have hrec₁ : ∀ x ∈ pushes ++ [(key, job)], cx.Recorded w t x.2 := by
          intro x hx
          rw [hv.env] at ht
          refine recorded_put (hfresh job List.mem_cons_self) (Nat.le_trans hv.tick hm) hmt ht.entries ?_
          rcases List.mem_append.1 hx with hx | hx
          · obtain ⟨params, n, hn, hnv, hx⟩ := hrec x hx
            refine .inr ⟨params, n, hn, Nat.le_trans hnv ht.tick, ?_⟩
            -- the push was under a key without an entry
            rw [← hx]
            refine Function.update_of_ne (fun he => ?_) _ _
            rw [he, hnone] at hx
            cases hx
          · obtain rfl := List.mem_singleton.1 hx
            exact .inl rfl
        refine (ih (fun job' hjob' => hfresh job' (List.mem_cons_of_mem _ hjob')) (hv.trans ht) hp₁.put hrec₁).imp ?_
        rintro r t' ⟨more, e', ht', hp', hmore, hok⟩
        rw [List.append_assoc] at hp' hok
        refine ⟨(key, job) :: more, e', ht', hp', (List.prefix_cons_inj job).2 hmore, fun hr => ?_⟩
        obtain ⟨hall, hrec'⟩ := hok hr
        exact ⟨congrArg (job :: ·) hall, hrec'⟩

end Record

/-! ### Whole calls -/

section Calls

variable {cx : InsertContext} {pid : Pid} {w v : EvoWorld} {jobs : List BenchmarkingJob} {opts : InsertOpts}
  {r : Outcome Error ℕ}

/-- How a call without `force` ends: either it has inserted nothing, which is no success unless it is a dry run, or it
has inserted jobs that were not recorded before. -/
inductive InsertContext.Ended (cx : InsertContext) (jobs : List BenchmarkingJob) (opts : InsertOpts) (w : EvoWorld)
    (r : Outcome Error ℕ) (u : EvoWorld) : Prop
  /-- Nothing has been inserted. -/
  | unchanged (hu : Becomes w w.disk.entries u) (hr : r.isOk = true → opts.dryRun = true)
  /-- The insertion has begun. -/
  | inserted (hdry : opts.dryRun = false)
      (hquiet : opts.quiet = true ∨ ∀ job ∈ jobs, cx.isRecorded w.disk.entries job = false)
      (h : cx.Inserted w (cx.fresh w.disk.entries jobs) [] r u)

/-- Operations that change no visible file may follow. -/
theorem ended_of_same {u : EvoWorld} (h : cx.Ended jobs opts w r v) (hu : v.Leads v.disk.entries u) :
    cx.Ended jobs opts w r u := by
  cases h with
  | unchanged hv hr => exact .unchanged (hv.same hu) hr
  | inserted hdry hquiet h =>
    obtain ⟨more, e, hv, hp, hmore, hok⟩ := h
    refine .inserted hdry hquiet ⟨more, e, hv.same hu, hp, hmore, fun hr => ⟨(hok hr).1, fun x hx => ?_⟩⟩
    obtain ⟨params, n, hn, hnv, hentry⟩ := (hok hr).2 x hx
    exact ⟨params, n, hn, Nat.le_trans hnv hu.tick, by rw [hu.entries, hentry]⟩

theorem safe_report {e : Entries FileContent} (toInsert : List JobToInsert) {i : ℕ} (hv : Becomes w e v) :
    Safe pid (Becomes w e) (fun _ u => Becomes w e u) (cx.report i toInsert) v := by
  induction toInsert generalizing i v with
  | nil => exact hv.evoCall
  | cons job rest ih =>
    refine Prog.holds_bind.2 (hv.evoCall.imp fun r u hu => ?_)
    cases r with
    | ok _ => exact ih hu
    | err err => exact hu
    | panic msg => exact hu

theorem safe_insertJobsLocked (hforce : opts.force = false) (hv : Becomes w w.disk.entries v) :
    Safe pid (fun _ => True) (cx.Ended jobs opts w) (cx.insertJobsLocked jobs opts) v := by
  refine Prog.holds_bind.2 (hv.evoCall.mono (fun _ _ => trivial) fun r u hu => ?_)
  cases r with
  | err err => exact .unchanged hu (by rintro ⟨⟩)
  | panic msg => exact .unchanged hu (by rintro ⟨⟩)
  | ok _ =>
    refine Prog.holds_bind.2 ((safe_checkJobs hforce jobs hu).mono (fun _ _ => trivial) fun r t ht => ?_)
    obtain ⟨ht, hchecked⟩ := ht
    cases r with
    | err err => exact .unchanged ht (by rintro ⟨⟩)
    | panic msg => exact .unchanged ht (by rintro ⟨⟩)
    | ok checked =>
      obtain ⟨toInsert, alreadyInserted⟩ := checked
      obtain ⟨rfl, halready⟩ := hchecked toInsert alreadyInserted rfl
      simp only [Prog.Then]
      by_cases hbail : alreadyInserted ≠ []
      · rw [if_pos hbail]
        exact ⟨trivial, .unchanged ht (by rintro ⟨⟩)⟩
      rw [if_neg hbail]
      by_cases hdry : opts.dryRun = true
      · rw [if_pos hdry]
        refine Prog.holds_bind.2 ((safe_report _ ht).mono (fun _ _ => trivial) fun r t' ht' => ?_)
        cases r with
        | ok _ => exact ⟨trivial, .unchanged ht' fun _ => hdry⟩
        | err err => exact .unchanged ht' fun _ => hdry
        | panic msg => exact .unchanged ht' fun _ => hdry
      · rw [if_neg hdry, List.nil_append]
        obtain ⟨-, hquiet⟩ := halready.1 (not_not.1 hbail)
        refine (safe_recordJobs _ (fun job hjob => ?_) ht (Pushed.start cx _) fun x hx => ?_).imp ?_
        · simpa using (List.mem_filter.1 hjob).2
        · exact (List.not_mem_nil hx).elim
        · exact fun r t' h => .inserted (by simpa using hdry) hquiet h

/-- **How a call ends.** -/
theorem safe_insertJobs (hforce : opts.force = false) :
    Safe pid (fun _ => True) (cx.Ended jobs opts w) (cx.insertJobs jobs opts) w := by
  refine Prog.holds_bind.2 (Prog.holds_mapErr.2 (safe_lockExclusive (fun _ _ => trivial) ?_ fun v hv => ?_))
  · exact fun err v hv => .unchanged ((Becomes.refl w).leads hv) (by rintro ⟨⟩)
  · refine safe_withLock ((safe_insertJobsLocked hforce ((Becomes.refl w).leads hv)).imp fun r t ht u hu => ?_)
    exact ⟨trivial, ended_of_same ht hu.leads⟩

/-- A call that has pushed different parameters only, none of them recorded before. -/
theorem deduplicated_of_pushed {e : Entries FileContent} {pushes : List (TimeKey × BenchmarkingJob)}
    (hv : Becomes w e v) (hp : Pushed cx w.disk.entries pushes e) (hnodup : (pushes.map fun x => cx.hashOf x.2).Nodup)
    (hfresh : ∀ x ∈ pushes, cx.isRecorded w.disk.entries x.2 = false)
    (hrec : r.isOk = true → ∀ x ∈ pushes, cx.Recorded w v x.2) : cx.Deduplicated w v r := by
  have hmem : ∀ {key job}, cx.NewEntry w v key job → (key, job) ∈ pushes := by
    rintro key job ⟨hthere, hnew⟩
    rw [hv.entries] at hthere
    exact (hp.only hthere).resolve_left hnew
  constructor
  · intro key key' job job' h h' hhash
    exact Prod.mk.inj (List.inj_on_of_nodup_map hnodup (hmem h) (hmem h') hhash)
  · intro key job h
    exact hfresh (key, job) (hmem h)
  · intro hr key job h
    exact hrec hr (key, job) (hmem h)

/-- **The condition is enough.** -/
theorem deduplicated_of_deduplicable (h : cx.Ended jobs opts w r v)
    (hcond : cx.Deduplicable opts jobs w.disk.entries) : cx.Deduplicated w v r := by
  cases h with
  | unchanged hv hr =>
    refine deduplicated_of_pushed hv (Pushed.start cx _) List.nodup_nil (fun x hx => ?_) fun _ x hx => ?_
    · exact (List.not_mem_nil hx).elim
    · exact (List.not_mem_nil hx).elim
  | inserted hdry hquiet h =>
    obtain ⟨pushes, e, hv, hp, hmore, hok⟩ := h
    have hnodup : ((cx.fresh w.disk.entries jobs).map cx.hashOf).Nodup := by
      rcases hcond with h | ⟨h, job, hjob, hrecorded⟩ | h
      · rw [hdry] at h
        cases h
      · -- the call would have been refused
        rcases hquiet with hquiet | hall
        · rw [h] at hquiet
          cases hquiet
        · rw [hall job hjob] at hrecorded
          cases hrecorded
      · exact h
    refine deduplicated_of_pushed hv hp ?_ (fun x hx => ?_) fun hr => (hok hr).2
    · have hsub := (hmore.map cx.hashOf).sublist.nodup hnodup
      rwa [List.map_map] at hsub
    · have hfresh := hmore.subset (List.mem_map_of_mem hx)
      simpa using (List.mem_filter.1 hfresh).2

/-- **The condition is necessary** for a call that returns `Ok`. -/
theorem deduplicable_of_deduplicated (h : cx.Ended jobs opts w r v) (hr : r.isOk = true)
    (hdir : cx.alreadyInserted.baseDir ≠ cx.firstQueue.queue.keyVal.baseDir) (hdedup : cx.Deduplicated w v r) :
    cx.Deduplicable opts jobs w.disk.entries := by
  cases h with
  | unchanged hv hdry => exact .inl (hdry hr)
  | inserted hdry hquiet h =>
    obtain ⟨pushes, e, hv, hp, hmore, hok⟩ := h
    refine .inr (.inr ?_)
    rw [← (hok hr).1, List.map_map]
    have hnew : ∀ x ∈ pushes, cx.NewEntry w v x.1 x.2 := by
      intro x hx
      obtain ⟨hthere, hnone⟩ := hp.kept hdir x hx
      refine ⟨by rw [hv.entries, hthere], ?_⟩
      rw [hnone]
      simp
    refine List.Nodup.map_on (fun x hx y hy hhash => ?_) (hp.nodup hdir).of_map
    obtain ⟨hkey, hjob⟩ := hdedup.once (hnew x hx) (hnew y hy) hhash
    exact Prod.ext hkey hjob

/-- **Insertion deduplicates exactly under that condition**: any call without `force` does where it is met, however the
call ends; and if a call returns `Ok` and has deduplicated, then it was met. -/
theorem insert_deduplicated_iff (cx : InsertContext) (pid : Pid) (jobs : List BenchmarkingJob) (opts : InsertOpts)
    (hforce : opts.force = false) {w w' : EvoWorld} {r : Outcome Error ℕ}
    (hrun : (cx.insertJobs jobs opts).run (machine pid) w = some (r, w')) :
    (cx.Deduplicable opts jobs w.disk.entries → cx.Deduplicated w w' r) ∧
      (r.isOk = true → cx.alreadyInserted.baseDir ≠ cx.firstQueue.queue.keyVal.baseDir →
        cx.Deduplicated w w' r → cx.Deduplicable opts jobs w.disk.entries) := by
  have hended : cx.Ended jobs opts w r w' := ((Prog.holds_iff _).1 (safe_insertJobs hforce)).2 r w' hrun
  exact ⟨fun hcond => deduplicated_of_deduplicable hended hcond,
    fun hr hdir hdedup => deduplicable_of_deduplicated hended hr hdir hdedup⟩

end Calls

/-- The small configuration, with the hashes of two parameters. -/
def sampleInsertContext : InsertContext where
  runQueues := sampleQueues
  globalAppStateDir := "state"
  url := "\"file:///repository\""
  cryptoHash params :=
    if params.runParameters.commitId = ⟨0⟩ then ⟨"a6nMhWCwrHXA_e8vt99Ua4vQMvOB_TNV7YGNhNVjy60", by decide +kernel⟩
    else ⟨"X6c2HXaYTa7M2ZPAobVfNE6BG4S_9E_IABL4RpXKVLg", by decide +kernel⟩
  systemTimeToRfc3339 _ := "1970-01-01T00:00:00+00:00"
  ronParameters _ := "()"
  ronJob _ := "()"

/-- The job for another commit. -/
def sampleOtherJob : BenchmarkingJob :=
  { sampleJob with pub := { sampleJob.pub with runParameters := ⟨⟨1⟩, []⟩ } }

/-- Insertion without any option. -/
def sampleInsertOpts : InsertOpts := ⟨false, false, false⟩

/-- Inserting two jobs. -/
def sampleInsertJobs (job job' : BenchmarkingJob) : Evo ℕ :=
  sampleInsertContext.insertJobs [job, job'] sampleInsertOpts

/-- Two jobs with different parameters are inserted and recorded. -/
theorem insert_deduplicated_iff_sample :
    sampleInsertContext.Deduplicated sampleEmpty (sampleAfter (sampleInsertJobs sampleJob sampleOtherJob) sampleEmpty)
      (.ok 2) := by
  have hok : ((sampleInsertJobs sampleJob sampleOtherJob).run (machine 5) sampleEmpty).map Prod.fst = some (.ok 2) := by
    decide +kernel
  have hcond := insert_deduplicated_iff sampleInsertContext 5 [sampleJob, sampleOtherJob] sampleInsertOpts rfl
    (run_eq_sampleAfter hok)
  exact hcond.1 (.inr (.inr (by decide +kernel)))

/-- A job that is in the batch twice is pushed twice. -/
theorem insert_not_deduplicated :
    ¬ ∀ (cx : InsertContext) (pid : Pid) (jobs : List BenchmarkingJob) (opts : InsertOpts) (w w' : EvoWorld)
      (r : Outcome Error ℕ), opts.force = false → (cx.insertJobs jobs opts).run (machine pid) w = some (r, w') →
        cx.Deduplicated w w' r := by
  intro hall
  have hok : ((sampleInsertJobs sampleJob sampleJob).run (machine 5) sampleEmpty).map Prod.fst = some (.ok 2) := by
    decide +kernel
  have hdedup := hall sampleInsertContext 5 [sampleJob, sampleJob] sampleInsertOpts sampleEmpty _ _ rfl
    (run_eq_sampleAfter hok)
  have hpushed : ∀ key ∈ [(⟨0, 5, 0⟩ : TimeKey), ⟨0, 5, 1⟩], sampleInsertContext.NewEntry sampleEmpty
      (sampleAfter (sampleInsertJobs sampleJob sampleJob) sampleEmpty) key sampleJob := by
    intro key hkey
    simp only [List.mem_cons, List.not_mem_nil, or_false] at hkey
    rcases hkey with rfl | rfl
    · exact ⟨by decide +kernel, by decide +kernel⟩
    · exact ⟨by decide +kernel, by decide +kernel⟩
  have hsame := hdedup.once (hpushed _ List.mem_cons_self) (hpushed _ (List.mem_cons_of_mem _ List.mem_cons_self)) rfl
  exact absurd hsame.1 (by decide)

end Evobench.Run

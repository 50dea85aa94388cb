import Evobench.Run.Config
import Evobench.KeyValFs.Queue

/-!
# Benchmarking jobs

A job consists of constant public parts, which include the parameters that determine its results, of the
changing counts, and of its priority. `BenchmarkingJob.cloneForQueueReinsertion` is how a job goes back
into a queue: with new counts, and without its boost.

`FileContent` is what the files below the queues and the table of insertions hold, and `Call` lists the
functions of the tools whose answers the model leaves to the outside.

## Honest scope

The instances of `Serde` for `FileContent` read what was written as it was. `serde_json` does this for jobs whose priorities are
finite (an infinite one is written as `null`, which is not read back) and for times that are not before the epoch (the others are
refused). Other jobs and times are outside of the model.
-/

namespace Evobench.Run

open Library SerdeTypes KeyValFs IoUtils

/-! ### The parameters of a job -/

/-- The id of a commit, 20 bytes. -/
structure GitHash where
  /-- The bytes. -/
  bytes : BitVec 160
deriving DecidableEq

/-- The type of a custom parameter. -/
inductive CustomParameterType where
  /-- `String` -/
  | string
  /-- `Filename` -/
  | filename
  /-- `Dirname` -/
  | dirname
  /-- `Bool` -/
  | bool
  /-- `NonZeroU32` -/
  | nonZeroU32
  /-- `U32` -/
  | u32
deriving DecidableEq, Repr

/-- A checked value. -/
structure CustomParameterValue where
  /-- Its type. -/
  type : CustomParameterType
  /-- The value as a string. -/
  value : String
deriving DecidableEq

/-- The custom parameters, as the entries of a map in the order of their names. -/
abbrev CustomParameters := List (String × CustomParameterValue)

/-- What is benchmarked. -/
structure RunParameters where
  /-- The commit. -/
  commitId : GitHash
  /-- The custom parameters. -/
  customParameters : CustomParameters
deriving DecidableEq

/-- How it is benchmarked. -/
structure BenchmarkingCommand where
  /-- The name of the target. -/
  targetName : String
  /-- The directory where to run the command. -/
  subdir : String
  /-- Name or path of the command. -/
  command : String
  /-- Arguments to the command. -/
  arguments : List String
  /-- Code to run before the command. -/
  preExecBashCode : String
deriving DecidableEq

/-- The parts of a job that determine its results. -/
structure BenchmarkingJobParameters where
  /-- What is benchmarked. -/
  runParameters : RunParameters
  /-- How. -/
  command : BenchmarkingCommand
deriving DecidableEq

/-! ### Jobs -/

/-- The id of a working directory. -/
abbrev WorkingDirectoryId := UInt64

/-- The public constant parts of a job. -/
structure BenchmarkingJobPublic where
  /-- A short context string. -/
  reason : Option String
  /-- What is benchmarked. -/
  runParameters : RunParameters
  /-- How. -/
  command : BenchmarkingCommand
deriving DecidableEq

/-- The public changing parts of a job. -/
structure BenchmarkingJobState where
  /-- How often the job has still to be run. -/
  remainingCount : UInt8
  /-- How often it may still fail. -/
  remainingErrorBudget : UInt8
  /-- The working directory of the last run. -/
  lastWorkingDirectory : Option WorkingDirectoryId
deriving DecidableEq

/-- A job. -/
structure BenchmarkingJob where
  /-- The constant parts. -/
  pub : BenchmarkingJobPublic
  /-- The changing parts. -/
  state : BenchmarkingJobState
  /-- The priority. -/
  priority : Priority
  /-- What is added to the priority until the first run. -/
  currentBoost : Priority
deriving DecidableEq

namespace BenchmarkingJob

/-- The priority with the boost. -/
def totalPriority (job : BenchmarkingJob) : Except NonComparableNumber Priority :=
  job.priority.add job.currentBoost

/-- Clones everything except that `current_boost` is set to 0. -/
def cloneForQueueReinsertion (job : BenchmarkingJob) (state : BenchmarkingJobState) : BenchmarkingJob :=
  { pub := job.pub, state := state, priority := job.priority, currentBoost := Priority.normal }

/-- The parts that determine the results. -/
def benchmarkingJobParameters (job : BenchmarkingJob) : BenchmarkingJobParameters :=
  ⟨job.pub.runParameters, job.pub.command⟩

end BenchmarkingJob

/-! ### Files and outside calls -/

/-- The contents of the files. -/
inductive FileContent where
  /-- An entry of a queue. -/
  | job (job : BenchmarkingJob)
  /-- An entry of the table of insertions: the parameters and the times of insertion. -/
  | insertion (params : BenchmarkingJobParameters) (times : List SystemTime)
  /-- Anything else. -/
  | other (text : String)
deriving DecidableEq

instance : Serde FileContent BenchmarkingJob where
  toString := .job
  fromStr
    | .job job => some job
    | _ => none
  fromStr_toString _ := rfl

instance : Serde FileContent (BenchmarkingJobParameters × List SystemTime) where
  toString v := .insertion v.1 v.2
  fromStr
    | .insertion params times => some (params, times)
    | _ => none
  fromStr_toString _ := rfl

/-- The functions whose answers come from outside of the model. -/
inductive Call where
  /-- `JobRunnerWithJob::run_job`: run the benchmark of a job in a working directory. -/
  | runJob (job : BenchmarkingJob) (workingDirectoryId : WorkingDirectoryId) (reason : Option String)
      (scheduleCondition : ScheduleCondition)
  /-- `get_a_working_directory_for` -/
  | getAWorkingDirectoryFor (runParameters : RunParameters)
  /-- `clear_current_working_directory` -/
  | clearCurrentWorkingDirectory
  /-- Run a `stop_start` command with "stop" or "start" added. -/
  | stopStart (command : List String)
  /-- Delete the uncompressed logs of all runs of a job that will not be run again. -/
  | deleteUncompressedLogs (parameters : BenchmarkingJobParameters)
  /-- `open_polling_pool` -/
  | openPollingPool
  /-- `commit_is_valid` -/
  | commitIsValid (commit : GitHash)
  /-- Writing to the standard output. -/
  | print (text : String)
  /-- Flushing the standard output. -/
  | flush
deriving DecidableEq

/-- An error that comes from outside of the model. -/
abbrev CallError := String

/-- The answers to outside calls. -/
def Answer : Call → Type
  | .runJob _ _ _ _ => Except CallError Unit
  | .getAWorkingDirectoryFor _ => Except CallError WorkingDirectoryId
  | .clearCurrentWorkingDirectory => Except CallError Unit
  | .stopStart _ => Except CallError Unit
  | .deleteUncompressedLogs _ => Except CallError Unit
  | .openPollingPool => Except CallError Unit
  | .commitIsValid _ => Except CallError Bool
  | .print _ => Except CallError Unit
  | .flush => Except CallError Unit

instance : (x : Call) → DecidableEq (Answer x)
  | .runJob _ _ _ _ => inferInstanceAs (DecidableEq (Except CallError Unit))
  | .getAWorkingDirectoryFor _ => inferInstanceAs (DecidableEq (Except CallError WorkingDirectoryId))
  | .clearCurrentWorkingDirectory => inferInstanceAs (DecidableEq (Except CallError Unit))
  | .stopStart _ => inferInstanceAs (DecidableEq (Except CallError Unit))
  | .deleteUncompressedLogs _ => inferInstanceAs (DecidableEq (Except CallError Unit))
  | .openPollingPool => inferInstanceAs (DecidableEq (Except CallError Unit))
  | .commitIsValid _ => inferInstanceAs (DecidableEq (Except CallError Bool))
  | .print _ => inferInstanceAs (DecidableEq (Except CallError Unit))
  | .flush => inferInstanceAs (DecidableEq (Except CallError Unit))

/-- `anyhow::Error`, by its source. -/
inductive Error where
  /-- From a table. -/
  | keyVal (e : KeyValError)
  /-- From a sum of priorities. -/
  | nonComparable (e : NonComparableNumber)
  /-- From outside of the model. -/
  | call (e : CallError)
  /-- From a `bail!`. -/
  | bail (msg : String)
deriving DecidableEq, Repr

/-- A program of the tools. -/
abbrev Evo := Tool FileContent Call Answer Error

/-- The state that programs of the tools run on. -/
abbrev EvoWorld := World FileContent Call Answer

/-- Run a table's program (`?` converts its error). -/
def Evo.ofKeyVal {α : Type} (p : Tool FileContent Call Answer KeyValError α) : Evo α := p.mapErr Error.keyVal

/-- Make an outside call, whose answer is a `Result`, and pass its error on. -/
def Evo.call {α : Type} (x : Call) (result : Answer x → Except CallError α) : Evo α := do
  let r ← Sys.call x
  Prog.ofExcept ((result r).mapError Error.call)

end Evobench.Run

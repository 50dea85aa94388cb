import Evobench.Run.CustomParameters
import Evobench.Run.GitHash
import Evobench.SerdeTypes.DateAndTime

/-!
# Directories for output files

The results of benchmarking go to directories at three levels: a `ParametersDir` stands for a target with custom parameters,
each of which is a segment `key=value` of the path; a `KeyDir` below it for a commit; and a `RunDir` below that for a single
run. Directories have paths, and paths are parsed as directories: from the end, where the first segment that is not
`key=value` is the name of the target.

## The model

* `ParametersDir.toPath`, `KeyDir.toPath`, `RunDir.toPath`: the paths; a directory that was parsed keeps the path it was
  parsed from.
* `ParametersDir.parse`: the loop over the segments, which becomes a recursion on the path.
* `OutputSubdir.tryFrom`: a path is parsed as the deepest level that it can be parsed as.

Points in time are those of a `Chrono`.
-/

namespace Evobench.Run

open Library KeyValFs SerdeTypes

/-! ### Paths -/

/-- A path of the system. -/
abbrev FilePath := Path (Char ⊕ UInt8)

/-- Push a text. -/
def pushStr (path : FilePath) (s : String) : FilePath := path.push (OsString.ofChars s.toList)

/-- `extend_path`: a segment for each parameter -/
def extendPath (path : FilePath) (keyVals : List (AllowedEnvVar × String)) : FilePath :=
  keyVals.foldl (fun path e => pushStr path (e.1.name ++ "=" ++ e.2)) path

/-- Why a path is not that of a directory. -/
inductive SubdirError where
  /-- path is missing a file name -/
  | missingFileName
  /-- path is missing a parent dir -/
  | missingParentDir
  /-- can't decode dir name to string -/
  | notDecoded (name : OsString)
  /-- directory segment can't be decoded as string -/
  | segmentNotDecoded (name : OsString) (path : FilePath)
  /-- dir name does not parse as GitHash -/
  | notGitHash (name : String) (e : GitHash.ParseError)
  /-- dir name does not parse as DateTimeWithOffset -/
  | notDateTime (name : String)
  /-- The name of a parameter cannot be the name of an environment variable. -/
  | envVar (e : EnvVarError)
  /-- missing target segment left of the var segments -/
  | missingTarget (path : FilePath)
  /-- not a proper directory name -/
  | notProperDirname (name : String) (e : ProperNameError)
  /-- path is missing a base_dir part -/
  | missingBaseDir (path : FilePath)
  /-- path is missing a target or base_dir part -/
  | missingTargetOrBaseDir (path : FilePath)
  /-- path contains a '..' or '.' part -/
  | dotPart (path currentPath : FilePath)

/-- `parse_filename` -/
def parseFilename {α : Type} (fromStr : String → Except SubdirError α) (fileName : OsString) : Outcome SubdirError α :=
  match fileName.toStr with
  | some cs => .ofExcept (fromStr (String.ofList cs))
  | none => .err (.notDecoded fileName)

/-- `parse_path_filename` -/
def parsePathFilename {α : Type} (fromStr : String → Except SubdirError α) (path : FilePath) :
    Outcome SubdirError (α × FilePath) :=
  match path.fileName with
  | none => .err .missingFileName
  | some fileName =>
    match path.parent with
    | none => .err .missingParentDir
    | some dir => do
      let val ← parseFilename fromStr fileName.text
      pure (val, dir)

/-- A commit id. -/
def gitHashFromStr (s : String) : Except SubdirError GitHash :=
  match GitHash.fromStr s with
  | .ok hash => .ok hash
  | .error e => .error (.notGitHash s e)

/-- A point in time. -/
def dateTimeFromStr (chrono : Chrono) (s : String) : Except SubdirError (DateTimeWithOffset chrono) :=
  match DateTimeWithOffset.fromStr s with
  | some time => .ok time
  | none => .error (.notDateTime s)

/-! ### Directories for parameters -/

/-- Custom parameters from a config, or from a path. -/
inductive CheckedOrUncheckedCustomParameters where
  /-- From a path. -/
  | uncheckedCustomParameters (params : UncheckedCustomParameters)
  /-- From a config. -/
  | customParameters (params : CheckedParameters)
deriving DecidableEq

namespace CheckedOrUncheckedCustomParameters

/-- The names and the values as strings. -/
def keyvals : CheckedOrUncheckedCustomParameters → UncheckedCustomParameters
  | uncheckedCustomParameters params => params
  | customParameters params => params.keyvals

end CheckedOrUncheckedCustomParameters

/-- The dir representing all of a key except for the commit id. -/
structure ParametersDir where
  /-- Where the outputs are. -/
  basePath : FilePath
  /-- The target. -/
  targetName : ProperDirname
  /-- The parameters. -/
  customParameters : CheckedOrUncheckedCustomParameters
  /-- The path, if it is known. -/
  pathCache : Option FilePath

namespace ParametersDir

/-- The directory for a target with parameters from the config. -/
def new (basePath : FilePath) (targetName : ProperDirname) (customParameters : CheckedParameters) : ParametersDir :=
  ⟨basePath, targetName, .customParameters customParameters, none⟩

/-- `to_path` -/
def toPath (dir : ParametersDir) : FilePath :=
  dir.pathCache.getD (extendPath (pushStr dir.basePath dir.targetName.name) dir.customParameters.keyvals.entries)

@[simp] theorem toPath_new (basePath : FilePath) (targetName : ProperDirname) (customParameters : CheckedParameters) :
    (new basePath targetName customParameters).toPath =
      extendPath (pushStr basePath targetName.name) customParameters.keyvals.entries := by
  rw [toPath, new, Option.getD_none]
  rfl

/-- The loop of `try_from`, on what is left of the path. -/
def parse (path currentPath : FilePath) (currentVars : UncheckedCustomParameters) : Outcome SubdirError ParametersDir :=
  match _hname : currentPath.fileName with
  | none => if currentPath.isTop then .err (.missingTargetOrBaseDir path) else .err (.dotPart path currentPath)
  | some dirName =>
    match OsString.toStr dirName.text with
    | none => .err (.segmentNotDecoded dirName.text path)
    | some dirNameStr =>
      match splitOnce '=' dirNameStr with
      | some (varName, val) =>
        match AllowedEnvVar.fromStr (String.ofList varName) with
        | .error e => .err (.envVar e)
        | .ok key =>
          match _hparent : currentPath.parent with
          | none => .panic "because file_name() above already failed, right?"
          | some parent =>
            if parent.isTop then .err (.missingTarget path)
            else parse path parent (currentVars.insert key (String.ofList val))
      | none =>
        match ProperDirname.fromStr (String.ofList dirNameStr) with
        | .error e => .err (.notProperDirname (String.ofList dirNameStr) e)
        | .ok targetName =>
          match currentPath.parent with
          | none => .err (.missingBaseDir path)
          | some parent => .ok ⟨parent, targetName, .uncheckedCustomParameters currentVars, some path⟩
termination_by currentPath.steps.length
decreasing_by exact Path.length_parent_lt _hname _hparent

/-- `try_from` -/
def tryFrom (path : FilePath) : Outcome SubdirError ParametersDir := parse path path .empty

end ParametersDir

/-! ### Directories for keys and runs -/

/-- Dir representing all of the key, including commit id at the end. -/
structure KeyDir where
  /-- The rest of the key. -/
  parent : ParametersDir
  /-- The commit. -/
  commitId : GitHash
  /-- The path, if it is known. -/
  pathCache : Option FilePath

namespace KeyDir

/-- `from_base_target_params` -/
def fromBaseTargetParams (outputBaseDir : FilePath) (targetName : ProperDirname) (commitId : GitHash)
    (customParameters : CheckedParameters) : KeyDir :=
  ⟨.new outputBaseDir targetName customParameters, commitId, none⟩

/-- `to_path` -/
def toPath (dir : KeyDir) : FilePath := dir.pathCache.getD (pushStr dir.parent.toPath dir.commitId.display)

@[simp] theorem toPath_fromBaseTargetParams (outputBaseDir : FilePath) (targetName : ProperDirname) (commitId : GitHash)
    (customParameters : CheckedParameters) :
    (fromBaseTargetParams outputBaseDir targetName commitId customParameters).toPath =
      pushStr (ParametersDir.new outputBaseDir targetName customParameters).toPath commitId.display := by
  rw [toPath, fromBaseTargetParams, Option.getD_none]

/-- `try_from` -/
def tryFrom (path : FilePath) : Outcome SubdirError KeyDir := do
  let (commitId, parentDir) ← parsePathFilename gitHashFromStr path
  let parent ← ParametersDir.tryFrom parentDir
  pure ⟨parent, commitId, some path⟩

end KeyDir

/-- Dir with the results for an individual benchmarking run. -/
structure RunDir (chrono : Chrono) where
  /-- The key. -/
  parent : KeyDir
  /-- When the run was. -/
  timestamp : DateTimeWithOffset chrono
  /-- The path, if it is known. -/
  pathCache : Option FilePath

/-- `append_subdir` -/
def KeyDir.appendSubdir {chrono : Chrono} (dir : KeyDir) (dirName : DateTimeWithOffset chrono) : RunDir chrono :=
  ⟨dir, dirName, none⟩

namespace RunDir

variable {chrono : Chrono}

/-- `to_path` -/
def toPath (dir : RunDir chrono) : FilePath := dir.pathCache.getD (pushStr dir.parent.toPath dir.timestamp.text)

@[simp] theorem toPath_appendSubdir (dir : KeyDir) (timestamp : DateTimeWithOffset chrono) :
    (dir.appendSubdir timestamp).toPath = pushStr dir.toPath timestamp.text := by
  rw [toPath, KeyDir.appendSubdir, Option.getD_none]

/-- `try_from` -/
def tryFrom (chrono : Chrono) (path : FilePath) : Outcome SubdirError (RunDir chrono) := do
  let (timestamp, parentPath) ← parsePathFilename (dateTimeFromStr chrono) path
  let parent ← KeyDir.tryFrom parentPath
  pure ⟨parent, timestamp, some path⟩

end RunDir

/-! ### Any level -/

/-- A directory at any of the levels. -/
inductive OutputSubdir (chrono : Chrono) where
  /-- For parameters. -/
  | parametersDir (dir : ParametersDir)
  /-- For a key. -/
  | keyDir (dir : KeyDir)
  /-- For a run. -/
  | runDir (dir : RunDir chrono)

/-- can't parse path: the reasons for each level -/
structure OutputSubdirError where
  /-- as RunDir -/
  asRunDir : SubdirError
  /-- as KeyDir -/
  asKeyDir : SubdirError
  /-- as ParametersDir -/
  asParametersDir : SubdirError

namespace OutputSubdir

variable {chrono : Chrono}

/-- `to_path` -/
def toPath : OutputSubdir chrono → FilePath
  | parametersDir dir => dir.toPath
  | keyDir dir => dir.toPath
  | runDir dir => dir.toPath

/-- `try_from`: attempt to parse as all levels, with the deepest type first -/
def tryFrom (chrono : Chrono) (path : FilePath) : Outcome OutputSubdirError (OutputSubdir chrono) :=
  match RunDir.tryFrom chrono path with
  | .ok dir => .ok (.runDir dir)
  | .panic msg => .panic msg
  | .err e1 =>
    match KeyDir.tryFrom path with
    | .ok dir => .ok (.keyDir dir)
    | .panic msg => .panic msg
    | .err e2 =>
      match ParametersDir.tryFrom path with
      | .ok dir => .ok (.parametersDir dir)
      | .panic msg => .panic msg
      | .err e3 => .err ⟨e1, e2, e3⟩

end OutputSubdir

end Evobench.Run

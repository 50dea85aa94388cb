import Evobench.Library.RelyGuarantee
import Evobench.IoUtils.System
import Evobench.Run.Config
import Evobench.Run.OutputDirectory

/-!
# Configuration files

A configuration is loaded from a file, in a format that goes by the extension of its name, and later on it is loaded again if
the modification time of the file is another one.

## The model

* `ConfigOp`: the system calls, and `ConfigWorld`: the files, each with all the versions that it has had. Looking at a file or
  reading it may fail at any time.
* `Settings`: what belongs to the type of the configuration: its deserializers, and where it is found by default.
* `ConfigFile.loadConfig` and `ConfigFile.perhapsReloadConfig`: as in the source. The modification time is kept in a cell, which
  is updated on paths that still fail, so a call returns the instance as it is afterwards beside its result.

## Honest scope

The content of a file is a text; a file that is not in UTF-8 is one that cannot be read.
-/

namespace Evobench.Run

open Library SerdeTypes IoUtils

/-! ### Formats -/

/-- `ConfigBackend` -/
inductive ConfigBackend where
  /-- RON -/
  | ron
  /-- JSON5 -/
  | json5
  /-- YAML -/
  | yaml
  /-- HCL -/
  | hcl
deriving DecidableEq

/-- `FILE_EXTENSIONS` -/
def fileExtensions : List (String × ConfigBackend) :=
  [("ron", .ron), ("json5", .json5), ("json", .json5), ("yml", .yaml), ("yaml", .yaml), ("hcl", .hcl)]

/-- `HomeError` -/
inductive HomeError where
  /-- path given in HOME environment variable does not point to an existing directory -/
  | notExist (path : FilePath)
  /-- HOME environment variable is not set -/
  | notSet
deriving DecidableEq

/-- Why a configuration is not loaded. -/
inductive ConfigError where
  /-- loading config from file {path:?} -/
  | loading (path : FilePath) (e : IoError)
  /-- decoding the text of the file with that path in that format -/
  | decoding (backend : ConfigBackend) (path : FilePath) (e : String)
  /-- An error of `metadata` or of `modified`. -/
  | io (e : IoError)
  /-- given file path does have an unknown extension {ext:?}: {path:?} -/
  | unknownExtension (ext : List Char) (path : FilePath)
  /-- given file path does have an extension that is not unicode: {path:?} -/
  | extensionNotUnicode (path : FilePath)
  /-- given file path does not have an extension for determining the file format: {path:?} -/
  | noExtension (path : FilePath)
  /-- There is no home directory. -/
  | home (e : HomeError)
  /-- path is missing a file name: {path:?} -/
  | missingFileName (path : FilePath)
  /-- multiple config file paths found, leading to ambiguity: {paths:?} -/
  | multiplePaths (paths : List FilePath)
  /-- config {path:?} missing -/
  | missing (path : FilePath)
  /-- An error of the callback or of the default file name. -/
  | other (msg : String)
deriving DecidableEq

/-- `backend_from_path` -/
def backendFromPath (path : FilePath) : Except ConfigError ConfigBackend :=
  match path.extension with
  | some ext =>
    match OsString.toStr ext with
    | some ext =>
      match fileExtensions.find? fun e => e.1.toList = ext with
      | some (_, backend) => .ok backend
      | none => .error (.unknownExtension ext path)
    | none => .error (.extensionNotUnicode path)
  | none => .error (.noExtension path)

/-! ### Files -/

/-- A version of a file. -/
structure FileVersion where
  /-- The text. -/
  content : String
  /-- When it was written. -/
  mtime : SystemTime
deriving DecidableEq

/-- A file, or the place of one. -/
structure FileState where
  /-- The versions that it has had, the current one first. -/
  versions : List FileVersion
  /-- Why it cannot be looked at. -/
  statError : Option IoError
  /-- Why it cannot be read. -/
  readError : Option IoError
deriving DecidableEq

namespace FileState

/-- Looking at the file. -/
def stat (f : FileState) : Except IoError FileVersion :=
  match f.statError, f.versions with
  | some e, _ => .error e
  | none, [] => .error .notFound
  | none, v :: _ => .ok v

/-- Reading the file. -/
def read (f : FileState) : Except IoError String :=
  match f.stat, f.readError with
  | .error e, _ => .error e
  | .ok _, some e => .error e
  | .ok v, none => .ok v.content

end FileState

/-- The system calls. -/
inductive ConfigOp where
  /-- `std::fs::metadata` -/
  | metadata (path : FilePath)
  /-- `std::fs::read_to_string` -/
  | readToString (path : FilePath)
  /-- `Path::exists` -/
  | pathExists (path : FilePath)
deriving DecidableEq

/-- `Metadata` -/
structure Metadata where
  /-- `modified` -/
  modified : Except IoError SystemTime

/-- The answers to the system calls. -/
def ConfigAns : ConfigOp → Type
  | .metadata _ => Except IoError Metadata
  | .readToString _ => Except IoError String
  | .pathExists _ => Bool

/-- The state that configurations are loaded in. -/
structure ConfigWorld where
  /-- The files. -/
  files : FilePath → FileState
  /-- The error of `modified` on a platform that has no modification times. -/
  modifiedError : Option IoError
  /-- The latest system call of the call that is underway. -/
  last : Option ConfigOp

/-- The metadata of a version. -/
def ConfigWorld.metadataOf (w : ConfigWorld) (v : FileVersion) : Metadata :=
  ⟨match w.modifiedError with
    | some e => .error e
    | none => .ok v.mtime⟩

/-- The answer of a system call. -/
def ConfigWorld.answer (w : ConfigWorld) : (o : ConfigOp) → ConfigAns o
  | .metadata path => (w.files path).stat.map w.metadataOf
  | .readToString path => (w.files path).read
  | .pathExists path => (w.files path).stat.toBool

/-- What the system calls do. -/
def configMachine : Machine ConfigOp ConfigAns ConfigWorld where
  act o w := some (w.answer o, { w with last := some o })

/-- A program that loads configurations. -/
abbrev ConfigTool (α : Type) := Prog ConfigOp ConfigAns ConfigError α

/-- `std::fs::metadata` -/
def fsMetadata (path : FilePath) : ConfigTool (Except IoError Metadata) := Prog.op (.metadata path) Prog.ret

/-- `std::fs::read_to_string` -/
def fsReadToString (path : FilePath) : ConfigTool (Except IoError String) := Prog.op (.readToString path) Prog.ret

/-- `Path::exists` -/
def pathExists (path : FilePath) : ConfigTool Bool := Prog.op (.pathExists path) Prog.ret

/-! ### Loading -/

/-- `ConfigDir` -/
inductive ConfigDir where
  /-- `/etc` -/
  | etc
  /-- The home directory. -/
  | home
  /-- A given directory. -/
  | path (dir : FilePath)
deriving DecidableEq

/-- What belongs to a type of configurations. -/
structure Settings (T : Type) where
  /-- The deserializers. -/
  fromStr : ConfigBackend → String → Except String T
  /-- `default_config_file_name_without_suffix` -/
  defaultConfigFileNameWithoutSuffix : Except ConfigError (Option ProperFilename)
  /-- `default_config_dirs` -/
  defaultConfigDirs : List ConfigDir
  /-- `home_dir` -/
  homeDir : Except HomeError FilePath

/-- What the callback for a missing file is told. -/
inductive ConfigMissing where
  /-- tried the default paths: {default_paths_tried:?} -/
  | tried (defaultPathsTried : List FilePath)
  /-- no path was given and there is no default config location for this type -/
  | noDefaultLocation
deriving DecidableEq

/-- `PathAndTrack` -/
structure PathAndTrack where
  /-- Where the file is. -/
  path : FilePath
  /-- Its modification time. -/
  mtime : SystemTime
deriving DecidableEq

/-- A configuration that remembers where it was loaded from and the modification time of the file. -/
structure ConfigFile (T : Type) where
  /-- The configuration. -/
  config : T
  /-- `none` if it was not loaded from a file. -/
  pathAndTrack : Option PathAndTrack
deriving DecidableEq

section Loading

variable {T : Type} (settings : Settings T)

/-- `append_file_name` -/
def ConfigDir.appendFileName (dir : ConfigDir) (fileName : ProperFilename) : Except ConfigError FilePath :=
  match dir with
  | .etc => .ok (pushStr (pushStr ⟨.root, []⟩ "etc") fileName.asStr)
  | .home => (settings.homeDir.mapError ConfigError.home).map fun home => pushStr home ("." ++ fileName.asStr)
  | .path dir => .ok (pushStr dir fileName.asStr)

/-- `add_extension` -/
def addExtension (path : FilePath) (extension : String) : Option FilePath := do
  let name ← path.fileName
  let dir ← path.parent
  pure (dir.push (name.text ++ OsString.ofChars ('.' :: extension.toList)))

/-- `load_config_file` -/
def ConfigBackend.loadConfigFile (backend : ConfigBackend) (path : FilePath) : ConfigTool T := do
  let s ← fsReadToString path
  let s ← Prog.ofExcept (s.mapError (.loading path))
  Prog.ofExcept ((settings.fromStr backend s).mapError (.decoding backend path))

namespace ConfigFile

/-- The closure `load_config` -/
def loadConfigAt (path : FilePath) (backend : ConfigBackend) : ConfigTool (ConfigFile T) := do
  let config ← backend.loadConfigFile settings path
  let s ← fsMetadata path
  let s ← Prog.ofExcept (s.mapError .io)
  let mtime ← Prog.ofExcept (s.modified.mapError .io)
  pure ⟨config, some ⟨path, mtime⟩⟩

/-- The files that exist for a path without extension, and the paths that have been tried. -/
def pathAndBackends (path : FilePath) :
    List FilePath → List (String × ConfigBackend) → ConfigTool (List (FilePath × ConfigBackend) × List FilePath)
  | tried, [] => pure ([], tried)
  | tried, (extension, backend) :: rest =>
    match addExtension path extension with
    | none => .throw (.missingFileName path)
    | some path' => do
      if ← pathExists path' then
        let (found, tried) ← pathAndBackends path tried rest
        pure ((path', backend) :: found, tried)
      else pathAndBackends path (tried ++ [path']) rest

/-- The loop over the default directories. -/
def searchDirs (orElse : ConfigMissing → Except ConfigError T) (fileName : ProperFilename) :
    List FilePath → List ConfigDir → ConfigTool (ConfigFile T)
  | defaultPathsTried, [] => do
    let config ← Prog.ofExcept (orElse (.tried defaultPathsTried))
    pure ⟨config, none⟩
  | defaultPathsTried, dir :: dirs => do
    let path ← Prog.ofExcept (dir.appendFileName settings fileName)
    let (found, defaultPathsTried) ← pathAndBackends path defaultPathsTried fileExtensions
    match found with
    | [] => searchDirs orElse fileName defaultPathsTried dirs
    | [(path, backend)] => loadConfigAt settings path backend
    | _ => .throw (.multiplePaths (found.map Prod.fst))

/-- `load_config` -/
def loadConfig (path : Option FilePath) (orElse : ConfigMissing → Except ConfigError T) : ConfigTool (ConfigFile T) :=
  match path with
  | some path => do
    let backend ← Prog.ofExcept (backendFromPath path)
    loadConfigAt settings path backend
  | none => do
    match ← Prog.ofExcept settings.defaultConfigFileNameWithoutSuffix with
    | some fileName => searchDirs settings orElse fileName [] settings.defaultConfigDirs
    | none =>
      let config ← Prog.ofExcept (orElse .noDefaultLocation)
      pure ⟨config, none⟩

/-- `perhaps_reload_config`: the instance afterwards, and the result. -/
def perhapsReloadConfig (self : ConfigFile T) : ConfigTool (ConfigFile T × Except ConfigError (Option (ConfigFile T))) :=
  match self.pathAndTrack with
  | some ⟨path, mtime⟩ => do
    match ← fsMetadata path with
    | .ok s =>
      match s.modified with
      | .ok m =>
        if m = mtime then pure (self, .ok none)
        else
          let self := { self with pathAndTrack := some ⟨path, m⟩ }
          let val ← (loadConfig settings (some path) fun _ => .error (.missing path)).attempt
          pure (self, val.map some)
      | .error _ => pure (self, .ok none)
    | .error _ => pure (self, .ok none)
  | none => pure (self, .ok none)

end ConfigFile

end Loading

end Evobench.Run

import Evobench.Run.ConfigFile

/-!
# Reloading the configuration

A process holds a configuration and looks from time to time if the file has changed, while others write to the file. Looking
and loading take several system calls, and a write can fall between any two of them.

* `OutsideStep`: what the others do. A write gives the file a modification time that it has not had before.
* `UndisturbedStep`: the same without the writes that fall between the reading of a file by `loadConfig` and its look at the
  modification time.
* `Held`: what a process holds after any number of calls and changes.

`reload_never_misses` is the main result: when a call says that nothing has changed, the current version of the file is the one
that the latest attempt to load it was about. If that attempt has succeeded, then its result is what is held; if it has failed,
then its error has been reported, and it is not reported again (`reload_misses`). A write that falls between the two calls
(`missesNumber_of_write`) or that gives the file a modification time again (`missesNumber_of_sameTick`) is missed.
-/

namespace Evobench.Run

open Library SerdeTypes IoUtils

/-! ### Changes from outside -/

/-- The versions of a file. -/
def ConfigWorld.versions (w : ConfigWorld) (path : FilePath) : List FileVersion := (w.files path).versions

/-- What others do to the files. -/
inductive OutsideStep : ConfigWorld → ConfigWorld → Prop where
  /-- A file is written. -/
  | write {w : ConfigWorld} (path : FilePath) (v : FileVersion) (hfresh : ∀ v' ∈ w.versions path, v'.mtime ≠ v.mtime) :
      OutsideStep w { w with files := Function.update w.files path { w.files path with versions := v :: w.versions path } }
  /-- Whether a file can be looked at and read changes. -/
  | access {w : ConfigWorld} (path : FilePath) (statError readError : Option IoError) :
      OutsideStep w { w with files := Function.update w.files path { w.files path with statError, readError } }

/-- What others do to the files, but no write between the reading of a file and the look at its modification time. -/
def UndisturbedStep (w w' : ConfigWorld) : Prop :=
  OutsideStep w w' ∧ ∀ path, w.last = some (.readToString path) → w'.versions path = w.versions path

/-- A step writes one fresh version at most. -/
theorem versions_step {w w' : ConfigWorld} (h : OutsideStep w w') (path : FilePath) :
    w'.versions path = w.versions path ∨
      ∃ v, (∀ v' ∈ w.versions path, v'.mtime ≠ v.mtime) ∧ w'.versions path = v :: w.versions path := by
  cases h with
  | write path' v hfresh =>
    by_cases heq : path = path'
    · subst heq
      exact .inr ⟨v, hfresh, by simp [ConfigWorld.versions]⟩
    · exact .inl (by simp [ConfigWorld.versions, heq])
  | access path' statError readError =>
    by_cases heq : path = path'
    · subst heq
      exact .inl (by simp [ConfigWorld.versions])
    · exact .inl (by simp [ConfigWorld.versions, heq])

theorem modifiedError_step {w w' : ConfigWorld} (h : OutsideStep w w') :
    w'.modifiedError = w.modifiedError ∧ w'.last = w.last := by
  cases h with
  | write path v hfresh => exact ⟨rfl, rfl⟩
  | access path statError readError => exact ⟨rfl, rfl⟩

/-! ### What a process holds -/

/-- A process with its configuration. -/
structure Holder (T : Type) where
  /-- The configuration. -/
  file : ConfigFile T
  /-- How the latest attempt to load it has ended. -/
  attempt : Except ConfigError Unit
  /-- The files. -/
  world : ConfigWorld

/-- The call that was underway has returned. -/
def ConfigWorld.returned (w : ConfigWorld) : ConfigWorld := { w with last := none }

section Reload

variable {T : Type} (settings : Settings T)

/-- A call of `perhapsReloadConfig` ends with that, among changes in `B`. -/
def CallEnds (B : ConfigWorld → ConfigWorld → Prop) (h : Holder T) (self : ConfigFile T)
    (result : Except ConfigError (Option (ConfigFile T))) (w' : ConfigWorld) : Prop :=
  Prog.RunsAmong configMachine B (h.file.perhapsReloadConfig settings) h.world (.ok (self, result)) w'

/-- What a process can hold, among changes in `B`. -/
inductive Held (B : ConfigWorld → ConfigWorld → Prop) : Holder T → Prop where
  /-- The configuration is loaded. -/
  | load {path : Option FilePath} {orElse : ConfigMissing → Except ConfigError T} {w w' : ConfigWorld} {file : ConfigFile T}
      (hrun : Prog.RunsAmong configMachine B (ConfigFile.loadConfig settings path orElse) w (.ok file) w') :
      Held B ⟨file, .ok (), w'.returned⟩
  /-- Others change the files. -/
  | outside {h : Holder T} {w' : ConfigWorld} (hheld : Held B h) (hstep : B h.world w') : Held B { h with world := w' }
  /-- A call says that nothing has changed. -/
  | unchanged {h : Holder T} {self : ConfigFile T} {w' : ConfigWorld} (hheld : Held B h)
      (hcall : CallEnds settings B h self (.ok none) w') : Held B ⟨self, h.attempt, w'.returned⟩
  /-- A call returns a new configuration. -/
  | reloaded {h : Holder T} {self file : ConfigFile T} {w' : ConfigWorld} (hheld : Held B h)
      (hcall : CallEnds settings B h self (.ok (some file)) w') : Held B ⟨file, .ok (), w'.returned⟩
  /-- A call returns an error. -/
  | failed {h : Holder T} {self : ConfigFile T} {e : ConfigError} {w' : ConfigWorld} (hheld : Held B h)
      (hcall : CallEnds settings B h self (.error e) w') : Held B ⟨self, .error e, w'.returned⟩

/-- The error says that this version could not be loaded. -/
inductive Reported (path : FilePath) (backend : ConfigBackend) (v : FileVersion) : ConfigError → Prop where
  /-- The file could not be read. -/
  | loading (e : IoError) : Reported path backend v (.loading path e)
  /-- The text is not that of a configuration. -/
  | decoding {msg : String} (hcontent : settings.fromStr backend v.content = .error msg) :
      Reported path backend v (.decoding backend path msg)
  /-- The file could not be looked at. -/
  | io (e : IoError) : Reported path backend v (.io e)

/-- The attempt was about this version: the configuration has been loaded from it, or the error has been reported. -/
def About (path : FilePath) (backend : ConfigBackend) (config : T) (attempt : Except ConfigError Unit) (v : FileVersion) : Prop :=
  match attempt with
  | .ok () => settings.fromStr backend v.content = .ok config
  | .error e => Reported settings path backend v e

/-! ### What the modification time says -/

/-- The modification time is one that the file has had, and the attempt was about the current version, if it has that time. -/
structure Marks (path : FilePath) (backend : ConfigBackend) (m : SystemTime) (config : T) (attempt : Except ConfigError Unit)
    (w : ConfigWorld) : Prop where
  /-- The time is known. -/
  known : ∃ v ∈ w.versions path, v.mtime = m
  /-- The attempt. -/
  about : ∀ v, (w.versions path).head? = some v → v.mtime = m → About settings path backend config attempt v

/-- What the modification time says that is kept with a configuration. -/
def Tracks (file : ConfigFile T) (attempt : Except ConfigError Unit) (w : ConfigWorld) : Prop :=
  ∀ path m, file.pathAndTrack = some ⟨path, m⟩ →
    ∃ backend, backendFromPath path = .ok backend ∧ Marks settings path backend m file.config attempt w

variable {settings}

/-- A write makes the current version one with another time. -/
theorem Marks.step {path : FilePath} {backend : ConfigBackend} {m : SystemTime} {config : T} {attempt : Except ConfigError Unit}
    {w w' : ConfigWorld} (h : Marks settings path backend m config attempt w) (hstep : OutsideStep w w') :
    Marks settings path backend m config attempt w' := by
  obtain ⟨⟨v, hv, hm⟩, habout⟩ := h
  rcases versions_step hstep path with hsame | ⟨v', hfresh, hnew⟩
  · rw [← hsame] at hv habout
    exact ⟨⟨v, hv, hm⟩, habout⟩
  · refine ⟨⟨v, by rw [hnew]; exact List.mem_cons_of_mem _ hv, hm⟩, fun u hu hum => ?_⟩
    rw [hnew] at hu
    obtain rfl := Option.some.inj hu
    exact absurd (hm.trans hum.symm) (hfresh v hv)

theorem Tracks.last {file : ConfigFile T} {attempt : Except ConfigError Unit} {w : ConfigWorld}
    (h : Tracks settings file attempt w) (last : Option ConfigOp) : Tracks settings file attempt { w with last } := by
  intro path m htrack
  obtain ⟨backend, hbackend, hknown, habout⟩ := h path m htrack
  exact ⟨backend, hbackend, hknown, habout⟩

theorem Tracks.step {file : ConfigFile T} {attempt : Except ConfigError Unit} {w w' : ConfigWorld}
    (h : Tracks settings file attempt w) (hstep : OutsideStep w w') : Tracks settings file attempt w' := by
  intro path m htrack
  obtain ⟨backend, hbackend, hmarks⟩ := h path m htrack
  exact ⟨backend, hbackend, hmarks.step hstep⟩

/-! ### What the calls do -/

theorem stat_eq_ok {f : FileState} {v : FileVersion} (h : f.stat = .ok v) : f.versions.head? = some v := by
  obtain ⟨versions, statError, readError⟩ := f
  rcases statError with _ | e
  · cases versions with
    | nil => cases h
    | cons v' versions =>
      cases h
      rfl
  · cases h

theorem exists_stat {f : FileState} (h : f.statError = none) (hne : f.versions ≠ []) : ∃ v, f.stat = .ok v := by
  obtain ⟨versions, statError, readError⟩ := f
  obtain ⟨v, rest, rfl⟩ := List.exists_cons_of_ne_nil hne
  obtain rfl : statError = none := h
  exact ⟨v, rfl⟩

theorem read_eq_ok {f : FileState} {s : String} (h : f.read = .ok s) :
    ∃ v, f.versions.head? = some v ∧ v.content = s := by
  unfold FileState.read at h
  split at h
  · cases h
  · cases h
  · next v hstat hnone =>
    cases h
    exact ⟨v, stat_eq_ok hstat, rfl⟩

/-- The system calls of `loadConfigAt`. -/
theorem loadConfigAt_eq (path : FilePath) (backend : ConfigBackend) :
    (ConfigFile.loadConfigAt settings path backend : ConfigTool (ConfigFile T)) =
      .op (.readToString path) fun (s : Except IoError String) => match s with
        | .error e => .throw (.loading path e)
        | .ok s => match settings.fromStr backend s with
          | .error msg => .throw (.decoding backend path msg)
          | .ok config => .op (.metadata path) fun (s : Except IoError Metadata) => match s with
            | .error e => .throw (.io e)
            | .ok s => match s.modified with
              | .error e => .throw (.io e)
              | .ok mtime => .ret ⟨config, some ⟨path, mtime⟩⟩ := by
  refine congrArg (Prog.op _) (funext fun (s : Except IoError String) => ?_)
  rcases s with e | s
  · rfl
  show (Prog.ofExcept ((settings.fromStr backend s).mapError (.decoding backend path)) : ConfigTool T).bind _ = _
  rcases hconfig : settings.fromStr backend s with msg | config
  · simp only [hconfig]
    rfl
  · simp only [hconfig]
    refine congrArg (Prog.op _) (funext fun (s : Except IoError Metadata) => ?_)
    rcases s with e | s
    · rfl
    · obtain ⟨modified⟩ := s
      rcases modified with e | mtime
      · rfl
      · rfl

/-- **Loading a file** says of its current version that it is loaded, or why it is not. -/
theorem guarantees_loadConfigAt {path : FilePath} {backend : ConfigBackend} {K : ConfigWorld → Prop}
    (hK : ∀ t t', UndisturbedStep t t' → K t → K t') (hlast : ∀ t o, K t → K { t with last := some o }) {w : ConfigWorld}
    (hw : K w) :
    Prog.Guarantees configMachine UndisturbedStep (fun _ _ => True) (fun r w' => K w' ∧ match r with
      | .ok file => ∃ m, file.pathAndTrack = some ⟨path, m⟩ ∧ Marks settings path backend m file.config (.ok ()) w'
      | .err e => ∀ v, (w'.versions path).head? = some v → Reported settings path backend v e
      | .panic _ => False) (ConfigFile.loadConfigAt settings path backend) w := by
  rw [loadConfigAt_eq]
  refine Prog.Guarantees.op hK hw fun t x t' ht hact => ⟨trivial, ?_⟩
  obtain ⟨rfl, rfl⟩ := Prod.mk.inj (Option.some.inj hact)
  rw [show t.answer (.readToString path) = (t.files path).read from rfl]
  rcases hs : (t.files path).read with e | s
  · exact ⟨hlast _ _ ht, fun v _ => .loading e⟩
  obtain ⟨v, hv, rfl⟩ := read_eq_ok hs
  rcases hconfig : settings.fromStr backend v.content with msg | config
  · simp only [hconfig]
    refine ⟨hlast _ _ ht, fun u hu => .decoding ?_⟩
    obtain rfl := Option.some.inj (hv.symm.trans hu)
    exact hconfig
  simp only [hconfig]
  -- no write falls between the reading and the look at the modification time
  have hgap : ∀ u u', UndisturbedStep u u' → (K u ∧ u.last = some (.readToString path) ∧ (u.versions path).head? = some v) →
      K u' ∧ u'.last = some (.readToString path) ∧ (u'.versions path).head? = some v := by
    rintro u u' hstep ⟨hu, hulast, hhead⟩
    exact ⟨hK u u' hstep hu, (modifiedError_step hstep.1).2.trans hulast, by rw [hstep.2 path hulast, hhead]⟩
  refine Prog.Guarantees.op hgap ⟨hlast _ _ ht, rfl, hv⟩ ?_
  rintro u x u' ⟨hu, hulast, hhead⟩ hact
  obtain ⟨rfl, rfl⟩ := Prod.mk.inj (Option.some.inj hact)
  refine ⟨trivial, ?_⟩
  rw [show u.answer (.metadata path) = (u.files path).stat.map u.metadataOf from rfl]
  rcases hstat : (u.files path).stat with e | v'
  · exact ⟨hlast _ _ hu, fun _ _ => .io e⟩
  obtain rfl : v = v' := Option.some.inj (hhead.symm.trans (stat_eq_ok hstat))
  have hend := hlast u (.metadata path) hu
  rcases hmodified : u.modifiedError with _ | e
  · simp only [Except.map, ConfigWorld.metadataOf, hmodified] at hend ⊢
    refine ⟨hend, v.mtime, rfl, ⟨v, List.mem_of_head? hhead, rfl⟩, fun v' hv' _ => ?_⟩
    obtain rfl := Option.some.inj (hhead.symm.trans hv')
    exact hconfig
  · simp only [Except.map, ConfigWorld.metadataOf, hmodified] at hend ⊢
    exact ⟨hend, fun _ _ => .io e⟩

theorem loadConfig_some {path : FilePath} {backend : ConfigBackend} (hbackend : backendFromPath path = .ok backend)
    (orElse : ConfigMissing → Except ConfigError T) :
    ConfigFile.loadConfig settings (some path) orElse = ConfigFile.loadConfigAt settings path backend := by
  simp only [ConfigFile.loadConfig, hbackend]
  rfl

/-- The system calls of `perhapsReloadConfig`. -/
theorem perhapsReloadConfig_eq (config : T) {path : FilePath} (mtime : SystemTime) {backend : ConfigBackend}
    (hbackend : backendFromPath path = .ok backend) :
    ConfigFile.perhapsReloadConfig settings ⟨config, some ⟨path, mtime⟩⟩ =
      .op (.metadata path) fun (s : Except IoError Metadata) => match s with
        | .error _ => .ret (⟨config, some ⟨path, mtime⟩⟩, .ok none)
        | .ok s => match s.modified with
          | .error _ => .ret (⟨config, some ⟨path, mtime⟩⟩, .ok none)
          | .ok m =>
            if m = mtime then .ret (⟨config, some ⟨path, mtime⟩⟩, .ok none)
            else (ConfigFile.loadConfigAt settings path backend).attempt >>= fun val =>
              .ret (⟨config, some ⟨path, m⟩⟩, val.map some) := by
  rw [← loadConfig_some hbackend fun _ => .error (.missing path)]
  refine congrArg (Prog.op _) (funext fun (s : Except IoError Metadata) => ?_)
  rcases s with e | ⟨modified⟩
  · rfl
  · rcases modified with e | m
    · rfl
    · rfl

/-- A file keeps its versions. -/
theorem known_step {path : FilePath} {m : SystemTime} {w w' : ConfigWorld} (hstep : OutsideStep w w')
    (h : ∃ v ∈ w.versions path, v.mtime = m) : ∃ v ∈ w'.versions path, v.mtime = m := by
  obtain ⟨v, hv, hm⟩ := h
  rcases versions_step hstep path with hsame | ⟨v', -, hnew⟩
  · exact ⟨v, hsame ▸ hv, hm⟩
  · exact ⟨v, by rw [hnew]; exact List.mem_cons_of_mem _ hv, hm⟩

variable (settings) in
/-- What the result of a call says. -/
def CallSays (file : ConfigFile T) (attempt : Except ConfigError Unit) (w' : ConfigWorld) (self : ConfigFile T) :
    Except ConfigError (Option (ConfigFile T)) → Prop
  | .ok none => self = file ∧ Tracks settings file attempt w' ∧ ∀ path m, file.pathAndTrack = some ⟨path, m⟩ →
      ∀ v, (w'.files path).stat = .ok v → w'.modifiedError = none → v.mtime = m
  | .ok (some file') => Tracks settings file' (.ok ()) w'
  | .error e => Tracks settings self (.error e) w'

/-- **A call of `perhapsReloadConfig`.** If it says that nothing has changed, then the current version has the modification
time that is remembered. -/
theorem guarantees_perhapsReloadConfig {file : ConfigFile T} {attempt : Except ConfigError Unit} {w : ConfigWorld}
    (h : Tracks settings file attempt w) :
    Prog.Guarantees configMachine UndisturbedStep (fun _ _ => True)
      (fun r w' => ∃ self result, r = .ok (self, result) ∧ CallSays settings file attempt w' self result)
      (file.perhapsReloadConfig settings) w := by
  obtain ⟨config, pathAndTrack⟩ := file
  rcases pathAndTrack with _ | ⟨path, mtime⟩
  · exact ⟨_, _, rfl, rfl, h, fun path m htrack => by cases htrack⟩
  obtain ⟨backend, hbackend, -⟩ := h path mtime rfl
  rw [perhapsReloadConfig_eq config mtime hbackend]
  refine Prog.Guarantees.op (fun t t' hstep ht => ht.step hstep.1) h fun t x t' ht hact => ⟨trivial, ?_⟩
  obtain ⟨rfl, rfl⟩ := Prod.mk.inj (Option.some.inj hact)
  rw [show t.answer (.metadata path) = (t.files path).stat.map t.metadataOf from rfl]
  have ht' := ht.last (some (.metadata path))
  rcases hstat : (t.files path).stat with e | v
  · refine ⟨_, _, rfl, rfl, ht', fun path' m htrack v hv => ?_⟩
    cases htrack
    cases hstat.symm.trans hv
  rcases hmodified : t.modifiedError with _ | e
  case some =>
    simp only [Except.map, ConfigWorld.metadataOf, hmodified] at ht' ⊢
    refine ⟨_, _, rfl, rfl, ht', fun path' m htrack v hv hnone => ?_⟩
    cases hnone
  simp only [Except.map, ConfigWorld.metadataOf, hmodified] at ht' ⊢
  by_cases heq : v.mtime = mtime
  · rw [if_pos heq]
    refine ⟨_, _, rfl, rfl, ht', fun path' m htrack u hu _ => ?_⟩
    cases htrack
    cases hstat.symm.trans hu
    exact heq
  -- the file has changed, and is loaded again
  have hknown : ∃ u ∈ t.versions path, u.mtime = v.mtime := ⟨v, List.mem_of_head? (stat_eq_ok hstat), rfl⟩
  rw [if_neg heq]
  refine Prog.Guarantees.bind (Prog.Guarantees.attempt (Prog.Guarantees.imp (guarantees_loadConfigAt
    (K := fun w => ∃ u ∈ w.versions path, u.mtime = v.mtime) (fun t t' hstep => known_step hstep.1) (fun t o h => h) ?_) ?_))
  · exact hknown
  rintro r w' ⟨hw', hr⟩
  cases r with
  | ok file =>
    obtain ⟨m, htrack, hmarks⟩ := hr
    refine ⟨_, _, rfl, fun path' m' htrack' => ?_⟩
    cases htrack.symm.trans htrack'
    exact ⟨backend, hbackend, hmarks⟩
  | err e =>
    refine ⟨_, _, rfl, fun path' m' htrack' => ?_⟩
    cases htrack'
    exact ⟨backend, hbackend, hw', fun u hu _ => hr u hu⟩
  | panic msg => exact hr.elim

/-! ### The first load -/

/-- A path with one of the extensions has the format of the extension. -/
theorem backendFromPath_addExtension {path path' : FilePath} {extension : String} {backend : ConfigBackend}
    (hmem : (extension, backend) ∈ fileExtensions) (hpath : addExtension path extension = some path') :
    backendFromPath path' = .ok backend := by
  obtain ⟨name, hname, hpath⟩ := Option.bind_eq_some_iff.1 hpath
  obtain ⟨dir, hdir, hpath⟩ := Option.bind_eq_some_iff.1 hpath
  obtain rfl := Option.some.inj hpath
  have hextension : ∀ e ∈ fileExtensions, '.' ∉ e.1.toList ∧ '/' ∉ e.1.toList ∧
      fileExtensions.find? (fun e' => e'.1.toList = e.1.toList) = some e := by decide
  obtain ⟨hdot, hslash, hfind⟩ := hextension _ hmem
  have hofChars : ∀ {c : Char} {cs : List Char}, c ∉ cs → (Sum.inl c : Char ⊕ UInt8) ∉ OsString.ofChars cs := by
    intro c cs hc
    rwa [OsString.ofChars, List.mem_map_of_injective Sum.inl_injective]
  have hvalid : IsFileName (name.text ++ OsString.ofChars ('.' :: extension.toList)) := by
    obtain ⟨hne, hdot', -, hslash'⟩ := name.valid
    obtain ⟨c, cs, htext⟩ := List.exists_cons_of_ne_nil hne
    rw [htext] at hdot' hslash' ⊢
    refine ⟨List.cons_ne_nil _ _, ?_, ?_, ?_⟩
    · intro heq
      have := congrArg List.length heq
      simp [OsString.ofChars] at this
    · intro heq
      rw [OsString.ofChars, List.map_cons, List.cons_append, List.cons.injEq] at heq
      have hlength := congrArg List.length heq.2
      simp only [List.length_append, List.length_cons, List.length_nil] at hlength
      obtain rfl : cs = [] := List.eq_nil_of_length_eq_zero (by omega)
      exact hdot' (by rw [heq.1])
    · intro hmem'
      rcases List.mem_append.1 hmem' with hmem' | hmem'
      · exact hslash' hmem'
      · rw [OsString.ofChars, List.map_cons, List.mem_cons] at hmem'
        rcases hmem' with hmem' | hmem'
        · exact absurd hmem' (by decide)
        · exact hofChars hslash hmem'
  have hchild : (dir.child ⟨_, hvalid⟩).extension = some (OsString.ofChars extension.toList) :=
    Path.extension_child rfl name.valid.1 (hofChars hdot)
  rw [Path.push_eq_child dir hvalid, backendFromPath, hchild]
  simp only [OsString.toStr_ofChars, hfind]

/-- The files that are found have the formats of their extensions. -/
theorem guarantees_pathAndBackends {path : FilePath} {exts : List (String × ConfigBackend)}
    (hexts : ∀ e ∈ exts, e ∈ fileExtensions) (tried : List FilePath) (w : ConfigWorld) :
    Prog.Guarantees configMachine UndisturbedStep (fun _ _ => True)
      (fun r _ => ∀ found tried, r = .ok (found, tried) → ∀ p ∈ found, backendFromPath p.1 = .ok p.2)
      (ConfigFile.pathAndBackends path tried exts) w := by
  induction exts generalizing tried w with
  | nil =>
    intro found tried h
    cases h
    exact List.forall_mem_nil _
  | cons e rest ih =>
    obtain ⟨extension, backend⟩ := e
    have hrest := fun e he => hexts e (List.mem_cons_of_mem _ he)
    rw [ConfigFile.pathAndBackends]
    rcases hpath : addExtension path extension with _ | path'
    · intro found tried h
      cases h
    refine Prog.Guarantees.op (P := fun _ => True) (fun _ _ _ _ => trivial) trivial ?_
    rintro t (exists_ : Bool) t' - -
    refine ⟨trivial, ?_⟩
    cases exists_ with
    | false => exact ih hrest _ t'
    | true =>
      show Prog.Guarantees configMachine UndisturbedStep _ _ (ConfigFile.pathAndBackends path tried rest >>= _) t'
      refine Prog.Guarantees.bind ((ih hrest tried t').imp ?_)
      intro r u hr
      cases r with
      | err e => exact fun found tried h => by cases h
      | panic msg => exact fun found tried h => by cases h
      | ok pair =>
        obtain ⟨found, tried'⟩ := pair
        intro found' tried'' h
        cases h
        refine List.forall_mem_cons.2 ⟨backendFromPath_addExtension (hexts _ List.mem_cons_self) hpath, ?_⟩
        exact hr found tried' rfl

/-- A file that is loaded is tracked. -/
theorem tracks_loadConfigAt {path : FilePath} {backend : ConfigBackend} (hbackend : backendFromPath path = .ok backend)
    (w : ConfigWorld) :
    Prog.Guarantees configMachine UndisturbedStep (fun _ _ => True)
      (fun r w' => ∀ file, r = .ok file → Tracks settings file (.ok ()) w')
      (ConfigFile.loadConfigAt settings path backend) w := by
  refine (guarantees_loadConfigAt (K := fun _ => True) (fun _ _ _ _ => trivial) (fun _ _ _ => trivial) trivial).imp ?_
  rintro r w' ⟨-, hr⟩ file rfl
  obtain ⟨m, htrack, hmarks⟩ := hr
  intro path' m' htrack'
  cases htrack.symm.trans htrack'
  exact ⟨backend, hbackend, hmarks⟩

theorem tracks_orElse (result : Except ConfigError T) (w : ConfigWorld) :
    Prog.Guarantees configMachine UndisturbedStep (fun _ _ => True)
      (fun r w' => ∀ file, r = .ok file → Tracks settings file (.ok ()) w')
      (Prog.ofExcept result >>= fun config => pure ⟨config, none⟩ : ConfigTool (ConfigFile T)) w := by
  rcases result with e | config
  · exact fun file h => by cases h
  · intro file h
    cases h
    exact fun path m htrack => by cases htrack

theorem tracks_searchDirs (orElse : ConfigMissing → Except ConfigError T) (fileName : ProperFilename) (tried : List FilePath)
    (dirs : List ConfigDir) (w : ConfigWorld) :
    Prog.Guarantees configMachine UndisturbedStep (fun _ _ => True)
      (fun r w' => ∀ file, r = .ok file → Tracks settings file (.ok ()) w')
      (ConfigFile.searchDirs settings orElse fileName tried dirs) w := by
  induction dirs generalizing tried w with
  | nil => exact tracks_orElse _ w
  | cons dir dirs ih =>
    rw [ConfigFile.searchDirs]
    rcases hpath : dir.appendFileName settings fileName with e | path
    · exact fun file h => by cases h
    show Prog.Guarantees configMachine UndisturbedStep _ _ (ConfigFile.pathAndBackends path tried fileExtensions >>= _) w
    refine Prog.Guarantees.bind ((guarantees_pathAndBackends (fun e he => he) tried w).imp ?_)
    intro r t hr
    cases r with
    | err e => exact fun file h => by cases h
    | panic msg => exact fun file h => by cases h
    | ok pair =>
      obtain ⟨found, tried'⟩ := pair
      have hfound := hr found tried' rfl
      match found, hfound with
      | [], _ => exact ih tried' t
      | [(path', backend)], hfound => exact tracks_loadConfigAt (hfound _ (List.mem_singleton_self _)) t
      | _ :: _ :: _, _ => exact fun file h => by cases h

/-- **Loading a configuration**, from wherever it is found. -/
theorem tracks_loadConfig (path : Option FilePath) (orElse : ConfigMissing → Except ConfigError T) (w : ConfigWorld) :
    Prog.Guarantees configMachine UndisturbedStep (fun _ _ => True)
      (fun r w' => ∀ file, r = .ok file → Tracks settings file (.ok ()) w')
      (ConfigFile.loadConfig settings path orElse) w := by
  rcases path with _ | path
  · rw [ConfigFile.loadConfig]
    rcases settings.defaultConfigFileNameWithoutSuffix with e | _ | fileName
    · exact fun file h => by cases h
    · exact tracks_orElse _ w
    · exact tracks_searchDirs orElse fileName [] _ w
  · rcases hbackend : backendFromPath path with e | backend
    · simp only [ConfigFile.loadConfig, hbackend]
      exact fun file h => by cases h
    · rw [loadConfig_some hbackend]
      exact tracks_loadConfigAt hbackend w

/-- What is held is tracked. -/
theorem tracks_of_held {h : Holder T} (hheld : Held settings UndisturbedStep h) : Tracks settings h.file h.attempt h.world := by
  induction hheld with
  | load hrun => exact ((tracks_loadConfig _ _ _).runsAmong hrun _ rfl).last none
  | outside hheld hstep ih => exact ih.step hstep.1
  | unchanged hheld hcall ih =>
    obtain ⟨self, result, hr, hsays⟩ := (guarantees_perhapsReloadConfig ih).runsAmong hcall
    cases hr
    obtain ⟨rfl, htracks, -⟩ := hsays
    exact htracks.last none
  | reloaded hheld hcall ih =>
    obtain ⟨self, result, hr, hsays⟩ := (guarantees_perhapsReloadConfig ih).runsAmong hcall
    cases hr
    exact Tracks.last hsays none
  | failed hheld hcall ih =>
    obtain ⟨self, result, hr, hsays⟩ := (guarantees_perhapsReloadConfig ih).runsAmong hcall
    cases hr
    exact Tracks.last hsays none

/-- **Reloading never misses a change.** When a call says that nothing has changed, and the file could be looked at, then the
latest attempt to load the file was about its current version. -/
theorem reload_never_misses {h : Holder T} {path : FilePath} {m : SystemTime} (hheld : Held settings UndisturbedStep h)
    (htrack : h.file.pathAndTrack = some ⟨path, m⟩) {self : ConfigFile T} {w' : ConfigWorld}
    (hcall : CallEnds settings UndisturbedStep h self (.ok none) w') (hstat : (w'.files path).statError = none)
    (hmodified : w'.modifiedError = none) :
    ∃ v backend, (w'.versions path).head? = some v ∧ backendFromPath path = .ok backend ∧
      About settings path backend h.file.config h.attempt v := by
  obtain ⟨self', result, hr, hsays⟩ := (guarantees_perhapsReloadConfig (tracks_of_held hheld)).runsAmong hcall
  cases hr
  obtain ⟨-, htracks, htime⟩ := hsays
  obtain ⟨backend, hbackend, ⟨u, hu, -⟩, habout⟩ := htracks path m htrack
  obtain ⟨v, hv⟩ := exists_stat hstat (List.ne_nil_of_mem hu)
  have hhead := stat_eq_ok hv
  exact ⟨v, backend, hhead, hbackend, habout v hhead (htime path m htrack v hv hmodified)⟩

end Reload

/-! ### A small configuration -/

/-- Whenever a call says that nothing has changed, what is held is what the current version of the file is read as. -/
def NeverMisses {T : Type} (settings : Settings T) (B : ConfigWorld → ConfigWorld → Prop) : Prop :=
  ∀ (h : Holder T) (path : FilePath) (m : SystemTime), Held settings B h → h.file.pathAndTrack = some ⟨path, m⟩ →
    ∀ (self : ConfigFile T) (w' : ConfigWorld), CallEnds settings B h self (.ok none) w' →
      (w'.files path).statError = none → w'.modifiedError = none →
        ∃ v backend, (w'.versions path).head? = some v ∧ backendFromPath path = .ok backend ∧
          settings.fromStr backend v.content = .ok h.file.config

/-- A configuration that is a number. -/
def numberSettings : Settings ℕ where
  fromStr _ s := if s = "1" then .ok 1 else if s = "2" then .ok 2 else .error "Expected integer"
  defaultConfigFileNameWithoutSuffix := .ok none
  defaultConfigDirs := []
  homeDir := .error .notSet

/-- Where it is. -/
def numberPath : FilePath := pushStr ⟨.root, []⟩ "number.ron"

/-- The time at which the file is there first. -/
def firstTime : SystemTime := ⟨1000, by decide⟩

/-- The time of the next write. -/
def nextTime : SystemTime := ⟨2000, by decide⟩

/-- The file has been written once. -/
def numberWorld : ConfigWorld where
  files path := if path = numberPath then ⟨[⟨"1", firstTime⟩], none, none⟩ else ⟨[], none, none⟩
  modifiedError := none
  last := none

/-- The file is written again. -/
def writtenWorld (content : String) : ConfigWorld :=
  { numberWorld with
    files := Function.update numberWorld.files numberPath
      { numberWorld.files numberPath with versions := ⟨content, nextTime⟩ :: numberWorld.versions numberPath } }

/-- The first configuration. -/
def numberFile : ConfigFile ℕ := ⟨1, some ⟨numberPath, firstTime⟩⟩

theorem numberWorld_files : numberWorld.files numberPath = ⟨[⟨"1", firstTime⟩], none, none⟩ := by
  simp [numberWorld]

theorem backendFromPath_numberPath : backendFromPath numberPath = .ok .ron := by decide +kernel

theorem run_loadConfig : (ConfigFile.loadConfig numberSettings (some numberPath) fun _ => .error (.missing numberPath)).run
    configMachine numberWorld = some (.ok numberFile, { numberWorld with last := some (.metadata numberPath) }) := by
  rw [loadConfig_some backendFromPath_numberPath, loadConfigAt_eq]
  rfl

/-- The next time is a new one. -/
theorem fresh_nextTime : ∀ v ∈ numberWorld.versions numberPath, v.mtime ≠ nextTime := by
  intro v hv
  rw [ConfigWorld.versions, numberWorld_files] at hv
  obtain rfl := List.mem_singleton.1 hv
  show firstTime ≠ nextTime
  decide

/-- What is held after the second write. -/
theorem held_written {B : ConfigWorld → ConfigWorld → Prop}
    (hB : ∀ w w', OutsideStep w w' → w.last = none → B w w') (content : String) :
    Held numberSettings B ⟨numberFile, .ok (), writtenWorld content⟩ :=
  .outside (.load (Prog.runsAmong_of_run run_loadConfig))
    (hB _ _ (.write numberPath ⟨content, nextTime⟩ fresh_nextTime) rfl)

/-- A text that is no number is reported, and then it is not looked at again. -/
theorem reload_misses : ¬ ∀ (T : Type) (settings : Settings T), NeverMisses settings OutsideStep := by
  intro hall
  have hfailed : (numberFile.perhapsReloadConfig numberSettings).run configMachine (writtenWorld "one") =
      some (.ok (⟨1, some ⟨numberPath, nextTime⟩⟩, .error (.decoding .ron numberPath "Expected integer")),
        { writtenWorld "one" with last := some (.readToString numberPath) }) := by
    rw [numberFile, perhapsReloadConfig_eq 1 firstTime backendFromPath_numberPath, loadConfigAt_eq]
    rfl
  have hnone : ((⟨1, some ⟨numberPath, nextTime⟩⟩ : ConfigFile ℕ).perhapsReloadConfig numberSettings).run configMachine
      (writtenWorld "one") = some (.ok (⟨1, some ⟨numberPath, nextTime⟩⟩, .ok none),
        { writtenWorld "one" with last := some (.metadata numberPath) }) := by
    rw [perhapsReloadConfig_eq 1 nextTime backendFromPath_numberPath]
    rfl
  have hheld := Held.failed (held_written (fun w w' hstep _ => hstep) "one") (Prog.runsAmong_of_run hfailed)
  obtain ⟨v, backend, hv, hbackend, hconfig⟩ := hall ℕ numberSettings _ numberPath nextTime hheld rfl _ _
    (Prog.runsAmong_of_run hnone) rfl rfl
  cases Option.some.inj hv
  cases hbackend
  cases hconfig

/-- A number is loaded. -/
theorem reload_never_misses_sample :
    ∃ v backend, ((writtenWorld "2").versions numberPath).head? = some v ∧ backendFromPath numberPath = .ok backend ∧
      About numberSettings numberPath backend 2 (.ok ()) v := by
  have hreloaded : (numberFile.perhapsReloadConfig numberSettings).run configMachine (writtenWorld "2") =
      some (.ok (⟨1, some ⟨numberPath, nextTime⟩⟩, .ok (some ⟨2, some ⟨numberPath, nextTime⟩⟩)),
        { writtenWorld "2" with last := some (.metadata numberPath) }) := by
    rw [numberFile, perhapsReloadConfig_eq 1 firstTime backendFromPath_numberPath, loadConfigAt_eq]
    rfl
  have hnone : ((⟨2, some ⟨numberPath, nextTime⟩⟩ : ConfigFile ℕ).perhapsReloadConfig numberSettings).run configMachine
      (writtenWorld "2") = some (.ok (⟨2, some ⟨numberPath, nextTime⟩⟩, .ok none),
        { writtenWorld "2" with last := some (.metadata numberPath) }) := by
    rw [perhapsReloadConfig_eq 2 nextTime backendFromPath_numberPath]
    rfl
  have hundisturbed : ∀ w w', OutsideStep w w' → w.last = none → UndisturbedStep w w' := by
    refine fun w w' hstep hlast => ⟨hstep, fun path h => ?_⟩
    rw [hlast] at h
    cases h
  have hheld := Held.reloaded (held_written hundisturbed "2") (Prog.runsAmong_of_run hreloaded)
  have hresult := reload_never_misses hheld rfl (Prog.runsAmong_of_run hnone) rfl rfl
  exact hresult

/-! ### What the writes must not do -/

/-- The number 1 has been loaded, the file holds the number 2, and a call says that nothing has changed. -/
def MissesNumber (B : ConfigWorld → ConfigWorld → Prop) : Prop :=
  ∃ (m : SystemTime) (w w' : ConfigWorld) (self : ConfigFile ℕ), Held numberSettings B ⟨⟨1, some ⟨numberPath, m⟩⟩, .ok (), w⟩ ∧
    CallEnds numberSettings B ⟨⟨1, some ⟨numberPath, m⟩⟩, .ok (), w⟩ self (.ok none) w' ∧
      (w'.files numberPath).stat = .ok ⟨"2", m⟩

theorem missesNumber_of_held {B : ConfigWorld → ConfigWorld → Prop} {m : SystemTime} {w : ConfigWorld}
    (hheld : Held numberSettings B ⟨⟨1, some ⟨numberPath, m⟩⟩, .ok (), w⟩) (hstat : (w.files numberPath).stat = .ok ⟨"2", m⟩)
    (hmodified : w.modifiedError = none) : MissesNumber B := by
  have hanswer : (w.files numberPath).stat.map w.metadataOf = .ok ⟨.ok m⟩ := by
    rw [hstat]
    simp only [Except.map, ConfigWorld.metadataOf, hmodified]
  have hnone : ((⟨1, some ⟨numberPath, m⟩⟩ : ConfigFile ℕ).perhapsReloadConfig numberSettings).run configMachine w =
      some (.ok (⟨1, some ⟨numberPath, m⟩⟩, .ok none), { w with last := some (.metadata numberPath) }) := by
    rw [perhapsReloadConfig_eq 1 m backendFromPath_numberPath]
    refine Option.bind_eq_some_iff.2 ⟨_, rfl, ?_⟩
    simp only [ConfigWorld.answer, hanswer, if_pos]
    rfl
  exact ⟨m, w, _, _, hheld, Prog.runsAmong_of_run hnone, hstat⟩

/-- **A write between the reading and the look at the modification time** is taken for what has been read. -/
theorem missesNumber_of_write : MissesNumber OutsideStep := by
  have hwrite : OutsideStep { numberWorld with last := some (.readToString numberPath) }
      { writtenWorld "2" with last := some (.readToString numberPath) } :=
    .write numberPath ⟨"2", nextTime⟩ fresh_nextTime
  have hload : Prog.RunsAmong configMachine OutsideStep
      (ConfigFile.loadConfig numberSettings (some numberPath) fun _ => .error (.missing numberPath)) numberWorld
      (.ok ⟨1, some ⟨numberPath, nextTime⟩⟩) { writtenWorld "2" with last := some (.metadata numberPath) } := by
    rw [loadConfig_some backendFromPath_numberPath, loadConfigAt_eq]
    exact .op .refl rfl (.op (.single hwrite) rfl (.ret _ _))
  exact missesNumber_of_held (.load hload) rfl rfl

/-- While no call is underway, a file is written within the tick of the clock in which it was written before. -/
inductive SameTickStep : ConfigWorld → ConfigWorld → Prop where
  /-- The file keeps its modification time. -/
  | write {w : ConfigWorld} (path : FilePath) (v v' : FileVersion) (hidle : w.last = none)
      (hlast : (w.versions path).head? = some v') (hsame : v.mtime = v'.mtime) :
      SameTickStep w { w with files := Function.update w.files path { w.files path with versions := v :: w.versions path } }

/-- **A modification time that the file has had before** is taken for no change. -/
theorem missesNumber_of_sameTick : MissesNumber SameTickStep :=
  missesNumber_of_held (.outside (.load (Prog.runsAmong_of_run run_loadConfig))
    (.write numberPath ⟨"2", firstTime⟩ ⟨"1", firstTime⟩ rfl rfl rfl)) rfl rfl

end Evobench.Run

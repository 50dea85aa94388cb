import Evobench.Run.OutputDirectory
import Mathlib.Data.List.Induction

/-!
# Paths of output directories

The path of an output directory is parsed as that directory, if no name and no value of a parameter has a slash in it, and
the name of the target no equals sign (`PathSafe`); a `ParametersDir` without parameters must also not look like a directory
of a deeper level (`LooksDeeper`). `output_path_round_trip_iff` says that this is exactly when, and that the paths of different
keys are then different.
-/

namespace Evobench.Run

open Library KeyValFs SerdeTypes

/-! ### The loop over the segments -/

namespace ParametersDir

/-- What the loop does with a segment. -/
theorem parse_child (path p : FilePath) (name : FileName (Char ⊕ UInt8)) (vars : UncheckedCustomParameters) :
    parse path (p.child name) vars =
      match OsString.toStr name.text with
      | none => .err (.segmentNotDecoded name.text path)
      | some dirNameStr =>
        match splitOnce '=' dirNameStr with
        | some (varName, val) =>
          match AllowedEnvVar.fromStr (String.ofList varName) with
          | .error e => .err (.envVar e)
          | .ok key => if p.isTop then .err (.missingTarget path) else parse path p (vars.insert key (String.ofList val))
        | none =>
          match ProperDirname.fromStr (String.ofList dirNameStr) with
          | .error e => .err (.notProperDirname (String.ofList dirNameStr) e)
          | .ok targetName => .ok ⟨p, targetName, .uncheckedCustomParameters vars, some path⟩ := by
  rw [parse]
  split
  · next hname => simp at hname
  · next dirName hname =>
    rw [Path.fileName_child] at hname
    obtain rfl := Option.some.inj hname
    cases OsString.toStr name.text with
    | none => rfl
    | some dirNameStr =>
      dsimp only
      cases splitOnce '=' dirNameStr with
      | none =>
        dsimp only
        cases ProperDirname.fromStr (String.ofList dirNameStr) with
        | error e => rfl
        | ok targetName => simp only [Path.parent_child]
      | some parts =>
        obtain ⟨varName, val⟩ := parts
        dsimp only
        cases AllowedEnvVar.fromStr (String.ofList varName) with
        | error e => rfl
        | ok key =>
          dsimp only
          split
          · next hparent => simp at hparent
          · next parent hparent =>
            rw [Path.parent_child] at hparent
            obtain rfl := Option.some.inj hparent
            rfl

end ParametersDir

/-! ### Paths of directories -/

theorem pushStr_eq_child (p : FilePath) {s : String} (h : IsFileName (OsString.ofChars s.toList)) :
    pushStr p s = p.child ⟨OsString.ofChars s.toList, h⟩ := Path.push_eq_child p h

theorem toList_segment (key value : String) : (key ++ "=" ++ value).toList = key.toList ++ '=' :: value.toList := by
  rw [String.toList_append, String.toList_append, List.append_assoc]
  rfl

/-- The segment of a parameter can be the name of a file. -/
theorem isFileName_segment {key value : String} (hkey : '/' ∉ key.toList) (hvalue : '/' ∉ value.toList) :
    IsFileName (OsString.ofChars (key ++ "=" ++ value).toList) := by
  have hmem : '=' ∈ (key ++ "=" ++ value).toList := by
    rw [toList_segment]
    exact List.mem_append_right _ List.mem_cons_self
  refine OsString.isFileName_of_mem hmem (by decide) ?_
  rw [toList_segment, List.mem_append, List.mem_cons]
  rintro (h | h | h)
  · exact hkey h
  · exact absurd h (by decide)
  · exact hvalue h

/-- What is asked of a target and parameters. -/
structure PathSafe (targetName : ProperDirname) (keyvals : UncheckedCustomParameters) : Prop where
  /-- The target does not look like a parameter. -/
  target : '=' ∉ targetName.name.toList
  /-- The parameters are single segments. -/
  segments : ∀ e ∈ keyvals.entries, '/' ∉ e.1.name.toList ∧ '/' ∉ e.2.toList

namespace ParametersDir

theorem parse_pushStr_parameter (path : FilePath) {p : FilePath} (hp : p.isTop = false) {key : AllowedEnvVar} {value : String}
    (hkey : '/' ∉ key.name.toList) (hvalue : '/' ∉ value.toList) (vars : UncheckedCustomParameters) :
    parse path (pushStr p (key.name ++ "=" ++ value)) vars = parse path p (vars.insert key value) := by
  have hsplit : splitOnce '=' (key.name ++ "=" ++ value).toList = some (key.name.toList, value.toList) := by
    rw [toList_segment, splitOnce_append key.noEquals]
  rw [pushStr_eq_child p (isFileName_segment hkey hvalue), parse_child, OsString.toStr_ofChars]
  simp only [hsplit, String.ofList_toList, AllowedEnvVar.fromStr_name, hp]
  rfl

theorem parse_pushStr_target (path p : FilePath) {targetName : ProperDirname} (h : '=' ∉ targetName.name.toList)
    (vars : UncheckedCustomParameters) :
    parse path (pushStr p targetName.name) vars = .ok ⟨p, targetName, .uncheckedCustomParameters vars, some path⟩ := by
  have hproper : isProperFilename targetName.name = true := (Bool.and_eq_true_iff.1 targetName.proper).1
  rw [pushStr_eq_child p (isFileName_of_isProperFilename hproper), parse_child, OsString.toStr_ofChars]
  simp only [splitOnce_eq_none h, String.ofList_toList, ProperDirname.fromStr, targetName.proper, dite_true]

end ParametersDir

theorem extendPath_concat (p : FilePath) (keyVals : List (AllowedEnvVar × String)) (e : AllowedEnvVar × String) :
    extendPath p (keyVals ++ [e]) = pushStr (extendPath p keyVals) (e.1.name ++ "=" ++ e.2) := by
  rw [extendPath, List.foldl_append]
  rfl

theorem isTop_extendPath {p : FilePath} (hp : p.isTop = false) {keyVals : List (AllowedEnvVar × String)}
    (h : ∀ e ∈ keyVals, '/' ∉ e.1.name.toList ∧ '/' ∉ e.2.toList) : (extendPath p keyVals).isTop = false := by
  cases keyVals using List.reverseRecOn with
  | nil => exact hp
  | append_singleton keyVals e =>
    obtain ⟨hkey, hvalue⟩ := h e (List.mem_append_right _ List.mem_cons_self)
    rw [extendPath_concat, pushStr_eq_child _ (isFileName_segment hkey hvalue), Path.isTop_child]

/-- **The parameters are read from the last one to the first one.** -/
theorem ParametersDir.parse_extendPath (path : FilePath) {p : FilePath} (hp : p.isTop = false)
    {keyVals : List (AllowedEnvVar × String)} (h : ∀ e ∈ keyVals, '/' ∉ e.1.name.toList ∧ '/' ∉ e.2.toList)
    (vars : UncheckedCustomParameters) :
    parse path (extendPath p keyVals) vars = parse path p (vars.insertAll keyVals.reverse) := by
  induction keyVals using List.reverseRecOn generalizing vars with
  | nil => rfl
  | append_singleton keyVals e ih =>
    obtain ⟨hkey, hvalue⟩ := h e (List.mem_append_right _ List.mem_cons_self)
    have hrest : ∀ e ∈ keyVals, '/' ∉ e.1.name.toList ∧ '/' ∉ e.2.toList := fun e he => h e (List.mem_append_left _ he)
    rw [extendPath_concat, parse_pushStr_parameter path (isTop_extendPath hp hrest) hkey hvalue, ih hrest,
      List.reverse_append]
    rfl

/-- **The path of a directory for parameters is parsed as that directory.** -/
theorem ParametersDir.tryFrom_toPath (base : FilePath) {targetName : ProperDirname} {params : CheckedParameters}
    (h : PathSafe targetName params.keyvals) :
    tryFrom (new base targetName params).toPath =
      .ok ⟨base, targetName, .uncheckedCustomParameters params.keyvals, some (new base targetName params).toPath⟩ := by
  have hproper : isProperFilename targetName.name = true := (Bool.and_eq_true_iff.1 targetName.proper).1
  have htop : (pushStr base targetName.name).isTop = false := by
    rw [pushStr_eq_child base (isFileName_of_isProperFilename hproper), Path.isTop_child]
  have hpath := toPath_new base targetName params
  rw [tryFrom]
  generalize hfull : (new base targetName params).toPath = full at hpath ⊢
  nth_rewrite 2 [hpath]
  rw [parse_extendPath full htop h.segments, SortedMap.insertAll_perm (List.reverse_perm _),
    parse_pushStr_target full base h.target]

/-! ### What is parsed -/

/-- A segment for a target. -/
def IsTargetSegment (name : OsString) : Prop :=
  ∃ cs, name.toStr = some cs ∧ '=' ∉ cs ∧ isProperDirname (String.ofList cs) = true

/-- A segment for a parameter. -/
def IsParameterSegment (name : OsString) : Prop :=
  ∃ (key : AllowedEnvVar) (value : List Char), name.toStr = some (key.name.toList ++ '=' :: value)

/-- A target, and parameters after it. -/
inductive IsParametersPath : FilePath → Prop where
  /-- The target. -/
  | target (p : FilePath) {name : FileName (Char ⊕ UInt8)} (h : IsTargetSegment name.text) : IsParametersPath (p.child name)
  /-- A parameter. -/
  | parameter {p : FilePath} {name : FileName (Char ⊕ UInt8)} (h : IsParameterSegment name.text) (hp : IsParametersPath p) :
    IsParametersPath (p.child name)

theorem IsParametersPath.fileName_ne_none {p : FilePath} (h : IsParametersPath p) : p.fileName ≠ none := by
  cases h with
  | target p h => simp
  | parameter h hp => simp

theorem isParametersPath_child_iff {p : FilePath} {name : FileName (Char ⊕ UInt8)} :
    IsParametersPath (p.child name) ↔ IsTargetSegment name.text ∨ IsParameterSegment name.text ∧ IsParametersPath p := by
  constructor
  · intro h
    generalize hq : p.child name = q at h
    cases h with
    | target p' h =>
      obtain ⟨-, rfl⟩ := Path.child_injective hq
      exact .inl h
    | parameter h hp =>
      obtain ⟨rfl, rfl⟩ := Path.child_injective hq
      exact .inr ⟨h, hp⟩
  · rintro (h | ⟨h, hp⟩)
    · exact .target p h
    · exact .parameter h hp

/-- No name and no value has a slash. -/
def NoSlashes (keyvals : UncheckedCustomParameters) : Prop :=
  ∀ e ∈ keyvals.entries, '/' ∉ e.1.name.toList ∧ '/' ∉ e.2.toList

/-- What comes out of parsing a path: an error, or a directory whose segments are those of the path. -/
inductive Parses (path : FilePath) (vars : UncheckedCustomParameters) : Outcome SubdirError ParametersDir → Prop where
  /-- An error. -/
  | err {e : SubdirError} (h : ¬ IsParametersPath path) : Parses path vars (.err e)
  /-- A directory. -/
  | ok {dir : ParametersDir} (h : IsParametersPath path) (htarget : '=' ∉ dir.targetName.name.toList)
    (hvars : NoSlashes vars → NoSlashes dir.customParameters.keyvals) : Parses path vars (.ok dir)

theorem noSlash_of_toStr {name : FileName (Char ⊕ UInt8)} {cs : List Char} (h : OsString.toStr name.text = some cs) :
    '/' ∉ cs := by
  have hvalid := name.valid
  rw [OsString.eq_ofChars_of_toStr h, OsString.isFileName_ofChars] at hvalid
  exact hvalid.2.2.2

/-- A segment without an equals sign. -/
theorem isParametersPath_child_of_not_mem {p : FilePath} {name : FileName (Char ⊕ UInt8)} {cs : List Char}
    (hstr : OsString.toStr name.text = some cs) (h : '=' ∉ cs) :
    IsParametersPath (p.child name) ↔ isProperDirname (String.ofList cs) = true := by
  rw [isParametersPath_child_iff]
  constructor
  · rintro (⟨cs', hcs, -, hproper⟩ | ⟨⟨key, value, hcs⟩, -⟩)
    · rw [hstr] at hcs
      obtain rfl := Option.some.inj hcs
      exact hproper
    · rw [hstr] at hcs
      obtain rfl := Option.some.inj hcs
      exact absurd (List.mem_append_right _ List.mem_cons_self) h
  · intro hproper
    exact .inl ⟨cs, hstr, h, hproper⟩

/-- A segment with an equals sign. -/
theorem isParametersPath_child_of_append {p : FilePath} {name : FileName (Char ⊕ UInt8)} {varName val : List Char}
    (hstr : OsString.toStr name.text = some (varName ++ '=' :: val)) (h : '=' ∉ varName) :
    IsParametersPath (p.child name) ↔ (∃ key, AllowedEnvVar.fromStr (String.ofList varName) = .ok key) ∧ IsParametersPath p := by
  rw [isParametersPath_child_iff]
  constructor
  · rintro (⟨cs', hcs, hnot, -⟩ | ⟨⟨key, value, hcs⟩, hp⟩)
    · rw [hstr] at hcs
      obtain rfl := Option.some.inj hcs
      exact absurd (List.mem_append_right _ List.mem_cons_self) hnot
    · rw [hstr] at hcs
      have hsplit := congrArg (splitOnce '=') (Option.some.inj hcs)
      rw [splitOnce_append h, splitOnce_append key.noEquals] at hsplit
      cases hsplit
      exact ⟨⟨key, by rw [String.ofList_toList, AllowedEnvVar.fromStr_name]⟩, hp⟩
  · rintro ⟨⟨key, hkey⟩, hp⟩
    refine .inr ⟨⟨key, val, ?_⟩, hp⟩
    rw [hstr, AllowedEnvVar.name_of_fromStr hkey, String.toList_ofList]

theorem NoSlashes.insert {vars : UncheckedCustomParameters} (h : NoSlashes vars) {key : AllowedEnvVar} {val : String}
    (hkey : '/' ∉ key.name.toList) (hval : '/' ∉ val.toList) : NoSlashes (vars.insert key val) := by
  intro e he
  rcases SortedMap.mem_insert.1 he with rfl | ⟨he, -⟩
  · exact ⟨hkey, hval⟩
  · exact h e he

theorem IsParametersPath.isTop {p : FilePath} (h : IsParametersPath p) : p.isTop = false := by
  cases h with
  | target p h => exact Path.isTop_child p _
  | parameter h hp => exact Path.isTop_child _ _

theorem ParametersDir.parse_spec (path currentPath : FilePath) (vars : UncheckedCustomParameters) :
    Parses currentPath vars (parse path currentPath vars) := by
  induction currentPath using Path.upwards generalizing vars with
  | other p hname =>
    have hnot : ¬ IsParametersPath p := fun h => h.fileName_ne_none hname
    rw [parse]
    split
    · split
      · exact .err hnot
      · exact .err hnot
    · next name hsome =>
      rw [hname] at hsome
      cases hsome
  | child p name ih =>
    rw [parse_child]
    cases hstr : OsString.toStr name.text with
    | none =>
      apply Parses.err
      rw [isParametersPath_child_iff]
      rintro (⟨cs, hcs, -⟩ | ⟨⟨key, value, hcs⟩, -⟩)
      · rw [hstr] at hcs
        cases hcs
      · rw [hstr] at hcs
        cases hcs
    | some cs =>
      have hslash : '/' ∉ cs := noSlash_of_toStr hstr
      dsimp only
      cases hsplit : splitOnce '=' cs with
      | none =>
        have hequals := splitOnce_eq_none_iff.1 hsplit
        have hiff := isParametersPath_child_of_not_mem (p := p) hstr hequals
        dsimp only
        rw [ProperDirname.fromStr]
        split
        · next e herror =>
          apply Parses.err
          rw [hiff]
          intro hproper
          rw [dif_pos hproper] at herror
          cases herror
        · next targetName hok =>
          split_ifs at hok with hproper
          cases hok
          refine .ok (hiff.2 hproper) ?_ fun h => h
          show '=' ∉ (String.ofList cs).toList
          rwa [String.toList_ofList]
      | some parts =>
        obtain ⟨varName, val⟩ := parts
        obtain ⟨rfl, hvar⟩ := eq_of_splitOnce hsplit
        have hiff := isParametersPath_child_of_append (p := p) hstr hvar
        rw [List.mem_append, List.mem_cons] at hslash
        push Not at hslash
        dsimp only
        cases hkey : AllowedEnvVar.fromStr (String.ofList varName) with
        | error e =>
          apply Parses.err
          rw [hiff]
          rintro ⟨⟨key, hok⟩, -⟩
          rw [hkey] at hok
          cases hok
        | ok key =>
          dsimp only
          split
          · next htop =>
            apply Parses.err
            rw [hiff]
            rintro ⟨-, hp⟩
            rw [hp.isTop] at htop
            cases htop
          · have hname : '/' ∉ key.name.toList := by
              rw [AllowedEnvVar.name_of_fromStr hkey, String.toList_ofList]
              exact hslash.1
            have hval : '/' ∉ (String.ofList val).toList := by
              rw [String.toList_ofList]
              exact hslash.2.2
            have hrest := ih (vars.insert key (String.ofList val))
            revert hrest
            generalize parse path p (vars.insert key (String.ofList val)) = r
            intro hrest
            cases hrest with
            | err h => exact .err fun hp => h (hiff.1 hp).2
            | ok h htarget hvars => exact .ok (hiff.2 ⟨⟨key, hkey⟩, h⟩) htarget fun hno => hvars (hno.insert hname hval)

/-! ### Deeper levels -/

/-- The segment is read as this value. -/
def IsReadAs {α : Type} (fromStr : String → Except SubdirError α) (name : OsString) (val : α) : Prop :=
  ∃ cs, name.toStr = some cs ∧ fromStr (String.ofList cs) = .ok val

/-- What comes out of parsing the end of a path. -/
theorem parsePathFilename_spec {α : Type} (fromStr : String → Except SubdirError α) (path : FilePath) :
    (∃ e, parsePathFilename fromStr path = .err e ∧
        ∀ (p : FilePath) name val, path = p.child name → ¬ IsReadAs fromStr name.text val) ∨
      ∃ (p : FilePath) (name : FileName (Char ⊕ UInt8)) (val : α), path = p.child name ∧ IsReadAs fromStr name.text val ∧
        parsePathFilename fromStr path = .ok (val, p) := by
  cases hname : path.fileName with
  | none =>
    refine .inl ⟨.missingFileName, by rw [parsePathFilename, hname], fun p name val hpath => ?_⟩
    rw [hpath, Path.fileName_child] at hname
    cases hname
  | some name =>
    obtain ⟨p, rfl⟩ := Path.eq_child hname
    have heq : parsePathFilename fromStr (p.child name) = (parseFilename fromStr name.text >>= fun val => pure (val, p)) := by
      rw [parsePathFilename, Path.fileName_child, Path.parent_child]
    rw [heq, parseFilename]
    cases hstr : OsString.toStr name.text with
    | none =>
      refine .inl ⟨.notDecoded name.text, rfl, ?_⟩
      rintro p' name' val hpath ⟨cs, hcs, -⟩
      obtain ⟨rfl, rfl⟩ := Path.child_injective hpath
      rw [hstr] at hcs
      cases hcs
    | some cs =>
      cases hval : fromStr (String.ofList cs) with
      | error e =>
        refine .inl ⟨e, by simp [hval, Outcome.ofExcept], ?_⟩
        rintro p' name' val hpath ⟨cs', hcs, hok⟩
        obtain ⟨rfl, rfl⟩ := Path.child_injective hpath
        rw [hstr] at hcs
        obtain rfl := Option.some.inj hcs
        rw [hval] at hok
        cases hok
      | ok val => exact .inr ⟨p, name, val, rfl, ⟨cs, hstr, hval⟩, by simp [hval, Outcome.ofExcept]⟩

/-- A path for a key: a commit id after a path for parameters. -/
def IsKeyPath (path : FilePath) : Prop :=
  ∃ (p : FilePath) (name : FileName (Char ⊕ UInt8)) (hash : GitHash),
    path = p.child name ∧ IsReadAs gitHashFromStr name.text hash ∧ IsParametersPath p

/-- A path for a run: a point in time after a path for a key. -/
def IsRunPath (chrono : Chrono) (path : FilePath) : Prop :=
  ∃ (p : FilePath) (name : FileName (Char ⊕ UInt8)) (time : DateTimeWithOffset chrono),
    path = p.child name ∧ IsReadAs (dateTimeFromStr chrono) name.text time ∧ IsKeyPath p

/-- What every parsed directory is like. -/
structure ParametersDir.Parsed (dir : ParametersDir) : Prop where
  /-- The target does not look like a parameter. -/
  target : '=' ∉ dir.targetName.name.toList
  /-- The parameters are single segments. -/
  segments : NoSlashes dir.customParameters.keyvals

theorem ParametersDir.tryFrom_spec (path : FilePath) :
    (∃ e, tryFrom path = .err e ∧ ¬ IsParametersPath path) ∨
      ∃ dir : ParametersDir, tryFrom path = .ok dir ∧ IsParametersPath path ∧ dir.Parsed := by
  have h := parse_spec path path .empty
  rw [← tryFrom] at h
  generalize tryFrom path = r at h ⊢
  cases h with
  | err hnot => exact .inl ⟨_, rfl, hnot⟩
  | ok hpath htarget hvars => exact .inr ⟨_, rfl, hpath, htarget, hvars fun e he => by cases he⟩

theorem KeyDir.tryFrom_spec (path : FilePath) :
    (∃ e, tryFrom path = .err e ∧ ¬ IsKeyPath path) ∨
      ∃ dir, tryFrom path = .ok dir ∧ IsKeyPath path ∧ dir.parent.Parsed := by
  rw [tryFrom]
  rcases parsePathFilename_spec gitHashFromStr path with ⟨e, he, hnot⟩ | ⟨p, name, hash, hpath, hread, he⟩
  · rw [he]
    refine .inl ⟨e, rfl, ?_⟩
    rintro ⟨p, name, hash, hpath, hread, -⟩
    exact hnot p name hash hpath hread
  · rw [he, Outcome.ok_bind]
    dsimp only
    rcases ParametersDir.tryFrom_spec p with ⟨e, he, hnot⟩ | ⟨dir, he, hp, hparsed⟩
    · rw [he]
      refine .inl ⟨e, rfl, ?_⟩
      rintro ⟨p', name', hash', hpath', -, hp'⟩
      obtain ⟨rfl, rfl⟩ := Path.child_injective (hpath.symm.trans hpath')
      exact hnot hp'
    · rw [he]
      exact .inr ⟨_, rfl, ⟨p, name, hash, hpath, hread, hp⟩, hparsed⟩

theorem RunDir.tryFrom_spec (chrono : Chrono) (path : FilePath) :
    (∃ e, tryFrom chrono path = .err e ∧ ¬ IsRunPath chrono path) ∨
      ∃ dir, tryFrom chrono path = .ok dir ∧ IsRunPath chrono path ∧ dir.parent.parent.Parsed := by
  rw [tryFrom]
  rcases parsePathFilename_spec (dateTimeFromStr chrono) path with ⟨e, he, hnot⟩ | ⟨p, name, time, hpath, hread, he⟩
  · rw [he]
    refine .inl ⟨e, rfl, ?_⟩
    rintro ⟨p, name, time, hpath, hread, -⟩
    exact hnot p name time hpath hread
  · rw [he, Outcome.ok_bind]
    dsimp only
    rcases KeyDir.tryFrom_spec p with ⟨e, he, hnot⟩ | ⟨dir, he, hp, hparsed⟩
    · rw [he]
      refine .inl ⟨e, rfl, ?_⟩
      rintro ⟨p', name', time', hpath', -, hp'⟩
      obtain ⟨rfl, rfl⟩ := Path.child_injective (hpath.symm.trans hpath')
      exact hnot hp'
    · rw [he]
      exact .inr ⟨_, rfl, ⟨p, name, time, hpath, hread, hp⟩, hparsed⟩

/-! ### Round trips -/

namespace OutputSubdir

variable {chrono : Chrono}

/-- The target and the parameters of a directory. -/
def parameters : OutputSubdir chrono → ParametersDir
  | parametersDir dir => dir
  | keyDir dir => dir.parent
  | runDir dir => dir.parent.parent

theorem parsed_of_tryFrom {path : FilePath} {dir : OutputSubdir chrono} (h : tryFrom chrono path = .ok dir) :
    dir.parameters.Parsed := by
  rw [tryFrom] at h
  rcases RunDir.tryFrom_spec chrono path with ⟨e, he, -⟩ | ⟨run, he, -, hparsed⟩
  · rw [he] at h
    dsimp only at h
    rcases KeyDir.tryFrom_spec path with ⟨e, he, -⟩ | ⟨key, he, -, hparsed⟩
    · rw [he] at h
      dsimp only at h
      rcases ParametersDir.tryFrom_spec path with ⟨e, he, -⟩ | ⟨params, he, -, hparsed⟩
      · rw [he] at h
        cases h
      · rw [he] at h
        cases h
        exact hparsed
    · rw [he] at h
      cases h
      exact hparsed
  · rw [he] at h
    cases h
    exact hparsed

end OutputSubdir

/-- Equal base, target and parameters. -/
structure ParametersDir.Same (a b : ParametersDir) : Prop where
  /-- The base is equal. -/
  basePath : a.basePath = b.basePath
  /-- The target is equal. -/
  targetName : a.targetName = b.targetName
  /-- The parameters are equal, as a map from names to strings. -/
  keyvals : a.customParameters.keyvals = b.customParameters.keyvals

/-- The same level, with equal base, target, parameters, commit and timestamp. -/
def OutputSubdir.Same {chrono : Chrono} : OutputSubdir chrono → OutputSubdir chrono → Prop
  | parametersDir a, parametersDir b => a.Same b
  | keyDir a, keyDir b => a.parent.Same b.parent ∧ a.commitId = b.commitId
  | runDir a, runDir b => a.parent.parent.Same b.parent.parent ∧ a.parent.commitId = b.parent.commitId ∧ a.timestamp = b.timestamp
  | _, _ => False

theorem OutputSubdir.Same.parameters {chrono : Chrono} {a b : OutputSubdir chrono} (h : a.Same b) :
    a.parameters.Same b.parameters := by
  cases a with
  | parametersDir a =>
    cases b with
    | parametersDir b => exact h
    | keyDir b => cases h
    | runDir b => cases h
  | keyDir a =>
    cases b with
    | parametersDir b => cases h
    | keyDir b => exact h.1
    | runDir b => cases h
  | runDir a =>
    cases b with
    | parametersDir b => cases h
    | keyDir b => cases h
    | runDir b => exact h.1

/-- **Round trip**: the path of the directory is parsed as the directory. -/
def OutputSubdir.RoundTrips {chrono : Chrono} (dir : OutputSubdir chrono) : Prop :=
  ∃ dir', tryFrom chrono dir.toPath = .ok dir' ∧ dir'.Same dir

section Levels

variable {chrono : Chrono} {base : FilePath} {targetName : ProperDirname} {params : CheckedParameters}

theorem pathSafe_of_roundTrips {dir : OutputSubdir chrono} (hdir : dir.parameters = .new base targetName params)
    (h : dir.RoundTrips) : PathSafe targetName params.keyvals := by
  obtain ⟨dir', hdir', hsame⟩ := h
  obtain ⟨htarget, hsegments⟩ := OutputSubdir.parsed_of_tryFrom hdir'
  have hparams := hsame.parameters
  rw [hdir] at hparams
  rw [hparams.targetName] at htarget
  rw [hparams.keyvals] at hsegments
  exact ⟨htarget, hsegments⟩

theorem isFileName_display (hash : GitHash) : IsFileName (OsString.ofChars hash.display.toList) := by
  have hnot : ∀ c : Char, decodeHexDigit c = none → c ∉ hash.display.toList :=
    fun c hc => GitHash.not_mem_of_fromStr (GitHash.fromStr_display hash) hc
  have hne : hash.display.toList ≠ [] := by
    rw [GitHash.display, String.toList_ofList, ne_eq, List.map_eq_nil_iff, ← List.length_eq_zero_iff, length_hexDigits]
    decide
  obtain ⟨c, hc⟩ := List.exists_mem_of_ne_nil _ hne
  refine OsString.isFileName_of_mem hc ?_ (hnot '/' (by decide))
  rintro rfl
  exact hnot '.' (by decide) hc

theorem isFileName_text (time : DateTimeWithOffset chrono) : IsFileName (OsString.ofChars time.text.toList) := by
  obtain ⟨t, hparse, -⟩ := time.parses
  exact OsString.isFileName_of_mem (chrono.colon_of_parse _ _ hparse) (by decide) (chrono.noSlash_of_parse _ _ hparse)

theorem isFileName_targetName (targetName : ProperDirname) : IsFileName (OsString.ofChars targetName.name.toList) :=
  isFileName_of_isProperFilename (Bool.and_eq_true_iff.1 targetName.proper).1

theorem gitHashFromStr_eq_ok {s : String} {hash : GitHash} : gitHashFromStr s = .ok hash ↔ GitHash.fromStr s = .ok hash := by
  rw [gitHashFromStr]
  cases GitHash.fromStr s with
  | ok hash' => simp
  | error e => simp

theorem dateTimeFromStr_text (time : DateTimeWithOffset chrono) : dateTimeFromStr chrono time.text = .ok time := by
  rw [dateTimeFromStr, DateTimeWithOffset.fromStr_text]

theorem exists_dateTimeFromStr {s : String} :
    (∃ time, dateTimeFromStr chrono s = .ok time) ↔ ∃ t, chrono.parseFromRfc3339 s = some t := by
  rw [dateTimeFromStr]
  cases hparse : chrono.parseFromRfc3339 s with
  | none => simp [DateTimeWithOffset.fromStr_eq_none hparse]
  | some t =>
    obtain ⟨time, htime⟩ := DateTimeWithOffset.exists_fromStr hparse
    simp [htime]

/-- How a pushed text is read. -/
theorem isReadAs_ofChars {α : Type} {fromStr : String → Except SubdirError α} {s : String} {val : α} :
    IsReadAs fromStr (OsString.ofChars s.toList) val ↔ fromStr s = .ok val := by
  rw [IsReadAs, OsString.toStr_ofChars]
  constructor
  · rintro ⟨cs, hcs, hval⟩
    obtain rfl := Option.some.inj hcs
    rwa [String.ofList_toList] at hval
  · intro hval
    exact ⟨s.toList, rfl, by rwa [String.ofList_toList]⟩

theorem parsePathFilename_pushStr {α : Type} {fromStr : String → Except SubdirError α} {p : FilePath} {s : String} {val : α}
    (h : IsFileName (OsString.ofChars s.toList)) (hval : fromStr s = .ok val) :
    parsePathFilename fromStr (pushStr p s) = .ok (val, p) := by
  rw [pushStr_eq_child p h, parsePathFilename, Path.fileName_child, Path.parent_child]
  simp [parseFilename, OsString.toStr_ofChars, hval, Outcome.ofExcept]

theorem isKeyPath_pushStr_iff {p : FilePath} {s : String} (h : IsFileName (OsString.ofChars s.toList)) :
    IsKeyPath (pushStr p s) ↔ (∃ hash, GitHash.fromStr s = .ok hash) ∧ IsParametersPath p := by
  rw [pushStr_eq_child p h]
  constructor
  · rintro ⟨p', name, hash, hpath, hread, hp⟩
    obtain ⟨rfl, rfl⟩ := Path.child_injective hpath
    exact ⟨⟨hash, gitHashFromStr_eq_ok.1 (isReadAs_ofChars.1 hread)⟩, hp⟩
  · rintro ⟨⟨hash, hhash⟩, hp⟩
    exact ⟨p, _, hash, rfl, isReadAs_ofChars.2 (gitHashFromStr_eq_ok.2 hhash), hp⟩

theorem isRunPath_pushStr_iff {p : FilePath} {s : String} (h : IsFileName (OsString.ofChars s.toList)) :
    IsRunPath chrono (pushStr p s) ↔ (∃ t, chrono.parseFromRfc3339 s = some t) ∧ IsKeyPath p := by
  rw [pushStr_eq_child p h, ← exists_dateTimeFromStr]
  constructor
  · rintro ⟨p', name, time, hpath, hread, hp⟩
    obtain ⟨rfl, rfl⟩ := Path.child_injective hpath
    exact ⟨⟨time, isReadAs_ofChars.1 hread⟩, hp⟩
  · rintro ⟨⟨time, htime⟩, hp⟩
    exact ⟨p, _, time, rfl, isReadAs_ofChars.2 htime, hp⟩

/-- **The path of a directory for a key is parsed as that directory.** -/
theorem KeyDir.tryFrom_toPath (base : FilePath) (h : PathSafe targetName params.keyvals) (commitId : GitHash) :
    ∃ path path', tryFrom (fromBaseTargetParams base targetName commitId params).toPath =
      .ok ⟨⟨base, targetName, .uncheckedCustomParameters params.keyvals, path⟩, commitId, path'⟩ := by
  rw [toPath_fromBaseTargetParams, tryFrom, parsePathFilename_pushStr (isFileName_display commitId)
    (gitHashFromStr_eq_ok.2 (GitHash.fromStr_display commitId)), Outcome.ok_bind]
  dsimp only
  rw [ParametersDir.tryFrom_toPath base h]
  exact ⟨_, _, rfl⟩

/-- **The path of a directory for a run is parsed as that directory.** -/
theorem RunDir.tryFrom_toPath (base : FilePath) (h : PathSafe targetName params.keyvals) (commitId : GitHash)
    (timestamp : DateTimeWithOffset chrono) :
    ∃ path path' path'',
      tryFrom chrono ((KeyDir.fromBaseTargetParams base targetName commitId params).appendSubdir timestamp).toPath =
        .ok ⟨⟨⟨base, targetName, .uncheckedCustomParameters params.keyvals, path⟩, commitId, path'⟩, timestamp, path''⟩ := by
  obtain ⟨path, path', hkey⟩ := KeyDir.tryFrom_toPath base h commitId
  rw [toPath_appendSubdir, tryFrom,
    parsePathFilename_pushStr (isFileName_text timestamp) (dateTimeFromStr_text timestamp), Outcome.ok_bind]
  dsimp only
  rw [hkey]
  exact ⟨path, path', _, rfl⟩

/-! ### Which level is found -/

theorem OutputSubdir.tryFrom_of_run {path : FilePath} {dir : RunDir chrono} (h : RunDir.tryFrom chrono path = .ok dir) :
    tryFrom chrono path = .ok (.runDir dir) := by
  rw [tryFrom, h]

theorem OutputSubdir.tryFrom_of_key {path : FilePath} {dir : KeyDir} (hrun : ¬ IsRunPath chrono path)
    (h : KeyDir.tryFrom path = .ok dir) : tryFrom chrono path = .ok (.keyDir dir) := by
  rcases RunDir.tryFrom_spec chrono path with ⟨e, he, -⟩ | ⟨run, -, hpath, -⟩
  · rw [tryFrom, he]
    dsimp only
    rw [h]
  · exact absurd hpath hrun

theorem OutputSubdir.tryFrom_of_parameters {path : FilePath} {dir : ParametersDir} (hrun : ¬ IsRunPath chrono path)
    (hkey : ¬ IsKeyPath path) (h : ParametersDir.tryFrom path = .ok dir) : tryFrom chrono path = .ok (.parametersDir dir) := by
  rcases RunDir.tryFrom_spec chrono path with ⟨e, he, -⟩ | ⟨run, -, hpath, -⟩
  · rcases KeyDir.tryFrom_spec path with ⟨e', he', -⟩ | ⟨key, -, hpath, -⟩
    · rw [tryFrom, he]
      dsimp only
      rw [he']
      dsimp only
      rw [h]
    · exact absurd hpath hkey
  · exact absurd hpath hrun

/-- The path to a target looks like that of a deeper level: the target like a commit or a point in time. -/
def LooksDeeper (chrono : Chrono) (targetName : ProperDirname) (base : FilePath) : Prop :=
  (∃ hash, GitHash.fromStr targetName.name = .ok hash) ∧ IsParametersPath base ∨
    (∃ t, chrono.parseFromRfc3339 targetName.name = some t) ∧ IsKeyPath base

/-- A segment of a parameter is no commit and no point in time. -/
theorem deeper_toPath_iff (h : PathSafe targetName params.keyvals) :
    IsKeyPath (ParametersDir.new base targetName params).toPath ∨
        IsRunPath chrono (ParametersDir.new base targetName params).toPath ↔
      params.keyvals.entries = [] ∧ LooksDeeper chrono targetName base := by
  have hsegments := h.segments
  rw [ParametersDir.toPath_new]
  generalize params.keyvals.entries = keyVals at hsegments ⊢
  cases keyVals using List.reverseRecOn with
  | nil =>
    rw [show extendPath (pushStr base targetName.name) [] = pushStr base targetName.name from rfl,
      isKeyPath_pushStr_iff (isFileName_targetName targetName), isRunPath_pushStr_iff (isFileName_targetName targetName)]
    simp [LooksDeeper]
  | append_singleton keyVals e =>
    obtain ⟨hkey, hvalue⟩ := hsegments e (List.mem_append_right _ List.mem_cons_self)
    have hmem : '=' ∈ (e.1.name ++ "=" ++ e.2).toList := by
      rw [toList_segment]
      exact List.mem_append_right _ List.mem_cons_self
    rw [extendPath_concat, isKeyPath_pushStr_iff (isFileName_segment hkey hvalue),
      isRunPath_pushStr_iff (isFileName_segment hkey hvalue)]
    constructor
    · rintro (⟨⟨hash, hhash⟩, -⟩ | ⟨⟨t, ht⟩, -⟩)
      · exact absurd hmem (GitHash.not_mem_of_fromStr hhash (by decide))
      · exact absurd hmem (chrono.noEquals_of_parse _ _ ht)
    · rintro ⟨hnil, -⟩
      simp at hnil

/-- A commit is no point in time. -/
theorem not_isRunPath_display (p : FilePath) (hash : GitHash) : ¬ IsRunPath chrono (pushStr p hash.display) := by
  rw [isRunPath_pushStr_iff (isFileName_display hash)]
  rintro ⟨⟨t, ht⟩, -⟩
  exact GitHash.not_mem_of_fromStr (GitHash.fromStr_display hash) (by decide) (chrono.colon_of_parse _ _ ht)

theorem roundTrips_parametersDir_iff :
    (.parametersDir (.new base targetName params) : OutputSubdir chrono).RoundTrips ↔
      PathSafe targetName params.keyvals ∧ (params.keyvals.entries = [] → ¬ LooksDeeper chrono targetName base) := by
  have hpath : (.parametersDir (.new base targetName params) : OutputSubdir chrono).toPath =
    (ParametersDir.new base targetName params).toPath := rfl
  constructor
  · intro hround
    have hsafe : PathSafe targetName params.keyvals := pathSafe_of_roundTrips rfl hround
    refine ⟨hsafe, fun hnil hdeeper => ?_⟩
    obtain ⟨dir, hdir, hsame⟩ := hround
    rw [hpath] at hdir
    by_cases hrun : IsRunPath chrono (ParametersDir.new base targetName params).toPath
    · rcases RunDir.tryFrom_spec chrono (ParametersDir.new base targetName params).toPath with ⟨e, -, hnot⟩ | ⟨run, he, -⟩
      · exact hnot hrun
      · rw [OutputSubdir.tryFrom_of_run he] at hdir
        cases hdir
        exact hsame
    · have hkey := ((deeper_toPath_iff hsafe).2 ⟨hnil, hdeeper⟩).resolve_right hrun
      rcases KeyDir.tryFrom_spec (ParametersDir.new base targetName params).toPath with ⟨e, -, hnot⟩ | ⟨key, he, -⟩
      · exact hnot hkey
      · rw [OutputSubdir.tryFrom_of_key hrun he] at hdir
        cases hdir
        exact hsame
  · rintro ⟨hsafe, hnot⟩
    have hdeeper := mt (deeper_toPath_iff hsafe).1 fun h => hnot h.1 h.2
    rw [not_or] at hdeeper
    exact ⟨_, OutputSubdir.tryFrom_of_parameters hdeeper.2 hdeeper.1 (ParametersDir.tryFrom_toPath base hsafe), rfl, rfl, rfl⟩

theorem roundTrips_keyDir_iff (commitId : GitHash) :
    (.keyDir (.fromBaseTargetParams base targetName commitId params) : OutputSubdir chrono).RoundTrips ↔
      PathSafe targetName params.keyvals := by
  refine ⟨pathSafe_of_roundTrips rfl, fun h => ?_⟩
  obtain ⟨path, path', hkey⟩ := KeyDir.tryFrom_toPath base h commitId
  have hrun : ¬ IsRunPath chrono (KeyDir.fromBaseTargetParams base targetName commitId params).toPath := by
    rw [KeyDir.toPath_fromBaseTargetParams]
    exact not_isRunPath_display _ commitId
  exact ⟨_, OutputSubdir.tryFrom_of_key hrun hkey, ⟨rfl, rfl, rfl⟩, rfl⟩

theorem roundTrips_runDir_iff (commitId : GitHash) (timestamp : DateTimeWithOffset chrono) :
    (OutputSubdir.runDir ((KeyDir.fromBaseTargetParams base targetName commitId params).appendSubdir timestamp)).RoundTrips ↔
      PathSafe targetName params.keyvals := by
  refine ⟨pathSafe_of_roundTrips rfl, fun h => ?_⟩
  obtain ⟨path, path', path'', hrun⟩ := RunDir.tryFrom_toPath base h commitId timestamp
  exact ⟨_, OutputSubdir.tryFrom_of_run hrun, ⟨rfl, rfl, rfl⟩, rfl, rfl⟩

/-- **Different keys have different paths.** -/
theorem keys_eq_of_toPath_eq {base₂ : FilePath} {targetName₂ : ProperDirname} {params₂ : CheckedParameters}
    {commitId commitId₂ : GitHash} (h : PathSafe targetName params.keyvals) (h₂ : PathSafe targetName₂ params₂.keyvals)
    (hpath : (KeyDir.fromBaseTargetParams base targetName commitId params).toPath =
      (KeyDir.fromBaseTargetParams base₂ targetName₂ commitId₂ params₂).toPath) :
    base = base₂ ∧ targetName = targetName₂ ∧ params.keyvals = params₂.keyvals ∧ commitId = commitId₂ := by
  obtain ⟨path, path', hkey⟩ := KeyDir.tryFrom_toPath base h commitId
  obtain ⟨path₂, path₂', hkey₂⟩ := KeyDir.tryFrom_toPath base₂ h₂ commitId₂
  rw [hpath, hkey₂] at hkey
  simp only [Outcome.ok.injEq, KeyDir.mk.injEq, ParametersDir.mk.injEq,
    CheckedOrUncheckedCustomParameters.uncheckedCustomParameters.injEq] at hkey
  obtain ⟨⟨hbase, htarget, hkeyvals, -⟩, hcommit, -⟩ := hkey
  exact ⟨hbase.symm, htarget.symm, hkeyvals.symm, hcommit.symm⟩

end Levels

/-- **When output paths round trip**: if no name and no value of a parameter has a slash, and the target no equals sign; a
directory for parameters without any must also not look like a deeper level. Such paths of different keys are different. -/
theorem output_path_round_trip_iff (chrono : Chrono) {keyvals : UncheckedCustomParameters}
    {customParametersRequired : SortedMap AllowedEnvVar AllowedCustomParameter} {params : CheckedParameters}
    (h : CheckedParameters.checkedFrom keyvals customParametersRequired = .ok params) (base : FilePath)
    (targetName : ProperDirname) (commitId : GitHash) (timestamp : DateTimeWithOffset chrono) :
    ((.parametersDir (.new base targetName params) : OutputSubdir chrono).RoundTrips ↔
        PathSafe targetName keyvals ∧ (keyvals.entries = [] → ¬ LooksDeeper chrono targetName base)) ∧
      ((.keyDir (.fromBaseTargetParams base targetName commitId params) : OutputSubdir chrono).RoundTrips ↔
        PathSafe targetName keyvals) ∧
      ((.runDir ((KeyDir.fromBaseTargetParams base targetName commitId params).appendSubdir timestamp) :
          OutputSubdir chrono).RoundTrips ↔ PathSafe targetName keyvals) ∧
      ∀ keyvals₂ customParametersRequired₂ params₂ base₂ targetName₂ commitId₂,
        CheckedParameters.checkedFrom keyvals₂ customParametersRequired₂ = .ok params₂ →
        PathSafe targetName keyvals → PathSafe targetName₂ keyvals₂ →
        (KeyDir.fromBaseTargetParams base targetName commitId params).toPath =
          (KeyDir.fromBaseTargetParams base₂ targetName₂ commitId₂ params₂).toPath →
        base = base₂ ∧ targetName = targetName₂ ∧ keyvals = keyvals₂ ∧ commitId = commitId₂ := by
  obtain rfl := CheckedParameters.keyvals_of_checkedFrom h
  refine ⟨roundTrips_parametersDir_iff, roundTrips_keyDir_iff commitId, roundTrips_runDir_iff commitId timestamp, ?_⟩
  intro keyvals₂ _ params₂ base₂ targetName₂ commitId₂ h₂ hsafe hsafe₂ hpath
  obtain rfl := CheckedParameters.keyvals_of_checkedFrom h₂
  exact keys_eq_of_toPath_eq hsafe hsafe₂ hpath

/-! ### A value with a slash -/

/-- Reads one point in time. -/
def sampleChrono : Chrono where
  DateTime := Unit
  parseFromRfc3339 s := if s = "2026-02-02T11:26:48.563793486+00:00" then some () else none
  toRfc3339 _ := "2026-02-02T11:26:48.563793486+00:00"
  parse_toRfc3339 _ _ _ := rfl
  colon_of_parse s t h := by
    split_ifs at h with hs
    subst hs
    decide
  noSlash_of_parse s t h := by
    split_ifs at h with hs
    subst hs
    decide
  noEquals_of_parse s t h := by
    split_ifs at h with hs
    subst hs
    decide

/-- The point in time. -/
def sampleTime : DateTimeWithOffset sampleChrono := ⟨"2026-02-02T11:26:48.563793486+00:00", (), rfl, rfl⟩

/-- `/home` -/
def sampleBase : FilePath := pushStr ⟨.root, []⟩ "home"

/-- `api` -/
def sampleTarget : ProperDirname := ⟨"api", by decide +kernel⟩

/-- `A` -/
def envVarA : AllowedEnvVar := ⟨"A", by decide +kernel, by decide +kernel, by decide +kernel, by decide +kernel⟩

/-- `B` -/
def envVarB : AllowedEnvVar := ⟨"B", by decide +kernel, by decide +kernel, by decide +kernel, by decide +kernel⟩

/-- Two parameters that are not required. -/
def sampleRequired : SortedMap AllowedEnvVar AllowedCustomParameter :=
  ⟨[(envVarA, ⟨false, .string⟩), (envVarB, ⟨false, .string⟩)], by decide +kernel⟩

/-- `A=1`, `B=2` -/
def twoParameters : UncheckedCustomParameters := ⟨[(envVarA, "1"), (envVarB, "2")], by decide +kernel⟩

/-- `A=1/B=2` -/
def oneParameter : UncheckedCustomParameters := ⟨[(envVarA, "1/B=2")], by decide +kernel⟩

/-- The two parameters as strings. -/
def twoChecked : CheckedParameters := twoParameters.map fun value => ⟨.string, value⟩

/-- The one parameter as a string. -/
def oneChecked : CheckedParameters := oneParameter.map fun value => ⟨.string, value⟩

theorem checkedFrom_two : CheckedParameters.checkedFrom twoParameters sampleRequired = .ok twoChecked := rfl

theorem checkedFrom_one : CheckedParameters.checkedFrom oneParameter sampleRequired = .ok oneChecked := rfl

/-- Two parameters without slashes, at all three levels. -/
theorem output_path_sample :
    (.parametersDir (.new sampleBase sampleTarget twoChecked) : OutputSubdir sampleChrono).RoundTrips ∧
      (.keyDir (.fromBaseTargetParams sampleBase sampleTarget ⟨5⟩ twoChecked) : OutputSubdir sampleChrono).RoundTrips ∧
      (.runDir ((KeyDir.fromBaseTargetParams sampleBase sampleTarget ⟨5⟩ twoChecked).appendSubdir sampleTime) :
        OutputSubdir sampleChrono).RoundTrips := by
  have hsafe : PathSafe sampleTarget twoParameters := ⟨by decide +kernel, by decide +kernel⟩
  obtain ⟨hparams, hkey, hrun, -⟩ :=
    output_path_round_trip_iff sampleChrono checkedFrom_two sampleBase sampleTarget ⟨5⟩ sampleTime
  exact ⟨hparams.2 ⟨hsafe, fun hnil => absurd hnil (List.cons_ne_nil _ _)⟩, hkey.2 hsafe, hrun.2 hsafe⟩

/-- The value `1/B=2` of a parameter is accepted, but its path is not parsed as it; and another key has the same path. -/
theorem slash_in_value :
    CheckedParameters.checkedFrom oneParameter sampleRequired = .ok oneChecked ∧
      ¬ (.keyDir (.fromBaseTargetParams sampleBase sampleTarget ⟨5⟩ oneChecked) : OutputSubdir sampleChrono).RoundTrips ∧
      CheckedParameters.checkedFrom twoParameters sampleRequired = .ok twoChecked ∧ twoParameters ≠ oneParameter ∧
      (KeyDir.fromBaseTargetParams sampleBase sampleTarget ⟨5⟩ twoChecked).toPath =
        (KeyDir.fromBaseTargetParams sampleBase sampleTarget ⟨5⟩ oneChecked).toPath := by
  refine ⟨checkedFrom_one, fun hround => ?_, checkedFrom_two, by decide +kernel, ?_⟩
  · have hsafe : PathSafe sampleTarget oneChecked.keyvals := pathSafe_of_roundTrips rfl hround
    exact (hsafe.segments (envVarA, "1/B=2") List.mem_cons_self).2 (by decide +kernel)
  · rw [KeyDir.toPath_fromBaseTargetParams, KeyDir.toPath_fromBaseTargetParams, ParametersDir.toPath_new,
      ParametersDir.toPath_new]
    rfl

end Evobench.Run

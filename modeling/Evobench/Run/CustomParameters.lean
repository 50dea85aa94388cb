import Evobench.Library.SortedMap
import Evobench.Run.BenchmarkingJob
import Evobench.Run.OsString
import Mathlib.Data.String.Basic

/-!
# Custom parameters

Custom parameters are passed on as environment variables to the benchmarked program, and are part of the path to its results.
The configuration says which ones there are, and the type of each. `CheckedParameters.checkedFrom` checks the values that are
given, and keeps them as they are (`CheckedParameters.keyvals_of_checkedFrom`).

Names are checked when they are read (`AllowedEnvVar.fromStr`), and so are names of directories
(`ProperDirname.fromStr`).
-/

namespace Evobench.Run

open Library KeyValFs

/-! ### Names of directories -/

/-- `has_extension` -/
def hasExtension (v : String) : Bool := (Path.ofText (OsString.ofChars v.toList)).extension.isSome

/-- `is_proper_dirname` -/
def isProperDirname (v : String) : Bool := isProperFilename v && !hasExtension v

/-- A text that is no proper name. -/
inductive ProperNameError where
  /-- a file name (not path), must not contain '/', '\n', '\0', and must not be ".", "..", the empty string, or longer than 255
  bytes -/
  | filename
  /-- The same, and not have a file extension. -/
  | dirname
deriving DecidableEq

/-- The name of a directory. -/
structure ProperDirname where
  /-- The name. -/
  name : String
  /-- It is proper. -/
  proper : isProperDirname name = true
deriving DecidableEq

/-- `from_str` -/
def ProperDirname.fromStr (v : String) : Except ProperNameError ProperDirname :=
  if h : isProperDirname v = true then .ok ⟨v, h⟩ else .error .dirname

/-- A proper name can be the name of a file. -/
theorem isFileName_of_isProperFilename {v : String} (h : isProperFilename v = true) :
    IsFileName (OsString.ofChars v.toList) := by
  have hof : ∀ cs : List Char, v.toList = cs → v = String.ofList cs := by
    rintro cs rfl
    exact String.ofList_toList.symm
  simp only [isProperFilename, Bool.not_eq_true', Bool.or_eq_false_iff, beq_eq_false_iff_ne, List.contains_eq_mem,
    decide_eq_false_iff_not] at h
  obtain ⟨⟨⟨⟨⟨⟨hempty, hdot⟩, hdots⟩, hslash⟩, -⟩, -⟩, -⟩ := h
  rw [OsString.isFileName_ofChars]
  exact ⟨fun he => hempty (hof _ he), fun he => hdot (hof _ he), fun he => hdots (hof _ he), hslash⟩

/-! ### Names of environment variables -/

/-- The environment variables that are set by the tools. -/
def evobenchEnvVars : List String := ["EVOBENCH_LOG", "BENCH_OUTPUT_LOG", "COMMIT_ID", "COMMIT_TAGS", "DATASET_DIR"]

/-- `is_evobench_env_var` -/
def isEvobenchEnvVar (s : String) : Bool := evobenchEnvVars.contains s

/-- `MAX_ENV_VAR_NAME_LEN`: max allowed variable name length in UTF-8 bytes -/
def maxEnvVarNameLen : ℕ := 80

/-- Why a text cannot be the name of an environment variable. -/
inductive EnvVarError where
  /-- null characters are not allowed in environment variable names -/
  | nullCharacter
  /-- '=' characters are not allowed in environment variable names -/
  | equalsSign
  /-- environment variable names must not be longer than 80 bytes -/
  | tooLong
  /-- The variable is reserved. -/
  | reserved (s : String)
deriving DecidableEq

/-- The name of an environment variable (`AllowedEnvVar<AllowableCustomEnvVar>`). -/
structure AllowedEnvVar where
  /-- The name. -/
  name : String
  /-- It does not contain null characters. -/
  noNull : '\x00' ∉ name.toList
  /-- It does not contain equals signs. -/
  noEquals : '=' ∉ name.toList
  /-- It is not too long. -/
  short : byteLen name ≤ maxEnvVarNameLen
  /-- It is not set by the tools. -/
  notReserved : isEvobenchEnvVar name = false
deriving DecidableEq

namespace AllowedEnvVar

/-- `from_str` -/
def fromStr (s : String) : Except EnvVarError AllowedEnvVar :=
  if hnull : '\x00' ∈ s.toList then .error .nullCharacter
  else if hequals : '=' ∈ s.toList then .error .equalsSign
  else if hlong : byteLen s > maxEnvVarNameLen then .error .tooLong
  else if hreserved : isEvobenchEnvVar s = false then .ok ⟨s, hnull, hequals, Nat.le_of_not_gt hlong, hreserved⟩
  else .error (.reserved s)

theorem name_injective : Function.Injective name := by
  intro a b h
  cases a
  cases b
  cases h
  rfl

/-- Names are ordered as texts. -/
instance : LinearOrder AllowedEnvVar := LinearOrder.lift' name name_injective

/-- An allowed name is read back. -/
theorem fromStr_name (key : AllowedEnvVar) : fromStr key.name = .ok key := by
  rw [fromStr, dif_neg key.noNull, dif_neg key.noEquals, dif_neg (Nat.not_lt.2 key.short), dif_pos key.notReserved]

theorem name_of_fromStr {s : String} {key : AllowedEnvVar} (h : fromStr s = .ok key) : key.name = s := by
  unfold fromStr at h
  split_ifs at h
  cases h
  rfl

end AllowedEnvVar

/-! ### Values -/

/-- Why a value does not have its type. -/
inductive CustomParameterValueError where
  /-- custom parameter values may not contain null characters -/
  | nullCharacter
  /-- It is no proper name. -/
  | expecting (e : ProperNameError)
  /-- string not valid as a boolean custom parameter, expecting "0" or "1" -/
  | notBool (value : String)
  /-- It is no number in the range of the type. -/
  | notNumber (value : String)
deriving DecidableEq

/-- What is wrong with a value of the type. -/
def CustomParameterValue.check (type : CustomParameterType) (value : String) : Option CustomParameterValueError :=
  match type with
  | .string => if value.toList.contains '\x00' then some .nullCharacter else none
  | .filename => if isProperFilename value then none else some (.expecting .filename)
  | .dirname => if isProperDirname value then none else some (.expecting .dirname)
  | .bool => if value == "0" || value == "1" then none else some (.notBool value)
  | .nonZeroU32 =>
    match parseUInt UInt32.size value.toList with
    | some n => if n.val = 0 then some (.notNumber value) else none
    | none => some (.notNumber value)
  | .u32 => if (parseUInt UInt32.size value.toList).isSome then none else some (.notNumber value)

/-- `checked_from` -/
def CustomParameterValue.checkedFrom (type : CustomParameterType) (value : String) :
    Except CustomParameterValueError CustomParameterValue :=
  match check type value with
  | some e => .error e
  | none => .ok ⟨type, value⟩

theorem CustomParameterValue.value_of_checkedFrom {type : CustomParameterType} {value : String} {val : CustomParameterValue}
    (h : checkedFrom type value = .ok val) : val.value = value := by
  unfold checkedFrom at h
  split at h
  · cases h
  · cases h
    rfl

/-! ### Parameters -/

/-- A parameter in the configuration. -/
structure AllowedCustomParameter where
  /-- It must be given. -/
  required : Bool
  /-- The type of its values. -/
  type : CustomParameterType
deriving DecidableEq

/-- Why parameters are refused. -/
inductive CustomParametersError where
  /-- duplicated custom parameter with name `key` -/
  | duplicated (key : AllowedEnvVar)
  /-- The name cannot be the name of an environment variable. -/
  | name (e : EnvVarError)
  /-- for variable `key` -/
  | value (key : AllowedEnvVar) (e : CustomParameterValueError)
  /-- invalid custom parameter name `key` (valid are: …) -/
  | invalidName (key : AllowedEnvVar) (validParams : List AllowedEnvVar)
  /-- missing custom parameter with name `key` -/
  | missing (key : AllowedEnvVar)
deriving DecidableEq

/-- `CustomParameters`: custom key/value pairings, passed on as environment variables -/
abbrev CheckedParameters := SortedMap AllowedEnvVar CustomParameterValue

/-- `UncheckedCustomParameters`: the same, but not checked against a config -/
abbrev UncheckedCustomParameters := SortedMap AllowedEnvVar String

namespace CheckedParameters

/-- Check the given parameters one after the other. -/
def checkAll (customParametersRequired : SortedMap AllowedEnvVar AllowedCustomParameter) (res : CheckedParameters) :
    List (AllowedEnvVar × String) → Except CustomParametersError CheckedParameters
  | [] => .ok res
  | (key, value) :: keyvals =>
    if res.contains key then .error (.duplicated key)
    else
      match AllowedEnvVar.fromStr key.name with
      | .error e => .error (.name e)
      | .ok allowableKey =>
        match customParametersRequired.get? allowableKey with
        | none => .error (.invalidName key (customParametersRequired.entries.map Prod.fst))
        | some allowedCustomParameter =>
          match CustomParameterValue.checkedFrom allowedCustomParameter.type value with
          | .error e => .error (.value key e)
          | .ok val => checkAll customParametersRequired (res.insert key val) keyvals

/-- `checked_from` -/
def checkedFrom (keyvals : UncheckedCustomParameters)
    (customParametersRequired : SortedMap AllowedEnvVar AllowedCustomParameter) :
    Except CustomParametersError CheckedParameters :=
  match checkAll customParametersRequired .empty keyvals.entries with
  | .error e => .error e
  | .ok res =>
    match customParametersRequired.entries.find? fun e => e.2.required && !res.contains e.1 with
    | some (key, _) => .error (.missing key)
    | none => .ok res

/-- `keyvals` -/
def keyvals (params : CheckedParameters) : UncheckedCustomParameters := params.map CustomParameterValue.value

theorem checkAll_ok {customParametersRequired : SortedMap AllowedEnvVar AllowedCustomParameter} {res res' : CheckedParameters}
    {keyvals : List (AllowedEnvVar × String)} (h : checkAll customParametersRequired res keyvals = .ok res') :
    ∃ l : List (AllowedEnvVar × CustomParameterValue),
      l.map (fun e => (e.1, e.2.value)) = keyvals ∧ res' = res.insertAll l := by
  induction keyvals generalizing res with
  | nil =>
    cases h
    exact ⟨[], rfl, rfl⟩
  | cons keyval keyvals ih =>
    obtain ⟨key, value⟩ := keyval
    rw [checkAll, AllowedEnvVar.fromStr_name] at h
    split at h
    · cases h
    · dsimp only at h
      split at h
      · cases h
      · split at h
        · cases h
        · next val hval =>
          obtain ⟨l, hl, hres⟩ := ih h
          refine ⟨(key, val) :: l, ?_, hres⟩
          rw [List.map_cons, hl, CustomParameterValue.value_of_checkedFrom hval]

/-- **The given values are kept as they are.** -/
theorem keyvals_of_checkedFrom {keyvals : UncheckedCustomParameters}
    {customParametersRequired : SortedMap AllowedEnvVar AllowedCustomParameter} {params : CheckedParameters}
    (h : checkedFrom keyvals customParametersRequired = .ok params) : params.keyvals = keyvals := by
  unfold checkedFrom at h
  split at h
  · cases h
  · next res hres =>
    split at h
    · cases h
    · cases h
      obtain ⟨l, hl, rfl⟩ := checkAll_ok hres
      have hkeys : (l.map Prod.fst).Nodup := by
        have hnodup := keyvals.nodup_keys
        rwa [← hl, List.map_map] at hnodup
      apply SortedMap.ext_of_mem
      intro e
      rw [← hl]
      simp only [CheckedParameters.keyvals, SortedMap.map, List.mem_map]
      refine exists_congr fun e' => and_congr_left fun _ => ?_
      rw [SortedMap.mem_insertAll hkeys fun _ he => absurd he List.not_mem_nil]
      simp [SortedMap.empty]

end CheckedParameters

end Evobench.Run

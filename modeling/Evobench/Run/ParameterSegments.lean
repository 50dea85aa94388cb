import Evobench.Run.OutputPaths

/-!
# The segments of custom parameters

`extend_path` pushes a segment `key=value` for each custom parameter. A comment there says that no segment can be invalid: the
names and the values would have been checked for that when they were made. `properSegments_iff` says when it is so: the names,
and the values that are strings, are not checked for slashes, and the length of values is not checked at all.
-/

namespace Evobench.Run

open Library KeyValFs

/-! ### What has been checked -/

theorem byteLen_append (s t : String) : byteLen (s ++ t) = byteLen s + byteLen t := by
  rw [byteLen, byteLen, byteLen, String.toList_append, List.map_append, List.sum_append]

theorem byteLen_segment (key value : String) : byteLen (key ++ "=" ++ value) = byteLen key + 1 + byteLen value := by
  rw [byteLen_append, byteLen_append]
  rfl

/-- A proper name has no slashes. -/
theorem no_slash_of_isProperFilename {v : String} (h : isProperFilename v = true) : '/' ∉ v.toList :=
  (OsString.isFileName_ofChars.1 (isFileName_of_isProperFilename h)).2.2.2

/-- A number has no slashes. -/
theorem no_slash_of_parseUInt {bound : ℕ} {cs : List Char} {n : Fin bound} (h : parseUInt bound cs = some n) : '/' ∉ cs := by
  obtain ⟨digits, hcs, hdigits⟩ := digits_of_parseUInt h
  have hnot : '/' ∉ digits := by
    intro hmem
    have hdigit := hdigits '/' hmem
    cases hdigit
  rcases hcs with rfl | rfl
  · exact hnot
  · intro hmem
    rcases List.mem_cons.1 hmem with heq | hmem
    · exact absurd heq (by decide)
    · exact hnot hmem

/-- **The check of a value** excludes slashes for all types but strings. -/
theorem no_slash_of_check {type : CustomParameterType} {value : String} (h : CustomParameterValue.check type value = none)
    (htype : type ≠ .string) : '/' ∉ value.toList := by
  cases type with
  | string => exact absurd rfl htype
  | filename =>
    rw [CustomParameterValue.check] at h
    split_ifs at h with hproper
    exact no_slash_of_isProperFilename hproper
  | dirname =>
    rw [CustomParameterValue.check] at h
    split_ifs at h with hproper
    exact no_slash_of_isProperFilename (Bool.and_eq_true_iff.1 hproper).1
  | bool =>
    rw [CustomParameterValue.check] at h
    split_ifs at h with hbool
    rcases Bool.or_eq_true_iff.1 hbool with hzero | hone
    · rw [beq_iff_eq.1 hzero]
      decide
    · rw [beq_iff_eq.1 hone]
      decide
  | nonZeroU32 =>
    rw [CustomParameterValue.check] at h
    cases hparse : parseUInt UInt32.size value.toList with
    | some n => exact no_slash_of_parseUInt hparse
    | none =>
      rw [hparse] at h
      cases h
  | u32 =>
    rw [CustomParameterValue.check] at h
    split_ifs at h with hparse
    obtain ⟨n, hn⟩ := Option.isSome_iff_exists.1 hparse
    exact no_slash_of_parseUInt hn

namespace CheckedParameters

theorem check_of_checkAll {customParametersRequired : SortedMap AllowedEnvVar AllowedCustomParameter}
    {res res' : CheckedParameters} {keyvals : List (AllowedEnvVar × String)}
    (h : checkAll customParametersRequired res keyvals = .ok res')
    (hres : ∀ e ∈ res.entries, CustomParameterValue.check e.2.type e.2.value = none) :
    ∀ e ∈ res'.entries, CustomParameterValue.check e.2.type e.2.value = none := by
  induction keyvals generalizing res with
  | nil =>
    cases h
    exact hres
  | cons keyval keyvals ih =>
    obtain ⟨key, value⟩ := keyval
    rw [checkAll, AllowedEnvVar.fromStr_name] at h
    split at h
    · cases h
    · dsimp only at h
      split at h
      · cases h
      · split at h
        · cases h
        · next allowed _ val hval =>
          refine ih h fun e he => ?_
          rcases SortedMap.mem_insert.1 he with rfl | ⟨he, -⟩
          · rw [CustomParameterValue.checkedFrom] at hval
            split at hval
            · cases hval
            · next hcheck =>
              cases hval
              exact hcheck
          · exact hres e he

/-- All values that come out have been checked. -/
theorem check_of_checkedFrom {keyvals : UncheckedCustomParameters}
    {customParametersRequired : SortedMap AllowedEnvVar AllowedCustomParameter} {params : CheckedParameters}
    (h : checkedFrom keyvals customParametersRequired = .ok params) :
    ∀ e ∈ params.entries, CustomParameterValue.check e.2.type e.2.value = none := by
  unfold checkedFrom at h
  split at h
  · cases h
  · next res hres =>
    split at h
    · cases h
    · cases h
      exact check_of_checkAll hres fun e he => absurd he List.not_mem_nil

/-! ### Segments -/

/-- The segment of a parameter. -/
def segment (e : AllowedEnvVar × String) : OsString := OsString.ofChars (e.1.name ++ "=" ++ e.2).toList

/-- **All parameters make proper segments.** -/
structure ProperSegments (params : CheckedParameters) : Prop where
  /-- Each segment is a normal component of a path. -/
  normal : ∀ e ∈ params.keyvals.entries, IsFileName (segment e)
  /-- It has at most 255 bytes. -/
  short : ∀ e ∈ params.keyvals.entries, byteLen (e.1.name ++ "=" ++ e.2) ≤ 255
  /-- The path goes down from the given one, with one component for each parameter. -/
  below : ∀ path : FilePath, ∃ names : List (FileName (Char ⊕ UInt8)),
    names.map FileName.text = params.keyvals.entries.map segment ∧
      extendPath path params.keyvals.entries = { path with steps := path.steps ++ names.map .normal }

/-- Normal components are added to the path. -/
theorem extendPath_eq {keyVals : List (AllowedEnvVar × String)} (h : ∀ e ∈ keyVals, IsFileName (segment e)) (path : FilePath) :
    ∃ names : List (FileName (Char ⊕ UInt8)), names.map FileName.text = keyVals.map segment ∧
      extendPath path keyVals = { path with steps := path.steps ++ names.map .normal } := by
  induction keyVals generalizing path with
  | nil => exact ⟨[], rfl, by rw [List.map_nil, List.append_nil]; rfl⟩
  | cons e keyVals ih =>
    obtain ⟨hname, hnames⟩ := List.forall_mem_cons.1 h
    obtain ⟨names, htexts, heq⟩ := ih hnames (path.child ⟨segment e, hname⟩)
    refine ⟨⟨segment e, hname⟩ :: names, by rw [List.map_cons, List.map_cons, htexts], ?_⟩
    show extendPath (pushStr path (e.1.name ++ "=" ++ e.2)) keyVals = _
    rw [pushStr_eq_child path hname]
    refine heq.trans ?_
    rw [Path.child, List.append_assoc]
    rfl

theorem slash_mem_ofChars {cs : List Char} : (PathChar.slash : Char ⊕ UInt8) ∈ OsString.ofChars cs ↔ '/' ∈ cs := by
  show Sum.inl '/' ∈ cs.map Sum.inl ↔ '/' ∈ cs
  rw [List.mem_map_of_injective Sum.inl_injective]

/-- **When all parameters make proper segments**: no name and no string has a slash, and no segment is too long. -/
theorem properSegments_iff {keyvals : UncheckedCustomParameters}
    {customParametersRequired : SortedMap AllowedEnvVar AllowedCustomParameter} {params : CheckedParameters}
    (h : checkedFrom keyvals customParametersRequired = .ok params) :
    ProperSegments params ↔ ∀ e ∈ params.entries, '/' ∉ e.1.name.toList ∧ (e.2.type = .string → '/' ∉ e.2.value.toList) ∧
      byteLen e.1.name + 1 + byteLen e.2.value ≤ 255 := by
  have hmem : ∀ e ∈ params.entries, (e.1, e.2.value) ∈ params.keyvals.entries := fun e he => List.mem_map_of_mem he
  constructor
  · intro hproper e he
    have hnormal := hproper.normal _ (hmem e he)
    have hshort := hproper.short _ (hmem e he)
    rw [byteLen_segment] at hshort
    have hslash : '/' ∉ (e.1.name ++ "=" ++ e.2.value).toList := fun hin => hnormal.2.2.2 (slash_mem_ofChars.2 hin)
    rw [toList_segment] at hslash
    refine ⟨fun hin => hslash (List.mem_append_left _ hin), fun _ hin => hslash ?_, hshort⟩
    exact List.mem_append_right _ (List.mem_cons_of_mem _ hin)
  · intro hall
    have hnormal : ∀ e ∈ params.keyvals.entries, IsFileName (segment e) := by
      intro kv hkv
      obtain ⟨e, he, rfl⟩ := List.mem_map.1 hkv
      obtain ⟨hkey, hstring, -⟩ := hall e he
      refine isFileName_segment hkey ?_
      by_cases htype : e.2.type = .string
      · exact hstring htype
      · exact no_slash_of_check (check_of_checkedFrom h e he) htype
    refine ⟨hnormal, fun kv hkv => ?_, extendPath_eq hnormal⟩
    obtain ⟨e, he, rfl⟩ := List.mem_map.1 hkv
    rw [byteLen_segment]
    exact (hall e he).2.2

/-- The parameter `A`, with a value. -/
def parameterA (val : CustomParameterValue) : CheckedParameters := .insert .empty envVarA val

/-- The configuration in which `A` has a type. -/
def configA (type : CustomParameterType) : SortedMap AllowedEnvVar AllowedCustomParameter :=
  .insert .empty envVarA ⟨true, type⟩

/-- A number. -/
theorem properSegments_iff_sample : ProperSegments (parameterA ⟨.u32, "5"⟩) := by
  have haccepted : checkedFrom (.insert .empty envVarA "5") (configA .u32) = .ok (parameterA ⟨.u32, "5"⟩) := by
    decide +kernel
  exact (properSegments_iff haccepted).2 (by decide +kernel)

/-- A string that leads elsewhere: it is accepted. -/
theorem extendPath_elsewhere :
    checkedFrom (.insert .empty envVarA "x/../../y") (configA .string) = .ok (parameterA ⟨.string, "x/../../y"⟩) ∧
    ¬ ProperSegments (parameterA ⟨.string, "x/../../y"⟩) ∧
    extendPath sampleBase (parameterA ⟨.string, "x/../../y"⟩).keyvals.entries =
      pushStr (pushStr (pushStr (pushStr sampleBase "A=x") "..") "..") "y" := by
  refine ⟨by decide +kernel, fun h => ?_, by decide +kernel⟩
  have hnormal := h.normal (envVarA, "x/../../y") (by decide +kernel)
  exact hnormal.2.2.2 (slash_mem_ofChars.2 (by decide +kernel))

end CheckedParameters

end Evobench.Run

import Evobench.Evaluator.LogData
import Evobench.Library.Json
import Evobench.Library.Utf8

/-!
# Messages as JSON

How the messages of a log are read from JSON values: an object with one member for each variant, and structs as objects whose
members are the fields, in any order. Unknown fields are denied, no field may be repeated, and only the fields of type
`Option` may be missing.
-/

namespace Evobench.Evaluator

open Library

/-! ### Values of fields -/

/-- A string. -/
def stringOfJson : Json → Option String
  | .string s => some s
  | _ => none

/-- `u32` -/
def u32OfJson : Json → Option UInt32
  | .number n => if 0 ≤ n ∧ n < 2 ^ 32 then some (UInt32.ofNat n.toNat) else none
  | _ => none

/-- `u64` -/
def u64OfJson : Json → Option UInt64
  | .number n => if 0 ≤ n ∧ n < 2 ^ 64 then some (UInt64.ofNat n.toNat) else none
  | _ => none

/-- `i64` -/
def i64OfJson : Json → Option Int64
  | .number n => if -2 ^ 63 ≤ n ∧ n < 2 ^ 63 then some (Int64.ofInt n) else none
  | _ => none

/-- The members of a struct with these fields: `deny_unknown_fields`. -/
def fieldsOfJson (fields : List String) : Json → Option Members
  | .object members => if members.keys.Nodup ∧ ∀ key ∈ members.keys, key ∈ fields then some members else none
  | _ => none

/-- A field that has to be there. -/
def field {α : Type} (members : Members) (key : String) (read : Json → Option α) : Option α :=
  (members.get? key).bind read

/-- A field that may be missing. -/
def optionalField {α : Type} (members : Members) (key : String) (read : Json → Option α) : Option (Option α) :=
  match members.get? key with
  | none => some none
  | some value => (read value).map some

/-! ### Structs -/

/-- `NanoTime` -/
def NanoTime.ofJson (json : Json) : Option NanoTime := do
  let members ← fieldsOfJson ["sec", "nsec"] json
  let sec ← field members "sec" u32OfJson
  let nsec ← field members "nsec" u32OfJson
  pure ⟨sec, nsec⟩

/-- `MicroTime` -/
def MicroTime.ofJson (json : Json) : Option MicroTime := do
  let members ← fieldsOfJson ["sec", "usec"] json
  let sec ← field members "sec" u32OfJson
  let usec ← field members "usec" u32OfJson
  pure ⟨sec, usec⟩

/-- The fields of a `Timing`. -/
def timingFields : List String :=
  ["pn", "pid", "tid", "n", "r", "u", "s", "maxrss", "minflt", "majflt", "inblock", "oublock", "nvcsw", "nivcsw"]

/-- `Timing` -/
def Timing.ofJson (json : Json) : Option Timing := do
  let members ← fieldsOfJson timingFields json
  let pn ← field members "pn" stringOfJson
  let pid ← field members "pid" u64OfJson
  let tid ← field members "tid" u64OfJson
  let n ← optionalField members "n" u32OfJson
  let r ← field members "r" NanoTime.ofJson
  let u ← field members "u" MicroTime.ofJson
  let s ← field members "s" MicroTime.ofJson
  let maxrss ← optionalField members "maxrss" i64OfJson
  let minflt ← optionalField members "minflt" i64OfJson
  let majflt ← optionalField members "majflt" i64OfJson
  let inblock ← optionalField members "inblock" i64OfJson
  let oublock ← optionalField members "oublock" i64OfJson
  let nvcsw ← optionalField members "nvcsw" i64OfJson
  let nivcsw ← optionalField members "nivcsw" i64OfJson
  pure ⟨pn, pid, tid, n, r, u, s, maxrss, minflt, majflt, inblock, oublock, nvcsw, nivcsw⟩

/-- `KeyValue` -/
def KeyValue.ofJson (json : Json) : Option KeyValue := do
  let members ← fieldsOfJson ["tid", "k", "v"] json
  let tid ← field members "tid" u64OfJson
  let k ← field members "k" stringOfJson
  let v ← field members "v" stringOfJson
  pure ⟨tid, k, v⟩

/-- `UName` -/
def UName.ofJson (json : Json) : Option UName := do
  let members ← fieldsOfJson ["sysname", "nodename", "release", "version", "machine"] json
  let sysname ← field members "sysname" stringOfJson
  let nodename ← field members "nodename" stringOfJson
  let release ← field members "release" stringOfJson
  let version ← field members "version" stringOfJson
  let machine ← field members "machine" stringOfJson
  pure ⟨sysname, nodename, release, version, machine⟩

/-- `Metadata` -/
def Metadata.ofJson (json : Json) : Option Metadata := do
  let members ← fieldsOfJson ["hostname", "username", "uname", "compiler"] json
  let hostname ← field members "hostname" stringOfJson
  let username ← field members "username" stringOfJson
  let uname ← field members "uname" UName.ofJson
  let compiler ← field members "compiler" stringOfJson
  pure ⟨hostname, username, uname, compiler⟩

/-! ### Messages -/

/-- The variant of a kind of point. -/
def PointKind.variant : PointKind → String
  | .tStart => "TStart"
  | .t => "T"
  | .ts => "TS"
  | .te => "TE"
  | .tThreadStart => "TThreadStart"
  | .tThreadEnd => "TThreadEnd"
  | .tEnd => "TEnd"
  | .tio => "TIO"

/-- The kinds of points, in the order of the source. -/
def PointKind.all : List PointKind := [.tStart, .t, .ts, .te, .tThreadStart, .tThreadEnd, .tEnd, .tio]

/-- The kind of point of a variant. -/
def PointKind.ofVariant (variant : String) : Option PointKind := PointKind.all.find? fun kind => kind.variant = variant

/-- The message of a point. -/
def LogMessage.point : PointKind → Timing → LogMessage
  | .tStart => tStart
  | .t => t
  | .ts => ts
  | .te => te
  | .tThreadStart => tThreadStart
  | .tThreadEnd => tThreadEnd
  | .tEnd => tEnd
  | .tio => tio

/-- The variant `Start`. -/
def startOfJson (json : Json) : Option LogMessage := do
  let members ← fieldsOfJson ["evobench_log_version", "evobench_version"] json
  let evobenchLogVersion ← field members "evobench_log_version" u32OfJson
  let evobenchVersion ← field members "evobench_version" stringOfJson
  pure (.start evobenchLogVersion evobenchVersion)

/-- `LogMessage` -/
def LogMessage.ofJson : Json → Option LogMessage
  | .object (.cons variant value .nil) =>
    if variant = "Start" then startOfJson value
    else if variant = "Metadata" then (Metadata.ofJson value).map metadata
    else if variant = "KeyValue" then (KeyValue.ofJson value).map keyValue
    else (PointKind.ofVariant variant).bind fun kind => (Timing.ofJson value).map (point kind)
  | _ => none

theorem PointKind.ofVariant_variant (kind : PointKind) : PointKind.ofVariant kind.variant = some kind := by
  cases kind with
  | _ => decide

theorem LogMessage.optDataMessage_point (kind : PointKind) (timing : Timing) :
    (LogMessage.point kind timing).optDataMessage = some (.timing kind timing) := by
  cases kind with
  | _ => rfl

/-- A point is read by its variant. -/
theorem LogMessage.ofJson_point (kind : PointKind) (value : Json) :
    LogMessage.ofJson (.object (.cons kind.variant value .nil)) = (Timing.ofJson value).map (point kind) := by
  have hstart : kind.variant ≠ "Start" ∧ kind.variant ≠ "Metadata" ∧ kind.variant ≠ "KeyValue" := by
    cases kind with
    | _ => decide
  rw [LogMessage.ofJson, if_neg hstart.1, if_neg hstart.2.1, if_neg hstart.2.2, PointKind.ofVariant_variant,
    Option.bind_some]

/-! ### The parser of a line -/

/-- What `serde_json` is documented to do with a line: the JSON text of a value is read as the message that the value is, if
it is one; blank text is no message, and white space after a message is of no significance. -/
structure ReadsJson (parse : List UInt8 → Option LogMessage) : Prop where
  /-- JSON texts. -/
  json : ∀ value : Json, parse (utf8 value.write) = LogMessage.ofJson value
  /-- A blank text is no message. -/
  blank : ∀ line, (∀ b ∈ line, isAsciiWhitespace b = true) → parse line = none
  /-- White space after a message is of no significance. -/
  trailing : ∀ line msg, parse line = some msg → parse (trimAsciiEnd line) = some msg

open Classical in
/-- A parser that reads compact JSON texts only. -/
noncomputable def parseCompact (line : List UInt8) : Option LogMessage :=
  if h : ∃ value : Json, line = utf8 value.write then LogMessage.ofJson h.choose else none

theorem parseCompact_write (value : Json) : parseCompact (utf8 value.write) = LogMessage.ofJson value := by
  have h : ∃ value' : Json, utf8 value.write = utf8 value'.write := ⟨value, rfl⟩
  have hchoose : h.choose = value := Json.write_injective (utf8_injective h.choose_spec.symm)
  rw [parseCompact, dif_pos h, hchoose]

/-- The text of an object ends with a brace. -/
theorem exists_write_object (first : Bool) (ms : Members) : ∃ cs, ms.write first = cs ++ ['}'] := by
  cases ms with
  | nil => exact ⟨[], rfl⟩
  | cons key value rest =>
    obtain ⟨cs, hcs⟩ := exists_write_object false rest
    refine ⟨(if first then [] else [',']) ++ (CompactJson.quote key.toList ++ (':' :: (value.write ++ cs))), ?_⟩
    simp only [Members.write, hcs, List.append_assoc, List.cons_append]

/-- There is no white space at the end of an object. -/
theorem trimAsciiEnd_object (members : Members) :
    trimAsciiEnd (utf8 (Json.object members).write) = utf8 (Json.object members).write := by
  obtain ⟨cs, hcs⟩ := exists_write_object true members
  have hend : utf8 (Json.object members).write = utf8 ('{' :: cs) ++ [0x7d] := by
    rw [Json.write, hcs, ← List.cons_append, utf8_append]
    rfl
  rw [hend, trimAsciiEnd, List.rdropWhile_concat_neg]
  decide

/-- What is read is the text of an object. -/
theorem exists_object_of_parseCompact {line : List UInt8} {msg : LogMessage} (h : parseCompact line = some msg) :
    ∃ members : Members, line = utf8 ('{' :: members.write true) := by
  unfold parseCompact at h
  split at h
  · next hvalue =>
    obtain hspec := hvalue.choose_spec
    generalize hvalue.choose = value at h hspec
    cases value with
    | string s => cases h
    | number n => cases h
    | object members => exact ⟨members, hspec⟩
  · cases h

theorem readsJson_parseCompact : ReadsJson parseCompact where
  json := parseCompact_write
  blank line hblank := by
    rw [Option.eq_none_iff_forall_ne_some]
    intro msg h
    obtain ⟨members, rfl⟩ := exists_object_of_parseCompact h
    have hbrace : isAsciiWhitespace 0x7b = true := hblank 0x7b List.mem_cons_self
    cases hbrace
  trailing line msg h := by
    obtain ⟨members, rfl⟩ := exists_object_of_parseCompact h
    have htrim := trimAsciiEnd_object members
    rw [Json.write] at htrim
    rw [htrim, h]

end Evobench.Evaluator

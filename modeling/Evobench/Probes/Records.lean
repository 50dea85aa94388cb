import Evobench.Evaluator.MessageJson
import Evobench.Library.Lines
import Evobench.Probes.JsPrint
import Evobench.Probes.ScopeEveryN

/-!
# The records of the probes

What the probes write for a record, byte by byte, and what the evaluator reads.

A record is the JSON text of an object, and a line break (`Line.text_eq`), provided its strings are printed as they are: they
are ASCII, or `char` is unsigned. It is read as the message that it stands for (`Line.ofJson_json`), unless a time of the
operating system does not fit into 32 bits.

## Honest scope

This is how the probes are compiled for Linux. Streams have the classic locale, and the operating system tells what it is
asked for.
-/

namespace Evobench.Probes

open Library Evaluator

/-! ### What is logged -/

/-- The id of a process or of a thread. -/
abbrev Pid := Fin (2 ^ 31)

/-- `timespec` -/
structure Timespec where
  /-- Seconds. -/
  tvSec : Int64
  /-- Nanoseconds. -/
  tvNsec : Int64
deriving DecidableEq

/-- `timeval` -/
structure Timeval where
  /-- Seconds. -/
  tvSec : Int64
  /-- Microseconds. -/
  tvUsec : Int64
deriving DecidableEq

/-- What `log_resource_usage` is told by the operating system. -/
structure Usage where
  /-- The time. -/
  t : Timespec
  /-- User time. -/
  utime : Timeval
  /-- System time. -/
  stime : Timeval
  /-- Maximum resident set size. -/
  ruMaxrss : Int64
  /-- Page faults without I/O. -/
  ruMinflt : Int64
  /-- Page faults with I/O. -/
  ruMajflt : Int64
  /-- Block inputs. -/
  ruInblock : Int64
  /-- Block outputs. -/
  ruOublock : Int64
  /-- Voluntary context switches. -/
  ruNvcsw : Int64
  /-- Involuntary context switches. -/
  ruNivcsw : Int64
deriving DecidableEq

/-- A call that appends a record to a buffer. -/
inductive Call where
  /-- `log_start`, the first record -/
  | start
  /-- `log_start`, the second record -/
  | metadata (metadata : Metadata)
  /-- `log_resource_usage` -/
  | resourceUsage (record : Record)
  /-- `_log_key_value` -/
  | keyValue (key value : String)
deriving DecidableEq

/-- A record, with the thread that has logged it. -/
structure Line where
  /-- `our_get_thread_id` -/
  tid : Pid
  /-- The call. -/
  call : Call
  /-- What the operating system has told, if it has been asked. -/
  usage : Usage
deriving DecidableEq

/-- `EVOBENCH_LOG_VERSION` -/
def evobenchLogVersion : UInt32 := 1

/-- `EVOBENCH_VERSION` -/
def evobenchVersion : String := "v0.1.1"

/-! ### What is written -/

/-- `OBJ` -/
def obj (expr : List UInt8) : List UInt8 := ascii ['{'] ++ (expr ++ ascii ['}'])

/-- `COMMA` -/
def comma : List UInt8 := ascii [',']

/-- `js_print` on integers, and `js_print_slow` -/
def printInt (value : ℤ) : List UInt8 := ascii (decimal value)

section Printing

variable (signed : Bool)

/-- `ATOM` of a string -/
def atom (s : String) : List UInt8 := jsPrint signed (utf8 s.toList)

/-- `KV` -/
def kv (key : String) (val : List UInt8) : List UInt8 := atom signed key ++ ascii [':'] ++ val

/-- `js_print` on a `timespec` -/
def printTimespec (t : Timespec) : List UInt8 :=
  obj (kv signed "sec" (printInt t.tvSec.toInt) ++ comma ++ kv signed "nsec" (printInt t.tvNsec.toInt))

/-- `js_print` on a `timeval` -/
def printTimeval (t : Timeval) : List UInt8 :=
  obj (kv signed "sec" (printInt t.tvSec.toInt) ++ comma ++ kv signed "usec" (printInt t.tvUsec.toInt))

/-- `log_start`: what identifies the format -/
def logStart : List UInt8 :=
  obj (kv signed "Start" (obj (kv signed "evobench_log_version" (printInt evobenchLogVersion.toNat) ++ comma ++
    kv signed "evobench_version" (atom signed evobenchVersion))))

/-- `log_start`: the metadata -/
def logMetadata (m : Metadata) : List UInt8 :=
  obj (kv signed "Metadata" (obj (kv signed "username" (atom signed m.username) ++ comma ++
    kv signed "hostname" (atom signed m.hostname) ++ comma ++
    kv signed "uname" (obj (kv signed "sysname" (atom signed m.uname.sysname) ++ comma ++
      kv signed "nodename" (atom signed m.uname.nodename) ++ comma ++
      kv signed "release" (atom signed m.uname.release) ++ comma ++
      kv signed "version" (atom signed m.uname.version) ++ comma ++
      kv signed "machine" (atom signed m.uname.machine))) ++ comma ++
    kv signed "compiler" (atom signed m.compiler))))

/-- `log_resource_usage` -/
def logResourceUsage (pid tid : Pid) (record : Record) (r : Usage) : List UInt8 :=
  obj (kv signed record.kind.variant (obj (kv signed "pn" (atom signed record.probeName) ++ comma ++
    kv signed "pid" (printInt pid.val) ++ comma ++
    kv signed "tid" (printInt tid.val) ++ comma ++
    kv signed "n" (printInt record.numCalls.toNat) ++ comma ++
    kv signed "r" (printTimespec signed r.t) ++ comma ++
    kv signed "u" (printTimeval signed r.utime) ++ comma ++
    kv signed "s" (printTimeval signed r.stime) ++ comma ++
    kv signed "maxrss" (printInt r.ruMaxrss.toInt) ++ comma ++
    kv signed "minflt" (printInt r.ruMinflt.toInt) ++ comma ++
    kv signed "majflt" (printInt r.ruMajflt.toInt) ++ comma ++
    kv signed "inblock" (printInt r.ruInblock.toInt) ++ comma ++
    kv signed "oublock" (printInt r.ruOublock.toInt) ++ comma ++
    kv signed "nvcsw" (printInt r.ruNvcsw.toInt) ++ comma ++
    kv signed "nivcsw" (printInt r.ruNivcsw.toInt))))

/-- `_log_key_value` -/
def logKeyValue (tid : Pid) (key value : String) : List UInt8 :=
  obj (kv signed "KeyValue" (obj (kv signed "tid" (printInt tid.val) ++ comma ++
    kv signed "k" (atom signed key) ++ comma ++ kv signed "v" (atom signed value))))

/-- The text of a line. -/
def Line.text (pid : Pid) (line : Line) : List UInt8 :=
  match line.call with
  | .start => logStart signed
  | .metadata m => logMetadata signed m
  | .resourceUsage record => logResourceUsage signed pid line.tid record line.usage
  | .keyValue key value => logKeyValue signed line.tid key value

/-- The text of lines: `NEWLINE` after each one. -/
def text (pid : Pid) (lines : List Line) : List UInt8 := unlines newline (lines.map (Line.text signed pid))

end Printing

/-! ### Strings -/

/-- A string is printed as it is. -/
def Plain (signed : Bool) (s : String) : Prop := signed = false ∨ ∀ c ∈ s.toList, c.toNat < 128

instance (signed : Bool) (s : String) : Decidable (Plain signed s) := instDecidableOr

theorem escaped_eq_escape {c : Char} (h : c.toNat < 128) : escaped (UInt8.ofNat c.toNat) = CompactJson.escape c := by
  have hall : ∀ n < 128, escaped (UInt8.ofNat n) = CompactJson.escape (Char.ofNat n) := by decide +kernel
  have hc := hall c.toNat h
  rwa [Char.ofNat_toNat] at hc

/-- A character is printed as it is escaped in compact JSON. -/
theorem flatMap_printChar_encode {signed : Bool} {c : Char} (h : signed = false ∨ c.toNat < 128) :
    (String.utf8EncodeChar c).flatMap (printChar signed) = utf8 (CompactJson.escape c) := by
  by_cases hlt : c.toNat < 128
  · have hbyte : (UInt8.ofNat c.toNat).toNat < 128 := by
      rw [UInt8.toNat_ofNat', Nat.mod_eq_of_lt (by omega)]
      exact hlt
    rw [utf8EncodeChar_of_lt hlt, List.flatMap_singleton, printChar_eq_escaped (.inr hbyte), escaped_eq_escape hlt]
  · obtain rfl := h.resolve_right hlt
    have hprinted := flatMap_printChar_false [c]
    have hescape : CompactJson.escape c = [c] := by
      have hne : ∀ d : Char, d.toNat < 128 → c ≠ d := by
        rintro d hd rfl
        exact hlt hd
      have hcontrol : ¬ c.toNat < 0x20 := by omega
      rw [CompactJson.escape, if_neg (hne _ (by decide)), if_neg (hne _ (by decide)), if_neg (hne _ (by decide)),
        if_neg (hne _ (by decide)), if_neg (hne _ (by decide)), if_neg (hne _ (by decide)), if_neg (hne _ (by decide)),
        if_neg hcontrol]
    rw [utf8_cons, utf8_nil, List.append_nil, List.flatMap_singleton, printed, if_neg hlt] at hprinted
    rw [hprinted, hescape]

/-- **The probes print compact JSON**, if the string is plain. -/
theorem atom_eq {signed : Bool} {s : String} (h : Plain signed s) : atom signed s = utf8 (CompactJson.quote s.toList) := by
  have hchars : ∀ c ∈ s.toList, (String.utf8EncodeChar c).flatMap (printChar signed) = utf8 (CompactJson.escape c) :=
    fun c hc => flatMap_printChar_encode (h.imp_right fun hall => hall c hc)
  have hbody : (utf8 s.toList).flatMap (printChar signed) = utf8 (s.toList.flatMap CompactJson.escape) := by
    rw [utf8_flatMap, utf8, List.flatMap_assoc]
    exact List.flatMap_congr hchars
  rw [atom, jsPrint, hbody, CompactJson.quote, show ascii ['"'] = utf8 ['"'] from rfl, ← utf8_append, ← utf8_append]
  rfl

/-! ### Values -/

mutual

/-- All strings of a value are plain. -/
def AllPlain (signed : Bool) : Json → Prop
  | .string s => Plain signed s
  | .number _ => True
  | .object members => MembersPlain signed members

/-- All strings of members are plain. -/
def MembersPlain (signed : Bool) : Members → Prop
  | .nil => True
  | .cons key value rest => Plain signed key ∧ AllPlain signed value ∧ MembersPlain signed rest

end

mutual

/-- What the probes print for a value. -/
def printJson (signed : Bool) : Json → List UInt8
  | .string s => atom signed s
  | .number n => printInt n
  | .object members => obj (printMembers signed true members)

/-- What the probes print for members. -/
def printMembers (signed : Bool) : Bool → Members → List UInt8
  | _, .nil => []
  | first, .cons key value rest =>
    (if first then [] else comma) ++ kv signed key (printJson signed value) ++ printMembers signed false rest

end

theorem printInt_eq (n : ℤ) : printInt n = utf8 (decimal n) := by
  refine (utf8_ascii fun c hc => ?_).symm
  rcases mem_decimal hc with rfl | hdigit
  · decide
  · have hle := (Char.isDigit_iff_toNat.1 hdigit).2
    exact Nat.lt_of_le_of_lt hle (by decide)

theorem kv_utf8 {signed : Bool} {key : String} (h : Plain signed key) (cs : List Char) :
    kv signed key (utf8 cs) = utf8 (CompactJson.quote key.toList ++ (':' :: cs)) := by
  rw [kv, atom_eq h, utf8_append, utf8_cons]
  exact List.append_assoc _ _ _

mutual

/-- **Plain values** are printed as compact JSON. -/
theorem printJson_eq {signed : Bool} (value : Json) (h : AllPlain signed value) :
    printJson signed value = utf8 value.write := by
  match value with
  | .string s => exact atom_eq h
  | .number n => exact printInt_eq n
  | .object members =>
    rw [printJson, obj, printMembers_eq true members h, Json.write, utf8_cons]
    rfl

theorem printMembers_eq {signed : Bool} (first : Bool) (members : Members) (h : MembersPlain signed members) :
    printMembers signed first members ++ ascii ['}'] = utf8 (members.write first) := by
  match members with
  | .nil => rfl
  | .cons key value rest =>
    obtain ⟨hkey, hvalue, hrest⟩ := h
    have hfirst : (if first then [] else comma) = utf8 (if first then [] else [',']) := by
      cases first with
      | true => rfl
      | false => rfl
    rw [printMembers, printJson_eq value hvalue, kv_utf8 hkey, List.append_assoc, printMembers_eq false rest hrest, hfirst,
      Members.write, ← utf8_append, ← utf8_append]
    simp only [List.append_assoc, List.cons_append]

end

/-! ### What a record is, as a value -/

/-- Members from a list. -/
def membersOf : List (String × Json) → Members
  | [] => .nil
  | (key, value) :: rest => .cons key value (membersOf rest)

/-- A record is an object with one member, an object. -/
def record (variant : String) (members : List (String × Json)) : Json :=
  .object (.cons variant (.object (membersOf members)) .nil)

/-- A `timespec` as a value. -/
def Timespec.json (t : Timespec) : Json :=
  .object (membersOf [("sec", .number t.tvSec.toInt), ("nsec", .number t.tvNsec.toInt)])

/-- A `timeval` as a value. -/
def Timeval.json (t : Timeval) : Json :=
  .object (membersOf [("sec", .number t.tvSec.toInt), ("usec", .number t.tvUsec.toInt)])

/-- The members of the object of a timing. -/
def timingMembers (pid tid : Pid) (r : Record) (usage : Usage) : List (String × Json) :=
  [("pn", .string r.probeName), ("pid", .number pid.val), ("tid", .number tid.val), ("n", .number r.numCalls.toNat),
    ("r", usage.t.json), ("u", usage.utime.json), ("s", usage.stime.json), ("maxrss", .number usage.ruMaxrss.toInt),
    ("minflt", .number usage.ruMinflt.toInt), ("majflt", .number usage.ruMajflt.toInt),
    ("inblock", .number usage.ruInblock.toInt), ("oublock", .number usage.ruOublock.toInt),
    ("nvcsw", .number usage.ruNvcsw.toInt), ("nivcsw", .number usage.ruNivcsw.toInt)]

/-- The members of the object of the machine. -/
def unameMembers (u : UName) : List (String × Json) :=
  [("sysname", .string u.sysname), ("nodename", .string u.nodename), ("release", .string u.release),
    ("version", .string u.version), ("machine", .string u.machine)]

/-- The members of the object of the metadata. -/
def metadataMembers (m : Metadata) : List (String × Json) :=
  [("username", .string m.username), ("hostname", .string m.hostname), ("uname", .object (membersOf (unameMembers m.uname))),
    ("compiler", .string m.compiler)]

/-- The members of the object of a key-value entry. -/
def keyValueMembers (tid : Pid) (key value : String) : List (String × Json) :=
  [("tid", .number tid.val), ("k", .string key), ("v", .string value)]

/-- A line as a value. -/
def Line.json (pid : Pid) (line : Line) : Json :=
  match line.call with
  | .start => record "Start" [("evobench_log_version", .number evobenchLogVersion.toNat),
      ("evobench_version", .string evobenchVersion)]
  | .metadata m => record "Metadata" (metadataMembers m)
  | .resourceUsage r => record r.kind.variant (timingMembers pid line.tid r line.usage)
  | .keyValue key value => record "KeyValue" (keyValueMembers line.tid key value)

/-- The strings of a call. -/
def Call.strings : Call → List String
  | .start => []
  | .metadata m => [m.username, m.hostname, m.uname.sysname, m.uname.nodename, m.uname.release, m.uname.version,
      m.uname.machine, m.compiler]
  | .resourceUsage r => [r.probeName]
  | .keyValue key value => [key, value]

/-- All strings of a line are plain. -/
def Line.Plain (signed : Bool) (line : Line) : Prop := ∀ s ∈ line.call.strings, Probes.Plain signed s

/-- A line prints the value that it is. -/
theorem Line.text_eq_printJson (signed : Bool) (pid : Pid) (line : Line) :
    line.text signed pid = printJson signed (line.json pid) := by
  obtain ⟨tid, call, usage⟩ := line
  cases call with
  | _ =>
    simp only [Line.text, logStart, logMetadata, logResourceUsage, logKeyValue, printTimespec, printTimeval, Line.json,
      record, membersOf, metadataMembers, unameMembers, timingMembers, keyValueMembers, Timespec.json, Timeval.json,
      printJson, printMembers, if_true, if_false, Bool.false_eq_true, List.nil_append, List.append_nil, List.append_assoc]

theorem plain_of_ascii (signed : Bool) {s : String} (h : s.toList.all (·.toNat < 128) = true) : Plain signed s :=
  .inr (by simpa only [List.all_eq_true, decide_eq_true_eq] using h)

theorem plain_variant (signed : Bool) (kind : PointKind) : Plain signed kind.variant := by
  apply plain_of_ascii
  cases kind with
  | _ => decide

theorem Line.allPlain_json {signed : Bool} {line : Line} (h : line.Plain signed) (pid : Pid) :
    AllPlain signed (line.json pid) := by
  obtain ⟨tid, call, usage⟩ := line
  cases call with
  | _ =>
    simp only [Line.Plain, Call.strings, List.forall_mem_cons, List.not_mem_nil, false_imp_iff, implies_true] at h
    simp (disch := decide +kernel) only [Line.json, record, membersOf, metadataMembers, unameMembers, timingMembers,
      keyValueMembers, AllPlain, MembersPlain, Timespec.json, Timeval.json,
      plain_variant, plain_of_ascii, evobenchVersion, h, and_self]

/-- **A record is the JSON text of an object.** -/
theorem Line.text_eq {signed : Bool} {line : Line} (h : line.Plain signed) (pid : Pid) :
    line.text signed pid = utf8 (line.json pid).write := by
  rw [line.text_eq_printJson, printJson_eq _ (line.allPlain_json h pid)]

/-- There is no line break in a line. -/
theorem Line.newline_notMem_text {signed : Bool} {line : Line} (h : line.Plain signed) (pid : Pid) :
    newline ∉ line.text signed pid := by
  rw [line.text_eq h pid]
  intro hmem
  obtain ⟨c, hc, hbyte⟩ := List.mem_flatMap.1 hmem
  by_cases hlt : c.toNat < 128
  · rw [utf8EncodeChar_of_lt hlt, List.mem_singleton] at hbyte
    have htoNat := congrArg UInt8.toNat hbyte
    rw [UInt8.toNat_ofNat', Nat.mod_eq_of_lt (by omega)] at htoNat
    have hc' : c = '\n' := Char.toNat_inj.1 htoNat.symm
    exact Json.newline_notMem_write _ (hc' ▸ hc)
  · have hle := le_of_mem_utf8EncodeChar (Nat.not_lt.1 hlt) hbyte
    exact absurd hle (by decide)

/-! ### What is read -/

/-- The seconds and nanoseconds fit. -/
def Timespec.Fits (t : Timespec) : Prop :=
  (0 ≤ t.tvSec.toInt ∧ t.tvSec.toInt < 2 ^ 32) ∧ 0 ≤ t.tvNsec.toInt ∧ t.tvNsec.toInt < 2 ^ 32

/-- The seconds and microseconds fit. -/
def Timeval.Fits (t : Timeval) : Prop :=
  (0 ≤ t.tvSec.toInt ∧ t.tvSec.toInt < 2 ^ 32) ∧ 0 ≤ t.tvUsec.toInt ∧ t.tvUsec.toInt < 2 ^ 32

/-- The times of a line fit. -/
def Line.Fits (line : Line) : Prop :=
  match line.call with
  | .resourceUsage _ => line.usage.t.Fits ∧ line.usage.utime.Fits ∧ line.usage.stime.Fits
  | _ => True

instance (t : Timespec) : Decidable t.Fits := instDecidableAnd

instance (t : Timeval) : Decidable t.Fits := instDecidableAnd

instance (line : Line) : Decidable line.Fits := by
  unfold Line.Fits
  split
  · infer_instance
  · infer_instance

/-- A time that fits. -/
def Timespec.nanoTime (t : Timespec) : NanoTime := ⟨UInt32.ofNat t.tvSec.toInt.toNat, UInt32.ofNat t.tvNsec.toInt.toNat⟩

/-- A time that fits. -/
def Timeval.microTime (t : Timeval) : MicroTime := ⟨UInt32.ofNat t.tvSec.toInt.toNat, UInt32.ofNat t.tvUsec.toInt.toNat⟩

/-- An id as it is read. -/
def Pid.id (pid : Pid) : UInt64 := UInt64.ofNat pid.val

/-- The timing of a record. -/
def Usage.timing (usage : Usage) (pid tid : Pid) (record : Record) : Timing where
  pn := record.probeName
  pid := pid.id
  tid := tid.id
  n := some record.numCalls
  r := usage.t.nanoTime
  u := usage.utime.microTime
  s := usage.stime.microTime
  maxrss := some usage.ruMaxrss
  minflt := some usage.ruMinflt
  majflt := some usage.ruMajflt
  inblock := some usage.ruInblock
  oublock := some usage.ruOublock
  nvcsw := some usage.ruNvcsw
  nivcsw := some usage.ruNivcsw

/-- The message that a line stands for. -/
def Line.message (pid : Pid) (line : Line) : LogMessage :=
  match line.call with
  | .start => .start evobenchLogVersion evobenchVersion
  | .metadata m => .metadata m
  | .resourceUsage record => .point record.kind (line.usage.timing pid line.tid record)
  | .keyValue key value => .keyValue ⟨line.tid.id, key, value⟩

theorem u32OfJson_toNat (n : UInt32) : u32OfJson (.number n.toNat) = some n := by
  have hlt := n.toNat_lt
  rw [u32OfJson, if_pos (by omega), Int.toNat_natCast, UInt32.ofNat_toNat]

theorem u64OfJson_pid (pid : Pid) : u64OfJson (.number pid.val) = some pid.id := by
  have hlt := pid.isLt
  rw [u64OfJson, if_pos (by omega), Int.toNat_natCast, Pid.id]

theorem i64OfJson_toInt (n : Int64) : i64OfJson (.number n.toInt) = some n := by
  have hle := n.le_toInt
  have hlt := n.toInt_lt
  rw [i64OfJson, if_pos ⟨hle, hlt⟩, Int64.ofInt_toInt]

/-- Two fields that are numbers. -/
theorem bind_u32OfJson {α : Type} (a b : ℤ) (make : UInt32 → UInt32 → α) :
    ((u32OfJson (.number a)).bind fun x => (u32OfJson (.number b)).bind fun y => some (make x y)) =
      if (0 ≤ a ∧ a < 2 ^ 32) ∧ 0 ≤ b ∧ b < 2 ^ 32 then some (make (UInt32.ofNat a.toNat) (UInt32.ofNat b.toNat)) else none := by
  simp only [u32OfJson]
  by_cases ha : 0 ≤ a ∧ a < 2 ^ 32
  · by_cases hb : 0 ≤ b ∧ b < 2 ^ 32
    · rw [if_pos ha, if_pos hb, if_pos ⟨ha, hb⟩, Option.bind_some, Option.bind_some]
    · rw [if_pos ha, if_neg hb, if_neg fun h => hb h.2, Option.bind_some, Option.bind_none]
  · rw [if_neg ha, Option.bind_none, if_neg fun h => ha h.1]

theorem Timespec.ofJson_json (t : Timespec) : NanoTime.ofJson t.json = if t.Fits then some t.nanoTime else none :=
  bind_u32OfJson t.tvSec.toInt t.tvNsec.toInt NanoTime.mk

theorem Timeval.ofJson_json (t : Timeval) : MicroTime.ofJson t.json = if t.Fits then some t.microTime else none :=
  bind_u32OfJson t.tvSec.toInt t.tvUsec.toInt MicroTime.mk

theorem keys_membersOf (l : List (String × Json)) : (membersOf l).keys = l.map Prod.fst := by
  induction l with
  | nil => rfl
  | cons member l ih => rw [membersOf, Members.keys, ih, List.map_cons]

/-- The members of a struct, if they are fields and not repeated. -/
theorem fieldsOfJson_membersOf (fields : List String) {l : List (String × Json)} (hnodup : (l.map Prod.fst).Nodup)
    (hfields : ∀ key ∈ l.map Prod.fst, key ∈ fields) :
    fieldsOfJson fields (.object (membersOf l)) = some (membersOf l) := by
  rw [fieldsOfJson, keys_membersOf, if_pos ⟨hnodup, hfields⟩]

theorem get?_membersOf {l : List (String × Json)} (hnodup : (l.map Prod.fst).Nodup) {key : String} {value : Json}
    (h : (key, value) ∈ l) : (membersOf l).get? key = some value := by
  induction l with
  | nil => cases h
  | cons member l ih =>
    obtain ⟨hnot, hnodup⟩ := List.nodup_cons.1 hnodup
    rw [membersOf, Members.get?]
    rcases List.mem_cons.1 h with rfl | hmem
    · rw [if_pos rfl]
    · have hne : member.1 ≠ key := fun he => hnot (he ▸ List.mem_map_of_mem (f := Prod.fst) hmem)
      rw [if_neg hne, ih hnodup hmem]

/-- A field is read. -/
theorem field_membersOf {α : Type} {l : List (String × Json)} (hnodup : (l.map Prod.fst).Nodup) {key : String} {value : Json}
    (h : (key, value) ∈ l) (read : Json → Option α) : field (membersOf l) key read = read value := by
  rw [field, get?_membersOf hnodup h, Option.bind_some]

/-- A field that may be missing is read. -/
theorem optionalField_membersOf {α : Type} {l : List (String × Json)} (hnodup : (l.map Prod.fst).Nodup) {key : String}
    {value : Json} (h : (key, value) ∈ l) {read : Json → Option α} {a : α} (hread : read value = some a) :
    optionalField (membersOf l) key read = some (some a) := by
  rw [optionalField, get?_membersOf hnodup h]
  exact congrArg (Option.map some) hread

theorem bind_of_eq_some {α β : Type} {o : Option α} {a : α} (h : o = some a) (f : α → Option β) : (o >>= f) = f a := by
  rw [h]
  rfl

theorem bind_of_eq_none {α β : Type} {o : Option α} (h : o = none) (f : α → Option β) : (o >>= f) = none := by
  rw [h]
  rfl

/-- The times decide whether a timing is read. -/
theorem ofJson_timingMembers (pid tid : Pid) (r : Record) (usage : Usage) :
    Timing.ofJson (.object (membersOf (timingMembers pid tid r usage))) =
      if usage.t.Fits ∧ usage.utime.Fits ∧ usage.stime.Fits then some (usage.timing pid tid r) else none := by
  have hkeys : (timingMembers pid tid r usage).map Prod.fst = timingFields := rfl
  have hnodup : ((timingMembers pid tid r usage).map Prod.fst).Nodup := by
    rw [hkeys]
    decide
  have hcounter : ∀ {key : String} {n : Int64}, (key, Json.number n.toInt) ∈ timingMembers pid tid r usage →
      optionalField (membersOf (timingMembers pid tid r usage)) key i64OfJson = some (some n) :=
    fun h => optionalField_membersOf hnodup h (i64OfJson_toInt _)
  have hpn := field_membersOf hnodup (show ("pn", Json.string r.probeName) ∈ _ by simp [timingMembers]) stringOfJson
  have hpid := field_membersOf hnodup (show ("pid", Json.number pid.val) ∈ _ by simp [timingMembers]) u64OfJson
  have htid := field_membersOf hnodup (show ("tid", Json.number tid.val) ∈ _ by simp [timingMembers]) u64OfJson
  have hn := optionalField_membersOf hnodup (show ("n", Json.number r.numCalls.toNat) ∈ _ by simp [timingMembers])
    (u32OfJson_toNat r.numCalls)
  have hr := field_membersOf hnodup (show ("r", usage.t.json) ∈ _ by simp [timingMembers]) NanoTime.ofJson
  have hu := field_membersOf hnodup (show ("u", usage.utime.json) ∈ _ by simp [timingMembers]) MicroTime.ofJson
  have hs := field_membersOf hnodup (show ("s", usage.stime.json) ∈ _ by simp [timingMembers]) MicroTime.ofJson
  rw [u64OfJson_pid] at hpid htid
  rw [Timespec.ofJson_json] at hr
  rw [Timeval.ofJson_json] at hu hs
  have hfields := fieldsOfJson_membersOf timingFields hnodup fun key hkey => hkey
  rw [Timing.ofJson, bind_of_eq_some hfields, bind_of_eq_some hpn, bind_of_eq_some hpid, bind_of_eq_some htid,
    bind_of_eq_some hn]
  by_cases hrfits : usage.t.Fits
  · rw [if_pos hrfits] at hr
    rw [bind_of_eq_some hr]
    by_cases hufits : usage.utime.Fits
    · rw [if_pos hufits] at hu
      rw [bind_of_eq_some hu]
      by_cases hsfits : usage.stime.Fits
      · rw [if_pos hsfits] at hs
        rw [bind_of_eq_some hs, if_pos ⟨hrfits, hufits, hsfits⟩]
        rw [bind_of_eq_some (hcounter (n := usage.ruMaxrss) (by simp [timingMembers])),
          bind_of_eq_some (hcounter (n := usage.ruMinflt) (by simp [timingMembers])),
          bind_of_eq_some (hcounter (n := usage.ruMajflt) (by simp [timingMembers])),
          bind_of_eq_some (hcounter (n := usage.ruInblock) (by simp [timingMembers])),
          bind_of_eq_some (hcounter (n := usage.ruOublock) (by simp [timingMembers])),
          bind_of_eq_some (hcounter (n := usage.ruNvcsw) (by simp [timingMembers])),
          bind_of_eq_some (hcounter (n := usage.ruNivcsw) (by simp [timingMembers]))]
        rfl
      · rw [if_neg hsfits] at hs
        rw [bind_of_eq_none hs, if_neg fun h => hsfits h.2.2]
    · rw [if_neg hufits] at hu
      rw [bind_of_eq_none hu, if_neg fun h => hufits h.2.1]
  · rw [if_neg hrfits] at hr
    rw [bind_of_eq_none hr, if_neg fun h => hrfits h.1]

theorem ofJson_unameMembers (u : UName) : UName.ofJson (.object (membersOf (unameMembers u))) = some u := by
  have hnodup : ((unameMembers u).map Prod.fst).Nodup := by
    show ["sysname", "nodename", "release", "version", "machine"].Nodup
    decide
  have hfields := fieldsOfJson_membersOf ["sysname", "nodename", "release", "version", "machine"] hnodup
    fun key hkey => hkey
  have hread : ∀ {key s : String}, (key, Json.string s) ∈ unameMembers u →
      field (membersOf (unameMembers u)) key stringOfJson = some s := fun h => field_membersOf hnodup h stringOfJson
  rw [UName.ofJson, bind_of_eq_some hfields, bind_of_eq_some (hread (s := u.sysname) (by simp [unameMembers])),
    bind_of_eq_some (hread (s := u.nodename) (by simp [unameMembers])),
    bind_of_eq_some (hread (s := u.release) (by simp [unameMembers])),
    bind_of_eq_some (hread (s := u.version) (by simp [unameMembers])),
    bind_of_eq_some (hread (s := u.machine) (by simp [unameMembers]))]
  rfl

theorem ofJson_metadataMembers (m : Metadata) : Metadata.ofJson (.object (membersOf (metadataMembers m))) = some m := by
  have hnodup : ((metadataMembers m).map Prod.fst).Nodup := by
    show ["username", "hostname", "uname", "compiler"].Nodup
    decide
  have hfields : fieldsOfJson ["hostname", "username", "uname", "compiler"] (.object (membersOf (metadataMembers m))) = _ :=
    fieldsOfJson_membersOf _ hnodup (by simp [metadataMembers])
  have hread : ∀ {key s : String}, (key, Json.string s) ∈ metadataMembers m →
      field (membersOf (metadataMembers m)) key stringOfJson = some s := fun h => field_membersOf hnodup h stringOfJson
  have huname := field_membersOf hnodup
    (show ("uname", Json.object (membersOf (unameMembers m.uname))) ∈ _ by simp [metadataMembers]) UName.ofJson
  rw [ofJson_unameMembers] at huname
  rw [Metadata.ofJson, bind_of_eq_some hfields, bind_of_eq_some (hread (s := m.hostname) (by simp [metadataMembers])),
    bind_of_eq_some (hread (s := m.username) (by simp [metadataMembers])), bind_of_eq_some huname,
    bind_of_eq_some (hread (s := m.compiler) (by simp [metadataMembers]))]
  rfl

theorem ofJson_keyValueMembers (tid : Pid) (key value : String) :
    KeyValue.ofJson (.object (membersOf (keyValueMembers tid key value))) = some ⟨tid.id, key, value⟩ := by
  have hnodup : ((keyValueMembers tid key value).map Prod.fst).Nodup := by
    show ["tid", "k", "v"].Nodup
    decide
  have hfields := fieldsOfJson_membersOf ["tid", "k", "v"] hnodup fun key hkey => hkey
  have htid := field_membersOf hnodup (show ("tid", Json.number tid.val) ∈ _ by simp [keyValueMembers]) u64OfJson
  have hread : ∀ {key' s : String}, (key', Json.string s) ∈ keyValueMembers tid key value →
      field (membersOf (keyValueMembers tid key value)) key' stringOfJson = some s :=
    fun h => field_membersOf hnodup h stringOfJson
  rw [u64OfJson_pid] at htid
  rw [KeyValue.ofJson, bind_of_eq_some hfields, bind_of_eq_some htid,
    bind_of_eq_some (hread (s := key) (by simp [keyValueMembers])),
    bind_of_eq_some (hread (s := value) (by simp [keyValueMembers]))]
  rfl

/-- **A record is read as the message that it stands for**, if its times fit; otherwise it is not read. -/
theorem Line.ofJson_json (pid : Pid) (line : Line) :
    LogMessage.ofJson (line.json pid) = if line.Fits then some (line.message pid) else none := by
  obtain ⟨tid, call, usage⟩ := line
  cases call with
  | start => rfl
  | metadata m =>
    have hmetadata := ofJson_metadataMembers m
    show (Metadata.ofJson (.object (membersOf (metadataMembers m)))).map LogMessage.metadata = some (.metadata m)
    rw [hmetadata, Option.map_some]
  | keyValue key value =>
    have hkv := ofJson_keyValueMembers tid key value
    show (KeyValue.ofJson (.object (membersOf (keyValueMembers tid key value)))).map LogMessage.keyValue = _
    rw [hkv, Option.map_some]
    rfl
  | resourceUsage r =>
    have htiming := ofJson_timingMembers pid tid r usage
    show LogMessage.ofJson (.object (.cons r.kind.variant (.object (membersOf (timingMembers pid tid r usage))) .nil)) = _
    rw [LogMessage.ofJson_point, htiming]
    show _ = if usage.t.Fits ∧ usage.utime.Fits ∧ usage.stime.Fits then _ else _
    split_ifs
    · rfl
    · rfl

/-! ### Data of messages -/

theorem Pid.id_injective : Function.Injective Pid.id := by
  intro a b h
  have htoNat := congrArg UInt64.toNat h
  rw [Pid.id, Pid.id, UInt64.toNat_ofNat', UInt64.toNat_ofNat', Nat.mod_eq_of_lt (by omega), Nat.mod_eq_of_lt (by omega)]
    at htoNat
  exact Fin.ext htoNat

/-- The data of the message of a line, if it has any. -/
def Line.data (pid : Pid) (line : Line) : Option DataMessage :=
  match line.call with
  | .start => none
  | .metadata _ => none
  | .resourceUsage record => some (.timing record.kind (line.usage.timing pid line.tid record))
  | .keyValue key value => some (.keyValue ⟨line.tid.id, key, value⟩)

/-- A call as an element of a bracketed sequence. -/
def Call.token : Call → Token (ScopeKind × String)
  | .start => .skip
  | .metadata _ => .skip
  | .keyValue _ _ => .mark
  | .resourceUsage record =>
    match PointDispatch.fromPointKind record.kind with
    | .scope kind false => .opening (kind, record.probeName)
    | .scope kind true => .closing (kind, record.probeName)
    | .t => .skip
    | .tio => .skip

theorem Line.optDataMessage_message (pid : Pid) (line : Line) : (line.message pid).optDataMessage = line.data pid := by
  obtain ⟨tid, call, usage⟩ := line
  cases call with
  | resourceUsage r => exact LogMessage.optDataMessage_point r.kind _
  | _ => rfl

/-- The data are of the thread, and of the token, of the line. -/
theorem Line.tid_token_data {pid : Pid} {line : Line} {m : DataMessage} (h : line.data pid = some m) :
    m.tid = line.tid.id ∧ m.token = line.call.token := by
  obtain ⟨tid, call, usage⟩ := line
  cases call with
  | start => cases h
  | metadata m => cases h
  | resourceUsage r =>
    cases h
    exact ⟨rfl, rfl⟩
  | keyValue key value =>
    cases h
    exact ⟨rfl, rfl⟩

end Evobench.Probes

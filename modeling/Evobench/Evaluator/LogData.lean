import Evobench.Evaluator.LogDataTree
import Mathlib.Data.List.DropRight

/-!
# Log files

`LogData.readFile` reads the (decompressed) contents of a log file. The first two lines are messages about the file and
the program; the rest is cut into chunks at line breaks, and the chunks are parsed in parallel.

## The model

* `LogMessage`, `LogMessage.dataMessage`: the messages of a log file; the first two kinds carry no data.
* `IterWithLineAndByteCount`: parses one line after the other.
* `LogData.chunks`: where the rest of the file is cut; `readChunk` is the task for one chunk.
* `TaskOrder`, `finishTasks`: the tasks finish in any order, each enters its result at its index.
* `LogDataTree.fromLogData`: `from_logdata` on the messages of a file.

The parser of a line is a parameter (`parse`), and so is the size of a chunk, which is `LogData.chunkSizeBytes` in the
program.
-/

namespace Evobench.Evaluator

open Library

/-! ### Messages -/

/-- Identification of a machine. -/
structure UName where
  /-- e.g. "Linux" -/
  sysname : String
  /-- e.g. "dev-1-cj1" -/
  nodename : String
  /-- e.g. "6.1.0-37-amd64" -/
  release : String
  /-- e.g. "#1 SMP PREEMPT_DYNAMIC Debian 6.1.140-1 (2025-05-22)" -/
  version : String
  /-- e.g. "x86_64" -/
  machine : String
deriving DecidableEq

/-- Random information from the program. -/
structure Metadata where
  /-- The host. -/
  hostname : String
  /-- The user. -/
  username : String
  /-- The machine. -/
  uname : UName
  /-- The compiler of the program. -/
  compiler : String
deriving DecidableEq

/-- A message of a log file. -/
inductive LogMessage where
  /-- Describes the file format. -/
  | start (evobenchLogVersion : UInt32) (evobenchVersion : String)
  /-- Random information from the program. -/
  | metadata (metadata : Metadata)
  /-- A key-value entry. -/
  | keyValue (kv : KeyValue)
  /-- Point at process init. -/
  | tStart (timing : Timing)
  /-- Individual (unpaired) point. -/
  | t (timing : Timing)
  /-- Point at the start of a scope. -/
  | ts (timing : Timing)
  /-- Point at the end of a scope. -/
  | te (timing : Timing)
  /-- Point at thread start. -/
  | tThreadStart (timing : Timing)
  /-- Point at thread exit. -/
  | tThreadEnd (timing : Timing)
  /-- Point at process exit. -/
  | tEnd (timing : Timing)
  /-- Point directly after flushing the buffer for the current thread. -/
  | tio (timing : Timing)
deriving DecidableEq

namespace LogMessage

/-- `opt_data_message` -/
def optDataMessage : LogMessage → Option DataMessage
  | start _ _ => none
  | metadata _ => none
  | keyValue kv => some (.keyValue kv)
  | tStart timing => some (.timing .tStart timing)
  | t timing => some (.timing .t timing)
  | ts timing => some (.timing .ts timing)
  | te timing => some (.timing .te timing)
  | tThreadStart timing => some (.timing .tThreadStart timing)
  | tThreadEnd timing => some (.timing .tThreadEnd timing)
  | tEnd timing => some (.timing .tEnd timing)
  | tio timing => some (.timing .tio timing)

/-- `data_message` -/
def dataMessage (message : LogMessage) : Outcome String DataMessage :=
  match message.optDataMessage with
  | some m => .ok m
  | none => .panic "non-DataMessage not contained in LogData::messages"

/-- The message is a `TEnd`. -/
def isTEnd : LogMessage → Bool
  | tEnd _ => true
  | _ => false

end LogMessage

/-! ### Lines -/

/-- `b'\n'` -/
def newline : UInt8 := 0x0a

/-- `is_ascii_whitespace` -/
def isAsciiWhitespace (b : UInt8) : Bool := b = 0x20 || b = 0x09 || b = 0x0a || b = 0x0c || b = 0x0d

/-- `trim_ascii_end` -/
def trimAsciiEnd (bytes : List UInt8) : List UInt8 := bytes.rdropWhile isAsciiWhitespace

/-- The iterator over the lines of a text. -/
structure IterWithLineAndByteCount where
  /-- The lines that are left. -/
  linesIter : List (List UInt8)
  /-- The number of lines before. -/
  linenum : ℕ
  /-- The number of bytes before, with one line break for each line. -/
  bytepos : ℕ
  /-- The file. -/
  path : String

namespace IterWithLineAndByteCount

/-- `new` -/
def new (linesIter : List (List UInt8)) (path : String) : IterWithLineAndByteCount := ⟨linesIter, 0, 0, path⟩

/-- `next`: a parsed line, and the iterator after it -/
def next (parse : List UInt8 → Option LogMessage) (items : IterWithLineAndByteCount) :
    Option (Outcome String LogMessage × IterWithLineAndByteCount) :=
  match items.linesIter with
  | [] => none
  | line :: lines =>
    let linenum := items.linenum + 1
    let r := match parse line with
      | some msg => .ok msg
      | none => .err s!"parsing file {items.path}:{linenum}"
    some (r, { items with linesIter := lines, linenum := linenum, bytepos := items.bytepos + (line.length + 1) })

/-- All lines that are left, up to the first one that is no message. -/
def collect (parse : List UInt8 → Option LogMessage) (path : String) (linenum : ℕ) :
    List (List UInt8) → Outcome String (List LogMessage)
  | [] => .ok []
  | line :: lines =>
    match parse line with
    | none => .err s!"parsing file {path}:{linenum + 1}"
    | some msg => do
      let messages ← collect parse path (linenum + 1) lines
      pure (msg :: messages)

end IterWithLineAndByteCount

/-! ### Tasks -/

/-- An order in which tasks finish. -/
structure TaskOrder where
  /-- The indices of so many tasks, the one that finishes first in front. -/
  order : ℕ → List ℕ
  /-- Each task finishes once. -/
  perm : ∀ n, (order n).Perm (List.range n)

/-- The tasks finish in the order in which they were spawned. -/
def TaskOrder.spawned : TaskOrder := ⟨List.range, fun _ => List.Perm.refl _⟩

/-- `auto_get_mut`, and insert there -/
def autoInsert {ρ : Type} (results : List (Option ρ)) (i : ℕ) (r : ρ) : List (Option ρ) :=
  if i < results.length then results.set i (some r)
  else (results ++ List.replicate (i + 1 - results.length) none).set i (some r)

/-- The results after the tasks have finished. -/
def finishTasks {ρ : Type} (tasks : List ρ) (order : List ℕ) : List (Option ρ) :=
  order.foldl (fun results i => match tasks[i]? with
    | some r => autoInsert results i r
    | none => results) []

/-! ### Reading a file -/

/-- What is read from a log file. -/
structure LogData where
  /-- The file. -/
  path : String
  /-- The messages of each chunk. -/
  messages : List (List LogMessage)
  /-- The version of the file format. -/
  evobenchLogVersion : UInt32
  /-- The version of the probes. -/
  evobenchVersion : String
  /-- About the program. -/
  metadata : Metadata
deriving DecidableEq

namespace LogData

/-- Size of buffer for decompressed log data (for one chunk processed in parallel). -/
def chunkSizeBytes : ℕ := 20000000

/-- The position of the last line break, from the end. -/
def findLineBreak (buf : List UInt8) : Option ℕ := buf.reverse.findIdx? (· == newline)

/-- The chunks of the rest of a file, each up to the last line break in the buffer. -/
def chunks (chunkSize : ℕ) (path : String) (index : ℕ) (rest : List UInt8) : Outcome String (List (List UInt8)) :=
  if _hrest : rest = [] then .ok []
  else
    let buf := rest.take (min chunkSize rest.length)
    match hfind : findLineBreak buf with
    | none => .err s!"missing a line break in chunk {index} (size {buf.length}) in file {path}"
    | some i => do
      let cutoff := buf.length - i
      let bufs ← chunks chunkSize path (index + 1) (rest.drop cutoff)
      pure (buf.take cutoff :: bufs)
termination_by rest.length
decreasing_by
  have hi : i < buf.length := by
    have hlt := (List.findIdx?_eq_some_iff_getElem.1 hfind).1
    rwa [List.length_reverse] at hlt
  have hpos : 0 < rest.length := List.length_pos_iff.2 _hrest
  rw [List.length_drop]
  show rest.length - (buf.length - i) < rest.length
  omega

/-- The task for one chunk. -/
def readChunk (parse : List UInt8 → Option LogMessage) (path : String) (buf : List UInt8) :
    Outcome String (List LogMessage) :=
  IterWithLineAndByteCount.collect parse path 0 ((trimAsciiEnd buf).splitOn newline)

/-- The results of the chunks from the given index on. -/
def collectResults (i : ℕ) : List (Option (Outcome String (List LogMessage))) → Outcome String (List (List LogMessage))
  | [] => .ok []
  | some r :: results => do
    let messages ← r.mapErr fun e => s!"chunk {i}: {e}"
    let rest ← collectResults (i + 1) results
    pure (messages :: rest)
  | none :: _ => .err s!"chunk {i} has not reported a result, did it panic?"

/-- The rest of a file: cut it, parse the chunks, and look whether the log is complete. -/
def readRest (parse : List UInt8 → Option LogMessage) (chunkSize : ℕ) (order : TaskOrder) (path : String)
    (rest : List UInt8) : Outcome String (List (List LogMessage)) := do
  let bufs ← chunks chunkSize path 0 rest
  let results := finishTasks (bufs.map (readChunk parse path)) (order.order bufs.length)
  let messages ← collectResults 0 results
  match messages.getLast? with
  | none => .err s!"log file {path} contains no data, and misses TEnd"
  | some messagesOfLast =>
    match messagesOfLast.getLast? with
    | none => .err s!"processing log file {path}: missing a value in last chunk result"
    | some last =>
      if last.isTEnd then .ok messages else .err s!"log file {path} does not end with TEnd, it was cut off"

/-- `read_file`, on the contents of the file -/
def readFile (parse : List UInt8 → Option LogMessage) (chunkSize : ℕ) (order : TaskOrder) (path : String)
    (input : List UInt8) : Outcome String LogData :=
  match (IterWithLineAndByteCount.new (input.splitOn newline) path).next parse with
  | none => .err s!"missing the first message in {path}"
  | some (r, items) => do
    let msg ← r
    match msg with
    | .start evobenchLogVersion evobenchVersion =>
      match items.next parse with
      | none => .err s!"missing the second message in {path}"
      | some (r, items) => do
        let msg ← r
        match msg with
        | .metadata metadata =>
          if items.bytepos ≤ input.length then do
            let messages ← readRest parse chunkSize order path (input.drop items.bytepos)
            pure ⟨path, messages, evobenchLogVersion, evobenchVersion, metadata⟩
          else .panic s!"range start index {items.bytepos} out of range for slice of length {input.length}"
        | _ => .err "second message is not a `Metadata` message"
    | _ => .err "first message is not a `Start` message"

end LogData

/-- The loop of `from_logdata` over the messages of a file. -/
def Reader.readMessages (s : Reader) : List LogMessage → Outcome String Reader
  | [] => .ok s
  | message :: messages => do
    let m ← message.dataMessage
    let s' ← s.step m
    s'.readMessages messages

/-- `from_logdata` -/
def LogDataTree.fromLogData (logData : LogData) : Outcome String LogDataTree := do
  let s ← Reader.new.readMessages logData.messages.flatten
  pure s.tree

end Evobench.Evaluator

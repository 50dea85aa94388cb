import Evobench.IoUtils.Bash
import Evobench.Utillib.NdjsonPipe
import Mathlib.Logic.Function.Basic
import Mathlib.Logic.Relation

/-!
# Capturing the output of commands

Two threads copy what a child writes to its standard output and error to a log file and to other files, for example a
terminal, line by line.

## The model

* `Captured.line`: what is written for a line that has been read.
* `Capture.Step`: what the child, the two threads and the caller of `run_with_capture` do, in any order. What is written gets
  to a file in pieces of any size, and writing can fail. The main file is number 0, the other files are numbered from 1.

## What is proved

The invariant is `Capture.Inv`: the files consist of pieces, one for each line in the order in which the threads have had the
lock, and all files have got the same ones. With it `Inv.step` is about one stream and its pieces (`Phase`).

* `log_of_reaches`: at any time, whole lines are in the files, except where a thread is writing or has failed; the lines of
  each stream are there in their order, and none is left out. When `run_with_capture` has returned a status, all lines of both
  streams are in each file.

## Honest scope

The lock of the other files is only taken by the thread that has the one of the main file, so there is one lock. A thread does
not panic.
-/

namespace Evobench.IoUtils

open Library Utillib

/-! ### Lines -/

/-- An output of the child. -/
inductive Source where
  | stdout
  | stderr
deriving DecidableEq, Repr

/-- The source indicator. -/
def Source.indicator : Source → List Char
  | stdout => ['O']
  | stderr => ['E']

/-- `CaptureOptions` -/
structure CaptureOptions where
  addSourceIndicator : Bool
  addTimestamp : Bool
deriving DecidableEq, Repr

/-- A line that has been read. -/
structure Captured where
  /-- Where it has been read. -/
  source : Source
  /-- The time. -/
  timestamp : List Char
  /-- The line, with the line break if there is one. -/
  inputLine : List UInt8
deriving DecidableEq

/-- What `new_proxy_thread` writes for a line. -/
def Captured.line (opts : CaptureOptions) (c : Captured) : List UInt8 :=
  let line := (if opts.addTimestamp then utf8 c.timestamp ++ utf8 ['\t'] else []) ++
    ((if opts.addSourceIndicator then utf8 c.source.indicator ++ utf8 ['\t'] else []) ++ c.inputLine)
  if line.getLast? = some newline then line else line ++ [newline]

/-- `read_line`: a line and what comes after it. It waits if there is no line break and more can come. -/
def readLine (closed : Bool) (unread : List UInt8) : Option (List UInt8 × List UInt8) :=
  match unread.dropWhile (· ≠ newline) with
  | c :: rest => some (unread.takeWhile (· ≠ newline) ++ [c], rest)
  | [] => if closed then some (unread, []) else none

/-- A line with a line break at its end, and no other one. -/
def IsLine (l : List UInt8) : Prop := ∃ l', newline ∉ l' ∧ l = l' ++ [newline]

theorem readLine_cases {closed : Bool} {unread line rest : List UInt8} (h : readLine closed unread = some (line, rest)) :
    line ++ rest = unread ∧ (IsLine line ∨ closed = true ∧ rest = [] ∧ newline ∉ line) := by
  have hsplit := unread.takeWhile_append_dropWhile (p := (· ≠ newline))
  have hline : newline ∉ unread.takeWhile (· ≠ newline) := by
    intro hmem
    simpa using List.mem_takeWhile_imp hmem
  rw [readLine] at h
  cases hdrop : unread.dropWhile (· ≠ newline) with
  | nil =>
    rw [hdrop] at h hsplit
    rw [List.append_nil] at hsplit
    dsimp only at h
    split_ifs at h with hclosed
    obtain ⟨rfl, rfl⟩ := Prod.mk.inj (Option.some.inj h)
    refine ⟨List.append_nil _, .inr ⟨hclosed, rfl, ?_⟩⟩
    rwa [hsplit] at hline
  | cons c rest' =>
    rw [hdrop] at h hsplit
    obtain ⟨rfl, rfl⟩ := Prod.mk.inj (Option.some.inj h)
    have hc : c = newline := by
      have hhead := List.head?_dropWhile_not (· ≠ newline) unread
      rw [hdrop] at hhead
      simpa using hhead
    refine ⟨by simpa using hsplit, .inl ⟨_, hline, by rw [hc]⟩⟩

/-- Lines that have been read one after the other; the last one need not have a line break if nothing comes after it. -/
def Lines (ended : Prop) (ls : List (List UInt8)) : Prop :=
  (∀ l ∈ ls, IsLine l) ∨
    ended ∧ ∃ before last, ls = before ++ [last] ∧ (∀ l ∈ before, IsLine l) ∧ newline ∉ last ∧ last ≠ []

theorem Lines.mono {ended ended' : Prop} {ls : List (List UInt8)} (h : Lines ended ls) (hended : ended → ended') :
    Lines ended' ls := h.imp_right (And.imp_left hended)

theorem Lines.mem {ended : Prop} {ls : List (List UInt8)} (h : Lines ended ls) {l : List UInt8} (hl : l ∈ ls) :
    IsLine l ∨ newline ∉ l ∧ l ≠ [] := by
  rcases h with hall | ⟨-, before, last, rfl, hbefore, hlast⟩
  · exact .inl (hall l hl)
  · rcases List.mem_append.1 hl with hl | hl
    · exact .inl (hbefore l hl)
    · rw [List.mem_singleton.1 hl]
      exact .inr hlast

theorem Lines.nil (ended : Prop) : Lines ended [] := .inl (List.forall_mem_nil _)

theorem readLines_append {ls : List (List UInt8)} (h : ∀ l ∈ ls, IsLine l) (rest : List UInt8) :
    readLines (ls.flatten ++ rest) = ls ++ readLines rest := by
  induction ls with
  | nil => rfl
  | cons l ls ih =>
    obtain ⟨⟨l', hl', rfl⟩, hls⟩ := List.forall_mem_cons.1 h
    have hassoc : (l' ++ [newline]) ++ ls.flatten ++ rest = l' ++ newline :: (ls.flatten ++ rest) := by
      simp only [List.append_assoc, List.cons_append, List.nil_append]
    rw [List.flatten_cons, hassoc, readLines_line hl', ih hls, List.cons_append]

/-- The lines of a text, if nothing comes after them. -/
theorem Lines.readLines_eq {ended : Prop} {ls : List (List UInt8)} (h : Lines ended ls) : readLines ls.flatten = ls := by
  rcases h with hall | ⟨-, before, last, rfl, hbefore, hlast, hne⟩
  · have hread := readLines_append hall []
    rwa [List.append_nil, show readLines [] = [] from rfl, List.append_nil] at hread
  · rw [List.flatten_append, List.flatten_singleton, readLines_append hbefore, readLines_rest hlast hne]

/-! ### The child, the threads and the caller -/

/-- How the child has ended, as `waitpid` tells it. -/
abbrev ExitStatus := Int32

/-- `ExitStatus::success` -/
def ExitStatus.success (status : ExitStatus) : Bool := status = 0

/-- An error of `run_with_capture`. -/
inductive CaptureError where
  /-- The command cannot be run. -/
  | running (cmd : List String)
  /-- A thread cannot be started. -/
  | start (src : Source)
  /-- `wait` fails. -/
  | wait
  /-- A thread has failed. -/
  | proxy (src : Source)
deriving DecidableEq, Repr

/-- What is said in addition to the error of the operating system. -/
def CaptureError.context : CaptureError → Option String
  | running cmd => some ("running " ++ bashStringFromCmd cmd)
  | start _ => none
  | wait => none
  | proxy .stdout => some "stdout proxy thread"
  | proxy .stderr => some "stderr proxy thread"

/-- Where a proxy thread is. -/
inductive Proxy where
  /-- It has not been started. -/
  | notStarted
  /-- In `read_line`. -/
  | reading
  /-- It has a line, and waits for the lock. -/
  | hasLine (c : Captured)
  /-- It has the lock, and has got to the file number `i`, where `rest` is left to write. -/
  | writing (c : Captured) (i : ℕ) (rest : List UInt8)
  /-- It has ended, with an error or without. -/
  | ended (ok : Bool)

/-- An output of the child with its thread. -/
structure Stream where
  /-- What the child has written. -/
  output : List UInt8
  /-- Nobody can write any more. -/
  closed : Bool
  /-- What the thread has not yet got as a line. -/
  unread : List UInt8
  /-- The thread. -/
  proxy : Proxy

/-- Where the caller is. -/
inductive Caller where
  /-- The child has not been started. -/
  | start
  /-- The thread is being started. -/
  | starting (src : Source)
  /-- Waits for the child. -/
  | waiting
  /-- Waits for the thread. -/
  | joining (src : Source) (status : ExitStatus)
  /-- Leaves the scope of the threads with an error. -/
  | failing (e : CaptureError)
  /-- `run_with_capture` has returned. -/
  | returned (r : Except CaptureError ExitStatus)

/-- A call of `run_with_capture`. -/
structure Capture where
  /-- The outputs of the child. -/
  streams : Source → Stream
  /-- The thread that has the lock. -/
  lock : Option Source
  /-- The contents of the files. -/
  files : ℕ → List UInt8
  /-- How the child has ended. -/
  status : Option ExitStatus
  /-- The caller. -/
  caller : Caller

namespace Capture

/-- Before anything is done. -/
def start (files : ℕ → List UInt8) : Capture := ⟨fun _ => ⟨[], true, [], .notStarted⟩, none, files, none, .start⟩

/-- Change a stream. -/
def set (s : Capture) (src : Source) (stream : Stream) : Capture :=
  { s with streams := Function.update s.streams src stream }

section Set

variable (s : Capture) (src : Source) (stream : Stream)

@[simp] theorem set_streams_self : (s.set src stream).streams src = stream := Function.update_self ..

@[simp] theorem set_streams_of_ne {other : Source} (h : other ≠ src) : (s.set src stream).streams other = s.streams other :=
  Function.update_of_ne h ..

end Set

/-- What can happen, where `others` is the number of the other files and `now` tells the times that are read. -/
inductive Step (opts : CaptureOptions) (others : ℕ) (now : List Char → Prop) (cmd : List String) : Capture → Capture → Prop
    where
  /-- The child is started. -/
  | spawn {s : Capture} (h : s.caller = .start) :
    Step opts others now cmd s
      { s with streams := fun src => { s.streams src with closed := false }, caller := .starting .stdout }
  /-- It cannot be started. -/
  | spawnFails {s : Capture} (h : s.caller = .start) :
    Step opts others now cmd s { s with caller := .returned (.error (.running cmd)) }
  /-- The first thread is started. -/
  | startStdout {s : Capture} (h : s.caller = .starting .stdout) :
    Step opts others now cmd s
      { s.set .stdout { s.streams .stdout with proxy := .reading } with caller := .starting .stderr }
  /-- The second thread is started. -/
  | startStderr {s : Capture} (h : s.caller = .starting .stderr) :
    Step opts others now cmd s { s.set .stderr { s.streams .stderr with proxy := .reading } with caller := .waiting }
  /-- A thread cannot be started. -/
  | startFails {s : Capture} {src : Source} (h : s.caller = .starting src) :
    Step opts others now cmd s { s with caller := .failing (.start src) }
  /-- The child has ended. -/
  | wait {s : Capture} {status : ExitStatus} (h : s.caller = .waiting) (hstatus : s.status = some status) :
    Step opts others now cmd s { s with caller := .joining .stdout status }
  /-- `wait` fails. -/
  | waitFails {s : Capture} (h : s.caller = .waiting) : Step opts others now cmd s { s with caller := .failing .wait }
  /-- The first thread has ended. -/
  | joinStdout {s : Capture} {status : ExitStatus} (h : s.caller = .joining .stdout status)
      (hended : (s.streams .stdout).proxy = .ended true) :
    Step opts others now cmd s { s with caller := .joining .stderr status }
  /-- The second thread has ended. -/
  | joinStderr {s : Capture} {status : ExitStatus} (h : s.caller = .joining .stderr status)
      (hended : (s.streams .stderr).proxy = .ended true) :
    Step opts others now cmd s { s with caller := .returned (.ok status) }
  /-- A thread has failed. -/
  | joinFails {s : Capture} {src : Source} {status : ExitStatus} (h : s.caller = .joining src status)
      (hended : (s.streams src).proxy = .ended false) :
    Step opts others now cmd s { s with caller := .failing (.proxy src) }
  /-- The scope is left when all its threads have ended. -/
  | returnError {s : Capture} {e : CaptureError} (h : s.caller = .failing e)
      (hended : ∀ src, (s.streams src).proxy = .notStarted ∨ ∃ ok, (s.streams src).proxy = .ended ok) :
    Step opts others now cmd s { s with caller := .returned (.error e) }
  /-- The child writes. -/
  | childWrites {s : Capture} (src : Source) (bytes : List UInt8) (hopen : (s.streams src).closed = false) :
    Step opts others now cmd s (s.set src { s.streams src with
      output := (s.streams src).output ++ bytes, unread := (s.streams src).unread ++ bytes })
  /-- Nobody has the stream open for writing any more. -/
  | childCloses {s : Capture} (src : Source) (hopen : (s.streams src).closed = false) :
    Step opts others now cmd s (s.set src { s.streams src with closed := true })
  /-- The child ends. -/
  | childExits {s : Capture} (status : ExitStatus) (h : s.status = none) :
    Step opts others now cmd s { s with status := some status }
  /-- A line is read, and the time. -/
  | read {s : Capture} {src : Source} {line rest : List UInt8} {timestamp : List Char}
      (h : (s.streams src).proxy = .reading)
      (hline : readLine (s.streams src).closed (s.streams src).unread = some (line, rest)) (hne : line ≠ [])
      (hvalid : (decodeUtf8 line).isSome = true) (hnow : now timestamp) :
    Step opts others now cmd s (s.set src { s.streams src with unread := rest, proxy := .hasLine ⟨src, timestamp, line⟩ })
  /-- A line is not UTF-8. -/
  | readInvalid {s : Capture} {src : Source} {line rest : List UInt8} (h : (s.streams src).proxy = .reading)
      (hline : readLine (s.streams src).closed (s.streams src).unread = some (line, rest)) (hvalid : decodeUtf8 line = none) :
    Step opts others now cmd s (s.set src { s.streams src with unread := rest, proxy := .ended false })
  /-- Reading fails. -/
  | readFails {s : Capture} {src : Source} (h : (s.streams src).proxy = .reading) :
    Step opts others now cmd s (s.set src { s.streams src with proxy := .ended false })
  /-- There is nothing more to read. -/
  | readEnd {s : Capture} {src : Source} {rest : List UInt8} (h : (s.streams src).proxy = .reading)
      (hline : readLine (s.streams src).closed (s.streams src).unread = some ([], rest)) :
    Step opts others now cmd s (s.set src { s.streams src with proxy := .ended true })
  /-- The lock is taken. -/
  | lock {s : Capture} {src : Source} {c : Captured} (h : (s.streams src).proxy = .hasLine c) (hlock : s.lock = none) :
    Step opts others now cmd s
      { s.set src { s.streams src with proxy := .writing c 0 (c.line opts) } with lock := some src }
  /-- Something is written to a file. -/
  | write {s : Capture} {src : Source} {c : Captured} {i : ℕ} {chunk rest : List UInt8}
      (h : (s.streams src).proxy = .writing c i (chunk ++ rest)) :
    Step opts others now cmd s
      { s.set src { s.streams src with proxy := .writing c i rest } with
        files := Function.update s.files i (s.files i ++ chunk) }
  /-- The next file. -/
  | next {s : Capture} {src : Source} {c : Captured} {i : ℕ} (h : (s.streams src).proxy = .writing c i []) (hi : i < others) :
    Step opts others now cmd s (s.set src { s.streams src with proxy := .writing c (i + 1) (c.line opts) })
  /-- After the last file the lock is given back. -/
  | unlock {s : Capture} {src : Source} {c : Captured} (h : (s.streams src).proxy = .writing c others []) :
    Step opts others now cmd s { s.set src { s.streams src with proxy := .reading } with lock := none }
  /-- Writing fails. -/
  | writeFails {s : Capture} {src : Source} {c : Captured} {i : ℕ} {rest : List UInt8}
      (h : (s.streams src).proxy = .writing c i rest) (hrest : rest ≠ []) :
    Step opts others now cmd s { s.set src { s.streams src with proxy := .ended false } with lock := none }

/-- The states that are reached. -/
def Reaches (opts : CaptureOptions) (others : ℕ) (now : List Char → Prop) (cmd : List String) (files : ℕ → List UInt8) :
    Capture → Prop :=
  Relation.ReflTransGen (Step opts others now cmd) (start files)

end Capture

/-! ### What a thread has read -/

/-- These lines have been read from a stream, with `rest` behind them. -/
def HasRead (stream : Stream) (ls : List (List UInt8)) (rest : List UInt8) : Prop :=
  ls.flatten ++ rest = stream.output ∧ Lines (stream.closed = true ∧ rest = []) ls

namespace HasRead

variable {stream : Stream} {ls : List (List UInt8)} {rest : List UInt8}

/-- The lines are the first ones of the output. -/
theorem isPrefix (h : HasRead stream ls rest) : ls <+: readLines stream.output := by
  obtain ⟨houtput, hlines⟩ := h
  rw [← houtput]
  rcases hlines with hall | ⟨⟨-, rfl⟩, hlast⟩
  · rw [readLines_append hall]
    exact List.prefix_append _ _
  · rw [List.append_nil, Lines.readLines_eq (.inr ⟨trivial, hlast⟩)]

/-- Nothing has been left. -/
theorem eq_readLines (h : HasRead stream ls []) : ls = readLines stream.output := by
  obtain ⟨houtput, hlines⟩ := h
  rw [List.append_nil] at houtput
  rw [← houtput, hlines.readLines_eq]

theorem write (h : HasRead stream ls rest) (hopen : stream.closed = false) (bytes unread : List UInt8) :
    HasRead { stream with output := stream.output ++ bytes, unread := unread } ls (rest ++ bytes) := by
  obtain ⟨houtput, hlines⟩ := h
  refine ⟨by rw [← List.append_assoc, houtput], .inl (hlines.resolve_right ?_)⟩
  rintro ⟨⟨hclosed, -⟩, -⟩
  rw [hopen] at hclosed
  cases hclosed

theorem close (h : HasRead stream ls rest) : HasRead { stream with closed := true } ls rest := by
  refine ⟨h.1, h.2.mono ?_⟩
  rintro ⟨-, hrest⟩
  exact ⟨rfl, hrest⟩

/-- The next line. -/
theorem readLine (h : HasRead stream ls stream.unread) {line : List UInt8}
    (hline : IoUtils.readLine stream.closed stream.unread = some (line, rest)) (hne : line ≠ []) :
    HasRead stream (ls ++ [line]) rest := by
  obtain ⟨houtput, hlines⟩ := h
  obtain ⟨hunread, hkind⟩ := readLine_cases hline
  have hall : ∀ l ∈ ls, IsLine l := by
    refine hlines.resolve_right ?_
    rintro ⟨⟨-, hnil⟩, -⟩
    rw [hnil] at hunread
    exact hne (List.append_eq_nil_iff.1 hunread).1
  refine ⟨by rw [List.flatten_append, List.flatten_singleton, List.append_assoc, hunread, houtput], ?_⟩
  rcases hkind with hkind | ⟨hclosed, hrest, hlast⟩
  · refine .inl fun l hl => ?_
    rcases List.mem_append.1 hl with hl | hl
    · exact hall l hl
    · rwa [List.mem_singleton.1 hl]
  · exact .inr ⟨⟨hclosed, hrest⟩, ls, line, rfl, hall, hlast, hne⟩

/-- The lines before the last one. -/
theorem init {line : List UInt8} (h : HasRead stream (ls ++ [line]) rest) : HasRead stream ls (line ++ rest) := by
  obtain ⟨houtput, hlines⟩ := h
  refine ⟨by rw [← houtput, List.flatten_append, List.flatten_singleton, List.append_assoc], .inl fun l hl => ?_⟩
  rcases hlines with hall | ⟨-, before, last, he, hbefore, -⟩
  · exact hall l (List.mem_append_left _ hl)
  · rw [(List.append_inj' he rfl).1] at hl
    exact hbefore l hl

end HasRead

/-! ### Pieces -/

/-- A line, and what the files have got of it. -/
structure Piece where
  /-- The line. -/
  captured : Captured
  /-- What has been written. -/
  written : ℕ → List UInt8

/-- The lines of pieces, as they have been read. -/
def inputLines (pieces : List Piece) : List (List UInt8) := pieces.map (·.captured.inputLine)

/-- The pieces of a stream. -/
def ofSource (src : Source) (pieces : List Piece) : List Piece := pieces.filter (·.captured.source = src)

theorem mem_ofSource {pieces : List Piece} {p : Piece} (h : p ∈ pieces) : p ∈ ofSource p.captured.source pieces :=
  List.mem_filter.2 ⟨h, decide_eq_true rfl⟩

/-- All files have got the line. -/
def Piece.Whole (opts : CaptureOptions) (others : ℕ) (p : Piece) : Prop := ∀ i ≤ others, p.written i = p.captured.line opts

/-- All files have got a beginning of the line. -/
def Piece.Begun (opts : CaptureOptions) (others : ℕ) (p : Piece) : Prop :=
  ∀ i ≤ others, p.written i <+: p.captured.line opts

/-- The files before the number `i` have got the line, that file all but `rest`, and the others nothing. -/
structure Piece.UpTo (opts : CaptureOptions) (i : ℕ) (rest : List UInt8) (p : Piece) : Prop where
  before : ∀ j < i, p.written j = p.captured.line opts
  self : p.written i ++ rest = p.captured.line opts
  after : ∀ j, i < j → p.written j = []

/-- A piece that has just been begun. -/
def Captured.piece (c : Captured) : Piece := ⟨c, fun _ => []⟩

/-- A file gets some more. -/
def Piece.write (i : ℕ) (chunk : List UInt8) (p : Piece) : Piece :=
  { p with written := Function.update p.written i (p.written i ++ chunk) }

section Pieces

variable {opts : CaptureOptions} {others : ℕ} {p : Piece} {i : ℕ} {rest : List UInt8}

theorem Piece.Whole.begun (h : p.Whole opts others) : p.Begun opts others := by
  intro i hi
  rw [h i hi]

theorem Piece.UpTo.begun (h : p.UpTo opts i rest) : p.Begun opts others := by
  intro j _
  rcases Nat.lt_trichotomy j i with hlt | rfl | hlt
  · rw [h.before j hlt]
  · rw [← h.self]
    exact List.prefix_append _ _
  · rw [h.after j hlt]
    exact List.nil_prefix

theorem Piece.UpTo.whole (h : p.UpTo opts others []) : p.Whole opts others := by
  intro j hj
  rcases Nat.lt_or_eq_of_le hj with hlt | rfl
  · exact h.before j hlt
  · rw [← h.self, List.append_nil]

theorem Piece.UpTo.next (h : p.UpTo opts i []) : p.UpTo opts (i + 1) (p.captured.line opts) where
  before j hj := by
    rcases Nat.lt_or_eq_of_le (Nat.le_of_lt_succ hj) with hlt | rfl
    · exact h.before j hlt
    · rw [← h.self, List.append_nil]
  self := by rw [h.after (i + 1) (Nat.lt_succ_self i), List.nil_append]
  after j hj := h.after j (by omega)

theorem Piece.UpTo.write {chunk : List UInt8} (h : p.UpTo opts i (chunk ++ rest)) : (p.write i chunk).UpTo opts i rest where
  before j hj := (Function.update_of_ne (Nat.ne_of_lt hj) ..).trans (h.before j hj)
  self := by
    show Function.update p.written i (p.written i ++ chunk) i ++ rest = _
    rw [Function.update_self, List.append_assoc]
    exact h.self
  after j hj := (Function.update_of_ne (Nat.ne_of_gt hj) ..).trans (h.after j hj)

theorem Captured.upTo_piece (c : Captured) : c.piece.UpTo opts 0 (c.line opts) where
  before _ hj := absurd hj (Nat.not_lt_zero _)
  self := List.nil_append _
  after _ _ := rfl

end Pieces

/-- What is known about a line. -/
structure Captured.Valid (now : List Char → Prop) (src : Source) (c : Captured) : Prop where
  source : c.source = src
  timestamp : now c.timestamp
  utf8 : (decodeUtf8 c.inputLine).isSome = true

section Invariant

variable (opts : CaptureOptions) (others : ℕ) (now : List Char → Prop)

/-- Where a thread is, and the pieces of its stream. -/
inductive Progress (src : Source) (stream : Stream) : List Piece → Prop
  | notStarted (h : stream.proxy = .notStarted) (hread : HasRead stream [] stream.unread) : Progress src stream []
  | reading {mine : List Piece} (h : stream.proxy = .reading) (hwhole : ∀ p ∈ mine, p.Whole opts others)
    (hread : HasRead stream (inputLines mine) stream.unread) : Progress src stream mine
  | hasLine {mine : List Piece} {c : Captured} (h : stream.proxy = .hasLine c) (hwhole : ∀ p ∈ mine, p.Whole opts others)
    (hvalid : c.Valid now src) (hread : HasRead stream (inputLines mine ++ [c.inputLine]) stream.unread) :
    Progress src stream mine
  | writing {before : List Piece} {p : Piece} {i : ℕ} {rest : List UInt8}
    (h : stream.proxy = .writing p.captured i rest) (hwhole : ∀ p ∈ before, p.Whole opts others) (hi : i ≤ others)
    (hupTo : p.UpTo opts i rest) (hread : HasRead stream (inputLines (before ++ [p])) stream.unread) :
    Progress src stream (before ++ [p])
  | done {mine : List Piece} (h : stream.proxy = .ended true) (hwhole : ∀ p ∈ mine, p.Whole opts others)
    (hread : HasRead stream (inputLines mine) []) (hclosed : stream.closed = true) : Progress src stream mine
  | failed {mine : List Piece} (h : stream.proxy = .ended false) (hwhole : ∀ p ∈ mine.dropLast, p.Whole opts others)
    (hbegun : ∀ p ∈ mine, p.Begun opts others) (hread : ∃ rest, HasRead stream (inputLines mine) rest) :
    Progress src stream mine

/-- What the caller knows. -/
def Caller.Knows (status : Option ExitStatus) (proxies : Source → Proxy) : Caller → Prop
  | .start => ∀ src, proxies src = .notStarted
  | .starting .stdout => ∀ src, proxies src = .notStarted
  | .starting .stderr => proxies .stderr = .notStarted
  | .joining .stdout st => status = some st
  | .joining .stderr st => status = some st ∧ proxies .stdout = .ended true
  | .returned (.ok st) => status = some st ∧ ∀ src, proxies src = .ended true
  | _ => True

/-- **The invariant**: what the files consist of. -/
structure Capture.Inv (files : ℕ → List UInt8) (s : Capture) (pieces : List Piece) : Prop where
  files : ∀ i, s.files i = files i ++ pieces.flatMap (·.written i)
  valid : ∀ p ∈ pieces, p.captured.Valid now p.captured.source
  progress : ∀ src, Progress opts others now src (s.streams src) (ofSource src pieces)
  /-- Who writes has the lock, and writes the last piece. -/
  locked : ∀ src c i rest, (s.streams src).proxy = .writing c i rest →
    s.lock = some src ∧ ∃ before p, pieces = before ++ [p] ∧ p.captured.source = src
  caller : s.caller.Knows s.status fun src => (s.streams src).proxy

variable {opts others now} {src : Source} {stream stream' : Stream} {mine : List Piece} {c : Captured} {i : ℕ} {rest : List UInt8}

/-! ### A stream -/

namespace Progress

theorem of_notStarted (h : Progress opts others now src stream mine) (hproxy : stream.proxy = .notStarted) :
    mine = [] ∧ HasRead stream [] stream.unread := by
  cases h with
  | notStarted h hread => exact ⟨rfl, hread⟩
  | reading h | hasLine h | writing h | done h | failed h => cases hproxy.symm.trans h

theorem of_reading (h : Progress opts others now src stream mine) (hproxy : stream.proxy = .reading) :
    (∀ p ∈ mine, p.Whole opts others) ∧ HasRead stream (inputLines mine) stream.unread := by
  cases h with
  | reading h hwhole hread => exact ⟨hwhole, hread⟩
  | notStarted h | hasLine h | writing h | done h | failed h => cases hproxy.symm.trans h

theorem of_hasLine (h : Progress opts others now src stream mine) (hproxy : stream.proxy = .hasLine c) :
    (∀ p ∈ mine, p.Whole opts others) ∧ c.Valid now src ∧
      HasRead stream (inputLines mine ++ [c.inputLine]) stream.unread := by
  cases h with
  | hasLine h hwhole hvalid hread =>
    cases hproxy.symm.trans h
    exact ⟨hwhole, hvalid, hread⟩
  | notStarted h | reading h | writing h | done h | failed h => cases hproxy.symm.trans h

theorem of_writing (h : Progress opts others now src stream mine) (hproxy : stream.proxy = .writing c i rest) :
    ∃ before p, mine = before ++ [p] ∧ p.captured = c ∧ (∀ p ∈ before, p.Whole opts others) ∧ i ≤ others ∧
      p.UpTo opts i rest ∧ HasRead stream (inputLines mine) stream.unread := by
  cases h with
  | writing h hwhole hi hupTo hread =>
    cases hproxy.symm.trans h
    exact ⟨_, _, rfl, rfl, hwhole, hi, hupTo, hread⟩
  | notStarted h | reading h | hasLine h | done h | failed h => cases hproxy.symm.trans h

theorem of_done (h : Progress opts others now src stream mine) (hproxy : stream.proxy = .ended true) :
    (∀ p ∈ mine, p.Whole opts others) ∧ HasRead stream (inputLines mine) [] := by
  cases h with
  | done h hwhole hread => exact ⟨hwhole, hread⟩
  | notStarted h | reading h | hasLine h | writing h | failed h => cases hproxy.symm.trans h

/-- A change of the stream that leaves the thread where it is. -/
theorem change (h : Progress opts others now src stream mine) (hproxy : stream'.proxy = stream.proxy)
    (hread : ∀ ls, HasRead stream ls stream.unread → HasRead stream' ls stream'.unread)
    (hrest : ∀ ls rest, HasRead stream ls rest → ∃ rest', HasRead stream' ls rest')
    (hclosed : stream.closed = true → stream' = stream) : Progress opts others now src stream' mine := by
  cases h with
  | notStarted h hr => exact .notStarted (hproxy.trans h) (hread _ hr)
  | reading h hwhole hr => exact .reading (hproxy.trans h) hwhole (hread _ hr)
  | hasLine h hwhole hvalid hr => exact .hasLine (hproxy.trans h) hwhole hvalid (hread _ hr)
  | writing h hwhole hi hupTo hr => exact .writing (hproxy.trans h) hwhole hi hupTo (hread _ hr)
  | done h hwhole hr hc =>
    rw [hclosed hc]
    exact .done h hwhole hr hc
  | failed h hwhole hbegun hr =>
    obtain ⟨rest, hr⟩ := hr
    exact .failed (hproxy.trans h) hwhole hbegun (hrest _ _ hr)

theorem childWrites (h : Progress opts others now src stream mine) (hopen : stream.closed = false) (bytes : List UInt8) :
    Progress opts others now src
      { stream with output := stream.output ++ bytes, unread := stream.unread ++ bytes } mine := by
  refine h.change rfl (fun ls hread => hread.write hopen _ _) (fun ls rest hread => ⟨_, hread.write hopen _ _⟩) ?_
  intro hclosed
  rw [hopen] at hclosed
  cases hclosed

theorem childCloses (h : Progress opts others now src stream mine) (hopen : stream.closed = false) :
    Progress opts others now src { stream with closed := true } mine := by
  refine h.change rfl (fun ls hread => hread.close) (fun ls rest hread => ⟨_, hread.close⟩) ?_
  intro hclosed
  rw [hopen] at hclosed
  cases hclosed

/-- What is known about the pieces, wherever the thread is. -/
theorem pieces (h : Progress opts others now src stream mine) :
    (∀ p ∈ mine.dropLast, p.Whole opts others) ∧ (∀ p ∈ mine, p.Begun opts others) ∧
      ∃ rest, HasRead stream (inputLines mine) rest := by
  have hall : (∀ p ∈ mine, p.Whole opts others) →
      (∀ p ∈ mine.dropLast, p.Whole opts others) ∧ ∀ p ∈ mine, p.Begun opts others :=
    fun hwhole => ⟨fun p hp => hwhole p (List.mem_of_mem_dropLast hp), fun p hp => (hwhole p hp).begun⟩
  cases h with
  | notStarted h hread => exact ⟨List.forall_mem_nil _, List.forall_mem_nil _, _, hread⟩
  | reading h hwhole hread => exact ⟨(hall hwhole).1, (hall hwhole).2, _, hread⟩
  | hasLine h hwhole hvalid hread => exact ⟨(hall hwhole).1, (hall hwhole).2, _, hread.init⟩
  | done h hwhole hread => exact ⟨(hall hwhole).1, (hall hwhole).2, _, hread⟩
  | failed h hwhole hbegun hread => exact ⟨hwhole, hbegun, hread⟩
  | writing h hwhole hi hupTo hread =>
    refine ⟨fun p hp => hwhole p (by rwa [List.dropLast_concat] at hp), fun p hp => ?_, _, hread⟩
    rcases List.mem_append.1 hp with hp | hp
    · exact (hwhole p hp).begun
    · rw [List.mem_singleton.1 hp]
      exact hupTo.begun

/-- All files have got all lines, except for the one that is being written or has not been written. -/
theorem whole_or (h : Progress opts others now src stream mine) :
    (∀ p ∈ mine, p.Whole opts others) ∨ (∃ c i rest, stream.proxy = .writing c i rest) ∨ stream.proxy = .ended false := by
  cases h with
  | notStarted h hread => exact .inl (List.forall_mem_nil _)
  | reading h hwhole hread => exact .inl hwhole
  | hasLine h hwhole hvalid hread => exact .inl hwhole
  | writing h hwhole hi hupTo hread => exact .inr (.inl ⟨_, _, _, h⟩)
  | done h hwhole hread => exact .inl hwhole
  | failed h hwhole hbegun hread => exact .inr (.inr h)

/-- A thread that fails. -/
theorem fail (h : Progress opts others now src stream mine) (unread : List UInt8) :
    Progress opts others now src { stream with unread := unread, proxy := .ended false } mine := by
  obtain ⟨hwhole, hbegun, rest, hread, hlines⟩ := h.pieces
  exact .failed rfl hwhole hbegun ⟨rest, hread, hlines⟩

theorem start (h : Progress opts others now src stream mine) (hproxy : stream.proxy = .notStarted) :
    Progress opts others now src { stream with proxy := .reading } mine := by
  obtain ⟨rfl, hread⟩ := h.of_notStarted hproxy
  exact .reading rfl (List.forall_mem_nil _) hread

theorem read (h : Progress opts others now src stream mine) (hproxy : stream.proxy = .reading) {line : List UInt8}
    (hline : readLine stream.closed stream.unread = some (line, rest)) (hne : line ≠ [])
    (hvalid : (decodeUtf8 line).isSome = true) {timestamp : List Char} (hnow : now timestamp) :
    Progress opts others now src { stream with unread := rest, proxy := .hasLine ⟨src, timestamp, line⟩ } mine := by
  obtain ⟨hwhole, hread⟩ := h.of_reading hproxy
  exact .hasLine rfl hwhole ⟨rfl, hnow, hvalid⟩ (hread.readLine hline hne)

theorem readEnd (h : Progress opts others now src stream mine) (hproxy : stream.proxy = .reading)
    (hline : readLine stream.closed stream.unread = some ([], rest)) :
    Progress opts others now src { stream with proxy := .ended true } mine := by
  obtain ⟨hwhole, hread⟩ := h.of_reading hproxy
  obtain ⟨hunread, ⟨l, -, hl⟩ | ⟨hclosed, rfl, -⟩⟩ := readLine_cases hline
  · cases (List.append_eq_nil_iff.1 hl.symm).2
  · rw [← hunread] at hread
    exact .done rfl hwhole hread hclosed

/-- The lock is taken, and there is a new piece. -/
theorem lock (h : Progress opts others now src stream mine) (hproxy : stream.proxy = .hasLine c) :
    Progress opts others now src { stream with proxy := .writing c 0 (c.line opts) } (mine ++ [c.piece]) := by
  obtain ⟨hwhole, -, hread⟩ := h.of_hasLine hproxy
  refine .writing rfl hwhole (Nat.zero_le _) c.upTo_piece ?_
  rwa [inputLines, List.map_append]

theorem write {before : List Piece} {p : Piece} {chunk : List UInt8}
    (h : Progress opts others now src stream (before ++ [p])) (hproxy : stream.proxy = .writing c i (chunk ++ rest)) :
    Progress opts others now src { stream with proxy := .writing c i rest } (before ++ [p.write i chunk]) := by
  obtain ⟨before', p', he, rfl, hwhole, hi, hupTo, hread⟩ := h.of_writing hproxy
  obtain ⟨rfl, hp⟩ := List.append_inj' he rfl
  obtain rfl := List.singleton_inj.1 hp
  refine .writing rfl hwhole hi hupTo.write ?_
  rw [inputLines, List.map_append] at hread ⊢
  exact hread

theorem next (h : Progress opts others now src stream mine) (hproxy : stream.proxy = .writing c i []) (hi : i < others) :
    Progress opts others now src { stream with proxy := .writing c (i + 1) (c.line opts) } mine := by
  obtain ⟨before, p, rfl, rfl, hwhole, -, hupTo, hread⟩ := h.of_writing hproxy
  exact .writing rfl hwhole hi hupTo.next hread

theorem unlock (h : Progress opts others now src stream mine) (hproxy : stream.proxy = .writing c others []) :
    Progress opts others now src { stream with proxy := .reading } mine := by
  obtain ⟨before, p, rfl, rfl, hwhole, -, hupTo, hread⟩ := h.of_writing hproxy
  refine .reading rfl (fun p hp => ?_) hread
  rcases List.mem_append.1 hp with hp | hp
  · exact hwhole p hp
  · rw [List.mem_singleton.1 hp]
    exact hupTo.whole

end Progress

/-! ### The caller -/

/-- The caller knows about threads that have not been started and threads that have ended. -/
theorem Caller.Knows.mono {status : Option ExitStatus} {proxies proxies' : Source → Proxy} {caller : Caller}
    (h : caller.Knows status proxies)
    (hkeep : ∀ src, proxies src = .notStarted ∨ proxies src = .ended true → proxies' src = proxies src) :
    caller.Knows status proxies' := by
  cases caller with
  | start => exact fun src => (hkeep src (.inl (h src))).trans (h src)
  | starting src =>
    cases src with
    | stdout => exact fun src => (hkeep src (.inl (h src))).trans (h src)
    | stderr => exact (hkeep .stderr (.inl h)).trans h
  | waiting => exact h
  | joining src status =>
    cases src with
    | stdout => exact h
    | stderr => exact ⟨h.1, (hkeep .stdout (.inr h.2)).trans h.2⟩
  | failing e => exact h
  | returned r =>
    cases r with
    | error e => exact h
    | ok status => exact ⟨h.1, fun src => (hkeep src (.inr (h.2 src))).trans (h.2 src)⟩

/-- The child ends. -/
theorem Caller.Knows.exits {proxies : Source → Proxy} {caller : Caller} (h : caller.Knows none proxies)
    (status : ExitStatus) : caller.Knows (some status) proxies := by
  cases caller with
  | start => exact h
  | starting src =>
    cases src with
    | stdout => exact h
    | stderr => exact h
  | waiting => exact h
  | joining src status =>
    cases src with
    | stdout => cases h
    | stderr => cases h.1
  | failing e => exact h
  | returned r =>
    cases r with
    | error e => exact h
    | ok status => cases h.1

/-! ### Steps -/

namespace Capture.Inv

variable {files : ℕ → List UInt8} {s : Capture} {pieces : List Piece}

theorem knows_set (h : Inv opts others now files s pieces)
    (hkeep : stream.proxy = (s.streams src).proxy ∨
      (s.streams src).proxy ≠ .notStarted ∧ (s.streams src).proxy ≠ .ended true) :
    s.caller.Knows s.status fun other => ((s.set src stream).streams other).proxy := by
  refine h.caller.mono fun other hother => ?_
  by_cases hne : other = src
  · subst hne
    rw [set_streams_self]
    refine hkeep.resolve_right ?_
    rintro ⟨hnot, hended⟩
    exact hother.elim hnot hended
  · rw [set_streams_of_ne _ _ _ hne]

/-- A change of one stream that leaves the pieces as they are. -/
theorem setStream (h : Inv opts others now files s pieces)
    (hprogress : Progress opts others now src stream (ofSource src pieces))
    (hwriting : ∀ c i rest, stream.proxy = .writing c i rest → ∃ c' i' rest', (s.streams src).proxy = .writing c' i' rest')
    {caller : Caller} (hknows : caller.Knows s.status fun other => ((s.set src stream).streams other).proxy) :
    Inv opts others now files { s.set src stream with caller := caller } pieces where
  files := h.files
  valid := h.valid
  progress other := by
    by_cases hne : other = src
    · subst hne
      exact (set_streams_self s other stream).symm ▸ hprogress
    · exact (set_streams_of_ne s src stream hne).symm ▸ h.progress other
  locked other c i rest hother := by
    by_cases hne : other = src
    · subst hne
      obtain ⟨c', i', rest', hold⟩ := hwriting c i rest (set_streams_self s other stream ▸ hother)
      exact h.locked other c' i' rest' hold
    · exact h.locked other c i rest (set_streams_of_ne s src stream hne ▸ hother)
  caller := hknows

/-- The lock is given back. -/
theorem release (h : Inv opts others now files s pieces) (hold : (s.streams src).proxy = .writing c i rest)
    (hprogress : Progress opts others now src stream (ofSource src pieces))
    (hwriting : ∀ c i rest, stream.proxy ≠ .writing c i rest) :
    Inv opts others now files { s.set src stream with lock := none } pieces where
  files := h.files
  valid := h.valid
  progress other := by
    by_cases hne : other = src
    · subst hne
      exact (set_streams_self s other stream).symm ▸ hprogress
    · exact (set_streams_of_ne s src stream hne).symm ▸ h.progress other
  locked other c' i' rest' hother := by
    by_cases hne : other = src
    · subst hne
      exact absurd (set_streams_self s other stream ▸ hother) (hwriting c' i' rest')
    · -- two threads would have the lock
      have hlock := (h.locked other c' i' rest' (set_streams_of_ne s src stream hne ▸ hother)).1
      rw [(h.locked src c i rest hold).1] at hlock
      exact absurd (Option.some.inj hlock).symm hne
  caller := h.knows_set (.inr (by simp [hold]))

theorem lock (h : Inv opts others now files s pieces) (hold : (s.streams src).proxy = .hasLine c) (hlock : s.lock = none) :
    Inv opts others now files
      { s.set src { s.streams src with proxy := .writing c 0 (c.line opts) } with lock := some src }
      (pieces ++ [c.piece]) := by
  obtain ⟨-, hvalid, -⟩ := (h.progress src).of_hasLine hold
  have hsource : c.piece.captured.source = src := hvalid.source
  refine ⟨fun i => ?_, fun p hp => ?_, fun other => ?_, fun other c' i' rest' hother => ?_, h.knows_set (.inr (by simp [hold]))⟩
  · show s.files i = _
    rw [List.flatMap_append, List.flatMap_singleton, h.files i]
    exact (List.append_nil _).symm.trans (List.append_assoc _ _ _)
  · rcases List.mem_append.1 hp with hp | hp
    · exact h.valid p hp
    · rw [List.mem_singleton.1 hp, hsource]
      exact hvalid
  · by_cases hne : other = src
    · subst hne
      have hmine : ofSource other (pieces ++ [c.piece]) = ofSource other pieces ++ [c.piece] := by
        rw [ofSource, List.filter_append, List.filter_cons_of_pos (by simpa using hsource)]
        rfl
      rw [hmine]
      exact (set_streams_self s other _).symm ▸ (h.progress other).lock hold
    · have hmine : ofSource other (pieces ++ [c.piece]) = ofSource other pieces := by
        rw [ofSource, List.filter_append, List.filter_cons_of_neg (by simpa [hsource] using Ne.symm hne)]
        exact List.append_nil _
      rw [hmine]
      exact (set_streams_of_ne s src _ hne).symm ▸ h.progress other
  · by_cases hne : other = src
    · subst hne
      exact ⟨rfl, pieces, c.piece, rfl, hsource⟩
    · have hother' := (h.locked other c' i' rest' (set_streams_of_ne s src _ hne ▸ hother)).1
      rw [hlock] at hother'
      cases hother'

theorem write (h : Inv opts others now files s pieces) {chunk : List UInt8}
    (hold : (s.streams src).proxy = .writing c i (chunk ++ rest)) :
    ∃ pieces', Inv opts others now files
      { s.set src { s.streams src with proxy := .writing c i rest } with
        files := Function.update s.files i (s.files i ++ chunk) } pieces' := by
  obtain ⟨hlock, before, p, rfl, hsource⟩ := h.locked src c i _ hold
  have hsource' : (p.write i chunk).captured.source = src := hsource
  refine ⟨before ++ [p.write i chunk], fun j => ?_, fun q hq => ?_, fun other => ?_, fun other c' i' rest' hother => ?_,
    h.knows_set (.inr (by simp [hold]))⟩
  · have hj := h.files j
    rw [List.flatMap_append, List.flatMap_singleton] at hj ⊢
    by_cases hne : j = i
    · subst hne
      show Function.update s.files j (s.files j ++ chunk) j = _
      have hwritten : (p.write j chunk).written j = p.written j ++ chunk := Function.update_self ..
      rw [Function.update_self, hj, hwritten, List.append_assoc, List.append_assoc]
    · show Function.update s.files i (s.files i ++ chunk) j = _
      have hwritten : (p.write i chunk).written j = p.written j := Function.update_of_ne hne ..
      rw [Function.update_of_ne hne, hj, hwritten]
  · rcases List.mem_append.1 hq with hq | hq
    · exact h.valid q (List.mem_append_left _ hq)
    · rw [List.mem_singleton.1 hq]
      exact h.valid p (List.mem_append_right _ List.mem_cons_self)
  · have hprogress := h.progress other
    rw [ofSource, List.filter_append] at hprogress ⊢
    by_cases hne : other = src
    · subst hne
      rw [List.filter_cons_of_pos (by simpa using hsource), List.filter_nil] at hprogress
      rw [List.filter_cons_of_pos (by simpa using hsource'), List.filter_nil]
      exact (set_streams_self s other _).symm ▸ hprogress.write hold
    · rw [List.filter_cons_of_neg (by simpa [hsource] using Ne.symm hne), List.filter_nil] at hprogress
      rw [List.filter_cons_of_neg (by simpa [hsource'] using Ne.symm hne), List.filter_nil]
      exact (set_streams_of_ne s src _ hne).symm ▸ hprogress
  · by_cases hne : other = src
    · subst hne
      exact ⟨hlock, before, _, rfl, hsource'⟩
    · obtain ⟨hlock', -⟩ := h.locked other c' i' rest' (set_streams_of_ne s src _ hne ▸ hother)
      rw [hlock] at hlock'
      exact absurd (Option.some.inj hlock').symm hne

/-- **Every step keeps the invariant.** -/
theorem step {cmd : List String} (h : Inv opts others now files s pieces) {s' : Capture}
    (hstep : Step opts others now cmd s s') : ∃ pieces', Inv opts others now files s' pieces' := by
  cases hstep with
  | spawn hcaller =>
    have hknows := h.caller
    rw [hcaller] at hknows
    have hnot : ∀ src, (s.streams src).proxy = .notStarted := hknows
    refine ⟨pieces, h.files, h.valid, fun src => ?_, fun src c i rest hw => ?_, hnot⟩
    · obtain ⟨hmine, hread⟩ := (h.progress src).of_notStarted (hnot src)
      rw [hmine]
      exact .notStarted (hnot src) ⟨hread.1, Lines.nil _⟩
    · cases (hnot src).symm.trans hw
  | spawnFails hcaller => exact ⟨pieces, h.files, h.valid, h.progress, h.locked, trivial⟩
  | startStdout hcaller =>
    have hknows := h.caller
    rw [hcaller] at hknows
    have hnot : ∀ src, (s.streams src).proxy = .notStarted := hknows
    refine ⟨pieces, h.setStream ((h.progress _).start (hnot _)) ?_ ?_⟩
    · rintro c i rest ⟨⟩
    · exact hnot .stderr
  | startStderr hcaller =>
    have hknows := h.caller
    rw [hcaller] at hknows
    have hnot : (s.streams .stderr).proxy = .notStarted := hknows
    refine ⟨pieces, h.setStream ((h.progress _).start hnot) ?_ trivial⟩
    rintro c i rest ⟨⟩
  | startFails hcaller => exact ⟨pieces, h.files, h.valid, h.progress, h.locked, trivial⟩
  | wait hcaller hstatus => exact ⟨pieces, h.files, h.valid, h.progress, h.locked, hstatus⟩
  | waitFails hcaller => exact ⟨pieces, h.files, h.valid, h.progress, h.locked, trivial⟩
  | joinStdout hcaller hended =>
    have hstatus := h.caller
    rw [hcaller] at hstatus
    exact ⟨pieces, h.files, h.valid, h.progress, h.locked, hstatus, hended⟩
  | joinStderr hcaller hended =>
    have hknows := h.caller
    rw [hcaller] at hknows
    refine ⟨pieces, h.files, h.valid, h.progress, h.locked, hknows.1, fun src => ?_⟩
    cases src with
    | stdout => exact hknows.2
    | stderr => exact hended
  | joinFails hcaller hended => exact ⟨pieces, h.files, h.valid, h.progress, h.locked, trivial⟩
  | returnError hcaller hended => exact ⟨pieces, h.files, h.valid, h.progress, h.locked, trivial⟩
  | childWrites src bytes hopen =>
    exact ⟨pieces, h.setStream ((h.progress src).childWrites hopen bytes) (fun c i rest hw => ⟨c, i, rest, hw⟩)
      (h.knows_set (.inl rfl))⟩
  | childCloses src hopen =>
    exact ⟨pieces, h.setStream ((h.progress src).childCloses hopen) (fun c i rest hw => ⟨c, i, rest, hw⟩)
      (h.knows_set (.inl rfl))⟩
  | childExits status hnone =>
    refine ⟨pieces, h.files, h.valid, h.progress, h.locked, ?_⟩
    have hknows := h.caller
    rw [hnone] at hknows
    exact hknows.exits status
  | @read src line rest timestamp hproxy hline hne hvalid hnow =>
    refine ⟨pieces, h.setStream ((h.progress src).read hproxy hline hne hvalid hnow) ?_ (h.knows_set (.inr (by simp [hproxy])))⟩
    rintro c i rest ⟨⟩
  | @readInvalid src line rest hproxy hline hvalid =>
    refine ⟨pieces, h.setStream ((h.progress src).fail _) ?_ (h.knows_set (.inr (by simp [hproxy])))⟩
    rintro c i rest ⟨⟩
  | @readFails src hproxy =>
    refine ⟨pieces, h.setStream ((h.progress src).fail _) ?_ (h.knows_set (.inr (by simp [hproxy])))⟩
    rintro c i rest ⟨⟩
  | @readEnd src rest hproxy hline =>
    refine ⟨pieces, h.setStream ((h.progress src).readEnd hproxy hline) ?_ (h.knows_set (.inr (by simp [hproxy])))⟩
    rintro c i rest ⟨⟩
  | lock hproxy hlock => exact ⟨_, h.lock hproxy hlock⟩
  | write hproxy => exact h.write hproxy
  | @next src c i hproxy hi =>
    exact ⟨pieces, h.setStream ((h.progress src).next hproxy hi) (fun _ _ _ _ => ⟨c, i, [], hproxy⟩)
      (h.knows_set (.inr (by simp [hproxy])))⟩
  | @unlock src c hproxy =>
    refine ⟨pieces, h.release hproxy ((h.progress src).unlock hproxy) ?_⟩
    rintro c i rest ⟨⟩
  | @writeFails src c i rest hproxy hrest =>
    refine ⟨pieces, h.release hproxy ((h.progress src).fail _) ?_⟩
    rintro c i rest ⟨⟩

end Capture.Inv

/-- The invariant holds in every state. -/
theorem Capture.inv_of_reaches {cmd : List String} {files : ℕ → List UInt8} {s : Capture}
    (h : Reaches opts others now cmd files s) : ∃ pieces, Inv opts others now files s pieces := by
  induction h with
  | refl =>
    refine ⟨[], fun i => (List.append_nil _).symm, List.forall_mem_nil _, fun src => ?_, ?_, fun src => rfl⟩
    · exact .notStarted rfl ⟨rfl, Lines.nil _⟩
    · rintro src c i rest ⟨⟩
  | tail _ hstep ih =>
    obtain ⟨pieces, hpieces⟩ := ih
    exact hpieces.step hstep

/-- When a status has been returned, everything has been written. -/
theorem Capture.Inv.of_returned {files : ℕ → List UInt8} {s : Capture} {pieces : List Piece} {status : ExitStatus}
    (h : Inv opts others now files s pieces) (hcaller : s.caller = .returned (.ok status)) :
    s.status = some status ∧ (∀ p ∈ pieces, p.Whole opts others) ∧
      ∀ src, inputLines (ofSource src pieces) = readLines (s.streams src).output := by
  have hknows := h.caller
  rw [hcaller] at hknows
  obtain ⟨hstatus, hended⟩ := hknows
  refine ⟨hstatus, fun p hp => ?_, fun src => ((h.progress src).of_done (hended src)).2.eq_readLines⟩
  exact ((h.progress _).of_done (hended _)).1 p (mem_ofSource hp)

/-- The lines that have been read. -/
theorem Capture.Inv.isLine {files : ℕ → List UInt8} {s : Capture} {pieces : List Piece}
    (h : Inv opts others now files s pieces) {p : Piece} (hp : p ∈ pieces) :
    IsLine p.captured.inputLine ∨ newline ∉ p.captured.inputLine ∧ p.captured.inputLine ≠ [] := by
  obtain ⟨-, -, rest, -, hlines⟩ := (h.progress p.captured.source).pieces
  exact hlines.mem (List.mem_map_of_mem (mem_ofSource hp))

/-! ### A command with two outputs -/

namespace Capture

/-- A line of its standard output. -/
def sampleLine : List UInt8 := utf8 ['h', 'i', '\n']

/-- The rest of it, without a line break. -/
def sampleRest : List UInt8 := utf8 ['y', 'o']

/-- Its standard error. -/
def sampleError : List UInt8 := utf8 ['o', 'h', '\n']

section Writing

variable {cmd : List String} {files : ℕ → List UInt8} {s : Capture} {c : Captured} {i : ℕ} {rest : List UInt8}

/-- Some bytes are written. -/
theorem Reaches.take (h : Reaches opts others now cmd files s) (src : Source)
    (hproxy : (s.streams src).proxy = .writing c i rest) (n : ℕ) :
    Reaches opts others now cmd files { s.set src { s.streams src with proxy := .writing c i (rest.drop n) } with
      files := Function.update s.files i (s.files i ++ rest.take n) } :=
  h.tail (.write (by rw [hproxy, List.take_append_drop]))

/-- All of the rest is written to the first file, and then the line to the other one. -/
theorem Reaches.finish (h : Reaches opts 1 now cmd files s) (src : Source)
    (hproxy : (s.streams src).proxy = .writing c 0 rest) :
    Reaches opts 1 now cmd files { s.set src { s.streams src with proxy := .reading } with
      files := Function.update (Function.update s.files 0 (s.files 0 ++ rest)) 1 (s.files 1 ++ c.line opts)
      lock := none } := by
  have hfirst := h.take src hproxy rest.length
  rw [List.take_length, List.drop_length] at hfirst
  have hnext : Reaches opts 1 now cmd files _ :=
    hfirst.tail (.next (congrArg Stream.proxy (set_streams_self s src _)) Nat.one_pos)
  have hlast := hnext.take src (congrArg Stream.proxy (set_streams_self _ src _)) (c.line opts).length
  rw [List.take_length, List.drop_length] at hlast
  have hunlock : Reaches opts 1 now cmd files _ :=
    hlast.tail (.unlock (congrArg Stream.proxy (set_streams_self _ src _)))
  simpa [set] using hunlock

end Writing

/-- A command prints a line to each output, and then more. While a line is written, the other thread waits for the lock. -/
theorem reaches_sample {timestamp : List Char} (hnow : now timestamp) (files : ℕ → List UInt8) :
    ∃ s, Reaches opts 1 now ["greet"] files s ∧ s.caller = .returned (.ok 0) ∧
      (s.streams .stdout).output = sampleLine ++ sampleRest ∧ (s.streams .stderr).output = sampleError := by
  have hvalid (cs : List Char) : (decodeUtf8 (utf8 cs)).isSome = true := by
    rw [decodeUtf8_utf8]
    rfl
  have h₁ : Reaches opts 1 now ["greet"] files _ := .tail .refl (.spawn rfl)
  have h₂ : Reaches opts 1 now ["greet"] files _ := (h₁.tail (.startStdout rfl)).tail (.startStderr rfl)
  have h₃ : Reaches opts 1 now ["greet"] files _ := h₂.tail (.childWrites .stdout sampleLine rfl)
  have h₄ : Reaches opts 1 now ["greet"] files _ := h₃.tail (.childWrites .stderr sampleError rfl)
  have h₅ : Reaches opts 1 now ["greet"] files _ :=
    h₄.tail (@Step.read _ _ _ _ _ .stdout sampleLine [] timestamp rfl rfl (List.cons_ne_nil _ _) (hvalid _) hnow)
  have h₆ : Reaches opts 1 now ["greet"] files _ := h₅.tail (@Step.lock _ _ _ _ _ .stdout _ rfl rfl)
  have h₇ : Reaches opts 1 now ["greet"] files _ := h₆.take .stdout rfl 1
  -- the other thread has a line, and waits
  have h₈ : Reaches opts 1 now ["greet"] files _ :=
    h₇.tail (@Step.read _ _ _ _ _ .stderr sampleError [] timestamp rfl rfl (List.cons_ne_nil _ _) (hvalid _) hnow)
  have h₉ : Reaches opts 1 now ["greet"] files _ := h₈.finish .stdout rfl
  have h₁₀ : Reaches opts 1 now ["greet"] files _ := h₉.tail (@Step.lock _ _ _ _ _ .stderr _ rfl rfl)
  have h₁₁ : Reaches opts 1 now ["greet"] files _ := h₁₀.tail (.childWrites .stdout sampleRest rfl)
  have h₁₂ : Reaches opts 1 now ["greet"] files _ := h₁₁.finish .stderr rfl
  -- the rest of the standard output
  have h₁₃ : Reaches opts 1 now ["greet"] files _ := (h₁₂.tail (.childCloses .stdout rfl)).tail (.childCloses .stderr rfl)
  have h₁₄ : Reaches opts 1 now ["greet"] files _ := h₁₃.tail (.childExits 0 rfl)
  have h₁₅ : Reaches opts 1 now ["greet"] files _ :=
    h₁₄.tail (@Step.read _ _ _ _ _ .stdout sampleRest [] timestamp rfl rfl (List.cons_ne_nil _ _) (hvalid _) hnow)
  have h₁₆ : Reaches opts 1 now ["greet"] files _ := h₁₅.tail (@Step.lock _ _ _ _ _ .stdout _ rfl rfl)
  have h₁₇ : Reaches opts 1 now ["greet"] files _ := h₁₆.finish .stdout rfl
  have h₁₈ : Reaches opts 1 now ["greet"] files _ := h₁₇.tail (@Step.readEnd _ _ _ _ _ .stdout [] rfl rfl)
  have h₁₉ : Reaches opts 1 now ["greet"] files _ := h₁₈.tail (@Step.readEnd _ _ _ _ _ .stderr [] rfl rfl)
  have h₂₀ : Reaches opts 1 now ["greet"] files _ := h₁₉.tail (@Step.wait _ _ _ _ _ 0 rfl rfl)
  have h₂₁ : Reaches opts 1 now ["greet"] files _ := h₂₀.tail (@Step.joinStdout _ _ _ _ _ 0 rfl rfl)
  exact ⟨_, h₂₁.tail (@Step.joinStderr _ _ _ _ _ 0 rfl rfl), rfl, rfl, rfl⟩

end Capture

/-! ### Main results -/

/-- **What is in the files, at any time.** They have got the same lines in the same order, the lines of each stream in their
order, and none of those left out. A line is in all files as a whole, unless its thread is writing it, or has failed with it.
When `run_with_capture` has returned a status, this is the status of the child, and all lines of both streams are in all files. -/
theorem Capture.log_of_reaches {cmd : List String} {files : ℕ → List UInt8} {s : Capture}
    (h : Reaches opts others now cmd files s) :
    ∃ pieces : List Piece, (∀ i, s.files i = files i ++ pieces.flatMap (·.written i)) ∧
      (∀ p ∈ pieces, now p.captured.timestamp ∧ ∀ i ≤ others, p.written i <+: p.captured.line opts) ∧
      (∀ src, inputLines (ofSource src pieces) <+: readLines (s.streams src).output ∧
        (∀ p ∈ (ofSource src pieces).dropLast, p.Whole opts others) ∧
        ((∀ p ∈ ofSource src pieces, p.Whole opts others) ∨ s.lock = some src ∨ (s.streams src).proxy = .ended false)) ∧
      ∀ status, s.caller = .returned (.ok status) → s.status = some status ∧ (∀ p ∈ pieces, p.Whole opts others) ∧
        ∀ src, inputLines (ofSource src pieces) = readLines (s.streams src).output := by
  obtain ⟨pieces, hinv⟩ := inv_of_reaches h
  refine ⟨pieces, hinv.files, fun p hp => ⟨(hinv.valid p hp).timestamp, ?_⟩, fun src => ?_, fun _ => hinv.of_returned⟩
  · exact (hinv.progress _).pieces.2.1 p (mem_ofSource hp)
  · have hprogress := hinv.progress src
    obtain ⟨hwhole, -, rest, hread⟩ := hprogress.pieces
    refine ⟨hread.isPrefix, hwhole, ?_⟩
    rcases hprogress.whole_or with hall | ⟨c, i, rest, hproxy⟩ | hfailed
    · exact .inl hall
    · exact .inr (.inl (hinv.locked src c i rest hproxy).1)
    · exact .inr (.inr hfailed)

/-- All lines are in both files. -/
theorem Capture.log_of_reaches_sample :
    ∃ s : Capture, s.caller = .returned (.ok 0) ∧ ∃ pieces : List Piece,
      (∀ i ≤ 1, s.files i = pieces.flatMap (·.captured.line ⟨true, true⟩)) ∧
      inputLines (ofSource .stdout pieces) = [sampleLine, sampleRest] ∧ inputLines (ofSource .stderr pieces) = [sampleError] := by
  obtain ⟨s, hreaches, hcaller, hstdout, hstderr⟩ :=
    @Capture.reaches_sample ⟨true, true⟩ (fun t => t = ['n', 'o', 'w']) ['n', 'o', 'w'] rfl fun _ => []
  obtain ⟨pieces, hfiles, -, -, hreturned⟩ := Capture.log_of_reaches hreaches
  obtain ⟨-, hwhole, hlines⟩ := hreturned 0 hcaller
  refine ⟨s, hcaller, pieces, fun i hi => ?_, ?_, ?_⟩
  · rw [hfiles i, List.nil_append]
    exact List.flatMap_congr fun p hp => hwhole p hp i hi
  · rw [hlines, hstdout]
    decide +kernel
  · rw [hlines, hstderr]
    decide +kernel

end Invariant

end Evobench.IoUtils

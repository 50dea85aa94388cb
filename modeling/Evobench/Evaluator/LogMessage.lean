import Evobench.Library.Brackets

/-!
# Log messages

The messages of a benchmark log that carry data: timings of points, and key-value entries. Each belongs
to a thread.

* `PointDispatch.fromPointKind`: how a point message is handled.
* `DataMessage.token`: the messages of a thread as a bracketed sequence: a scope, thread or process start
  is an opening with its kind and probe name, and a key-value entry is a mark.
-/

namespace Evobench.Evaluator

open Library

/-- `ProcessId` -/
abbrev ProcessId := UInt64

/-- `ThreadId` -/
abbrev ThreadId := UInt64

/-- A time in nanoseconds. -/
structure NanoTime where
  /-- Seconds. -/
  sec : UInt32
  /-- Nanoseconds. -/
  nsec : UInt32
deriving DecidableEq, Repr

/-- A time in microseconds. -/
structure MicroTime where
  /-- Seconds. -/
  sec : UInt32
  /-- Microseconds. -/
  usec : UInt32
deriving DecidableEq, Repr

/-- A timing. -/
structure Timing where
  /-- Probe name. -/
  pn : String
  /-- The process. -/
  pid : ProcessId
  /-- The thread. -/
  tid : ThreadId
  /-- The number of runs that a start stands for. -/
  n : Option UInt32
  /-- Real time. -/
  r : NanoTime
  /-- User time. -/
  u : MicroTime
  /-- System time. -/
  s : MicroTime
  /-- Maximum resident set size. -/
  maxrss : Option Int64
  /-- Page faults without I/O. -/
  minflt : Option Int64
  /-- Page faults with I/O. -/
  majflt : Option Int64
  /-- Block inputs. -/
  inblock : Option Int64
  /-- Block outputs. -/
  oublock : Option Int64
  /-- Voluntary context switches. -/
  nvcsw : Option Int64
  /-- Involuntary context switches. -/
  nivcsw : Option Int64
deriving DecidableEq

/-- A key-value entry. -/
structure KeyValue where
  /-- The thread. -/
  tid : ThreadId
  /-- The key. -/
  k : String
  /-- The value. -/
  v : String
deriving DecidableEq, Repr

/-- The kinds of points. -/
inductive PointKind where
  /-- Point at process init. -/
  | tStart
  /-- Individual (unpaired) point. -/
  | t
  /-- Point at the start of a scope. -/
  | ts
  /-- Point at the end of a scope. -/
  | te
  /-- Point at thread start. -/
  | tThreadStart
  /-- Point at thread exit. -/
  | tThreadEnd
  /-- Point at process exit. -/
  | tEnd
  /-- Point directly after flushing the buffer for the current thread. -/
  | tio
deriving DecidableEq, Repr

/-- A message with data. -/
inductive DataMessage where
  /-- A key-value entry. -/
  | keyValue (kv : KeyValue)
  /-- A timing. -/
  | timing (kind : PointKind) (timing : Timing)
deriving DecidableEq

/-- The kinds of scopes. -/
inductive ScopeKind where
  /-- The process. -/
  | process
  /-- A thread. -/
  | thread
  /-- A scope in the code. -/
  | scope
deriving DecidableEq, Repr

/-- How a point message is handled. -/
inductive PointDispatch where
  /-- A start or an end. -/
  | scope (kind : ScopeKind) (isEnding : Bool)
  /-- An individual point. -/
  | t
  /-- After a flush. -/
  | tio
deriving DecidableEq, Repr

/-- `from_point_kind` -/
def PointDispatch.fromPointKind : PointKind → PointDispatch
  | .tStart => scope .process false
  | .t => t
  | .ts => scope .scope false
  | .te => scope .scope true
  | .tThreadStart => scope .thread false
  | .tThreadEnd => scope .thread true
  | .tEnd => scope .process true
  | .tio => tio

namespace DataMessage

/-- The thread of a message. -/
def tid : DataMessage → ThreadId
  | keyValue kv => kv.tid
  | timing _ t => t.tid

/-- The message as an element of a bracketed sequence. -/
def token : DataMessage → Token (ScopeKind × String)
  | keyValue _ => .mark
  | timing kind t =>
    match PointDispatch.fromPointKind kind with
    | .scope kind false => .opening (kind, t.pn)
    | .scope kind true => .closing (kind, t.pn)
    | .t => .skip
    | .tio => .skip

/-- The message ends its thread. -/
def isThreadEnd : DataMessage → Bool
  | keyValue _ => false
  | timing kind _ => kind = .tThreadEnd

end DataMessage

/-! ### The messages of a thread -/

/-- A message with the number of spans that were opened before it. -/
abbrev Item := DataMessage × ℕ

/-- An item as an element of a bracketed sequence. -/
def tok (x : Item) : Token (ScopeKind × String) := x.1.token

/-- The number of messages that open a span. -/
def openers (ms : List DataMessage) : ℕ := ms.countP fun m => m.token.isOpener

/-- The messages of a log as items, from the given number on. -/
def numbered : ℕ → List DataMessage → List Item
  | _, [] => []
  | n, m :: ms => (m, n) :: numbered (if m.token.isOpener then n + 1 else n) ms

/-- The messages of one thread by itself. -/
def threadItems (tid : ThreadId) (ms : List DataMessage) : List Item := (numbered 0 ms).filter fun x => x.1.tid = tid

/-- **Well bracketed**: for every thread by itself, every end message matches the innermost open start of the thread in
kind and name, every key-value entry is inside of an open scope, and every scope is closed. -/
def WellBracketed (ms : List DataMessage) : Prop := ∀ tid, Balanced tok false (threadItems tid ms)

theorem numbered_append (n : ℕ) (ms ms' : List DataMessage) :
    numbered n (ms ++ ms') = numbered n ms ++ numbered (n + openers ms) ms' := by
  induction ms generalizing n with
  | nil => simp [numbered, openers]
  | cons m ms ih =>
    rw [List.cons_append, numbered, ih, numbered, List.cons_append]
    by_cases hm : m.token.isOpener = true
    · have hcount : openers (m :: ms) = openers ms + 1 := by simp [openers, hm]
      simp only [hm, if_true, hcount]
      rw [show n + 1 + openers ms = n + (openers ms + 1) by omega]
    · have hcount : openers (m :: ms) = openers ms := by simp [openers, hm]
      simp [hm, hcount]

theorem openers_append (ms ms' : List DataMessage) : openers (ms ++ ms') = openers ms + openers ms' :=
  List.countP_append

theorem openers_singleton (m : DataMessage) : openers [m] = if m.token.isOpener then 1 else 0 :=
  List.countP_singleton

theorem threadItems_append (tid : ThreadId) (ms ms' : List DataMessage) :
    threadItems tid (ms ++ ms') =
      threadItems tid ms ++ (numbered (openers ms) ms').filter fun x => x.1.tid = tid := by
  rw [threadItems, numbered_append, List.filter_append, Nat.zero_add]
  rfl

/-- One more message of the thread. -/
theorem threadItems_snoc_self (ms : List DataMessage) (m : DataMessage) :
    threadItems m.tid (ms ++ [m]) = threadItems m.tid ms ++ [(m, openers ms)] := by
  rw [threadItems_append]
  simp [numbered]

/-- One more message of another thread. -/
theorem threadItems_snoc_of_ne {tid : ThreadId} {m : DataMessage} (h : m.tid ≠ tid) (ms : List DataMessage) :
    threadItems tid (ms ++ [m]) = threadItems tid ms := by
  rw [threadItems_append]
  simp [numbered, h]

/-- After an opening item the numbers are greater. -/
theorem numbered_pairwise (n : ℕ) (ms : List DataMessage) :
    (∀ x ∈ numbered n ms, n ≤ x.2) ∧
      (numbered n ms).Pairwise fun x y => x.2 ≤ y.2 ∧ ((tok x).isOpener = true → x.2 < y.2) := by
  induction ms generalizing n with
  | nil => exact ⟨by simp [numbered], List.Pairwise.nil⟩
  | cons m ms ih =>
    obtain ⟨hle, hpairwise⟩ := ih (if m.token.isOpener then n + 1 else n)
    refine ⟨?_, List.Pairwise.cons ?_ hpairwise⟩
    · intro x hx
      rcases List.mem_cons.1 hx with rfl | hx
      · exact Nat.le_refl _
      · have := hle x hx
        split_ifs at this <;> omega
    · intro x hx
      have := hle x hx
      refine ⟨by split_ifs at this <;> omega, fun hopener => ?_⟩
      rw [if_pos (show m.token.isOpener = true from hopener)] at this
      exact this

theorem threadItems_pairwise (tid : ThreadId) (ms : List DataMessage) :
    (threadItems tid ms).Pairwise fun x y => x.2 ≤ y.2 ∧ ((tok x).isOpener = true → x.2 < y.2) :=
  (numbered_pairwise 0 ms).2.sublist List.filter_sublist

theorem mem_threadItems {tid : ThreadId} {ms : List DataMessage} {x : Item} :
    x ∈ threadItems tid ms ↔ x ∈ numbered 0 ms ∧ x.1.tid = tid := by
  simp [threadItems]

theorem mem_of_numbered {n : ℕ} {ms : List DataMessage} {x : Item} (h : x ∈ numbered n ms) : x.1 ∈ ms := by
  induction ms generalizing n with
  | nil => cases h
  | cons m ms ih =>
    rcases List.mem_cons.1 h with rfl | h
    · exact List.mem_cons_self
    · exact List.mem_cons_of_mem _ (ih h)

/-- The numbers of opening items are less than their count. -/
theorem lt_openers_of_mem {n : ℕ} {ms : List DataMessage} {x : Item} (h : x ∈ numbered n ms)
    (hx : (tok x).isOpener = true) : x.2 < n + openers ms := by
  induction ms generalizing n with
  | nil => cases h
  | cons m ms ih =>
    rcases List.mem_cons.1 h with rfl | h
    · have hcount : openers (m :: ms) = openers ms + 1 := by
        simp [openers, show m.token.isOpener = true from hx]
      simp only
      omega
    · have := ih h
      by_cases hm : m.token.isOpener = true
      · have hcount : openers (m :: ms) = openers ms + 1 := by simp [openers, hm]
        simp only [hm, if_true] at this
        omega
      · have hcount : openers (m :: ms) = openers ms := by simp [openers, hm]
        simp only [hm] at this
        simp only [hcount]
        simpa using this

theorem wellBracketed_iff {ms : List DataMessage} :
    WellBracketed ms ↔ ∀ m ∈ ms, Balanced tok false (threadItems m.tid ms) := by
  constructor
  · exact fun h m _ => h m.tid
  · intro h tid
    cases hitems : threadItems tid ms with
    | nil => exact .nil
    | cons x l =>
      have hx : x ∈ threadItems tid ms := by
        rw [hitems]
        exact List.mem_cons_self
      obtain ⟨hmem, htid⟩ := mem_threadItems.1 hx
      rw [← hitems, ← htid]
      exact h x.1 (mem_of_numbered hmem)

instance (ms : List DataMessage) : Decidable (WellBracketed ms) := decidable_of_iff _ wellBracketed_iff.symm

end Evobench.Evaluator

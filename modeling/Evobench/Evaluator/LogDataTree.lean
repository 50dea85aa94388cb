import Evobench.Evaluator.LogMessage
import Evobench.Library.Program
import Mathlib.Data.List.AList
import Mathlib.Logic.Function.Basic

/-!
# The tree of a log

`LogDataTree.fromLogdata` pairs the start and end timings, and builds up a tree of all spans. It also
indexes spans by probe name.

## The model

* `LogDataTree`: the spans by their ids, and the index.
* `ThreadIdMapper`: the numbers of the threads, by order of appearance.
* `Reader`: the state of the loop: a stack of span ids for each thread, the innermost one first.
* `Reader.step`: one message; `closeScope` is the inner loop that pops the frames up to a scope.

The ids of spans are in the range of `NonZeroU32`: one more span than that is a panic. There are no more
thread numbers than spans, so these have no range of their own here.
-/

namespace Evobench.Evaluator

open Library

/-! ### Spans -/

/-- The id of a span, from 1 on. -/
structure SpanId where
  /-- The number. -/
  id : ℕ
  /-- It is not zero. -/
  pos : 0 < id
  /-- It fits a `u32`. -/
  fits : id < 2 ^ 32
deriving DecidableEq

namespace SpanId

/-- `SpanId::new` -/
def new {ε : Type} (index : ℕ) : Outcome ε SpanId :=
  if hfits : index < 2 ^ 32 then
    if hpos : 0 < index then .ok ⟨index, hpos, hfits⟩ else .panic "index 1-based"
  else .panic "index not outside u32 range"

theorem new_succ {ε : Type} {n : ℕ} (h : n + 1 < 2 ^ 32) :
    (new (n + 1) : Outcome ε SpanId) = .ok ⟨n + 1, Nat.succ_pos n, h⟩ := by
  rw [new, dif_pos h, dif_pos (Nat.succ_pos n)]

/-- The place in the list of spans. -/
def index (id : SpanId) : ℕ := id.id - 1

theorem index_injective {a b : SpanId} (h : a.index = b.index) : a = b := by
  obtain ⟨a, ha, ha'⟩ := a
  obtain ⟨b, hb, hb'⟩ := b
  simp only [index] at h
  obtain rfl : a = b := by omega
  rfl

end SpanId

/-- The internally-allocated thread number, 0-based. -/
abbrev ThreadNumber := ℕ

/-- What a span stands for. -/
inductive SpanData where
  /-- A process, a thread, or a scope; `end_` is missing until the closing timing is read. -/
  | scope (kind : ScopeKind) (threadNumber : ThreadNumber) (start : Timing) (end_ : Option Timing)
  /-- A key-value entry, scoped from issue to the next end of a scope. -/
  | keyValue (kv : KeyValue)
deriving DecidableEq

/-- A span. -/
structure Span where
  /-- The span around it. -/
  parent : Option SpanId
  /-- The key-value entries in it. -/
  children : List SpanId
  /-- What it stands for. -/
  data : SpanData
deriving DecidableEq

namespace Span

/-- The probe name. -/
def pn (span : Span) : Option String :=
  match span.data with
  | .scope _ _ start _ => some start.pn
  | .keyValue _ => none

/-- Set the end of a scope. -/
def setEnd (timing : Timing) (span : Span) : Span :=
  match span.data with
  | .scope kind number start _ => { span with data := .scope kind number start (some timing) }
  | .keyValue _ => span

/-- Add to the child list. -/
def addChild (id : SpanId) (span : Span) : Span := { span with children := span.children ++ [id] }

end Span

/-! ### The tree -/

/-- The spans of a log, and for a probe name all its spans in sequence of their ends. -/
structure LogDataTree where
  /-- The spans. -/
  spans : List Span
  /-- The spans by probe name. -/
  spansByPn : AList fun _ : String => List SpanId

namespace LogDataTree

/-- No spans. -/
def empty : LogDataTree := ⟨[], ∅⟩

/-- `get_from_db` -/
def get? (tree : LogDataTree) (id : SpanId) : Option Span := tree.spans[id.index]?

/-- `add_span` -/
def addSpan {ε : Type} (tree : LogDataTree) (span : Span) : Outcome ε (SpanId × LogDataTree) := do
  let tree := { tree with spans := tree.spans ++ [span] }
  let id ← SpanId.new tree.spans.length
  pure (id, tree)

/-- Change a span (`get_mut_from_db`). -/
def modify (tree : LogDataTree) (id : SpanId) (f : Span → Span) : LogDataTree :=
  { tree with spans := tree.spans.modify id.index f }

/-- Enter a span under its probe name. -/
def addToPn (tree : LogDataTree) (pn : String) (id : SpanId) : LogDataTree :=
  match tree.spansByPn.lookup pn with
  | some ids => { tree with spansByPn := tree.spansByPn.insert pn (ids ++ [id]) }
  | none => { tree with spansByPn := tree.spansByPn.insert pn [id] }

/-- `spans_by_pn` -/
def idsByPn (tree : LogDataTree) (pn : String) : List SpanId := (tree.spansByPn.lookup pn).getD []

end LogDataTree

/-! ### Thread numbers -/

/-- Map from thread id to internally-allocated thread number. -/
structure ThreadIdMapper where
  /-- The next number. -/
  currentThreadNumber : ThreadNumber
  /-- Mappings are removed here when a thread ends! -/
  threadNumberByThreadId : ThreadId → Option ThreadNumber

namespace ThreadIdMapper

/-- `new` -/
def new : ThreadIdMapper := ⟨0, fun _ => none⟩

/-- `to_thread_number`: automatically inserts a mapping if there is none yet. -/
def toThreadNumber (mapper : ThreadIdMapper) (tid : ThreadId) : ThreadNumber × ThreadIdMapper :=
  match mapper.threadNumberByThreadId tid with
  | some number => (number, mapper)
  | none => (mapper.currentThreadNumber, ⟨mapper.currentThreadNumber + 1,
      Function.update mapper.threadNumberByThreadId tid (some mapper.currentThreadNumber)⟩)

/-- `remove_thread_id` -/
def removeThreadId (mapper : ThreadIdMapper) (tid : ThreadId) : ThreadIdMapper :=
  { mapper with threadNumberByThreadId := Function.update mapper.threadNumberByThreadId tid none }

end ThreadIdMapper

/-! ### Reading -/

/-- `ScopeKind` as `{:?}` prints it. -/
def ScopeKind.debug : ScopeKind → String
  | process => "Process"
  | thread => "Thread"
  | scope => "Scope"

/-- The state of the loop in `from_logdata`. -/
structure Reader where
  /-- The tree so far. -/
  tree : LogDataTree
  /-- The thread numbers. -/
  threadIdMapper : ThreadIdMapper
  /-- The spans that are open, the innermost one first; `none` for a thread that has not started anything. -/
  startByThread : ThreadId → Option (List SpanId)

namespace Reader

/-- The state at the start. -/
def new : Reader := ⟨.empty, .new, fun _ => none⟩

/-- Replace the stack of a thread. -/
def setStack (s : Reader) (tid : ThreadId) (stack : List SpanId) : Reader :=
  { s with startByThread := Function.update s.startByThread tid (some stack) }

/-- Make a span of a key-value entry. -/
def addKeyValue (s : Reader) (kv : KeyValue) : Outcome String Reader :=
  match s.startByThread kv.tid with
  | some stack => do
    let (id, tree) ← s.tree.addSpan ⟨stack.head?, [], .keyValue kv⟩
    let tree := match stack.head? with
      | some parent => tree.modify parent (Span.addChild id)
      | none => tree
    pure ({ s with tree := tree }.setStack kv.tid (id :: stack))
  | none => .err "KeyValue must be below some span (but creating a thread counts, too)"

/-- A start message. -/
def openScope (s : Reader) (kind : ScopeKind) (timing : Timing) : Outcome String Reader := do
  let stack := (s.startByThread timing.tid).getD []
  let (number, mapper) := s.threadIdMapper.toThreadNumber timing.tid
  let (id, tree) ← s.tree.addSpan ⟨stack.head?, [], .scope kind number timing none⟩
  pure ({ s with tree := tree, threadIdMapper := mapper }.setStack timing.tid (id :: stack))

/-- The innermost open scope `id`, with probe name `pn`, has ended; `stack` is what is open around it. -/
def endScope (s : Reader) (kind : ScopeKind) (timing : Timing) (pn : String) (id : SpanId) (stack : List SpanId) :
    Reader :=
  { tree := (s.tree.modify id (Span.setEnd timing)).addToPn pn id
    threadIdMapper := if kind = .thread then s.threadIdMapper.removeThreadId timing.tid else s.threadIdMapper
    startByThread := Function.update s.startByThread timing.tid (some stack) }

/-- The loop at an end message: pop the frames up to the innermost scope. -/
def closeScope (s : Reader) (kind : ScopeKind) (timing : Timing) : List SpanId → Outcome String Reader
  | [] => .err "missing messages incl. TS before TE for thread"
  | id :: stack =>
    match s.tree.get? id with
    | none => .panic "index out of bounds"
    | some span =>
      match span.data with
      | .keyValue _ => closeScope s kind timing stack
      | .scope openingScopeKind _ start _ =>
        if openingScopeKind ≠ kind then
          .err s!"expected closing of scope kind {openingScopeKind.debug}, but got {kind.debug}"
        else if start.pn ≠ timing.pn then .panic "assertion `left == right` failed"
        else .ok (s.endScope kind timing start.pn id stack)

/-- One message. -/
def step (s : Reader) : DataMessage → Outcome String Reader
  | .keyValue kv => s.addKeyValue kv
  | .timing kind timing =>
    match PointDispatch.fromPointKind kind with
    | .scope kind false => s.openScope kind timing
    | .scope kind true =>
      match s.startByThread timing.tid with
      | some stack => s.closeScope kind timing stack
      | none => .err "should never happen as TS comes before TE"
    | .t => .ok s
    | .tio => .ok s

/-- All messages. -/
def read (s : Reader) : List DataMessage → Outcome String Reader
  | [] => .ok s
  | m :: ms => s.step m >>= fun s' => s'.read ms

end Reader

/-- `from_logdata` -/
def LogDataTree.fromLogdata (messages : List DataMessage) : Outcome String LogDataTree := do
  let s ← Reader.new.read messages
  pure s.tree

end Evobench.Evaluator

import Evobench.Evaluator.LogDataTree
import Mathlib.Data.List.Sort

/-!
# Call paths

`Span.pathString` shows the path to a span in the tree; `IndexByCallPath` has the spans at each path, across all threads
and processes.

The path is made by a recursion up the tree, with the depth as its fuel. The index is made in parallel, from chunks of the
spans, and the results for the chunks are put together as they come: `ids` are all the spans in the order that comes out of
that. There are no errors in all that, only panics.
-/

namespace Evobench.Evaluator

open Library

/-! ### Paths -/

/-- How paths are shown. -/
structure PathStringOptions where
  /-- Between a span and the next inner one. -/
  normalSeparator : String
  /-- Between a span and the next outer one. -/
  reverseSeparator : String
  /-- Stop when reaching a `ScopeKind.process`. -/
  ignoreProcess : Bool
  /-- Skip showing the process completely. -/
  skipProcess : Bool
  /-- Stop when reaching a `ScopeKind.thread`. -/
  ignoreThread : Bool
  /-- Add the thread number in path strings. -/
  includeThreadNumberInPath : Bool
  /-- Whether to show the top of the tree left (default) or the leafs left (reversed). -/
  reversed : Bool
  /-- A prefix to distinguish this kind of path from others. -/
  pathPrefix : String
deriving DecidableEq

/-- A thread number as it is shown: `thread{:02}` -/
def showThreadNumber (number : ThreadNumber) : String :=
  "thread" ++ (if number < 10 then "0" else "") ++ toString number

/-- The two buffers of `path_string`: the prefix, and the main part of the path. -/
structure PathBuffers where
  /-- `out_prefix` -/
  outPrefix : String
  /-- `out_main` -/
  outMain : String
deriving DecidableEq

namespace PathBuffers

/-- Add to the prefix. -/
def pushPrefix (out : PathBuffers) (s : String) : PathBuffers := { out with outPrefix := out.outPrefix ++ s }

/-- Add to the main part. -/
def pushMain (out : PathBuffers) (s : String) : PathBuffers := { out with outMain := out.outMain ++ s }

end PathBuffers

namespace Span

/-- What is shown for a span at which the path stops. -/
def stop (opts : PathStringOptions) (span : Span) (out : PathBuffers) : Option PathBuffers :=
  match span.data with
  | .scope .process _ _ _ =>
    if opts.skipProcess then some out
    else if opts.ignoreProcess then some ((out.pushPrefix opts.pathPrefix).pushMain "main thread")
    else none
  | .scope .thread number _ _ =>
    if opts.ignoreThread then
      let out := out.pushPrefix opts.pathPrefix
      some (if opts.includeThreadNumberInPath then out.pushMain (showThreadNumber number) else out.pushMain "thread")
    else none
  | .scope .scope _ _ _ => none
  | .keyValue _ => none

/-- What is shown for a span by itself. -/
def pushSelf (opts : PathStringOptions) (span : Span) (out : PathBuffers) : PathBuffers :=
  match span.data with
  | .scope .process _ start _ => (out.pushPrefix "P:").pushMain start.pn
  | .scope .thread number start _ =>
    let out := out.pushMain "T:"
    let out := if opts.includeThreadNumberInPath then out.pushMain (showThreadNumber number) else out
    out.pushMain start.pn
  | .scope .scope _ start _ => out.pushMain start.pn
  | .keyValue kv => ((out.pushMain kv.k).pushMain "=").pushMain kv.v

/-- `path_string` -/
def pathString (opts : PathStringOptions) (db : LogDataTree) : ℕ → Span → PathBuffers → Outcome Empty PathBuffers
  | depth, span, out =>
    match span.stop opts out with
    | some out => .ok out
    | none =>
      match span.parent with
      | none => .ok (span.pushSelf opts out)
      | some parentId =>
        match depth with
        | 0 => .panic "stack overflow"
        | depth + 1 =>
          match db.get? parentId with
          | none => .panic "index out of bounds"
          | some parent =>
            if opts.reversed then
              parent.pathString opts db depth ((span.pushSelf opts out).pushMain opts.reverseSeparator)
            else do
              let out ← parent.pathString opts db depth out
              pure (span.pushSelf opts (out.pushMain opts.normalSeparator))

end Span

/-! ### The index -/

/-- `span_ids`, of the given number of spans -/
def spanIds : ℕ → Outcome Empty (List SpanId)
  | 0 => .ok []
  | n + 1 => do
    let ids ← spanIds n
    let id ← SpanId.new (n + 1)
    pure (ids ++ [id])

/-- Spans at a call path from the top (excluding thread id, i.e. across all threads and processes). -/
structure IndexByCallPath where
  /-- The spans by their path. -/
  spansByCallPath : AList fun _ : String => List SpanId

namespace IndexByCallPath

/-- No spans. -/
def empty : IndexByCallPath := ⟨∅⟩

/-- Add the span for the path. -/
def add (index : IndexByCallPath) (path : String) (id : SpanId) : IndexByCallPath :=
  match index.spansByCallPath.lookup path with
  | some ids => ⟨index.spansByCallPath.insert path (ids ++ [id])⟩
  | none => ⟨index.spansByCallPath.insert path [id]⟩

/-- The path of a span. -/
def path (tree : LogDataTree) (opts : PathStringOptions) (id : SpanId) : Outcome Empty String :=
  match tree.get? id with
  | none => .panic "index out of bounds"
  | some span => do
    let out ← span.pathString opts tree tree.spans.length ⟨"", ""⟩
    pure (out.outPrefix ++ out.outMain)

/-- Add a span for all its paths. -/
def addPaths (tree : LogDataTree) (id : SpanId) (index : IndexByCallPath) :
    List PathStringOptions → Outcome Empty IndexByCallPath
  | [] => .ok index
  | opts :: optss => do
    let path ← path tree opts id
    (index.add path id).addPaths tree id optss

/-- Add spans. -/
def addSpans (tree : LogDataTree) (optss : List PathStringOptions) (index : IndexByCallPath) :
    List SpanId → Outcome Empty IndexByCallPath
  | [] => .ok index
  | id :: ids => do
    let index ← index.addPaths tree id optss
    index.addSpans tree optss ids

/-- `from_logdataindex`, where the time is `t₀` at the start and `t₁` at the end -/
def fromLogdataindex (tree : LogDataTree) (optss : List PathStringOptions) (ids : List SpanId) (t₀ t₁ : ℕ) :
    Outcome Empty IndexByCallPath := do
  let index ← IndexByCallPath.empty.addSpans tree optss ids
  if t₀ ≤ t₁ then pure index
  else .panic "called `Result::unwrap()` on an `Err` value: second time provided was later than self"

/-- `call_paths` -/
def callPaths (index : IndexByCallPath) : List String := index.spansByCallPath.keys.insertionSort (· ≤ ·)

/-- `spans_by_call_path` -/
def idsByCallPath (index : IndexByCallPath) (path : String) : Option (List SpanId) := index.spansByCallPath.lookup path

end IndexByCallPath

/-- `probe_names` -/
def LogDataTree.probeNames (tree : LogDataTree) : List String := tree.spansByPn.keys.insertionSort (· ≤ ·)

end Evobench.Evaluator

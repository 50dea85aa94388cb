import Evobench.Evaluator.IndexByCallPath
import Evobench.StatsTables.Stats
import Evobench.Times.Arithmetic

/-!
# The tables of a run

`from_log_data_tree` makes four tables from the tree of a log, one for each field: real time, cpu time, sys time and context
switches. The rows are statistics over the spans with a probe name, and over those at a call path.

## The model

* `timingExtract`: the value of a field in a timing.
* `scopestats`, `pnStats`: a row.
* `ParCollects`: rows are made in parallel; if there are errors or panics among them, one of these comes out.
* `TableForField`, `FromLogDataTree`: what may come out for a field, and altogether.
-/

namespace Evobench.Evaluator

open Library StatsTables

/-! ### Values -/

namespace Timing

/-- `n`: was not present in old logs, and the count was always 1 -/
def count (timing : Timing) : UInt32 := timing.n.getD 1

/-- `nvcsw` -/
def voluntary (timing : Timing) : Outcome StatsError (Option ℕ) :=
  match timing.nvcsw with
  | none => .ok none
  | some n => if 0 ≤ n.toInt then .ok (some n.toInt.toNat) else .panic "ctx switches (nvcsw) should be non-negative"

/-- `nivcsw` -/
def involuntary (timing : Timing) : Outcome StatsError (Option ℕ) :=
  match timing.nivcsw with
  | none => .ok none
  | some n => if 0 ≤ n.toInt then .ok (some n.toInt.toNat) else .panic "ctx switches (nivcsw) should be non-negative"

end Timing

/-- The fields that there are tables for. -/
inductive Field where
  /-- Real time. -/
  | realTime
  /-- Cpu time. -/
  | cpuTime
  /-- Sys time. -/
  | sysTime
  /-- Context switches. -/
  | ctxSwitches
deriving DecidableEq, Repr

/-- `timing_extract`: a single value out of a timing -/
def timingExtract (field : Field) (timing : Timing) : Outcome StatsError (Option ℕ) :=
  match field with
  | .realTime => .ok (some timing.r.toNsec)
  | .cpuTime => .ok (some timing.u.toUsec)
  | .sysTime => .ok (some timing.s.toUsec)
  | .ctxSwitches => do
    match ← timing.voluntary with
    | none => pure none
    | some nvcsw =>
      match ← timing.involuntary with
      | none => pure none
      | some nivcsw => pure (some (nvcsw + nivcsw))

/-- `start_and_end` -/
def Span.startAndEnd (span : Span) : Outcome StatsError (Option (Timing × Timing)) :=
  match span.data with
  | .scope _ _ start (some end_) => .ok (some (start, end_))
  | .scope _ _ _ none => .panic "properly balanced spans"
  | .keyValue _ => .ok none

/-- The value of a span, if it has one. -/
def weightedValue (field : Field) (span : Span) : Outcome StatsError (Option WeightedValue) := do
  match ← span.startAndEnd with
  | none => pure none
  | some (start, end_) =>
    match ← timingExtract field end_ with
    | none => pure none
    | some endValue =>
      match ← timingExtract field start with
      | none => pure none
      | some startValue =>
        if startValue ≤ endValue then
          if hpos : 0 < start.count.toNat then
            pure (some ⟨UInt64.ofNat (endValue - startValue), start.count, hpos⟩)
          else .panic "num_runs is always at least 1 in the start Timing"
        else .panic "attempt to subtract with overflow"

/-! ### Rows -/

/-- The values of some spans. -/
def weightedValues (field : Field) (tree : LogDataTree) : List SpanId → Outcome StatsError (List WeightedValue)
  | [] => .ok []
  | id :: ids =>
    match tree.get? id with
    | none => .panic "index out of bounds"
    | some span => do
      let val ← weightedValue field span
      let vals ← weightedValues field tree ids
      pure (val.toList ++ vals)

/-- `TILE_COUNT` -/
def tileCount : ℕ := 101

/-- `scopestats` -/
def scopestats (fixed : FixedArithmetic) (field : Field) (tree : LogDataTree) (ids : List SpanId) : Outcome StatsError Stats := do
  let vals ← weightedValues field tree ids
  Stats.fromValues fixed tileCount vals

/-- A key with a value. -/
structure KeyVal (α : Type) where
  /-- The key. -/
  key : String
  /-- The value. -/
  val : α
deriving DecidableEq

/-- Statistics, or just how many spans there are if these have no values. -/
inductive StatsOrCount where
  /-- Statistics. -/
  | stats (stats : Stats)
  /-- A number of spans. -/
  | count (count : ℕ)
deriving DecidableEq

/-- `pn_stats` -/
def pnStats (fixed : FixedArithmetic) (field : Field) (tree : LogDataTree) (ids : List SpanId) (pn : String) :
    Outcome StatsError (KeyVal StatsOrCount) :=
  match scopestats fixed field tree ids with
  | .ok stats => .ok ⟨pn, .stats stats⟩
  | .err .noInputs => .ok ⟨pn, .count ids.length⟩
  | .err e => .err e
  | .panic msg => .panic msg

/-- The rows of a table. -/
abbrev Table := List (KeyVal StatsOrCount)

/-! ### Tables -/

/-- How keys are presented, and what rows are generated. -/
structure KeyRuntimeDetails where
  /-- The separator to use. -/
  normalSeparator : String
  /-- The separator to use in reversed paths. -/
  reverseSeparator : String
  /-- Whether to use the probe names as keys (versus paths). -/
  showProbeNames : Bool
  /-- Whether to show the paths without a thread number. -/
  showPathsWithoutThreadNumber : Bool
  /-- Whether to show the paths with a thread number. -/
  showPathsWithThreadNumber : Bool
  /-- Whether to show the reversed paths, too. -/
  showPathsReversedToo : Bool
  /-- Override the standard prefixes. -/
  pathPrefix : Option String
  /-- Do not show process measurement. -/
  skipProcess : Bool
deriving DecidableEq

/-- The options for one kind of path. -/
def KeyRuntimeDetails.pathOptions (details : KeyRuntimeDetails) (withThreadNumber reversed : Bool) (standardPrefix : String) :
    PathStringOptions where
  normalSeparator := details.normalSeparator
  reverseSeparator := details.reverseSeparator
  ignoreProcess := true
  skipProcess := details.skipProcess
  ignoreThread := true
  includeThreadNumberInPath := withThreadNumber
  reversed := reversed
  pathPrefix := details.pathPrefix.getD standardPrefix

/-- The kinds of paths that there are rows for. -/
def KeyRuntimeDetails.optss (details : KeyRuntimeDetails) : List PathStringOptions :=
  (if details.showPathsWithoutThreadNumber then [details.pathOptions false false "A:"] else []) ++
    (if details.showPathsReversedToo then [details.pathOptions false true "AR:"] else []) ++
    (if details.showPathsWithThreadNumber then
      details.pathOptions true false "N:" ::
        (if details.showPathsReversedToo then [details.pathOptions true true "NR:"] else [])
    else [])

/-- Rows that are made in parallel, and collected: all of them, or one error or panic among them. -/
inductive ParCollects {ε α : Type} (rows : List (Outcome ε α)) : Outcome ε (List α) → Prop where
  /-- All rows are good. -/
  | ok {as : List α} (h : rows = as.map .ok) : ParCollects rows (.ok as)
  /-- A row is an error. -/
  | err {e : ε} (h : .err e ∈ rows) : ParCollects rows (.err e)
  /-- A row is a panic. -/
  | panic {msg : String} (h : .panic msg ∈ rows) : ParCollects rows (.panic msg)

/-- The row for a key, with the spans that are found for it. -/
def rowFor (fixed : FixedArithmetic) (field : Field) (tree : LogDataTree) (ids : Option (List SpanId)) (key : String) :
    Outcome StatsError (KeyVal StatsOrCount) :=
  match ids with
  | some ids => pnStats fixed field tree ids key
  | none => .panic "called `Option::unwrap()` on a `None` value"

/-- The rows for the probe names. -/
def probeRows (fixed : FixedArithmetic) (field : Field) (tree : LogDataTree) : List (Outcome StatsError (KeyVal StatsOrCount)) :=
  tree.probeNames.map fun pn => rowFor fixed field tree (tree.spansByPn.lookup pn) pn

/-- The rows for the paths. -/
def pathRows (fixed : FixedArithmetic) (field : Field) (tree : LogDataTree) (index : IndexByCallPath) :
    List (Outcome StatsError (KeyVal StatsOrCount)) :=
  index.callPaths.map fun path => rowFor fixed field tree (index.idsByCallPath path) path

/-- What may come out of `table_for_field`. -/
inductive TableForField (fixed : FixedArithmetic) (field : Field) (details : KeyRuntimeDetails) (tree : LogDataTree)
    (index : IndexByCallPath) : Outcome StatsError Table → Prop where
  /-- The rows for the probe names (if desired) and for the paths. -/
  | rows {rows : Table} {r : Outcome StatsError Table}
      (hrows : ParCollects (if details.showProbeNames then probeRows fixed field tree else []) (.ok rows))
      (hpaths : ParCollects (pathRows fixed field tree index) r) :
      TableForField fixed field details tree index (r >>= fun rows2 => pure (rows ++ rows2))
  /-- An error in the rows for the probe names. -/
  | err {e : StatsError}
      (hrows : ParCollects (if details.showProbeNames then probeRows fixed field tree else []) (.err e)) :
      TableForField fixed field details tree index (.err e)
  /-- A panic in the rows for the probe names. -/
  | panic {msg : String}
      (hrows : ParCollects (if details.showProbeNames then probeRows fixed field tree else []) (.panic msg)) :
      TableForField fixed field details tree index (.panic msg)

/-- The tables of a run. -/
structure AllFieldsTable where
  /-- What rows there are. -/
  keyDetails : KeyRuntimeDetails
  /-- Real time. -/
  realTime : Table
  /-- Cpu time. -/
  cpuTime : Table
  /-- Sys time. -/
  sysTime : Table
  /-- Context switches. -/
  ctxSwitches : Table

/-- The four tables are made in parallel: a panic in any of them is a panic, and the first error an error. -/
def AllFieldsTable.transpose (details : KeyRuntimeDetails) (tables : Field → Outcome StatsError Table) :
    Outcome StatsError AllFieldsTable :=
  match [Field.realTime, .cpuTime, .sysTime, .ctxSwitches].find? fun field => (tables field).isPanic with
  | some _ => .panic "a table has panicked"
  | none => do
    let realTime ← tables .realTime
    let cpuTime ← tables .cpuTime
    let sysTime ← tables .sysTime
    let ctxSwitches ← tables .ctxSwitches
    pure ⟨details, realTime, cpuTime, sysTime, ctxSwitches⟩

/-- What may come out of `from_log_data_tree`, where the paths are indexed from `t₀` to `t₁` by the system's clock. -/
inductive FromLogDataTree (fixed : FixedArithmetic) (tree : LogDataTree) (details : KeyRuntimeDetails) (t₀ t₁ : ℕ) :
    Outcome StatsError AllFieldsTable → Prop where
  /-- There are too many spans. -/
  | spanIds {msg : String} (h : Evaluator.spanIds tree.spans.length = .panic msg) :
      FromLogDataTree fixed tree details t₀ t₁ (.panic msg)
  /-- The paths cannot be indexed. -/
  | index {all ids : List SpanId} {msg : String} (hall : Evaluator.spanIds tree.spans.length = .ok all)
      (hids : ids.Perm all)
      (h : IndexByCallPath.fromLogdataindex tree details.optss ids t₀ t₁ = .panic msg) :
      FromLogDataTree fixed tree details t₀ t₁ (.panic msg)
  /-- The tables are made. -/
  | tables {all ids : List SpanId} {index : IndexByCallPath} {tables : Field → Outcome StatsError Table}
      (hall : Evaluator.spanIds tree.spans.length = .ok all) (hids : ids.Perm all)
      (h : IndexByCallPath.fromLogdataindex tree details.optss ids t₀ t₁ = .ok index)
      (htables : ∀ field, TableForField fixed field details tree index (tables field)) :
      FromLogDataTree fixed tree details t₀ t₁ (AllFieldsTable.transpose details tables)

end Evobench.Evaluator

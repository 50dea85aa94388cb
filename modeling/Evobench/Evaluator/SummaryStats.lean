import Evobench.Evaluator.Evaluation
import Evobench.Join.OutOfOrder
import Evobench.StatsTables.StatsField

/-!
# Statistics over several runs

`summary_stats_for_field` joins the tables of several runs by their keys, and makes statistics over a field of their
statistics. The tables have the rows for the probe names before those for the paths: they are not in the order of their keys,
which the join needs.

## The model

* `fromValuesFromField`: statistics over values of a field.
* `summaryRow`: the row for a key that has been found.
* `SummaryStatsForField`: what may come out. Rows are made in parallel.

## What is proved

* `twoAscents_table`: the keys of a table.
-/

namespace Evobench.Evaluator

open Library StatsTables

/-! ### The source -/

/-- Statistics over counts, or over values of the kind of the table. -/
inductive SubStats where
  /-- Over counts. -/
  | count (stats : Stats)
  /-- Over values. -/
  | viewType (stats : Stats)
deriving DecidableEq

/-- `field_type_is_count` -/
def fieldTypeIsCount : StatsField → Bool
  | .n => true
  | .sum | .average | .median | .sd | .tile _ => false

/-- `from_values_from_field` -/
def fromValuesFromField (fixed : FixedArithmetic) (statsField : StatsField) (vals : List WeightedValue) :
    Outcome StatsError SubStats :=
  if fieldTypeIsCount statsField then do
    let stats ← Stats.fromValues fixed tileCount vals
    pure (.count stats)
  else do
    let stats ← Stats.fromValues fixed tileCount vals
    pure (.viewType stats)

/-- `all_fields_table_extract` -/
def AllFieldsTable.extract (aft : AllFieldsTable) : Field → Table
  | .realTime => aft.realTime
  | .cpuTime => aft.cpuTime
  | .sysTime => aft.sysTime
  | .ctxSwitches => aft.ctxSwitches

/-- The value of a field, if there is one: of what has been counted only, there is just the number. -/
def fieldValue (debugAssertions : Bool) (statsField : StatsField) : StatsOrCount → Outcome Empty (Option UInt64)
  | .stats stats => do
    let value ← stats.get debugAssertions statsField
    pure (some value)
  | .count count =>
    if statsField = .n then
      if count < 2 ^ 64 then .ok (some (UInt64.ofNat count)) else .panic "hopefully in range, here, too"
    else .ok none

/-- The values that there are. -/
def fieldValues (debugAssertions : Bool) (statsField : StatsField) : List StatsOrCount → Outcome Empty (List WeightedValue)
  | [] => .ok []
  | s :: ss => do
    let value ← fieldValue debugAssertions statsField s
    let values ← fieldValues debugAssertions statsField ss
    pure ((value.map fun value => (⟨value, weightOne, Nat.one_pos⟩ : WeightedValue)).toList ++ values)

/-- The row for a key that has been found; there is none if there are no values. -/
def summaryRow (fixed : FixedArithmetic) (statsField : StatsField) (kv : Join.KeyVal String (List StatsOrCount)) :
    Outcome Empty (Option (KeyVal SubStats)) := do
  let vals ← fieldValues fixed.debugAssertions statsField kv.val
  match fromValuesFromField fixed statsField vals with
  | .ok val => .ok (some ⟨kv.key, val⟩)
  | .err .noInputs => .ok none
  | .err .saturatedU128 => .panic "internal error: entered unreachable code: expecting to never see values > u64"
  | .err .virtualCountDoesNotFitUSize => .panic "internal error: entered unreachable code: on 64bit archs"
  | .err .virtualSumDoesNotFitU96 => .panic "stats error: the virtual sum does not fit the U96 range"
  | .panic msg => .panic msg

/-- The rows of a table, to be joined. -/
def toJoin (table : Table) : List (Join.KeyVal String StatsOrCount) := table.map fun kv => ⟨kv.key, kv.val⟩

section Model

variable (mergeJoinBy : ∀ {α β : Type}, (α → β → Ordering) → List α → List β → List (EitherOrBoth α β))
  (fixed : FixedArithmetic)

/-- `rows_merged` -/
def rowsMerged (tables : List Table) : Outcome Empty (List (Join.KeyVal String (List StatsOrCount))) := do
  let merged ← Join.keyvalInnerJoin mergeJoinBy (tables.map fun table => some (toJoin table))
  Join.expect "at least 1 table" merged

/-- What may come out of `summary_stats_for_field`: the rows are made in parallel. -/
inductive SummaryStatsForField (field : Field) (afts : List AllFieldsTable) (statsField : StatsField) :
    Outcome Empty (List (KeyVal SubStats)) → Prop where
  /-- There are no tables. -/
  | panic {msg : String} (h : rowsMerged mergeJoinBy (afts.map fun aft => aft.extract field) = .panic msg) :
      SummaryStatsForField field afts statsField (.panic msg)
  /-- The rows for the keys that have been found. -/
  | rows {merged : List (Join.KeyVal String (List StatsOrCount))} {r : Outcome Empty (List (Option (KeyVal SubStats)))}
      (h : rowsMerged mergeJoinBy (afts.map fun aft => aft.extract field) = .ok merged)
      (hrows : ParCollects (merged.map (summaryRow fixed statsField)) r) :
      SummaryStatsForField field afts statsField (r >>= fun rows => pure (rows.filterMap id))

/-- The tables of a run, whose log has been accepted. -/
def IsSingleRun (aft : AllFieldsTable) : Prop :=
  ∃ log tree details t₀ t₁, LogDataTree.fromLogData log = .ok tree ∧ FromLogDataTree fixed tree details t₀ t₁ (.ok aft)

end Model

/-! ### The keys of a table -/

/-- The keys of a table. -/
def Table.keys (table : Table) : List String := table.map KeyVal.key

theorem map_key_toJoin (table : Table) : (toJoin table).map Join.KeyVal.key = Table.keys table := by
  rw [toJoin, List.map_map]
  rfl

theorem pnStats_key {fixed : FixedArithmetic} {field : Field} {tree : LogDataTree} {ids : List SpanId} {pn : String}
    {row : KeyVal StatsOrCount} (h : pnStats fixed field tree ids pn = .ok row) : row.key = pn := by
  rw [pnStats] at h
  split at h
  · rw [← Outcome.ok.inj h]
  · rw [← Outcome.ok.inj h]
  · cases h
  · cases h

/-- Rows are collected in the order of their keys. -/
theorem ParCollects.keys_eq {fixed : FixedArithmetic} {field : Field} {tree : LogDataTree} {keys : List String}
    {idsOf : String → Option (List SpanId)} {rows : Table}
    (h : ParCollects (keys.map fun key => rowFor fixed field tree (idsOf key) key) (.ok rows)) : Table.keys rows = keys := by
  cases h with
  | ok h =>
    induction keys generalizing rows with
    | nil => rw [List.map_eq_nil_iff.1 h.symm]; rfl
    | cons key keys ih =>
      obtain ⟨row, rows, rfl, hrow, hrows⟩ := List.map_eq_cons_iff.1 h.symm
      have hkey : row.key = key := by
        have hrow : rowFor fixed field tree (idsOf key) key = .ok row := hrow.symm
        cases hids : idsOf key with
        | none => rw [hids, rowFor] at hrow; cases hrow
        | some ids => rw [hids, rowFor] at hrow; exact pnStats_key hrow
      rw [Table.keys, List.map_cons, hkey]
      exact congrArg _ (ih hrows.symm)

/-- Sorted keys that are all different. -/
theorem pairwise_lt_insertionSort {keys : List String} (h : keys.Nodup) : (keys.insertionSort (· ≤ ·)).Pairwise (· < ·) :=
  ((List.pairwise_insertionSort (· ≤ ·) keys).and ((List.perm_insertionSort (· ≤ ·) keys).nodup_iff.2 h)).imp
    fun hle => lt_of_le_of_ne hle.1 hle.2

/-- **The keys of a table**: the probe names in order, if desired, and the paths in order. -/
theorem twoAscents_table {fixed : FixedArithmetic} {field : Field} {details : KeyRuntimeDetails} {tree : LogDataTree}
    {index : IndexByCallPath} {table : Table} (h : TableForField fixed field details tree index (.ok table)) :
    TwoAscents (Table.keys table) := by
  generalize hr : Outcome.ok table = r at h
  cases h with
  | rows hrows hpaths =>
    obtain ⟨rows2, rfl, he⟩ := Outcome.bind_eq_ok.1 hr.symm
    obtain rfl := Outcome.ok.inj he
    refine ⟨_, _, List.map_append, ?_, ?_⟩
    · cases hshow : details.showProbeNames with
      | false =>
        rw [hshow] at hrows
        cases hrows with
        | ok h => rw [List.map_eq_nil_iff.1 h.symm]; exact List.Pairwise.nil
      | true =>
        rw [hshow] at hrows
        rw [show List.map KeyVal.key _ = tree.probeNames from hrows.keys_eq]
        exact pairwise_lt_insertionSort tree.spansByPn.nodupKeys
    · rw [show List.map KeyVal.key _ = index.callPaths from hpaths.keys_eq]
      exact pairwise_lt_insertionSort index.spansByCallPath.nodupKeys
  | err hrows => cases hr
  | panic hrows => cases hr

theorem transpose_eq_ok {details : KeyRuntimeDetails} {tables : Field → Outcome StatsError Table} {aft : AllFieldsTable}
    (h : AllFieldsTable.transpose details tables = .ok aft) (field : Field) : tables field = .ok (aft.extract field) := by
  unfold AllFieldsTable.transpose at h
  split at h
  · cases h
  · obtain ⟨realTime, hreal, h⟩ := Outcome.bind_eq_ok.1 h
    obtain ⟨cpuTime, hcpu, h⟩ := Outcome.bind_eq_ok.1 h
    obtain ⟨sysTime, hsys, h⟩ := Outcome.bind_eq_ok.1 h
    obtain ⟨ctxSwitches, hctx, h⟩ := Outcome.bind_eq_ok.1 h
    obtain rfl := Outcome.ok.inj h
    cases field with
    | realTime => exact hreal
    | cpuTime => exact hcpu
    | sysTime => exact hsys
    | ctxSwitches => exact hctx

theorem IsSingleRun.twoAscents {fixed : FixedArithmetic} {aft : AllFieldsTable} (h : IsSingleRun fixed aft) (field : Field) :
    TwoAscents (Table.keys (aft.extract field)) := by
  obtain ⟨log, tree, details, t₀, t₁, -, h⟩ := h
  generalize hr : Outcome.ok aft = r at h
  cases h with
  | spanIds h => cases hr
  | index hall hids h => cases hr
  | tables hall hids h htables =>
    have htable := htables field
    rw [transpose_eq_ok hr.symm field] at htable
    exact twoAscents_table htable

end Evobench.Evaluator

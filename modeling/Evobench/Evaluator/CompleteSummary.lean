import Evobench.Evaluator.SummaryStats

/-!
# Complete summaries

A summary should have a row for exactly the keys that all runs have, if there is a value of the field in one of them. Since the
tables are not in the order of their keys, a path that all runs have may be missing, if the runs do not have the same probes.

## The model

* `IsCommon`: which keys there should be a row for. `IsComplete`: the rows are those, with the values of the runs.
* `IsFound`: a key is once in every table, and the join does not pass it by.

## What is proved

* `isComplete_iff`: the summary is complete if and only if all common keys are found.
* `path_is_missing`: two runs that both have a path which the summary does not have.
-/

namespace Evobench.Evaluator

open Library StatsTables

/-! ### Complete summaries -/

/-- There is a value of the field. -/
def IsUsable (statsField : StatsField) : StatsOrCount → Prop
  | .stats _ => True
  | .count _ => statsField = .n

/-- The run holds the value under the key, and no other one. -/
def HoldsUnder (key : String) (table : Table) (val : StatsOrCount) : Prop :=
  (table.filter fun row => row.key = key) = [⟨key, val⟩]

/-- The runs all have the key, and a value of the field in one of them. -/
structure IsCommon (tables : List Table) (statsField : StatsField) (key : String) : Prop where
  /-- It is present in every run. -/
  present : ∀ table ∈ tables, key ∈ Table.keys table
  /-- It holds a usable value in one of them. -/
  usable : ∃ table ∈ tables, ∃ row ∈ table, row.key = key ∧ IsUsable statsField row.val

/-- **A complete summary.** -/
structure IsComplete (fixed : FixedArithmetic) (tables : List Table) (statsField : StatsField) (rows : List (KeyVal SubStats)) :
    Prop where
  /-- There is a row for exactly the keys that are common. -/
  keys : ∀ key, key ∈ rows.map KeyVal.key ↔ IsCommon tables statsField key
  /-- There is one row for each. -/
  nodup : (rows.map KeyVal.key).Nodup
  /-- It has the statistics over the values that the runs hold. -/
  values : ∀ row ∈ rows, ∃ vals values, List.Forall₂ (HoldsUnder row.key) tables vals ∧
    fieldValues fixed.debugAssertions statsField vals = .ok values ∧ fromValuesFromField fixed statsField values = .ok row.val

theorem HoldsUnder.count {key : String} {table : Table} {val : StatsOrCount} (h : HoldsUnder key table val) :
    (Table.keys table).count key = 1 := by
  have hlength := congrArg List.length h
  rw [Table.keys, List.count_eq_countP, List.countP_map, List.countP_eq_length_filter]
  exact hlength

/-- What a run holds under a key that is there once. -/
theorem holdsUnder_of_count {key : String} {table : Table} {val : StatsOrCount} (hcount : (Table.keys table).count key = 1)
    (hmem : ⟨key, val⟩ ∈ table) : HoldsUnder key table val := by
  rw [Table.keys, List.count_eq_countP, List.countP_map, List.countP_eq_length_filter] at hcount
  obtain ⟨row, hrow⟩ := List.length_eq_one_iff.1 hcount
  have hin : (⟨key, val⟩ : KeyVal StatsOrCount) ∈ [row] := by
    rw [← hrow]
    exact List.mem_filter.2 ⟨hmem, decide_eq_true rfl⟩
  rw [← List.mem_singleton.1 hin] at hrow
  exact hrow

theorem forall₂_holdsUnder {key : String} {tables : List Table} {vals : List StatsOrCount}
    (h : List.Forall₂ (fun table val => (⟨key, val⟩ : KeyVal StatsOrCount) ∈ table) tables vals)
    (hcount : ∀ table ∈ tables, (Table.keys table).count key = 1) : List.Forall₂ (HoldsUnder key) tables vals := by
  induction h with
  | nil => exact .nil
  | cons hin _ ih =>
    obtain ⟨hone, hrest⟩ := List.forall_mem_cons.1 hcount
    exact .cons (holdsUnder_of_count hone hin) (ih hrest)

theorem HoldsUnder.eq {table : Table} {val : StatsOrCount} {row : KeyVal StatsOrCount} (h : HoldsUnder row.key table val)
    (hrow : row ∈ table) : row.val = val := by
  have hin : row ∈ [(⟨row.key, val⟩ : KeyVal StatsOrCount)] := by
    rw [← show _ = _ from h]
    exact List.mem_filter.2 ⟨hrow, decide_eq_true rfl⟩
  rw [List.mem_singleton.1 hin]

/-! ### Rows -/

section Rows

variable {fixed : FixedArithmetic} {statsField : StatsField}

theorem fieldValues_eq_nil_iff {debugAssertions : Bool} {ss : List StatsOrCount} {values : List WeightedValue}
    (h : fieldValues debugAssertions statsField ss = .ok values) : values = [] ↔ ∀ s ∈ ss, ¬ IsUsable statsField s := by
  induction ss generalizing values with
  | nil =>
    obtain rfl := Outcome.ok.inj h
    simp
  | cons s ss ih =>
    obtain ⟨value, hvalue, h⟩ := Outcome.bind_eq_ok.1 h
    obtain ⟨rest, hrest, h⟩ := Outcome.bind_eq_ok.1 h
    obtain rfl := Outcome.ok.inj h
    have hone : value = none ↔ ¬ IsUsable statsField s := by
      cases s with
      | stats stats =>
        obtain ⟨n, -, he⟩ := Outcome.bind_eq_ok.1 hvalue
        obtain rfl := Outcome.ok.inj he
        simp [IsUsable]
      | count count =>
        rw [fieldValue] at hvalue
        split at hvalue
        · next hn =>
          split at hvalue
          · obtain rfl := Outcome.ok.inj hvalue
            simp [IsUsable, hn]
          · cases hvalue
        · next hn =>
          obtain rfl := Outcome.ok.inj hvalue
          simp [IsUsable, hn]
    rw [List.forall_mem_cons, List.append_eq_nil_iff, ih hrest, ← hone]
    cases value with
    | none => simp
    | some value => simp

theorem fromValuesFromField_err {values : List WeightedValue} (h : fromValuesFromField fixed statsField values = .err .noInputs) :
    values = [] := by
  by_contra hne
  rw [fromValuesFromField] at h
  rcases fromValues_spec fixed tileCount hne with ⟨-, -, he⟩ | ⟨-, -, stats, he⟩ | ⟨-, msg, he⟩
  · rw [he] at h
    split at h
    · cases h
    · cases h
  · rw [he] at h
    split at h
    · cases h
    · cases h
  · rw [he] at h
    split at h
    · cases h
    · cases h

theorem fromValuesFromField_nil : fromValuesFromField fixed statsField [] = .err .noInputs := by
  rw [fromValuesFromField, fromValues_nil]
  split
  · rfl
  · rfl

/-- **A row**: there is one if there are values. -/
theorem summaryRow_spec {kv : Join.KeyVal String (List StatsOrCount)} {r : Option (KeyVal SubStats)}
    (h : summaryRow fixed statsField kv = .ok r) :
    ∃ values, fieldValues fixed.debugAssertions statsField kv.val = .ok values ∧
      ((values = [] ∧ r = none) ∨
        ∃ val, values ≠ [] ∧ r = some ⟨kv.key, val⟩ ∧ fromValuesFromField fixed statsField values = .ok val) := by
  obtain ⟨values, hvalues, h⟩ := Outcome.bind_eq_ok.1 h
  refine ⟨values, hvalues, ?_⟩
  split at h
  · next val hval =>
    refine .inr ⟨val, ?_, (Outcome.ok.inj h).symm, hval⟩
    rintro rfl
    rw [fromValuesFromField_nil] at hval
    cases hval
  · next hval => exact .inl ⟨fromValuesFromField_err hval, (Outcome.ok.inj h).symm⟩
  · cases h
  · cases h
  · cases h
  · cases h

end Rows

/-! ### All rows -/

/-- **A key is found**: it is once in every table, and it is not passed by. -/
structure IsFound (tables : List Table) (key : String) : Prop where
  /-- It is once in every table. -/
  once : ∀ table ∈ tables, (Table.keys table).count key = 1
  /-- It is not passed by. -/
  meets : Join.Meets key (tables.map Table.keys)

section Summary

variable {mergeJoinBy : ∀ {α β : Type}, (α → β → Ordering) → List α → List β → List (EitherOrBoth α β)}
  {fixed : FixedArithmetic} {statsField : StatsField} {tables : List Table}
  {merged : List (Join.KeyVal String (List StatsOrCount))} {collected : List (Option (KeyVal SubStats))} {key : String}

theorem exists_rowsMerged (hmerge : Merging mergeJoinBy) (hne : tables ≠ [])
    (hascents : ∀ table ∈ tables, TwoAscents (Table.keys table)) :
    ∃ merged, rowsMerged mergeJoinBy tables = .ok merged ∧ Join.IsPartialJoin (tables.map toJoin) merged := by
  have hlength : 1 ≤ (tables.map toJoin).length := by
    rw [List.length_map]
    exact List.length_pos_iff.2 hne
  have hkeys : ∀ s ∈ tables.map toJoin, TwoAscents (s.map Join.KeyVal.key) := by
    rw [List.forall_mem_map]
    intro table htable
    rw [map_key_toJoin]
    exact hascents table htable
  obtain ⟨merged, hmerged, hjoin⟩ := Join.isPartialJoin_keyvalInnerJoin hmerge hlength hkeys
  rw [List.map_map] at hmerged
  refine ⟨merged, ?_, hjoin⟩
  rw [rowsMerged, show (tables.map fun table => some (toJoin table)) = tables.map (some ∘ toJoin) from rfl, hmerged]
  rfl

theorem isPartialJoin_of_rowsMerged (hmerge : Merging mergeJoinBy) (hne : tables ≠ [])
    (hascents : ∀ table ∈ tables, TwoAscents (Table.keys table)) (h : rowsMerged mergeJoinBy tables = .ok merged) :
    Join.IsPartialJoin (tables.map toJoin) merged := by
  obtain ⟨merged', hmerged', hjoin⟩ := exists_rowsMerged hmerge hne hascents
  rwa [Outcome.ok.inj (h.symm.trans hmerged')]

theorem mem_rows_iff (hrows : merged.map (summaryRow fixed statsField) = collected.map .ok) {row : KeyVal SubStats} :
    row ∈ collected.filterMap id ↔ ∃ kv ∈ merged, summaryRow fixed statsField kv = .ok (some row) := by
  rw [← List.mem_map, hrows, List.mem_map, List.mem_filterMap]
  constructor
  · rintro ⟨r, hr, he⟩
    exact ⟨r, hr, congrArg _ he⟩
  · rintro ⟨r, hr, he⟩
    exact ⟨r, hr, Outcome.ok.inj he⟩

/-- Every key that has been found is collected. -/
theorem summaryRow_ok (hrows : merged.map (summaryRow fixed statsField) = collected.map .ok)
    {kv : Join.KeyVal String (List StatsOrCount)} (hkv : kv ∈ merged) : ∃ r, summaryRow fixed statsField kv = .ok r := by
  have hmem := List.mem_map_of_mem (f := summaryRow fixed statsField) hkv
  rw [hrows] at hmem
  obtain ⟨r, -, hr⟩ := List.mem_map.1 hmem
  exact ⟨r, hr.symm⟩

theorem keys_sublist (hrows : merged.map (summaryRow fixed statsField) = collected.map .ok) :
    ((collected.filterMap id).map KeyVal.key).Sublist (merged.map Join.KeyVal.key) := by
  induction merged generalizing collected with
  | nil => rw [List.map_eq_nil_iff.1 hrows.symm]; exact List.nil_sublist _
  | cons kv merged ih =>
    obtain ⟨r, collected, rfl, hr, hrest⟩ := List.map_eq_cons_iff.1 hrows.symm
    have hsub := ih hrest.symm
    obtain ⟨values, -, ⟨-, rfl⟩ | ⟨val, -, rfl, -⟩⟩ := summaryRow_spec hr.symm
    · exact hsub.cons _
    · exact hsub.cons_cons _

/-- What the runs hold under a key that has been found. -/
theorem mem_of_mem_merged (hjoin : Join.IsPartialJoin (tables.map toJoin) merged)
    {kv : Join.KeyVal String (List StatsOrCount)} (hkv : kv ∈ merged) :
    List.Forall₂ (fun table val => (⟨kv.key, val⟩ : KeyVal StatsOrCount) ∈ table) tables kv.val := by
  refine (List.forall₂_map_left_iff.1 (hjoin.values kv hkv)).imp fun table val hmem => ?_
  obtain ⟨row, hrow, he⟩ := List.mem_map.1 hmem
  obtain ⟨hkey, rfl⟩ := Join.KeyVal.mk.inj he
  rw [← hkey]
  exact hrow

/-- A key with a row is common. -/
theorem isCommon_of_row (hjoin : Join.IsPartialJoin (tables.map toJoin) merged) {kv : Join.KeyVal String (List StatsOrCount)}
    (hkv : kv ∈ merged) {values : List WeightedValue}
    (hvalues : fieldValues fixed.debugAssertions statsField kv.val = .ok values) (hne : values ≠ []) :
    IsCommon tables statsField kv.key := by
  have hholds := mem_of_mem_merged hjoin hkv
  constructor
  · intro table htable
    obtain ⟨val, -, hmem⟩ := exists_of_forall₂_left hholds htable
    exact List.mem_map_of_mem (f := KeyVal.key) hmem
  · have husable : ∃ val ∈ kv.val, IsUsable statsField val := by
      by_contra hnot
      exact hne ((fieldValues_eq_nil_iff hvalues).2 fun val hval husable => hnot ⟨val, hval, husable⟩)
    obtain ⟨val, hval, husable⟩ := husable
    obtain ⟨table, htable, hmem⟩ := exists_of_forall₂ hholds hval
    exact ⟨table, htable, _, hmem, rfl, husable⟩

/-- The keys that are found, of those that are once in every table. -/
theorem mem_merged_iff (hjoin : Join.IsPartialJoin (tables.map toJoin) merged)
    (honce : ∀ table ∈ tables, (Table.keys table).count key = 1) :
    key ∈ merged.map Join.KeyVal.key ↔ Join.Meets key (tables.map Table.keys) := by
  have hkeys := hjoin.keys key
  rw [List.forall_mem_map, List.map_map] at hkeys
  simp only [map_key_toJoin] at hkeys
  rw [hkeys honce]
  exact iff_of_eq (congrArg _ (List.map_congr_left fun table _ => map_key_toJoin table))

theorem isFound_of_isComplete (hjoin : Join.IsPartialJoin (tables.map toJoin) merged)
    (hrows : merged.map (summaryRow fixed statsField) = collected.map .ok)
    (h : IsComplete fixed tables statsField (collected.filterMap id)) (hcommon : IsCommon tables statsField key) :
    IsFound tables key := by
  have hmem := (h.keys key).2 hcommon
  obtain ⟨row, hrow, rfl⟩ := List.mem_map.1 hmem
  obtain ⟨vals, -, hholds, -, -⟩ := h.values row hrow
  have honce : ∀ table ∈ tables, (Table.keys table).count row.key = 1 := by
    intro table htable
    obtain ⟨val, -, hval⟩ := exists_of_forall₂_left hholds htable
    exact hval.count
  exact ⟨honce, (mem_merged_iff hjoin honce).1 ((keys_sublist hrows).subset hmem)⟩

theorem isComplete_of_isFound (hne : tables ≠ []) (hjoin : Join.IsPartialJoin (tables.map toJoin) merged)
    (hrows : merged.map (summaryRow fixed statsField) = collected.map .ok)
    (h : ∀ key, IsCommon tables statsField key → IsFound tables key) :
    IsComplete fixed tables statsField (collected.filterMap id) := by
  -- the row of a key
  have hrow : ∀ row ∈ collected.filterMap id, ∃ kv ∈ merged, kv.key = row.key ∧ IsCommon tables statsField kv.key ∧
      ∃ values, fieldValues fixed.debugAssertions statsField kv.val = .ok values ∧
        fromValuesFromField fixed statsField values = .ok row.val := by
    intro row hmem
    obtain ⟨kv, hkv, he⟩ := (mem_rows_iff hrows).1 hmem
    obtain ⟨values, hvalues, ⟨-, hnone⟩ | ⟨val, hne, hsome, hval⟩⟩ := summaryRow_spec he
    · cases hnone
    · obtain rfl := Option.some.inj hsome
      exact ⟨kv, hkv, rfl, isCommon_of_row hjoin hkv hvalues hne, values, hvalues, hval⟩
  have hcommon : ∀ key ∈ (collected.filterMap id).map KeyVal.key, IsCommon tables statsField key := by
    intro key hkey
    obtain ⟨row, hmem, rfl⟩ := List.mem_map.1 hkey
    obtain ⟨kv, -, he, hcommon, -⟩ := hrow row hmem
    rwa [← he]
  refine ⟨fun key => ⟨hcommon key, fun hkey => ?_⟩, ?_, fun row hmem => ?_⟩
  · have hfound := h key hkey
    obtain ⟨kv, hkv, rfl⟩ := List.mem_map.1 ((mem_merged_iff hjoin hfound.once).2 hfound.meets)
    obtain ⟨r, hr⟩ := summaryRow_ok hrows hkv
    obtain ⟨values, hvalues, ⟨hnil, -⟩ | ⟨val, -, rfl, -⟩⟩ := summaryRow_spec hr
    · -- the value that can be used is the one that has been found
      obtain ⟨table, htable, row, hmem, he, husable⟩ := hkey.usable
      obtain ⟨val, hval, hin⟩ := exists_of_forall₂_left (mem_of_mem_merged hjoin hkv) htable
      have hholds := holdsUnder_of_count (hfound.once table htable) hin
      rw [← he] at hholds
      rw [hholds.eq hmem] at husable
      exact absurd husable ((fieldValues_eq_nil_iff hvalues).1 hnil val hval)
    · exact List.mem_map.2 ⟨_, (mem_rows_iff hrows).2 ⟨kv, hkv, hr⟩, rfl⟩
  · obtain ⟨table, htable⟩ := List.exists_mem_of_ne_nil tables hne
    have hsub : ((collected.filterMap id).map KeyVal.key).Sublist (Table.keys table) := by
      rw [← map_key_toJoin]
      exact (keys_sublist hrows).trans (hjoin.sublist _ (List.mem_map_of_mem htable))
    rw [List.nodup_iff_count_le_one]
    intro key
    by_cases hkey : key ∈ (collected.filterMap id).map KeyVal.key
    · rw [← (h key (hcommon key hkey)).once table htable]
      exact hsub.count_le key
    · rw [List.count_eq_zero.2 hkey]
      exact Nat.zero_le 1
  · obtain ⟨kv, hkv, he, hcommon, values, hvalues, hval⟩ := hrow row hmem
    have hfound := h kv.key hcommon
    rw [← he]
    exact ⟨kv.val, values, forall₂_holdsUnder (mem_of_mem_merged hjoin hkv) hfound.once, hvalues, hval⟩

end Summary

/-- **When the summary is complete**: if all keys that are common are once in every table, and not passed by. -/
theorem isComplete_iff {mergeJoinBy : ∀ {α β : Type}, (α → β → Ordering) → List α → List β → List (EitherOrBoth α β)}
    (hmerge : Merging mergeJoinBy) (fixed : FixedArithmetic) (field : Field) (afts : List AllFieldsTable) (hne : afts ≠ [])
    (hruns : ∀ aft ∈ afts, IsSingleRun fixed aft) (statsField : StatsField) (rows : List (KeyVal SubStats))
    (h : SummaryStatsForField mergeJoinBy fixed field afts statsField (.ok rows)) :
    IsComplete fixed (afts.map fun aft => aft.extract field) statsField rows ↔
      ∀ key, IsCommon (afts.map fun aft => aft.extract field) statsField key →
        IsFound (afts.map fun aft => aft.extract field) key := by
  have hascents : ∀ table ∈ afts.map fun aft => aft.extract field, TwoAscents (Table.keys table) := by
    rw [List.forall_mem_map]
    exact fun aft haft => (hruns aft haft).twoAscents field
  have htables : (afts.map fun aft => aft.extract field) ≠ [] := fun he => hne (List.map_eq_nil_iff.1 he)
  generalize hr : Outcome.ok rows = r at h
  cases h with
  | panic hmerged => cases hr
  | rows hmerged hcollected =>
    obtain ⟨collected, rfl, he⟩ := Outcome.bind_eq_ok.1 hr.symm
    obtain rfl := Outcome.ok.inj he
    have hjoin := isPartialJoin_of_rowsMerged hmerge htables hascents hmerged
    cases hcollected with
    | ok hrows =>
      constructor
      · exact fun hcomplete key => isFound_of_isComplete hjoin hrows hcomplete
      · exact isComplete_of_isFound htables hjoin hrows

/-! ### Runs of a process -/

/-- A row for one span has been made, and counts it. -/
def CountsOne (row : KeyVal StatsOrCount) : Prop := fieldValue true .n row.val = .ok (some 1)

/-- The span ends at the time at which it starts. -/
def IsMoment (tree : LogDataTree) (id : SpanId) : Prop :=
  ∃ parent children kind number pn,
    tree.get? id = some ⟨parent, children, .scope kind number (sampleTiming pn 1) (some (sampleTiming pn 1))⟩

section Moments

variable {field : Field} {tree : LogDataTree} {id : SpanId}

theorem weightedValues_of_isMoment (h : IsMoment tree id) {v : ℕ}
    (hv : ∀ pn, timingExtract field (sampleTiming pn 1) = .ok (some v)) :
    weightedValues field tree [id] = .ok [⟨UInt64.ofNat (v - v), 1, by decide⟩] := by
  obtain ⟨parent, children, kind, number, pn, hget⟩ := h
  have hspan : weightedValue field ⟨parent, children, .scope kind number (sampleTiming pn 1) (some (sampleTiming pn 1))⟩ =
      .ok (some ⟨UInt64.ofNat (v - v), 1, by decide⟩) := by
    simp only [weightedValue, Span.startAndEnd, Outcome.ok_bind, hv, le_refl, if_true]
    rfl
  rw [weightedValues, hget]
  dsimp only
  rw [hspan]
  rfl

theorem exists_row (field : Field) (h : IsMoment tree id) (key : String) :
    ∃ row, pnStats (.documented true) field tree [id] key = .ok row ∧ CountsOne row := by
  have hstats (v : ℕ) (hv : ∀ pn, timingExtract field (sampleTiming pn 1) = .ok (some v)) :
      ∃ row, pnStats (.documented true) field tree [id] key = .ok row ∧ CountsOne row := by
    have hvals := weightedValues_of_isMoment h hv
    generalize UInt64.ofNat (v - v) = value at hvals
    rcases fromValues_cases (.documented true) tileCount (List.cons_ne_nil (⟨value, 1, by decide⟩ : WeightedValue) []) with
      ⟨-, hsum, -⟩ | ⟨-, -, median, tiles, he⟩ | ⟨hnot, -⟩
    · have hlt := value.toNat_lt
      have hproduct : totalSum [(⟨value, 1, by decide⟩ : WeightedValue)] = value.toNat * 1 + 0 := rfl
      omega
    · obtain ⟨stats, hstats, hn⟩ : ∃ stats, Stats.fromValues (.documented true) tileCount [⟨value, 1, by decide⟩] = .ok stats ∧
          stats.numValues = 1 := ⟨_, he, rfl⟩
      refine ⟨⟨key, .stats stats⟩, ?_, ?_⟩
      · rw [pnStats, scopestats, hvals, Outcome.ok_bind, hstats]
      · rw [CountsOne, fieldValue, Stats.get, hn]
        rfl
    · exact absurd (statsFit_singleton value) hnot
  cases field with
  | realTime => exact hstats (sampleTiming "" 1).r.toNsec fun _ => rfl
  | cpuTime => exact hstats (sampleTiming "" 1).u.toUsec fun _ => rfl
  | sysTime => exact hstats (sampleTiming "" 1).s.toUsec fun _ => rfl
  | ctxSwitches =>
    -- there are no such counters, so the span is just counted
    obtain ⟨parent, children, kind, number, pn, hget⟩ := h
    have hvals : weightedValues .ctxSwitches tree [id] = .ok [] := by
      rw [weightedValues, hget]
      rfl
    refine ⟨⟨key, .count 1⟩, ?_, rfl⟩
    rw [pnStats, scopestats, hvals]
    rfl

/-- The rows for keys with one such span each. -/
theorem exists_rows (field : Field) {keys : List String} {idsOf : String → Option (List SpanId)}
    (h : ∀ key ∈ keys, ∃ id, idsOf key = some [id] ∧ IsMoment tree id) :
    ∃ rows, ParCollects (keys.map fun key => rowFor (.documented true) field tree (idsOf key) key) (.ok rows) ∧
      Table.keys rows = keys ∧ ∀ row ∈ rows, CountsOne row := by
  have hrow : ∀ key ∈ keys, ∃ row, rowFor (.documented true) field tree (idsOf key) key = .ok row ∧ CountsOne row := by
    intro key hkey
    obtain ⟨id, hids, hmoment⟩ := h key hkey
    rw [hids]
    exact exists_row field hmoment key
  obtain ⟨rows, hrows⟩ : ∃ rows,
      ParCollects (keys.map fun key => rowFor (.documented true) field tree (idsOf key) key) (.ok rows) :=
    ParCollects.exists_ok (by
      rw [List.forall_mem_map]
      intro key hkey
      obtain ⟨row, he, -⟩ := hrow key hkey
      rw [he]
      rfl)
  refine ⟨rows, hrows, hrows.keys_eq, fun row hmem => ?_⟩
  cases hrows with
  | ok he =>
    obtain ⟨key, hkey, hfor⟩ := List.mem_map.1 (he ▸ List.mem_map_of_mem hmem)
    obtain ⟨row', he', hone⟩ := hrow key hkey
    rwa [Outcome.ok.inj (hfor.symm.trans he')]

/-- The tables of a run in which there is one such span for each key. -/
theorem exists_run {index : IndexByCallPath} {ids : List SpanId} (hids : spanIds tree.spans.length = .ok ids)
    (hindex : IndexByCallPath.fromLogdataindex tree sampleDetails.optss ids 5 7 = .ok index)
    (hprobes : ∀ pn ∈ tree.probeNames, ∃ id, tree.spansByPn.lookup pn = some [id] ∧ IsMoment tree id)
    (hpaths : ∀ path ∈ index.callPaths, ∃ id, index.idsByCallPath path = some [id] ∧ IsMoment tree id) :
    ∃ aft, FromLogDataTree (.documented true) tree sampleDetails 5 7 (.ok aft) ∧
      ∀ field, Table.keys (aft.extract field) = tree.probeNames ++ index.callPaths ∧
        ∀ row ∈ aft.extract field, CountsOne row := by
  choose probes hcollects hkeys hone using fun field => exists_rows field hprobes
  choose paths hcollects' hkeys' hone' using fun field => exists_rows field hpaths
  have htable : ∀ field, TableForField (.documented true) field sampleDetails tree index (.ok (probes field ++ paths field)) :=
    fun field => .rows (r := .ok (paths field)) (hcollects field) (hcollects' field)
  have hall : ∀ field, Table.keys (probes field ++ paths field) = tree.probeNames ++ index.callPaths ∧
      ∀ row ∈ probes field ++ paths field, CountsOne row := by
    intro field
    refine ⟨?_, List.forall_mem_append.2 ⟨hone field, hone' field⟩⟩
    rw [← hkeys field, ← hkeys' field, Table.keys, Table.keys, Table.keys, List.map_append]
  refine ⟨⟨sampleDetails, probes .realTime ++ paths .realTime, probes .cpuTime ++ paths .cpuTime,
    probes .sysTime ++ paths .sysTime, probes .ctxSwitches ++ paths .ctxSwitches⟩, .tables hids (.refl ids) hindex htable,
    fun field => ?_⟩
  cases field with
  | realTime => exact hall _
  | cpuTime => exact hall _
  | sysTime => exact hall _
  | ctxSwitches => exact hall _

end Moments

theorem fieldValues_of_countsOne {vals : List StatsOrCount} (h : ∀ val ∈ vals, fieldValue true .n val = .ok (some 1)) :
    fieldValues true .n vals = .ok (vals.map fun _ => ⟨1, weightOne, Nat.one_pos⟩) := by
  induction vals with
  | nil => rfl
  | cons val vals ih =>
    obtain ⟨hval, hvals⟩ := List.forall_mem_cons.1 h
    rw [fieldValues, hval, ih hvals]
    rfl

/-- A row over two runs that count one span each. -/
theorem exists_summaryRow {tables : List Table} {merged : List (Join.KeyVal String (List StatsOrCount))}
    (hlength : tables.length = 2) (hone : ∀ table ∈ tables, ∀ row ∈ table, CountsOne row)
    (hjoin : Join.IsPartialJoin (tables.map toJoin) merged) {kv : Join.KeyVal String (List StatsOrCount)} (hkv : kv ∈ merged) :
    ∃ row, summaryRow (.documented true) .n kv = .ok row := by
  have hholds := mem_of_mem_merged hjoin hkv
  have hvalues : fieldValues true .n kv.val = .ok (kv.val.map fun _ => ⟨1, weightOne, Nat.one_pos⟩) := by
    refine fieldValues_of_countsOne fun val hval => ?_
    obtain ⟨table, htable, hmem⟩ := exists_of_forall₂ hholds hval
    exact hone table htable _ hmem
  have htwo : (kv.val.map fun _ => (⟨1, weightOne, Nat.one_pos⟩ : WeightedValue)) =
      List.replicate 2 ⟨1, weightOne, Nat.one_pos⟩ := by
    rw [List.map_const', ← hholds.length_eq, hlength]
  have hisOk : (fromValuesFromField (.documented true) .n (List.replicate 2 ⟨1, weightOne, Nat.one_pos⟩)).isOk = true := by
    decide +kernel
  rw [summaryRow, show (FixedArithmetic.documented true).debugAssertions = true from rfl, hvalues, htwo, Outcome.ok_bind]
  cases hval : fromValuesFromField (.documented true) .n (List.replicate 2 ⟨1, weightOne, Nat.one_pos⟩) with
  | ok val => exact ⟨_, rfl⟩
  | err e => rw [hval] at hisOk; cases hisOk
  | panic msg => rw [hval] at hisOk; cases hisOk

/-- A process with a scope. -/
def nestedLog (inner : String) : LogData :=
  { processLog 1 3 with
    messages := [[.tStart (sampleTiming "main" 1), .ts (sampleTiming inner 1), .te (sampleTiming inner 1),
      .tEnd (sampleTiming "main" 1)]] }

/-- The id of the scope. -/
def nestedId : SpanId := ⟨2, by decide, by decide⟩

/-- The tree. -/
def nestedTree (inner : String) : LogDataTree where
  spans := [⟨none, [], .scope .process 0 (sampleTiming "main" 1) (some (sampleTiming "main" 1))⟩,
    ⟨some processId, [], .scope .scope 0 (sampleTiming inner 1) (some (sampleTiming inner 1))⟩]
  spansByPn := ((∅ : AList fun _ : String => List SpanId).insert inner [nestedId]).insert "main" [processId]

/-- Its paths. -/
def nestedIndex (inner : String) : IndexByCallPath :=
  ⟨((∅ : AList fun _ : String => List SpanId).insert "A:main thread" [processId]).insert ("A:main thread>" ++ inner) [nestedId]⟩

/-- The keys of the tables. -/
def nestedKeys (inner : String) : List String := [inner, "main", "A:main thread", "A:main thread>" ++ inner]

/-- The run, if the scope has one of two names. -/
theorem exists_nestedRun {inner : String} (h : inner = "a" ∨ inner = "b") :
    ∃ aft, IsSingleRun (.documented true) aft ∧
      FromLogDataTree (.documented true) (nestedTree inner) sampleDetails 5 7 (.ok aft) ∧
      ∀ field, Table.keys (aft.extract field) = nestedKeys inner ∧ ∀ row ∈ aft.extract field, CountsOne row := by
  have hlog : LogDataTree.fromLogData (nestedLog inner) = .ok (nestedTree inner) := by
    rcases h with rfl | rfl
    · rfl
    · rfl
  have hindex : IndexByCallPath.fromLogdataindex (nestedTree inner) sampleDetails.optss [processId, nestedId] 5 7 =
      .ok (nestedIndex inner) := by
    rcases h with rfl | rfl
    · rfl
    · rfl
  have hprocess : IsMoment (nestedTree inner) processId := ⟨_, _, _, _, _, rfl⟩
  have hscope : IsMoment (nestedTree inner) nestedId := ⟨_, _, _, _, _, rfl⟩
  have hkeys : (nestedTree inner).probeNames ++ (nestedIndex inner).callPaths = nestedKeys inner := by
    rcases h with rfl | rfl
    · decide +kernel
    · decide +kernel
  have hprobes : ∀ pn ∈ (nestedTree inner).probeNames, ∃ id, (nestedTree inner).spansByPn.lookup pn = some [id] ∧
      IsMoment (nestedTree inner) id := by
    have hlookup : ∀ pn ∈ (nestedTree inner).probeNames, (nestedTree inner).spansByPn.lookup pn = some [processId] ∨
        (nestedTree inner).spansByPn.lookup pn = some [nestedId] := by
      rcases h with rfl | rfl
      · decide +kernel
      · decide +kernel
    exact fun pn hpn => (hlookup pn hpn).elim (fun he => ⟨_, he, hprocess⟩) fun he => ⟨_, he, hscope⟩
  have hpaths : ∀ path ∈ (nestedIndex inner).callPaths, ∃ id, (nestedIndex inner).idsByCallPath path = some [id] ∧
      IsMoment (nestedTree inner) id := by
    have hlookup : ∀ path ∈ (nestedIndex inner).callPaths, (nestedIndex inner).idsByCallPath path = some [processId] ∨
        (nestedIndex inner).idsByCallPath path = some [nestedId] := by
      rcases h with rfl | rfl
      · decide +kernel
      · decide +kernel
    exact fun path hpath => (hlookup path hpath).elim (fun he => ⟨_, he, hprocess⟩) fun he => ⟨_, he, hscope⟩
  obtain ⟨aft, haft, hrows⟩ := exists_run rfl hindex hprobes hpaths
  refine ⟨aft, ⟨nestedLog inner, nestedTree inner, sampleDetails, 5, 7, hlog, haft⟩, haft, fun field => ?_⟩
  rw [← hkeys]
  exact hrows field

/-- What both runs have. -/
theorem mem_nestedKeys_iff {key : String} :
    key ∈ nestedKeys "a" ∧ key ∈ nestedKeys "b" ↔ key = "main" ∨ key = "A:main thread" := by
  have hall : ∀ key ∈ nestedKeys "a", key ∈ nestedKeys "b" → key = "main" ∨ key = "A:main thread" := by decide +kernel
  constructor
  · exact fun h => hall key h.1 h.2
  · rintro (rfl | rfl)
    · decide +kernel
    · decide +kernel

section Nested

variable {table table' : Table} (hkeys : Table.keys table = nestedKeys "a") (hkeys' : Table.keys table' = nestedKeys "b")
include hkeys hkeys'

theorem isCommon_nested_iff (key : String) : IsCommon [table, table'] .n key ↔ key = "main" ∨ key = "A:main thread" := by
  rw [← mem_nestedKeys_iff, ← hkeys, ← hkeys']
  constructor
  · intro h
    simpa using h.present
  · rintro ⟨hmem, hmem'⟩
    obtain ⟨row, hrow, hkey⟩ := List.mem_map.1 hmem
    refine ⟨by simpa using ⟨hmem, hmem'⟩, _, List.mem_cons_self, row, hrow, hkey, ?_⟩
    cases row.val with
    | stats stats => trivial
    | count count => rfl

/-- What stands ahead of it reaches as far in the one run as in the other. -/
theorem isFound_nested {key : String} (hkey : key = "main" ∨ key = "A:main thread") : IsFound [table, table'] key := by
  have honce : (nestedKeys "a").count key = 1 ∧ (nestedKeys "b").count key = 1 := by
    rcases hkey with rfl | rfl
    · decide +kernel
    · decide +kernel
  have hahead : SameGreatest (ahead key (nestedKeys "a")) (ahead key (nestedKeys "b")) := by
    rcases hkey with rfl | rfl
    · exact ⟨by decide +kernel, by decide +kernel⟩
    · exact ⟨by decide +kernel, by decide +kernel⟩
  constructor
  · simpa [hkeys, hkeys'] using honce
  · simpa [hkeys, hkeys'] using Join.meets_pair_iff.2 hahead

end Nested

/-- **A complete summary** of two runs that differ in a probe: what they have in common is found, since the greatest of the
probes is the same. -/
theorem isComplete_sample :
    ∃ aft aft', FromLogDataTree (.documented true) (nestedTree "a") sampleDetails 5 7 (.ok aft) ∧
      FromLogDataTree (.documented true) (nestedTree "b") sampleDetails 5 7 (.ok aft') ∧
      ∃ rows, SummaryStatsForField mergeJoinBy (.documented true) .realTime [aft, aft'] .n (.ok rows) ∧
        IsComplete (.documented true) ([aft, aft'].map fun aft => aft.extract .realTime) .n rows ∧
        ∀ key, key ∈ rows.map KeyVal.key ↔ key = "main" ∨ key = "A:main thread" := by
  obtain ⟨aft, hrun, haft, hone⟩ := exists_nestedRun (.inl (Eq.refl "a"))
  obtain ⟨aft', hrun', haft', hone'⟩ := exists_nestedRun (.inr (Eq.refl "b"))
  obtain ⟨hkeys, hone⟩ := hone .realTime
  obtain ⟨hkeys', hone'⟩ := hone' .realTime
  have hruns : ∀ x ∈ [aft, aft'], IsSingleRun (.documented true) x := by simpa using ⟨hrun, hrun'⟩
  have hascents : ∀ table ∈ [aft, aft'].map fun aft => aft.extract .realTime, TwoAscents (Table.keys table) := by
    simpa using ⟨hrun.twoAscents .realTime, hrun'.twoAscents .realTime⟩
  obtain ⟨merged, hmerged, hjoin⟩ := exists_rowsMerged merging_mergeJoinBy (List.cons_ne_nil _ _) hascents
  obtain ⟨collected, hcollected⟩ : ∃ collected, ParCollects (merged.map (summaryRow (.documented true) .n)) (.ok collected) :=
    ParCollects.exists_ok (by
      rw [List.forall_mem_map]
      intro kv hkv
      obtain ⟨row, hrow⟩ := exists_summaryRow rfl (by simpa using ⟨hone, hone'⟩) hjoin hkv
      rw [hrow]
      rfl)
  have hrows : SummaryStatsForField mergeJoinBy (.documented true) .realTime [aft, aft'] .n (.ok (collected.filterMap id)) :=
    .rows (r := .ok collected) hmerged hcollected
  have hcommon := isCommon_nested_iff hkeys hkeys'
  have hcomplete := (isComplete_iff merging_mergeJoinBy (.documented true) .realTime [aft, aft'] (List.cons_ne_nil _ _) hruns .n _
    hrows).2 fun key hkey => isFound_nested hkeys hkeys' ((hcommon key).1 hkey)
  exact ⟨aft, aft', haft, haft', _, hrows, hcomplete, fun key => (hcomplete.keys key).trans (hcommon key)⟩

/-- A process with the given name, that starts and ends. -/
def namedLog (pn : String) : LogData :=
  { processLog 1 3 with messages := [[.tStart (sampleTiming pn 1), .tEnd (sampleTiming pn 1)]] }

/-- Its tree. -/
def namedTree (pn : String) : LogDataTree where
  spans := [⟨none, [], .scope .process 0 (sampleTiming pn 1) (some (sampleTiming pn 1))⟩]
  spansByPn := (∅ : AList fun _ : String => List SpanId).insert pn [processId]

/-- Its path. -/
def namedIndex : IndexByCallPath := ⟨(∅ : AList fun _ : String => List SpanId).insert "A:main thread" [processId]⟩

theorem exists_namedRun (pn : String) :
    ∃ aft, FromLogDataTree (.documented true) (namedTree pn) sampleDetails 5 7 (.ok aft) ∧
      Table.keys (aft.extract .realTime) = [pn, "A:main thread"] := by
  have hmoment : IsMoment (namedTree pn) processId := ⟨_, _, _, _, _, rfl⟩
  have hprobes : ∀ name ∈ (namedTree pn).probeNames, ∃ id, (namedTree pn).spansByPn.lookup name = some [id] ∧
      IsMoment (namedTree pn) id := by
    intro name hname
    rw [show (namedTree pn).probeNames = [pn] from rfl, List.mem_singleton] at hname
    exact ⟨processId, hname ▸ AList.lookup_insert _, hmoment⟩
  have hpaths : ∀ path ∈ namedIndex.callPaths, ∃ id, namedIndex.idsByCallPath path = some [id] ∧
      IsMoment (namedTree pn) id := by
    intro path hpath
    rw [show namedIndex.callPaths = ["A:main thread"] from rfl, List.mem_singleton] at hpath
    exact ⟨processId, hpath ▸ AList.lookup_insert _, hmoment⟩
  obtain ⟨aft, haft, hrows⟩ := exists_run rfl rfl hprobes hpaths
  exact ⟨aft, haft, (hrows .realTime).1⟩

/-- **A path is missing**: both runs have it, but they have different probes. -/
theorem path_is_missing :
    LogDataTree.fromLogData (namedLog "main") = .ok (namedTree "main") ∧
      LogDataTree.fromLogData (namedLog "z") = .ok (namedTree "z") ∧
      ∃ aft aft', FromLogDataTree (.documented true) (namedTree "main") sampleDetails 5 7 (.ok aft) ∧
        FromLogDataTree (.documented true) (namedTree "z") sampleDetails 5 7 (.ok aft') ∧
        SummaryStatsForField mergeJoinBy (.documented true) .realTime [aft, aft'] .n (.ok []) ∧
        IsCommon ([aft, aft'].map fun aft => aft.extract .realTime) .n "A:main thread" ∧
        ¬ IsComplete (.documented true) ([aft, aft'].map fun aft => aft.extract .realTime) .n [] := by
  obtain ⟨aft, haft, hkeys⟩ := exists_namedRun "main"
  obtain ⟨aft', haft', hkeys'⟩ := exists_namedRun "z"
  have hascents : ∀ table ∈ [aft, aft'].map fun aft => aft.extract .realTime, TwoAscents (Table.keys table) := by
    have hrun : IsSingleRun (.documented true) aft := ⟨namedLog "main", namedTree "main", sampleDetails, 5, 7, rfl, haft⟩
    have hrun' : IsSingleRun (.documented true) aft' := ⟨namedLog "z", namedTree "z", sampleDetails, 5, 7, rfl, haft'⟩
    simpa using ⟨hrun.twoAscents .realTime, hrun'.twoAscents .realTime⟩
  obtain ⟨merged, hmerged, hjoin⟩ := exists_rowsMerged merging_mergeJoinBy (List.cons_ne_nil _ _) hascents
  -- the only common key is passed by
  have hnone : merged = [] := by
    refine List.eq_nil_iff_forall_not_mem.2 fun kv hkv => ?_
    have hmem := List.mem_map_of_mem (f := Join.KeyVal.key) hkv
    have hsub := hjoin.sublist
    simp only [List.map_cons, List.map_nil, List.forall_mem_cons, map_key_toJoin, hkeys, hkeys'] at hsub
    have hkey : kv.key = "A:main thread" := by
      have hfirst := hsub.1.subset hmem
      have hsecond := hsub.2.1.subset hmem
      rcases List.mem_cons.1 hfirst with he | he
      · rw [he] at hsecond
        simp at hsecond
      · exact List.mem_singleton.1 he
    rw [hkey] at hmem
    have hmeets : Join.Meets "A:main thread" _ := (mem_merged_iff hjoin (by simp [hkeys, hkeys'])).1 hmem
    simp only [List.map_cons, List.map_nil, hkeys, hkeys'] at hmeets
    obtain ⟨k, hk, hle⟩ := (Join.meets_pair_iff.1 hmeets).right "z" (by decide +kernel)
    rw [show ahead "A:main thread" ["main", "A:main thread"] = ["main"] by decide +kernel, List.mem_singleton] at hk
    rw [hk] at hle
    exact absurd hle (by decide +kernel)
  subst hnone
  have hcommon : IsCommon ([aft, aft'].map fun aft => aft.extract .realTime) .n "A:main thread" := by
    have hmem : "A:main thread" ∈ Table.keys (aft.extract .realTime) := by simp [hkeys]
    constructor
    · simp [hkeys, hkeys']
    · obtain ⟨row, hrow, hkey⟩ := List.mem_map.1 hmem
      refine ⟨_, List.mem_cons_self, row, hrow, hkey, ?_⟩
      cases row.val with
      | stats stats => trivial
      | count count => rfl
  refine ⟨rfl, rfl, aft, aft', haft, haft', .rows (r := .ok []) hmerged (.ok rfl), hcommon, fun hcomplete => ?_⟩
  cases (hcomplete.keys _).2 hcommon

end Evobench.Evaluator

import Evobench.Evaluator.Acceptance
import Evobench.Evaluator.AllFieldsTable
import Evobench.Evaluator.LogData
import Evobench.StatsTables.FromValues

/-!
# When a log can be evaluated

The tree of an accepted log is well formed (`wellFormed_of_fromLogData`), so all paths can be made and all ids be looked up.
But a span may be open, its end may be before its start, and so on: `RowFits` says when a row can be made, and
`evaluation_never_panics_iff` when the evaluation of an accepted log does not panic.
-/

namespace Evobench.Evaluator

open Library StatsTables

/-! ### Trees of accepted logs -/

/-- A tree in which all ids are those of spans, and parents are before their children. -/
structure WellFormed (tree : LogDataTree) : Prop where
  /-- All spans have ids. -/
  length : tree.spans.length < 2 ^ 32
  /-- Parents are before their children. -/
  parents : ∀ (i : ℕ) (span : Span), tree.spans[i]? = some span → ∀ id ∈ span.parent, SpanId.index id < i
  /-- The ids of the probes are those of spans. -/
  byPn : ∀ pn, ∀ id ∈ tree.idsByPn pn, SpanId.index id < tree.spans.length

theorem Reads.wellFormed {ms : List DataMessage} {lifetime : ThreadNumber → ThreadId × ℕ} {s : Reader}
    (h : Reads ms lifetime s) : WellFormed s.tree where
  length := by
    rw [h.length]
    exact h.fits
  parents i span hspan id hid := by
    have hcore : s.tree.cores[i]? = some (span.parent, span.data) := by
      rw [LogDataTree.cores, List.getElem?_map, hspan, Option.map_some]
    obtain ⟨tid, before, m, after, hat⟩ := h.spans i span.parent span.data hcore
    have hparent := hat.parentIs
    rw [show span.parent = some id from hid] at hparent
    obtain ⟨a, x, b, hbefore, hx, hindex, -⟩ := hparent
    have hpairwise := threadItems_pairwise tid ms
    rw [hat.split, hbefore, List.append_assoc, List.cons_append] at hpairwise
    have hlt := (List.pairwise_cons.1 (List.pairwise_append.1 hpairwise).2.1).1 (m, i)
      (List.mem_append_right _ List.mem_cons_self)
    rw [← hindex]
    exact hlt.2 hx
  byPn pn id hid := by
    obtain ⟨parent, kind, number, start, e, hcore, -⟩ := ((h.byPn pn).2 id).1 hid
    rw [← LogDataTree.length_cores]
    exact (List.getElem?_eq_some_iff.1 hcore).1

/-- The messages of an accepted log all have data. -/
theorem read_of_readMessages {s s' : Reader} {messages : List LogMessage} (h : s.readMessages messages = .ok s') :
    ∃ ms, messages.map LogMessage.optDataMessage = ms.map some ∧ s.read ms = .ok s' := by
  induction messages generalizing s with
  | nil => exact ⟨[], rfl, h⟩
  | cons message messages ih =>
    rw [Reader.readMessages] at h
    obtain ⟨m, hm, h⟩ := Outcome.bind_eq_ok.1 h
    obtain ⟨s₁, hs₁, h⟩ := Outcome.bind_eq_ok.1 h
    obtain ⟨ms, hms, hread⟩ := ih h
    refine ⟨m :: ms, ?_, ?_⟩
    · unfold LogMessage.dataMessage at hm
      cases hopt : message.optDataMessage with
      | none => simp [hopt] at hm
      | some m' =>
        rw [hopt] at hm
        rw [List.map_cons, hopt, hms, Outcome.ok.inj hm, List.map_cons]
    · rw [Reader.read, hs₁, Outcome.ok_bind, hread]

theorem wellFormed_of_fromLogData {log : LogData} {tree : LogDataTree} (h : LogDataTree.fromLogData log = .ok tree) :
    WellFormed tree := by
  obtain ⟨s, hs, he⟩ := Outcome.bind_eq_ok.1 h
  obtain rfl := Outcome.ok.inj he
  obtain ⟨ms, -, hread⟩ := read_of_readMessages hs
  have hspec := read_new_spec ms
  rw [hread] at hspec
  cases hspec with
  | ok hfits hreads => exact hreads.wellFormed

/-! ### Paths -/

variable {tree : LogDataTree}

theorem pathString_of_stop {opts : PathStringOptions} {span : Span} {out out' : PathBuffers}
    (h : span.stop opts out = some out') (depth : ℕ) : span.pathString opts tree depth out = .ok out' := by
  unfold Span.pathString
  simp only [h]

theorem pathString_of_root {opts : PathStringOptions} {span : Span} {out : PathBuffers}
    (h : span.stop opts out = none) (hparent : span.parent = none) (depth : ℕ) :
    span.pathString opts tree depth out = .ok (span.pushSelf opts out) := by
  unfold Span.pathString
  simp only [h, hparent]

theorem pathString_of_parent {opts : PathStringOptions} {span parent : Span} {id : SpanId} {out : PathBuffers}
    (h : span.stop opts out = none) (hparent : span.parent = some id) (hget : tree.get? id = some parent) (depth : ℕ) :
    span.pathString opts tree (depth + 1) out =
      if opts.reversed then
        parent.pathString opts tree depth ((span.pushSelf opts out).pushMain opts.reverseSeparator)
      else
        parent.pathString opts tree depth out >>= fun out => .ok (span.pushSelf opts (out.pushMain opts.normalSeparator)) := by
  rw [Span.pathString]
  simp only [h, hparent, hget]
  rfl

/-- A path can be made within the depth of the tree. -/
theorem pathString_ok (h : WellFormed tree) (opts : PathStringOptions) {depth i : ℕ} (hdepth : i ≤ depth)
    {span : Span} (hspan : tree.spans[i]? = some span) (out : PathBuffers) :
    ∃ out', span.pathString opts tree depth out = .ok out' := by
  induction depth generalizing i span out with
  | zero =>
    cases hstop : span.stop opts out with
    | some out' => exact ⟨out', pathString_of_stop hstop 0⟩
    | none =>
      cases hparent : span.parent with
      | none => exact ⟨_, pathString_of_root hstop hparent 0⟩
      | some id =>
        have := h.parents i span hspan id hparent
        omega
  | succ depth ih =>
    cases hstop : span.stop opts out with
    | some out' => exact ⟨out', pathString_of_stop hstop _⟩
    | none =>
      cases hparent : span.parent with
      | none => exact ⟨_, pathString_of_root hstop hparent _⟩
      | some id =>
        have hlt := h.parents i span hspan id hparent
        have hlength := (List.getElem?_eq_some_iff.1 hspan).1
        have hget : tree.get? id = some tree.spans[id.index] := List.getElem?_eq_getElem (hlt.trans hlength)
        rw [pathString_of_parent hstop hparent hget]
        split
        · exact ih (by omega) hget _
        · obtain ⟨out', hout'⟩ := ih (by omega) hget out
          rw [hout']
          exact ⟨_, rfl⟩

/-- The path of a span, in a tree that is well formed. -/
def pathOf (tree : LogDataTree) (opts : PathStringOptions) (id : SpanId) : String :=
  match IndexByCallPath.path tree opts id with
  | .ok path => path
  | _ => ""

theorem path_eq (h : WellFormed tree) (opts : PathStringOptions) {id : SpanId} (hid : id.index < tree.spans.length) :
    IndexByCallPath.path tree opts id = .ok (pathOf tree opts id) := by
  have hget : tree.get? id = some tree.spans[id.index] := List.getElem?_eq_getElem hid
  obtain ⟨out, hout⟩ := pathString_ok h opts (Nat.le_of_lt hid) hget ⟨"", ""⟩
  have hpath : IndexByCallPath.path tree opts id = .ok (out.outPrefix ++ out.outMain) := by
    simp only [IndexByCallPath.path, hget]
    rw [hout]
    rfl
  rw [pathOf, hpath]

/-! ### The index -/

/-- The ids that are entered for a path. -/
def idsAt (entries : List (String × SpanId)) (path : String) : List SpanId :=
  (entries.filter fun entry => entry.1 = path).map Prod.snd

/-- The index has these entries. -/
def Indexes (index : IndexByCallPath) (entries : List (String × SpanId)) : Prop :=
  ∀ path, index.idsByCallPath path = if idsAt entries path = [] then none else some (idsAt entries path)

theorem Indexes.empty : Indexes .empty [] := by
  intro path
  rw [if_pos (show idsAt [] path = [] from rfl)]
  exact AList.lookup_empty path

theorem idsAt_concat (entries : List (String × SpanId)) (path : String) (id : SpanId) (path' : String) :
    idsAt (entries ++ [(path, id)]) path' = if path = path' then idsAt entries path' ++ [id] else idsAt entries path' := by
  rw [idsAt, List.filter_append, List.map_append]
  by_cases hpath : path = path'
  · simp [idsAt, hpath]
  · simp [idsAt, hpath]

theorem Indexes.add {index : IndexByCallPath} {entries : List (String × SpanId)} (h : Indexes index entries) (path : String)
    (id : SpanId) : Indexes (index.add path id) (entries ++ [(path, id)]) := by
  intro path'
  have hlookup : (index.add path id).idsByCallPath path' =
      if path' = path then some (idsAt entries path ++ [id]) else index.idsByCallPath path' := by
    have hpath := h path
    rw [IndexByCallPath.idsByCallPath] at hpath ⊢
    unfold IndexByCallPath.add
    by_cases hnil : idsAt entries path = []
    · rw [if_pos hnil] at hpath
      rw [hpath, hnil]
      simp only
      split
      · next he =>
        subst he
        exact AList.lookup_insert _
      · next hne => exact AList.lookup_insert_ne hne
    · rw [if_neg hnil] at hpath
      rw [hpath]
      simp only
      split
      · next he =>
        subst he
        exact AList.lookup_insert _
      · next hne => exact AList.lookup_insert_ne hne
  rw [hlookup, idsAt_concat]
  by_cases hpath : path' = path
  · subst hpath
    rw [if_pos rfl, if_pos rfl, if_neg (by simp)]
  · rw [if_neg hpath, if_neg (Ne.symm hpath)]
    exact h path'

/-- What is entered for some spans. -/
def pathEntries (tree : LogDataTree) (optss : List PathStringOptions) (ids : List SpanId) : List (String × SpanId) :=
  ids.flatMap fun id => optss.map fun opts => (pathOf tree opts id, id)

theorem addPaths_spec (h : WellFormed tree) {id : SpanId} (hid : id.index < tree.spans.length) {index : IndexByCallPath}
    {entries : List (String × SpanId)} (hindex : Indexes index entries) (optss : List PathStringOptions) :
    ∃ index', index.addPaths tree id optss = .ok index' ∧
      Indexes index' (entries ++ optss.map fun opts => (pathOf tree opts id, id)) := by
  induction optss generalizing index entries with
  | nil => exact ⟨index, rfl, by rwa [List.map_nil, List.append_nil]⟩
  | cons opts optss ih =>
    obtain ⟨index', hindex', hentries⟩ := ih (hindex.add (pathOf tree opts id) id)
    refine ⟨index', ?_, ?_⟩
    · rw [IndexByCallPath.addPaths, path_eq h opts hid, Outcome.ok_bind, hindex']
    · rw [List.append_assoc, List.singleton_append] at hentries
      rwa [List.map_cons]

theorem addSpans_spec (h : WellFormed tree) (optss : List PathStringOptions) {ids : List SpanId}
    (hids : ∀ id ∈ ids, SpanId.index id < tree.spans.length) {index : IndexByCallPath} {entries : List (String × SpanId)}
    (hindex : Indexes index entries) :
    ∃ index', index.addSpans tree optss ids = .ok index' ∧ Indexes index' (entries ++ pathEntries tree optss ids) := by
  induction ids generalizing index entries with
  | nil => exact ⟨index, rfl, by rwa [pathEntries, List.flatMap_nil, List.append_nil]⟩
  | cons id ids ih =>
    obtain ⟨index₁, hindex₁, hentries₁⟩ := addPaths_spec h (hids id List.mem_cons_self) hindex optss
    obtain ⟨index', hindex', hentries⟩ := ih (fun id' hid' => hids id' (List.mem_cons_of_mem _ hid')) hentries₁
    refine ⟨index', ?_, ?_⟩
    · rw [IndexByCallPath.addSpans, hindex₁, Outcome.ok_bind, hindex']
    · rw [List.append_assoc] at hentries
      rwa [pathEntries, List.flatMap_cons]

/-- The ids of all spans. -/
theorem spanIds_spec {n : ℕ} (hn : n < 2 ^ 32) :
    ∃ ids, spanIds n = .ok ids ∧ ∀ id, id ∈ ids ↔ SpanId.index id < n := by
  induction n with
  | zero =>
    refine ⟨[], rfl, fun id => ?_⟩
    simp
  | succ n ih =>
    obtain ⟨ids, hids, hmem⟩ := ih (by omega)
    refine ⟨ids ++ [⟨n + 1, by omega, hn⟩], ?_, ?_⟩
    · rw [spanIds, hids, Outcome.ok_bind, SpanId.new_succ hn]
      rfl
    · intro id
      rw [List.mem_append, hmem, List.mem_singleton]
      constructor
      · rintro (hlt | rfl)
        · omega
        · show n + 1 - 1 < n + 1
          omega
      · intro hlt
        by_cases he : id.index = n
        · right
          apply SpanId.index_injective
          show id.index = n + 1 - 1
          omega
        · left
          omega

/-! ### Values -/

/-- The counters that are read for the field are not negative. -/
def Timing.CountersFit (field : Field) (timing : Timing) : Prop :=
  match field with
  | .ctxSwitches => (∀ n ∈ timing.nvcsw, 0 ≤ n.toInt) ∧ (timing.nvcsw ≠ none → ∀ n ∈ timing.nivcsw, 0 ≤ n.toInt)
  | _ => True

/-- The value of a field in a timing. -/
def Timing.reading (field : Field) (timing : Timing) : Option ℕ :=
  match field with
  | .realTime => some timing.r.toNsec
  | .cpuTime => some timing.u.toUsec
  | .sysTime => some timing.s.toUsec
  | .ctxSwitches => timing.nvcsw.bind fun a => timing.nivcsw.map fun b => a.toInt.toNat + b.toInt.toNat

theorem timingExtract_spec (field : Field) (timing : Timing) :
    (timing.CountersFit field → timingExtract field timing = .ok (timing.reading field)) ∧
      (¬ timing.CountersFit field → ∃ msg, timingExtract field timing = .panic msg) := by
  cases field with
  | realTime => exact ⟨fun _ => rfl, fun h => absurd trivial h⟩
  | cpuTime => exact ⟨fun _ => rfl, fun h => absurd trivial h⟩
  | sysTime => exact ⟨fun _ => rfl, fun h => absurd trivial h⟩
  | ctxSwitches =>
    simp only [timingExtract, Timing.voluntary, Timing.involuntary, Timing.CountersFit, Timing.reading]
    cases timing.nvcsw with
    | none => simp
    | some a =>
      by_cases ha : 0 ≤ a.toInt
      · cases timing.nivcsw with
        | none => simp [ha]
        | some b =>
          by_cases hb : 0 ≤ b.toInt
          · simp [ha, hb]
          · simp [ha, hb]
      · simp [ha]

/-- The value of a span from its start to its end can be taken. -/
structure TimingsFit (field : Field) (start end_ : Timing) : Prop where
  /-- The counters at the end are not negative. -/
  endCounters : end_.CountersFit field
  /-- The counters at the start are not negative, if they are looked at. -/
  startCounters : end_.reading field ≠ none → start.CountersFit field
  /-- The end is not less than the start. -/
  order : ∀ endValue ∈ end_.reading field, ∀ startValue ∈ start.reading field, startValue ≤ endValue
  /-- The start stands for some run. -/
  count : end_.reading field ≠ none → start.reading field ≠ none → 0 < start.count.toNat

/-- The value of a span can be taken. -/
def Span.Fits (field : Field) (span : Span) : Prop :=
  match span.data with
  | .scope _ _ start (some end_) => TimingsFit field start end_
  | .scope _ _ _ none => False
  | .keyValue _ => True

/-- The value of a span. -/
def Span.value? (field : Field) (span : Span) : Option WeightedValue :=
  match span.data with
  | .scope _ _ start (some end_) =>
    match end_.reading field, start.reading field with
    | some endValue, some startValue =>
      if hpos : 0 < start.count.toNat then some ⟨UInt64.ofNat (endValue - startValue), start.count, hpos⟩ else none
    | _, _ => none
  | _ => none

theorem weightedValue_spec (field : Field) (span : Span) :
    (span.Fits field → weightedValue field span = .ok (span.value? field)) ∧
      (¬ span.Fits field → ∃ msg, weightedValue field span = .panic msg) := by
  rw [weightedValue, Span.startAndEnd]
  unfold Span.Fits Span.value?
  cases span.data with
  | keyValue kv => exact ⟨fun _ => rfl, fun h => absurd trivial h⟩
  | scope kind number start end_ =>
    cases end_ with
    | none => exact ⟨fun h => h.elim, fun _ => ⟨_, rfl⟩⟩
    | some end_ =>
      simp only [Outcome.ok_bind]
      obtain ⟨hendOk, hendPanic⟩ := timingExtract_spec field end_
      obtain ⟨hstartOk, hstartPanic⟩ := timingExtract_spec field start
      by_cases hend : end_.CountersFit field
      · rw [hendOk hend, Outcome.ok_bind]
        cases hendValue : end_.reading field with
        | none =>
          refine ⟨fun _ => rfl, fun hnot => absurd ?_ hnot⟩
          exact ⟨hend, fun h => absurd hendValue h, fun e he => by simp [hendValue] at he, fun h => absurd hendValue h⟩
        | some endValue =>
          have hsome : end_.reading field ≠ none := by simp [hendValue]
          by_cases hstart : start.CountersFit field
          · simp only [hstartOk hstart, Outcome.ok_bind]
            cases hstartValue : start.reading field with
            | none =>
              refine ⟨fun _ => rfl, fun hnot => absurd ?_ hnot⟩
              exact ⟨hend, fun _ => hstart, fun e _ s hs => by simp [hstartValue] at hs, fun _ h => absurd hstartValue h⟩
            | some startValue =>
              have hsome' : start.reading field ≠ none := by simp [hstartValue]
              simp only
              by_cases horder : startValue ≤ endValue
              · rw [if_pos horder]
                by_cases hpos : 0 < start.count.toNat
                · simp only [dif_pos hpos]
                  refine ⟨fun _ => rfl, fun hnot => absurd ?_ hnot⟩
                  refine ⟨hend, fun _ => hstart, fun e he s hs => ?_, fun _ _ => hpos⟩
                  rw [hendValue] at he
                  rw [hstartValue] at hs
                  obtain rfl := Option.some.inj he
                  obtain rfl := Option.some.inj hs
                  exact horder
                · rw [dif_neg hpos]
                  exact ⟨fun hfit => absurd (hfit.count hsome hsome') hpos, fun _ => ⟨_, rfl⟩⟩
              · rw [if_neg horder]
                exact ⟨fun hfit => absurd (hfit.order _ hendValue _ hstartValue) horder, fun _ => ⟨_, rfl⟩⟩
          · obtain ⟨msg, hmsg⟩ := hstartPanic hstart
            simp only [hmsg, Outcome.panic_bind]
            exact ⟨fun hfit => absurd (hfit.startCounters hsome) hstart, fun _ => ⟨msg, rfl⟩⟩
      · obtain ⟨msg, hmsg⟩ := hendPanic hend
        rw [hmsg, Outcome.panic_bind]
        exact ⟨fun hfit => absurd hfit.endCounters hend, fun _ => ⟨msg, rfl⟩⟩

/-! ### Rows -/

/-- The values of the spans of a row. -/
def valuesOf (field : Field) (tree : LogDataTree) (ids : List SpanId) : List WeightedValue :=
  ids.filterMap fun id => (tree.get? id).bind (Span.value? field)

/-- **A row can be made**: the values of its spans can be taken, and there are statistics of them. -/
structure RowFits (debugAssertions : Bool) (field : Field) (tree : LogDataTree) (ids : List SpanId) : Prop where
  /-- The values can be taken. -/
  spans : ∀ id ∈ ids, ∀ span ∈ tree.get? id, Span.Fits field span
  /-- The numbers fit. -/
  stats : valuesOf field tree ids ≠ [] → StatsFit debugAssertions tileCount (valuesOf field tree ids)

/-- The sum of a row is too large, which is an error. -/
def RowErrs (field : Field) (tree : LogDataTree) (ids : List SpanId) : Prop :=
  2 ^ 96 ≤ totalSum (valuesOf field tree ids)

/-- A row without spans. -/
theorem RowFits.nil {debugAssertions : Bool} (field : Field) : RowFits debugAssertions field tree [] where
  spans id hid := by cases hid
  stats hne := absurd rfl hne

theorem not_rowErrs_nil (field : Field) : ¬ RowErrs field tree [] := by
  show ¬ 2 ^ 96 ≤ totalSum []
  decide

theorem RowFits.perm {debugAssertions : Bool} {field : Field} {ids ids' : List SpanId} (h : ids.Perm ids')
    (hfit : RowFits debugAssertions field tree ids) : RowFits debugAssertions field tree ids' where
  spans id hid := hfit.spans id (h.mem_iff.2 hid)
  stats hne := by
    have hperm : (valuesOf field tree ids).Perm (valuesOf field tree ids') := h.filterMap _
    apply StatsFit.perm hperm
    apply hfit.stats
    intro hnil
    rw [hnil] at hperm
    exact hne hperm.nil_eq.symm

theorem weightedValues_spec (field : Field) {ids : List SpanId} (hids : ∀ id ∈ ids, SpanId.index id < tree.spans.length) :
    ((∀ id ∈ ids, ∀ span ∈ tree.get? id, Span.Fits field span) →
        weightedValues field tree ids = .ok (valuesOf field tree ids)) ∧
      ((¬ ∀ id ∈ ids, ∀ span ∈ tree.get? id, Span.Fits field span) →
        ∃ msg, weightedValues field tree ids = .panic msg) := by
  induction ids with
  | nil => exact ⟨fun _ => rfl, fun h => absurd (fun id hid => by cases hid) h⟩
  | cons id ids ih =>
    obtain ⟨hrestOk, hrestPanic⟩ := ih fun id' hid' => hids id' (List.mem_cons_of_mem _ hid')
    obtain ⟨span, hget⟩ : ∃ span, tree.get? id = some span :=
      ⟨_, List.getElem?_eq_getElem (hids id List.mem_cons_self)⟩
    obtain ⟨hok, hpanic⟩ := weightedValue_spec field span
    simp only [weightedValues, hget, List.forall_mem_cons, Option.mem_def, Option.some.injEq, forall_eq']
    by_cases hfit : span.Fits field
    · rw [hok hfit, Outcome.ok_bind]
      by_cases hrest : ∀ id' ∈ ids, ∀ span' ∈ tree.get? id', Span.Fits field span'
      · refine ⟨fun _ => ?_, fun hnot => absurd ⟨hfit, hrest⟩ hnot⟩
        rw [hrestOk hrest, Outcome.ok_bind, valuesOf, valuesOf, List.filterMap_cons, hget, Option.bind_some]
        cases span.value? field with
        | none => rfl
        | some val => rfl
      · obtain ⟨msg, hmsg⟩ := hrestPanic hrest
        rw [hmsg, Outcome.panic_bind]
        exact ⟨fun h => absurd h.2 hrest, fun _ => ⟨msg, rfl⟩⟩
    · obtain ⟨msg, hmsg⟩ := hpanic hfit
      rw [hmsg, Outcome.panic_bind]
      exact ⟨fun h => absurd h.1 hfit, fun _ => ⟨msg, rfl⟩⟩

/-- **A row.** -/
theorem pnStats_spec (fixed : FixedArithmetic) (field : Field) {ids : List SpanId}
    (hids : ∀ id ∈ ids, SpanId.index id < tree.spans.length) (key : String) :
    (RowFits fixed.debugAssertions field tree ids ∧ RowErrs field tree ids ∧
        pnStats fixed field tree ids key = .err .virtualSumDoesNotFitU96) ∨
      (RowFits fixed.debugAssertions field tree ids ∧ ¬ RowErrs field tree ids ∧
        ∃ val, pnStats fixed field tree ids key = .ok ⟨key, val⟩) ∨
      (¬ RowFits fixed.debugAssertions field tree ids ∧ ∃ msg, pnStats fixed field tree ids key = .panic msg) := by
  obtain ⟨hok, hpanic⟩ := weightedValues_spec field hids
  rw [pnStats, scopestats]
  by_cases hspans : ∀ id ∈ ids, ∀ span ∈ tree.get? id, Span.Fits field span
  · rw [hok hspans, Outcome.ok_bind]
    by_cases hne : valuesOf field tree ids = []
    · right
      left
      refine ⟨⟨hspans, fun h => absurd hne h⟩, ?_, ?_⟩
      · show ¬ 2 ^ 96 ≤ totalSum (valuesOf field tree ids)
        rw [hne]
        decide
      · rw [hne, fromValues_nil]
        exact ⟨_, rfl⟩
    · rcases fromValues_spec fixed tileCount hne with ⟨hfit, hsum, he⟩ | ⟨hfit, hsum, stats, he⟩ | ⟨hfit, msg, he⟩
      · rw [he]
        exact .inl ⟨⟨hspans, fun _ => hfit⟩, hsum, rfl⟩
      · rw [he]
        exact .inr (.inl ⟨⟨hspans, fun _ => hfit⟩, Nat.not_le.2 hsum, _, rfl⟩)
      · rw [he]
        exact .inr (.inr ⟨fun h => hfit (h.stats hne), msg, rfl⟩)
  · obtain ⟨msg, hmsg⟩ := hpanic hspans
    rw [hmsg, Outcome.panic_bind]
    exact .inr (.inr ⟨fun h => hspans h.spans, msg, rfl⟩)

/-! ### Rows in parallel -/

section Rows

variable {ε α : Type} {rows : List (Outcome ε α)}

theorem ParCollects.rows_ok {as : List α} (h : ParCollects rows (.ok as)) : ∀ row ∈ rows, row.isOk = true := by
  cases h with
  | ok h =>
    intro row hrow
    rw [h, List.mem_map] at hrow
    obtain ⟨a, -, rfl⟩ := hrow
    rfl

theorem ParCollects.exists_ok (h : ∀ row ∈ rows, row.isOk = true) : ∃ as, ParCollects rows (.ok as) := by
  induction rows with
  | nil => exact ⟨[], .ok rfl⟩
  | cons row rows ih =>
    obtain ⟨hrow, hrows⟩ := List.forall_mem_cons.1 h
    obtain ⟨as, has⟩ := ih hrows
    cases has with
    | ok has =>
      cases row with
      | ok a => exact ⟨a :: as, .ok (by rw [has, List.map_cons])⟩
      | err e => cases hrow
      | panic msg => cases hrow

/-- Something comes out. -/
theorem ParCollects.exists (rows : List (Outcome ε α)) : ∃ r, ParCollects rows r := by
  by_cases h : ∀ row ∈ rows, row.isOk = true
  · obtain ⟨as, has⟩ := ParCollects.exists_ok h
    exact ⟨_, has⟩
  · push Not at h
    obtain ⟨row, hrow, hnot⟩ := h
    cases row with
    | ok a => exact absurd rfl hnot
    | err e => exact ⟨_, .err hrow⟩
    | panic msg => exact ⟨_, .panic hrow⟩

/-- A panic comes out of one. -/
theorem ParCollects.isPanic {r : Outcome ε (List α)} (h : ParCollects rows r) (hrows : ∀ row ∈ rows, row.isPanic = false) :
    r.isPanic = false := by
  cases h with
  | ok _ => rfl
  | err _ => rfl
  | panic hmem => cases hrows _ hmem

end Rows

theorem isPanic_eq_true {ε α : Type} {r : Outcome ε α} (h : r.isPanic ≠ false) : ∃ msg, r = .panic msg := by
  cases r with
  | ok a => exact absurd rfl h
  | err e => exact absurd rfl h
  | panic msg => exact ⟨msg, rfl⟩

section TableForField

variable {fixed : FixedArithmetic} {field : Field} {details : KeyRuntimeDetails} {index : IndexByCallPath}

theorem TableForField.exists (fixed : FixedArithmetic) (field : Field) (details : KeyRuntimeDetails) (tree : LogDataTree)
    (index : IndexByCallPath) : ∃ r, TableForField fixed field details tree index r := by
  obtain ⟨r, hr⟩ := ParCollects.exists (if details.showProbeNames then probeRows fixed field tree else [])
  obtain ⟨r₂, hr₂⟩ := ParCollects.exists (pathRows fixed field tree index)
  cases r with
  | ok rows => exact ⟨_, .rows hr hr₂⟩
  | err e => exact ⟨_, .err hr⟩
  | panic msg => exact ⟨_, .panic hr⟩

/-- The rows for the paths are only made if those for the probe names are good. -/
theorem tableForField_never_panics_iff :
    (∀ r, TableForField fixed field details tree index r → r.isPanic = false) ↔
      (details.showProbeNames = true → ∀ row ∈ probeRows fixed field tree, row.isPanic = false) ∧
        ((details.showProbeNames = true → ∀ row ∈ probeRows fixed field tree, row.isOk = true) →
          ∀ row ∈ pathRows fixed field tree index, row.isPanic = false) := by
  have hif {P : Outcome StatsError (KeyVal StatsOrCount) → Prop} :
      (∀ row ∈ if details.showProbeNames then probeRows fixed field tree else [], P row) ↔
        (details.showProbeNames = true → ∀ row ∈ probeRows fixed field tree, P row) := by
    cases details.showProbeNames <;> simp
  rw [← hif, ← hif]
  constructor
  · intro h
    refine ⟨fun row hrow => ?_, fun hok row hrow => ?_⟩
    · by_contra hpanic
      obtain ⟨msg, rfl⟩ := isPanic_eq_true hpanic
      cases h _ (.panic (.panic hrow))
    · by_contra hpanic
      obtain ⟨msg, rfl⟩ := isPanic_eq_true hpanic
      obtain ⟨rows, hrows⟩ := ParCollects.exists_ok hok
      cases h _ (.rows hrows (.panic hrow))
  · rintro ⟨hprobes, hpaths⟩ r hr
    cases hr with
    | rows hrows hr₂ =>
      have hnot := hr₂.isPanic (hpaths hrows.rows_ok)
      revert hnot
      cases ‹Outcome StatsError Table› with
      | ok rows => exact fun _ => rfl
      | err e => exact fun _ => rfl
      | panic msg => exact fun h => h
    | err hrows => rfl
    | panic hrows => exact hrows.isPanic hprobes

end TableForField

theorem AllFieldsTable.transpose_isPanic (details : KeyRuntimeDetails) (tables : Field → Outcome StatsError Table) :
    (AllFieldsTable.transpose details tables).isPanic = false ↔ ∀ field, (tables field).isPanic = false := by
  unfold AllFieldsTable.transpose
  cases hfind : [Field.realTime, .cpuTime, .sysTime, .ctxSwitches].find? fun field => (tables field).isPanic with
  | some field =>
    have hpanic := List.find?_some hfind
    refine ⟨fun h => (by cases h), fun h => ?_⟩
    rw [h field] at hpanic
    cases hpanic
  | none =>
    rw [List.find?_eq_none] at hfind
    have hnot : ∀ field, (tables field).isPanic = false := by
      intro field
      apply Bool.eq_false_iff.2
      apply hfind field
      cases field <;> simp
    refine ⟨fun _ => hnot, fun _ => ?_⟩
    have hbind {α β : Type} {x : Outcome StatsError α} {f : α → Outcome StatsError β} (hx : x.isPanic = false)
        (hf : ∀ a, (f a).isPanic = false) : (x >>= f).isPanic = false := by
      cases x with
      | ok a => exact hf a
      | err e => rfl
      | panic msg => cases hx
    exact hbind (hnot _) fun _ => hbind (hnot _) fun _ => hbind (hnot _) fun _ => hbind (hnot _) fun _ => rfl

/-! ### The rows of an accepted log -/

section KeyRows

variable (fixed : FixedArithmetic) (field : Field) {keys : List String} {idsOf : String → List SpanId}

/-- The rows for all keys that have spans. -/
theorem keyRows_never_panic_iff (hids : ∀ key, ∀ id ∈ idsOf key, SpanId.index id < tree.spans.length)
    (hkeys : ∀ key, idsOf key ≠ [] → key ∈ keys) :
    (∀ row ∈ keys.map fun key => pnStats fixed field tree (idsOf key) key, row.isPanic = false) ↔
      ∀ key, RowFits fixed.debugAssertions field tree (idsOf key) := by
  rw [List.forall_mem_map]
  constructor
  · intro h key
    by_cases hnil : idsOf key = []
    · rw [hnil]
      exact .nil field
    · rcases pnStats_spec fixed field (hids key) key with ⟨hfit, -⟩ | ⟨hfit, -⟩ | ⟨-, msg, he⟩
      · exact hfit
      · exact hfit
      · have hpanic := h key (hkeys key hnil)
        rw [he] at hpanic
        cases hpanic
  · intro h key _
    rcases pnStats_spec fixed field (hids key) key with ⟨-, -, he⟩ | ⟨-, -, val, he⟩ | ⟨hnot, -⟩
    · rw [he]
      rfl
    · rw [he]
      rfl
    · exact absurd (h key) hnot

theorem keyRows_ok_iff (hids : ∀ key, ∀ id ∈ idsOf key, SpanId.index id < tree.spans.length)
    (hkeys : ∀ key, idsOf key ≠ [] → key ∈ keys) (hfits : ∀ key, RowFits fixed.debugAssertions field tree (idsOf key)) :
    (∀ row ∈ keys.map fun key => pnStats fixed field tree (idsOf key) key, row.isOk = true) ↔
      ∀ key, ¬ RowErrs field tree (idsOf key) := by
  rw [List.forall_mem_map]
  constructor
  · intro h key herrs
    by_cases hnil : idsOf key = []
    · rw [hnil] at herrs
      exact absurd herrs (not_rowErrs_nil field)
    · rcases pnStats_spec fixed field (hids key) key with ⟨-, -, he⟩ | ⟨-, hnot, -⟩ | ⟨hnot, -⟩
      · have hok := h key (hkeys key hnil)
        rw [he] at hok
        cases hok
      · exact hnot herrs
      · exact hnot (hfits key)
  · intro h key _
    rcases pnStats_spec fixed field (hids key) key with ⟨-, herrs, -⟩ | ⟨-, -, val, he⟩ | ⟨hnot, -⟩
    · exact absurd herrs (h key)
    · rw [he]
      rfl
    · exact absurd (hfits key) hnot

end KeyRows

theorem probeRows_eq (fixed : FixedArithmetic) (field : Field) (tree : LogDataTree) :
    probeRows fixed field tree = tree.probeNames.map fun pn => pnStats fixed field tree (tree.idsByPn pn) pn := by
  apply List.map_congr_left
  intro pn hpn
  rw [LogDataTree.probeNames, List.mem_insertionSort, ← AList.mem_keys, ← AList.lookup_isSome] at hpn
  obtain ⟨ids, hids⟩ := Option.isSome_iff_exists.1 hpn
  rw [LogDataTree.idsByPn, hids]
  rfl

theorem mem_probeNames {pn : String} (h : tree.idsByPn pn ≠ []) : pn ∈ tree.probeNames := by
  rw [LogDataTree.probeNames, List.mem_insertionSort, ← AList.mem_keys, ← AList.lookup_isSome]
  rw [LogDataTree.idsByPn] at h
  cases hlookup : tree.spansByPn.lookup pn with
  | none => exact absurd (by rw [hlookup]; rfl) h
  | some ids => rfl

theorem mem_callPaths {index : IndexByCallPath} {entries : List (String × SpanId)} (h : Indexes index entries) (path : String) :
    path ∈ index.callPaths ↔ idsAt entries path ≠ [] := by
  have hpath := h path
  rw [IndexByCallPath.idsByCallPath] at hpath
  rw [IndexByCallPath.callPaths, List.mem_insertionSort, ← AList.mem_keys, ← AList.lookup_isSome, hpath]
  split
  · next hnil => simp [hnil]
  · next hne => simp [hne]

theorem pathRows_eq (fixed : FixedArithmetic) (field : Field) {index : IndexByCallPath} {entries : List (String × SpanId)}
    (h : Indexes index entries) :
    pathRows fixed field tree index = index.callPaths.map fun path => pnStats fixed field tree (idsAt entries path) path := by
  apply List.map_congr_left
  intro path hpath
  rw [h path, if_neg ((mem_callPaths h path).1 hpath)]
  rfl

/-! ### The paths of all spans -/

/-- The ids of all spans. -/
def allIds (tree : LogDataTree) : List SpanId :=
  match spanIds tree.spans.length with
  | .ok ids => ids
  | _ => []

theorem spanIds_eq (h : WellFormed tree) : spanIds tree.spans.length = .ok (allIds tree) := by
  obtain ⟨ids, hids, -⟩ := spanIds_spec h.length
  rw [allIds, hids]

theorem mem_allIds (h : WellFormed tree) (id : SpanId) : id ∈ allIds tree ↔ id.index < tree.spans.length := by
  obtain ⟨ids, hids, hmem⟩ := spanIds_spec h.length
  rw [allIds, hids]
  exact hmem id

/-- The spans with a path, for any of the kinds of paths. -/
def idsByPath (tree : LogDataTree) (optss : List PathStringOptions) (path : String) : List SpanId :=
  idsAt (pathEntries tree optss (allIds tree)) path

theorem mem_of_mem_idsAt {optss : List PathStringOptions} {ids : List SpanId} {path : String} {id : SpanId}
    (h : id ∈ idsAt (pathEntries tree optss ids) path) : id ∈ ids := by
  rw [idsAt, List.mem_map] at h
  obtain ⟨entry, hentry, rfl⟩ := h
  obtain ⟨id, hid, hmem⟩ := List.mem_flatMap.1 (List.mem_of_mem_filter hentry)
  obtain ⟨opts, -, rfl⟩ := List.mem_map.1 hmem
  exact hid

/-- The order of the spans does not matter. -/
theorem idsAt_perm {ids ids' : List SpanId} (h : ids.Perm ids') (optss : List PathStringOptions) (path : String) :
    (idsAt (pathEntries tree optss ids) path).Perm (idsAt (pathEntries tree optss ids') path) :=
  ((h.flatMap_right _).filter _).map _

theorem fromLogdataindex_spec (h : WellFormed tree) (optss : List PathStringOptions) {ids : List SpanId}
    (hids : ids.Perm (allIds tree)) {t₀ t₁ : ℕ} (ht : t₀ ≤ t₁) :
    ∃ index, IndexByCallPath.fromLogdataindex tree optss ids t₀ t₁ = .ok index ∧
      Indexes index (pathEntries tree optss ids) := by
  have hlength : ∀ id ∈ ids, SpanId.index id < tree.spans.length := fun id hid => (mem_allIds h id).1 (hids.mem_iff.1 hid)
  obtain ⟨index, hindex, hentries⟩ := addSpans_spec h optss hlength Indexes.empty
  refine ⟨index, ?_, hentries⟩
  rw [IndexByCallPath.fromLogdataindex, hindex, Outcome.ok_bind, if_pos ht]
  rfl

/-- The system's clock has been set back. -/
theorem fromLogdataindex_of_gt (h : WellFormed tree) (optss : List PathStringOptions) {t₀ t₁ : ℕ} (ht : ¬ t₀ ≤ t₁) :
    ∃ msg, IndexByCallPath.fromLogdataindex tree optss (allIds tree) t₀ t₁ = .panic msg := by
  obtain ⟨index, hindex, -⟩ := addSpans_spec h optss (fun id hid => (mem_allIds h id).1 hid) Indexes.empty
  rw [IndexByCallPath.fromLogdataindex, hindex, Outcome.ok_bind, if_neg ht]
  exact ⟨_, rfl⟩

/-! ### Tables -/

/-- **A table can be made**: all its rows can be. -/
structure TableFits (debugAssertions : Bool) (field : Field) (details : KeyRuntimeDetails) (tree : LogDataTree) : Prop where
  /-- The rows for the probe names, if desired. -/
  probes : details.showProbeNames = true → ∀ pn, RowFits debugAssertions field tree (tree.idsByPn pn)
  /-- The rows for the paths, unless there is an error before. -/
  paths : (details.showProbeNames = true → ∀ pn, ¬ RowErrs field tree (tree.idsByPn pn)) →
    ∀ path, RowFits debugAssertions field tree (idsByPath tree details.optss path)

theorem tableForField_iff (h : WellFormed tree) (fixed : FixedArithmetic) (field : Field) (details : KeyRuntimeDetails)
    {ids : List SpanId} (hids : ids.Perm (allIds tree)) {index : IndexByCallPath}
    (hindex : Indexes index (pathEntries tree details.optss ids)) :
    (∀ r, TableForField fixed field details tree index r → r.isPanic = false) ↔
      TableFits fixed.debugAssertions field details tree := by
  have hmem (path : String) : ∀ id ∈ idsAt (pathEntries tree details.optss ids) path, SpanId.index id < tree.spans.length :=
    fun id hid => (mem_allIds h id).1 (hids.mem_iff.1 (mem_of_mem_idsAt hid))
  have hpaths := keyRows_never_panic_iff fixed field hmem fun path => (mem_callPaths hindex path).2
  have hperm : (∀ path, RowFits fixed.debugAssertions field tree (idsAt (pathEntries tree details.optss ids) path)) ↔
      ∀ path, RowFits fixed.debugAssertions field tree (idsByPath tree details.optss path) :=
    forall_congr' fun path => ⟨.perm (idsAt_perm hids _ path), .perm (idsAt_perm hids.symm _ path)⟩
  have hprobes := keyRows_never_panic_iff fixed field h.byPn fun _ => mem_probeNames
  have hok := keyRows_ok_iff fixed field h.byPn fun _ => mem_probeNames
  rw [tableForField_never_panics_iff, probeRows_eq, pathRows_eq fixed field hindex, hprobes, hpaths, hperm]
  constructor
  · rintro ⟨hfits, hrest⟩
    exact ⟨hfits, fun herrs => hrest fun hshow => (hok (hfits hshow)).2 (herrs hshow)⟩
  · rintro ⟨hfits, hrest⟩
    exact ⟨hfits, fun hrows => hrest fun hshow => (hok (hfits hshow)).1 (hrows hshow)⟩

/-- What comes out of one table comes out of the evaluation, if it is a panic. -/
theorem fromLogDataTree_of_table (h : WellFormed tree) {fixed : FixedArithmetic} {field : Field} {details : KeyRuntimeDetails}
    {t₀ t₁ : ℕ} {index : IndexByCallPath}
    (hindex : IndexByCallPath.fromLogdataindex tree details.optss (allIds tree) t₀ t₁ = .ok index)
    {r : Outcome StatsError Table} (hr : TableForField fixed field details tree index r) :
    ∃ r', FromLogDataTree fixed tree details t₀ t₁ r' ∧ (r'.isPanic = false → r.isPanic = false) := by
  choose tables htables using fun field' => TableForField.exists fixed field' details tree index
  -- The tables for the other fields may come out in any way.
  have hall : ∀ field', TableForField fixed field' details tree index (Function.update tables field r field') := by
    intro field'
    by_cases hfield : field' = field
    · subst hfield
      rwa [Function.update_self]
    · rw [Function.update_of_ne hfield]
      exact htables field'
  refine ⟨_, .tables (spanIds_eq h) (.refl _) hindex hall, fun hnot => ?_⟩
  rw [AllFieldsTable.transpose_isPanic] at hnot
  rw [← hnot field, Function.update_self]

/-- **When the evaluation of an accepted log does not panic**: the system's clock is not set back, and all rows can be made. -/
theorem evaluation_never_panics_iff (fixed : FixedArithmetic) (log : LogData) (tree : LogDataTree)
    (h : LogDataTree.fromLogData log = .ok tree) (details : KeyRuntimeDetails) (t₀ t₁ : ℕ) :
    (∀ r, FromLogDataTree fixed tree details t₀ t₁ r → r.isPanic = false) ↔
      t₀ ≤ t₁ ∧ ∀ field, TableFits fixed.debugAssertions field details tree := by
  have hwell := wellFormed_of_fromLogData h
  constructor
  · intro hnever
    by_cases ht : t₀ ≤ t₁
    · refine ⟨ht, fun field => ?_⟩
      obtain ⟨index, hindex, hentries⟩ := fromLogdataindex_spec hwell details.optss (.refl _) ht
      rw [← tableForField_iff hwell fixed field details (.refl _) hentries]
      intro r hr
      obtain ⟨r', hr', hpanic⟩ := fromLogDataTree_of_table hwell hindex hr
      exact hpanic (hnever r' hr')
    · obtain ⟨msg, hmsg⟩ := fromLogdataindex_of_gt hwell details.optss ht
      cases hnever _ (.index (spanIds_eq hwell) (.refl _) hmsg)
  · rintro ⟨ht, hfits⟩ r hr
    cases hr with
    | spanIds hpanic =>
      rw [spanIds_eq hwell] at hpanic
      cases hpanic
    | index hall hids hpanic =>
      rw [spanIds_eq hwell] at hall
      obtain rfl := Outcome.ok.inj hall
      obtain ⟨index, hindex, -⟩ := fromLogdataindex_spec hwell details.optss hids ht
      rw [hindex] at hpanic
      cases hpanic
    | tables hall hids hindex htables =>
      rw [spanIds_eq hwell] at hall
      obtain rfl := Outcome.ok.inj hall
      obtain ⟨index, hindex', hentries⟩ := fromLogdataindex_spec hwell details.optss hids ht
      rw [hindex] at hindex'
      obtain rfl := Outcome.ok.inj hindex'
      rw [AllFieldsTable.transpose_isPanic]
      exact fun field => (tableForField_iff hwell fixed field details hids hentries).2 (hfits field) _ (htables field)

/-! ### A process -/

/-- A timing of the process at a time. -/
def timingAt (sec : UInt32) : Timing := { sampleTiming "main" 1 with r := ⟨sec, 0⟩ }

/-- A log of a process that starts and ends. -/
def processLog (startSec endSec : UInt32) : LogData where
  path := "a.log"
  messages := [[.tStart (timingAt startSec), .tEnd (timingAt endSec)]]
  evobenchLogVersion := 1
  evobenchVersion := "1"
  metadata := ⟨"dev", "user", ⟨"Linux", "dev", "6.1", "1", "x86_64"⟩, "gcc"⟩

/-- The id of the process. -/
def processId : SpanId := ⟨1, by decide, by decide⟩

/-- Its tree. -/
def processTree (startSec endSec : UInt32) : LogDataTree where
  spans := [⟨none, [], .scope .process 0 (timingAt startSec) (some (timingAt endSec))⟩]
  spansByPn := (∅ : AList fun _ : String => List SpanId).insert "main" [processId]

theorem fromLogData_processLog (startSec endSec : UInt32) :
    LogDataTree.fromLogData (processLog startSec endSec) = .ok (processTree startSec endSec) := rfl

/-- Rows for probe names and for paths. -/
def sampleDetails : KeyRuntimeDetails where
  normalSeparator := ">"
  reverseSeparator := "<"
  showProbeNames := true
  showPathsWithoutThreadNumber := true
  showPathsWithThreadNumber := false
  showPathsReversedToo := false
  pathPrefix := none
  skipProcess := false

theorem countersFit_timingAt (field : Field) (sec : UInt32) : (timingAt sec).CountersFit field := by
  cases field with
  | ctxSwitches => exact ⟨fun n hn => (by cases hn), fun h => absurd rfl h⟩
  | realTime => trivial
  | cpuTime => trivial
  | sysTime => trivial

/-- One value that counts once. -/
theorem statsFit_singleton (value : UInt64) : StatsFit true tileCount [⟨value, 1, by decide⟩] := by
  have hweight : totalWeight [⟨value, 1, by decide⟩] = 1 := rfl
  have hsum : totalSum [⟨value, 1, by decide⟩] = value.toNat := by
    show value.toNat * 1 + 0 = value.toNat
    omega
  have hexpanded : expanded (sorted [⟨value, 1, by decide⟩]) = [value] := rfl
  constructor
  · rw [hweight]
    decide
  · rw [hsum]
    have := value.toNat_lt
    omega
  · intro _
    rw [hsum, hweight, Nat.div_one]
    simp [totalSquaredError, squaredErrorBits, absdiff]
  · intro _
    have hfirst : tileIndex tileCount 1 0 = 0 := by decide +kernel
    have hlast : tileIndex tileCount 1 (tileCount - 1) = 0 := by decide +kernel
    constructor
    · rw [hweight]
      decide +kernel
    · decide
    · rw [hexpanded, hweight, hfirst]
      rfl
    · rw [hexpanded, hweight, hlast]
      rfl

theorem rowFits_processTree (field : Field) {startSec endSec : UInt32} (h : startSec ≤ endSec) :
    RowFits true field (processTree startSec endSec) [processId] where
  spans id hid span hspan := by
    rw [List.mem_singleton] at hid
    subst hid
    obtain rfl := Option.some.inj (show some _ = some span from hspan)
    show TimingsFit field (timingAt startSec) (timingAt endSec)
    refine ⟨countersFit_timingAt field _, fun _ => countersFit_timingAt field _, ?_, fun _ _ => Nat.one_pos⟩
    intro endValue hend startValue hstart
    cases field with
    | realTime =>
      obtain rfl := Option.some.inj hend
      obtain rfl := Option.some.inj hstart
      have := UInt32.le_iff_toNat_le.1 h
      show startSec.toNat * 1000000000 + 0 ≤ endSec.toNat * 1000000000 + 0
      omega
    | cpuTime =>
      obtain rfl := Option.some.inj hend
      obtain rfl := Option.some.inj hstart
      exact Nat.le_refl _
    | sysTime =>
      obtain rfl := Option.some.inj hend
      obtain rfl := Option.some.inj hstart
      exact Nat.le_refl _
    | ctxSwitches => cases hend
  stats hne := by
    cases field with
    | realTime => exact statsFit_singleton _
    | cpuTime => exact statsFit_singleton _
    | sysTime => exact statsFit_singleton _
    | ctxSwitches => exact absurd rfl hne

/-- The only key. -/
theorem tableFits_processTree (field : Field) {startSec endSec : UInt32} (h : startSec ≤ endSec) :
    TableFits true field sampleDetails (processTree startSec endSec) where
  probes _ pn := by
    by_cases hpn : pn = "main"
    · subst hpn
      exact rowFits_processTree field h
    · have hids : (processTree startSec endSec).idsByPn pn = [] := by
        rw [LogDataTree.idsByPn, processTree, AList.lookup_insert_ne hpn]
        rfl
      rw [hids]
      exact .nil field
  paths _ path := by
    have hentries : pathEntries (processTree startSec endSec) sampleDetails.optss (allIds (processTree startSec endSec)) =
        [("A:main thread", processId)] := rfl
    rw [idsByPath, hentries]
    by_cases hpath : path = "A:main thread"
    · subst hpath
      exact rowFits_processTree field h
    · have hids : idsAt [("A:main thread", processId)] path = [] := by
        simp [idsAt, Ne.symm hpath]
      rw [hids]
      exact .nil field

/-- A process that ends after its start. -/
theorem evaluation_sample :
    LogDataTree.fromLogData (processLog 1 3) = .ok (processTree 1 3) ∧
      ∀ r, FromLogDataTree (.documented true) (processTree 1 3) sampleDetails 5 7 r → r.isPanic = false :=
  ⟨rfl, (evaluation_never_panics_iff (.documented true) (processLog 1 3) (processTree 1 3) rfl sampleDetails 5 7).2
    ⟨by decide, fun field => tableFits_processTree field (by decide)⟩⟩

/-- A process that ends before its start, by its clock: the log is accepted, and the evaluation panics. -/
theorem clock_set_back :
    LogDataTree.fromLogData (processLog 3 1) = .ok (processTree 3 1) ∧
      ∃ r, FromLogDataTree (.documented true) (processTree 3 1) sampleDetails 5 7 r ∧ r.isPanic = true := by
  have hwell : WellFormed (processTree 3 1) := wellFormed_of_fromLogData (fromLogData_processLog 3 1)
  obtain ⟨index, hindex, -⟩ := fromLogdataindex_spec hwell sampleDetails.optss (.refl _) (show 5 ≤ 7 by decide)
  have hrow : .panic "attempt to subtract with overflow" ∈ probeRows (.documented true) .realTime (processTree 3 1) :=
    List.mem_singleton.2 rfl
  have htable : TableForField (.documented true) .realTime sampleDetails (processTree 3 1) index
    (.panic "attempt to subtract with overflow") := .panic (.panic hrow)
  obtain ⟨r, hr, hpanic⟩ := fromLogDataTree_of_table hwell hindex htable
  refine ⟨rfl, r, hr, ?_⟩
  by_contra hnot
  cases hpanic (Bool.eq_false_iff.2 hnot)

end Evobench.Evaluator

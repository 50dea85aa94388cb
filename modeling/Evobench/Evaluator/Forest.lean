import Evobench.Evaluator.Acceptance

/-!
# The call forest

The tree of a well-bracketed log: every scope has its matching end, a key-value entry ends together with
the innermost scope around it, and the index has every scope once.

* `EndsWithScope`: where a key-value entry ends.
* `IsCallForest`: the tree says what happened.

The main result is `call_forest`.
-/

namespace Evobench.Evaluator

open Library

/-- **The end of a key-value entry** with the number `i`, between the given messages of its thread: the innermost scope
around it has an end, and everything that has the entry as its parent is before that. -/
inductive EndsWithScope (tree : LogDataTree) (i : ℕ) : List Item → List Item → Prop where
  /-- The scope is opened by `outer`, and `e` is its end. -/
  | intro {outside body body' rest : List Item} {outer : Item} {span : Span} {kind : ScopeKind} {number : ThreadNumber}
      {start e : Timing} {point : PointKind} {j : ℕ} (hbody : Balanced tok true body)
      (hspan : tree.spans[outer.2]? = some span) (hdata : span.data = .scope kind number start (some e))
      (hopening : tok outer = .opening (kind, start.pn)) (hbody' : Balanced tok true body')
      (hclosing : (DataMessage.timing point e).token = .closing (kind, start.pn))
      (hchildren : ∀ k child id, tree.spans[k]? = some child → child.parent = some id → id.index = i →
        ∃ m, (m, k) ∈ body') :
      EndsWithScope tree i (outside ++ outer :: body) (body' ++ (.timing point e, j) :: rest)

/-- **The tree is the call forest of the log.** -/
structure IsCallForest (ms : List DataMessage) (lifetime : ThreadNumber → ThreadId × ℕ) (tree : LogDataTree) : Prop where
  /-- There is one span for each start and each key-value entry. -/
  length : tree.spans.length = openers ms
  /-- Each stands for its message, pairs a start with its matching end, and has the innermost span around it as its
  parent. -/
  spans : ∀ i span, tree.spans[i]? = some span → ∃ tid before m after,
    SpanAt lifetime (threadItems tid ms) i span.parent span.data before m after ∧
      (∀ kind number start end_, span.data = .scope kind number start end_ → end_ ≠ none) ∧
      ∀ kv, span.data = .keyValue kv → EndsWithScope tree i before after
  /-- The index has the scopes, each once, by name. -/
  byPn : ∀ pn, (tree.idsByPn pn).Nodup ∧
    ∀ id, id ∈ tree.idsByPn pn ↔ ∃ span, tree.get? id = some span ∧ span.pn = some pn

namespace Reads

variable {ms : List DataMessage} {lifetime : ThreadNumber → ThreadId × ℕ} {s : Reader}

/-- Nothing is open at the end of a well-bracketed log. -/
theorem stackOf_eq_nil (h : Reads ms lifetime s) (hwell : WellBracketed ms) (tid : ThreadId) : s.stackOf tid = [] := by
  obtain ⟨st, hst, hindex⟩ := h.pendings tid
  obtain rfl := hst.unique (.nil (hwell tid))
  exact List.map_eq_nil_iff.1 hindex.symm

/-- Then every scope has an end. -/
theorem ne_none (h : Reads ms lifetime s) (hwell : WellBracketed ms) {i : ℕ} {parent : Option SpanId} {kind : ScopeKind}
    {number : ThreadNumber} {start : Timing} {e : Option Timing}
    (hcore : s.tree.cores[i]? = some (parent, .scope kind number start e)) : e ≠ none := by
  have hlt := (List.getElem?_eq_some_iff.1 hcore).1
  rw [LogDataTree.length_cores, h.length] at hlt
  have hfits := h.fits
  have hopen := h.open_iff ⟨i + 1, Nat.succ_pos i, by omega⟩ parent kind number start e hcore
  rw [h.stackOf_eq_nil hwell] at hopen
  intro he
  cases hopen.1 he

/-- The parent of a span is in the messages of the same thread before it. -/
theorem parent_place {tid tid' : ThreadId} {i k : ℕ} {before after before' after' : List Item} {m m' : DataMessage}
    {parent : Option SpanId} {data data' : SpanData} {id : SpanId}
    (hspan : SpanAt lifetime (threadItems tid ms) i parent data before m after)
    (hspan' : SpanAt lifetime (threadItems tid' ms) k (some id) data' before' m' after') (hid : id.index = i) :
    ∃ between, Balanced tok false between ∧ after = between ++ (m', k) :: after' := by
  obtain ⟨a, x, b, rfl, hx, hindex, hb⟩ := hspan'.parentIs
  have hmem : (m, i) ∈ threadItems tid ms := by
    rw [hspan.split]
    simp
  have hmem' : x ∈ threadItems tid' ms := by
    rw [hspan'.split]
    simp
  have he : x = (m, i) := eq_of_number (mem_threadItems.1 hmem').1 (mem_threadItems.1 hmem).1 hx hspan.stands.isOpener
    (hindex.trans hid)
  subst he
  obtain rfl : tid' = tid := (mem_threadItems.1 hmem').2.symm.trans (mem_threadItems.1 hmem).2
  refine ⟨b, hb, ?_⟩
  have hsplit := hspan'.split
  rw [List.append_assoc, List.cons_append] at hsplit
  exact (split_unique hx hspan.split hsplit).2

/-- **The end of a key-value entry.** -/
theorem endsWithScope (h : Reads ms lifetime s) (hwell : WellBracketed ms) {tid : ThreadId} {i : ℕ}
    {parent : Option SpanId} {kv : KeyValue} {before after : List Item} {m : DataMessage}
    (hspan : SpanAt lifetime (threadItems tid ms) i parent (.keyValue kv) before m after) :
    EndsWithScope s.tree i before after := by
  have hmark : tok (m, i) = .mark := hspan.stands.token_keyValue
  rcases (hwell tid).around hspan.split hmark with
    ⟨outside, outer, body, body', y, rest, key, rfl, rfl, hopening, hclosing, hbody, hbody'⟩ | ⟨hfalse, -⟩
  · have hmem : outer ∈ threadItems tid ms := by
      rw [hspan.split]
      simp
    obtain ⟨parent', number, start, e, before', after', hcore, hpn, -, hspan'⟩ := h.scope_of_item hmem hopening
    obtain ⟨e, rfl⟩ := Option.ne_none_iff_exists'.1 (h.ne_none hwell hcore)
    -- The end of the scope around it is the end message that closes it.
    have hend : EndIs (key.1, start.pn) after' e := by
      generalize outer.1 = m' at hspan'
      cases hspan'.stands with
      | scope _ _ hend => exact hend e rfl
    obtain ⟨body'', point, j, rest', hafter', hbody'', htoken⟩ := hend
    have hsplit : threadItems tid ms = outside ++ outer :: ((body ++ (m, i) :: body') ++ y :: rest) := by
      rw [hspan.split]
      simp
    have hopener : (tok outer).isOpener = true := by
      rw [hopening]
      rfl
    obtain ⟨-, hafter⟩ := split_unique hopener hspan'.split hsplit
    have hinner : Balanced tok true (body ++ (m, i) :: body') := hbody.append (.mark hmark hbody')
    obtain ⟨-, hy⟩ := hinner.closing_unique hclosing hbody'' (show tok (.timing point e, j) = .closing _ from htoken)
      (hafter.symm.trans hafter')
    subst hy
    obtain ⟨span, hspan'', hcore'⟩ : ∃ span, s.tree.spans[outer.2]? = some span ∧
        (span.parent, span.data) = (parent', .scope key.1 number start (some e)) := by
      rw [LogDataTree.cores, List.getElem?_map] at hcore
      exact Option.map_eq_some_iff.1 hcore
    refine .intro hbody hspan'' (Prod.mk.inj hcore').2 (by rw [hopening, hpn]) hbody' htoken ?_
    intro k child id hchild hparent hid
    have hcore'' : s.tree.cores[k]? = some (some id, child.data) := by
      rw [LogDataTree.cores, List.getElem?_map, hchild, ← hparent]
      rfl
    obtain ⟨tid', before'', m'', after'', hspan₂⟩ := h.spans k (some id) child.data hcore''
    obtain ⟨between, hbetween, hafter₂⟩ := parent_place hspan hspan₂ hid
    obtain ⟨d, rfl, hd⟩ := hbody'.within hclosing hbetween hafter₂
    rcases d with _ | ⟨z, d⟩
    · -- An end message opens nothing.
      obtain ⟨he, -⟩ := List.cons.inj hd
      have hopener₂ := hspan₂.stands.isOpener
      rw [show m'' = .timing point e from congrArg Prod.fst he, htoken] at hopener₂
      cases hopener₂
    · obtain ⟨rfl, -⟩ := List.cons.inj hd
      exact ⟨m'', by simp⟩
  · cases hfalse

/-- **The tree of a well-bracketed log.** -/
theorem isCallForest (h : Reads ms lifetime s) (hwell : WellBracketed ms) : IsCallForest ms lifetime s.tree := by
  have hcore : ∀ {i : ℕ} {span : Span}, s.tree.spans[i]? = some span →
      s.tree.cores[i]? = some (span.parent, span.data) := by
    intro i span hspan
    rw [LogDataTree.cores, List.getElem?_map, hspan]
    rfl
  refine ⟨h.length, fun i span hspan => ?_, fun pn => ?_⟩
  · obtain ⟨tid, before, m, after, hspanAt⟩ := h.spans i span.parent span.data (hcore hspan)
    refine ⟨tid, before, m, after, hspanAt, ?_, ?_⟩
    · intro kind number start end_ hdata
      have hscope : s.tree.cores[i]? = some (span.parent, .scope kind number start end_) := by rw [hcore hspan, hdata]
      exact h.ne_none hwell hscope
    · intro kv hdata
      rw [hdata] at hspanAt
      exact h.endsWithScope hwell hspanAt
  · obtain ⟨hnodup, hmem⟩ := h.byPn pn
    refine ⟨hnodup, fun id => (hmem id).trans ?_⟩
    constructor
    · rintro ⟨parent, kind, number, start, e, hcore', hpn⟩
      rw [LogDataTree.cores_getElem?] at hcore'
      obtain ⟨span, hspan, he⟩ := Option.map_eq_some_iff.1 hcore'
      refine ⟨span, hspan, ?_⟩
      rw [Span.pn, (Prod.mk.inj he).2, ← hpn]
    · rintro ⟨span, hspan, hpn⟩
      have hcore' := hcore hspan
      cases hdata : span.data with
      | keyValue kv =>
        rw [Span.pn, hdata] at hpn
        cases hpn
      | scope kind number start end_ =>
        rw [hdata] at hcore'
        obtain ⟨e, rfl⟩ := Option.ne_none_iff_exists'.1 (h.ne_none hwell hcore')
        rw [Span.pn, hdata] at hpn
        exact ⟨span.parent, kind, number, start, e, hcore', Option.some.inj hpn⟩

end Reads

/-- **The call forest.** A well-bracketed log is read, if there are ids for its spans, and the tree says what happened. -/
theorem call_forest (ms : List DataMessage) (hwell : WellBracketed ms) :
    (openers ms < 2 ^ 32 → ∃ tree, LogDataTree.fromLogdata ms = .ok tree) ∧
      ∀ tree, LogDataTree.fromLogdata ms = .ok tree → ∃ lifetime, IsCallForest ms lifetime tree := by
  refine ⟨fun hroom => ?_, fun tree htree => ?_⟩
  · obtain ⟨s', hs'⟩ := hwell.read hroom
    exact ⟨s'.tree, by rw [LogDataTree.fromLogdata, hs']; rfl⟩
  · have hspec := read_new_spec ms
    rw [LogDataTree.fromLogdata] at htree
    obtain ⟨s', hs', he⟩ := Outcome.bind_eq_ok.1 htree
    rw [hs'] at hspec
    cases he
    cases hspec with
    | ok hfits hreads => exact ⟨_, hreads.isCallForest hwell⟩

/-- Two threads, of which one ends while the other is in a scope with a key-value entry, and its id is used again. -/
def sampleLog : List DataMessage :=
  [.timing .tStart (sampleTiming "main" 1), .timing .tThreadStart (sampleTiming "worker" 2),
    .timing .ts (sampleTiming "a" 1), .keyValue ⟨1, "case", "x"⟩, .timing .ts (sampleTiming "b" 1),
    .timing .tThreadEnd (sampleTiming "worker" 2), .timing .te (sampleTiming "b" 1), .timing .te (sampleTiming "a" 1),
    .timing .tThreadStart (sampleTiming "worker" 2), .timing .tThreadEnd (sampleTiming "worker" 2),
    .timing .tEnd (sampleTiming "main" 1)]

theorem call_forest_sample :
    WellBracketed sampleLog ∧ ∃ tree lifetime, LogDataTree.fromLogdata sampleLog = .ok tree ∧
      IsCallForest sampleLog lifetime tree := by
  have hwell : WellBracketed sampleLog := by decide +kernel
  obtain ⟨hread, hforest⟩ := call_forest sampleLog hwell
  obtain ⟨tree, htree⟩ := hread (by decide +kernel)
  obtain ⟨lifetime, hlifetime⟩ := hforest tree htree
  exact ⟨hwell, tree, lifetime, htree, hlifetime⟩

end Evobench.Evaluator

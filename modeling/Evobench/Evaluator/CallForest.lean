import Evobench.Evaluator.LogDataTree

/-!
# What the tree of a log says

The spans of a log, thread by thread: what the parent, the end, and the data of a span have to be, said
about the messages of its thread alone.

* `ParentIs`, `EndIs`: the innermost span around a place, and the matching end of a scope.
* `Stands`, `SpanAt`: a span is right for its message.
* `LogDataTree.cores`: the parents and the data of the spans, and what the operations on a tree do to them.
-/

namespace Evobench.Evaluator

open Library

/-! ### What a span has to be -/

/-- The number of thread ends. -/
def threadEnds (l : List Item) : ℕ := l.countP fun x => x.1.isThreadEnd

/-- The parent of a span that is opened after `before`: the span of the innermost item that is open there, after which
everything has been closed again; `none` if everything has been closed. -/
def ParentIs (before : List Item) : Option SpanId → Prop
  | none => Balanced tok false before
  | some id => ∃ a x b, before = a ++ x :: b ∧ (tok x).isOpener = true ∧ x.2 = id.index ∧ Balanced tok false b

/-- `timing` is the matching end of a scope with the given key that is opened before `after`. -/
def EndIs (key : ScopeKind × String) (after : List Item) (timing : Timing) : Prop :=
  ∃ body kind i rest, after = body ++ (.timing kind timing, i) :: rest ∧ Balanced tok true body ∧
    (DataMessage.timing kind timing).token = .closing key

/-- The data of a span stands for a message of the thread, between `before` and `after`. The function gives the
lifetime of each thread number: the thread id and the number of thread ends before. -/
inductive Stands (lifetime : ThreadNumber → ThreadId × ℕ) (before after : List Item) : DataMessage → SpanData → Prop where
  /-- A key-value entry. -/
  | keyValue (kv : KeyValue) : Stands lifetime before after (.keyValue kv) (.keyValue kv)
  /-- A start. -/
  | scope {point : PointKind} {kind : ScopeKind} {number : ThreadNumber} {start : Timing} {end_ : Option Timing}
      (hkind : PointDispatch.fromPointKind point = .scope kind false)
      (hnumber : lifetime number = (start.tid, threadEnds before))
      (hend : ∀ e, end_ = some e → EndIs (kind, start.pn) after e) :
      Stands lifetime before after (.timing point start) (.scope kind number start end_)

/-- The parent and the data of a span are right for the message with its number. -/
structure SpanAt (lifetime : ThreadNumber → ThreadId × ℕ) (l : List Item) (i : ℕ) (parent : Option SpanId)
    (data : SpanData) (before : List Item) (m : DataMessage) (after : List Item) : Prop where
  /-- The place of the message. -/
  split : l = before ++ (m, i) :: after
  /-- The parent. -/
  parentIs : ParentIs before parent
  /-- The data. -/
  stands : Stands lifetime before after m data

namespace Stands

variable {lifetime : ThreadNumber → ThreadId × ℕ} {before after : List Item} {m : DataMessage} {data : SpanData}

theorem isOpener (h : Stands lifetime before after m data) : m.token.isOpener = true := by
  cases h with
  | keyValue kv => rfl
  | scope hkind _ _ =>
    simp only [DataMessage.token, hkind]
    rfl

theorem token_keyValue {kv : KeyValue} (h : Stands lifetime before after m (.keyValue kv)) : m.token = .mark := by
  cases h
  rfl

theorem token_scope {kind : ScopeKind} {number : ThreadNumber} {start : Timing} {end_ : Option Timing}
    (h : Stands lifetime before after m (.scope kind number start end_)) :
    m.token = .opening (kind, start.pn) ∧ m.tid = start.tid := by
  cases h with
  | scope hkind _ _ =>
    simp only [DataMessage.token, hkind]
    exact ⟨trivial, rfl⟩

/-- More messages may follow. -/
theorem append (h : Stands lifetime before after m data) (l : List Item) :
    Stands lifetime before (after ++ l) m data := by
  cases h with
  | keyValue kv => exact .keyValue kv
  | scope hkind hnumber hend =>
    refine .scope hkind hnumber fun e he => ?_
    obtain ⟨body, kind, i, rest, rfl, hbody, htoken⟩ := hend e he
    exact ⟨body, kind, i, rest ++ l, by rw [List.append_assoc, List.cons_append], hbody, htoken⟩

end Stands

theorem SpanAt.append {lifetime : ThreadNumber → ThreadId × ℕ} {l before after : List Item} {i : ℕ}
    {parent : Option SpanId} {data : SpanData} {m : DataMessage}
    (h : SpanAt lifetime l i parent data before m after) (l' : List Item) :
    SpanAt lifetime (l ++ l') i parent data before m (after ++ l') :=
  ⟨by rw [h.split, List.append_assoc, List.cons_append], h.parentIs, h.stands.append l'⟩

/-! ### The parts of spans that matter -/

theorem Span.parent_setEnd (timing : Timing) (span : Span) : (span.setEnd timing).parent = span.parent := by
  unfold setEnd
  split
  · rfl
  · rfl

namespace LogDataTree

/-- The parents and the data of the spans. -/
def cores (tree : LogDataTree) : List (Option SpanId × SpanData) := tree.spans.map fun span => (span.parent, span.data)

theorem length_cores (tree : LogDataTree) : tree.cores.length = tree.spans.length := by simp [cores]

theorem cores_getElem? (tree : LogDataTree) (id : SpanId) :
    tree.cores[id.index]? = (tree.get? id).map fun span => (span.parent, span.data) := by simp [cores, get?]

/-- A new span goes to the end, if there is room. -/
theorem addSpan_eq {tree : LogDataTree} (span : Span) (h : tree.spans.length + 1 < 2 ^ 32) :
    ∃ id : SpanId, id.index = tree.spans.length ∧
      (tree.addSpan span : Outcome String _) = .ok (id, { tree with spans := tree.spans ++ [span] }) := by
  have hnew : SpanId.new (tree.spans ++ [span]).length = (.ok ⟨tree.spans.length + 1, Nat.succ_pos _, h⟩ : Outcome String _) := by
    rw [List.length_append]
    exact SpanId.new_succ h
  refine ⟨⟨tree.spans.length + 1, Nat.succ_pos _, h⟩, rfl, ?_⟩
  rw [addSpan]
  dsimp only
  rw [hnew]
  rfl

theorem addSpan_eq_panic {tree : LogDataTree} {span : Span} (h : ¬ tree.spans.length + 1 < 2 ^ 32) :
    (tree.addSpan span : Outcome String _) = .panic "index not outside u32 range" := by
  have hnew : SpanId.new (tree.spans ++ [span]).length = (.panic "index not outside u32 range" : Outcome String _) := by
    rw [List.length_append]
    exact dif_neg h
  rw [addSpan]
  dsimp only
  rw [hnew]
  rfl

theorem cores_addSpan (tree : LogDataTree) (span : Span) :
    ({ tree with spans := tree.spans ++ [span] } : LogDataTree).cores = tree.cores ++ [(span.parent, span.data)] := by
  simp [cores]

/-- Child lists do not matter. -/
theorem cores_addChild (tree : LogDataTree) (id child : SpanId) :
    (tree.modify id (Span.addChild child)).cores = tree.cores := by
  apply List.ext_getElem?
  intro i
  simp only [cores, modify, List.getElem?_map, List.getElem?_modify]
  cases tree.spans[i]? with
  | none => simp
  | some span =>
    by_cases hi : id.index = i
    · simp [hi, Span.addChild]
    · simp [hi]

/-- Setting an end. -/
theorem cores_setEnd (tree : LogDataTree) (id : SpanId) (timing : Timing) (i : ℕ) :
    (tree.modify id (Span.setEnd timing)).cores[i]? =
      if id.index = i then (tree.get? id).map fun span => (span.parent, (span.setEnd timing).data)
      else tree.cores[i]? := by
  simp only [cores, modify, List.getElem?_map, List.getElem?_modify, get?]
  by_cases hi : id.index = i
  · subst hi
    cases tree.spans[id.index]? with
    | none => simp
    | some span => simp [Span.parent_setEnd]
  · simp [hi]

theorem cores_addToPn (tree : LogDataTree) (pn : String) (id : SpanId) : (tree.addToPn pn id).cores = tree.cores := by
  unfold addToPn
  split
  · rfl
  · rfl

theorem idsByPn_addToPn (tree : LogDataTree) (pn pn' : String) (id : SpanId) :
    (tree.addToPn pn id).idsByPn pn' = if pn' = pn then tree.idsByPn pn' ++ [id] else tree.idsByPn pn' := by
  unfold addToPn
  split
  · next ids hids =>
    by_cases hpn : pn' = pn
    · subst hpn
      simp [idsByPn, hids]
    · simp [idsByPn, hpn]
  · next hids =>
    by_cases hpn : pn' = pn
    · subst hpn
      simp [idsByPn, hids]
    · simp [idsByPn, hpn]

end LogDataTree

/-! ### Places of opening items -/

/-- An opening item is given by its number. -/
theorem eq_of_number {n : ℕ} {ms : List DataMessage} {x y : Item} (hx : x ∈ numbered n ms) (hy : y ∈ numbered n ms)
    (hxo : (tok x).isOpener = true) (hyo : (tok y).isOpener = true) (he : x.2 = y.2) : x = y := by
  by_contra hne
  have hpairwise := (numbered_pairwise n ms).2
  rcases List.pairwise_iff_getElem.1 hpairwise with h
  obtain ⟨i, hi, rfl⟩ := List.getElem_of_mem hx
  obtain ⟨j, hj, rfl⟩ := List.getElem_of_mem hy
  rcases Nat.lt_trichotomy i j with hij | hij | hij
  · have := (h i j hi hj hij).2 hxo
    omega
  · subst hij
    exact hne rfl
  · have := (h j i hj hi hij).2 hyo
    omega

/-- An opening item is at one place. -/
theorem split_unique {tid : ThreadId} {ms : List DataMessage} {x : Item} {a b a' b' : List Item}
    (hx : (tok x).isOpener = true) (h : threadItems tid ms = a ++ x :: b) (h' : threadItems tid ms = a' ++ x :: b') :
    a = a' ∧ b = b' := by
  have hnot : ∀ {a b : List Item}, threadItems tid ms = a ++ x :: b → x ∉ a := by
    intro a b hab hmem
    have hpairwise := threadItems_pairwise tid ms
    rw [hab, List.pairwise_append] at hpairwise
    exact Nat.lt_irrefl _ ((hpairwise.2.2 x hmem x List.mem_cons_self).2 hx)
  have he := h.symm.trans h'
  rcases List.append_eq_append_iff.1 he with ⟨c, hc, hc'⟩ | ⟨c, hc, hc'⟩
  · rcases c with _ | ⟨y, c⟩
    · simp only [List.append_nil] at hc
      exact ⟨hc.symm, by simpa using hc'⟩
    · obtain ⟨rfl, -⟩ := List.cons.inj hc'
      exact absurd (by rw [hc]; simp) (hnot h')
  · rcases c with _ | ⟨y, c⟩
    · simp only [List.append_nil] at hc
      exact ⟨hc, by simpa using hc'.symm⟩
    · obtain ⟨rfl, -⟩ := List.cons.inj hc'
      exact absurd (by rw [hc]; simp) (hnot h)

end Evobench.Evaluator

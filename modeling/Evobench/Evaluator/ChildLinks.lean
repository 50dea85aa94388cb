import Evobench.Evaluator.Acceptance
import Evobench.Library.ChildLists

/-!
# Child lists of spans

A span has a link to its parent, and a list of its children. `from_logdata` makes spans at two places: for a
key-value entry, the id of the new span is added to the list of the parent; for the start of a process,
thread or scope it is not.

* `EntriesLinked`: what holds after every message, the child lists mirror the links of the key-value entries.
* `LinksAgree`: the child lists mirror all links.
* `StartsOutermost`: nothing is started inside of a span.

The main result is `linksAgree_iff`.
-/

namespace Evobench.Evaluator

open Library

/-! ### Links -/

/-- The parent of a key-value entry. -/
def Span.entryParent (span : Span) : Option SpanId :=
  match span.data with
  | .keyValue _ => span.parent
  | .scope _ _ _ _ => none

namespace LogDataTree

/-- The `children` of a span. -/
def childrenOf (tree : LogDataTree) (id : SpanId) : List SpanId := ((tree.get? id).map Span.children).getD []

/-- The `parent` of a span. -/
def parentOf (tree : LogDataTree) (id : SpanId) : Option SpanId := (tree.get? id).bind Span.parent

/-- The `parent` of a key-value entry; a scope has none here. -/
def entryParentOf (tree : LogDataTree) (id : SpanId) : Option SpanId := (tree.get? id).bind Span.entryParent

/-- **Parent and child links agree.** -/
def LinksAgree (tree : LogDataTree) : Prop := Mirrors tree.childrenOf tree.parentOf

/-- They agree as far as key-value entries go. -/
def EntriesLinked (tree : LogDataTree) : Prop := Mirrors tree.childrenOf tree.entryParentOf

/-! ### What the operations do to the links -/

variable {tree : LogDataTree} {id : SpanId}

theorem get?_eq_none (h : id.index = tree.spans.length) : tree.get? id = none := by simp [get?, h]

/-- The new span is the only one that changes. -/
theorem get?_addSpan (h : id.index = tree.spans.length) (span : Span) :
    ({ tree with spans := tree.spans ++ [span] } : LogDataTree).get? = Function.update tree.get? id (some span) := by
  funext c
  by_cases hc : c = id
  · simp [get?, hc, h]
  · have hne : c.index ≠ tree.spans.length := fun he => hc (SpanId.index_injective (he.trans h.symm))
    rw [Function.update_of_ne hc, get?, List.getElem?_append]
    split
    · rfl
    · rw [get?, List.getElem?_eq_none (by simp; omega), List.getElem?_eq_none (by omega)]

theorem childrenOf_addSpan (h : id.index = tree.spans.length) (parent : Option SpanId) (data : SpanData) :
    ({ tree with spans := tree.spans ++ [⟨parent, [], data⟩] } : LogDataTree).childrenOf = tree.childrenOf := by
  funext p
  rw [childrenOf, get?_addSpan h, childrenOf]
  by_cases hp : p = id
  · simp [hp, get?_eq_none h]
  · simp [hp]

theorem entryParentOf_addSpan (h : id.index = tree.spans.length) (span : Span) :
    ({ tree with spans := tree.spans ++ [span] } : LogDataTree).entryParentOf =
      Function.update tree.entryParentOf id span.entryParent := by
  funext c
  rw [entryParentOf, get?_addSpan h]
  by_cases hc : c = id
  · simp [hc]
  · simp [hc, entryParentOf]

/-- A span that is no entry with a parent adds no link. -/
theorem entryParentOf_addSpan_none (h : id.index = tree.spans.length) {span : Span} (hspan : span.entryParent = none) :
    ({ tree with spans := tree.spans ++ [span] } : LogDataTree).entryParentOf = tree.entryParentOf := by
  rw [entryParentOf_addSpan h, hspan, Function.update_eq_self_iff, entryParentOf, get?_eq_none h, Option.bind_none]

theorem get?_modify (p c : SpanId) (f : Span → Span) :
    (tree.modify p f).get? c = if c = p then (tree.get? c).map f else tree.get? c := by
  rw [get?, modify, List.getElem?_modify]
  by_cases hc : c = p
  · simp [hc, get?]
  · have hne : p.index ≠ c.index := fun he => hc (SpanId.index_injective he.symm)
    simp [hc, hne, get?]

theorem childrenOf_addChild {p : SpanId} (hp : tree.get? p ≠ none) (c : SpanId) :
    (tree.modify p (Span.addChild c)).childrenOf = Function.update tree.childrenOf p (tree.childrenOf p ++ [c]) := by
  obtain ⟨span, hspan⟩ := Option.ne_none_iff_exists'.1 hp
  funext q
  rw [childrenOf, get?_modify]
  by_cases hq : q = p
  · simp [hq, childrenOf, hspan, Span.addChild]
  · simp [hq, childrenOf]

theorem entryParentOf_addChild (p c : SpanId) : (tree.modify p (Span.addChild c)).entryParentOf = tree.entryParentOf := by
  funext d
  rw [entryParentOf, get?_modify, entryParentOf]
  split
  · cases tree.get? d <;> rfl
  · rfl

/-- An end changes no link. -/
theorem links_setEnd (p : SpanId) (timing : Timing) :
    (tree.modify p (Span.setEnd timing)).childrenOf = tree.childrenOf ∧
      (tree.modify p (Span.setEnd timing)).entryParentOf = tree.entryParentOf := by
  have hspan : ∀ span : Span, (span.setEnd timing).children = span.children ∧
      (span.setEnd timing).entryParent = span.entryParent := by
    rintro ⟨parent, children, kind | kv⟩
    · exact ⟨rfl, rfl⟩
    · exact ⟨rfl, rfl⟩
  constructor
  · funext c
    rw [childrenOf, get?_modify, childrenOf]
    split
    · cases tree.get? c <;> simp [hspan]
    · rfl
  · funext c
    rw [entryParentOf, get?_modify, entryParentOf]
    split
    · cases tree.get? c <;> simp [hspan]
    · rfl

theorem get?_addToPn (pn : String) (id : SpanId) : (tree.addToPn pn id).get? = tree.get? := by
  unfold addToPn
  split
  · rfl
  · rfl

theorem EntriesLinked.addToPn (h : tree.EntriesLinked) (pn : String) (id : SpanId) :
    (tree.addToPn pn id).EntriesLinked := by
  have hchildren : (tree.addToPn pn id).childrenOf = tree.childrenOf := by
    funext p
    rw [childrenOf, get?_addToPn, childrenOf]
  have hparent : (tree.addToPn pn id).entryParentOf = tree.entryParentOf := by
    funext c
    rw [entryParentOf, get?_addToPn, entryParentOf]
  rw [EntriesLinked, hchildren, hparent]
  exact h

/-- The links agree if and only if no scope has a parent. -/
theorem EntriesLinked.agree_iff (h : tree.EntriesLinked) :
    tree.LinksAgree ↔ ∀ c, tree.parentOf c = tree.entryParentOf c := by
  constructor
  · intro hagree c
    rw [hagree.parent_unique h]
  · intro heq
    rw [LinksAgree, funext heq]
    exact h

end LogDataTree

/-! ### After every message -/

namespace Reads

variable {pre : List DataMessage} {lifetime : ThreadNumber → ThreadId × ℕ} {s s' : Reader}

/-- The spans on the stacks are there. -/
theorem get?_ne_none (h : Reads pre lifetime s) {tid : ThreadId} {id : SpanId} (hid : id ∈ s.stackOf tid) :
    s.tree.get? id ≠ none := by
  obtain ⟨x, hx, hopener, hindex⟩ := h.exists_item hid
  obtain ⟨parent, data, -, -, hcore, -⟩ := h.exists_span hx hopener
  rw [hindex, LogDataTree.cores_getElem?] at hcore
  intro hnone
  rw [hnone] at hcore
  cases hcore

/-- What holds at the start and is preserved by a message holds after all messages. -/
theorem read_induction {P : Reader → Prop}
    (hstep : ∀ {pre : List DataMessage} {lifetime : ThreadNumber → ThreadId × ℕ} {s s' : Reader} (m : DataMessage),
      Reads pre lifetime s → P s → s.step m = .ok s' → P s')
    {ms : List DataMessage} (h : Reads pre lifetime s) (hs : P s) (hread : s.read ms = .ok s') : P s' := by
  induction ms generalizing pre lifetime s with
  | nil =>
    cases hread
    exact hs
  | cons m ms ih =>
    rw [Reader.read] at hread
    obtain ⟨s₁, hs₁, hread⟩ := Outcome.bind_eq_ok.1 hread
    have hspec := step_spec h m
    rw [hs₁] at hspec
    cases hspec with
    | ok hfits hreads => exact ih hreads (hstep m h hs hs₁) hread

end Reads

/-! ### One message -/

/-- A new span has the next number. -/
theorem LogDataTree.addSpan_ok {ε : Type} {tree tree' : LogDataTree} {span : Span} {id : SpanId}
    (h : (tree.addSpan span : Outcome ε _) = .ok (id, tree')) :
    id.index = tree.spans.length ∧ tree' = { tree with spans := tree.spans ++ [span] } := by
  rw [addSpan] at h
  obtain ⟨id', hid, h⟩ := Outcome.bind_eq_ok.1 h
  cases h
  rw [SpanId.new] at hid
  split_ifs at hid with hfits hpos
  cases hid
  exact ⟨by simp [SpanId.index], rfl⟩

/-- Popping frames changes nothing but the end of the scope that is found. -/
theorem Reader.closeScope_ok {s s' : Reader} {kind : ScopeKind} {timing : Timing} {stack : List SpanId}
    (h : s.closeScope kind timing stack = .ok s') : ∃ pn id rest, s' = s.endScope kind timing pn id rest := by
  induction stack with
  | nil => cases h
  | cons id stack ih =>
    rw [closeScope] at h
    split at h
    · cases h
    · next span hspan =>
      split at h
      · exact ih h
      · split_ifs at h
        cases h
        exact ⟨_, _, _, rfl⟩

namespace LogDataTree.EntriesLinked

variable {pre : List DataMessage} {lifetime : ThreadNumber → ThreadId × ℕ} {s s' : Reader}

/-- A key-value entry is added to the list of its parent. -/
theorem addKeyValue (h : Reads pre lifetime s) (hlinked : s.tree.EntriesLinked) {kv : KeyValue}
    (hok : s.addKeyValue kv = .ok s') : s'.tree.EntriesLinked := by
  rw [Reader.addKeyValue] at hok
  split at hok
  · next stack hstack =>
    obtain ⟨⟨id, tree⟩, hadd, hok⟩ := Outcome.bind_eq_ok.1 hok
    obtain ⟨hid, rfl⟩ := addSpan_ok hadd
    cases hparent : stack.head? with
    | none =>
      rw [hparent] at hok
      cases hok
      change EntriesLinked { s.tree with spans := s.tree.spans ++ [⟨none, [], .keyValue kv⟩] }
      rw [EntriesLinked, childrenOf_addSpan hid, entryParentOf_addSpan_none hid rfl]
      exact hlinked
    | some parent =>
      rw [hparent] at hok
      cases hok
      change (LogDataTree.modify { s.tree with spans := s.tree.spans ++ [⟨some parent, [], .keyValue kv⟩] } parent
        (Span.addChild id)).EntriesLinked
      have hmem : parent ∈ s.stackOf kv.tid := by
        rw [Reader.stackOf, hstack]
        exact List.mem_of_head? hparent
      have hget : LogDataTree.get? { s.tree with spans := s.tree.spans ++ [⟨some parent, [], .keyValue kv⟩] } parent ≠
          none := by
        rw [get?_addSpan hid, Function.update_apply]
        split
        · simp
        · exact h.get?_ne_none hmem
      have hnew : s.tree.entryParentOf id = none := by rw [entryParentOf, get?_eq_none hid, Option.bind_none]
      rw [EntriesLinked, childrenOf_addChild hget, entryParentOf_addChild, childrenOf_addSpan hid,
        entryParentOf_addSpan hid]
      exact hlinked.link hnew
  · cases hok

/-- A start is not added to any list. -/
theorem openScope (hlinked : s.tree.EntriesLinked) {kind : ScopeKind} {timing : Timing}
    (hok : s.openScope kind timing = .ok s') : s'.tree.EntriesLinked := by
  rw [Reader.openScope] at hok
  obtain ⟨⟨id, tree⟩, hadd, hok⟩ := Outcome.bind_eq_ok.1 hok
  obtain ⟨hid, rfl⟩ := addSpan_ok hadd
  cases hok
  simp only [Reader.setStack]
  rw [EntriesLinked, childrenOf_addSpan hid, entryParentOf_addSpan_none hid rfl]
  exact hlinked

/-- An end leaves the links as they are. -/
theorem closeScope (hlinked : s.tree.EntriesLinked) {kind : ScopeKind} {timing : Timing} {stack : List SpanId}
    (hok : s.closeScope kind timing stack = .ok s') : s'.tree.EntriesLinked := by
  obtain ⟨pn, id, rest, rfl⟩ := Reader.closeScope_ok hok
  have hend : (s.tree.modify id (Span.setEnd timing)).EntriesLinked := by
    rw [EntriesLinked, (links_setEnd id timing).1, (links_setEnd id timing).2]
    exact hlinked
  exact hend.addToPn pn id

/-- **One message**: as far as key-value entries go, the links agree afterwards. -/
theorem step (h : Reads pre lifetime s) (hlinked : s.tree.EntriesLinked) {m : DataMessage} (hok : s.step m = .ok s') :
    s'.tree.EntriesLinked := by
  cases m with
  | keyValue kv => exact addKeyValue h hlinked hok
  | timing point timing =>
    rw [Reader.step] at hok
    cases hkind : PointDispatch.fromPointKind point with
    | scope kind isEnding =>
      rw [hkind] at hok
      cases isEnding with
      | false => exact openScope hlinked hok
      | true =>
        cases hstack : s.startByThread timing.tid with
        | some stack =>
          rw [hstack] at hok
          exact closeScope hlinked hok
        | none =>
          rw [hstack] at hok
          cases hok
    | t =>
      rw [hkind] at hok
      cases hok
      exact hlinked
    | tio =>
      rw [hkind] at hok
      cases hok
      exact hlinked

/-- **After all messages.** -/
theorem read {ms : List DataMessage} (hread : Reader.new.read ms = .ok s) : s.tree.EntriesLinked := by
  have hnew : Reader.new.tree.EntriesLinked := by
    have hempty : ∀ id, LogDataTree.empty.get? id = none := fun id => rfl
    have hchildren : LogDataTree.empty.childrenOf = fun _ => [] := by
      funext p
      rw [childrenOf, hempty]
      rfl
    have hparent : LogDataTree.empty.entryParentOf = fun _ => none := by
      funext p
      rw [entryParentOf, hempty]
      rfl
    rw [Reader.new, EntriesLinked, hchildren, hparent]
    exact .empty
  exact (Reads.new fun _ => (0, 0)).read_induction (P := fun s => s.tree.EntriesLinked)
    (fun m h hlinked hok => hlinked.step h hok) hnew hread

end LogDataTree.EntriesLinked

/-! ### Where a span is started -/

/-- Nothing is started inside of a span: before every start of a process, thread or scope, whatever was opened on its
thread has been closed. -/
def StartsOutermost (ms : List DataMessage) : Prop :=
  ∀ p m q key, ms = p ++ m :: q → m.token = .opening key → Balanced tok false (threadItems m.tid p)

theorem StartsOutermost.of_prefix {pre ms : List DataMessage} (h : StartsOutermost ms) (hpre : pre <+: ms) :
    StartsOutermost pre := by
  obtain ⟨rest, rfl⟩ := hpre
  intro p m q key hsplit hm
  exact h p m (q ++ rest) key (by simp [hsplit]) hm

/-- There is no parent if and only if everything has been closed. -/
theorem ParentIs.eq_none_iff {before : List Item} {parent : Option SpanId} (h : ParentIs before parent) :
    parent = none ↔ Balanced tok false before := by
  cases parent with
  | none => exact iff_of_true rfl h
  | some id =>
    obtain ⟨a, x, b, rfl, hx, -, hb⟩ := h
    refine iff_of_false (by simp) fun hbalanced => ?_
    -- the item would have to be open at the end
    obtain ⟨marks, -, hmarks, hscan⟩ := hbalanced.scan
    obtain ⟨marks', -, hmarks', hscan'⟩ := hb.scan
    have hwhole := hscan []
    rw [scan_append, Option.bind_eq_some_iff] at hwhole
    obtain ⟨st, -, hrest⟩ := hwhole
    rw [scan_cons, scanStep_opener hx, Option.bind_some, hscan', hmarks rfl, hmarks' rfl] at hrest
    cases hrest

/-- The place of an item of a thread in the log. -/
theorem exists_place {tid : ThreadId} {ms : List DataMessage} {before after : List Item} {x : Item}
    (h : threadItems tid ms = before ++ x :: after) : ∃ p q, ms = p ++ x.1 :: q ∧ threadItems tid p = before := by
  induction ms using List.reverseRecOn generalizing after with
  | nil => simp [threadItems, numbered] at h
  | append_singleton ms m ih =>
    by_cases htid : m.tid = tid
    · subst htid
      rw [threadItems_snoc_self] at h
      rcases List.eq_nil_or_concat after with rfl | ⟨after, z, rfl⟩
      · obtain ⟨hbefore, hx⟩ := List.append_inj' h rfl
        obtain rfl := List.singleton_inj.1 hx
        exact ⟨ms, [], rfl, hbefore⟩
      · rw [List.concat_eq_append, ← List.cons_append, ← List.append_assoc] at h
        obtain ⟨p, q, rfl, hp⟩ := ih (List.append_inj' h rfl).1
        exact ⟨p, q ++ [m], by simp, hp⟩
    · rw [threadItems_snoc_of_ne htid] at h
      obtain ⟨p, q, rfl, hp⟩ := ih h
      exact ⟨p, q ++ [m], by simp, hp⟩

/-- The item of a message. -/
theorem exists_threadItems (p : List DataMessage) (m : DataMessage) (q : List DataMessage) :
    ∃ after, threadItems m.tid (p ++ m :: q) = threadItems m.tid p ++ (m, openers p) :: after := by
  rw [threadItems_append, numbered, List.filter_cons, if_pos (by simp)]
  exact ⟨_, rfl⟩

/-- **The tree after some messages**: the links agree if and only if nothing was started inside of a span. -/
theorem Reads.links_iff {ms : List DataMessage} {lifetime : ThreadNumber → ThreadId × ℕ} {s : Reader}
    (h : Reads ms lifetime s) (hlinked : s.tree.EntriesLinked) : s.tree.LinksAgree ↔ StartsOutermost ms := by
  rw [hlinked.agree_iff]
  constructor
  · intro hsame p m q key hms hm
    obtain ⟨after, hitems⟩ := exists_threadItems p m q
    rw [← hms] at hitems
    have hmem : (m, openers p) ∈ threadItems m.tid ms := by simp [hitems]
    have htok : tok (m, openers p) = .opening key := hm
    obtain ⟨parent, number, start, e, before, after', hcore, -, -, hspan⟩ := h.scope_of_item hmem htok
    have hopener : (tok (m, openers p)).isOpener = true := by
      rw [htok]
      rfl
    obtain ⟨rfl, -⟩ := split_unique hopener hspan.split hitems
    refine hspan.parentIs.eq_none_iff.1 ?_
    -- the span of the start
    have hlt := (List.getElem?_eq_some_iff.1 hcore).1
    rw [LogDataTree.length_cores, h.length] at hlt
    have hfits := h.fits
    have hid := hsame ⟨openers p + 1, Nat.succ_pos _, by omega⟩
    rw [show openers p = SpanId.index ⟨openers p + 1, Nat.succ_pos _, by omega⟩ from rfl, LogDataTree.cores_getElem?] at hcore
    obtain ⟨span, hspan', he⟩ := Option.map_eq_some_iff.1 hcore
    obtain ⟨rfl, hdata⟩ := Prod.mk.inj he
    simpa [LogDataTree.parentOf, LogDataTree.entryParentOf, hspan', Span.entryParent, hdata] using hid
  · intro houter c
    rw [LogDataTree.parentOf, LogDataTree.entryParentOf]
    cases hc : s.tree.get? c with
    | none => rfl
    | some span =>
      rw [Option.bind_some, Option.bind_some, Span.entryParent]
      cases hdata : span.data with
      | keyValue kv => rfl
      | scope kind number start e =>
        have hcore : s.tree.cores[c.index]? = some (span.parent, .scope kind number start e) := by
          rw [LogDataTree.cores_getElem?, hc, ← hdata]
          rfl
        obtain ⟨tid, before, m, after, hspan⟩ := h.spans _ _ _ hcore
        obtain ⟨p, q, hms, rfl⟩ := exists_place hspan.split
        have htid : m.tid = tid := by
          have hmem : (m, c.index) ∈ threadItems tid ms := by simp [hspan.split]
          exact (mem_threadItems.1 hmem).2
        subst htid
        exact hspan.parentIs.eq_none_iff.2 (houter p m q _ hms hspan.stands.token_scope.1)

/-! ### Whole logs -/

/-- **When parent and child links agree**, for a log that is accepted: they do after every message and at the end if and only
if nothing is started inside of a span. -/
theorem linksAgree_iff {ms : List DataMessage} {tree : LogDataTree} (h : LogDataTree.fromLogdata ms = .ok tree) :
    ((∀ pre s, pre <+: ms → Reader.new.read pre = .ok s → s.tree.LinksAgree) ∧ tree.LinksAgree) ↔ StartsOutermost ms := by
  have hreads : ∀ {pre : List DataMessage} {s : Reader}, Reader.new.read pre = .ok s →
      (s.tree.LinksAgree ↔ StartsOutermost pre) := by
    intro pre s hread
    have hspec := read_new_spec pre
    rw [hread] at hspec
    cases hspec with
    | ok hfits hreads => exact hreads.links_iff (.read hread)
  obtain ⟨s, hread, hs⟩ := Outcome.bind_eq_ok.1 h
  cases hs
  refine ⟨fun hagree => (hreads hread).1 hagree.2, fun houter => ⟨fun pre s' hpre hread' => ?_, (hreads hread).2 houter⟩⟩
  exact (hreads hread').2 (houter.of_prefix hpre)

/-- A process with a key-value entry. -/
def entryLog : List DataMessage :=
  [.timing .tStart (sampleTiming "main" 1), .keyValue ⟨1, "n", "3"⟩, .timing .tEnd (sampleTiming "main" 1)]

/-- Its links agree. -/
theorem linksAgree_entryLog :
    ∃ tree, LogDataTree.fromLogdata entryLog = .ok tree ∧
      (((∀ pre s, pre <+: entryLog → Reader.new.read pre = .ok s → s.tree.LinksAgree) ∧ tree.LinksAgree) ↔
        StartsOutermost entryLog) :=
  ⟨_, rfl, linksAgree_iff rfl⟩

/-- A process with a scope. -/
def scopeLog : List DataMessage :=
  [.timing .tStart (sampleTiming "main" 1), .timing .ts (sampleTiming "a" 1), .timing .te (sampleTiming "a" 1),
    .timing .tEnd (sampleTiming "main" 1)]

theorem two_lt_u32 : 2 < 2 ^ 32 := by decide

theorem one_lt_u32 : 1 < 2 ^ 32 := (Nat.lt_succ_self 1).trans two_lt_u32

/-- The span of the process. -/
def processSpan : SpanId := ⟨1, Nat.one_pos, one_lt_u32⟩

/-- The span of the scope. -/
def scopeSpan : SpanId := ⟨2, Nat.two_pos, two_lt_u32⟩

/-- The scope has the process as its parent, which does not list it. -/
theorem scope_is_not_listed :
    ¬ ∀ ms tree, LogDataTree.fromLogdata ms = .ok tree →
      (∀ pre s, pre <+: ms → Reader.new.read pre = .ok s → s.tree.LinksAgree) ∧ tree.LinksAgree := by
  intro h
  obtain ⟨-, hagree⟩ := h scopeLog _ rfl
  have hlisted := ((hagree processSpan).2 scopeSpan).2 rfl
  cases hlisted

end Evobench.Evaluator

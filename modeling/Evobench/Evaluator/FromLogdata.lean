import Evobench.Evaluator.CallForest

/-!
# Reading a log

The loop of `from_logdata` keeps one stack of open spans for each thread, while the messages of the
threads come interleaved. `Reads` is its invariant: for every thread by itself, the stack is what is
pending in the messages of the thread so far, and every span stands for one opening message, with the
innermost span around it as its parent.

* `Adds`, `Ending`: what a message does that opens a span, and what one finds that ends a scope. For each of them there is one
  lemma for every field of `Reads`.
* `Reads.opened`, `Reads.ended`, `Reads.skipped`: the three things that a message does.
* `Reads.addKeyValue_ok`, `Reads.openScope_ok`: key-value entries and starts.
* `Reads.closeScope_eq`: which scope an end message finds.
-/

namespace Evobench.Evaluator

open Library

/-- The spans of a thread that are open, the innermost one first. -/
def Reader.stackOf (s : Reader) (tid : ThreadId) : List SpanId := (s.startByThread tid).getD []

/-- **The invariant of the loop**, after the messages `pre`. -/
structure Reads (pre : List DataMessage) (lifetime : ThreadNumber → ThreadId × ℕ) (s : Reader) : Prop where
  /-- There is one span for each opening message. -/
  length : s.tree.spans.length = openers pre
  /-- There was room for them. -/
  fits : openers pre < 2 ^ 32
  /-- Every span is right. -/
  spans : ∀ (i : ℕ) (parent : Option SpanId) data, s.tree.cores[i]? = some (parent, data) →
    ∃ tid before m after, SpanAt lifetime (threadItems tid pre) i parent data before m after
  /-- The stacks are what is pending. -/
  pendings : ∀ tid, ∃ st, Pending tok st (threadItems tid pre) ∧ st.map Prod.snd = (s.stackOf tid).map SpanId.index
  /-- A thread has no stack before its first start. -/
  unseen : ∀ tid, s.startByThread tid = none ↔ ∀ x ∈ threadItems tid pre, tok x = .skip
  /-- The scopes without an end are the ones on the stacks. -/
  open_iff : ∀ (id : SpanId) (parent : Option SpanId) kind number start e,
    s.tree.cores[id.index]? = some (parent, SpanData.scope kind number start e) → (e = none ↔ id ∈ s.stackOf start.tid)
  /-- The index has the scopes with an end. -/
  byPn : ∀ pn, (s.tree.idsByPn pn).Nodup ∧ ∀ id, id ∈ s.tree.idsByPn pn ↔
    ∃ parent kind number start e,
      s.tree.cores[id.index]? = some (parent, SpanData.scope kind number start (some e)) ∧ start.pn = pn
  /-- Thread numbers in use are not given out again. -/
  numbers : ∀ (i : ℕ) (parent : Option SpanId) kind number start e,
    s.tree.cores[i]? = some (parent, SpanData.scope kind number start e) → number < s.threadIdMapper.currentThreadNumber
  /-- The numbers of the threads are those of their current lifetimes. -/
  mapped : ∀ tid number, s.threadIdMapper.threadNumberByThreadId tid = some number →
    number < s.threadIdMapper.currentThreadNumber ∧ lifetime number = (tid, threadEnds (threadItems tid pre))

theorem Reads.new (lifetime : ThreadNumber → ThreadId × ℕ) : Reads [] lifetime .new where
  length := rfl
  fits := by decide
  spans i parent data h := by simp [Reader.new, LogDataTree.empty, LogDataTree.cores] at h
  pendings tid := ⟨[], .nil .nil, rfl⟩
  unseen tid := by simp [Reader.new, threadItems, numbered]
  open_iff id parent kind number start e h := by simp [Reader.new, LogDataTree.empty, LogDataTree.cores] at h
  byPn pn := by simp [Reader.new, LogDataTree.empty, LogDataTree.cores, LogDataTree.idsByPn]
  numbers i parent kind number start e h := by simp [Reader.new, LogDataTree.empty, LogDataTree.cores] at h
  mapped tid number h := by simp [Reader.new, ThreadIdMapper.new] at h

namespace Reads

variable {pre : List DataMessage} {lifetime : ThreadNumber → ThreadId × ℕ} {s : Reader}

/-- The span of an opening item. -/
theorem exists_span (h : Reads pre lifetime s) {tid : ThreadId} {x : Item} (hx : x ∈ threadItems tid pre)
    (hopener : (tok x).isOpener = true) :
    ∃ parent data before after, s.tree.cores[x.2]? = some (parent, data) ∧
      SpanAt lifetime (threadItems tid pre) x.2 parent data before x.1 after := by
  have hlt := lt_openers_of_mem (mem_threadItems.1 hx).1 hopener
  rw [Nat.zero_add, ← h.length, ← LogDataTree.length_cores] at hlt
  obtain ⟨⟨parent, data⟩, hcore⟩ : ∃ core, s.tree.cores[x.2]? = some core := ⟨_, List.getElem?_eq_getElem hlt⟩
  obtain ⟨tid', before, m, after, hspan⟩ := h.spans _ _ _ hcore
  have hmem : (m, x.2) ∈ threadItems tid' pre := by
    rw [hspan.split]
    simp
  have he : (m, x.2) = x :=
    eq_of_number (mem_threadItems.1 hmem).1 (mem_threadItems.1 hx).1 hspan.stands.isOpener hopener rfl
  have htid : tid' = tid := by
    rw [← (mem_threadItems.1 hmem).2, ← (mem_threadItems.1 hx).2, he]
  have hm : m = x.1 := congrArg Prod.fst he
  subst htid hm
  exact ⟨parent, data, before, after, hcore, hspan⟩

/-- The span of a start. -/
theorem scope_of_item (h : Reads pre lifetime s) {tid : ThreadId} {x : Item} (hx : x ∈ threadItems tid pre)
    {key : ScopeKind × String} (htok : tok x = .opening key) :
    ∃ parent number start e before after, s.tree.cores[x.2]? = some (parent, .scope key.1 number start e) ∧
      start.pn = key.2 ∧ start.tid = tid ∧
      SpanAt lifetime (threadItems tid pre) x.2 parent (.scope key.1 number start e) before x.1 after := by
  obtain ⟨parent, data, before, after, hcore, hspan⟩ := h.exists_span hx (by rw [htok]; rfl)
  cases data with
  | keyValue kv => cases htok.symm.trans hspan.stands.token_keyValue
  | scope kind number start e =>
    obtain ⟨htoken, htid⟩ := hspan.stands.token_scope
    have hkey := Token.opening.inj (htok.symm.trans htoken)
    subst hkey
    exact ⟨parent, number, start, e, before, after, hcore, rfl, htid.symm.trans (mem_threadItems.1 hx).2, hspan⟩

/-- The span of a key-value entry. -/
theorem keyValue_of_item (h : Reads pre lifetime s) {tid : ThreadId} {x : Item} (hx : x ∈ threadItems tid pre)
    (htok : tok x = .mark) : ∃ parent kv, s.tree.cores[x.2]? = some (parent, .keyValue kv) := by
  obtain ⟨parent, data, before, after, hcore, hspan⟩ := h.exists_span hx (by rw [htok]; rfl)
  cases data with
  | keyValue kv => exact ⟨parent, kv, hcore⟩
  | scope kind number start e => cases htok.symm.trans hspan.stands.token_scope.1

/-- An id on a stack is that of an item of the thread. -/
theorem exists_item (h : Reads pre lifetime s) {tid : ThreadId} {id : SpanId} (hid : id ∈ s.stackOf tid) :
    ∃ x ∈ threadItems tid pre, (tok x).isOpener = true ∧ x.2 = id.index := by
  obtain ⟨st, hst, hindex⟩ := h.pendings tid
  have hmem : id.index ∈ st.map Prod.snd := by
    rw [hindex]
    exact List.mem_map_of_mem hid
  obtain ⟨x, hx, he⟩ := List.mem_map.1 hmem
  exact ⟨x, hst.mem hx, hst.isOpener hx, he⟩

/-- What is open is the parent of the next span. -/
theorem parentIs (h : Reads pre lifetime s) (tid : ThreadId) : ParentIs (threadItems tid pre) (s.stackOf tid).head? := by
  obtain ⟨st, hst, hindex⟩ := h.pendings tid
  generalize threadItems tid pre = l at hst
  cases hstack : s.stackOf tid with
  | nil =>
    rw [hstack, List.map_nil, List.map_eq_nil_iff] at hindex
    subst hindex
    cases hst with
    | nil hl => exact hl
  | cons id stack =>
    rw [hstack] at hindex
    cases hst with
    | nil hl => cases hindex
    | @cons st a b x hst hx hb => exact ⟨a, x, b, rfl, hx, (List.cons.inj hindex).1, hb⟩

end Reads

/-- Only ends of threads are counted. -/
theorem threadEnds_snoc {m : DataMessage} (h : m.isThreadEnd = false) (tid : ThreadId) (pre : List DataMessage) :
    threadEnds (threadItems tid (pre ++ [m])) = threadEnds (threadItems tid pre) := by
  by_cases htid : m.tid = tid
  · subst htid
    rw [threadItems_snoc_self]
    simp [threadEnds, h]
  · rw [threadItems_snoc_of_ne htid]

/-- More messages may follow. -/
theorem SpanAt.snoc {lifetime : ThreadNumber → ThreadId × ℕ} {tid : ThreadId} {before after : List Item}
    {ms : List DataMessage} {i : ℕ} {parent : Option SpanId} {data : SpanData} {m : DataMessage}
    (h : SpanAt lifetime (threadItems tid ms) i parent data before m after) (m' : DataMessage) :
    ∃ after', SpanAt lifetime (threadItems tid (ms ++ [m'])) i parent data before m after' := by
  by_cases htid : m'.tid = tid
  · subst htid
    rw [threadItems_snoc_self]
    exact ⟨_, h.append _⟩
  · rw [threadItems_snoc_of_ne htid]
    exact ⟨_, h⟩

theorem Stands.congr {lifetime lifetime' : ThreadNumber → ThreadId × ℕ} {before after : List Item} {m : DataMessage}
    {data : SpanData} (h : Stands lifetime before after m data)
    (hnumber : ∀ kind number start e, data = .scope kind number start e → lifetime' number = lifetime number) :
    Stands lifetime' before after m data := by
  cases h with
  | keyValue kv => exact .keyValue kv
  | scope hkind hlifetime hend => exact .scope hkind ((hnumber _ _ _ _ rfl).trans hlifetime) hend

namespace Reader

theorem stackOf_setStack (s : Reader) (tid tid' : ThreadId) (stack : List SpanId) :
    (s.setStack tid stack).stackOf tid' = if tid' = tid then stack else s.stackOf tid' := by
  by_cases htid : tid' = tid
  · subst htid
    simp [stackOf, setStack]
  · simp [stackOf, setStack, htid]

/-- The thread has a stack then. -/
theorem setStack_unseen {pre : List DataMessage} {s : Reader} {m : DataMessage}
    (h : ∀ tid, s.startByThread tid = none ↔ ∀ x ∈ threadItems tid pre, tok x = .skip) (hm : m.token ≠ .skip)
    (stack : List SpanId) (tid : ThreadId) :
    (s.setStack m.tid stack).startByThread tid = none ↔ ∀ x ∈ threadItems tid (pre ++ [m]), tok x = .skip := by
  by_cases htid : m.tid = tid
  · subst htid
    rw [threadItems_snoc_self]
    constructor
    · intro hnone
      simp [setStack] at hnone
    · intro hskip
      exact absurd (hskip (m, openers pre) (by simp)) hm
  · rw [threadItems_snoc_of_ne htid]
    simp only [setStack, Function.update_of_ne (Ne.symm htid)]
    exact h tid

section EndScope

variable (s : Reader) (kind : ScopeKind) (timing : Timing) (pn : String) (id : SpanId) (stack : List SpanId)

theorem length_endScope : (s.endScope kind timing pn id stack).tree.spans.length = s.tree.spans.length := by
  change ((s.tree.modify id (Span.setEnd timing)).addToPn pn id).spans.length = _
  rw [← LogDataTree.length_cores, LogDataTree.cores_addToPn, LogDataTree.length_cores]
  simp [LogDataTree.modify]

theorem stackOf_endScope (tid : ThreadId) :
    (s.endScope kind timing pn id stack).stackOf tid = if tid = timing.tid then stack else s.stackOf tid :=
  s.stackOf_setStack timing.tid tid stack

theorem idsByPn_endScope (pn' : String) : (s.endScope kind timing pn id stack).tree.idsByPn pn' =
    if pn' = pn then s.tree.idsByPn pn' ++ [id] else s.tree.idsByPn pn' :=
  LogDataTree.idsByPn_addToPn (s.tree.modify id (Span.setEnd timing)) pn pn' id

theorem currentThreadNumber_endScope :
    (s.endScope kind timing pn id stack).threadIdMapper.currentThreadNumber = s.threadIdMapper.currentThreadNumber := by
  unfold Reader.endScope
  split
  · rfl
  · rfl

variable {s kind timing pn id stack}

/-- The scope gets its end, and the other spans are as before. -/
theorem cores_endScope {parent : Option SpanId} {kind' : ScopeKind} {number : ThreadNumber} {start : Timing}
    (hcore : s.tree.cores[id.index]? = some (parent, .scope kind' number start none)) (i : ℕ) :
    (s.endScope kind timing pn id stack).tree.cores[i]? =
      if id.index = i then some (parent, .scope kind' number start (some timing)) else s.tree.cores[i]? := by
  change ((s.tree.modify id (Span.setEnd timing)).addToPn pn id).cores[i]? = _
  rw [LogDataTree.cores_addToPn, LogDataTree.cores_setEnd]
  split
  · rw [LogDataTree.cores_getElem?] at hcore
    obtain ⟨span, hspan, he⟩ := Option.map_eq_some_iff.1 hcore
    obtain ⟨rfl, hdata⟩ := Prod.mk.inj he
    rw [hspan, Option.map_some, Span.setEnd, hdata]
  · rfl

end EndScope

end Reader

namespace Reads

variable {pre : List DataMessage} {lifetime : ThreadNumber → ThreadId × ℕ} {s : Reader}

/-! ### A span is added -/

/-- The tree `tree'` has got the span `id` for the message `m`, below what is open in the thread. -/
structure Adds (s : Reader) (m : DataMessage) (tree' : LogDataTree) (id : SpanId) (data : SpanData) : Prop where
  /-- It is the last one. -/
  index : id.index = s.tree.spans.length
  /-- The spans. -/
  cores : tree'.cores = s.tree.cores ++ [((s.stackOf m.tid).head?, data)]
  /-- It is in no index. -/
  byPn : tree'.spansByPn = s.tree.spansByPn
  /-- It has no end. -/
  noEnd : ∀ kind number start e, data = .scope kind number start e → e = none

section Opened

variable {m : DataMessage} {tree' : LogDataTree} {id : SpanId} {data : SpanData}

/-- A span is an old one or the new one. -/
theorem cases_of_adds (h : Reads pre lifetime s) (hadds : Adds s m tree' id data) {i : ℕ} {core : Option SpanId × SpanData}
    (hcore : tree'.cores[i]? = some core) :
    s.tree.cores[i]? = some core ∨ i = openers pre ∧ core = ((s.stackOf m.tid).head?, data) := by
  have hlength : s.tree.cores.length = openers pre := by rw [LogDataTree.length_cores, h.length]
  rw [hadds.cores, List.getElem?_append] at hcore
  split at hcore
  · exact .inl hcore
  · next hi =>
    rw [List.getElem?_singleton] at hcore
    split at hcore
    · exact .inr ⟨by omega, (Option.some.inj hcore).symm⟩
    · cases hcore

theorem length_of_adds (h : Reads pre lifetime s) (hm : m.token.isOpener = true) (hadds : Adds s m tree' id data) :
    tree'.spans.length = openers (pre ++ [m]) := by
  rw [← LogDataTree.length_cores, hadds.cores, List.length_append, LogDataTree.length_cores, h.length, openers_append,
    openers_singleton, if_pos hm]
  rfl

/-- Every span is right then. -/
theorem spans_of_adds (h : Reads pre lifetime s) (hadds : Adds s m tree' id data)
    {lifetime' : ThreadNumber → ThreadId × ℕ}
    (hlifetime : ∀ number < s.threadIdMapper.currentThreadNumber, lifetime' number = lifetime number)
    (hstands : Stands lifetime' (threadItems m.tid pre) [] m data) {i : ℕ} {parent : Option SpanId} {data' : SpanData}
    (hcore : tree'.cores[i]? = some (parent, data')) :
    ∃ tid before m' after, SpanAt lifetime' (threadItems tid (pre ++ [m])) i parent data' before m' after := by
  rcases h.cases_of_adds hadds hcore with hcore | ⟨rfl, hnew⟩
  · obtain ⟨tid, before, m', after, hspan⟩ := h.spans i parent data' hcore
    obtain ⟨after', hspan'⟩ := hspan.snoc m
    refine ⟨tid, before, m', after', hspan'.split, hspan'.parentIs, hspan'.stands.congr ?_⟩
    rintro kind number start e rfl
    exact hlifetime number (h.numbers _ _ _ _ _ _ hcore)
  · obtain ⟨rfl, rfl⟩ := Prod.mk.inj hnew
    refine ⟨m.tid, threadItems m.tid pre, m, [], ?_, h.parentIs m.tid, hstands⟩
    rw [threadItems_snoc_self]

/-- The new span is pending in its thread. -/
theorem pendings_push (h : Reads pre lifetime s) (hm : m.token.isOpener = true) (hindex : id.index = s.tree.spans.length)
    (tid : ThreadId) :
    ∃ st, Pending tok st (threadItems tid (pre ++ [m])) ∧
      st.map Prod.snd = (if tid = m.tid then id :: s.stackOf m.tid else s.stackOf tid).map SpanId.index := by
  obtain ⟨st, hst, hstack⟩ := h.pendings tid
  by_cases htid : m.tid = tid
  · subst htid
    rw [threadItems_snoc_self, if_pos rfl]
    refine ⟨_, hst.push hm, ?_⟩
    rw [List.map_cons, List.map_cons, hstack, hindex, h.length]
  · rw [threadItems_snoc_of_ne htid, if_neg (Ne.symm htid)]
    exact ⟨st, hst, hstack⟩

/-- A new scope has no end, and is on its stack. -/
theorem open_iff_of_adds (h : Reads pre lifetime s) (hadds : Adds s m tree' id data)
    {lifetime' : ThreadNumber → ThreadId × ℕ} (hstands : Stands lifetime' (threadItems m.tid pre) [] m data) {id' : SpanId}
    {parent : Option SpanId} {kind : ScopeKind} {number : ThreadNumber} {start : Timing} {e : Option Timing}
    (hcore : tree'.cores[id'.index]? = some (parent, .scope kind number start e)) :
    e = none ↔ id' ∈ if start.tid = m.tid then id :: s.stackOf m.tid else s.stackOf start.tid := by
  rcases h.cases_of_adds hadds hcore with hcore | ⟨hi, hnew⟩
  · have hne : id' ≠ id := by
      rintro rfl
      have hlt := (List.getElem?_eq_some_iff.1 hcore).1
      rw [LogDataTree.length_cores] at hlt
      exact hlt.ne hadds.index
    rw [h.open_iff id' parent kind number start e hcore]
    by_cases htid : start.tid = m.tid
    · rw [if_pos htid, htid, List.mem_cons, or_iff_right hne]
    · rw [if_neg htid]
  · obtain ⟨rfl, rfl⟩ := Prod.mk.inj hnew
    have hid : id' = id := SpanId.index_injective (by rw [hi, hadds.index, h.length])
    rw [if_pos hstands.token_scope.2.symm, hid]
    exact iff_of_true (hadds.noEnd _ _ _ _ rfl) List.mem_cons_self

/-- The index has the scopes with an end still. -/
theorem byPn_of_adds (h : Reads pre lifetime s) (hadds : Adds s m tree' id data) (pn : String) :
    (tree'.idsByPn pn).Nodup ∧ ∀ id', id' ∈ tree'.idsByPn pn ↔ ∃ parent kind number start e,
      tree'.cores[id'.index]? = some (parent, SpanData.scope kind number start (some e)) ∧ start.pn = pn := by
  obtain ⟨hnodup, hmem⟩ := h.byPn pn
  have hids : tree'.idsByPn pn = s.tree.idsByPn pn := by rw [LogDataTree.idsByPn, LogDataTree.idsByPn, hadds.byPn]
  rw [hids]
  refine ⟨hnodup, fun id' => (hmem id').trans ?_⟩
  constructor
  · rintro ⟨parent, kind, number, start, e, hcore, hpn⟩
    refine ⟨parent, kind, number, start, e, ?_, hpn⟩
    rw [hadds.cores, List.getElem?_append_left (List.getElem?_eq_some_iff.1 hcore).1]
    exact hcore
  · rintro ⟨parent, kind, number, start, e, hcore, hpn⟩
    rcases h.cases_of_adds hadds hcore with hcore | ⟨-, hnew⟩
    · exact ⟨parent, kind, number, start, e, hcore, hpn⟩
    · cases hadds.noEnd _ _ _ _ (Prod.mk.inj hnew).2.symm

/-- **A span is opened.** -/
theorem opened (h : Reads pre lifetime s) (hm : m.token.isOpener = true) (hroom : openers (pre ++ [m]) < 2 ^ 32)
    (hadds : Adds s m tree' id data) {lifetime' : ThreadNumber → ThreadId × ℕ} {mapper' : ThreadIdMapper}
    (hlifetime : ∀ number < s.threadIdMapper.currentThreadNumber, lifetime' number = lifetime number)
    (hstands : Stands lifetime' (threadItems m.tid pre) [] m data)
    (hnumber : ∀ kind number start e, data = .scope kind number start e → number < mapper'.currentThreadNumber)
    (hcurrent : s.threadIdMapper.currentThreadNumber ≤ mapper'.currentThreadNumber)
    (hmapped : ∀ tid number, mapper'.threadNumberByThreadId tid = some number →
      number < mapper'.currentThreadNumber ∧ lifetime' number = (tid, threadEnds (threadItems tid (pre ++ [m])))) :
    Reads (pre ++ [m]) lifetime'
      (({ s with tree := tree', threadIdMapper := mapper' } : Reader).setStack m.tid (id :: s.stackOf m.tid)) where
  length := h.length_of_adds hm hadds
  fits := hroom
  spans _ _ _ hcore := h.spans_of_adds hadds hlifetime hstands hcore
  pendings tid := by
    rw [Reader.stackOf_setStack]
    exact h.pendings_push hm hadds.index tid
  unseen := Reader.setStack_unseen h.unseen (fun hskip => by rw [hskip] at hm; cases hm) _
  open_iff _ _ _ _ _ _ hcore := by
    rw [Reader.stackOf_setStack]
    exact h.open_iff_of_adds hadds hstands hcore
  byPn := h.byPn_of_adds hadds
  numbers i parent kind number start e hcore := by
    rcases h.cases_of_adds hadds hcore with hcore | ⟨-, hnew⟩
    · exact Nat.lt_of_lt_of_le (h.numbers _ _ _ _ _ _ hcore) hcurrent
    · exact hnumber _ _ _ _ (Prod.mk.inj hnew).2.symm
  mapped := hmapped

end Opened

/-! ### Entries and starts -/

/-- **A key-value entry** below some start. -/
theorem addKeyValue_ok (h : Reads pre lifetime s) {kv : KeyValue} (hseen : s.startByThread kv.tid ≠ none)
    (hroom : openers (pre ++ [.keyValue kv]) < 2 ^ 32) :
    ∃ s', s.addKeyValue kv = .ok s' ∧ Reads (pre ++ [.keyValue kv]) lifetime s' := by
  obtain ⟨stack, hstack⟩ := Option.ne_none_iff_exists'.1 hseen
  have hof : s.stackOf kv.tid = stack := by rw [Reader.stackOf, hstack, Option.getD_some]
  rw [openers_append, ← h.length] at hroom
  obtain ⟨id, hid, hadd⟩ := LogDataTree.addSpan_eq ⟨stack.head?, [], .keyValue kv⟩ hroom
  obtain ⟨tree', htree', hcores, hbyPn⟩ : ∃ tree', s.addKeyValue kv =
      .ok (({ s with tree := tree' } : Reader).setStack kv.tid (id :: stack)) ∧
      tree'.cores = s.tree.cores ++ [(stack.head?, .keyValue kv)] ∧ tree'.spansByPn = s.tree.spansByPn := by
    rw [Reader.addKeyValue, hstack]
    simp only [hadd, Outcome.ok_bind, Outcome.pure_eq]
    cases stack.head? with
    | none => exact ⟨_, rfl, LogDataTree.cores_addSpan _ _, rfl⟩
    | some parent => exact ⟨_, rfl, by rw [LogDataTree.cores_addChild, LogDataTree.cores_addSpan], rfl⟩
  have hmapped : ∀ tid number, s.threadIdMapper.threadNumberByThreadId tid = some number →
      number < s.threadIdMapper.currentThreadNumber ∧
        lifetime number = (tid, threadEnds (threadItems tid (pre ++ [.keyValue kv]))) := by
    intro tid number hnumber
    rw [threadEnds_snoc rfl]
    exact h.mapped tid number hnumber
  refine ⟨_, htree', ?_⟩
  have hadds : Adds s (.keyValue kv) tree' id (.keyValue kv) :=
    ⟨hid, by rw [hcores]; exact congrArg (fun st => s.tree.cores ++ [(List.head? st, _)]) hof.symm, hbyPn,
      fun _ _ _ _ he => by cases he⟩
  have hopened := h.opened rfl (by rwa [openers_append, ← h.length]) hadds (fun _ _ => rfl) (.keyValue kv)
    (fun _ _ _ _ he => by cases he) (Nat.le_refl _) hmapped
  rw [show s.stackOf (DataMessage.keyValue kv).tid = stack from hof] at hopened
  exact hopened

theorem addKeyValue_panic (h : Reads pre lifetime s) {kv : KeyValue} (hseen : s.startByThread kv.tid ≠ none)
    (hroom : ¬ openers (pre ++ [.keyValue kv]) < 2 ^ 32) : ∃ msg, s.addKeyValue kv = .panic msg := by
  obtain ⟨stack, hstack⟩ := Option.ne_none_iff_exists'.1 hseen
  rw [openers_append, ← h.length] at hroom
  rw [Reader.addKeyValue, hstack]
  simp only [LogDataTree.addSpan_eq_panic hroom]
  exact ⟨_, rfl⟩

/-- **The number of a thread**: that of its current lifetime, if need be a new one. -/
theorem toThreadNumber_spec (h : Reads pre lifetime s) (tid : ThreadId) :
    ∃ lifetime' : ThreadNumber → ThreadId × ℕ, ∃ number mapper',
      s.threadIdMapper.toThreadNumber tid = (number, mapper') ∧ number < mapper'.currentThreadNumber ∧
      s.threadIdMapper.currentThreadNumber ≤ mapper'.currentThreadNumber ∧
      (∀ n < s.threadIdMapper.currentThreadNumber, lifetime' n = lifetime n) ∧
      lifetime' number = (tid, threadEnds (threadItems tid pre)) ∧
      ∀ tid' n, mapper'.threadNumberByThreadId tid' = some n →
        n < mapper'.currentThreadNumber ∧ lifetime' n = (tid', threadEnds (threadItems tid' pre)) := by
  cases hnumber : s.threadIdMapper.threadNumberByThreadId tid with
  | some number =>
    refine ⟨lifetime, number, s.threadIdMapper, by rw [ThreadIdMapper.toThreadNumber, hnumber], ?_⟩
    obtain ⟨hlt, hlifetime⟩ := h.mapped tid number hnumber
    exact ⟨hlt, Nat.le_refl _, fun _ _ => rfl, hlifetime, h.mapped⟩
  | none =>
    let current := s.threadIdMapper.currentThreadNumber
    refine ⟨Function.update lifetime current (tid, threadEnds (threadItems tid pre)), current, _,
      by rw [ThreadIdMapper.toThreadNumber, hnumber], Nat.lt_succ_self _, Nat.le_succ _, ?_, Function.update_self .., ?_⟩
    · intro n hn
      exact Function.update_of_ne (Nat.ne_of_lt hn) ..
    · intro tid' n hn
      by_cases htid : tid' = tid
      · subst htid
        simp only [Function.update_self, Option.some.injEq] at hn
        subst hn
        exact ⟨Nat.lt_succ_self _, Function.update_self ..⟩
      · simp only [Function.update_of_ne htid] at hn
        obtain ⟨hlt, hlifetime⟩ := h.mapped tid' n hn
        refine ⟨Nat.lt_succ_of_lt hlt, ?_⟩
        rw [Function.update_of_ne (Nat.ne_of_lt hlt), hlifetime]

/-- **A start.** -/
theorem openScope_ok (h : Reads pre lifetime s) {point : PointKind} {kind : ScopeKind} {timing : Timing}
    (hkind : PointDispatch.fromPointKind point = .scope kind false)
    (hroom : openers (pre ++ [.timing point timing]) < 2 ^ 32) :
    ∃ s' lifetime', s.openScope kind timing = .ok s' ∧ Reads (pre ++ [.timing point timing]) lifetime' s' := by
  have hopener : (DataMessage.timing point timing).token.isOpener = true := by
    simp only [DataMessage.token, hkind]
    rfl
  have hnotEnd : (DataMessage.timing point timing).isThreadEnd = false := by
    cases point with
    | tThreadEnd => cases hkind
    | _ => rfl
  obtain ⟨lifetime', number, mapper', hmapper, hlt, hcurrent, hlifetime, hnumber, hmapped⟩ :=
    h.toThreadNumber_spec timing.tid
  have hlength : s.tree.spans.length + 1 < 2 ^ 32 := by
    rwa [openers_append, openers_singleton, if_pos hopener, ← h.length] at hroom
  obtain ⟨id, hid, hadd⟩ :=
    LogDataTree.addSpan_eq ⟨(s.stackOf timing.tid).head?, [], .scope kind number timing none⟩ hlength
  have hstands : Stands lifetime' (threadItems timing.tid pre) [] (.timing point timing)
      (.scope kind number timing none) := .scope hkind hnumber (by simp)
  have hcores := LogDataTree.cores_addSpan s.tree ⟨(s.stackOf timing.tid).head?, [], .scope kind number timing none⟩
  have hnoEnd : ∀ kind' number' start e, SpanData.scope kind number timing none = .scope kind' number' start e →
      e = none ∧ number' < mapper'.currentThreadNumber := by
    intro kind' number' start e he
    cases he
    exact ⟨rfl, hlt⟩
  have hadds : Adds s (.timing point timing) _ id (.scope kind number timing none) :=
    ⟨hid, hcores, rfl, fun _ _ _ _ he => (hnoEnd _ _ _ _ he).1⟩
  refine ⟨_, lifetime', ?_,
    h.opened hopener hroom hadds hlifetime hstands (fun _ _ _ _ he => (hnoEnd _ _ _ _ he).2) hcurrent ?_⟩
  · unfold Reader.openScope
    rw [hmapper]
    simp only [Reader.stackOf] at hadd
    simp only [hadd]
    rfl
  · intro tid n hn
    rw [threadEnds_snoc hnotEnd]
    exact hmapped tid n hn

theorem openScope_panic (h : Reads pre lifetime s) {point : PointKind} {kind : ScopeKind} {timing : Timing}
    (hkind : PointDispatch.fromPointKind point = .scope kind false)
    (hroom : ¬ openers (pre ++ [.timing point timing]) < 2 ^ 32) : ∃ msg, s.openScope kind timing = .panic msg := by
  have hopener : (DataMessage.timing point timing).token.isOpener = true := by
    simp only [DataMessage.token, hkind]
    rfl
  rw [openers_append, openers_singleton, if_pos hopener, ← h.length] at hroom
  unfold Reader.openScope
  simp only [LogDataTree.addSpan_eq_panic hroom]
  exact ⟨_, rfl⟩

/-! ### A scope ends -/

/-- The number of a thread is removed at its end. -/
theorem mapped_endScope (h : Reads pre lifetime s) {point : PointKind} {kind : ScopeKind} {timing : Timing}
    (hkind : PointDispatch.fromPointKind point = .scope kind true) {pn : String} {id : SpanId} {stack : List SpanId}
    (tid : ThreadId) (number : ThreadNumber)
    (hnumber : (s.endScope kind timing pn id stack).threadIdMapper.threadNumberByThreadId tid = some number) :
    number < (s.endScope kind timing pn id stack).threadIdMapper.currentThreadNumber ∧
      lifetime number = (tid, threadEnds (threadItems tid (pre ++ [.timing point timing]))) := by
  by_cases hthread : kind = .thread
  · simp only [Reader.endScope, if_pos hthread, ThreadIdMapper.removeThreadId] at hnumber ⊢
    by_cases htid : tid = timing.tid
    · rw [htid, Function.update_self] at hnumber
      cases hnumber
    · rw [Function.update_of_ne htid] at hnumber
      rw [threadItems_snoc_of_ne (m := .timing point timing) (Ne.symm htid)]
      exact h.mapped tid number hnumber
  · simp only [Reader.endScope, if_neg hthread] at hnumber ⊢
    have hnotEnd : (DataMessage.timing point timing).isThreadEnd = false := by
      cases point with
      | tThreadEnd =>
        cases hkind
        exact absurd rfl hthread
      | _ => rfl
    rw [threadEnds_snoc hnotEnd]
    exact h.mapped tid number hnumber

/-- What an end message finds on the stack of its thread: the scope `id`, with the key-value entries `ids` above it. -/
structure Ending (pre : List DataMessage) (s : Reader) (point : PointKind) (kind : ScopeKind) (timing : Timing)
    (marks st : List Item) (x : Item) (ids stack : List SpanId) (id : SpanId) : Prop where
  /-- It is the end of such a scope. -/
  dispatch : PointDispatch.fromPointKind point = .scope kind true
  /-- What is pending. -/
  pending : Pending tok (marks ++ x :: st) (threadItems timing.tid pre)
  /-- The entries. -/
  isMark : ∀ m ∈ marks, tok m = .mark
  /-- The start. -/
  opening : tok x = .opening (kind, timing.pn)
  /-- It is that of the scope. -/
  index : x.2 = id.index
  /-- The stack. -/
  stackOf : s.stackOf timing.tid = ids ++ id :: stack
  /-- The spans of the entries. -/
  entries : marks.map Prod.snd = ids.map SpanId.index
  /-- What is below. -/
  below : st.map Prod.snd = stack.map SpanId.index

section Ended

variable {point : PointKind} {kind : ScopeKind} {timing : Timing} {marks st : List Item} {x : Item} {ids stack : List SpanId}
  {id : SpanId}

theorem Ending.token (he : Ending pre s point kind timing marks st x ids stack id) :
    (DataMessage.timing point timing).token = .closing (kind, timing.pn) := by
  simp only [DataMessage.token, he.dispatch]

theorem Ending.openers_eq (he : Ending pre s point kind timing marks st x ids stack id) :
    openers (pre ++ [.timing point timing]) = openers pre := by
  rw [openers_append, openers_singleton, he.token]
  rfl

/-- **The scope that ends** has had no end so far. -/
theorem scope_of_ending (h : Reads pre lifetime s) (he : Ending pre s point kind timing marks st x ids stack id) :
    ∃ parent number start before body, s.tree.cores[id.index]? = some (parent, .scope kind number start none) ∧
      start.pn = timing.pn ∧ start.tid = timing.tid ∧ Balanced tok true body ∧
      SpanAt lifetime (threadItems timing.tid pre) id.index parent (.scope kind number start none) before x.1 body := by
  have hmem : x ∈ threadItems timing.tid pre := he.pending.mem (by simp)
  obtain ⟨parent, number, start, e, before, body, hcore, hpn, htid, hspan⟩ := h.scope_of_item hmem he.opening
  obtain ⟨a, body', hsplit, hbody, -⟩ := he.pending.split he.isMark
  have hopener : (tok x).isOpener = true := by
    rw [he.opening]
    rfl
  obtain ⟨rfl, rfl⟩ := split_unique hopener hsplit hspan.split
  rw [he.index] at hcore hspan
  have hopen : id ∈ s.stackOf start.tid := by
    rw [htid, he.stackOf]
    simp
  obtain rfl : e = none := (h.open_iff _ _ _ _ _ _ hcore).2 hopen
  exact ⟨parent, number, start, a, body', hcore, hpn, htid, hbody, hspan⟩

/-- It is on the stack once. -/
theorem not_mem_of_ending (he : Ending pre s point kind timing marks st x ids stack id) : id ∉ stack := by
  intro hid
  have hmem : id.index ∈ st.map Prod.snd := by
    rw [he.below]
    exact List.mem_map_of_mem hid
  obtain ⟨y, hy, hindex⟩ := List.mem_map.1 hmem
  obtain ⟨a, body, hsplit, -, hst⟩ := he.pending.split he.isMark
  have hpairwise := threadItems_pairwise timing.tid pre
  rw [hsplit, List.pairwise_append] at hpairwise
  have hlt := (hpairwise.2.2 y (hst.mem hy) x List.mem_cons_self).2 (hst.isOpener hy)
  exact hlt.ne (hindex.trans he.index.symm)

/-- Every span is right then, and the scope has its end. -/
theorem spans_of_ending (h : Reads pre lifetime s) (he : Ending pre s point kind timing marks st x ids stack id) {i : ℕ}
    {parent : Option SpanId} {data : SpanData}
    (hcore : (s.endScope kind timing timing.pn id stack).tree.cores[i]? = some (parent, data)) :
    ∃ tid before m after,
      SpanAt lifetime (threadItems tid (pre ++ [.timing point timing])) i parent data before m after := by
  obtain ⟨parent₀, number₀, start₀, before₀, body, hcore₀, hpn₀, -, hbody, hspan₀⟩ := h.scope_of_ending he
  rw [Reader.cores_endScope hcore₀] at hcore
  split at hcore
  · next hi =>
    subst hi
    obtain ⟨rfl, rfl⟩ := Prod.mk.inj (Option.some.inj hcore)
    have hend : EndIs (kind, timing.pn) (body ++ [(.timing point timing, openers pre)]) timing :=
      ⟨body, point, openers pre, [], rfl, hbody, he.token⟩
    refine ⟨timing.tid, before₀, x.1, body ++ [(.timing point timing, openers pre)], ?_, hspan₀.parentIs, ?_⟩
    · rw [show threadItems timing.tid (pre ++ [.timing point timing]) = threadItems timing.tid pre ++ _ from
        threadItems_snoc_self pre (.timing point timing), hspan₀.split, List.append_assoc, List.cons_append]
    · generalize x.1 = m at hspan₀
      cases hspan₀.stands with
      | scope hkind hnumber hend' =>
        refine .scope hkind hnumber fun e he' => ?_
        cases he'
        rw [hpn₀]
        exact hend
  · obtain ⟨tid, before, m, after, hspan⟩ := h.spans i parent data hcore
    obtain ⟨after', hspan'⟩ := hspan.snoc (.timing point timing)
    exact ⟨tid, before, m, after', hspan'⟩

/-- What was below the scope is pending. -/
theorem pendings_of_ending (h : Reads pre lifetime s) (he : Ending pre s point kind timing marks st x ids stack id)
    (tid : ThreadId) :
    ∃ st', Pending tok st' (threadItems tid (pre ++ [.timing point timing])) ∧
      st'.map Prod.snd = (if tid = timing.tid then stack else s.stackOf tid).map SpanId.index := by
  have hclosing : tok (DataMessage.timing point timing, openers pre) = .closing (kind, timing.pn) := he.token
  split
  · next htid =>
    subst htid
    rw [show threadItems timing.tid (pre ++ [.timing point timing]) = threadItems timing.tid pre ++ _ from
      threadItems_snoc_self pre (.timing point timing)]
    exact ⟨st, he.pending.close he.isMark he.opening hclosing, he.below⟩
  · next htid =>
    rw [threadItems_snoc_of_ne (Ne.symm htid)]
    exact h.pendings tid

/-- No other scope has left a stack. -/
theorem open_iff_of_ending (h : Reads pre lifetime s) (he : Ending pre s point kind timing marks st x ids stack id)
    {id' : SpanId} {parent : Option SpanId} {kind' : ScopeKind} {number : ThreadNumber} {start : Timing} {e : Option Timing}
    (hcore : (s.endScope kind timing timing.pn id stack).tree.cores[id'.index]? = some (parent, .scope kind' number start e)) :
    e = none ↔ id' ∈ if start.tid = timing.tid then stack else s.stackOf start.tid := by
  obtain ⟨parent₀, number₀, start₀, before₀, body, hcore₀, -, htid₀, -, -⟩ := h.scope_of_ending he
  rw [Reader.cores_endScope hcore₀] at hcore
  split at hcore
  · next hi =>
    obtain rfl : id = id' := SpanId.index_injective hi
    cases hcore
    rw [if_pos htid₀]
    exact iff_of_false (by simp) (not_mem_of_ending he)
  · next hi =>
    have hne : id' ≠ id := by
      rintro rfl
      exact hi rfl
    -- the entries are no scopes
    have hnot : id' ∉ ids := by
      intro hid
      have hmem : id'.index ∈ marks.map Prod.snd := by
        rw [he.entries]
        exact List.mem_map_of_mem hid
      obtain ⟨y, hy, hindex⟩ := List.mem_map.1 hmem
      obtain ⟨parent', kv, hcore'⟩ := h.keyValue_of_item (he.pending.mem (List.mem_append_left _ hy)) (he.isMark y hy)
      rw [hindex, hcore] at hcore'
      cases hcore'
    rw [h.open_iff id' parent kind' number start e hcore]
    split
    · next htid => rw [htid, he.stackOf, List.mem_append, List.mem_cons, or_iff_right hnot, or_iff_right hne]
    · rfl

/-- The scope comes into the index. -/
theorem byPn_of_ending (h : Reads pre lifetime s) (he : Ending pre s point kind timing marks st x ids stack id) (pn : String) :
    ((s.endScope kind timing timing.pn id stack).tree.idsByPn pn).Nodup ∧
      ∀ id', id' ∈ (s.endScope kind timing timing.pn id stack).tree.idsByPn pn ↔ ∃ parent kind' number start e,
        (s.endScope kind timing timing.pn id stack).tree.cores[id'.index]? =
          some (parent, SpanData.scope kind' number start (some e)) ∧ start.pn = pn := by
  obtain ⟨parent₀, number₀, start₀, before₀, body, hcore₀, hpn₀, -, -, -⟩ := h.scope_of_ending he
  obtain ⟨hnodup, hmem⟩ := h.byPn pn
  have hnot : id ∉ s.tree.idsByPn pn := by
    intro hid
    obtain ⟨parent, kind', number, start, e, hcore, -⟩ := (hmem id).1 hid
    rw [hcore₀] at hcore
    cases hcore
  have hold : ∀ id', id' ≠ id → (id' ∈ s.tree.idsByPn pn ↔ ∃ parent kind' number start e,
      (s.endScope kind timing timing.pn id stack).tree.cores[id'.index]? =
        some (parent, SpanData.scope kind' number start (some e)) ∧ start.pn = pn) := by
    intro id' hne
    have hi : ¬ id.index = id'.index := fun hi => hne (SpanId.index_injective hi.symm)
    rw [hmem id', Reader.cores_endScope hcore₀, if_neg hi]
  have hnew : (∃ parent kind' number start e, (s.endScope kind timing timing.pn id stack).tree.cores[id.index]? =
      some (parent, SpanData.scope kind' number start (some e)) ∧ start.pn = pn) ↔ pn = timing.pn := by
    rw [Reader.cores_endScope hcore₀, if_pos rfl]
    constructor
    · rintro ⟨parent, kind', number, start, e, hcore, rfl⟩
      cases hcore
      exact hpn₀
    · rintro rfl
      exact ⟨parent₀, kind, number₀, start₀, timing, rfl, hpn₀⟩
  rw [Reader.idsByPn_endScope]
  split
  · next hpn =>
    refine ⟨by rw [← List.concat_eq_append]; exact hnodup.concat hnot, fun id' => ?_⟩
    rw [List.mem_append, List.mem_singleton]
    by_cases hne : id' = id
    · subst hne
      exact iff_of_true (.inr rfl) (hnew.2 hpn)
    · rw [or_iff_left hne]
      exact hold id' hne
  · next hpn =>
    refine ⟨hnodup, fun id' => ?_⟩
    by_cases hne : id' = id
    · subst hne
      exact iff_of_false hnot fun he => hpn (hnew.1 he)
    · exact hold id' hne

/-- No thread number is a new one. -/
theorem numbers_of_ending (h : Reads pre lifetime s) (he : Ending pre s point kind timing marks st x ids stack id) {i : ℕ}
    {parent : Option SpanId} {kind' : ScopeKind} {number : ThreadNumber} {start : Timing} {e : Option Timing}
    (hcore : (s.endScope kind timing timing.pn id stack).tree.cores[i]? = some (parent, .scope kind' number start e)) :
    number < (s.endScope kind timing timing.pn id stack).threadIdMapper.currentThreadNumber := by
  obtain ⟨parent₀, number₀, start₀, before₀, body, hcore₀, -⟩ := h.scope_of_ending he
  rw [Reader.cores_endScope hcore₀] at hcore
  rw [Reader.currentThreadNumber_endScope]
  split at hcore
  · cases hcore
    exact h.numbers _ _ _ _ _ _ hcore₀
  · exact h.numbers _ _ _ _ _ _ hcore

/-- **The end of a scope.** -/
theorem ended (h : Reads pre lifetime s) (he : Ending pre s point kind timing marks st x ids stack id) :
    Reads (pre ++ [.timing point timing]) lifetime (s.endScope kind timing timing.pn id stack) where
  length := by rw [Reader.length_endScope, h.length, he.openers_eq]
  fits := by
    rw [he.openers_eq]
    exact h.fits
  spans _ _ _ hcore := h.spans_of_ending he hcore
  pendings tid := by
    rw [Reader.stackOf_endScope]
    exact h.pendings_of_ending he tid
  unseen := Reader.setStack_unseen (m := .timing point timing) h.unseen (by rw [he.token]; simp) stack
  open_iff _ _ _ _ _ _ hcore := by
    rw [Reader.stackOf_endScope]
    exact h.open_iff_of_ending he hcore
  byPn := h.byPn_of_ending he
  numbers _ _ _ _ _ _ hcore := h.numbers_of_ending he hcore
  mapped := h.mapped_endScope he.dispatch

end Ended

/-! ### The other messages, and the search for the scope -/

/-- A message that does not matter. -/
theorem skipped (h : Reads pre lifetime s) {m : DataMessage} (hm : m.token = .skip) (hend : m.isThreadEnd = false) :
    Reads (pre ++ [m]) lifetime s := by
  have hcount : openers (pre ++ [m]) = openers pre := by
    rw [openers_append, openers_singleton, hm]
    rfl
  refine ⟨by rw [hcount]; exact h.length, by rw [hcount]; exact h.fits, ?_, ?_, ?_, h.open_iff, h.byPn, h.numbers, ?_⟩
  · intro i parent data hcore
    obtain ⟨tid, before, m', after, hspan⟩ := h.spans i parent data hcore
    obtain ⟨after', hspan'⟩ := hspan.snoc m
    exact ⟨tid, before, m', after', hspan'⟩
  · intro tid
    obtain ⟨st, hst, hindex⟩ := h.pendings tid
    refine ⟨st, ?_, hindex⟩
    by_cases htid : m.tid = tid
    · subst htid
      rw [threadItems_snoc_self]
      exact hst.append (.singleton_skip hm)
    · rw [threadItems_snoc_of_ne htid]
      exact hst
  · intro tid
    rw [h.unseen tid]
    by_cases htid : m.tid = tid
    · subst htid
      rw [threadItems_snoc_self]
      simp [or_imp, forall_and, show tok (m, openers pre) = .skip from hm]
    · rw [threadItems_snoc_of_ne htid]
  · intro tid number hnumber
    rw [threadEnds_snoc hend]
    exact h.mapped tid number hnumber

/-- **The loop at an end message** goes down to the innermost scope. -/
theorem closeScope_eq (h : Reads pre lifetime s) (kind : ScopeKind) (timing : Timing) {tid : ThreadId} {st : List Item}
    {stack : List SpanId} (hindex : st.map Prod.snd = stack.map SpanId.index)
    (hst : ∀ x ∈ st, x ∈ threadItems tid pre ∧ (tok x).isOpener = true) :
    (openKeys tok st = [] ∧ ∃ e, s.closeScope kind timing stack = .err e) ∨
      ∃ marks x st' ids id stack' key, st = marks ++ x :: st' ∧ (∀ m ∈ marks, tok m = .mark) ∧
        tok x = .opening key ∧ x.2 = SpanId.index id ∧ stack = ids ++ id :: stack' ∧
        marks.map Prod.snd = ids.map SpanId.index ∧ st'.map Prod.snd = stack'.map SpanId.index ∧
        openKeys tok st = key :: openKeys tok st' ∧
        s.closeScope kind timing stack =
          if key.1 ≠ kind then .err s!"expected closing of scope kind {key.1.debug}, but got {kind.debug}"
          else if key.2 ≠ timing.pn then .panic "assertion `left == right` failed"
          else .ok (s.endScope kind timing key.2 id stack') := by
  induction stack generalizing st with
  | nil =>
    rw [List.map_nil, List.map_eq_nil_iff] at hindex
    subst hindex
    exact .inl ⟨rfl, _, rfl⟩
  | cons id stack ih =>
    cases st with
    | nil => cases hindex
    | cons x st =>
      rw [List.map_cons, List.map_cons] at hindex
      obtain ⟨hid, hindex⟩ := List.cons.inj hindex
      obtain ⟨hmem, hopener⟩ := hst x List.mem_cons_self
      have hst' : ∀ y ∈ st, y ∈ threadItems tid pre ∧ (tok y).isOpener = true :=
        fun y hy => hst y (List.mem_cons_of_mem _ hy)
      cases htok : tok x with
      | opening key =>
        right
        obtain ⟨parent, number, start, e, before, after, hcore, hpn, -, -⟩ := h.scope_of_item hmem htok
        refine ⟨[], x, st, [], id, stack, key, rfl, by simp, htok, hid, rfl, rfl, hindex, ?_, ?_⟩
        · simp [openKeys, htok, Token.openingKey]
        · rw [hid, LogDataTree.cores_getElem?] at hcore
          obtain ⟨span, hspan, he⟩ := Option.map_eq_some_iff.1 hcore
          obtain ⟨-, hdata⟩ := Prod.mk.inj he
          simp only [Reader.closeScope, hspan, hdata, hpn]
      | mark =>
        obtain ⟨parent, kv, hcore⟩ := h.keyValue_of_item hmem htok
        rw [hid, LogDataTree.cores_getElem?] at hcore
        obtain ⟨span, hspan, he⟩ := Option.map_eq_some_iff.1 hcore
        obtain ⟨-, hdata⟩ := Prod.mk.inj he
        have hclose : s.closeScope kind timing (id :: stack) = s.closeScope kind timing stack := by
          simp only [Reader.closeScope, hspan, hdata]
        have hkeys : openKeys tok (x :: st) = openKeys tok st := by simp [openKeys, htok, Token.openingKey]
        rw [hclose, hkeys]
        rcases ih hindex hst' with hnone | ⟨marks, y, st', ids, id', stack', key, rfl, hmarks, hy, hid', rfl, hids, hrest⟩
        · exact .inl hnone
        · refine .inr ⟨x :: marks, y, st', id :: ids, id', stack', key, rfl, ?_, hy, hid', rfl, ?_, hrest⟩
          · intro m hm
            rcases List.mem_cons.1 hm with rfl | hm
            · exact htok
            · exact hmarks m hm
          · rw [List.map_cons, List.map_cons, hid, hids]
      | closing key =>
        rw [htok] at hopener
        cases hopener
      | skip =>
        rw [htok] at hopener
        cases hopener

end Reads

end Evobench.Evaluator

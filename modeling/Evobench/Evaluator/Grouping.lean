import Evobench.Evaluator.CallChain
import Evobench.Evaluator.Forest

/-!
# Grouping by call path

The spans are indexed in chunks, in parallel, and the indexes of the chunks are put together two by two, as they come.
`Reduces` says what may come out of that. It has the spans of all chunks under their paths, in any order
(`Reduces.indexes`); so the groups do not depend on how it was done, and two spans are in one group if their chains are the
same (`isGrouping_optss`).
-/

namespace Evobench.Evaluator

open Library

/-! ### Putting indexes together -/

namespace IndexByCallPath

/-- Append spans for the path. -/
def append (index : IndexByCallPath) (path : String) (ids : List SpanId) : IndexByCallPath :=
  match index.spansByCallPath.lookup path with
  | some found => ⟨index.spansByCallPath.insert path (found ++ ids)⟩
  | none => ⟨index.spansByCallPath.insert path ids⟩

/-- Append the entries of another index, as its iterator gives them. -/
def merge (index : IndexByCallPath) (entries : List (Sigma fun _ : String => List SpanId)) : IndexByCallPath :=
  entries.foldl (fun index entry => index.append entry.1 entry.2) index

end IndexByCallPath

/-- The indexes that may come out of the parallel reduction over chunks of these spans. -/
inductive Reduces (tree : LogDataTree) (optss : List PathStringOptions) : List SpanId → IndexByCallPath → Prop where
  /-- No spans. -/
  | identity : Reduces tree optss [] .empty
  /-- A chunk. -/
  | chunk {ids : List SpanId} {index : IndexByCallPath} (h : IndexByCallPath.empty.addSpans tree optss ids = .ok index) :
      Reduces tree optss ids index
  /-- Two indexes are put together; the entries of the second one come in any order. -/
  | merge {ids ids' : List SpanId} {index index' : IndexByCallPath} {entries : List (Sigma fun _ : String => List SpanId)}
      (hleft : Reduces tree optss ids index) (hright : Reduces tree optss ids' index')
      (hentries : entries.Perm index'.spansByCallPath.entries) : Reduces tree optss (ids ++ ids') (index.merge entries)

variable {tree : LogDataTree}

/-- The index of all spans at once is one of those that can come out. -/
theorem Reduces.of_fromLogdataindex {optss : List PathStringOptions} {ids : List SpanId} {t₀ t₁ : ℕ} {index : IndexByCallPath}
    (h : IndexByCallPath.fromLogdataindex tree optss ids t₀ t₁ = .ok index) : Reduces tree optss ids index := by
  obtain ⟨index', hindex', h⟩ := Outcome.bind_eq_ok.1 h
  split at h
  · obtain rfl := Outcome.ok.inj h
    exact .chunk hindex'
  · cases h

theorem idsAt_append (entries entries' : List (String × SpanId)) (path : String) :
    idsAt (entries ++ entries') path = idsAt entries path ++ idsAt entries' path := by
  rw [idsAt, List.filter_append, List.map_append]
  rfl

theorem idsAt_pair (path : String) (ids : List SpanId) (path' : String) :
    idsAt (ids.map fun id => (path, id)) path' = if path = path' then ids else [] := by
  rw [idsAt, List.filter_map, List.map_map]
  by_cases hpath : path = path'
  · simp [hpath, Function.comp_def]
  · simp [hpath, Function.comp_def]

theorem Indexes.congr {index : IndexByCallPath} {entries entries' : List (String × SpanId)} (h : Indexes index entries)
    (he : ∀ path, idsAt entries path = idsAt entries' path) : Indexes index entries' := by
  intro path
  rw [← he path]
  exact h path

theorem Indexes.append {index : IndexByCallPath} {entries : List (String × SpanId)} (h : Indexes index entries) (path : String)
    {ids : List SpanId} (hids : ids ≠ []) : Indexes (index.append path ids) (entries ++ ids.map fun id => (path, id)) := by
  intro path'
  have hlookup : (index.append path ids).idsByCallPath path' =
      if path' = path then some (idsAt entries path ++ ids) else index.idsByCallPath path' := by
    have hpath := h path
    rw [IndexByCallPath.idsByCallPath] at hpath ⊢
    unfold IndexByCallPath.append
    by_cases hnil : idsAt entries path = []
    · rw [if_pos hnil] at hpath
      rw [hpath, hnil]
      simp only
      split
      · next he =>
        subst he
        exact AList.lookup_insert _
      · next hne => exact AList.lookup_insert_ne hne
    · rw [if_neg hnil] at hpath
      rw [hpath]
      simp only
      split
      · next he =>
        subst he
        exact AList.lookup_insert _
      · next hne => exact AList.lookup_insert_ne hne
  rw [hlookup, idsAt_append, idsAt_pair]
  by_cases hpath : path' = path
  · subst hpath
    rw [if_pos rfl, if_pos rfl, if_neg (by simp [hids])]
  · rw [if_neg hpath, if_neg (Ne.symm hpath), List.append_nil]
    exact h path'

/-- The entries of an index, one by one. -/
def flatEntries (entries : List (Sigma fun _ : String => List SpanId)) : List (String × SpanId) :=
  entries.flatMap fun entry => entry.2.map fun id => (entry.1, id)

theorem Indexes.merge {index : IndexByCallPath} {entries : List (String × SpanId)} (h : Indexes index entries)
    {others : List (Sigma fun _ : String => List SpanId)} (hne : ∀ entry ∈ others, entry.2 ≠ []) :
    Indexes (index.merge others) (entries ++ flatEntries others) := by
  induction others generalizing index entries with
  | nil =>
    rw [flatEntries, List.flatMap_nil, List.append_nil]
    exact h
  | cons entry others ih =>
    have happended := h.append entry.1 (hne entry List.mem_cons_self)
    have hmerged := ih happended fun other hother => hne other (List.mem_cons_of_mem _ hother)
    rw [List.append_assoc] at hmerged
    rw [flatEntries, List.flatMap_cons]
    exact hmerged

/-- Paths are at one place only. -/
theorem idsAt_flatEntries {entries : List (Sigma fun _ : String => List SpanId)} (h : entries.NodupKeys) (path : String) :
    idsAt (flatEntries entries) path = (entries.dlookup path).getD [] := by
  induction entries with
  | nil => rfl
  | cons entry entries ih =>
    obtain ⟨key, ids⟩ := entry
    obtain ⟨hnot, hnodup⟩ := List.nodupKeys_cons.1 h
    rw [flatEntries, List.flatMap_cons, idsAt_append, idsAt_pair]
    by_cases hpath : key = path
    · subst hpath
      have hnone : entries.dlookup key = none := List.dlookup_eq_none.2 hnot
      have hrest := ih hnodup
      rw [hnone, flatEntries] at hrest
      rw [if_pos rfl, hrest, List.dlookup_cons_eq]
      exact List.append_nil ids
    · rw [if_neg hpath, List.nil_append, List.dlookup_cons_ne _ _ (Ne.symm hpath)]
      exact ih hnodup

/-- What an index has comes out of its iterator, in any order. -/
theorem Indexes.idsAt_entries {index : IndexByCallPath} {entries : List (String × SpanId)} (h : Indexes index entries)
    {others : List (Sigma fun _ : String => List SpanId)} (hothers : others.Perm index.spansByCallPath.entries) (path : String) :
    idsAt (flatEntries others) path = idsAt entries path := by
  have hnodup : others.NodupKeys := (List.perm_nodupKeys hothers).2 index.spansByCallPath.nodupKeys
  have hlookup : others.dlookup path = index.idsByCallPath path :=
    List.perm_dlookup path hnodup hothers
  rw [idsAt_flatEntries hnodup, hlookup, h path]
  split
  · next hnil => exact hnil.symm
  · rfl

theorem Indexes.ne_nil {index : IndexByCallPath} {entries : List (String × SpanId)} (h : Indexes index entries)
    {others : List (Sigma fun _ : String => List SpanId)} (hothers : others.Perm index.spansByCallPath.entries) :
    ∀ entry ∈ others, entry.2 ≠ [] := by
  rintro ⟨path, ids⟩ hentry
  have hlookup : index.idsByCallPath path = some ids :=
    (AList.mem_lookup_iff (s := index.spansByCallPath)).2 (hothers.mem_iff.1 hentry)
  rw [h path] at hlookup
  split at hlookup
  · cases hlookup
  · next hne =>
    obtain rfl := Option.some.inj hlookup
    exact hne

/-- **What comes out of the reduction**: the spans of all chunks under their paths. -/
theorem Reduces.indexes (h : WellFormed tree) {optss : List PathStringOptions} {ids : List SpanId} {index : IndexByCallPath}
    (hreduces : Reduces tree optss ids index) (hids : ∀ id ∈ ids, SpanId.index id < tree.spans.length) :
    Indexes index (pathEntries tree optss ids) := by
  induction hreduces with
  | identity => exact .empty
  | chunk hindex =>
    obtain ⟨index', hindex', hentries⟩ := addSpans_spec h optss hids Indexes.empty
    rw [hindex] at hindex'
    obtain rfl := Outcome.ok.inj hindex'
    exact hentries
  | @merge ids ids' index index' others hleft hright hothers ihleft ihright =>
    have hindex := ihleft fun id hid => hids id (List.mem_append_left _ hid)
    have hindex' := ihright fun id hid => hids id (List.mem_append_right _ hid)
    refine (hindex.merge (hindex'.ne_nil hothers)).congr fun path => ?_
    rw [idsAt_append, hindex'.idsAt_entries hothers, pathEntries, pathEntries, pathEntries, List.flatMap_append, idsAt_append]

/-! ### Groups -/

/-- The key is the path of a span, shown in this way. -/
def KeyOf (tree : LogDataTree) (opts : PathStringOptions) (key : String) : Prop :=
  ∃ id ∈ allIds tree, IndexByCallPath.path tree opts id = .ok key

/-- The span is in the group of the key. -/
def InGroup (index : IndexByCallPath) (key : String) (id : SpanId) : Prop :=
  ∃ ids, index.idsByCallPath key = some ids ∧ id ∈ ids

/-- The same keys, with the same spans in any order. -/
def SameGroups (index index' : IndexByCallPath) : Prop :=
  ∀ key, Option.Rel List.Perm (index.idsByCallPath key) (index'.idsByCallPath key)

/-- **The spans of a tree are grouped by their chains**, for each kind of paths by itself. -/
structure Groups (tree : LogDataTree) (optss : List PathStringOptions) (index : IndexByCallPath) : Prop where
  /-- The keys are the paths of all kinds. -/
  keys : ∀ key, (∃ ids, index.idsByCallPath key = some ids) ↔ ∃ opts ∈ optss, KeyOf tree opts key
  /-- The groups have spans of the tree, and each of them once. -/
  spans : ∀ key ids, index.idsByCallPath key = some ids → ids.Nodup ∧ ∀ id ∈ ids, id ∈ allIds tree
  /-- Every span is in exactly one group of each kind. -/
  existsUnique : ∀ opts ∈ optss, ∀ id ∈ allIds tree, ∃! key, KeyOf tree opts key ∧ InGroup index key id
  /-- Every span has a chain. -/
  chains : ∀ id ∈ allIds tree, ∃ span top labels, tree.get? id = some span ∧ HasChain tree span top labels
  /-- Two spans share a group if and only if their chains are the same. -/
  shared : ∀ opts ∈ optss, ∀ id id' span span' top top' labels labels', tree.get? id = some span → tree.get? id' = some span' →
    HasChain tree span top labels → HasChain tree span' top' labels' →
      ((∃ key, KeyOf tree opts key ∧ InGroup index key id ∧ InGroup index key id') ↔
        top.Same opts.includeThreadNumberInPath top' ∧ labels = labels')
  /-- The keys of different kinds are different. -/
  disjoint : ∀ opts ∈ optss, ∀ opts' ∈ optss, opts ≠ opts' → ∀ key, KeyOf tree opts key → ¬ KeyOf tree opts' key

/-- **The grouping of a tree for some kinds of paths.** -/
structure IsGrouping (tree : LogDataTree) (optss : List PathStringOptions) : Prop where
  /-- There are ids for all spans. -/
  spanIds : Evaluator.spanIds tree.spans.length = .ok (allIds tree)
  /-- The kinds are different. -/
  nodup : optss.Nodup
  /-- Any chunk of them can be indexed. -/
  chunk : ∀ ids, (∀ id ∈ ids, id ∈ allIds tree) → ∃ index, IndexByCallPath.empty.addSpans tree optss ids = .ok index
  /-- The index has the groups. -/
  groups : ∀ ids index, ids.Perm (allIds tree) → Reduces tree optss ids index → Groups tree optss index
  /-- It does not depend on how the spans are split, and in which order the chunks come. -/
  same : ∀ ids ids' index index', ids.Perm (allIds tree) → ids'.Perm (allIds tree) → Reduces tree optss ids index →
    Reduces tree optss ids' index' → SameGroups index index'

theorem nodup_allIds (h : WellFormed tree) : (allIds tree).Nodup := by
  have hnodup {n : ℕ} (hn : n < 2 ^ 32) : ∀ ids, spanIds n = .ok ids → ids.Nodup := by
    induction n with
    | zero =>
      intro ids hids
      obtain rfl := Outcome.ok.inj hids
      exact List.nodup_nil
    | succ n ih =>
      intro ids hids
      obtain ⟨before, hbefore, hmem⟩ := spanIds_spec (n := n) (by omega)
      rw [spanIds, hbefore, Outcome.ok_bind, SpanId.new_succ hn, Outcome.ok_bind] at hids
      obtain rfl := Outcome.ok.inj hids
      refine List.nodup_append.2 ⟨ih (by omega) before hbefore, List.nodup_singleton _, ?_⟩
      rintro id hid _ hlast rfl
      obtain rfl := List.mem_singleton.1 hlast
      have hlt := (hmem _).1 hid
      have hindex : SpanId.index ⟨n + 1, Nat.succ_pos n, hn⟩ = n := rfl
      omega
  exact hnodup h.length (allIds tree) (spanIds_eq h)

theorem keyOf_iff (h : WellFormed tree) (opts : PathStringOptions) (key : String) :
    KeyOf tree opts key ↔ ∃ id ∈ allIds tree, pathOf tree opts id = key := by
  constructor
  · rintro ⟨id, hid, hkey⟩
    rw [path_eq h opts ((mem_allIds h id).1 hid)] at hkey
    exact ⟨id, hid, Outcome.ok.inj hkey⟩
  · rintro ⟨id, hid, rfl⟩
    exact ⟨id, hid, path_eq h opts ((mem_allIds h id).1 hid)⟩

theorem pathOf_chain (h : WellFormed tree) {opts : PathStringOptions} (hopts : Regular opts) {id : SpanId} {span : Span}
    (hget : tree.get? id = some span) {top : Top} {labels : List String} (hchain : HasChain tree span top labels) :
    (pathOf tree opts id).toList = chainText opts top labels :=
  path_chain hopts hget hchain (path_eq h opts (List.getElem?_eq_some_iff.1 hget).1)

theorem pathOf_ne (h : WellFormed tree) (hroots : RootsFit tree) {opts opts' : PathStringOptions} (hopts : Regular opts)
    (hopts' : Regular opts') (hapart : Apart opts opts') {id id' : SpanId} (hid : id ∈ allIds tree) (hid' : id' ∈ allIds tree) :
    pathOf tree opts id ≠ pathOf tree opts' id' := by
  have hget {id : SpanId} (hid : id ∈ allIds tree) : ∃ span, tree.get? id = some span :=
    ⟨_, List.getElem?_eq_getElem ((mem_allIds h id).1 hid)⟩
  obtain ⟨span, hspan⟩ := hget hid
  obtain ⟨span', hspan'⟩ := hget hid'
  obtain ⟨top, labels, hchain⟩ := exists_hasChain h hroots hspan
  obtain ⟨top', labels', hchain'⟩ := exists_hasChain h hroots hspan'
  intro he
  refine hapart.chainText_ne top top' labels labels' ?_
  rw [← pathOf_chain h hopts hspan hchain, ← pathOf_chain h hopts' hspan' hchain', he]

/-- Under a key of one kind there are the spans that have this path. -/
theorem idsAt_pathEntries {optss : List PathStringOptions} {ids : List SpanId} {opts : PathStringOptions} (hopts : opts ∈ optss)
    {key : String} (hnodup : optss.Nodup)
    (hkey : ∀ opts' ∈ optss, opts' ≠ opts → ∀ id ∈ ids, pathOf tree opts' id ≠ key) :
    idsAt (pathEntries tree optss ids) key = ids.filter fun id => pathOf tree opts id = key := by
  obtain ⟨before, after, rfl⟩ := List.append_of_mem hopts
  have hothers {others : List PathStringOptions} {id : SpanId} (hpaths : ∀ opts' ∈ others, pathOf tree opts' id ≠ key) :
      idsAt (others.map fun opts' => (pathOf tree opts' id, id)) key = [] := by
    rw [idsAt, List.map_eq_nil_iff, List.filter_eq_nil_iff]
    intro entry hentry
    obtain ⟨opts', hopts', rfl⟩ := List.mem_map.1 hentry
    simpa using hpaths opts' hopts'
  have hne : ∀ opts' ∈ before ++ after, opts' ≠ opts := by
    rintro opts' hopts' rfl
    exact (List.nodup_middle.1 hnodup).notMem hopts'
  induction ids with
  | nil => rfl
  | cons id ids ih =>
    have hrest := ih fun opts' hopts' hne' id' hid' => hkey opts' hopts' hne' id' (List.mem_cons_of_mem _ hid')
    have hbefore : ∀ opts' ∈ before, pathOf tree opts' id ≠ key := fun opts' hopts' =>
      hkey opts' (List.mem_append_left _ hopts') (hne opts' (List.mem_append_left _ hopts')) id List.mem_cons_self
    have hafter : ∀ opts' ∈ after, pathOf tree opts' id ≠ key := fun opts' hopts' =>
      hkey opts' (List.mem_append_right _ (List.mem_cons_of_mem _ hopts')) (hne opts' (List.mem_append_right _ hopts')) id
        List.mem_cons_self
    rw [pathEntries] at hrest ⊢
    rw [List.flatMap_cons, idsAt_append, hrest, List.map_append, List.map_cons, idsAt_append, hothers hbefore, List.nil_append,
      ← List.singleton_append, idsAt_append, hothers hafter, List.append_nil, List.filter_cons]
    by_cases hpath : pathOf tree opts id = key
    · simp [idsAt, hpath]
    · simp [idsAt, hpath]

/-- Different kinds of paths do not share a key. -/
theorem not_keyOf (h : WellFormed tree) (hroots : RootsFit tree) {opts opts' : PathStringOptions} (hopts : Regular opts)
    (hopts' : Regular opts') (hapart : Apart opts opts') {key : String} (hkey : KeyOf tree opts key) :
    ¬ KeyOf tree opts' key := by
  intro hkey'
  obtain ⟨id, hid, rfl⟩ := (keyOf_iff h opts key).1 hkey
  obtain ⟨id', hid', he⟩ := (keyOf_iff h opts' _).1 hkey'
  exact pathOf_ne h hroots hopts hopts' hapart hid hid' he.symm

section Kinds

variable {optss : List PathStringOptions} {ids : List SpanId} {index : IndexByCallPath}

theorem Apart.nodup (hapart : optss.Pairwise Apart) : optss.Nodup := by
  refine hapart.imp fun {opts opts'} h he => ?_
  subst he
  exact h.1 (List.prefix_refl _)

theorem Apart.forall (hapart : optss.Pairwise Apart) {opts opts' : PathStringOptions} (hopts : opts ∈ optss)
    (hopts' : opts' ∈ optss) (hne : opts ≠ opts') : Apart opts opts' :=
  hapart.forall hopts hopts' hne

/-- What is found for a key of some kind. -/
theorem idsByCallPath_eq (h : WellFormed tree) (hroots : RootsFit tree) (hregular : ∀ opts ∈ optss, Regular opts)
    (hapart : optss.Pairwise Apart) (hids : ids.Perm (allIds tree)) (hindex : Indexes index (pathEntries tree optss ids))
    {opts : PathStringOptions} (hopts : opts ∈ optss) {key : String} (hkey : KeyOf tree opts key) :
    index.idsByCallPath key = some (ids.filter fun id => pathOf tree opts id = key) := by
  have hothers : ∀ opts' ∈ optss, opts' ≠ opts → ∀ id ∈ ids, pathOf tree opts' id ≠ key := by
    intro opts' hopts' hne id hid he
    have hkey' : KeyOf tree opts' key := (keyOf_iff h opts' key).2 ⟨id, hids.mem_iff.1 hid, he⟩
    exact not_keyOf h hroots (hregular opts' hopts') (hregular opts hopts) (Apart.forall hapart hopts' hopts hne) hkey' hkey
  have hfilter := idsAt_pathEntries hopts (Apart.nodup hapart) hothers
  obtain ⟨id, hid, hpath⟩ := (keyOf_iff h opts key).1 hkey
  have hmem : id ∈ ids.filter fun id => pathOf tree opts id = key :=
    List.mem_filter.2 ⟨hids.mem_iff.2 hid, decide_eq_true hpath⟩
  rw [hindex key, hfilter, if_neg (List.ne_nil_of_mem hmem)]

theorem inGroup_iff (h : WellFormed tree) (hroots : RootsFit tree) (hregular : ∀ opts ∈ optss, Regular opts)
    (hapart : optss.Pairwise Apart) (hids : ids.Perm (allIds tree)) (hindex : Indexes index (pathEntries tree optss ids))
    {opts : PathStringOptions} (hopts : opts ∈ optss) {key : String} (hkey : KeyOf tree opts key) (id : SpanId) :
    InGroup index key id ↔ id ∈ allIds tree ∧ pathOf tree opts id = key := by
  have hfound := idsByCallPath_eq h hroots hregular hapart hids hindex hopts hkey
  have hmem : id ∈ (ids.filter fun id => pathOf tree opts id = key) ↔ id ∈ allIds tree ∧ pathOf tree opts id = key := by
    rw [List.mem_filter, decide_eq_true_iff, hids.mem_iff]
  rw [← hmem]
  constructor
  · rintro ⟨found, hlookup, hin⟩
    rw [hfound] at hlookup
    rwa [Option.some.inj hlookup]
  · exact fun hin => ⟨_, hfound, hin⟩

/-- The keys of an index. -/
theorem exists_idsByCallPath_iff (h : WellFormed tree) (hids : ids.Perm (allIds tree))
    (hindex : Indexes index (pathEntries tree optss ids)) (key : String) :
    (∃ found, index.idsByCallPath key = some found) ↔ ∃ opts ∈ optss, KeyOf tree opts key := by
  rw [hindex key]
  constructor
  · rintro ⟨found, hfound⟩
    split at hfound
    · cases hfound
    · next hne =>
      obtain ⟨id, hid⟩ := List.exists_mem_of_ne_nil _ hne
      obtain ⟨entry, hentry, -⟩ := List.mem_map.1 hid
      obtain ⟨hentry, he⟩ := List.mem_filter.1 hentry
      obtain ⟨id', hid', hentry⟩ := List.mem_flatMap.1 hentry
      obtain ⟨opts, hopts, rfl⟩ := List.mem_map.1 hentry
      exact ⟨opts, hopts, (keyOf_iff h opts key).2 ⟨id', hids.mem_iff.1 hid', of_decide_eq_true he⟩⟩
  · rintro ⟨opts, hopts, hkey⟩
    obtain ⟨id, hid, hpath⟩ := (keyOf_iff h opts key).1 hkey
    have hentry : (key, id) ∈ pathEntries tree optss ids := by
      refine List.mem_flatMap.2 ⟨id, hids.mem_iff.2 hid, List.mem_map.2 ⟨opts, hopts, ?_⟩⟩
      rw [hpath]
    have hmem : id ∈ idsAt (pathEntries tree optss ids) key :=
      List.mem_map.2 ⟨_, List.mem_filter.2 ⟨hentry, decide_eq_true rfl⟩, rfl⟩
    rw [if_neg (List.ne_nil_of_mem hmem)]
    exact ⟨_, rfl⟩

theorem groups_of_indexes (h : WellFormed tree) (hroots : RootsFit tree) (hlabels : LabelsFit tree)
    (hregular : ∀ opts ∈ optss, Regular opts) (hapart : optss.Pairwise Apart) (hids : ids.Perm (allIds tree))
    (hindex : Indexes index (pathEntries tree optss ids)) : Groups tree optss index where
  keys := exists_idsByCallPath_iff h hids hindex
  spans key found hfound := by
    obtain ⟨opts, hopts, hkey⟩ := (exists_idsByCallPath_iff h hids hindex key).1 ⟨found, hfound⟩
    rw [idsByCallPath_eq h hroots hregular hapart hids hindex hopts hkey] at hfound
    obtain rfl := Option.some.inj hfound
    refine ⟨(hids.nodup_iff.2 (nodup_allIds h)).filter _, fun id hid => ?_⟩
    exact hids.mem_iff.1 (List.mem_of_mem_filter hid)
  existsUnique opts hopts id hid := by
    have hkey : KeyOf tree opts (pathOf tree opts id) := (keyOf_iff h opts _).2 ⟨id, hid, rfl⟩
    refine ⟨pathOf tree opts id, ⟨hkey, ?_⟩, ?_⟩
    · exact (inGroup_iff h hroots hregular hapart hids hindex hopts hkey id).2 ⟨hid, rfl⟩
    · rintro key ⟨hkey', hin⟩
      exact ((inGroup_iff h hroots hregular hapart hids hindex hopts hkey' id).1 hin).2.symm
  chains id hid := by
    obtain ⟨span, hget⟩ : ∃ span, tree.get? id = some span := ⟨_, List.getElem?_eq_getElem ((mem_allIds h id).1 hid)⟩
    obtain ⟨top, labels, hchain⟩ := exists_hasChain h hroots hget
    exact ⟨span, top, labels, hget, hchain⟩
  shared opts hopts id id' span span' top top' labels labels' hget hget' hchain hchain' := by
    have hid : id ∈ allIds tree := (mem_allIds h id).2 (List.getElem?_eq_some_iff.1 hget).1
    have hid' : id' ∈ allIds tree := (mem_allIds h id').2 (List.getElem?_eq_some_iff.1 hget').1
    have htexts : chainText opts top labels = chainText opts top' labels' ↔
        top.Same opts.includeThreadNumberInPath top' ∧ labels = labels' :=
      chainText_inj (hregular opts hopts) (hchain.labels_fit hlabels (List.mem_of_getElem? hget))
        (hchain'.labels_fit hlabels (List.mem_of_getElem? hget'))
    rw [← htexts, ← pathOf_chain h (hregular opts hopts) hget hchain, ← pathOf_chain h (hregular opts hopts) hget' hchain',
      String.toList_inj]
    constructor
    · rintro ⟨key, hkey, hin, hin'⟩
      rw [inGroup_iff h hroots hregular hapart hids hindex hopts hkey] at hin hin'
      rw [hin.2, hin'.2]
    · intro he
      have hkey : KeyOf tree opts (pathOf tree opts id) := (keyOf_iff h opts _).2 ⟨id, hid, rfl⟩
      refine ⟨pathOf tree opts id, hkey, ?_, ?_⟩
      · exact (inGroup_iff h hroots hregular hapart hids hindex hopts hkey id).2 ⟨hid, rfl⟩
      · exact (inGroup_iff h hroots hregular hapart hids hindex hopts hkey id').2 ⟨hid', he.symm⟩
  disjoint opts hopts opts' hopts' hne key hkey :=
    not_keyOf h hroots (hregular opts hopts) (hregular opts' hopts') (Apart.forall hapart hopts hopts' hne) hkey

/-- The order of the spans does not matter. -/
theorem sameGroups_of_indexes {ids' : List SpanId} {index' : IndexByCallPath} (hids : ids.Perm ids')
    (hindex : Indexes index (pathEntries tree optss ids)) (hindex' : Indexes index' (pathEntries tree optss ids')) :
    SameGroups index index' := by
  intro key
  have hperm : (idsAt (pathEntries tree optss ids) key).Perm (idsAt (pathEntries tree optss ids') key) :=
    idsAt_perm hids optss key
  rw [hindex key, hindex' key]
  by_cases hnil : idsAt (pathEntries tree optss ids) key = []
  · have hnil' : idsAt (pathEntries tree optss ids') key = [] := List.nil_perm.1 (hnil ▸ hperm)
    rw [if_pos hnil, if_pos hnil']
    exact .none
  · have hne' : idsAt (pathEntries tree optss ids') key ≠ [] := fun h => hnil (List.perm_nil.1 (h ▸ hperm))
    rw [if_neg hnil, if_neg hne']
    exact .some hperm

end Kinds

/-- The tree of a log is well formed. -/
theorem wellFormed_of_fromLogdata {ms : List DataMessage} (h : LogDataTree.fromLogdata ms = .ok tree) : WellFormed tree := by
  obtain ⟨s, hread, he⟩ := Outcome.bind_eq_ok.1 h
  obtain rfl := Outcome.ok.inj he
  have hspec := read_new_spec ms
  rw [hread] at hspec
  cases hspec with
  | ok hfits hreads => exact hreads.wellFormed

/-- **Spans are grouped by their call paths**, for the outputs of the program: trees of logs whose roots are processes and
threads, and whose labels have none of the characters of the separators. -/
theorem isGrouping_optss (ms : List DataMessage) (tree : LogDataTree) (h : LogDataTree.fromLogdata ms = .ok tree)
    (hroots : RootsFit tree) (hlabels : LabelsFit tree) (case : CheckedOutputOptionsMapCase) (evaluationOpts : EvaluationOpts) :
    IsGrouping tree (keyDetailsFor case evaluationOpts).optss := by
  have hwell := wellFormed_of_fromLogdata h
  have hregular := regular_optss case evaluationOpts
  have hapart := apart_optss case evaluationOpts
  have hlengths {ids : List SpanId} (hids : ∀ id ∈ ids, id ∈ allIds tree) : ∀ id ∈ ids, SpanId.index id < tree.spans.length :=
    fun id hid => (mem_allIds hwell id).1 (hids id hid)
  have hindexes {ids : List SpanId} {index : IndexByCallPath} (hids : ids.Perm (allIds tree))
      (hreduces : Reduces tree (keyDetailsFor case evaluationOpts).optss ids index) :
      Indexes index (pathEntries tree (keyDetailsFor case evaluationOpts).optss ids) :=
    hreduces.indexes hwell (hlengths fun id hid => hids.mem_iff.1 hid)
  constructor
  · exact spanIds_eq hwell
  · exact Apart.nodup hapart
  · intro ids hids
    obtain ⟨index, hindex, -⟩ := addSpans_spec hwell (keyDetailsFor case evaluationOpts).optss (hlengths hids) Indexes.empty
    exact ⟨index, hindex⟩
  · intro ids index hids hreduces
    exact groups_of_indexes hwell hroots hlabels hregular hapart hids (hindexes hids hreduces)
  · intro ids ids' index index' hids hids' hreduces hreduces'
    exact sameGroups_of_indexes (hids.trans hids'.symm) (hindexes hids hreduces) (hindexes hids' hreduces')

/-- The tree of the log of a process with a thread. -/
def sampleTree : LogDataTree :=
  match LogDataTree.fromLogdata sampleLog with
  | .ok tree => tree
  | _ => .empty

theorem isGrouping_sample :
    LogDataTree.fromLogdata sampleLog = .ok sampleTree ∧ RootsFit sampleTree ∧ LabelsFit sampleTree ∧
      IsGrouping sampleTree (keyDetailsFor .excel ⟨true, true⟩).optss := by
  have hread : LogDataTree.fromLogdata sampleLog = .ok sampleTree := rfl
  have hroots : RootsFit sampleTree := by
    unfold RootsFit
    decide +kernel
  have hlabels : LabelsFit sampleTree := by
    intro span hspan label hlabel
    have hall : sampleTree.spans.filterMap Span.label = ["a", "case=x", "b"] := by decide +kernel
    have hmem : label ∈ sampleTree.spans.filterMap Span.label := List.mem_filterMap.2 ⟨span, hspan, hlabel⟩
    rw [hall] at hmem
    rcases List.mem_cons.1 hmem with rfl | hmem
    · simp
    · rcases List.mem_cons.1 hmem with rfl | hmem
      · simp
      · rw [List.mem_singleton.1 hmem]
        simp
  exact ⟨hread, hroots, hlabels, isGrouping_optss sampleLog sampleTree hread hroots hlabels .excel ⟨true, true⟩⟩

end Evobench.Evaluator

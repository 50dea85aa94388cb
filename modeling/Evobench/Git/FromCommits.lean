import Evobench.Git.GraphData
import Evobench.Run.GitHash
import Mathlib.Combinatorics.Pigeonhole
import Mathlib.Order.Bounds.Basic

/-!
# Adding commits to the graph

`GitEntrypoint::from_commits` (src/git.rs) stores those commits of a list that are not known, with the ids of their parents.
The graph is changed in place, so it has changed also where an error comes back or the function panics.

## The model

* `fromCommits`: the graph afterwards, and the outcome.
* `Built`: the graphs that come about by adding lists of commits.
* `Indexed`: the invariant of these graphs. `ParentsFirst`: in a list, parents come before their children.

## What is proved

* `Indexed.addCommits`: it is an invariant.
* `from_commits_spec`: what is added. The ids have 32 bits; if the commits do not fit there is an error.
-/

namespace Evobench.Git

open Library Run

/-- `GitEntrypoint` -/
structure GitEntrypoint where
  /-- `name` -/
  name : String
  /-- `commit_id` -/
  commitId : EnrichedCommitId
deriving DecidableEq

namespace GitGraphData

/-! ### Adding commits -/

/-- The commit with the ids of its parents. -/
def withParents (commit : GitCommit GitHash) (parents : List EnrichedCommitId) : GitCommit EnrichedCommitId where
  commitHash := commit.commitHash
  authorTime := commit.authorTime
  committerTime := commit.committerTime
  parents := parents

/-- The id of a parent of a commit. -/
def parentId (self : GitGraphData) (commitHash parent : GitHash) : Outcome MoreThanU32Commits EnrichedCommitId :=
  match self.getByHash parent with
  | some id => .ok id
  | none =>
    .panic (s!"can't find parent {parent.display} of commit {commitHash.display} -- " ++
      "need commits with the oldest first!")

/-- The ids of the parents of a commit. -/
def parentIds (self : GitGraphData) (commit : GitCommit GitHash) : Outcome MoreThanU32Commits (List EnrichedCommitId) :=
  commit.parents.mapM (self.parentId commit.commitHash)

/-- The loop over the commits, with `entry_commit_id`. -/
def addCommits : List (GitCommit GitHash) → Option EnrichedCommitId → GitGraphData →
    GitGraphData × Outcome MoreThanU32Commits (Option EnrichedCommitId)
  | [], entryCommitId, self => (self, .ok entryCommitId)
  | commit :: commits, _, self =>
    match self.getByHash commit.commitHash with
    | some id => addCommits commits (some id) self
    | none =>
      match self.parentIds commit with
      | .ok parents =>
        match self.uncheckedPush (withParents commit parents) with
        | .ok (self', id) => addCommits commits (some id) self'
        | .err e => (self, .err e)
        | .panic msg => (self, .panic msg)
      | .err e => (self, .err e)
      | .panic msg => (self, .panic msg)

/-- `GitEntrypoint::from_commits` -/
def fromCommits (entryReference : String) (commits : List (GitCommit GitHash)) (self : GitGraphData) :
    GitGraphData × Outcome MoreThanU32Commits GitEntrypoint :=
  match addCommits commits none self with
  | (self', .ok (some id)) => (self', .ok ⟨entryReference, id⟩)
  | (self', .ok none) => (self', .panic "to be given non-empty commits iterator")
  | (self', .err e) => (self', .err e)
  | (self', .panic msg) => (self', .panic msg)

/-- The graphs that come about by adding commits, whatever the outcomes. -/
inductive Built : GitGraphData → Prop where
  /-- No commits. -/
  | new : Built .new
  /-- More commits. -/
  | add {self : GitGraphData} (h : Built self) (entryReference : String) (commits : List (GitCommit GitHash)) :
    Built (self.fromCommits entryReference commits).1

/-! ### The invariant -/

/-- The depth of a commit: 0 without parents, and otherwise one more than the greatest depth of a parent. -/
def HasDepth (self : GitGraphData) (ecommit : EnrichedGitCommit EnrichedCommitId) : Prop :=
  (ecommit.commit.parents = [] → ecommit.depth = 0) ∧
  (ecommit.commit.parents ≠ [] → ∃ m, ecommit.depth = m + 1 ∧
    IsGreatest {d | ∃ p ∈ ecommit.commit.parents, ∃ parent, self.get p = some parent ∧ parent.depth = d} m)

/-- **The invariant.** -/
structure Indexed (graph : GitGraphData) : Prop where
  /-- The ids of known hashes are below the number of commits. -/
  in_range : ∀ h id, graph.byHash h = some id → id.index.toNat < graph.ecommits.length
  /-- Different hashes have different ids. -/
  injective : ∀ h h' id, graph.byHash h = some id → graph.byHash h' = some id → h = h'
  /-- Every number below the number of commits is the id of a known hash, that of the commit there. -/
  surjective : ∀ (i : ℕ) (ecommit : EnrichedGitCommit EnrichedCommitId), graph.ecommits[i]? = some ecommit →
    ∃ id, graph.byHash ecommit.commit.commitHash = some id ∧ id.index.toNat = i
  /-- Parents have smaller ids. -/
  parents : ∀ (i : ℕ) (ecommit : EnrichedGitCommit EnrichedCommitId), graph.ecommits[i]? = some ecommit →
    ∀ p ∈ ecommit.commit.parents, p.index.toNat < i
  /-- The depths. -/
  depths : ∀ ecommit ∈ graph.ecommits, graph.HasDepth ecommit

/-- In a list, parents are known or come before their children. -/
def ParentsFirst (self : GitGraphData) (commits : List (GitCommit GitHash)) : Prop :=
  ∀ before commit after, commits = before ++ commit :: after →
    ∀ p ∈ commit.parents, (self.byHash p).isSome ∨ p ∈ before.map (·.commitHash)

/-- A commit is stored with its times and with the ids of its parents. -/
structure IsStored (graph : GitGraphData) (commit : GitCommit GitHash)
    (ecommit : EnrichedGitCommit EnrichedCommitId) : Prop where
  /-- The author time. -/
  authorTime : ecommit.commit.authorTime = commit.authorTime
  /-- The committer time. -/
  committerTime : ecommit.commit.committerTime = commit.committerTime
  /-- The parents. -/
  parents : ecommit.commit.parents.map some = commit.parents.map graph.byHash

/-- **What is added** to a graph from a list of commits, and what is kept. -/
structure Adds (graph : GitGraphData) (commits : List (GitCommit GitHash)) (later : GitGraphData)
    (added : List (EnrichedGitCommit EnrichedCommitId)) : Prop where
  /-- The commits stay where they are. -/
  ecommits : later.ecommits = graph.ecommits ++ added
  /-- The ids stay the same. -/
  byHash : ∀ h id, graph.byHash h = some id → later.byHash h = some id
  /-- What is added was unknown. -/
  unknown : ∀ ecommit ∈ added, graph.byHash ecommit.commit.commitHash = none
  /-- It is the first commit of the list with this hash. -/
  stored : ∀ ecommit ∈ added, ∃ commit,
    commits.find? (fun c => c.commitHash = ecommit.commit.commitHash) = some commit ∧ later.IsStored commit ecommit
  /-- Nothing else gets known. -/
  known : ∀ h, (later.byHash h).isSome → (graph.byHash h).isSome ∨ h ∈ commits.map (·.commitHash)

/-! ### Storing a commit -/

/-- A commit has been stored. -/
structure Pushed (graph : GitGraphData) (commit : GitCommit EnrichedCommitId) (later : GitGraphData)
    (id : EnrichedCommitId) : Prop where
  /-- It comes last. -/
  ecommits : ∃ depth, later.ecommits = graph.ecommits ++ [⟨commit, depth⟩] ∧ graph.HasDepth ⟨commit, depth⟩
  /-- Its id is known. -/
  byHash : later.byHash = Function.update graph.byHash commit.commitHash (some id)
  /-- The id is the next one. -/
  id_eq : id.index.toNat = graph.ecommits.length

variable {self later : GitGraphData} {commits : List (GitCommit GitHash)} {ecommit : EnrichedGitCommit EnrichedCommitId}
  {added added' : List (EnrichedGitCommit EnrichedCommitId)}

/-- The depth that is computed. -/
theorem hasDepth_push (commit : GitCommit EnrichedCommitId)
    (hparents : ∀ p ∈ commit.parents, p.index.toNat < self.ecommits.length) :
    self.HasDepth ⟨commit, (((commit.parents.filterMap self.get).map (·.depth)).max?.map (· + 1)).getD 0⟩ := by
  have hmem : ∀ d, d ∈ (commit.parents.filterMap self.get).map (·.depth) ↔
      ∃ p ∈ commit.parents, ∃ parent, self.get p = some parent ∧ parent.depth = d := by
    intro d
    rw [List.mem_map]
    constructor
    · rintro ⟨parent, hparent, hd⟩
      obtain ⟨p, hp, hget⟩ := List.mem_filterMap.1 hparent
      exact ⟨p, hp, parent, hget, hd⟩
    · rintro ⟨p, hp, parent, hget, hd⟩
      exact ⟨parent, List.mem_filterMap.2 ⟨p, hp, hget⟩, hd⟩
  constructor
  · intro hnone
    have hnone : commit.parents = [] := hnone
    rw [hnone]
    rfl
  · intro hne
    obtain ⟨p, hp⟩ := List.exists_mem_of_ne_nil _ hne
    obtain ⟨parent, hget⟩ := Option.isSome_iff_exists.1 (isSome_get.2 (hparents p hp))
    have hdepth := (hmem parent.depth).2 ⟨p, hp, parent, hget, rfl⟩
    obtain ⟨m, hm⟩ := Option.isSome_iff_exists.1 (List.isSome_max?_iff.2 (List.ne_nil_of_mem hdepth))
    obtain ⟨hmax, hle⟩ := List.max?_eq_some_iff.1 hm
    refine ⟨m, ?_, (hmem m).1 hmax, fun d hd => hle d ((hmem d).2 hd)⟩
    rw [hm]
    rfl

/-- **What storing a commit can do.** -/
theorem uncheckedPush_cases (commit : GitCommit EnrichedCommitId)
    (hparents : ∀ p ∈ commit.parents, p.index.toNat < self.ecommits.length) :
    (∃ later id, self.uncheckedPush commit = .ok (later, id) ∧ self.Pushed commit later id) ∨
      (self.uncheckedPush commit = .err .moreThanU32Commits ∧ UInt32.size ≤ self.ecommits.length) := by
  by_cases hlength : self.ecommits.length < UInt32.size
  · left
    rw [uncheckedPush, dif_pos hparents]
    simp only
    rw [dif_pos hlength]
    refine ⟨_, _, rfl, ⟨_, rfl, hasDepth_push commit hparents⟩, rfl, UInt32.toNat_ofNat_of_lt' hlength⟩
  · right
    rw [uncheckedPush, dif_pos hparents]
    simp only
    rw [dif_neg hlength]
    exact ⟨rfl, Nat.not_lt.1 hlength⟩

/-- A commit that is stored is found. -/
theorem get_of_concat (hecommits : later.ecommits = self.ecommits ++ added) {id : EnrichedCommitId}
    (h : self.get id = some ecommit) :
    later.get id = some ecommit := by
  rw [get, hecommits, List.getElem?_append_left (List.getElem?_eq_some_iff.1 h).1]
  exact h

/-- The depths stay right. -/
theorem HasDepth.concat (hecommits : later.ecommits = self.ecommits ++ added) (h : self.HasDepth ecommit)
    (hparents : ∀ p ∈ ecommit.commit.parents, p.index.toNat < self.ecommits.length) : later.HasDepth ecommit := by
  refine ⟨h.1, fun hne => ?_⟩
  obtain ⟨m, hdepth, hgreatest⟩ := h.2 hne
  have hsame : {d | ∃ p ∈ ecommit.commit.parents, ∃ parent, later.get p = some parent ∧ parent.depth = d} =
      {d | ∃ p ∈ ecommit.commit.parents, ∃ parent, self.get p = some parent ∧ parent.depth = d} := by
    ext d
    constructor
    · rintro ⟨p, hp, parent, hget, hd⟩
      obtain ⟨parent', hget'⟩ := Option.isSome_iff_exists.1 (isSome_get.2 (hparents p hp))
      rw [get_of_concat hecommits hget'] at hget
      cases hget
      exact ⟨p, hp, parent, hget', hd⟩
    · rintro ⟨p, hp, parent, hget, hd⟩
      exact ⟨p, hp, parent, get_of_concat hecommits hget, hd⟩
  exact ⟨m, hdepth, hsame ▸ hgreatest⟩

theorem Indexed.new : Indexed .new where
  in_range _ _ h := by cases h
  injective _ _ _ h := by cases h
  surjective _ _ h := by cases h
  parents _ _ h := by cases h
  depths _ h := by cases h

theorem in_range_of_byHash {h : GitHash} {id : EnrichedCommitId} (hid : self.byHash h = some id) :
    id.index.toNat < self.ecommits.length := by
  obtain ⟨ecommit, hget, -⟩ := exists_of_byHash hid
  exact isSome_get.1 (Option.isSome_iff_exists.2 ⟨ecommit, hget⟩)

theorem injective_byHash {h h' : GitHash} {id : EnrichedCommitId} (hid : self.byHash h = some id)
    (hid' : self.byHash h' = some id) :
    h = h' := by
  obtain ⟨ecommit, hget, hhash⟩ := exists_of_byHash hid
  obtain ⟨ecommit', hget', hhash'⟩ := exists_of_byHash hid'
  rw [hget] at hget'
  cases hget'
  rw [← hhash, hhash']

/-- **Storing an unknown commit** keeps the invariant. -/
theorem Indexed.pushed (h : Indexed self) {commit : GitCommit EnrichedCommitId} {id : EnrichedCommitId}
    (hnew : self.byHash commit.commitHash = none) (hpushed : self.Pushed commit later id) : Indexed later := by
  obtain ⟨⟨depth, hecommits, hdepth⟩, hbyHash, hid⟩ := hpushed
  refine ⟨fun _ _ => in_range_of_byHash, fun _ _ _ => injective_byHash, fun i ecommit hi => ?_, later.parents_lt,
    fun ecommit hmem => ?_⟩
  · rw [hbyHash]
    rw [hecommits, List.getElem?_append] at hi
    split_ifs at hi with hlt
    · obtain ⟨id', hid', hindex⟩ := h.surjective i ecommit hi
      have hne : ecommit.commit.commitHash ≠ commit.commitHash := by
        intro he
        rw [he, hnew] at hid'
        cases hid'
      exact ⟨id', by rw [Function.update_of_ne hne, hid'], hindex⟩
    · obtain rfl := List.mem_singleton.1 (List.mem_of_getElem? hi)
      have hlast := (List.getElem?_eq_some_iff.1 hi).1
      rw [List.length_singleton] at hlast
      refine ⟨id, Function.update_self _ _ _, ?_⟩
      omega
  · obtain ⟨i, hi⟩ := List.mem_iff_getElem?.1 hmem
    have hparents := later.parents_lt i ecommit hi
    have hlength : later.ecommits.length = self.ecommits.length + 1 := by
      rw [hecommits, List.length_append, List.length_singleton]
    have hlt : i < later.ecommits.length := (List.getElem?_eq_some_iff.1 hi).1
    have hin : ∀ p ∈ ecommit.commit.parents, p.index.toNat < self.ecommits.length := by
      intro p hp
      have hpi := hparents p hp
      omega
    refine HasDepth.concat hecommits ?_ hin
    rw [hecommits] at hmem
    rcases List.mem_append.1 hmem with hmem | hmem
    · exact h.depths ecommit hmem
    · rw [List.mem_singleton.1 hmem]
      exact hdepth

theorem parentId_eq (commitHash : GitHash) {parent : GitHash} {id : EnrichedCommitId} (h : self.byHash parent = some id) :
    self.parentId commitHash parent = .ok id := by
  rw [parentId, getByHash, h]

/-- The parents are looked up. -/
theorem parentIds_eq_ok {commit : GitCommit GitHash} {parents : List EnrichedCommitId}
    (h : self.parentIds commit = .ok parents) : parents.map some = commit.parents.map self.byHash := by
  rw [parentIds] at h
  generalize commit.parents = l at h ⊢
  induction l generalizing parents with
  | nil =>
    cases h
    rfl
  | cons parent rest ih =>
    rw [List.mapM_cons] at h
    obtain ⟨id, hid, h⟩ := Outcome.bind_eq_ok.1 h
    obtain ⟨ids, hids, h⟩ := Outcome.bind_eq_ok.1 h
    cases h
    rw [parentId, getByHash] at hid
    cases hparent : self.byHash parent with
    | none =>
      rw [hparent] at hid
      cases hid
    | some id' =>
      rw [hparent] at hid
      cases hid
      rw [List.map_cons, List.map_cons, ih hids, hparent]

/-- The parents are found if they are known. -/
theorem exists_parentIds {commit : GitCommit GitHash} (h : ∀ p ∈ commit.parents, (self.byHash p).isSome) :
    ∃ parents, self.parentIds commit = .ok parents := by
  rw [parentIds]
  generalize commit.parents = l at h ⊢
  induction l with
  | nil => exact ⟨[], rfl⟩
  | cons parent rest ih =>
    obtain ⟨hparent, hrest⟩ := List.forall_mem_cons.1 h
    obtain ⟨id, hid⟩ := Option.isSome_iff_exists.1 hparent
    obtain ⟨ids, hids⟩ := ih hrest
    exact ⟨id :: ids, by rw [List.mapM_cons, parentId_eq _ hid, hids]; rfl⟩

/-- The ids of parents are in range. -/
theorem lt_of_parentIds {commit : GitCommit GitHash} {parents : List EnrichedCommitId}
    (h : self.parentIds commit = .ok parents) : ∀ p ∈ parents, p.index.toNat < self.ecommits.length := by
  intro p hp
  have hmem : some p ∈ commit.parents.map self.byHash := by
    rw [← parentIds_eq_ok h]
    exact List.mem_map_of_mem hp
  obtain ⟨hash, -, hhash⟩ := List.mem_map.1 hmem
  exact in_range_of_byHash hhash

/-! ### The loop -/

/-- **The loop keeps the invariant**, for any list of commits. -/
theorem Indexed.addCommits {entryCommitId : Option EnrichedCommitId} (h : Indexed self) :
    Indexed (addCommits commits entryCommitId self).1 := by
  induction commits generalizing self entryCommitId with
  | nil => exact h
  | cons commit commits ih =>
    rw [GitGraphData.addCommits]
    cases hknown : self.getByHash commit.commitHash with
    | some id => exact ih h
    | none =>
      cases hparents : self.parentIds commit with
      | ok parents =>
        rcases uncheckedPush_cases (withParents commit parents) (lt_of_parentIds hparents) with
          ⟨later, id, hpush, hpushed⟩ | ⟨herr, -⟩
        · have hnew : self.byHash (withParents commit parents).commitHash = none := hknown
          simp only [hpush]
          exact ih (h.pushed hnew hpushed)
        · simp only [herr]
          exact h
      | err e => exact h
      | panic msg => exact h

theorem fromCommits_fst (entryReference : String) (commits : List (GitCommit GitHash)) (self : GitGraphData) :
    (self.fromCommits entryReference commits).1 = (addCommits commits none self).1 := by
  rw [fromCommits]
  split
  all_goals rename_i heq; rw [heq]

/-- **The invariant of all graphs.** -/
theorem Built.indexed (h : Built self) : Indexed self := by
  induction h with
  | new => exact .new
  | add h entryReference commits ih =>
    rw [fromCommits_fst]
    exact ih.addCommits

/-! ### What is added -/

theorem IsStored.mono {commit : GitCommit GitHash} (h : self.IsStored commit ecommit)
    (hbyHash : ∀ h id, self.byHash h = some id → later.byHash h = some id) : later.IsStored commit ecommit := by
  refine ⟨h.authorTime, h.committerTime, h.parents.trans (List.map_congr_left fun p hp => ?_)⟩
  have hmem : self.byHash p ∈ ecommit.commit.parents.map some := by
    rw [h.parents]
    exact List.mem_map_of_mem hp
  obtain ⟨id, -, hid⟩ := List.mem_map.1 hmem
  rw [← hid, hbyHash p id hid.symm]

theorem Adds.refl (self : GitGraphData) (commits : List (GitCommit GitHash)) : Adds self commits self [] where
  ecommits := (List.append_nil _).symm
  byHash _ _ h := h
  unknown _ h := absurd h List.not_mem_nil
  stored _ h := absurd h List.not_mem_nil
  known _ h := .inl h

/-- First one commit is added, and then the others. -/
theorem Adds.cons {mid : GitGraphData} {commit : GitCommit GitHash} (h : Adds self [commit] mid added)
    (hmid : (mid.byHash commit.commitHash).isSome) (h' : Adds mid commits later added') :
    Adds self (commit :: commits) later (added ++ added') := by
  refine ⟨?_, fun hash id hid => h'.byHash hash id (h.byHash hash id hid), fun ecommit he => ?_, fun ecommit he => ?_,
    fun hash hhash => ?_⟩
  · rw [h'.ecommits, h.ecommits, List.append_assoc]
  · rcases List.mem_append.1 he with he | he
    · exact h.unknown ecommit he
    · by_contra hne
      obtain ⟨id, hid⟩ := Option.isSome_iff_exists.1 (Option.isSome_iff_ne_none.2 hne)
      have hnone := h'.unknown ecommit he
      rw [h.byHash _ id hid] at hnone
      cases hnone
  · rcases List.mem_append.1 he with he | he
    · obtain ⟨c, hfind, hstored⟩ := h.stored ecommit he
      obtain rfl := List.mem_singleton.1 (List.mem_of_find?_eq_some hfind)
      exact ⟨c, by rw [List.find?_cons_of_pos (List.find?_some hfind)], hstored.mono h'.byHash⟩
    · obtain ⟨c, hfind, hstored⟩ := h'.stored ecommit he
      have hne : ¬ commit.commitHash = ecommit.commit.commitHash := by
        intro heq
        rw [heq, h'.unknown ecommit he] at hmid
        cases hmid
      exact ⟨c, by rw [List.find?_cons_of_neg (by simpa using hne), hfind], hstored⟩
  · rw [List.map_cons, List.mem_cons]
    rcases h'.known hash hhash with hknown | hmem
    · rcases h.known hash hknown with hknown | hmem
      · exact .inl hknown
      · exact .inr (.inl (List.mem_singleton.1 hmem))
    · exact .inr (.inr hmem)

/-- A commit that has been stored. -/
theorem Pushed.adds {commit : GitCommit GitHash} {parents : List EnrichedCommitId} {id : EnrichedCommitId}
    (hnew : self.byHash commit.commitHash = none) (hparents : self.parentIds commit = .ok parents)
    (h : self.Pushed (withParents commit parents) later id) :
    ∃ added, Adds self [commit] later added ∧ later.byHash commit.commitHash = some id := by
  obtain ⟨⟨depth, hecommits, -⟩, hbyHash, -⟩ := h
  have hself : later.byHash commit.commitHash = some id := by
    rw [hbyHash]
    exact Function.update_self _ _ _
  have hkeep : ∀ h id, self.byHash h = some id → later.byHash h = some id := by
    intro h id' hid'
    have hne : h ≠ commit.commitHash := by
      rintro rfl
      rw [hnew] at hid'
      cases hid'
    rw [hbyHash]
    exact (Function.update_of_ne hne _ _).trans hid'
  have hstored : self.IsStored commit ⟨withParents commit parents, depth⟩ := ⟨rfl, rfl, parentIds_eq_ok hparents⟩
  refine ⟨_, ⟨hecommits, hkeep, fun ecommit he => ?_, fun ecommit he => ?_, fun h hh => ?_⟩, hself⟩
  · rw [List.mem_singleton.1 he]
    exact hnew
  · rw [List.mem_singleton.1 he]
    exact ⟨commit, List.find?_cons_of_pos (decide_eq_true rfl), hstored.mono hkeep⟩
  · by_cases heq : h = commit.commitHash
    · exact .inr (List.mem_singleton.2 heq)
    · have hsame : later.byHash h = self.byHash h := by
        rw [hbyHash]
        exact Function.update_of_ne heq _ _
      rw [hsame] at hh
      exact .inl hh

/-- **One round of the loop**: the commit is known afterwards, or it does not fit. -/
theorem addCommits_cases (h : Indexed self) {commit : GitCommit GitHash}
    (hparents : ∀ p ∈ commit.parents, (self.byHash p).isSome) :
    (∃ mid id added, Indexed mid ∧ Adds self [commit] mid added ∧ mid.byHash commit.commitHash = some id ∧
      ∀ commits entryCommitId, addCommits (commit :: commits) entryCommitId self = addCommits commits (some id) mid) ∨
    (UInt32.size ≤ self.ecommits.length ∧ self.byHash commit.commitHash = none ∧
      ∀ commits entryCommitId, addCommits (commit :: commits) entryCommitId self = (self, .err .moreThanU32Commits)) := by
  cases hknown : self.byHash commit.commitHash with
  | some id =>
    refine .inl ⟨self, id, [], h, .refl _ _, hknown, fun commits entryCommitId => ?_⟩
    rw [addCommits, getByHash, hknown]
  | none =>
    obtain ⟨parents, hids⟩ := exists_parentIds hparents
    rcases uncheckedPush_cases (withParents commit parents) (lt_of_parentIds hids) with
      ⟨mid, id, hpush, hpushed⟩ | ⟨herr, hfull⟩
    · have hnew : self.byHash (withParents commit parents).commitHash = none := hknown
      obtain ⟨added, hadds, hid⟩ := hpushed.adds hknown hids
      refine .inl ⟨mid, id, added, h.pushed hnew hpushed, hadds, hid, fun commits entryCommitId => ?_⟩
      rw [addCommits, getByHash, hknown]
      simp only [hids, hpush]
    · refine .inr ⟨hfull, rfl, fun commits entryCommitId => ?_⟩
      rw [addCommits, getByHash, hknown]
      simp only [hids, herr]

theorem ParentsFirst.head {commit : GitCommit GitHash} (h : self.ParentsFirst (commit :: commits)) :
    ∀ p ∈ commit.parents, (self.byHash p).isSome := by
  intro p hp
  exact (h [] commit commits rfl p hp).resolve_right List.not_mem_nil

theorem ParentsFirst.tail {commit : GitCommit GitHash} (h : self.ParentsFirst (commit :: commits))
    (hkeep : ∀ h id, self.byHash h = some id → later.byHash h = some id)
    (hcommit : (later.byHash commit.commitHash).isSome) : later.ParentsFirst commits := by
  intro before c after heq p hp
  rcases h (commit :: before) c after (by rw [heq, List.cons_append]) p hp with hknown | hmem
  · obtain ⟨id, hid⟩ := Option.isSome_iff_exists.1 hknown
    exact .inl (Option.isSome_iff_exists.2 ⟨id, hkeep p id hid⟩)
  · rcases List.mem_cons.1 hmem with rfl | hmem
    · exact .inl hcommit
    · exact .inr hmem

/-- The entry after a list of known commits. -/
def entryAfter (self : GitGraphData) (commits : List (GitCommit GitHash)) (entryCommitId : Option EnrichedCommitId) :
    Option EnrichedCommitId :=
  match commits.getLast? with
  | some commit => self.byHash commit.commitHash
  | none => entryCommitId

theorem entryAfter_cons {commit : GitCommit GitHash} {id : EnrichedCommitId} (h : self.byHash commit.commitHash = some id)
    (commits : List (GitCommit GitHash)) (entryCommitId : Option EnrichedCommitId) :
    self.entryAfter (commit :: commits) entryCommitId = self.entryAfter commits (some id) := by
  cases commits with
  | nil => exact h
  | cons c commits => rfl

/-- Known commits change nothing. -/
theorem addCommits_of_known (h : ∀ c ∈ commits, (self.byHash c.commitHash).isSome)
    (entryCommitId : Option EnrichedCommitId) :
    addCommits commits entryCommitId self = (self, .ok (self.entryAfter commits entryCommitId)) := by
  induction commits generalizing entryCommitId with
  | nil => rfl
  | cons commit commits ih =>
    obtain ⟨hcommit, hcommits⟩ := List.forall_mem_cons.1 h
    obtain ⟨id, hid⟩ := Option.isSome_iff_exists.1 hcommit
    rw [addCommits, getByHash, hid]
    exact (ih hcommits (some id)).trans (by rw [entryAfter_cons hid])

/-- **The run of the loop**: all commits are known in the end, or the graph is full and one of them is not. -/
theorem addCommits_spec (h : Indexed self) (hfirst : self.ParentsFirst commits)
    (entryCommitId : Option EnrichedCommitId) :
    ∃ later added, Adds self commits later added ∧
      ((addCommits commits entryCommitId self = (later, .ok (later.entryAfter commits entryCommitId)) ∧
          ∀ c ∈ commits, (later.byHash c.commitHash).isSome) ∨
        (addCommits commits entryCommitId self = (later, .err .moreThanU32Commits) ∧ UInt32.size ≤ later.ecommits.length ∧
          ∃ c ∈ commits, later.byHash c.commitHash = none)) := by
  induction commits generalizing self entryCommitId with
  | nil => exact ⟨self, [], .refl _ _, .inl ⟨rfl, fun c hc => absurd hc List.not_mem_nil⟩⟩
  | cons commit commits ih =>
    rcases addCommits_cases h hfirst.head with ⟨mid, id, added, hmid, hadds, hid, heq⟩ | ⟨hfull, hnone, heq⟩
    · have hsome : (mid.byHash commit.commitHash).isSome := Option.isSome_iff_exists.2 ⟨id, hid⟩
      obtain ⟨later, added', hadds', hcases⟩ := ih hmid (hfirst.tail hadds.byHash hsome) (some id)
      have hlater := hadds'.byHash _ id hid
      refine ⟨later, added ++ added', hadds.cons hsome hadds', ?_⟩
      rw [heq]
      rcases hcases with ⟨hok, hall⟩ | ⟨herr, hsize, c, hc, hcnone⟩
      · refine .inl ⟨by rw [hok, entryAfter_cons hlater], List.forall_mem_cons.2 ⟨?_, hall⟩⟩
        exact Option.isSome_iff_exists.2 ⟨id, hlater⟩
      · exact .inr ⟨herr, hsize, c, List.mem_cons_of_mem _ hc, hcnone⟩
    · exact ⟨self, [], .refl _ _, .inr ⟨heq _ _, hfull, commit, List.mem_cons_self, hnone⟩⟩

/-- There are no more commits than ids. -/
theorem Indexed.length_le (h : Indexed self) : self.ecommits.length ≤ UInt32.size := by
  by_contra hlt
  have hget := List.getElem?_eq_getElem (Nat.not_le.1 hlt)
  obtain ⟨id, -, hid⟩ := h.surjective _ _ hget
  exact absurd hid id.index.toNat_lt.ne

/-- **Adding commits**: the graph stays indexed, and what was there stays as it was. All commits of the list are known then,
the entry is the last one, and to add the list again changes nothing; or there are more commits than ids. -/
theorem from_commits_spec (hbuilt : Built self) (hne : commits ≠ [])
    (hfirst : self.ParentsFirst commits) (entryReference : String) :
    ∃ later added, Indexed later ∧ Adds self commits later added ∧
      ((∃ entry, self.fromCommits entryReference commits = (later, .ok entry) ∧
          (∀ c ∈ commits, (later.byHash c.commitHash).isSome) ∧
          later.byHash (commits.getLast hne).commitHash = some entry.commitId ∧
          later.fromCommits entryReference commits = (later, .ok entry)) ∨
        (self.fromCommits entryReference commits = (later, .err .moreThanU32Commits) ∧
          later.ecommits.length = UInt32.size ∧ ∃ c ∈ commits, later.byHash c.commitHash = none)) := by
  have hself := hbuilt.indexed
  obtain ⟨later, added, hadds, hcases⟩ := addCommits_spec hself hfirst none
  refine ⟨later, added, ?_, hadds, ?_⟩
  · have hlater : Indexed (addCommits commits none self).1 := hself.addCommits
    rcases hcases with ⟨heq, -⟩ | ⟨heq, -⟩
    · rwa [heq] at hlater
    · rwa [heq] at hlater
  · rcases hcases with ⟨heq, hall⟩ | ⟨heq, hfull, hsome⟩
    · obtain ⟨id, hid⟩ := Option.isSome_iff_exists.1 (hall _ (List.getLast_mem hne))
      have hentry : later.entryAfter commits none = some id := by
        rw [entryAfter, List.getLast?_eq_getLast_of_ne_nil hne]
        exact hid
      refine .inl ⟨⟨entryReference, id⟩, ?_, hall, hid, ?_⟩
      · rw [fromCommits, heq, hentry]
      · rw [fromCommits, addCommits_of_known hall, hentry]
    · have hlater : Indexed later := by
        have hindexed : Indexed (addCommits commits none self).1 := hself.addCommits
        rwa [heq] at hindexed
      refine .inr ⟨?_, Nat.le_antisymm hlater.length_le hfull, hsome⟩
      rw [fromCommits, heq]

/-- A commit without parents. -/
def rootCommit (number : ℕ) : GitCommit GitHash where
  commitHash := ⟨BitVec.ofNat 160 number⟩
  authorTime := ⟨0⟩
  committerTime := ⟨0⟩
  parents := []

/-- A commit without parents, and a child of it. -/
def twoCommits : List (GitCommit GitHash) := [rootCommit 1, { rootCommit 2 with parents := [⟨1⟩] }]

/-- They are added to the empty graph. -/
theorem from_commits_spec_sample : ∃ later, Indexed later ∧
    GitGraphData.new.fromCommits "HEAD" twoCommits = (later, .ok ⟨"HEAD", ⟨1⟩⟩) := by
  have hfirst : ParentsFirst .new twoCommits := by
    intro before commit after heq p hp
    rcases before with _ | ⟨first, _ | ⟨second, before⟩⟩
    · cases heq
      cases hp
    · cases heq
      exact .inr hp
    · have hlength := congrArg List.length heq
      simp only [twoCommits, List.length_append, List.length_cons, List.length_nil] at hlength
      omega
  have hne : twoCommits ≠ [] := List.cons_ne_nil _ _
  have hok : (GitGraphData.new.fromCommits "HEAD" twoCommits).2 = .ok ⟨"HEAD", ⟨1⟩⟩ := by decide +kernel
  obtain ⟨later, added, hlater, -, hcases⟩ := from_commits_spec .new hne hfirst "HEAD"
  refine ⟨later, hlater, ?_⟩
  rcases hcases with ⟨entry, heq, -⟩ | ⟨heq, -⟩
  · rw [heq] at hok ⊢
    cases hok
    rfl
  · rw [heq] at hok
    cases hok

/-! ### More commits than ids -/

/-- One commit more than there are ids. -/
def manyCommits : List (GitCommit GitHash) := (List.range (UInt32.size + 1)).map rootCommit

theorem rootCommit_inj {m n : ℕ} (hm : m < UInt32.size + 1) (hn : n < UInt32.size + 1)
    (h : (rootCommit m).commitHash = (rootCommit n).commitHash) : m = n := by
  have hbits : BitVec.ofNat 160 m = BitVec.ofNat 160 n := congrArg GitHash.bytes h
  have hle : UInt32.size + 1 ≤ 2 ^ 160 := by decide
  have hnat := congrArg BitVec.toNat hbits
  rwa [BitVec.toNat_ofNat, BitVec.toNat_ofNat, Nat.mod_eq_of_lt (hm.trans_le hle),
    Nat.mod_eq_of_lt (hn.trans_le hle)] at hnat

/-- They cannot all be known. -/
theorem exists_unknown (self : GitGraphData) : ∃ c ∈ manyCommits, self.byHash c.commitHash = none := by
  by_contra hall
  have hknown : ∀ n < UInt32.size + 1, ∃ id, self.byHash (rootCommit n).commitHash = some id := by
    intro n hn
    refine Option.ne_none_iff_exists'.1 fun hnone => hall ⟨rootCommit n, ?_, hnone⟩
    exact List.mem_map_of_mem (List.mem_range.2 hn)
  let number : ℕ → ℕ := fun n => ((self.byHash (rootCommit n).commitHash).map fun id => id.index.toNat).getD 0
  have hmaps : ∀ n ∈ Finset.range (UInt32.size + 1), number n ∈ Finset.range UInt32.size := by
    intro n hn
    obtain ⟨id, hid⟩ := hknown n (Finset.mem_range.1 hn)
    rw [Finset.mem_range]
    show ((self.byHash (rootCommit n).commitHash).map fun id => id.index.toNat).getD 0 < UInt32.size
    rw [hid]
    exact id.index.toNat_lt
  have hcard : (Finset.range UInt32.size).card < (Finset.range (UInt32.size + 1)).card := by
    rw [Finset.card_range, Finset.card_range]
    exact Nat.lt_succ_self _
  obtain ⟨m, hm, n, hn, hne, heq⟩ := Finset.exists_ne_map_eq_of_card_lt_of_maps_to hcard hmaps
  obtain ⟨id, hid⟩ := hknown m (Finset.mem_range.1 hm)
  obtain ⟨id', hid'⟩ := hknown n (Finset.mem_range.1 hn)
  have heq : ((self.byHash (rootCommit m).commitHash).map fun id => id.index.toNat).getD 0 =
      ((self.byHash (rootCommit n).commitHash).map fun id => id.index.toNat).getD 0 := heq
  rw [hid, hid'] at heq
  have hindex : id.index.toNat = id'.index.toNat := heq
  have hsame : id = id' := congrArg EnrichedCommitId.mk (UInt32.toNat_inj.1 hindex)
  rw [hsame] at hid
  exact hne (rootCommit_inj (Finset.mem_range.1 hm) (Finset.mem_range.1 hn) (injective_byHash hid hid'))

/-- **Too many commits**: no entry is returned for the empty graph and these commits. -/
theorem from_commits_too_many : Built .new ∧ manyCommits ≠ [] ∧ ParentsFirst .new manyCommits ∧
    ∃ later, GitGraphData.new.fromCommits "HEAD" manyCommits = (later, .err .moreThanU32Commits) := by
  have hfirst : ParentsFirst .new manyCommits := by
    intro before commit after heq p hp
    have hmem : commit ∈ manyCommits := by
      rw [heq]
      exact List.mem_append_right _ List.mem_cons_self
    obtain ⟨n, -, rfl⟩ := List.mem_map.1 hmem
    cases hp
  refine ⟨.new, ?_, hfirst, ?_⟩
  · intro hnil
    obtain ⟨c, hc, -⟩ := exists_unknown .new
    rw [hnil] at hc
    cases hc
  · obtain ⟨later, added, -, hcases⟩ := addCommits_spec .new hfirst none
    rcases hcases with ⟨heq, hall⟩ | ⟨heq, -⟩
    · obtain ⟨c, hc, hnone⟩ := exists_unknown later
      have hsome := hall c hc
      rw [hnone] at hsome
      cases hsome
    · refine ⟨later, ?_⟩
      rw [fromCommits, heq]

end GitGraphData

end Evobench.Git

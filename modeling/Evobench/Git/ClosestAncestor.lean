import Evobench.Git.GraphData
import Evobench.Library.LastMaximum
import Evobench.Library.NewestFirst
import Mathlib.Data.Finset.Lattice.Fold
import Mathlib.Order.Lattice.Nat

/-!
# The closest matching ancestor

`GitGraphData::closest_matching_ancestor_of` (src/git.rs) searches a commit graph from a commit back to its ancestors. The
commits that it looks at next are in a hash set, whose order of iteration is any order (`IterOrder`), and it may be another one
in each round.

## What is proved

* `ancestor_search`: the search ends, it finds a commit exactly if there is one, and what it finds matches and is an ancestor or
  the commit itself.
* `latest_ancestor_iff`: when it finds a latest matching ancestor.

The search is an instance of `Library.NewestFirst`, see `searchRound_spec` and `searchLoop_spec`.
-/

namespace Evobench.Git

open Library

/-- An order in which a `HashSet` may be iterated. -/
structure IterOrder (α : Type) where
  /-- The elements in this order. -/
  order : Finset α → List α
  /-- Each once. -/
  nodup : ∀ s, (order s).Nodup
  /-- All of them. -/
  mem_order : ∀ s a, a ∈ order s ↔ a ∈ s

/-- `seen_commit_ids` and `current_commits` -/
abbrev SearchState := NewestFirst.State EnrichedCommitId

/-- Insert a parent into `current_commits` if it was not seen. -/
def insertParent (s : SearchState) (commitId : EnrichedCommitId) : SearchState :=
  if commitId ∈ s.seen then s else ⟨insert commitId s.seen, insert commitId s.current⟩

namespace GitGraphData

/-- `get_id` -/
def getId (self : GitGraphData) (id : EnrichedCommitId) : Outcome String (EnrichedGitCommit EnrichedCommitId) :=
  match self.get id with
  | some ecommit => .ok ecommit
  | none => .panic "internal consistency"

/-- The one with the greatest commit time, if there is one. -/
def maxByTime (self : GitGraphData) (ids : List EnrichedCommitId) : Outcome String (Option EnrichedCommitId) := do
  let keyed ← ids.mapM fun id => do
    let ecommit ← self.getId id
    pure (ecommit.commit.committerTime, id)
  pure ((maxByKey Prod.fst keyed).map Prod.snd)

/-- One round of the loop: the result, or the next state. -/
def searchRound (self : GitGraphData) (isMatch : EnrichedCommitId → Bool) (iter : IterOrder EnrichedCommitId)
    (s : SearchState) : Outcome String (Option EnrichedCommitId ⊕ SearchState) :=
  if s.current = ∅ then .ok (.inl none)
  else do
    -- Of all the current commits that match the filter, return the newest one, if any.
    match ← self.maxByTime ((iter.order s.current).filter isMatch) with
    | some matchingId => pure (.inl (some matchingId))
    | none =>
      -- Of all the current commits follow the newest one back to its parents.
      match ← self.maxByTime (iter.order s.current) with
      | some commitIdToFollow => do
        let commitToFollow ← self.getId commitIdToFollow
        let s : SearchState := ⟨s.seen, s.current.erase commitIdToFollow⟩
        pure (.inr (commitToFollow.commit.parents.foldl insertParent s))
      | none => .panic "exiting before here when current_commits is empty"

/-- The loop, for as many rounds as there is fuel. -/
def searchLoop (self : GitGraphData) (isMatch : EnrichedCommitId → Bool) :
    ℕ → (ℕ → IterOrder EnrichedCommitId) → SearchState → Option (Outcome String (Option EnrichedCommitId))
  | 0, _, _ => none
  | fuel + 1, iters, s =>
    match self.searchRound isMatch (iters 0) s with
    | .ok (.inl r) => some (.ok r)
    | .ok (.inr s') => searchLoop self isMatch fuel (fun n => iters (n + 1)) s'
    | .err e => some (.err e)
    | .panic msg => some (.panic msg)

/-- `closest_matching_ancestor_of`, where `iters n` is the order in which the current commits are iterated in round `n`. -/
def closestMatchingAncestorOf (self : GitGraphData) (iters : ℕ → IterOrder EnrichedCommitId) (forId : EnrichedCommitId)
    (isMatch : EnrichedCommitId → Bool) (fuel : ℕ) : Option (Outcome String (Option EnrichedCommitId)) :=
  match self.get forId with
  | some _ => self.searchLoop isMatch fuel iters (.start forId)
  | none => some (.err "invalid parent_id")

/-! ### What the search is about -/

/-- The parents of a commit. -/
def parentsOf (self : GitGraphData) (id : EnrichedCommitId) : Finset EnrichedCommitId :=
  (((self.get id).map (·.commit.parents)).getD []).toFinset

/-- The commit time. -/
def committerTime (self : GitGraphData) (id : EnrichedCommitId) : Unixtime :=
  ((self.get id).map (·.commit.committerTime)).getD ⟨0⟩

/-- `id` is the commit itself or an ancestor. -/
abbrev AncestorOrSelf (self : GitGraphData) (forId id : EnrichedCommitId) : Prop :=
  NewestFirst.Reaches self.parentsOf forId id

/-! ### One round -/

variable {self : GitGraphData} {isMatch : EnrichedCommitId → Bool} {s : SearchState}

theorem mem_parentsOf {id p : EnrichedCommitId} :
    p ∈ self.parentsOf id ↔ ∃ ecommit, self.get id = some ecommit ∧ p ∈ ecommit.commit.parents := by
  rw [parentsOf, List.mem_toFinset]
  cases self.get id with
  | none => simp
  | some ecommit => simp

theorem maxByTime_eq {ids : List EnrichedCommitId} (h : ∀ id ∈ ids, (self.get id).isSome) :
    self.maxByTime ids = .ok (maxByKey self.committerTime ids) := by
  have hkeyed : (ids.mapM fun id => do
      let ecommit ← self.getId id
      pure (ecommit.commit.committerTime, id)) = Outcome.ok (ids.map fun id => (self.committerTime id, id)) := by
    induction ids with
    | nil => rfl
    | cons id ids ih =>
      obtain ⟨ecommit, hget⟩ := Option.isSome_iff_exists.1 (h id List.mem_cons_self)
      have hid : self.getId id = .ok ecommit := by rw [getId, hget]
      have htime : self.committerTime id = ecommit.commit.committerTime := by rw [committerTime, hget]; rfl
      rw [List.mapM_cons, ih fun id' hid' => h id' (List.mem_cons_of_mem _ hid'), hid, List.map_cons, htime]
      rfl
  rw [maxByTime, hkeyed, Outcome.ok_bind, maxByKey_keyed]
  rfl

theorem foldl_insertParent (ps : List EnrichedCommitId) (s : SearchState) :
    ps.foldl insertParent s = ⟨s.seen ∪ ps.toFinset, s.current ∪ (ps.toFinset \ s.seen)⟩ := by
  induction ps generalizing s with
  | nil => simp
  | cons p ps ih =>
    rw [List.foldl_cons, ih, insertParent]
    split
    · next hseen =>
      congr 1
      · ext id
        simp only [Finset.mem_union, List.toFinset_cons, Finset.mem_insert]
        grind
      · ext id
        simp only [Finset.mem_union, Finset.mem_sdiff, List.toFinset_cons, Finset.mem_insert]
        grind
    · next hseen =>
      congr 1
      · ext id
        simp only [Finset.mem_union, List.toFinset_cons, Finset.mem_insert]
        grind
      · ext id
        simp only [Finset.mem_union, Finset.mem_sdiff, List.toFinset_cons, Finset.mem_insert]
        grind

/-- **One round**: nothing is left, a newest matching commit is returned, or a newest commit is followed. -/
theorem searchRound_spec (isMatch : EnrichedCommitId → Bool) (h : ∀ id ∈ s.current, (self.get id).isSome)
    (iter : IterOrder EnrichedCommitId) :
    (s.current = ∅ ∧ self.searchRound isMatch iter s = .ok (.inl none)) ∨
      (∃ id, maxByKey self.committerTime ((iter.order s.current).filter isMatch) = some id ∧
        self.searchRound isMatch iter s = .ok (.inl (some id))) ∨
      ((∀ id ∈ s.current, isMatch id = false) ∧ ∃ id, maxByKey self.committerTime (iter.order s.current) = some id ∧
        self.searchRound isMatch iter s = .ok (.inr (s.follow self.parentsOf id))) := by
  rw [searchRound]
  split
  · next hempty => exact .inl ⟨hempty, rfl⟩
  · next hne =>
    have hstored : ∀ id ∈ iter.order s.current, (self.get id).isSome := fun id hid => h id ((iter.mem_order _ _).1 hid)
    rw [maxByTime_eq fun id hid => hstored id (List.mem_of_mem_filter hid), maxByTime_eq hstored]
    cases hmatch : maxByKey self.committerTime ((iter.order s.current).filter isMatch) with
    | some id => exact .inr (.inl ⟨id, rfl, rfl⟩)
    | none =>
      have hnone : ∀ id ∈ s.current, isMatch id = false := by
        intro id hid
        have hfilter := maxByKey_eq_none.1 hmatch
        rw [List.filter_eq_nil_iff] at hfilter
        exact Bool.eq_false_iff.2 (hfilter id ((iter.mem_order _ _).2 hid))
      refine .inr (.inr ⟨hnone, ?_⟩)
      cases hnewest : maxByKey self.committerTime (iter.order s.current) with
      | none =>
        obtain ⟨id, hid⟩ := Finset.nonempty_iff_ne_empty.2 hne
        have hmem := (iter.mem_order _ _).2 hid
        rw [maxByKey_eq_none.1 hnewest] at hmem
        cases hmem
      | some id =>
        obtain ⟨ecommit, hget⟩ := Option.isSome_iff_exists.1 (hstored id (maxByKey_spec hnewest).1)
        refine ⟨id, rfl, ?_⟩
        rw [Outcome.ok_bind]
        dsimp only
        rw [Outcome.ok_bind]
        dsimp only
        rw [show self.getId id = .ok ecommit by rw [getId, hget], Outcome.ok_bind, foldl_insertParent,
          NewestFirst.State.follow, show self.parentsOf id = ecommit.commit.parents.toFinset by rw [parentsOf, hget]; rfl]
        rfl

/-! ### The loop -/

/-- Every commit the search can reach is stored. -/
theorem isSome_get_of_reaches {forId id : EnrichedCommitId} (h : (self.get forId).isSome)
    (hid : self.AncestorOrSelf forId id) : (self.get id).isSome := by
  induction hid with
  | refl => exact h
  | tail _ hp _ =>
    obtain ⟨ecommit, hget, hmem⟩ := mem_parentsOf.1 hp
    exact isSome_get_parent hget hmem

/-- The ids of the stored commits. -/
def storedIds (self : GitGraphData) : Finset EnrichedCommitId :=
  (Finset.range self.ecommits.length).image fun i => ⟨UInt32.ofNat i⟩

theorem mem_storedIds {id : EnrichedCommitId} (h : (self.get id).isSome) : id ∈ self.storedIds := by
  refine Finset.mem_image.2 ⟨id.index.toNat, Finset.mem_range.2 (isSome_get.1 h), ?_⟩
  rw [UInt32.ofNat_toNat]

theorem card_storedIds (self : GitGraphData) : self.storedIds.card ≤ self.ecommits.length :=
  Finset.card_image_le.trans_eq (Finset.card_range _)

theorem parentsOf_subset_storedIds (self : GitGraphData) (id : EnrichedCommitId) : self.parentsOf id ⊆ self.storedIds := by
  intro p hp
  obtain ⟨ecommit, hget, hmem⟩ := mem_parentsOf.1 hp
  exact mem_storedIds (isSome_get_parent hget hmem)

/-- The state of a search from a commit. -/
abbrev SearchFrom (self : GitGraphData) (isMatch : EnrichedCommitId → Bool) (forId : EnrichedCommitId)
    (s : SearchState) : Prop :=
  NewestFirst.Sound self.parentsOf (fun id => isMatch id = true) forId s

/-- What the search may find from a state. -/
abbrev MayFind (self : GitGraphData) (isMatch : EnrichedCommitId → Bool) (s : SearchState)
    (r : Option EnrichedCommitId) : Prop :=
  NewestFirst.Finds self.parentsOf self.committerTime (fun id => isMatch id = true) s r

section Loop

variable {forId : EnrichedCommitId}

theorem isSome_get_of_current (hfor : (self.get forId).isSome) (h : self.SearchFrom isMatch forId s) :
    ∀ id ∈ s.current, (self.get id).isSome :=
  fun id hid => isSome_get_of_reaches hfor (h.reaches id (h.current hid))

theorem isNewest_of_maxByKey {iter : IterOrder EnrichedCommitId} {id : EnrichedCommitId}
    (h : maxByKey self.committerTime (iter.order s.current) = some id) :
    NewestFirst.IsNewest self.committerTime {id' | id' ∈ s.current} id := by
  obtain ⟨hmem, hmax⟩ := maxByKey_spec h
  exact ⟨(iter.mem_order _ _).1 hmem, fun id' hid' => hmax id' ((iter.mem_order _ _).2 hid')⟩

theorem isNewest_of_maxByKey_filter {iter : IterOrder EnrichedCommitId} {id : EnrichedCommitId}
    (h : maxByKey self.committerTime ((iter.order s.current).filter isMatch) = some id) :
    NewestFirst.IsNewest self.committerTime {id' | id' ∈ s.current ∧ isMatch id' = true} id := by
  obtain ⟨hmem, hmax⟩ := maxByKey_spec h
  obtain ⟨hid, hmatch⟩ := List.mem_filter.1 hmem
  refine ⟨⟨(iter.mem_order _ _).1 hid, hmatch⟩, fun id' hid' => hmax id' ?_⟩
  exact List.mem_filter.2 ⟨(iter.mem_order _ _).2 hid'.1, hid'.2⟩

/-- **The loop ends** with something that the search may find, if there is fuel for a round for each commit that is not
seen or current. -/
theorem searchLoop_spec (isMatch : EnrichedCommitId → Bool) (hfor : (self.get forId).isSome)
    (h : self.SearchFrom isMatch forId s) {fuel : ℕ}
    (hfuel : (self.storedIds \ s.seen).card + s.current.card < fuel) (iters : ℕ → IterOrder EnrichedCommitId) :
    ∃ r, self.searchLoop isMatch fuel iters s = some (.ok r) ∧ self.MayFind isMatch s r := by
  induction fuel generalizing s iters with
  | zero => omega
  | succ fuel ih =>
    rw [searchLoop]
    rcases searchRound_spec isMatch (isSome_get_of_current hfor h) (iters 0) with
      ⟨hempty, hround⟩ | ⟨id, hmax, hround⟩ | ⟨hnone, id, hmax, hround⟩
    · rw [hround]
      exact ⟨none, rfl, .exhausted hempty⟩
    · rw [hround]
      exact ⟨some id, rfl, .found (isNewest_of_maxByKey_filter hmax)⟩
    · rw [hround]
      have hnewest := isNewest_of_maxByKey hmax
      have hmisses : ∀ id' ∈ s.current, ¬ isMatch id' = true := fun id' hid' => by rw [hnone id' hid']; exact nofun
      have hmeasure := NewestFirst.measure_follow h.current hnewest.1 (parentsOf_subset_storedIds self id)
      obtain ⟨r, hloop, hfinds⟩ := ih (h.follow hnewest.1 (hmisses id hnewest.1)) (by omega) fun n => iters (n + 1)
      exact ⟨r, hloop, .follow hmisses hnewest hfinds⟩

/-- A set can be iterated with a given element last. -/
theorem exists_iterOrder (id : EnrichedCommitId) :
    ∃ iter : IterOrder EnrichedCommitId, ∀ ids, id ∈ ids → ∃ front, iter.order ids = front ++ [id] := by
  classical
  refine ⟨⟨fun ids => if id ∈ ids then (ids.erase id).toList ++ [id] else ids.toList, fun ids => ?_, fun ids id' => ?_⟩,
    fun ids hid => ⟨(ids.erase id).toList, if_pos hid⟩⟩
  · split
    · rw [List.nodup_append]
      refine ⟨Finset.nodup_toList _, List.nodup_singleton id, fun a ha b hb => ?_⟩
      rw [List.mem_singleton.1 hb]
      exact Finset.ne_of_mem_erase (Finset.mem_toList.1 ha)
    · exact Finset.nodup_toList ids
  · split
    · next hid =>
      rw [List.mem_append, Finset.mem_toList, Finset.mem_erase, List.mem_singleton]
      constructor
      · rintro (⟨-, hmem⟩ | rfl)
        · exact hmem
        · exact hid
      · intro hmem
        exact (eq_or_ne id' id).elim .inr fun hne => .inl ⟨hne, hmem⟩
    · exact Finset.mem_toList

/-- An order for the first round, and orders for the others. -/
def consIters {α : Type} (iter : IterOrder α) (iters : ℕ → IterOrder α) : ℕ → IterOrder α
  | 0 => iter
  | n + 1 => iters n

/-- **Everything the search may find is found** with some order of iteration. -/
theorem exists_searchLoop (hfor : (self.get forId).isSome) {r : Option EnrichedCommitId} (hfinds : self.MayFind isMatch s r)
    (h : self.SearchFrom isMatch forId s) : ∃ iters, ∀ fuel, (self.storedIds \ s.seen).card + s.current.card < fuel →
      self.searchLoop isMatch fuel iters s = some (.ok r) := by
  induction hfinds with
  | @exhausted s hempty =>
    obtain ⟨iter, -⟩ := exists_iterOrder forId
    refine ⟨fun _ => iter, fun fuel hfuel => ?_⟩
    obtain ⟨fuel, rfl⟩ := Nat.exists_eq_add_of_lt hfuel
    rw [searchLoop, searchRound, if_pos hempty]
  | @found s id hnewest =>
    obtain ⟨iter, hiter⟩ := exists_iterOrder id
    refine ⟨fun _ => iter, fun fuel hfuel => ?_⟩
    obtain ⟨fuel, rfl⟩ := Nat.exists_eq_add_of_lt hfuel
    obtain ⟨front, hfront⟩ := hiter s.current hnewest.1.1
    have hmax : maxByKey self.committerTime ((iter.order s.current).filter isMatch) = some id := by
      rw [hfront, List.filter_append, List.filter_cons_of_pos hnewest.1.2, List.filter_nil]
      refine maxByKey_concat fun id' hid' => hnewest.2 id' ⟨?_, (List.mem_filter.1 hid').2⟩
      rw [← iter.mem_order, hfront]
      exact List.mem_append_left _ (List.mem_filter.1 hid').1
    rw [searchLoop]
    rcases searchRound_spec isMatch (isSome_get_of_current hfor h) iter with
      ⟨hempty, -⟩ | ⟨id', hmax', hround⟩ | ⟨hnone, -⟩
    · have hmem := hnewest.1.1
      rw [hempty] at hmem
      cases hmem
    · rw [hround]
      rw [hmax] at hmax'
      rw [Option.some.inj hmax']
    · exact absurd hnewest.1.2 (by rw [hnone id hnewest.1.1]; exact nofun)
  | @follow s id r hnone hnewest _ ih =>
    obtain ⟨iters, hiters⟩ := ih (h.follow hnewest.1 (hnone id hnewest.1))
    obtain ⟨iter, hiter⟩ := exists_iterOrder id
    refine ⟨consIters iter iters, fun fuel hfuel => ?_⟩
    obtain ⟨fuel, rfl⟩ := Nat.exists_eq_add_of_lt hfuel
    obtain ⟨front, hfront⟩ := hiter s.current hnewest.1
    have hmax : maxByKey self.committerTime (iter.order s.current) = some id := by
      rw [hfront]
      refine maxByKey_concat fun id' hid' => hnewest.2 id' ?_
      show id' ∈ s.current
      rw [← iter.mem_order, hfront]
      exact List.mem_append_left _ hid'
    have hmeasure := NewestFirst.measure_follow h.current hnewest.1 (parentsOf_subset_storedIds self id)
    rw [searchLoop]
    rcases searchRound_spec isMatch (isSome_get_of_current hfor h) iter with
      ⟨hempty, -⟩ | ⟨id', hmax', -⟩ | ⟨-, id', hmax', hround⟩
    · have hmem := hnewest.1
      rw [Set.mem_ofPred_eq, hempty] at hmem
      cases hmem
    · have hmem := isNewest_of_maxByKey_filter hmax'
      exact absurd hmem.1.2 (hnone id' hmem.1.1)
    · have hfirst : self.searchRound isMatch (consIters iter iters 0) s = _ := hround
      rw [hfirst]
      rw [hmax] at hmax'
      obtain rfl := Option.some.inj hmax'
      exact hiters _ (by omega)

/-- More fuel changes nothing. -/
theorem searchLoop_mono {fuel fuel' : ℕ} {iters : ℕ → IterOrder EnrichedCommitId}
    {x : Outcome String (Option EnrichedCommitId)} (hle : fuel ≤ fuel')
    (h : self.searchLoop isMatch fuel iters s = some x) : self.searchLoop isMatch fuel' iters s = some x := by
  induction fuel generalizing s iters fuel' with
  | zero => cases h
  | succ fuel ih =>
    obtain ⟨fuel', rfl⟩ := Nat.exists_eq_add_of_le' (Nat.le_trans (Nat.succ_le_succ (Nat.zero_le fuel)) hle)
    rw [searchLoop] at h ⊢
    cases hround : self.searchRound isMatch (iters 0) s with
    | ok next =>
      rw [hround] at h
      cases next with
      | inl r => exact h
      | inr s' => exact ih (Nat.le_of_succ_le_succ hle) h
    | err e =>
      rw [hround] at h
      exact h
    | panic msg =>
      rw [hround] at h
      exact h

/-- At the start there are enough rounds for all commits. -/
theorem measure_start (hfor : (self.get forId).isSome) {fuel : ℕ} (hfuel : self.ecommits.length < fuel) :
    (self.storedIds \ (NewestFirst.State.start forId).seen).card + (NewestFirst.State.start forId).current.card < fuel := by
  have hmem := mem_storedIds hfor
  have hcard := Finset.card_sdiff_add_card_eq_card (Finset.singleton_subset_iff.2 hmem)
  have hle := card_storedIds self
  show (self.storedIds \ {forId}).card + ({forId} : Finset EnrichedCommitId).card < fuel
  omega

theorem closestMatchingAncestorOf_spec (hfor : (self.get forId).isSome) (isMatch : EnrichedCommitId → Bool)
    (iters : ℕ → IterOrder EnrichedCommitId) :
    ∃ r, self.MayFind isMatch (.start forId) r ∧ ∀ fuel, self.ecommits.length < fuel →
      self.closestMatchingAncestorOf iters forId isMatch fuel = some (.ok r) := by
  obtain ⟨ecommit, hget⟩ := Option.isSome_iff_exists.1 hfor
  have hlength := measure_start hfor (Nat.lt_succ_self self.ecommits.length)
  obtain ⟨r, hloop, hfinds⟩ := searchLoop_spec isMatch hfor .of_start hlength iters
  refine ⟨r, hfinds, fun fuel hfuel => ?_⟩
  rw [closestMatchingAncestorOf, hget]
  exact searchLoop_mono hfuel hloop

theorem exists_closestMatchingAncestorOf (hfor : (self.get forId).isSome) {r : Option EnrichedCommitId}
    (hfinds : self.MayFind isMatch (.start forId) r) : ∃ iters, ∀ fuel, self.ecommits.length < fuel →
      self.closestMatchingAncestorOf iters forId isMatch fuel = some (.ok r) := by
  obtain ⟨ecommit, hget⟩ := Option.isSome_iff_exists.1 hfor
  obtain ⟨iters, hloop⟩ := exists_searchLoop hfor hfinds .of_start
  refine ⟨iters, fun fuel hfuel => ?_⟩
  rw [closestMatchingAncestorOf, hget]
  exact hloop fuel (measure_start hfor hfuel)

end Loop

/-! ### What is found -/

/-- The matching commits among a commit and its ancestors. -/
def MatchingAncestors (self : GitGraphData) (isMatch : EnrichedCommitId → Bool) (forId : EnrichedCommitId) :
    Set EnrichedCommitId :=
  {id | self.AncestorOrSelf forId id ∧ isMatch id = true}

/-- **The search is sound and complete**: it ends, it finds a commit exactly if there is a matching ancestor, and that is what it
finds. -/
theorem ancestor_search (self : GitGraphData) {forId : EnrichedCommitId} (hfor : (self.get forId).isSome)
    (isMatch : EnrichedCommitId → Bool) (iters : ℕ → IterOrder EnrichedCommitId) :
    ∃ r, (∀ fuel, self.ecommits.length < fuel →
        self.closestMatchingAncestorOf iters forId isMatch fuel = some (.ok r)) ∧
      (r.isSome ↔ (self.MatchingAncestors isMatch forId).Nonempty) ∧
      ∀ id, r = some id → id ∈ self.MatchingAncestors isMatch forId := by
  obtain ⟨r, hfinds, hr⟩ := closestMatchingAncestorOf_spec hfor isMatch iters
  have hsound := hfinds.sound .of_start
  refine ⟨r, hr, ?_, hsound⟩
  cases r with
  | none =>
    have hcomplete := hfinds.complete .of_start rfl
    refine ⟨nofun, ?_⟩
    rintro ⟨id, hreaches, hmatch⟩
    exact absurd hmatch (hcomplete id hreaches)
  | some id => exact ⟨fun _ => ⟨id, hsound id rfl⟩, fun _ => rfl⟩

/-- Commit times strictly increase from parent to child. -/
def TimesIncrease (self : GitGraphData) : Prop :=
  ∀ id, ∀ p ∈ self.parentsOf id, self.committerTime p < self.committerTime id

/-- Latest matching: no matching ancestor has a later commit time. -/
def IsLatestMatching (self : GitGraphData) (isMatch : EnrichedCommitId → Bool) (forId id : EnrichedCommitId) : Prop :=
  NewestFirst.IsNewest self.committerTime (self.MatchingAncestors isMatch forId) id

/-- The commits among a commit and its ancestors that have a matching parent. -/
def MatchingChildren (self : GitGraphData) (isMatch : EnrichedCommitId → Bool) (forId : EnrichedCommitId) :
    Set EnrichedCommitId :=
  NewestFirst.Children self.parentsOf (fun id => isMatch id = true) forId

/-- **The documented behaviour**: in whatever order the hash sets are iterated, a latest matching ancestor is found, and no
other matching ancestor is a descendant of it. -/
def FindsLatest (self : GitGraphData) (isMatch : EnrichedCommitId → Bool) (forId : EnrichedCommitId) : Prop :=
  ∀ iters fuel, self.ecommits.length < fuel → ∃ id,
    self.closestMatchingAncestorOf iters forId isMatch fuel = some (.ok (some id)) ∧
      self.IsLatestMatching isMatch forId id ∧
      ∀ id' ∈ self.MatchingAncestors isMatch forId, id' ≠ id → ¬ self.AncestorOrSelf id' id

/-- **A latest matching ancestor is found** exactly if the commit itself matches, or the newest of the commits that have a
matching parent are children of a latest one. -/
theorem latest_ancestor_iff (self : GitGraphData) {forId : EnrichedCommitId} (hfor : (self.get forId).isSome)
    (isMatch : EnrichedCommitId → Bool) (htimes : self.TimesIncrease)
    (hmatch : (self.MatchingAncestors isMatch forId).Nonempty) :
    self.FindsLatest isMatch forId ↔ isMatch forId = true ∨
      ∀ child, NewestFirst.IsNewest self.committerTime (self.MatchingChildren isMatch forId) child →
        ∃ p ∈ self.parentsOf child, self.IsLatestMatching isMatch forId p := by
  have hfinds_iff : ∀ {id}, self.MayFind isMatch (.start forId) (some id) ↔ _ :=
    NewestFirst.finds_start_iff (fun id _ => parentsOf_subset_storedIds self id) (mem_storedIds hfor) htimes
  constructor
  · intro h
    by_cases hself : isMatch forId = true
    · exact .inl hself
    · refine .inr fun child hchild => ?_
      obtain ⟨p, hp⟩ := NewestFirst.exists_isNewest hchild.1.2 self.committerTime
      obtain ⟨iters, hiters⟩ := exists_closestMatchingAncestorOf hfor (hfinds_iff.2 (.inr ⟨hself, child, hchild, hp⟩))
      obtain ⟨id, hid, hlatest, -⟩ := h iters _ (Nat.lt_succ_self _)
      rw [hiters _ (Nat.lt_succ_self _)] at hid
      obtain rfl : p = id := Option.some.inj (Outcome.ok.inj (Option.some.inj hid))
      exact ⟨p, hp.1.1, hlatest⟩
  · intro h iters fuel hfuel
    obtain ⟨r, hfinds, hr⟩ := closestMatchingAncestorOf_spec hfor isMatch iters
    cases r with
    | none =>
      obtain ⟨id, hreaches, hid⟩ := hmatch
      exact absurd hid (hfinds.complete .of_start rfl id hreaches)
    | some id =>
      have hlatest : self.IsLatestMatching isMatch forId id := by
        have hid := hfinds.sound .of_start id rfl
        refine ⟨hid, fun id' hid' => ?_⟩
        rcases hfinds_iff.1 hfinds with ⟨-, rfl⟩ | ⟨hself, child, hchild, hnewest⟩
        · exact NewestFirst.le_of_reaches htimes hid'.1
        · rcases h with h | h
          · exact absurd h hself
          · obtain ⟨p, hp, hlatest⟩ := h child hchild
            exact (hlatest.2 id' hid').trans (hnewest.2 p ⟨hp, hlatest.1.2⟩)
      refine ⟨id, hr fuel hfuel, hlatest, fun id' hid' hne hreaches => ?_⟩
      have hlt := NewestFirst.lt_of_reaches htimes hreaches (Ne.symm hne)
      exact absurd (hlatest.2 id' hid') (not_le.2 hlt)

/-! ### A merge of an old branch -/

/-- Ids in ascending order. -/
def ascending : IterOrder EnrichedCommitId where
  order s := ((List.range (s.sup (·.index.toNat) + 1)).filter fun n => ⟨UInt32.ofNat n⟩ ∈ s ∧ n < UInt32.size).map
    fun n => ⟨UInt32.ofNat n⟩
  nodup s := by
    refine List.Nodup.map_on (fun a ha b hb h => ?_) (List.nodup_range.filter _)
    have ha := of_decide_eq_true (List.mem_filter.1 ha).2
    have hb := of_decide_eq_true (List.mem_filter.1 hb).2
    rw [← UInt32.toNat_ofNat_of_lt' ha.2, ← UInt32.toNat_ofNat_of_lt' hb.2, EnrichedCommitId.mk.inj h]
  mem_order s id := by
    rw [List.mem_map]
    simp only [List.mem_filter, List.mem_range, decide_eq_true_eq]
    constructor
    · rintro ⟨n, ⟨-, hn, -⟩, rfl⟩
      exact hn
    · intro hid
      have hle := Finset.le_sup (f := fun id : EnrichedCommitId => id.index.toNat) hid
      have hlt : id.index.toNat < UInt32.size := id.index.toNat_lt
      refine ⟨id.index.toNat, ⟨Nat.lt_succ_of_le hle, ?_, hlt⟩, ?_⟩
      · rwa [UInt32.ofNat_toNat]
      · rw [UInt32.ofNat_toNat]

/-- Ids in descending order. -/
def descending : IterOrder EnrichedCommitId where
  order s := (ascending.order s).reverse
  nodup s := List.nodup_reverse.2 (ascending.nodup s)
  mem_order s id := List.mem_reverse.trans (ascending.mem_order s id)

/-- The graph after storing commits. -/
def pushAll (self : GitGraphData) : List (GitCommit EnrichedCommitId) → GitGraphData
  | [] => self
  | commit :: commits =>
    match self.uncheckedPush commit with
    | .ok (self', _) => self'.pushAll commits
    | _ => self

/-- A commit at a time. -/
def sampleCommit (number : BitVec 160) (time : UInt64) (parents : List UInt32) : GitCommit EnrichedCommitId where
  commitHash := ⟨number⟩
  authorTime := ⟨time⟩
  committerTime := ⟨time⟩
  parents := parents.map EnrichedCommitId.mk

/-- The commits 0, 1, 2, 3 are a branch, and 3 merges 0 once more. -/
def mergeGraph : GitGraphData :=
  new.pushAll [sampleCommit 100 5 [], sampleCommit 101 8 [0], sampleCommit 102 9 [1], sampleCommit 103 10 [2, 0]]

/-- There are datasets for 0 and 1. -/
def isMatchSample (id : EnrichedCommitId) : Bool := id.index ≤ 1

theorem mergeGraph_times : mergeGraph.TimesIncrease := by
  intro id p hp
  obtain ⟨ecommit, hget, hmem⟩ := mem_parentsOf.1 hp
  have hlt := isSome_get.1 (Option.isSome_iff_exists.2 ⟨ecommit, hget⟩)
  have hall : ∀ i < 4, ∀ p ∈ mergeGraph.parentsOf ⟨UInt32.ofNat i⟩,
      mergeGraph.committerTime p < mergeGraph.committerTime ⟨UInt32.ofNat i⟩ := by decide +kernel
  have hid := hall id.index.toNat hlt
  rw [UInt32.ofNat_toNat] at hid
  exact hid p hp

theorem one_mem_mergeGraph : (⟨1⟩ : EnrichedCommitId) ∈ mergeGraph.MatchingAncestors isMatchSample ⟨3⟩ := by
  have hfirst : (⟨2⟩ : EnrichedCommitId) ∈ mergeGraph.parentsOf ⟨3⟩ := by decide +kernel
  have hsecond : (⟨1⟩ : EnrichedCommitId) ∈ mergeGraph.parentsOf ⟨2⟩ := by decide +kernel
  exact ⟨(Relation.ReflTransGen.single hfirst).tail hsecond, rfl⟩

/-- In the sample, a commit is found. -/
theorem ancestor_search_sample :
    ∃ id, mergeGraph.closestMatchingAncestorOf (fun _ => ascending) ⟨3⟩ isMatchSample 5 = some (.ok (some id)) := by
  obtain ⟨r, hr, hsome, -⟩ := @ancestor_search mergeGraph ⟨3⟩ (by decide +kernel) isMatchSample fun _ => ascending
  obtain ⟨id, rfl⟩ := Option.isSome_iff_exists.1 (hsome.2 ⟨_, one_mem_mergeGraph⟩)
  exact ⟨id, hr 5 (by decide +kernel)⟩

/-- From the commit 2, which does not match, the latest matching ancestor is found: 2 is the newest commit with a matching
parent. -/
theorem latest_ancestor_sample : mergeGraph.FindsLatest isMatchSample ⟨2⟩ := by
  have hparents : mergeGraph.parentsOf ⟨2⟩ = {⟨1⟩} := by decide +kernel
  have hone : (⟨1⟩ : EnrichedCommitId) ∈ mergeGraph.parentsOf ⟨2⟩ := by rw [hparents, Finset.mem_singleton]
  have hreached : mergeGraph.AncestorOrSelf ⟨2⟩ ⟨1⟩ := .single hone
  refine (latest_ancestor_iff mergeGraph (by decide +kernel) isMatchSample mergeGraph_times ⟨_, hreached, rfl⟩).2 (.inr ?_)
  intro child hchild
  obtain rfl : child = ⟨2⟩ := by
    by_contra hne
    have hlt := NewestFirst.lt_of_reaches mergeGraph_times hchild.1.1 hne
    exact absurd (hchild.2 ⟨2⟩ ⟨.refl, ⟨1⟩, hone, rfl⟩) (not_le.2 hlt)
  refine ⟨⟨1⟩, hone, ⟨hreached, rfl⟩, ?_⟩
  rintro id ⟨hid, hmatch⟩
  rcases Relation.ReflTransGen.cases_head hid with rfl | ⟨c, hc, hrest⟩
  · exact absurd hmatch (by decide)
  · rw [hparents, Finset.mem_singleton] at hc
    exact NewestFirst.le_of_reaches mergeGraph_times (hc ▸ hrest)

/-- The commit 1 matches and is a later ancestor than 0, and a descendant of it; 0 is found. -/
theorem older_ancestor_found : ¬ ∀ (self : GitGraphData) (forId : EnrichedCommitId) (isMatch : EnrichedCommitId → Bool),
    (self.get forId).isSome → self.TimesIncrease → (self.MatchingAncestors isMatch forId).Nonempty →
      self.FindsLatest isMatch forId := by
  intro hall
  have hone := one_mem_mergeGraph
  obtain ⟨id, hid, hlatest, -⟩ := hall mergeGraph ⟨3⟩ isMatchSample (by decide +kernel) mergeGraph_times ⟨_, hone⟩
    (fun _ => ascending) 5 (by decide +kernel)
  have hfound : mergeGraph.closestMatchingAncestorOf (fun _ => ascending) ⟨3⟩ isMatchSample 5 =
      some (.ok (some ⟨0⟩)) := by decide +kernel
  rw [hfound] at hid
  obtain rfl : (⟨0⟩ : EnrichedCommitId) = id := Option.some.inj (Outcome.ok.inj (Option.some.inj hid))
  have hlater : mergeGraph.committerTime ⟨0⟩ < mergeGraph.committerTime ⟨1⟩ := by decide +kernel
  exact absurd (hlatest.2 _ hone) (not_le.2 hlater)

end GitGraphData

end Evobench.Git

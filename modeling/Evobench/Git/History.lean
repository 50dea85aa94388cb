import Evobench.Git.ClosestAncestor
import Evobench.Library.DepthFirst

/-!
# The history of a commit

`history_as_btreeset_from` (src/git.rs) collects a commit and its ancestors. It follows the first parents, the others are put
on a stack, and it does not go on from a commit that it has seen.

The loop is a visit in the sense of `Library.DepthFirst` (`historyLoop_eq`), so it ends, and what it collects are the ancestors
(`history_eq_ancestors`).
-/

namespace Evobench.Git

open Library

/-- The variables of the loop. -/
structure HistoryState where
  /-- `ids` -/
  ids : Finset EnrichedCommitId
  /-- `stack_of_commits_to_follow`, the last one first -/
  stackOfCommitsToFollow : List EnrichedCommitId
  /-- `id` -/
  id : EnrichedCommitId

namespace GitGraphData

/-- `self[id]` -/
def index (self : GitGraphData) (id : EnrichedCommitId) : Outcome Empty (EnrichedGitCommit EnrichedCommitId) :=
  match self.get id with
  | some ecommit => .ok ecommit
  | none => .panic "index out of bounds"

/-- Go on with the last commit on the stack, or end. -/
def popToFollow (s : HistoryState) : Finset EnrichedCommitId ⊕ HistoryState :=
  match s.stackOfCommitsToFollow with
  | toFollow :: stack => .inr ⟨s.ids, stack, toFollow⟩
  | [] => .inl s.ids

/-- One round of the loop: the result, or the next state. -/
def historyRound (self : GitGraphData) (s : HistoryState) : Outcome Empty (Finset EnrichedCommitId ⊕ HistoryState) :=
  if s.id ∈ s.ids then .ok (popToFollow s)
  else do
    let ecommit ← self.index s.id
    match ecommit.commit.parents with
    | firstParent :: parents =>
      pure (.inr ⟨insert s.id s.ids, parents.foldl (fun stack parent => parent :: stack) s.stackOfCommitsToFollow, firstParent⟩)
    | [] => pure (popToFollow { s with ids := insert s.id s.ids })

/-- The loop, for as many rounds as there is fuel. -/
def historyLoop (self : GitGraphData) : ℕ → HistoryState → Option (Outcome Empty (Finset EnrichedCommitId))
  | 0, _ => none
  | fuel + 1, s =>
    match self.historyRound s with
    | .ok (.inl ids) => some (.ok ids)
    | .ok (.inr s') => historyLoop self fuel s'
    | .err e => some (.err e)
    | .panic msg => some (.panic msg)

/-- `history_as_btreeset_from` -/
def historyAsBtreesetFrom (self : GitGraphData) (id : EnrichedCommitId) (fuel : ℕ) :
    Option (Outcome Empty (Finset EnrichedCommitId)) :=
  self.historyLoop fuel ⟨∅, [], id⟩

/-! ### The visit -/

/-- The parents in the order in which they are followed: the first one, and then from the last one. -/
def followedParents (self : GitGraphData) (id : EnrichedCommitId) : List EnrichedCommitId :=
  match self.get id with
  | some ecommit =>
    match ecommit.commit.parents with
    | firstParent :: parents => firstParent :: parents.reverse
    | [] => []
  | none => []

variable {self : GitGraphData}

theorem mem_followedParents {id p : EnrichedCommitId} : p ∈ self.followedParents id ↔ p ∈ self.parentsOf id := by
  rw [mem_parentsOf, followedParents]
  cases self.get id with
  | none => simp
  | some ecommit =>
    cases hparents : ecommit.commit.parents with
    | nil => simp [hparents]
    | cons firstParent parents => simp [hparents]

/-- All that is followed is stored. -/
theorem isSome_get_followed {id p : EnrichedCommitId} (hp : p ∈ self.followedParents id) : (self.get p).isSome := by
  obtain ⟨ecommit, hget, hmem⟩ := mem_parentsOf.1 (mem_followedParents.1 hp)
  exact isSome_get_parent hget hmem

theorem followedParents_eq {id : EnrichedCommitId} {ecommit : EnrichedGitCommit EnrichedCommitId}
    (h : self.get id = some ecommit) :
    self.followedParents id = ecommit.commit.parents.take 1 ++ (ecommit.commit.parents.drop 1).reverse := by
  rw [followedParents, h]
  cases hparents : ecommit.commit.parents with
  | nil => simp [hparents]
  | cons firstParent parents => simp [hparents]

/-- **The loop is a visit.** -/
theorem historyLoop_eq (fuel : ℕ) (s : HistoryState) (hid : (self.get s.id).isSome)
    (hstack : ∀ p ∈ s.stackOfCommitsToFollow, (self.get p).isSome) :
    self.historyLoop fuel s =
      (DepthFirst.visitAll self.followedParents fuel s.ids (s.id :: s.stackOfCommitsToFollow)).map .ok := by
  induction fuel generalizing s with
  | zero => rfl
  | succ fuel ih =>
    -- a round that ends with the next commit on the stack
    have hpop : ∀ ids, self.historyRound s = .ok (popToFollow ⟨ids, s.stackOfCommitsToFollow, s.id⟩) →
        self.historyLoop (fuel + 1) s =
          (DepthFirst.visitAll self.followedParents fuel ids s.stackOfCommitsToFollow).map .ok := by
      intro ids hround
      rw [historyLoop, hround, popToFollow]
      cases hs : s.stackOfCommitsToFollow with
      | nil => 
        rw [DepthFirst.visitAll]
        rfl
      | cons p stack =>
        rw [hs, List.forall_mem_cons] at hstack
        exact ih ⟨ids, stack, p⟩ hstack.1 hstack.2
    rw [DepthFirst.visitAll]
    by_cases hseen : s.id ∈ s.ids
    · rw [if_pos hseen]
      exact hpop s.ids (if_pos hseen)
    · obtain ⟨ecommit, hget⟩ := Option.isSome_iff_exists.1 hid
      have hindex : self.index s.id = .ok ecommit := by rw [index, hget]
      rw [if_neg hseen, followedParents_eq hget]
      cases hparents : ecommit.commit.parents with
      | nil =>
        refine hpop (insert s.id s.ids) ?_
        rw [historyRound, if_neg hseen, hindex, Outcome.ok_bind, hparents]
        rfl
      | cons firstParent parents =>
        have hround : self.historyRound s =
            .ok (.inr ⟨insert s.id s.ids, parents.reverse ++ s.stackOfCommitsToFollow, firstParent⟩) := by
          rw [historyRound, if_neg hseen, hindex, Outcome.ok_bind, hparents]
          show Outcome.ok (Sum.inr (HistoryState.mk _ (parents.foldl (fun stack parent => parent :: stack) _) _)) = _
          rw [List.foldl_flip_cons_eq_append']
        have hfollowed : ∀ p ∈ ecommit.commit.parents, (self.get p).isSome := fun p hp => isSome_get_parent hget hp
        rw [hparents, List.forall_mem_cons] at hfollowed
        rw [historyLoop, hround]
        refine (ih _ hfollowed.1 fun p hp => ?_).trans ?_
        · rcases List.mem_append.1 hp with hp | hp
          · exact hfollowed.2 p (List.mem_reverse.1 hp)
          · exact hstack p hp
        · rfl

/-- **The history is the commit with its ancestors**: the loop ends, and this is what it has collected. -/
theorem history_eq_ancestors {id : EnrichedCommitId} (h : (self.get id).isSome) :
    ∃ (n : ℕ) (ids : Finset EnrichedCommitId), (∀ fuel ≥ n, self.historyAsBtreesetFrom id fuel = some (.ok ids)) ∧
      ∀ i, i ∈ ids ↔ self.AncestorOrSelf id i := by
  have hclosed : ∀ a ∈ self.storedIds, ∀ b ∈ self.followedParents a, b ∈ self.storedIds :=
    fun a _ b hb => mem_storedIds (isSome_get_followed hb)
  have hvisit : ∃ n ids, ∀ fuel ≥ n, DepthFirst.visitAll self.followedParents fuel ∅ [id] = some ids := by
    refine DepthFirst.exists_visitAll hclosed fun a ha => mem_storedIds ?_
    rwa [List.mem_singleton.1 ha]
  obtain ⟨n, ids, hids⟩ := hvisit
  refine ⟨n, ids, fun fuel hfuel => ?_, fun i => ?_⟩
  · rw [historyAsBtreesetFrom, historyLoop_eq fuel _ h fun p hp => absurd hp List.not_mem_nil, hids fuel hfuel]
    rfl
  · have hsame : (fun a b => b ∈ self.followedParents a) = fun a b => b ∈ self.parentsOf a :=
      funext fun a => funext fun b => propext mem_followedParents
    rw [DepthFirst.mem_visitAll_iff (DepthFirst.Sound.of_start id) (hids n le_rfl), DepthFirst.Reaches, hsame]

/-- The merge in the sample. -/
theorem history_eq_ancestors_sample : ∃ (n : ℕ) (ids : Finset EnrichedCommitId),
    (∀ fuel ≥ n, mergeGraph.historyAsBtreesetFrom ⟨3⟩ fuel = some (.ok ids)) ∧
      ∀ i, i ∈ ids ↔ mergeGraph.AncestorOrSelf ⟨3⟩ i :=
  history_eq_ancestors (by decide +kernel)

end GitGraphData

end Evobench.Git

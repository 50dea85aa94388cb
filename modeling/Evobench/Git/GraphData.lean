import Evobench.Library.Program
import Evobench.Run.BenchmarkingJob

/-!
# The commit graph

Commits are stored in a vector and referred to by their index. `unchecked_push` looks up the parents of a commit, so the parents
of every stored commit come before it.
-/

namespace Evobench.Git

open Library Run

/-- `Unixtime` -/
structure Unixtime where
  /-- Seconds. -/
  seconds : UInt64
deriving DecidableEq

instance : LinearOrder Unixtime :=
  LinearOrder.lift' (fun t => t.seconds.toNat) fun a b h => by
    cases a
    cases b
    exact congrArg Unixtime.mk (UInt64.toNat_inj.1 h)

/-- `Id<ToEnrichedCommit>` -/
structure EnrichedCommitId where
  /-- The index. -/
  index : UInt32
deriving DecidableEq

/-- A commit. -/
structure GitCommit (RefType : Type) where
  commitHash : GitHash
  authorTime : Unixtime
  committerTime : Unixtime
  parents : List RefType

/-- A commit with its depth. -/
structure EnrichedGitCommit (RefType : Type) where
  commit : GitCommit RefType
  /-- The length of the longest parent chain (i.e. 0 for the initial commit). -/
  depth : ℕ

/-- The commits known, by hash and by id. -/
structure GitGraphData where
  byHash : GitHash → Option EnrichedCommitId
  ecommits : List (EnrichedGitCommit EnrichedCommitId)
  /-- Parents come before their children. -/
  parents_lt : ∀ (i : ℕ) (ecommit : EnrichedGitCommit EnrichedCommitId), ecommits[i]? = some ecommit →
    ∀ p ∈ ecommit.commit.parents, p.index.toNat < i
  /-- The hashes are those of the commits. -/
  hash_byHash : ∀ h id, byHash h = some id →
    (ecommits[id.index.toNat]?).map (·.commit.commitHash) = some h

namespace GitGraphData

/-- `new` -/
def new : GitGraphData where
  byHash := fun _ => none
  ecommits := []
  parents_lt := nofun
  hash_byHash := nofun

/-- `get` -/
def get (self : GitGraphData) (id : EnrichedCommitId) : Option (EnrichedGitCommit EnrichedCommitId) :=
  self.ecommits[id.index.toNat]?

/-- `get_by_hash` -/
def getByHash (self : GitGraphData) (h : GitHash) : Option EnrichedCommitId := self.byHash h

/-- `MoreThanU32Commits` -/
inductive MoreThanU32Commits where
  /-- more than u32::max commits -/
  | moreThanU32Commits
deriving DecidableEq

/-- A commit is stored after its parents. -/
theorem parents_lt_concat {self : GitGraphData} {ecommit : EnrichedGitCommit EnrichedCommitId}
    (h : ∀ p ∈ ecommit.commit.parents, p.index.toNat < self.ecommits.length) (i : ℕ)
    (ecommit' : EnrichedGitCommit EnrichedCommitId) (hi : (self.ecommits ++ [ecommit])[i]? = some ecommit') :
    ∀ p ∈ ecommit'.commit.parents, p.index.toNat < i := by
  rw [List.getElem?_append] at hi
  split at hi
  · exact self.parents_lt i ecommit' hi
  · next hle =>
    obtain rfl := List.mem_singleton.1 (List.mem_of_getElem? hi)
    exact fun p hp => (h p hp).trans_le (not_lt.1 hle)

/-- The new commit has the next id. -/
theorem hash_concat {self : GitGraphData} {ecommit : EnrichedGitCommit EnrichedCommitId}
    {id : EnrichedCommitId} (hindex : id.index.toNat = self.ecommits.length) (h : GitHash) (id' : EnrichedCommitId)
    (hid : Function.update self.byHash ecommit.commit.commitHash (some id) h = some id') :
    ((self.ecommits ++ [ecommit])[id'.index.toNat]?).map (·.commit.commitHash) = some h := by
  by_cases hcommit : h = ecommit.commit.commitHash
  · subst hcommit
    rw [Function.update_self] at hid
    obtain rfl := Option.some.inj hid
    rw [hindex, List.getElem?_concat_length]
    rfl
  · rw [Function.update_of_ne hcommit] at hid
    obtain ⟨ecommit', hget, hhash⟩ := Option.map_eq_some_iff.1 (self.hash_byHash h id' hid)
    rw [List.getElem?_append_left (List.getElem?_eq_some_iff.1 hget).1, hget]
    exact congrArg some hhash

/-- `unchecked_push`: does not check whether the commit is already contained, but that the parents are. -/
def uncheckedPush (self : GitGraphData) (commit : GitCommit EnrichedCommitId) :
    Outcome MoreThanU32Commits (GitGraphData × EnrichedCommitId) :=
  if hparents : ∀ p ∈ commit.parents, p.index.toNat < self.ecommits.length then
    let ecommit : EnrichedGitCommit EnrichedCommitId :=
      { commit, depth := (((commit.parents.filterMap self.get).map (·.depth)).max?.map (· + 1)).getD 0 }
    if hlength : self.ecommits.length < UInt32.size then
      let id : EnrichedCommitId := ⟨UInt32.ofNat self.ecommits.length⟩
      .ok ({
        byHash := Function.update self.byHash commit.commitHash (some id)
        ecommits := self.ecommits ++ [ecommit]
        parents_lt := parents_lt_concat hparents
        hash_byHash := @hash_concat self ecommit id (UInt32.toNat_ofNat_of_lt' hlength) }, id)
    else .err .moreThanU32Commits
  else .panic "XXX"

variable {self : GitGraphData}

theorem isSome_get {id : EnrichedCommitId} : (self.get id).isSome ↔ id.index.toNat < self.ecommits.length := by
  rw [get, isSome_getElem?]

/-- The parents of a stored commit are stored. -/
theorem isSome_get_parent {id p : EnrichedCommitId} {ecommit : EnrichedGitCommit EnrichedCommitId}
    (h : self.get id = some ecommit) (hp : p ∈ ecommit.commit.parents) : (self.get p).isSome := by
  have hlt := self.parents_lt _ _ h p hp
  have hid : (self.get id).isSome := by
    rw [h]
    rfl
  rw [isSome_get] at hid ⊢
  omega

theorem exists_of_byHash {h : GitHash} {id : EnrichedCommitId} (hid : self.getByHash h = some id) :
    ∃ ecommit, self.get id = some ecommit ∧ ecommit.commit.commitHash = h :=
  Option.map_eq_some_iff.1 (self.hash_byHash h id hid)

end GitGraphData

end Evobench.Git

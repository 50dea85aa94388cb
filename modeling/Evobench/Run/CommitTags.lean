import Evobench.Library.Program
import Evobench.Run.GitHash

/-!
# The tags of a commit

A benchmark is told the tags of the commit that it is run for, in the variable `COMMIT_TAGS`. They are looked up in an index
from commits to positions in the list of all tags (src/git_tags.rs).

## The model

* `GitTags`, `GitTags.fromDir`: the index, which is built from the output of `git tag --list`. The answer of `git rev-parse` for
  a name is a parameter.
* `getCommitTags`: the value of the variable.

## What is proved

The positions in the index are those of the tags of a commit, in the order of the listing (`GitTags.Indexes`); so
`commit_tags_iff` says what the value is, and when there is none.
-/

namespace Evobench.Run

open Library

/-! ### The index -/

/-- `GitTag` -/
structure GitTag where
  /-- The name. -/
  name : String
  /-- The commit that it is resolved to. -/
  commit : GitHash
deriving DecidableEq

/-- Why there are no tags. -/
inductive TagsError where
  /-- need up to date tags, but got {fetched_tags:?} -/
  | notFetched
  /-- An error of `git tag --list`. -/
  | listing (e : String)
  /-- resolving tag name {name:?} -/
  | resolving (name : String) (e : String)
  /-- resolving tag name {name:?}, to something that is no commit id -/
  | notHash (name : String) (e : GitHash.ParseError)
  /-- getting tags, you appear to have more than u32::MAX tags -/
  | tooMany

/-- `GitTags` -/
structure GitTags where
  /-- All tags. -/
  tags : List GitTag
  /-- To index in `tags` -/
  byHash : GitHash → Option (List UInt32)

/-- `git_rev_parse`: what a name is resolved to, if it is. -/
abbrev TagRevParse := String → Except String (Option String)

namespace GitTags

/-- There are none. -/
def empty : GitTags := ⟨[], fun _ => none⟩

/-- Put a tag into the list and the index. -/
def push (t : GitTags) (name : String) (commit : GitHash) : Except TagsError GitTags :=
  if t.tags.length < UInt32.size then
    let id := UInt32.ofNat t.tags.length
    .ok ⟨t.tags ++ [⟨name, commit⟩], Function.update t.byHash commit (some ((t.byHash commit).getD [] ++ [id]))⟩
  else .error .tooMany

/-- What a name in the listing stands for; none if the tag has been deleted meanwhile. -/
def resolve (revParse : TagRevParse) (name : String) : Except TagsError (Option GitHash) :=
  match revParse name with
  | .error e => .error (.resolving name e)
  | .ok none => .ok none
  | .ok (some commit) =>
    match GitHash.fromStr commit with
    | .error e => .error (.notHash name e)
    | .ok commit => .ok (some commit)

/-- The body of the loop. -/
def add (revParse : TagRevParse) (t : GitTags) (name : String) : Except TagsError GitTags := do
  match ← resolve revParse name with
  | some commit => t.push name commit
  | none => pure t

/-- `from_dir`, on the output of `git tag --list`, trimmed -/
def fromDir (listing : Except String String) (revParse : TagRevParse) : Except TagsError GitTags :=
  match listing with
  | .error e => .error (.listing e)
  | .ok s => ((s.toList.splitOn '\n').map String.ofList).foldlM (add revParse) empty

/-- `get_by_commit` -/
def getByCommit (t : GitTags) (commitId : GitHash) : Outcome TagsError (List String) :=
  ((t.byHash commitId).getD []).mapM fun i =>
    match t.tags[i.toNat]? with
    | some tag => .ok tag.name
    | none => .panic "index out of bounds"

end GitTags

/-- `FetchedTags` -/
inductive FetchedTags where
  | no
  | yes
deriving DecidableEq

/-- `get_commit_tags`: the string for the `COMMIT_TAGS` env var -/
def getCommitTags (listing : Except String String) (revParse : TagRevParse) (commitId : GitHash) (isMatch : String → Bool)
    (fetchedTags : FetchedTags) : Outcome TagsError String :=
  if fetchedTags ≠ .yes then .err .notFetched
  else do
    let gitTags ← .ofExcept (GitTags.fromDir listing revParse)
    let names ← gitTags.getByCommit commitId
    pure (",".intercalate (names.filter isMatch))

/-! ### What is in the index -/

namespace GitTags

/-- The positions of the tags of each commit. -/
def Indexes (t : GitTags) : Prop :=
  ∀ commit, ((t.byHash commit).getD []).map (fun i => t.tags[i.toNat]?) = (t.tags.filter (·.commit = commit)).map some

theorem indexes_empty : empty.Indexes := fun _ => rfl

variable {revParse : TagRevParse} {t t' : GitTags} {name : String} {commit : GitHash}

theorem push_eq_ok (h : t.push name commit = .ok t') :
    t.tags.length < UInt32.size ∧ t'.tags = t.tags ++ [⟨name, commit⟩] ∧
      t'.byHash = Function.update t.byHash commit (some ((t.byHash commit).getD [] ++ [UInt32.ofNat t.tags.length])) := by
  unfold push at h
  split_ifs at h with hroom
  obtain rfl := Except.ok.inj h
  exact ⟨hroom, rfl, rfl⟩

/-- Tags behind them do not change what is at the positions. -/
theorem Indexes.append (h : t.Indexes) (tag : GitTag) (c : GitHash) :
    ((t.byHash c).getD []).map (fun i => (t.tags ++ [tag])[i.toNat]?) = (t.tags.filter (·.commit = c)).map some := by
  rw [← h c]
  refine List.map_congr_left fun i hi => ?_
  have hmem : t.tags[i.toNat]? ∈ (t.tags.filter (·.commit = c)).map some := h c ▸ List.mem_map_of_mem hi
  obtain ⟨tag', -, htag'⟩ := List.mem_map.1 hmem
  have hlt : i.toNat < t.tags.length := (List.getElem?_eq_some_iff.1 htag'.symm).1
  exact List.getElem?_append_left hlt

theorem Indexes.push (h : t.Indexes) (hpush : t.push name commit = .ok t') : t'.Indexes := by
  obtain ⟨hroom, htags, hindex⟩ := push_eq_ok hpush
  intro c
  rw [htags, hindex, List.filter_append]
  have hold := h.append ⟨name, commit⟩ c
  by_cases hc : c = commit
  · subst hc
    have hnew : (t.tags ++ [⟨name, c⟩])[(UInt32.ofNat t.tags.length).toNat]? = some ⟨name, c⟩ := by
      rw [UInt32.toNat_ofNat_of_lt' hroom, List.getElem?_append_right le_rfl, Nat.sub_self]
      rfl
    rw [Function.update_self, Option.getD_some, List.map_append, hold, List.map_singleton, hnew, List.map_append]
    simp
  · have hne : ¬ commit = c := fun he => hc he.symm
    rw [Function.update_of_ne hc, hold]
    simp [hne]

/-- The commit that a name is resolved to. -/
def commitOf (revParse : TagRevParse) (name : String) : Option GitHash := ((resolve revParse name).toOption).join

/-- The tags of the names that are resolved. -/
def resolved (revParse : TagRevParse) (names : List String) : List GitTag :=
  names.filterMap fun name => (commitOf revParse name).map (⟨name, ·⟩)

@[simp] theorem resolved_nil : resolved revParse [] = [] := rfl

theorem resolved_cons_none {names : List String} (h : resolve revParse name = .ok none) :
    resolved revParse (name :: names) = resolved revParse names :=
  List.filterMap_cons_none (by rw [commitOf, h]; rfl)

theorem resolved_cons_some {names : List String} (h : resolve revParse name = .ok (some commit)) :
    resolved revParse (name :: names) = ⟨name, commit⟩ :: resolved revParse names :=
  List.filterMap_cons_some (by rw [commitOf, h]; rfl)

theorem add_eq_ok_iff : add revParse t name = .ok t' ↔
    resolve revParse name = .ok none ∧ t' = t ∨
      ∃ commit, resolve revParse name = .ok (some commit) ∧ t.push name commit = .ok t' := by
  unfold add
  cases hresolve : resolve revParse name with
  | error e => simp [bind, Except.bind]
  | ok r =>
    cases r with
    | none => simp [bind, Except.bind, pure, Except.pure, eq_comm]
    | some commit => simp [bind, Except.bind]

/-- **The loop** has gone through the names exactly if all of them can be looked up and there is room. -/
theorem foldlM_add_iff {names : List String} (hroom : t.tags.length ≤ UInt32.size) :
    (∃ t', names.foldlM (add revParse) t = .ok t') ↔
      (∀ name ∈ names, (resolve revParse name).isOk = true) ∧
        t.tags.length + (resolved revParse names).length ≤ UInt32.size := by
  induction names generalizing t with
  | nil => simpa [resolved, pure, Except.pure] using hroom
  | cons name names ih =>
    rw [List.foldlM_cons, List.forall_mem_cons]
    cases hresolve : resolve revParse name with
    | error e =>
      have hadd : add revParse t name = .error e := by
        rw [add, hresolve]
        rfl
      rw [hadd]
      simp [bind, Except.bind, Except.isOk, Except.toBool]
    | ok r =>
      have hok : (Except.ok r : Except TagsError (Option GitHash)).isOk = true := rfl
      cases r with
      | none =>
        have hadd : add revParse t name = .ok t := add_eq_ok_iff.2 (.inl ⟨hresolve, rfl⟩)
        rw [hadd, resolved_cons_none hresolve]
        simpa [bind, Except.bind, hok] using ih hroom
      | some commit =>
        rw [resolved_cons_some hresolve, List.length_cons]
        have hadd : add revParse t name = t.push name commit := by
          rw [add, hresolve]
          rfl
        rw [hadd]
        by_cases hlt : t.tags.length < UInt32.size
        · obtain ⟨t₁, hpush⟩ : ∃ t₁, t.push name commit = .ok t₁ := ⟨_, if_pos hlt⟩
          have hlength : t₁.tags.length = t.tags.length + 1 := by
            rw [(push_eq_ok hpush).2.1, List.length_append, List.length_singleton]
          rw [hpush]
          simp only [bind, Except.bind, hok, true_and]
          rw [ih (hlength.trans_le hlt), hlength, Nat.add_assoc, Nat.add_comm 1]
        · have hpush : t.push name commit = .error .tooMany := if_neg hlt
          rw [hpush]
          refine ⟨fun h => ?_, fun h => absurd (Nat.lt_of_lt_of_le ?_ h.2) hlt⟩
          · obtain ⟨t', ht'⟩ := h
            cases ht'
          · omega

/-- What the loop has made of the names. -/
theorem foldlM_add_spec {names : List String} (h : t.Indexes) (hfold : names.foldlM (add revParse) t = .ok t') :
    t'.Indexes ∧ t'.tags = t.tags ++ resolved revParse names := by
  induction names generalizing t with
  | nil =>
    obtain rfl := Except.ok.inj hfold
    exact ⟨h, (List.append_nil _).symm⟩
  | cons name names ih =>
    rw [List.foldlM_cons] at hfold
    cases hadd : add revParse t name with
    | error e =>
      rw [hadd] at hfold
      cases hfold
    | ok t₁ =>
      rw [hadd] at hfold
      obtain ⟨hresolve, rfl⟩ | ⟨commit, hresolve, hpush⟩ := add_eq_ok_iff.1 hadd
      · rw [resolved_cons_none hresolve]
        exact ih h hfold
      · obtain ⟨hindexes, htags⟩ := ih (h.push hpush) hfold
        refine ⟨hindexes, ?_⟩
        rw [htags, (push_eq_ok hpush).2.1, resolved_cons_some hresolve, List.append_assoc, List.singleton_append]

/-- The names of the tags of a commit. -/
theorem Indexes.getByCommit_eq (h : t.Indexes) (commitId : GitHash) :
    t.getByCommit commitId = .ok ((t.tags.filter (·.commit = commitId)).map (·.name)) := by
  have hgo : ∀ (ids : List UInt32) (tags : List GitTag), ids.map (fun i => t.tags[i.toNat]?) = tags.map some →
      (ids.mapM fun i => match t.tags[i.toNat]? with
        | some tag => Outcome.ok tag.name
        | none => Outcome.panic "index out of bounds") = (.ok (tags.map (·.name)) : Outcome TagsError (List String)) := by
    intro ids
    induction ids with
    | nil =>
      intro tags htags
      rw [List.map_nil, eq_comm, List.map_eq_nil_iff] at htags
      subst htags
      rfl
    | cons i ids ih =>
      intro tags htags
      cases tags with
      | nil => cases htags
      | cons tag tags =>
        obtain ⟨hi, hids⟩ := List.cons.inj htags
        dsimp only at hi
        rw [List.mapM_cons, ih tags hids, hi]
        rfl
  exact hgo _ _ (h commitId)

end GitTags

/-! ### The variable -/

/-- The names in the listing. -/
def tagNames (s : String) : List String := (s.toList.splitOn '\n').map String.ofList

theorem map_name_filter_resolved (revParse : TagRevParse) (names : List String) (commitId : GitHash) :
    ((GitTags.resolved revParse names).filter (·.commit = commitId)).map (·.name) =
      names.filter fun name => GitTags.commitOf revParse name = some commitId := by
  induction names with
  | nil => rfl
  | cons name names ih =>
    rw [GitTags.resolved, List.filterMap_cons, List.filter_cons, ← ih, GitTags.resolved]
    cases GitTags.commitOf revParse name with
    | none => rfl
    | some commit => by_cases hc : commit = commitId <;> simp [hc]

theorem length_resolved (revParse : TagRevParse) (names : List String) :
    (GitTags.resolved revParse names).length = names.countP fun name => (GitTags.commitOf revParse name).isSome := by
  induction names with
  | nil => rfl
  | cons name names ih =>
    rw [GitTags.resolved, List.filterMap_cons, List.countP_cons, ← ih, GitTags.resolved]
    cases GitTags.commitOf revParse name with
    | none => rfl
    | some commit => simp

/-- The index of a listing. -/
theorem fromDir_iff {s : String} {revParse : TagRevParse} :
    (∃ t, GitTags.fromDir (.ok s) revParse = .ok t) ↔
      (∀ name ∈ tagNames s, (GitTags.resolve revParse name).isOk = true) ∧
        ((tagNames s).countP fun name => (GitTags.commitOf revParse name).isSome) ≤ UInt32.size := by
  have hiff := @GitTags.foldlM_add_iff revParse .empty (tagNames s) (Nat.zero_le _)
  rwa [length_resolved, show GitTags.empty.tags.length = 0 from rfl, Nat.zero_add] at hiff

/-- **`COMMIT_TAGS`** has the names in the listing that are resolved to the commit and match the expression, in the order of the
listing. There is no value exactly if the tags have not been fetched or listed, a name cannot be looked up, or there are more
than 2^32 tags; a panic there is never. -/
theorem commit_tags_iff (listing : Except String String) (revParse : TagRevParse) (commitId : GitHash) (isMatch : String → Bool)
    (fetchedTags : FetchedTags) :
    (getCommitTags listing revParse commitId isMatch fetchedTags).isPanic = false ∧
      ∀ tags, getCommitTags listing revParse commitId isMatch fetchedTags = .ok tags ↔
        fetchedTags = .yes ∧ ∃ s, listing = .ok s ∧
          (∀ name ∈ tagNames s, (GitTags.resolve revParse name).isOk = true) ∧
          ((tagNames s).countP fun name => (GitTags.commitOf revParse name).isSome) ≤ UInt32.size ∧
          tags = ",".intercalate (((tagNames s).filter fun name => GitTags.commitOf revParse name = some commitId).filter
            isMatch) := by
  cases fetchedTags with
  | no =>
    refine ⟨rfl, fun tags => ⟨fun h => ?_, fun h => ?_⟩⟩
    · cases h
    · cases h.1
  | yes =>
    cases listing with
    | error e =>
      refine ⟨rfl, fun tags => ⟨fun h => ?_, fun h => ?_⟩⟩
      · cases h
      · obtain ⟨-, s, hs, -⟩ := h
        cases hs
    | ok s =>
      have hyes : ¬ FetchedTags.yes ≠ .yes := not_not_intro rfl
      rw [getCommitTags, if_neg hyes]
      cases hdir : GitTags.fromDir (.ok s) revParse with
      | error e =>
        refine ⟨rfl, fun tags => ⟨fun h => ?_, fun h => ?_⟩⟩
        · cases h
        · obtain ⟨-, s', hs, hnames, hroom, -⟩ := h
          obtain rfl := Except.ok.inj hs
          obtain ⟨t, ht⟩ := fromDir_iff.2 ⟨hnames, hroom⟩
          rw [hdir] at ht
          cases ht
      | ok t =>
        obtain ⟨hindexes, htags⟩ := GitTags.foldlM_add_spec GitTags.indexes_empty hdir
        have hget : t.getByCommit commitId =
            .ok ((tagNames s).filter fun name => GitTags.commitOf revParse name = some commitId) := by
          rw [hindexes.getByCommit_eq, htags, show GitTags.empty.tags = [] from rfl, List.nil_append,
            ← map_name_filter_resolved, tagNames]
        show ((t.getByCommit commitId >>= fun names => .ok (",".intercalate (names.filter isMatch))) :
          Outcome TagsError String).isPanic = false ∧ ∀ tags, (t.getByCommit commitId >>= fun names =>
            .ok (",".intercalate (names.filter isMatch)) : Outcome TagsError String) = .ok tags ↔ _
        rw [hget, Outcome.ok_bind]
        refine ⟨rfl, fun tags => ⟨fun h => ?_, fun h => ?_⟩⟩
        · obtain ⟨hnames, hroom⟩ := fromDir_iff.1 ⟨t, hdir⟩
          exact ⟨rfl, s, rfl, hnames, hroom, (Outcome.ok.inj h).symm⟩
        · obtain ⟨-, s', hs, -, -, rfl⟩ := h
          obtain rfl := Except.ok.inj hs
          rfl

end Evobench.Run

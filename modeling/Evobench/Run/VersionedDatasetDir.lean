import Evobench.Git.ClosestAncestor
import Evobench.Run.GitHash
import Evobench.Run.OsString

/-!
# The dataset for a commit

The directories in `$versioned_datasets_base_dir/$DATASET` are named after revisions. `dataset_dir_for_commit`
(src/run/versioned_dataset_dir.rs) resolves the names to commits, and chooses the directory of a commit that is an ancestor of
the given one, or that commit itself.

## What is proved

`dataset_dir_order_independent`: the order in which the directory is listed, and the orders in which the hash sets of the search
are iterated, make no difference where no round of the search has a choice among newest commits and where no two names are
resolved to the same commit. Both can happen, and then they do make a difference (`dataset_dir_order_dependent`).
-/

namespace Evobench.Run

open Library Git

/-! ### The index -/

/-- What an entry of a directory is. -/
inductive EntryKind where
  /-- `is_file` -/
  | file
  /-- `is_dir` -/
  | dir
  /-- Neither, e.g. a broken symlink. -/
  | other
deriving DecidableEq

/-- An entry of a directory. -/
structure DatasetEntry where
  fileName : OsString
  kind : EntryKind
deriving DecidableEq

/-- What can go wrong. -/
inductive DatasetError where
  /-- can't open directory -/
  | cantOpenDirectory (e : String)
  /-- From reading the directory. -/
  | readDir (e : String)
  /-- non-dir non-file entry (broken symlink?) -/
  | nonDirNonFile (fileName : OsString)
  /-- From `git_rev_parse`. -/
  | revParse (e : String)
  /-- The commit id. -/
  | gitHash (e : GitHash.ParseError)
  /-- The name of the directory. -/
  | notProper (fileName : String)
  /-- From the search. -/
  | search (e : String)
  /-- can't find a dataset for commit -/
  | noDataset (commit : GitHash)
deriving DecidableEq

/-- `git_rev_parse`: the commit id that a name is resolved to. -/
abbrev RevParse := String → Except String (Option String)

/-- `parse::<ProperFilename>` -/
def parseFolderName (fileName : String) : Except DatasetError ProperFilename :=
  if h : isProperFilename fileName = true then .ok ⟨fileName, h⟩ else .error (.notProper fileName)

/-- What an entry of the directory contributes to the index: a commit and the name of its folder. -/
def readDatasetEntry (revParse : RevParse) (entry : Except String DatasetEntry) :
    Except DatasetError (Option (GitHash × ProperFilename)) := do
  let entry ← entry.mapError .readDir
  match entry.kind with
  | .file => pure none
  | .other => throw (.nonDirNonFile entry.fileName)
  | .dir =>
    match entry.fileName.toStr with
    | some fileName =>
      match ← (revParse (String.ofList fileName)).mapError .revParse with
      | some commit => do
        let commit ← (GitHash.fromStr commit).mapError .gitHash
        let folderName ← parseFolderName (String.ofList fileName)
        pure (some (commit, folderName))
      | none => pure none
    | none => pure none

/-- `commit_to_dirname` -/
abbrev CommitToDirname := GitHash → Option ProperFilename

/-- The step of the loop for one entry. -/
def insertDatasetEntry (revParse : RevParse) (index : CommitToDirname) (entry : Except String DatasetEntry) :
    Except DatasetError CommitToDirname := do
  match ← readDatasetEntry revParse entry with
  | some (commit, folderName) => pure (Function.update index commit (some folderName))
  | none => pure index

/-- What a directory is listed as, if it can be opened. -/
abbrev Listing := Except String (List (Except String DatasetEntry))

/-- `VersionedDatasetReferencesIndex::read` -/
def readIndex (revParse : RevParse) (listing : Listing) : Except DatasetError CommitToDirname := do
  let entries ← listing.mapError .cantOpenDirectory
  entries.foldlM (insertDatasetEntry revParse) fun _ => none

/-! ### The choice -/

/-- The commits for which there is a dataset. An id that is not stored is not asked for. -/
def hasDataset (graph : GitGraphData) (index : CommitToDirname) (id : EnrichedCommitId) : Bool :=
  match graph.get id with
  | some commit => (index commit.commit.commitHash).isSome
  | none => false

/-- The path of the dataset of a commit that was found. -/
def chosenDir (graph : GitGraphData) (index : CommitToDirname) (versionedDatasetsDir : Path (Char ⊕ UInt8))
    (id : EnrichedCommitId) : Outcome DatasetError (Path (Char ⊕ UInt8)) :=
  match graph.get id with
  | some commit =>
    match index commit.commit.commitHash with
    | some chosenDirname => .ok (versionedDatasetsDir.push (OsString.ofChars chosenDirname.asStr.toList))
    | none => .panic "outer internal consistency"
  | none => .panic "internal consistency"

/-- `dataset_dir_for_commit`, with the orders of iteration and the fuel of the search; `none` is running out of fuel. -/
def datasetDirForCommit (graph : GitGraphData) (commitId : GitHash) (revParse : RevParse) (listing : Listing)
    (versionedDatasetsBaseDir : Path (Char ⊕ UInt8)) (datasetName : String) (iters : ℕ → IterOrder EnrichedCommitId)
    (fuel : ℕ) : Option (Outcome DatasetError (Path (Char ⊕ UInt8))) :=
  let versionedDatasetsDir := versionedDatasetsBaseDir.push (OsString.ofChars datasetName.toList)
  match readIndex revParse listing with
  | .error e => some (.err e)
  | .ok index =>
    match graph.getByHash commitId with
    | none => some (.panic "always contained, as per documented usage contract")
    | some commitIdId =>
      (graph.closestMatchingAncestorOf iters commitIdId (hasDataset graph index) fuel).map fun found => do
        match ← found.mapErr .search with
        | some ancestorOrSelfId => chosenDir graph index versionedDatasetsDir ancestorOrSelfId
        | none => .err (.noDataset commitId)

/-! ### The index does not depend on the order -/

section Index

variable {revParse : RevParse} {entries : List (Except String DatasetEntry)} {index index' : CommitToDirname}

/-- There is a folder for the commit in the directory. -/
def FolderOf (revParse : RevParse) (entries : List (Except String DatasetEntry)) (commit : GitHash) (name : ProperFilename) :
    Prop :=
  ∃ entry ∈ entries, readDatasetEntry revParse entry = .ok (some (commit, name))

/-- An entry that cannot be read. -/
def Unreadable (revParse : RevParse) (entry : Except String DatasetEntry) : Prop :=
  ∃ e, readDatasetEntry revParse entry = .error e

/-- What is in an index: the commits that have a folder, each with one of its folders. -/
structure Indexes (revParse : RevParse) (entries : List (Except String DatasetEntry)) (index : CommitToDirname) : Prop where
  /-- What is in it has a folder. -/
  folder : ∀ commit name, index commit = some name → FolderOf revParse entries commit name
  /-- Everything that has a folder is in it. -/
  isSome : ∀ commit name, FolderOf revParse entries commit name → (index commit).isSome

theorem folderOf_append {entries' : List (Except String DatasetEntry)} {commit : GitHash} {name : ProperFilename} :
    FolderOf revParse (entries ++ entries') commit name ↔
      FolderOf revParse entries commit name ∨ FolderOf revParse entries' commit name := by
  simp only [FolderOf, List.mem_append, or_and_right, exists_or]

/-- **Reading a directory**: it fails if an entry cannot be read, and else gives an index. -/
theorem foldlM_insertDatasetEntry (revParse : RevParse) (entries : List (Except String DatasetEntry)) :
    ((∃ entry ∈ entries, Unreadable revParse entry) ∧
        ∃ e, entries.foldlM (insertDatasetEntry revParse) (fun _ => none) = Except.error e) ∨
      ((∀ entry ∈ entries, ¬ Unreadable revParse entry) ∧
        ∃ index, entries.foldlM (insertDatasetEntry revParse) (fun _ => none) = Except.ok index ∧
          Indexes revParse entries index) := by
  induction entries using List.reverseRecOn with
  | nil => exact .inr ⟨nofun, _, rfl, nofun, nofun⟩
  | append_singleton entries entry ih =>
    rw [List.foldlM_append]
    rcases ih with ⟨⟨entry', hmem, hbad⟩, e, he⟩ | ⟨hgood, index, hindex, hfolder, hsome⟩
    · exact .inl ⟨⟨entry', List.mem_append_left _ hmem, hbad⟩, e, by rw [he]; rfl⟩
    · rw [hindex]
      have hlast : ∀ x, readDatasetEntry revParse entry = x → (do
          let index ← (Except.ok index : Except DatasetError CommitToDirname)
          [entry].foldlM (insertDatasetEntry revParse) index) = (do
            match ← x with
            | some (commit, folderName) => pure (Function.update index commit (some folderName))
            | none => pure index) := by
        rintro x rfl
        show [entry].foldlM (insertDatasetEntry revParse) index = _
        simp only [List.foldlM_cons, List.foldlM_nil, bind_pure]
        rfl
      have hall : ∀ x, readDatasetEntry revParse entry = Except.ok x →
          ∀ entry' ∈ entries ++ [entry], ¬ Unreadable revParse entry' := by
        intro x hx entry' hmem
        rcases List.mem_append.1 hmem with hmem | hmem
        · exact hgood entry' hmem
        · rw [List.mem_singleton.1 hmem]
          rintro ⟨e, he⟩
          rw [hx] at he
          cases he
      cases hentry : readDatasetEntry revParse entry with
      | error e => exact .inl ⟨⟨entry, by simp, e, hentry⟩, e, hlast _ hentry⟩
      | ok found =>
        refine .inr ⟨hall _ hentry, ?_⟩
        cases found with
        | none =>
          refine ⟨index, hlast _ hentry, fun commit name h => folderOf_append.2 (.inl (hfolder commit name h)),
            fun commit name h => ?_⟩
          rcases folderOf_append.1 h with h | ⟨entry', hmem, h⟩
          · exact hsome commit name h
          · rw [List.mem_singleton.1 hmem, hentry] at h
            cases h
        | some found =>
          obtain ⟨commit₁, name₁⟩ := found
          refine ⟨Function.update index commit₁ (some name₁), hlast _ hentry, fun commit name h => ?_, fun commit name h => ?_⟩
          · by_cases hcommit : commit = commit₁
            · subst hcommit
              rw [Function.update_self] at h
              obtain rfl := Option.some.inj h
              exact folderOf_append.2 (.inr ⟨entry, List.mem_singleton_self _, hentry⟩)
            · rw [Function.update_of_ne hcommit] at h
              exact folderOf_append.2 (.inl (hfolder commit name h))
          · by_cases hcommit : commit = commit₁
            · subst hcommit
              rw [Function.update_self]
              rfl
            · rw [Function.update_of_ne hcommit]
              rcases folderOf_append.1 h with h | ⟨entry', hmem, h⟩
              · exact hsome commit name h
              · rw [List.mem_singleton.1 hmem, hentry] at h
                cases h
                exact absurd rfl hcommit

theorem folderOf_perm {entries' : List (Except String DatasetEntry)} (h : entries.Perm entries') {commit : GitHash}
    {name : ProperFilename} : FolderOf revParse entries commit name ↔ FolderOf revParse entries' commit name :=
  exists_congr fun _ => and_congr_left' h.mem_iff

end Index

/-! ### Two runs -/

section TwoRuns

variable {graph : GitGraphData} {commitId : GitHash} {revParse : RevParse} {entries : List (Except String DatasetEntry)}
  {index : CommitToDirname}

/-- There is a folder for a commit that is stored. -/
def HasFolder (graph : GitGraphData) (revParse : RevParse) (entries : List (Except String DatasetEntry))
    (id : EnrichedCommitId) : Prop :=
  ∃ commit, graph.get id = some commit ∧ ∃ name, FolderOf revParse entries commit.commit.commitHash name

theorem hasDataset_iff (h : Indexes revParse entries index) (id : EnrichedCommitId) :
    hasDataset graph index id = true ↔ HasFolder graph revParse entries id := by
  rw [hasDataset, HasFolder]
  cases graph.get id with
  | none => simp
  | some commit =>
    simp only [Option.some.injEq, exists_eq_left']
    constructor
    · intro hsome
      obtain ⟨name, hname⟩ := Option.isSome_iff_exists.1 hsome
      exact ⟨name, h.folder _ name hname⟩
    · rintro ⟨name, hname⟩
      exact h.isSome _ name hname

/-- **There are no ties**: no round of the search for the commit has a choice among newest commits, and no two names are resolved
to one commit among it and its ancestors. -/
structure NoTies (graph : GitGraphData) (commitId : GitHash) (revParse : RevParse)
    (entries : List (Except String DatasetEntry)) : Prop where
  /-- In the search. -/
  search : ∀ start, graph.getByHash commitId = some start → ∀ s,
    Relation.ReflTransGen (NewestFirst.Follows graph.parentsOf graph.committerTime (HasFolder graph revParse entries))
      (.start start) s → NewestFirst.Untied graph.committerTime (HasFolder graph revParse entries) s
  /-- Of names. -/
  names : ∀ start, graph.getByHash commitId = some start → ∀ id, graph.AncestorOrSelf start id →
    ∀ commit, graph.get id = some commit → ∀ name name', FolderOf revParse entries commit.commit.commitHash name →
      FolderOf revParse entries commit.commit.commitHash name' → name = name'

/-- Where the commit and its ancestors are of different times, no round has a choice. -/
theorem NoTies.of_times (htimes : ∀ start, graph.getByHash commitId = some start →
      Set.InjOn graph.committerTime {id | graph.AncestorOrSelf start id})
    (hnames : ∀ commit name name', FolderOf revParse entries commit name → FolderOf revParse entries commit name' →
      name = name') : NoTies graph commitId revParse entries where
  search start hstart s hs := by
    have hsound := NewestFirst.Sound.of_start.of_follows hs
    exact .of_injOn ((htimes start hstart).mono fun id hid => hsound.reaches id (hsound.current hid))
  names _ _ _ _ _ _ := hnames _

/-- The directory that a run gives, if it gives one. -/
def directory : Option (Outcome DatasetError (Path (Char ⊕ UInt8))) → Option (Path (Char ⊕ UInt8))
  | some (.ok dir) => some dir
  | _ => none

/-- The search with two indexes of the same entries. -/
theorem found_unique (hties : NoTies graph commitId revParse entries) (h : Indexes revParse entries index)
    {start : EnrichedCommitId} (hstart : graph.getByHash commitId = some start) {r r' : Option EnrichedCommitId}
    (hfinds : graph.MayFind (hasDataset graph index) (.start start) r)
    (hfinds' : graph.MayFind (hasDataset graph index) (.start start) r') : r = r' := by
  have hhit : (fun id => hasDataset graph index id = true) = HasFolder graph revParse entries :=
    funext fun id => propext (hasDataset_iff h id)
  unfold GitGraphData.MayFind at hfinds hfinds'
  rw [hhit] at hfinds hfinds'
  exact hfinds.unique hfinds' (hties.search start hstart)

/-- The choice with two indexes of the same entries. -/
theorem chosenDir_unique (hties : NoTies graph commitId revParse entries) {index' : CommitToDirname}
    (h : Indexes revParse entries index) (h' : Indexes revParse entries index') {start id : EnrichedCommitId}
    (hstart : graph.getByHash commitId = some start) (hid : graph.AncestorOrSelf start id)
    (hdataset : hasDataset graph index id = true) (dir : Path (Char ⊕ UInt8)) :
    chosenDir graph index dir id = chosenDir graph index' dir id := by
  obtain ⟨commit, hget, name, hname⟩ := (hasDataset_iff h id).1 hdataset
  obtain ⟨name₁, hname₁⟩ := Option.isSome_iff_exists.1 (h.isSome _ name hname)
  obtain ⟨name₂, hname₂⟩ := Option.isSome_iff_exists.1 (h'.isSome _ name hname)
  have heq := hties.names start hstart id hid commit hget name₁ name₂ (h.folder _ _ hname₁) (h'.folder _ _ hname₂)
  rw [chosenDir, chosenDir, hget]
  dsimp only
  rw [hname₁, hname₂, heq]

/-- **The choice of a dataset does not depend on incidental order** where there are no ties: two runs that differ in the order
in which the directory is listed and in the orders in which the hash sets are iterated give the same directory, or both give
none. -/
theorem dataset_dir_order_independent (hties : NoTies graph commitId revParse entries)
    {entries' : List (Except String DatasetEntry)} (hperm : entries.Perm entries')
    (versionedDatasetsBaseDir : Path (Char ⊕ UInt8)) (datasetName : String)
    (iters iters' : ℕ → IterOrder EnrichedCommitId) {fuel fuel' : ℕ} (hfuel : graph.ecommits.length < fuel)
    (hfuel' : graph.ecommits.length < fuel') :
    directory (datasetDirForCommit graph commitId revParse (.ok entries) versionedDatasetsBaseDir datasetName iters fuel) =
      directory (datasetDirForCommit graph commitId revParse (.ok entries') versionedDatasetsBaseDir datasetName iters'
        fuel') := by
  have hread : ∀ entries, readIndex revParse (.ok entries) = entries.foldlM (insertDatasetEntry revParse) fun _ => none :=
    fun _ => rfl
  rw [datasetDirForCommit, datasetDirForCommit, hread, hread]
  rcases foldlM_insertDatasetEntry revParse entries with ⟨⟨entry, hmem, hbad⟩, e, he⟩ | ⟨hgood, index, hindex, hindexes⟩
  · rcases foldlM_insertDatasetEntry revParse entries' with ⟨-, e', he'⟩ | ⟨hgood', -⟩
    · rw [he, he']
      rfl
    · exact absurd hbad (hgood' entry (hperm.mem_iff.1 hmem))
  · rcases foldlM_insertDatasetEntry revParse entries' with ⟨⟨entry, hmem, hbad⟩, -⟩ | ⟨-, index', hindex', hindexes'⟩
    · exact absurd hbad (hgood entry (hperm.mem_iff.2 hmem))
    · replace hindexes' : Indexes revParse entries index' :=
        ⟨fun commit name h => (folderOf_perm hperm).2 (hindexes'.folder commit name h),
          fun commit name h => hindexes'.isSome commit name ((folderOf_perm hperm).1 h)⟩
      rw [hindex, hindex']
      dsimp only
      cases hstart : graph.getByHash commitId with
      | none => rfl
      | some start =>
        obtain ⟨commit, hget, -⟩ := GitGraphData.exists_of_byHash hstart
        have hfor : (graph.get start).isSome := Option.isSome_iff_exists.2 ⟨commit, hget⟩
        have hsame : hasDataset graph index' = hasDataset graph index := by
          funext id
          rw [Bool.eq_iff_iff, hasDataset_iff hindexes, hasDataset_iff hindexes']
        obtain ⟨r, hfinds, hr⟩ := GitGraphData.closestMatchingAncestorOf_spec hfor (hasDataset graph index) iters
        obtain ⟨r', hfinds', hr'⟩ := GitGraphData.closestMatchingAncestorOf_spec hfor (hasDataset graph index) iters'
        obtain rfl := found_unique hties hindexes hstart hfinds hfinds'
        dsimp only
        rw [hsame, hr fuel hfuel, hr' fuel' hfuel']
        cases r with
        | none => rfl
        | some id =>
          obtain ⟨hreaches, hdataset⟩ := hfinds.sound .of_start id rfl
          show directory (some (chosenDir graph index _ id)) = directory (some (chosenDir graph index' _ id))
          rw [chosenDir_unique hties hindexes hindexes' hstart hreaches hdataset]

end TwoRuns

/-! ### A tie -/

/-- The directory of a revision. -/
def sampleEntry (name : Char) : Except String DatasetEntry := .ok ⟨.ofChars [name], .dir⟩

/-- `a` is the commit 100, and `b` is the commit 101. -/
def sampleRevParse : RevParse := fun name =>
  if name = "a" then .ok (some (GitHash.mk 100).display)
  else if name = "b" then .ok (some (GitHash.mk 101).display)
  else .ok none

/-- A merge of two commits of different times. -/
def mergedCommits : GitGraphData :=
  GitGraphData.new.pushAll [GitGraphData.sampleCommit 100 5 [], GitGraphData.sampleCommit 101 4 [],
    GitGraphData.sampleCommit 102 6 [0, 1]]

/-- A merge of two commits of the same time. -/
def tiedCommits : GitGraphData :=
  GitGraphData.new.pushAll [GitGraphData.sampleCommit 100 5 [], GitGraphData.sampleCommit 101 5 [],
    GitGraphData.sampleCommit 102 6 [0, 1]]

/-- The directory of the datasets. -/
def datasetsDir : Path (Char ⊕ UInt8) := ⟨.root, []⟩

theorem folderOf_sample {commit : GitHash} {name : ProperFilename}
    (h : FolderOf sampleRevParse [sampleEntry 'a', sampleEntry 'b'] commit name) :
    commit = ⟨100⟩ ∧ name = ⟨"a", by decide⟩ ∨ commit = ⟨101⟩ ∧ name = ⟨"b", by decide⟩ := by
  have ha : readDatasetEntry sampleRevParse (sampleEntry 'a') = .ok (some (⟨100⟩, ⟨"a", by decide⟩)) := by decide +kernel
  have hb : readDatasetEntry sampleRevParse (sampleEntry 'b') = .ok (some (⟨101⟩, ⟨"b", by decide⟩)) := by decide +kernel
  obtain ⟨entry, hmem, hentry⟩ := h
  rcases List.mem_pair.1 hmem with rfl | rfl
  · rw [ha] at hentry
    cases hentry
    exact .inl ⟨rfl, rfl⟩
  · rw [hb] at hentry
    cases hentry
    exact .inr ⟨rfl, rfl⟩

theorem mergedCommits_noTies : NoTies mergedCommits ⟨102⟩ sampleRevParse [sampleEntry 'a', sampleEntry 'b'] := by
  refine .of_times (fun start hstart a ha b hb htime => ?_) fun commit name name' hname hname' => ?_
  · obtain ⟨commit, hget, -⟩ := GitGraphData.exists_of_byHash hstart
    have hfor : (mergedCommits.get start).isSome := Option.isSome_iff_exists.2 ⟨commit, hget⟩
    have hlt : ∀ id, mergedCommits.AncestorOrSelf start id → id.index.toNat < 3 := fun id hid =>
      GitGraphData.isSome_get.1 (GitGraphData.isSome_get_of_reaches hfor hid)
    have hall : ∀ i < 3, ∀ j < 3, mergedCommits.committerTime ⟨UInt32.ofNat i⟩ =
        mergedCommits.committerTime ⟨UInt32.ofNat j⟩ → i = j := by decide +kernel
    have hindex := hall _ (hlt a ha) _ (hlt b hb) (by rwa [UInt32.ofNat_toNat, UInt32.ofNat_toNat])
    exact congrArg EnrichedCommitId.mk (UInt32.toNat_inj.1 hindex)
  · rcases folderOf_sample hname with ⟨rfl, rfl⟩ | ⟨rfl, rfl⟩
    · rcases folderOf_sample hname' with ⟨-, rfl⟩ | ⟨hcommit, -⟩
      · rfl
      · cases hcommit
    · rcases folderOf_sample hname' with ⟨hcommit, -⟩ | ⟨-, rfl⟩
      · cases hcommit
      · rfl

/-- A merge of commits of different times that both have a directory: the later one is taken, however the directories are
listed and the sets are iterated. -/
theorem dataset_dir_sample :
    directory (datasetDirForCommit mergedCommits ⟨102⟩ sampleRevParse (.ok [sampleEntry 'a', sampleEntry 'b']) datasetsDir "D"
        (fun _ => GitGraphData.ascending) 4) =
      directory (datasetDirForCommit mergedCommits ⟨102⟩ sampleRevParse (.ok [sampleEntry 'b', sampleEntry 'a']) datasetsDir "D"
        (fun _ => GitGraphData.descending) 4) :=
  dataset_dir_order_independent mergedCommits_noTies (.swap _ _ _) datasetsDir "D" (fun _ => GitGraphData.ascending)
    (fun _ => GitGraphData.descending) (by decide +kernel) (by decide +kernel)

/-- Of two commits of the same time, the one that is iterated last is taken. -/
theorem dataset_dir_order_dependent : ¬ ∀ (graph : GitGraphData) (commitId : GitHash) (revParse : RevParse)
    (entries entries' : List (Except String DatasetEntry)), entries.Perm entries' → ∀ dir datasetName iters iters' fuel,
      graph.ecommits.length < fuel →
        directory (datasetDirForCommit graph commitId revParse (.ok entries) dir datasetName iters fuel) =
          directory (datasetDirForCommit graph commitId revParse (.ok entries') dir datasetName iters' fuel) := by
  intro hall
  have h := hall tiedCommits ⟨102⟩ sampleRevParse [sampleEntry 'a', sampleEntry 'b'] _ (.refl _) datasetsDir "D"
    (fun _ => GitGraphData.ascending) (fun _ => GitGraphData.descending) 4 (by decide +kernel)
  have hname := congrArg (fun dir => (dir.bind Path.fileName).map FileName.text) h
  exact absurd hname (by decide +kernel)

end Evobench.Run

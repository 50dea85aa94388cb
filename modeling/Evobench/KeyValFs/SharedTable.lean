import Evobench.IoUtils.OpenFiles
import Evobench.KeyValFs.Queue
import Evobench.Library.RelyGuarantee

/-!
# A table that several sessions work on

`KeyVal::insert` writes to a temporary file whose name is derived from the key, and which is therefore the same
for all processes. What keeps them apart is the lock on the directory. `KeyVal::delete` and `Entry::delete` do
without it.

## The model

* `KeyVal.Sound`: what holds of the files of a table at any time, also in each state in which the directory can
  be found after a loss of power.
* `KeyVal.Effect`: what one operation of a session does to the files of a table. `KeyVal.Minor`: what it can do
  while another session holds the lock.
* `KeyVal.Among`: the changes made by other sessions.
* `KeyVal.Kept`: a key has been inserted for good.

## What is proved

* `KeyVal.Effect.sound`: the table stays sound.
* `KeyVal.guarantees_insert`: among others, `insert` has such effects only, and after `Ok` its key is kept.
* `KeyVal.guarantees_delete`: the same for `delete`.
-/

namespace Evobench.KeyValFs

open Library IoUtils

variable {C X S : Type} {R : X → Type} {K V : Type}

/-- Texts that are stored as they are. -/
instance : Serde String String := ⟨id, some, fun _ => rfl⟩

namespace KeyVal

variable [AsKey K]

/-- The name of the temporary file for a key. -/
def tmpName (key : K) : String := "." ++ asFilenameStr key

omit [AsKey K] in
theorem tmpName_ne_asFilenameStr {K' : Type} [AsKey K] [AsKey K'] (key : K) (key' : K') :
    tmpName key ≠ asFilenameStr key' := by
  intro h
  have htmp := isTmp_asFilenameStr key'
  rw [← h, tmpName, isTmp_dot] at htmp
  cases htmp

/-! ### Sound tables -/

/-- What holds of the files of a table. -/
structure Sound (kv : KeyVal K V) (valid : K → C → Prop) (st : Store C S) : Prop where
  /-- The files are numbered. -/
  bounded : ∀ d, (st.folders kv.baseDir).May d → ∀ a n, d.lookup a = some n → n < st.fresh
  /-- A file has one name. -/
  injective : ∀ d, (st.folders kv.baseDir).May d → ∀ a b n, d.lookup a = some n → d.lookup b = some n → a = b
  /-- There are files for keys, and temporary files. -/
  named : ∀ d, (st.folders kv.baseDir).May d → ∀ a n, d.lookup a = some n →
    ∃ key : K, a = asFilenameStr key ∨ a = tmpName key
  /-- The file of a key has a valid content for it. -/
  complete : ∀ d, (st.folders kv.baseDir).May d → ∀ (key : K) n, d.lookup (asFilenameStr key) = some n →
    (kv.sync.doSyncFiles = true → st.synced n = true) ∧ ∃ c, st.content n = some c ∧ valid key c
  /-- What is a temporary file now is not found under another name. -/
  tmp : ∀ (key : K) n, st.inode kv.baseDir (tmpName key) = some n →
    ∀ d, (st.folders kv.baseDir).May d → ∀ a, d.lookup a = some n → a = tmpName key

section Sound

variable {kv : KeyVal K V} {valid : K → C → Prop} {st : Store C S} {key key' : K} {n : Inode}

theorem Sound.lt_fresh (h : kv.Sound valid st) {a : String} (hn : st.inode kv.baseDir a = some n) : n < st.fresh :=
  h.bounded _ (Folder.may_names _) a n hn

/-- A file of a key is not a temporary file of another one. -/
theorem Sound.ne_of_tmp (h : kv.Sound valid st) {m : Inode} (htmp : st.inode kv.baseDir (tmpName key) = some n)
    {d : Names} (hd : (st.folders kv.baseDir).May d) (hm : d.lookup (asFilenameStr key') = some m) : m ≠ n := by
  rintro rfl
  exact tmpName_ne_asFilenameStr key key' (h.tmp key m htmp d hd _ hm).symm

/-- An empty directory is a table. -/
theorem sound_of_empty (h : st.folders kv.baseDir = ⟨∅, []⟩) : kv.Sound valid st := by
  have hnone : ∀ d, (st.folders kv.baseDir).May d → ∀ a n, d.lookup a ≠ some n := by
    intro d hd a n hn
    rw [h, Folder.may_of_pending rfl] at hd
    rw [hd, AList.lookup_empty] at hn
    cases hn
  have hmay := Folder.may_names (st.folders kv.baseDir)
  exact ⟨fun d hd a n hn => absurd hn (hnone d hd a n), fun d hd a b n hn => absurd hn (hnone d hd a n),
    fun d hd a n hn => absurd hn (hnone d hd a n), fun d hd key n hn => absurd hn (hnone d hd _ n),
    fun key n hn => absurd hn (hnone _ hmay _ n)⟩

theorem Sound.sync (h : kv.Sound valid st) : kv.Sound valid (st.sync n) := by
  refine ⟨h.bounded, h.injective, h.named, fun d hd key m hm => ?_, h.tmp⟩
  obtain ⟨hsynced, hcontent⟩ := h.complete d hd key m hm
  refine ⟨fun hfiles => ?_, hcontent⟩
  show Function.update st.synced n true m = true
  rw [Function.update_apply]
  split_ifs
  · rfl
  · exact hsynced hfiles

theorem Sound.syncDir (h : kv.Sound valid st) : kv.Sound valid (st.syncDir kv.baseDir) := by
  have hmay : ∀ d, ((st.syncDir kv.baseDir).folders kv.baseDir).May d → (st.folders kv.baseDir).May d := by
    intro d hd
    rw [Store.folders_syncDir_self, Folder.may_sync] at hd
    rw [hd]
    exact Folder.may_names _
  refine ⟨fun d hd => h.bounded d (hmay d hd), fun d hd => h.injective d (hmay d hd), fun d hd => h.named d (hmay d hd),
    fun d hd => h.complete d (hmay d hd), fun key n hn d hd => ?_⟩
  rw [Store.inode_syncDir] at hn
  exact h.tmp key n hn d (hmay d hd)

/-- The name of a key's file is removed. -/
theorem Sound.unlink (h : kv.Sound valid st) (s : S) :
    kv.Sound valid (st.change s kv.baseDir (.unlink (asFilenameStr key) n)) := by
  have hold : ∀ d, ((st.change s kv.baseDir (.unlink (asFilenameStr key) n)).folders kv.baseDir).May d →
      ∃ d', (st.folders kv.baseDir).May d' ∧ ∀ a m, d.lookup a = some m → d'.lookup a = some m := by
    intro d hd
    rw [Store.folders_change_self, Folder.may_change] at hd
    rcases hd with hd | ⟨d', hd', rfl⟩
    · exact ⟨d, hd, fun _ _ => id⟩
    · refine ⟨d', hd', fun a m hm => ?_⟩
      rw [lookup_unlink] at hm
      split_ifs at hm
      exact hm
  refine ⟨fun d hd a m hm => ?_, fun d hd a b m ha hb => ?_, fun d hd a m hm => ?_, fun d hd key' m hm => ?_,
    fun key' m hm d hd a ha => ?_⟩
  · obtain ⟨d', hd', hsub⟩ := hold d hd
    exact h.bounded d' hd' a m (hsub a m hm)
  · obtain ⟨d', hd', hsub⟩ := hold d hd
    exact h.injective d' hd' a b m (hsub a m ha) (hsub b m hb)
  · obtain ⟨d', hd', hsub⟩ := hold d hd
    exact h.named d' hd' a m (hsub a m hm)
  · obtain ⟨d', hd', hsub⟩ := hold d hd
    exact h.complete d' hd' key' m (hsub _ m hm)
  · obtain ⟨d', hd', hsub⟩ := hold d hd
    rw [Store.inode_unlink, if_neg (tmpName_ne_asFilenameStr key' key)] at hm
    exact h.tmp key' m hm d' hd' a (hsub a m ha)

/-- A temporary file is created. -/
theorem Sound.create (h : kv.Sound valid st) (s : S) : kv.Sound valid (st.create s kv.baseDir (tmpName key)) := by
  have hold : ∀ d, ((st.create s kv.baseDir (tmpName key)).folders kv.baseDir).May d →
      ∃ d', (st.folders kv.baseDir).May d' ∧
        ∀ a m, d.lookup a = some m → (a = tmpName key ∧ m = st.fresh) ∨ d'.lookup a = some m := by
    intro d hd
    rw [Store.folders_create, Store.folders_change_self, Folder.may_change] at hd
    rcases hd with hd | ⟨d', hd', rfl⟩
    · exact ⟨d, hd, fun _ _ => .inr⟩
    · refine ⟨d', hd', fun a m hm => ?_⟩
      rw [lookup_link] at hm
      split_ifs at hm with ha
      · exact .inl ⟨ha, (Option.some.inj hm).symm⟩
      · exact .inr hm
  refine ⟨fun d hd a m hm => ?_, fun d hd a b m ha hb => ?_, fun d hd a m hm => ?_, fun d hd key' m hm => ?_,
    fun key' m hm d hd a ha => ?_⟩
  · obtain ⟨d', hd', hsub⟩ := hold d hd
    rw [Store.fresh_create]
    rcases hsub a m hm with ⟨-, rfl⟩ | hm
    · exact Nat.lt_succ_self _
    · exact Nat.lt_succ_of_lt (h.bounded d' hd' a m hm)
  · obtain ⟨d', hd', hsub⟩ := hold d hd
    rcases hsub a m ha with ⟨rfl, rfl⟩ | ha
    · rcases hsub b _ hb with ⟨rfl, -⟩ | hb
      · rfl
      · exact absurd (h.bounded d' hd' b _ hb) (lt_irrefl _)
    · rcases hsub b m hb with ⟨rfl, rfl⟩ | hb
      · exact absurd (h.bounded d' hd' a _ ha) (lt_irrefl _)
      · exact h.injective d' hd' a b m ha hb
  · obtain ⟨d', hd', hsub⟩ := hold d hd
    rcases hsub a m hm with ⟨rfl, -⟩ | hm
    · exact ⟨key, .inr rfl⟩
    · exact h.named d' hd' a m hm
  · obtain ⟨d', hd', hsub⟩ := hold d hd
    rcases hsub _ m hm with ⟨he, -⟩ | hm
    · exact absurd he.symm (tmpName_ne_asFilenameStr key key')
    · have hne := (h.bounded d' hd' _ m hm).ne
      obtain ⟨hsynced, c, hc, hvalid⟩ := h.complete d' hd' key' m hm
      refine ⟨fun hfiles => ?_, c, ?_, hvalid⟩
      · exact (Function.update_of_ne hne _ _).trans (hsynced hfiles)
      · exact (Function.update_of_ne hne _ _).trans hc
  · obtain ⟨d', hd', hsub⟩ := hold d hd
    rw [Store.inode_create] at hm
    split_ifs at hm with hkey
    · cases hm
      rw [hkey]
      rcases hsub a _ ha with ⟨rfl, -⟩ | ha
      · rfl
      · exact absurd (h.bounded d' hd' a _ ha) (lt_irrefl _)
    · rcases hsub a m ha with ⟨-, rfl⟩ | ha
      · exact absurd (h.lt_fresh hm) (lt_irrefl _)
      · exact h.tmp key' m hm d' hd' a ha

/-- A temporary file is written to. -/
theorem Sound.write (h : kv.Sound valid st) (hn : st.inode kv.baseDir (tmpName key) = some n) (content : Option C) :
    kv.Sound valid (st.write n content) := by
  refine ⟨h.bounded, h.injective, h.named, fun d hd key' m hm => ?_, h.tmp⟩
  have hne := h.ne_of_tmp hn hd hm
  obtain ⟨hsynced, c, hc, hvalid⟩ := h.complete d hd key' m hm
  refine ⟨fun hfiles => ?_, c, ?_, hvalid⟩
  · exact (Function.update_of_ne hne _ _).trans (hsynced hfiles)
  · exact (Function.update_of_ne hne _ _).trans hc

/-- A temporary file with a valid content becomes the file of the key. -/
theorem Sound.move (h : kv.Sound valid st) (s : S) (hn : st.inode kv.baseDir (tmpName key) = some n) {c : C}
    (hc : st.content n = some c) (hvalid : valid key c) (hsynced : kv.sync.doSyncFiles = true → st.synced n = true) :
    kv.Sound valid (st.change s kv.baseDir (.move (tmpName key) (asFilenameStr key) n)) := by
  have hold : ∀ d, ((st.change s kv.baseDir (.move (tmpName key) (asFilenameStr key) n)).folders kv.baseDir).May d →
      ∃ d', (st.folders kv.baseDir).May d' ∧ ((∀ a m, d.lookup a = some m → d'.lookup a = some m) ∨
        ∀ a m, d.lookup a = some m → (a = asFilenameStr key ∧ m = n) ∨ (m ≠ n ∧ d'.lookup a = some m)) := by
    intro d hd
    rw [Store.folders_change_self, Folder.may_change] at hd
    rcases hd with hd | ⟨d', hd', rfl⟩
    · exact ⟨d, hd, .inl fun _ _ => id⟩
    · refine ⟨d', hd', .inr fun a m hm => ?_⟩
      rw [lookup_move] at hm
      split_ifs at hm with ha ha'
      · exact .inl ⟨ha, (Option.some.inj hm).symm⟩
      · refine .inr ⟨?_, hm⟩
        rintro rfl
        exact ha' (h.tmp key m hn d' hd' a hm)
  refine ⟨fun d hd a m hm => ?_, fun d hd a b m ha hb => ?_, fun d hd a m hm => ?_, fun d hd key' m hm => ?_,
    fun key' m hm d hd a ha => ?_⟩
  · obtain ⟨d', hd', hsub | hsub⟩ := hold d hd
    · exact h.bounded d' hd' a m (hsub a m hm)
    · rcases hsub a m hm with ⟨-, rfl⟩ | ⟨-, hm⟩
      · exact h.lt_fresh hn
      · exact h.bounded d' hd' a m hm
  · obtain ⟨d', hd', hsub | hsub⟩ := hold d hd
    · exact h.injective d' hd' a b m (hsub a m ha) (hsub b m hb)
    · rcases hsub a m ha with ⟨rfl, rfl⟩ | ⟨hne, ha⟩
      · rcases hsub b _ hb with ⟨rfl, -⟩ | ⟨hne, -⟩
        · rfl
        · exact absurd rfl hne
      · rcases hsub b m hb with ⟨-, rfl⟩ | ⟨-, hb⟩
        · exact absurd rfl hne
        · exact h.injective d' hd' a b m ha hb
  · obtain ⟨d', hd', hsub | hsub⟩ := hold d hd
    · exact h.named d' hd' a m (hsub a m hm)
    · rcases hsub a m hm with ⟨rfl, -⟩ | ⟨-, hm⟩
      · exact ⟨key, .inl rfl⟩
      · exact h.named d' hd' a m hm
  · obtain ⟨d', hd', hsub | hsub⟩ := hold d hd
    · exact h.complete d' hd' key' m (hsub _ m hm)
    · rcases hsub _ m hm with ⟨he, rfl⟩ | ⟨-, hm⟩
      · cases asFilenameStr_injective he
        exact ⟨hsynced, c, hc, hvalid⟩
      · exact h.complete d' hd' key' m hm
  · obtain ⟨d', hd', hsub⟩ := hold d hd
    rw [Store.inode_move, if_neg (tmpName_ne_asFilenameStr key' key)] at hm
    split_ifs at hm with hkey
    have hne : m ≠ n := by
      rintro rfl
      exact hkey (h.injective _ (Folder.may_names _) _ _ m hm hn)
    rcases hsub with hsub | hsub
    · exact h.tmp key' m hm d' hd' a (hsub a m ha)
    · rcases hsub a m ha with ⟨-, rfl⟩ | ⟨-, ha⟩
      · exact absurd rfl hne
      · exact h.tmp key' m hm d' hd' a ha

/-- **After a loss of power** the table is sound, if files are synced. -/
theorem Sound.recovers {w w' : Kernel C X R S} (h : kv.Sound valid w.store) (hfiles : kv.sync.doSyncFiles = true)
    (hr : w.Recovers w') : kv.Sound valid w'.store := by
  have hmay : ∀ d, (w'.store.folders kv.baseDir).May d → (w.store.folders kv.baseDir).May d := by
    intro d hd
    rw [Folder.may_of_pending (hr.pending _)] at hd
    rw [hd]
    exact hr.durable _
  refine ⟨fun d hd a n hn => ?_, fun d hd => h.injective d (hmay d hd), fun d hd => h.named d (hmay d hd),
    fun d hd key n hn => ?_, fun key n hn d hd a ha => ?_⟩
  · rw [hr.fresh]
    exact h.bounded d (hmay d hd) a n hn
  · obtain ⟨hsynced, c, hc, hvalid⟩ := h.complete d (hmay d hd) key n hn
    refine ⟨fun _ => ?_, c, ?_, hvalid⟩
    · rw [hr.synced]
      exact hsynced hfiles
    · rw [hr.content n (hsynced hfiles)]
      exact hc
  · -- there is only the one state left
    rw [Store.inode, Folder.names_of_pending (hr.pending _)] at hn
    rw [Folder.may_of_pending (hr.pending _)] at hd
    rw [hd] at ha
    exact h.injective _ (hr.durable _) a _ n ha hn

end Sound

/-! ### What one operation does to the files -/

/-- What an operation can do without the lock on the directory: nothing to the files, or sync some of them, or
remove the file of a key, if the session `deletes`. -/
inductive Minor (kv : KeyVal K V) (deletes : Prop) (s : S) (st st' : Store C S) : Prop where
  /-- Nothing. -/
  | quiet (hstore : st' = st)
  /-- A file has been synced. -/
  | syncedFile (n : Inode) (hstore : st' = st.sync n)
  /-- The directory has been synced. -/
  | syncedDir (hstore : st' = st.syncDir kv.baseDir)
  /-- The file of a key has been removed. -/
  | unlinked (key : K) (n : Inode) (hdeletes : deletes) (hn : st.inode kv.baseDir (asFilenameStr key) = some n)
      (hstore : st' = st.change s kv.baseDir (.unlink (asFilenameStr key) n))

/-- What an operation of a session does to the files. What is not minor, it does only with the lock on the
directory; if the session's insertions are exclusive, then the key's name was free when its file gets it. -/
inductive Effect (kv : KeyVal K V) (valid : K → C → Prop) (exclusive : S → Bool) (deletes : Prop) (s : S)
    (w w' : Kernel C X R S) : Prop where
  /-- Something minor. -/
  | minor (h : kv.Minor deletes s w.store w'.store)
  /-- A temporary file has been made. -/
  | created (key : K) (hlock : w.locks (.path kv.baseDir) = some s)
      (hstore : w'.store = w.store.create s kv.baseDir (tmpName key))
  /-- A temporary file has been written to. -/
  | wrote (key : K) (n : Inode) (c : Option C) (hlock : w.locks (.path kv.baseDir) = some s)
      (hn : w.store.inode kv.baseDir (tmpName key) = some n) (hstore : w'.store = w.store.write n c)
  /-- A temporary file has become the file of its key. -/
  | moved (key : K) (n : Inode) (c : C) (hlock : w.locks (.path kv.baseDir) = some s)
      (hn : w.store.inode kv.baseDir (tmpName key) = some n) (hc : w.store.content n = some c) (hvalid : valid key c)
      (hsynced : kv.sync.doSyncFiles = true → w.store.synced n = true)
      (hexclusive : exclusive s = true → w.store.inode kv.baseDir (asFilenameStr key) = none)
      (hstore : w'.store = w.store.change s kv.baseDir (.move (tmpName key) (asFilenameStr key) n))

section Effect

variable {kv : KeyVal K V} {valid : K → C → Prop} {exclusive : S → Bool} {deletes : Prop} {s t : S}
  {w w' : Kernel C X R S}

theorem Minor.sound {st st' : Store C S} (h : kv.Minor deletes s st st') (hs : kv.Sound valid st) :
    kv.Sound valid st' := by
  cases h with
  | quiet hstore =>
    rw [hstore]
    exact hs
  | syncedFile n hstore =>
    rw [hstore]
    exact hs.sync
  | syncedDir hstore =>
    rw [hstore]
    exact hs.syncDir
  | unlinked key n hdeletes hn hstore =>
    rw [hstore]
    exact hs.unlink s

/-- **The table stays sound.** -/
theorem Effect.sound (h : kv.Effect valid exclusive deletes s w w') (hs : kv.Sound valid w.store) :
    kv.Sound valid w'.store := by
  cases h with
  | minor h => exact h.sound hs
  | created key hlock hstore =>
    rw [hstore]
    exact hs.create s
  | wrote key n c hlock hn hstore =>
    rw [hstore]
    exact hs.write hn c
  | moved key n c hlock hn hc hvalid hsynced hexclusive hstore =>
    rw [hstore]
    exact hs.move s hn hc hvalid hsynced

theorem Minor.imp {deletes' : Prop} {st st' : Store C S} (h : kv.Minor deletes s st st') (hd : deletes → deletes') :
    kv.Minor deletes' s st st' := by
  cases h with
  | quiet hstore => exact .quiet hstore
  | syncedFile n hstore => exact .syncedFile n hstore
  | syncedDir hstore => exact .syncedDir hstore
  | unlinked key n hdeletes hn hstore => exact .unlinked key n (hd hdeletes) hn hstore

theorem Effect.imp {deletes' : Prop} (h : kv.Effect valid exclusive deletes s w w') (hd : deletes → deletes') :
    kv.Effect valid exclusive deletes' s w w' := by
  cases h with
  | minor h => exact .minor (h.imp hd)
  | created key hlock hstore => exact .created key hlock hstore
  | wrote key n c hlock hn hstore => exact .wrote key n c hlock hn hstore
  | moved key n c hlock hn hc hvalid hsynced hexclusive hstore =>
    exact .moved key n c hlock hn hc hvalid hsynced hexclusive hstore

/-- What has been logged stays in the log. -/
theorem Effect.mem_log (h : kv.Effect valid exclusive deletes s w w') {e : Logged S} (he : e ∈ w.store.log) :
    e ∈ w'.store.log := by
  cases h with
  | minor h =>
    cases h with
    | quiet hstore => rwa [hstore]
    | syncedFile n hstore => rwa [hstore]
    | syncedDir hstore => rwa [hstore]
    | unlinked key n hdeletes hn hstore =>
      rw [hstore]
      exact List.mem_cons_of_mem _ he
  | created key hlock hstore =>
    rw [hstore]
    exact List.mem_cons_of_mem _ he
  | wrote key n c hlock hn hstore => rwa [hstore]
  | moved key n c hlock hn hc hvalid hsynced hexclusive hstore =>
    rw [hstore]
    exact List.mem_cons_of_mem _ he

/-- With the lock in other hands, only something minor can be done. -/
theorem Effect.minor_of_locked (h : kv.Effect valid exclusive deletes t w w')
    (hlock : w.locks (.path kv.baseDir) = some s) (ht : t ≠ s) : kv.Minor deletes t w.store w'.store := by
  have hno : w.locks (.path kv.baseDir) ≠ some t := by
    rw [hlock]
    exact fun he => ht (Option.some.inj he).symm
  cases h with
  | minor h => exact h
  | created key hlock' hstore => exact absurd hlock' hno
  | wrote key n c hlock' hn hstore => exact absurd hlock' hno
  | moved key n c hlock' hn hc hvalid hsynced hexclusive hstore => exact absurd hlock' hno

section Minor

variable {st st' : Store C S} (h : kv.Minor deletes s st st')
include h

theorem Minor.inode_tmp (key : K) : st'.inode kv.baseDir (tmpName key) = st.inode kv.baseDir (tmpName key) := by
  cases h with
  | quiet hstore => rw [hstore]
  | syncedFile n hstore => rw [hstore, Store.inode_sync]
  | syncedDir hstore => rw [hstore, Store.inode_syncDir]
  | unlinked key' n hdeletes hn hstore => rw [hstore, Store.inode_unlink, if_neg (tmpName_ne_asFilenameStr key key')]

theorem Minor.inode_none {a : String} (ha : st.inode kv.baseDir a = none) : st'.inode kv.baseDir a = none := by
  cases h with
  | quiet hstore => rw [hstore, ha]
  | syncedFile n hstore => rw [hstore, Store.inode_sync, ha]
  | syncedDir hstore => rw [hstore, Store.inode_syncDir, ha]
  | unlinked key' n hdeletes hn hstore => rw [hstore, Store.inode_unlink, ha, ite_self]

theorem Minor.content : st'.content = st.content := by
  cases h with
  | quiet hstore => rw [hstore]
  | syncedFile n hstore => rw [hstore, Store.content_sync]
  | syncedDir hstore => rw [hstore, Store.content_syncDir]
  | unlinked key' n hdeletes hn hstore => rw [hstore, Store.content_change]

theorem Minor.synced {n : Inode} (hn : st.synced n = true) : st'.synced n = true := by
  cases h with
  | quiet hstore => rw [hstore, hn]
  | syncedFile m hstore =>
    rw [hstore]
    show Function.update st.synced m true n = true
    rw [Function.update_apply, hn, ite_self]
  | syncedDir hstore => rw [hstore, Store.synced_syncDir, hn]
  | unlinked key' m hdeletes hm hstore => rw [hstore, Store.synced_change, hn]

end Minor

end Effect

/-! ### Insertions that last -/

/-- A change puts a file under the name. -/
def Puts (dir name : String) (e : Logged S) : Prop := e.dir = dir ∧ ∃ source n, e.change = .move source name n

/-- A change removes the name. -/
def Removes (dir name : String) (e : Logged S) : Prop := e.dir = dir ∧ ∃ n, e.change = .unlink name n

/-- What has become of a key since it was inserted, when `since` are the changes made in the meantime. -/
structure KeptSince (kv : KeyVal K V) (exclusive : S → Bool) (key : K) (n : Inode) (c : C) (st : Store C S)
    (since : List (Logged S)) : Prop where
  /-- If it has not been deleted, then it has a file, whatever happens. -/
  there : (∀ e ∈ since, ¬ Removes kv.baseDir (asFilenameStr key) e) →
    ∀ d, (st.folders kv.baseDir).May d → ∃ m, d.lookup (asFilenameStr key) = some m
  /-- If it has not been inserted again either, then the file has still the same content. -/
  same : (∀ e ∈ since, ¬ Removes kv.baseDir (asFilenameStr key) e ∧ ¬ Puts kv.baseDir (asFilenameStr key) e) →
    (∀ d, (st.folders kv.baseDir).May d → d.lookup (asFilenameStr key) = some n) ∧ st.content n = some c
  /-- An exclusive insertion came only after it had been deleted. -/
  exclusive : ∀ later e earlier, since = later ++ e :: earlier → Puts kv.baseDir (asFilenameStr key) e →
    exclusive e.session = true → ∃ r ∈ earlier, Removes kv.baseDir (asFilenameStr key) r

/-- The change with which a session puts a key's file in place. -/
def putOf (kv : KeyVal K V) (s : S) (key : K) (n : Inode) : Logged S :=
  ⟨s, kv.baseDir, .move (tmpName key) (asFilenameStr key) n⟩

/-- The session has inserted the key, for good. -/
def Kept (kv : KeyVal K V) (exclusive : S → Bool) (s : S) (key : K) (c : C) (st : Store C S) : Prop :=
  ∃ n since before, st.log = since ++ kv.putOf s key n :: before ∧ kv.KeptSince exclusive key n c st since

section Kept

variable {kv : KeyVal K V} {valid : K → C → Prop} {exclusive : S → Bool} {deletes : Prop} {s t : S} {key key' : K}
  {n m : Inode} {c : C} {st st' : Store C S} {since : List (Logged S)}

theorem removes_unlink : Removes kv.baseDir (asFilenameStr key) ⟨s, kv.baseDir, .unlink (asFilenameStr key) n⟩ :=
  ⟨rfl, n, rfl⟩

theorem puts_putOf : Puts kv.baseDir (asFilenameStr key) (kv.putOf s key n) := ⟨rfl, _, n, rfl⟩

theorem key_of_puts (h : Puts kv.baseDir (asFilenameStr key) (kv.putOf s key' n)) : key' = key := by
  obtain ⟨-, source, m, h⟩ := h
  exact asFilenameStr_injective (Change.move.inj h).2.1

/-- A change that is no insertion does not add one. -/
theorem KeptSince.exclusive_cons {e : Logged S} (h : kv.KeptSince exclusive key n c st since)
    (he : Puts kv.baseDir (asFilenameStr key) e → exclusive e.session = true →
      ∃ r ∈ since, Removes kv.baseDir (asFilenameStr key) r) :
    ∀ later f earlier, e :: since = later ++ f :: earlier → Puts kv.baseDir (asFilenameStr key) f →
      exclusive f.session = true → ∃ r ∈ earlier, Removes kv.baseDir (asFilenameStr key) r := by
  intro later f earlier heq hputs hexclusive
  cases later with
  | nil =>
    cases heq
    exact he hputs hexclusive
  | cons e' later =>
    obtain ⟨-, heq⟩ := List.cons.inj heq
    exact h.exclusive later f earlier heq hputs hexclusive

/-- Nothing happens to the directory, and each file found in it keeps its content. -/
theorem KeptSince.of_may (h : kv.KeptSince exclusive key n c st since)
    (hmay : ∀ d, (st'.folders kv.baseDir).May d → (st.folders kv.baseDir).May d)
    (hcontent : (∀ d, (st.folders kv.baseDir).May d → d.lookup (asFilenameStr key) = some n) →
      st'.content n = st.content n) : kv.KeptSince exclusive key n c st' since := by
  refine ⟨fun hremoves d hd => h.there hremoves d (hmay d hd), fun hnone => ?_, h.exclusive⟩
  obtain ⟨hsame, hc⟩ := h.same hnone
  exact ⟨fun d hd => hsame d (hmay d hd), (hcontent hsame).trans hc⟩

/-- A change that is about other names. -/
theorem KeptSince.change_other (h : kv.KeptSince exclusive key n c st since) {e : Logged S}
    (hlookup : ∀ d, (e.change.apply d).lookup (asFilenameStr key) = d.lookup (asFilenameStr key))
    (hputs : ¬ Puts kv.baseDir (asFilenameStr key) e)
    (hmay : ∀ d, (st'.folders kv.baseDir).May d → ((st.folders kv.baseDir).change e.change).May d)
    (hcontent : (∀ d, (st.folders kv.baseDir).May d → d.lookup (asFilenameStr key) = some n) →
      st'.content n = st.content n) : kv.KeptSince exclusive key n c st' (e :: since) := by
  have hold : ∀ d, (st'.folders kv.baseDir).May d →
      ∃ d', (st.folders kv.baseDir).May d' ∧ d.lookup (asFilenameStr key) = d'.lookup (asFilenameStr key) := by
    intro d hd
    rcases Folder.may_change.1 (hmay d hd) with hd | ⟨d', hd', rfl⟩
    · exact ⟨d, hd, rfl⟩
    · exact ⟨d', hd', hlookup d'⟩
  refine ⟨fun hremoves d hd => ?_, fun hnone => ?_, h.exclusive_cons fun hp => absurd hp hputs⟩
  · obtain ⟨d', hd', he⟩ := hold d hd
    rw [he]
    exact h.there (fun f hf => hremoves f (List.mem_cons_of_mem _ hf)) d' hd'
  · obtain ⟨hsame, hc⟩ := h.same fun f hf => hnone f (List.mem_cons_of_mem _ hf)
    refine ⟨fun d hd => ?_, (hcontent hsame).trans hc⟩
    obtain ⟨d', hd', he⟩ := hold d hd
    rw [he]
    exact hsame d' hd'

/-- The key is deleted: from now on nothing is said of it, except about exclusive insertions before. -/
theorem KeptSince.unlink (h : kv.KeptSince exclusive key n c st since) :
    kv.KeptSince exclusive key n c st' (⟨t, kv.baseDir, .unlink (asFilenameStr key) m⟩ :: since) := by
  refine ⟨fun hremoves => absurd removes_unlink (hremoves _ List.mem_cons_self),
    fun hnone => absurd removes_unlink (hnone _ List.mem_cons_self).1, h.exclusive_cons ?_⟩
  rintro ⟨-, source, n', h⟩
  cases h

/-- The key is inserted again. -/
theorem KeptSince.put (h : kv.KeptSince exclusive key n c st since)
    (hexclusive : exclusive t = true → st.inode kv.baseDir (asFilenameStr key) = none) :
    kv.KeptSince exclusive key n c (st.change t kv.baseDir (.move (tmpName key) (asFilenameStr key) m))
      (kv.putOf t key m :: since) := by
  refine ⟨fun hremoves d hd => ?_, fun hnone => absurd puts_putOf (hnone _ List.mem_cons_self).2, h.exclusive_cons ?_⟩
  · rw [Store.folders_change_self, Folder.may_change] at hd
    rcases hd with hd | ⟨d', hd', rfl⟩
    · exact h.there (fun f hf => hremoves f (List.mem_cons_of_mem _ hf)) d hd
    · exact ⟨m, by rw [lookup_move, if_pos rfl]⟩
  · intro _ hex
    by_contra hno
    push Not at hno
    -- the name was free, although nothing has been deleted
    obtain ⟨m', hm'⟩ := h.there hno _ (Folder.may_names _)
    rw [show (st.folders kv.baseDir).names.lookup (asFilenameStr key) = none from hexclusive hex] at hm'
    cases hm'

/-- Something that does not change the log. -/
theorem Kept.of_may (h : kv.Kept exclusive s key c st) (hlog : st'.log = st.log)
    (hmay : ∀ d, (st'.folders kv.baseDir).May d → (st.folders kv.baseDir).May d)
    (hcontent : ∀ n, (∀ d, (st.folders kv.baseDir).May d → d.lookup (asFilenameStr key) = some n) →
      st'.content n = st.content n) : kv.Kept exclusive s key c st' := by
  obtain ⟨n, since, before, he, hkept⟩ := h
  exact ⟨n, since, before, hlog.trans he, hkept.of_may hmay (hcontent n)⟩

/-- A change that is about other names. -/
theorem Kept.change_other (h : kv.Kept exclusive s key c st) {e : Logged S} (hlog : st'.log = e :: st.log)
    (hlookup : ∀ d, (e.change.apply d).lookup (asFilenameStr key) = d.lookup (asFilenameStr key))
    (hputs : ¬ Puts kv.baseDir (asFilenameStr key) e)
    (hmay : ∀ d, (st'.folders kv.baseDir).May d → ((st.folders kv.baseDir).change e.change).May d)
    (hcontent : ∀ n, (∀ d, (st.folders kv.baseDir).May d → d.lookup (asFilenameStr key) = some n) →
      st'.content n = st.content n) : kv.Kept exclusive s key c st' := by
  obtain ⟨n, since, before, he, hkept⟩ := h
  exact ⟨n, e :: since, before, by rw [hlog, he, List.cons_append], hkept.change_other hlookup hputs hmay (hcontent n)⟩

theorem Kept.syncDir (h : kv.Kept exclusive s key c st) : kv.Kept exclusive s key c (st.syncDir kv.baseDir) := by
  refine h.of_may rfl (fun d hd => ?_) fun _ _ => rfl
  rw [Store.folders_syncDir_self, Folder.may_sync] at hd
  rw [hd]
  exact Folder.may_names _

theorem Kept.unlink (h : kv.Kept exclusive s key c st) :
    kv.Kept exclusive s key c (st.change t kv.baseDir (.unlink (asFilenameStr key') m)) := by
  by_cases hkey : key' = key
  · subst hkey
    obtain ⟨n, since, before, he, hkept⟩ := h
    exact ⟨n, _, before, by rw [Store.log_change, he, List.cons_append], hkept.unlink⟩
  · refine h.change_other rfl (fun d => ?_) ?_ (fun d hd => ?_) fun _ _ => rfl
    · rw [lookup_unlink, if_neg fun he => hkey (asFilenameStr_injective he).symm]
    · rintro ⟨-, source, n', h⟩
      cases h
    · rwa [Store.folders_change_self] at hd

/-- **What has been inserted for good is not lost** by an operation of any session. -/
theorem Kept.effect {w w' : Kernel C X R S} (hs : kv.Sound valid w.store)
    (he : kv.Effect valid exclusive deletes t w w') (h : kv.Kept exclusive s key c w.store) :
    kv.Kept exclusive s key c w'.store := by
  have htmp : ∀ key' : K, asFilenameStr key ≠ tmpName key' := fun key' => (tmpName_ne_asFilenameStr key' key).symm
  cases he with
  | minor hminor =>
    cases hminor with
    | quiet hstore =>
      rw [hstore]
      exact h
    | syncedFile n hstore =>
      rw [hstore]
      exact h.of_may rfl (fun _ => id) fun _ _ => rfl
    | syncedDir hstore =>
      rw [hstore]
      exact h.syncDir
    | unlinked key' n hdeletes hn hstore =>
      rw [hstore]
      exact h.unlink
  | created key' hlock hstore =>
    rw [hstore]
    refine h.change_other (Store.log_create _ _ _ _) (fun d => ?_) ?_ (fun d hd => ?_) fun n hn => ?_
    · rw [lookup_link, if_neg (htmp key')]
    · rintro ⟨-, source, n', h⟩
      cases h
    · rwa [Store.folders_create, Store.folders_change_self] at hd
    · -- the new file is another one
      exact Function.update_of_ne (hs.lt_fresh (hn _ (Folder.may_names _))).ne _ _
  | wrote key' n' c' hlock hn' hstore =>
    rw [hstore]
    refine h.of_may rfl (fun _ => id) fun n hn => ?_
    have hmay := Folder.may_names (w.store.folders kv.baseDir)
    exact Function.update_of_ne (hs.ne_of_tmp hn' hmay (hn _ hmay)) _ _
  | moved key' n' c' hlock hn' hc hvalid hsynced hexclusive hstore =>
    rw [hstore]
    by_cases hkey : key' = key
    · subst hkey
      obtain ⟨n, since, before, hlog, hkept⟩ := h
      exact ⟨n, _, before, by rw [Store.log_change, hlog, List.cons_append]; rfl, hkept.put hexclusive⟩
    · refine h.change_other rfl (fun d => ?_) (fun hputs => hkey (key_of_puts hputs)) (fun d hd => ?_) fun _ _ => rfl
      · rw [lookup_move, if_neg fun he => hkey (asFilenameStr_injective he).symm, if_neg (htmp key')]
      · rwa [Store.folders_change_self] at hd

/-- **Nor by a loss of power.** -/
theorem Kept.recovers {w w' : Kernel C X R S} (hs : kv.Sound valid w.store) (hfiles : kv.sync.doSyncFiles = true)
    (hr : w.Recovers w') (h : kv.Kept exclusive s key c w.store) : kv.Kept exclusive s key c w'.store := by
  refine h.of_may hr.log (fun d hd => ?_) fun n hn => ?_
  · rw [Folder.may_of_pending (hr.pending _)] at hd
    rw [hd]
    exact hr.durable _
  · have hmay := Folder.may_names (w.store.folders kv.baseDir)
    exact hr.content n ((hs.complete _ hmay key n (hn _ hmay)).1 hfiles)

end Kept

/-! ### Programs among other sessions -/

/-- A change made by another session. -/
def Among (kv : KeyVal K V) (valid : K → C → Prop) (exclusive : S → Bool) (s : S) (w w' : Kernel C X R S) : Prop :=
  kv.Sound valid w'.store ∧ ∃ t, t ≠ s ∧ Kernel.Apart t w w' ∧ kv.Effect valid exclusive True t w w'

/-- A change made by the session itself. -/
def Own (kv : KeyVal K V) (valid : K → C → Prop) (exclusive : S → Bool) (deletes : Prop) (s : S)
    (w w' : Kernel C X R S) : Prop :=
  Kernel.Apart s w w' ∧ kv.Effect valid exclusive deletes s w w'

/-- The table is sound, and the session has opened files in its directory only. -/
structure Ready (kv : KeyVal K V) (valid : K → C → Prop) (s : S) (w : Kernel C X R S) : Prop where
  /-- The table is sound. -/
  sound : kv.Sound valid w.store
  /-- The open file. -/
  dir : ∀ h, w.handle s = some h → h.dir = kv.baseDir

/-- The session holds the lock on the directory. -/
structure Locked (kv : KeyVal K V) (valid : K → C → Prop) (s : S) (w : Kernel C X R S) : Prop
    extends Ready kv valid s w where
  /-- The lock. -/
  lock : w.locks (.path kv.baseDir) = some s

/-- For an exclusive insertion the name of the key is free. -/
def Free (kv : KeyVal K V) (exclusive : S → Bool) (s : S) (key : K) (w : Kernel C X R S) : Prop :=
  exclusive s = true → w.store.inode kv.baseDir (asFilenameStr key) = none

/-- The session has the temporary file for the key open, and is to put it in place. -/
structure Writing (kv : KeyVal K V) (valid : K → C → Prop) (exclusive : S → Bool) (s : S) (key : K) (n : Inode)
    (w : Kernel C X R S) : Prop extends Locked kv valid s w where
  /-- The name is free where it has to be. -/
  free : Free kv exclusive s key w
  /-- The open file. -/
  handle : w.handle s = some ⟨kv.baseDir, tmpName key, n⟩
  /-- It is the temporary file. -/
  tmp : w.store.inode kv.baseDir (tmpName key) = some n

/-- The session has put the file of the key in place. -/
def Placed (kv : KeyVal K V) (s : S) (key : K) (c : C) (st : Store C S) : Prop :=
  ∃ n since before, st.log = since ++ kv.putOf s key n :: before ∧
    (∀ e ∈ since, ¬ Puts kv.baseDir (asFilenameStr key) e) ∧
    ((∀ e ∈ since, ¬ Removes kv.baseDir (asFilenameStr key) e) →
      st.inode kv.baseDir (asFilenameStr key) = some n) ∧ st.content n = some c

section Among

variable {kv : KeyVal K V} {valid : K → C → Prop} {exclusive : S → Bool} {deletes : Prop} {s : S} {key : K}
  {n : Inode} {c : C} {w w' : Kernel C X R S}

theorem Ready.among (hw : kv.Ready valid s w) (h : kv.Among valid exclusive s w w') : kv.Ready valid s w' := by
  obtain ⟨hsound, t, ht, hapart, -⟩ := h
  refine ⟨hsound, fun h hh => hw.dir h ?_⟩
  rwa [hapart.handle s ht.symm] at hh

theorem Locked.among (hw : kv.Locked valid s w) (h : kv.Among valid exclusive s w w') : kv.Locked valid s w' := by
  refine ⟨hw.toReady.among h, ?_⟩
  obtain ⟨-, t, ht, hapart, -⟩ := h
  exact (hapart.locks _ s ht.symm).2 hw.lock

/-- While the session holds the lock, the others do minor things only. -/
theorem Locked.minor (hw : kv.Locked valid s w) (h : kv.Among valid exclusive s w w') :
    ∃ t, kv.Minor True t w.store w'.store := by
  obtain ⟨-, t, ht, -, heffect⟩ := h
  exact ⟨t, heffect.minor_of_locked hw.lock ht⟩

theorem Locked.free_among (hw : kv.Locked valid s w) (hfree : kv.Free exclusive s key w)
    (h : kv.Among valid exclusive s w w') : kv.Free exclusive s key w' := by
  obtain ⟨t, hminor⟩ := hw.minor h
  exact fun hex => hminor.inode_none (hfree hex)

theorem Writing.among (hw : kv.Writing valid exclusive s key n w) (h : kv.Among valid exclusive s w w') :
    kv.Writing valid exclusive s key n w' := by
  obtain ⟨t', hminor⟩ := hw.minor h
  refine ⟨hw.toLocked.among h, hw.free_among hw.free h, ?_, ?_⟩
  · obtain ⟨-, t, ht, hapart, -⟩ := h
    rw [hapart.handle s ht.symm]
    exact hw.handle
  · rw [hminor.inode_tmp]
    exact hw.tmp

/-- What can be done without the lock leaves it open who put the file in place. -/
theorem Placed.minor {t : S} {st st' : Store C S} (h : kv.Placed s key c st) (hminor : kv.Minor deletes t st st') :
    kv.Placed s key c st' := by
  obtain ⟨n, since, before, hlog, hputs, hthere, hc⟩ := h
  cases hminor with
  | quiet hstore =>
    rw [hstore]
    exact ⟨n, since, before, hlog, hputs, hthere, hc⟩
  | syncedFile m hstore =>
    rw [hstore]
    exact ⟨n, since, before, hlog, hputs, hthere, hc⟩
  | syncedDir hstore =>
    rw [hstore]
    exact ⟨n, since, before, hlog, hputs, by rwa [Store.inode_syncDir], hc⟩
  | unlinked key' m hdeletes hm hstore =>
    rw [hstore]
    refine ⟨n, _ :: since, before, by rw [Store.log_change, hlog, List.cons_append], fun e he => ?_, fun hnone => ?_, hc⟩
    · rcases List.mem_cons.1 he with rfl | he
      · rintro ⟨-, source, n', h⟩
        cases h
      · exact hputs e he
    · have hkey : asFilenameStr key ≠ asFilenameStr key' := by
        intro heq
        refine hnone _ List.mem_cons_self ?_
        rw [heq]
        exact removes_unlink
      rw [Store.inode_unlink, if_neg hkey]
      exact hthere fun e he => hnone e (List.mem_cons_of_mem _ he)

/-- **With the directory synced** the key is there for good. -/
theorem Placed.kept {st : Store C S} (h : kv.Placed s key c st) : kv.Kept exclusive s key c (st.syncDir kv.baseDir) := by
  obtain ⟨n, since, before, hlog, hputs, hthere, hc⟩ := h
  have hlookup : (∀ e ∈ since, ¬ Removes kv.baseDir (asFilenameStr key) e) →
      ∀ d, ((st.syncDir kv.baseDir).folders kv.baseDir).May d → d.lookup (asFilenameStr key) = some n := by
    intro hnone d hd
    rw [Store.folders_syncDir_self, Folder.may_sync] at hd
    rw [hd]
    exact hthere hnone
  refine ⟨n, since, before, hlog, fun hnone d hd => ⟨n, hlookup hnone d hd⟩,
    fun hnone => ⟨hlookup fun e he => (hnone e he).1, hc⟩, ?_⟩
  rintro later e earlier rfl hp -
  exact absurd hp (hputs e (List.mem_append_right _ List.mem_cons_self))

end Among

/-! ### Insertion -/

section Insert

variable [DecidableEq S] {kv : KeyVal K V} {valid : K → C → Prop} {exclusive : S → Bool} {s : S} {key : K} {n : Inode}
  {c : C} {w w' : Kernel C X R S} {who : S → Process} {ε α : Type}

/-- The judgement of this section. -/
abbrev Inserting (kv : KeyVal K V) (valid : K → C → Prop) (exclusive : S → Bool) (who : S → Process) (s : S)
    (Q : Outcome ε α → Kernel C X R S → Prop) (p : Tool C X R ε α) (w : Kernel C X R S) : Prop :=
  Prog.Guarantees (Kernel.machine who s) (kv.Among valid exclusive s) (kv.Own valid exclusive False s) Q p w

/-- An operation that can fail, with an assertion that the others keep. -/
theorem inserting_sys {o : Op C X} {k : Ans C X R o → Except IoError α} {wrap : IoError → ε} {P : Kernel C X R S → Prop}
    {Q : Outcome ε α → Kernel C X R S → Prop} (hP : ∀ t t', kv.Among valid exclusive s t t' → P t → P t') (hw : P w)
    (h : ∀ t x t', P t → Kernel.act who s o t = some (x, t') → kv.Effect valid exclusive False s t t' ∧
      ((∃ e, k x = .error e ∧ Q (.err (wrap e)) t') ∨ ∃ a, k x = .ok a ∧ Q (.ok a) t')) :
    Inserting kv valid exclusive who s Q ((Prog.op o fun x => Prog.ofExcept (k x) : Tool C X R IoError α).mapErr wrap)
      w := by
  refine .mapErr (.op hP hw fun t x t' ht hact => ?_)
  obtain ⟨heffect, hresult⟩ := h t x t' ht hact
  refine ⟨⟨Kernel.apart_of_act hact, heffect⟩, ?_⟩
  rcases hresult with ⟨e, he, hQ⟩ | ⟨a, ha, hQ⟩
  · rw [he]
    exact hQ
  · rw [ha]
    exact hQ

omit [DecidableEq S] in
/-- Time passes. -/
theorem Ready.next (hw : kv.Ready valid s w) : kv.Ready valid s w.next := ⟨hw.sound, hw.dir⟩

omit [DecidableEq S] in
theorem Locked.next (hw : kv.Locked valid s w) : kv.Locked valid s w.next := ⟨hw.toReady.next, hw.lock⟩

omit [DecidableEq S] in
/-- A lock on the directory is not one on the open file. -/
theorem Ready.lockOn (hw : kv.Ready valid s w) : w.lockOn s kv.baseDir = .path kv.baseDir := by
  unfold Kernel.lockOn
  split
  · rfl
  · next h hh =>
    refine if_neg fun hpath => ?_
    rw [Handle.path, hw.dir h hh] at hpath
    have hlength := congrArg String.length hpath
    simp only [String.length_append] at hlength
    have hslash : "/".length = 1 := rfl
    omega

variable {Q : Outcome KeyValError Unit → Kernel C X R S → Prop}

theorem inserting_lockExclusive (hw : kv.Ready valid s w) (herr : ∀ e t, kv.Ready valid s t → Q (.err e) t)
    (hok : ∀ t, kv.Locked valid s t → Q (.ok ()) t) :
    Inserting kv valid exclusive who s Q (kv.lockExclusive : Tool C X R KeyValError Unit) w := by
  refine inserting_sys (fun _ _ h ht => ht.among h) hw fun t x t' ht hact => ?_
  rcases Kernel.cases_flockExclusive hact with ⟨⟨e, rfl⟩, rfl⟩ | ⟨rfl, rfl⟩
  · exact ⟨.minor (.quiet rfl), .inl ⟨e, rfl, herr _ _ ht.next⟩⟩
  · refine ⟨.minor (.quiet rfl), .inr ⟨(), rfl, hok _ ⟨⟨ht.sound, ht.dir⟩, ?_⟩⟩⟩
    rw [ht.lockOn]
    exact Function.update_self _ _ _

theorem inserting_createFile {wrap : IoError → KeyValError} (hw : kv.Locked valid s w)
    (hfree : kv.Free exclusive s key w) (herr : ∀ e t, kv.Locked valid s t → Q (.err e) t)
    (hok : ∀ n t, kv.Writing valid exclusive s key n t → Q (.ok ()) t) :
    Inserting kv valid exclusive who s Q ((Sys.createFile kv.baseDir (tmpName key)).mapErr wrap) w := by
  refine inserting_sys (P := fun t => kv.Locked valid s t ∧ kv.Free exclusive s key t)
    (fun _ _ h ht => ⟨ht.1.among h, ht.1.free_among ht.2 h⟩) ⟨hw, hfree⟩ ?_
  rintro t x t' ⟨ht, hfree⟩ hact
  rcases Kernel.cases_createFile hact with ⟨⟨e, rfl⟩, rfl⟩ | ⟨-, rfl, rfl⟩ | ⟨n, hn, rfl, rfl⟩
  · exact ⟨.minor (.quiet rfl), .inl ⟨e, rfl, herr _ _ ht.next⟩⟩
  · refine ⟨.created key ht.lock rfl, .inr ⟨(), rfl, hok t.store.fresh _ ?_⟩⟩
    refine ⟨⟨⟨ht.sound.create s, ?_⟩, ht.lock⟩, fun hex => ?_, Function.update_self _ _ _, ?_⟩
    · intro h hh
      cases (Function.update_self s _ t.handle).symm.trans hh
      rfl
    · rw [← hfree hex]
      exact (Store.inode_create _ _ _ _ _).trans (if_neg (tmpName_ne_asFilenameStr key key).symm)
    · exact (Store.inode_create _ _ _ _ _).trans (if_pos rfl)
  · refine ⟨.wrote key n none ht.lock hn rfl, .inr ⟨(), rfl, hok n _ ?_⟩⟩
    refine ⟨⟨⟨ht.sound.write hn none, ?_⟩, ht.lock⟩, hfree, Function.update_self _ _ _, hn⟩
    intro h hh
    cases (Function.update_self s _ t.handle).symm.trans hh
    rfl

omit [DecidableEq S] in
/-- Writing to the temporary file. -/
theorem Writing.write (hw : kv.Writing valid exclusive s key n w) (content : Option C) :
    kv.Writing valid exclusive s key n (w.stored (w.store.write n content)).next :=
  ⟨⟨⟨hw.sound.write hw.tmp content, hw.dir⟩, hw.lock⟩, hw.free, hw.handle, hw.tmp⟩

theorem inserting_writeAll {wrap : IoError → KeyValError} (hw : kv.Writing valid exclusive s key n w)
    (herr : ∀ e t, kv.Locked valid s t → Q (.err e) t)
    (hok : ∀ t, kv.Writing valid exclusive s key n t → t.store.content n = some c → Q (.ok ()) t) :
    Inserting kv valid exclusive who s Q ((Sys.writeAll kv.baseDir (tmpName key) c).mapErr wrap) w := by
  refine inserting_sys (fun _ _ h ht => Writing.among ht h) hw fun t x t' ht hact => ?_
  rcases Kernel.cases_writeAll ht.handle hact with ⟨⟨e, rfl⟩, rfl⟩ | ⟨rfl, rfl⟩
  · exact ⟨.wrote key n none ht.lock ht.tmp rfl, .inl ⟨e, rfl, herr _ _ (ht.write none).toLocked⟩⟩
  · exact ⟨.wrote key n (some c) ht.lock ht.tmp rfl, .inr ⟨(), rfl, hok _ (ht.write _) (Function.update_self _ _ _)⟩⟩

theorem inserting_flushAndPerhapsSyncFile {syncCtx : String} (hw : kv.Writing valid exclusive s key n w)
    (hc : w.store.content n = some c) (herr : ∀ e t, kv.Locked valid s t → Q (.err e) t)
    (hok : ∀ t, kv.Writing valid exclusive s key n t → t.store.content n = some c →
      (kv.sync.doSyncFiles = true → t.store.synced n = true) → Q (.ok ()) t) :
    Inserting kv valid exclusive who s Q (kv.flushAndPerhapsSyncFile (tmpName key) syncCtx) w := by
  unfold flushAndPerhapsSyncFile
  split_ifs with hfiles
  · refine inserting_sys (P := fun t => kv.Writing valid exclusive s key n t ∧ t.store.content n = some c)
      (fun t t' h ht => ⟨ht.1.among h, ?_⟩) ⟨hw, hc⟩ ?_
    · obtain ⟨t₀, hminor⟩ := ht.1.minor h
      rw [hminor.content]
      exact ht.2
    · rintro t x t' ⟨ht, hc⟩ hact
      rcases Kernel.cases_syncFile ht.handle hact with ⟨⟨e, rfl⟩, rfl⟩ | ⟨rfl, rfl⟩
      · exact ⟨.minor (.quiet rfl), .inl ⟨e, rfl, herr _ _ ht.toLocked.next⟩⟩
      · refine ⟨.minor (.syncedFile n rfl), .inr ⟨(), rfl, hok _ ?_ hc fun _ => Function.update_self _ _ _⟩⟩
        exact ⟨⟨⟨ht.sound.sync, ht.dir⟩, ht.lock⟩, ht.free, ht.handle, ht.tmp⟩
  · exact hok w hw hc fun h => absurd h hfiles

theorem inserting_rename {wrap : IoError → KeyValError} (hw : kv.Writing valid exclusive s key n w)
    (hc : w.store.content n = some c) (hvalid : valid key c)
    (hsynced : kv.sync.doSyncFiles = true → w.store.synced n = true)
    (herr : ∀ e t, kv.Locked valid s t → Q (.err e) t)
    (hok : ∀ t, kv.Locked valid s t → kv.Placed s key c t.store → Q (.ok ()) t) :
    Inserting kv valid exclusive who s Q ((Sys.rename kv.baseDir (tmpName key) (asFilenameStr key)).mapErr wrap) w := by
  refine inserting_sys (P := fun t => kv.Writing valid exclusive s key n t ∧ t.store.content n = some c ∧
    (kv.sync.doSyncFiles = true → t.store.synced n = true)) (fun t t' h ht => ?_) ⟨hw, hc, hsynced⟩ ?_
  · obtain ⟨t₀, hminor⟩ := ht.1.minor h
    refine ⟨ht.1.among h, ?_, fun hfiles => hminor.synced (ht.2.2 hfiles)⟩
    rw [hminor.content]
    exact ht.2.1
  · rintro t x t' ⟨ht, hc, hsynced⟩ hact
    rcases Kernel.cases_rename hact with ⟨⟨e, rfl⟩, rfl⟩ | ⟨m, hm, rfl, rfl⟩
    · exact ⟨.minor (.quiet rfl), .inl ⟨e, rfl, herr _ _ ht.toLocked.next⟩⟩
    · obtain rfl : n = m := Option.some.inj (ht.tmp.symm.trans hm)
      refine ⟨.moved key n c ht.lock hm hc hvalid hsynced ht.free rfl, .inr ⟨(), rfl, hok _ ?_ ?_⟩⟩
      · exact ⟨⟨ht.sound.move s hm hc hvalid hsynced, ht.dir⟩, ht.lock⟩
      · refine ⟨n, [], t.store.log, rfl, fun e he => absurd he List.not_mem_nil, fun _ => ?_, hc⟩
        exact (Store.inode_move _ _ _ _ _ _ _).trans (if_pos rfl)

theorem inserting_perhapsSyncDir (hw : kv.Locked valid s w) (hp : kv.Placed s key c w.store)
    (herr : ∀ e t, kv.Locked valid s t → Q (.err e) t)
    (hok : ∀ t, kv.Locked valid s t → (kv.sync.doSyncDirs = true → kv.Kept exclusive s key c t.store) → Q (.ok ()) t) :
    Inserting kv valid exclusive who s Q kv.perhapsSyncDir w := by
  unfold perhapsSyncDir
  split_ifs with hdirs
  · refine inserting_sys (P := fun t => kv.Locked valid s t ∧ kv.Placed s key c t.store) (fun t t' h ht => ?_) ⟨hw, hp⟩ ?_
    · obtain ⟨t₀, hminor⟩ := ht.1.minor h
      exact ⟨ht.1.among h, ht.2.minor hminor⟩
    · rintro t x t' ⟨ht, hp⟩ hact
      rcases Kernel.cases_syncDir hact with ⟨⟨e, rfl⟩, rfl⟩ | ⟨rfl, rfl⟩
      · exact ⟨.minor (.quiet rfl), .inl ⟨e, rfl, herr _ _ ht.next⟩⟩
      · refine ⟨.minor (.syncedDir rfl), .inr ⟨(), rfl, hok _ ⟨⟨ht.sound.syncDir, ht.dir⟩, ht.lock⟩ fun _ => ?_⟩⟩
        exact hp.kept
  · exact hok w hw fun h => absurd h hdirs

end Insert

/-- How an insertion ends: after `Ok` the key is inserted for good, if directories are synced. -/
def Inserted (kv : KeyVal K V) (valid : K → C → Prop) (exclusive : S → Bool) (s : S) (key : K) (c : C)
    (r : Outcome KeyValError Unit) (w : Kernel C X R S) : Prop :=
  kv.Ready valid s w ∧ (r = .ok () → kv.sync.doSyncDirs = true → kv.Kept exclusive s key c w.store)

section Insert

variable [DecidableEq S] [Serde C V] {kv : KeyVal K V} {valid : K → C → Prop} {exclusive : S → Bool} {s : S} {key : K}
  {val : V} {w : Kernel C X R S} {who : S → Process} {e : Bool}

/-- The part with the lock. -/
theorem inserting_insertLocked (hvalid : valid key (Serde.toString val)) (hexclusive : exclusive s = true → e = true)
    (hw : kv.Locked valid s w) :
    Inserting kv valid exclusive who s (fun r t => kv.Locked valid s t ∧
      (r = .ok () → kv.sync.doSyncDirs = true → kv.Kept exclusive s key (Serde.toString val) t.store))
      (kv.insertLocked key val e : Tool C X R KeyValError Unit) w := by
  have herr : ∀ (f : KeyValError) (t : Kernel C X R S), kv.Locked valid s t → kv.Locked valid s t ∧
      ((.err f : Outcome KeyValError Unit) = .ok () → kv.sync.doSyncDirs = true →
        kv.Kept exclusive s key (Serde.toString val) t.store) :=
    fun f t ht => ⟨ht, by rintro ⟨⟩⟩
  refine .bind (.op (fun _ _ h ht => ht.among h) hw fun t x t' ht hact => ?_)
  cases hact
  refine ⟨⟨(Kernel.Apart.refl s t).next, .minor (.quiet rfl)⟩, ?_⟩
  show Inserting kv valid exclusive who s _ (if _ then _ else _) _
  split
  · exact herr _ _ ht.next
  · next hnot =>
    have hfree : kv.Free exclusive s key t.next := by
      intro hex
      rw [hexclusive hex, Bool.true_and, Bool.not_eq_true, Option.isSome_eq_false_iff, Option.isNone_iff_eq_none] at hnot
      exact hnot
    refine .bind (inserting_createFile ht.next hfree herr fun n u hu => ?_)
    refine .bind (inserting_writeAll hu herr fun u hu hc => ?_)
    refine .bind (inserting_flushAndPerhapsSyncFile hu hc herr fun u hu hc hsynced => ?_)
    refine .bind (inserting_rename hu hc hvalid hsynced herr fun u hu hp => ?_)
    exact inserting_perhapsSyncDir hu hp herr fun u hu hkept => ⟨hu, fun _ => hkept⟩

/-- **Insertion among other sessions.** -/
theorem guarantees_insert (hvalid : valid key (Serde.toString val)) (hexclusive : exclusive s = true → e = true)
    (hw : kv.Ready valid s w) :
    Inserting kv valid exclusive who s (kv.Inserted valid exclusive s key (Serde.toString val))
      (kv.insert key val e : Tool C X R KeyValError Unit) w := by
  rw [insert, if_pos (verified_asFilenameStr key)]
  refine .bind (inserting_lockExclusive hw (fun e t ht => ⟨ht, by rintro ⟨⟩⟩) fun t ht => ?_)
  refine .finally_ ?_ ?_ (inserting_insertLocked hvalid hexclusive ht)
  · intro r t t' h ht
    refine ⟨ht.1.among h, fun hr hdirs => ?_⟩
    obtain ⟨-, t₀, -, -, heffect⟩ := h
    exact (ht.2 hr hdirs).effect ht.1.sound heffect
  · intro r t x t' ht hact
    cases hact
    exact ⟨⟨Kernel.apart_unlocked.next, .minor (.quiet rfl)⟩, ⟨ht.1.sound, ht.1.dir⟩, ht.2⟩

omit [DecidableEq S] [Serde C V] in
/-- The condition at the end is kept by the others. -/
theorem Inserted.among {c : C} {r : Outcome KeyValError Unit} {w' : Kernel C X R S}
    (h : kv.Inserted valid exclusive s key c r w) (ha : kv.Among valid exclusive s w w') :
    kv.Inserted valid exclusive s key c r w' := by
  refine ⟨h.1.among ha, fun hr hdirs => ?_⟩
  obtain ⟨-, t, -, -, heffect⟩ := ha
  exact (h.2 hr hdirs).effect h.1.sound heffect

/-! ### Deletion -/

omit [Serde C V] in
/-- **Deletion among other sessions.** -/
theorem guarantees_delete (hw : kv.Ready valid s w) :
    Prog.Guarantees (Kernel.machine who s) (kv.Among valid exclusive s) (kv.Own valid exclusive True s)
      (fun _ => kv.Ready valid s) (kv.delete key : Tool C X R KeyValError Bool) w := by
  rw [delete, if_pos (verified_asFilenameStr key)]
  refine .bind (.attempt (.op (fun _ _ h ht => Ready.among ht h) hw fun t x t' ht hact => ?_))
  replace hact : Kernel.act who s (.removeFile kv.baseDir (asFilenameStr key)) t = some (x, t') := hact
  have hapart := Kernel.apart_of_act hact
  rcases Kernel.cases_removeFile hact with ⟨⟨errno, rfl⟩, rfl⟩ | ⟨-, rfl, rfl⟩ | ⟨n, hn, rfl, rfl⟩
  · exact ⟨⟨hapart, .minor (.quiet rfl)⟩, ht.next⟩
  · exact ⟨⟨hapart, .minor (.quiet rfl)⟩, ht.next⟩
  · exact ⟨⟨hapart, .minor (.unlinked key n trivial hn rfl)⟩, ht.sound.unlink s, ht.dir⟩

end Insert

end KeyVal

end Evobench.KeyValFs

import Evobench.IoUtils.System
import Mathlib.Data.List.Sort

/-!
# Key-value tables as directories

`KeyVal<K, V>` keeps each entry in a file of its own, named after the key. An entry is written to a
temporary file first and then renamed into place, under the `flock` of the directory.

## The model

* `AsKey`, `Serde`: keys as file names, values as file contents.
* `KeyVal.insert`, `KeyVal.delete`, `KeyVal.entryOpt`, `Entry.get`, `Entry.delete`, `KeyVal.sortedKeys`:
  the source's functions, step by step, with their error values.
* `KeyVal.get?`: the abstract table, a partial map from keys to values, read off the visible files.

## What is proved

* `KeyVal.safe_insert`: until its end, an insertion leaves the visible files as they were or has made the
  one change it is for; only the latter after `Ok`, and after an error, either.
* `Entry.safe_delete`, `KeyVal.safe_entryOpt`, `KeyVal.safe_sortedKeys` likewise, and `mem_keysOf` for
  which keys are listed.

## Honest scope

An `Entry` holds an open file in the source, from which the value is read later; files in place are never
written again, so the content is taken when the file is opened. The signals sent to other processes on a
change are left out, and so is the `serde_json` error inside of `Deserialization`.
-/

namespace Evobench.KeyValFs

open Library IoUtils

/-! ### Keys and values on disk -/

/-- The length of a string in UTF-8. -/
def byteLen (s : String) : ℕ := (s.toList.map Char.utf8Size).sum

/-- The rules for file names of keys that `verified_as_filename_str` asserts. -/
@[irreducible] def verified (s : String) : Bool :=
  byteLen s ≤ 254 && 1 ≤ byteLen s && !isTmp s && !s.toList.contains '/' && !s.toList.contains '\x00'

/-- Types that can be keys. -/
class AsKey (K : Type) where
  /-- The key as a file name. -/
  asFilenameStr : K → String
  /-- The key of a file name, if it is one. -/
  tryFromFilenameStr : String → Option K
  /-- The key as `{:?}` prints it. -/
  debug : K → String
  /-- The conversion keeps to the rules. -/
  verified_asFilenameStr : ∀ k, verified (asFilenameStr k) = true
  /-- File names are read back. -/
  tryFrom_asFilenameStr : ∀ k, tryFromFilenameStr (asFilenameStr k) = some k

export AsKey (asFilenameStr tryFromFilenameStr verified_asFilenameStr tryFrom_asFilenameStr)

/-- Types that can be values. -/
class Serde (C : outParam Type) (V : Type) where
  /-- The value as the content of a file. -/
  toString : V → C
  /-- The value that a content is read as, if it can be. -/
  fromStr : C → Option V
  /-- Contents are read back. -/
  fromStr_toString : ∀ v, fromStr (toString v) = some v

theorem asFilenameStr_injective {K : Type} [AsKey K] : Function.Injective (asFilenameStr : K → String) := by
  intro k k' h
  have hk := tryFrom_asFilenameStr k
  rw [h, tryFrom_asFilenameStr] at hk
  exact (Option.some.inj hk).symm

theorem isTmp_of_verified {s : String} (h : verified s = true) : isTmp s = false := by
  simp only [verified, Bool.and_eq_true, Bool.not_eq_true'] at h
  exact h.1.1.2

theorem isTmp_asFilenameStr {K : Type} [AsKey K] (k : K) : isTmp (asFilenameStr k) = false :=
  isTmp_of_verified (verified_asFilenameStr k)

/-! ### The operations -/

/-- Errors of a table. -/
inductive KeyValError where
  /-- "key_val_fs db at {base_dir:?}: {ctx} {path:?}: {error:#}" -/
  | io (baseDir path ctx : String) (error : IoError)
  /-- "deserializing value from JSON at {base_dir:?}: file {path:?}" -/
  | deserialization (baseDir path : String)
  /-- "mapping already exists for key {key_debug_string} in {base_dir:?}" -/
  | keyExists (baseDir keyDebugString : String)
  /-- "invalid file name in directory in {base_dir:?}: {ctx} {invalid_file_name:?}" -/
  | invalidFileNameInStorage (baseDir ctx invalidFileName : String)
  /-- "lock is already taken in {base_dir:?} for {path:?}" -/
  | lockTaken (baseDir path : String)
  /-- "bug: lock has already been taken, `no_lock` was false" -/
  | alreadyLocked (baseDir path : String)
deriving DecidableEq, Repr

/-- When to call `fsync`. -/
inductive KeyValSync where
  /-- Never. -/
  | no
  /-- On files, before they are moved in place. -/
  | files
  /-- On files, and then on the directory. -/
  | all
deriving DecidableEq, Repr

/-- Whether files are synced. -/
def KeyValSync.doSyncFiles : KeyValSync → Bool
  | no => false
  | files => true
  | all => true

/-- Whether directories are synced. -/
def KeyValSync.doSyncDirs : KeyValSync → Bool
  | no => false
  | files => false
  | all => true

/-- `append` on paths. -/
def appendPath (dir name : String) : String := dir ++ "/" ++ name

/-- `key_from_file_name`: `none` is for a temporary file. -/
def keyFromFileName {K : Type} [AsKey K] (fileName baseDir : String) : Except KeyValError (Option K) :=
  if isTmp fileName then .ok none
  else
    match tryFromFilenameStr fileName with
    | some key => .ok (some key)
    | none => .error (.invalidFileNameInStorage baseDir "can't be parsed back into key" fileName)

/-- A table. -/
structure KeyVal (K V : Type) where
  /-- The directory. -/
  baseDir : String
  /-- When to call `fsync`. -/
  sync : KeyValSync
deriving DecidableEq

/-- An entry that has been opened, with what reading it gives. -/
structure Entry (C V : Type) where
  /-- The directory. -/
  baseDir : String
  /-- The name of the file. -/
  fileName : String
  /-- The content of the open file. -/
  content : Option C

section Operations

variable {C X : Type} {R : X → Type} {K V : Type}

namespace Entry

/-- `target_path` -/
def targetPath (entry : Entry C V) : String := appendPath entry.baseDir entry.fileName

/-- `Entry::key` -/
def key {K : Type} [AsKey K] (entry : Entry C V) : Outcome KeyValError K :=
  match keyFromFileName entry.fileName entry.baseDir with
  | .error e => .err e
  | .ok none => .panic "an `Entry` is never created from a tmp file"
  | .ok (some key) => .ok key

/-- `Entry::get` -/
def get [Serde C V] (entry : Entry C V) : Except KeyValError V :=
  match entry.content.bind Serde.fromStr with
  | some val => .ok val
  | none => .error (.deserialization entry.baseDir entry.targetPath)

/-- `Entry::exists` -/
def exists_ (entry : Entry C V) : Tool C X R KeyValError Bool :=
  Sys.pathExists entry.baseDir entry.fileName

/-- `Entry::delete` -/
def delete (entry : Entry C V) : Tool C X R KeyValError Bool := do
  match ← (Sys.removeFile entry.baseDir entry.fileName).attempt with
  | .ok () => pure true
  | .error .notFound => pure false
  | .error error => .throw (.io entry.baseDir entry.targetPath "deleting the value file" error)

end Entry

namespace KeyVal

/-- The error for a system call on the table's files. -/
def ioError (kv : KeyVal K V) (ctx path : String) (error : IoError) : KeyValError :=
  .io kv.baseDir path ctx error

/-- `flush_and_perhaps_sync_file` -/
def flushAndPerhapsSyncFile (kv : KeyVal K V) (name syncCtx : String) : Tool C X R KeyValError Unit :=
  if kv.sync.doSyncFiles then
    (Sys.syncFile kv.baseDir name).mapErr (kv.ioError syncCtx (appendPath kv.baseDir name))
  else pure ()

/-- `perhaps_sync_dir` -/
def perhapsSyncDir (kv : KeyVal K V) : Tool C X R KeyValError Unit :=
  if kv.sync.doSyncDirs then
    (Sys.syncDir kv.baseDir).mapErr (kv.ioError "sync of the directory" kv.baseDir)
  else pure ()

/-- `lock_exclusive`; the guard is `Sys.withLock kv.baseDir`. -/
def lockExclusive (kv : KeyVal K V) : Tool C X R KeyValError Unit :=
  (Sys.flockExclusive kv.baseDir).mapErr (kv.ioError "getting lock on dir" kv.baseDir)

/-- The part of `KeyVal::insert` that runs with the lock on the directory. -/
def insertLocked [AsKey K] [Serde C V] (kv : KeyVal K V) (key : K) (val : V) (exclusive : Bool) :
    Tool C X R KeyValError Unit := do
  let keyFilename := asFilenameStr key
  let tmpFilename := "." ++ keyFilename
  let tmpPath := appendPath kv.baseDir tmpFilename
  let targetPath := appendPath kv.baseDir keyFilename
  let targetExists ← Sys.pathExists kv.baseDir keyFilename
  if exclusive && targetExists then
    .throw (.keyExists kv.baseDir (AsKey.debug key))
  else do
    (Sys.createFile kv.baseDir tmpFilename).mapErr (kv.ioError "creating file" tmpPath)
    (Sys.writeAll kv.baseDir tmpFilename (Serde.toString val)).mapErr (kv.ioError "writing to file" tmpPath)
    kv.flushAndPerhapsSyncFile tmpFilename "sync of the file"
    (Sys.rename kv.baseDir tmpFilename keyFilename).mapErr (kv.ioError "renaming to file" targetPath)
    kv.perhapsSyncDir

/-- `KeyVal::insert`: with `exclusive`, an error if the key is already in the map, otherwise the
previous value is overwritten. -/
def insert [AsKey K] [Serde C V] (kv : KeyVal K V) (key : K) (val : V) (exclusive : Bool) :
    Tool C X R KeyValError Unit :=
  if verified (asFilenameStr key) then do
    kv.lockExclusive
    Sys.withLock kv.baseDir (kv.insertLocked key val exclusive)
  else .panic "assertion failed in verified_as_filename_str"

/-- `KeyVal::delete`: whether an entry was deleted. -/
def delete [AsKey K] (kv : KeyVal K V) (key : K) : Tool C X R KeyValError Bool :=
  if verified (asFilenameStr key) then do
    match ← (Sys.removeFile kv.baseDir (asFilenameStr key)).attempt with
    | .ok () => pure true
    | .error .notFound => pure false
    | .error error => .throw (.io kv.baseDir (appendPath kv.baseDir (asFilenameStr key)) "delete" error)
  else .panic "assertion failed in verified_as_filename_str"

/-- `KeyVal::entry_opt` -/
def entryOpt [AsKey K] (kv : KeyVal K V) (key : K) : Tool C X R KeyValError (Option (Entry C V)) :=
  if verified (asFilenameStr key) then do
    match ← (Sys.openFile kv.baseDir (asFilenameStr key)).attempt with
    | .ok content => pure (some ⟨kv.baseDir, asFilenameStr key, content⟩)
    | .error .notFound => pure none
    | .error error =>
      .throw (.io kv.baseDir (appendPath kv.baseDir (asFilenameStr key)) "opening value file" error)
  else .panic "assertion failed in verified_as_filename_str"

/-- The keys of the listed file names; the first invalid one is an error. -/
def keysOf [AsKey K] (baseDir : String) : List String → Except KeyValError (List K)
  | [] => .ok []
  | fileName :: rest =>
    match keyFromFileName fileName baseDir, keysOf baseDir rest with
    | .error e, _ => .error e
    | .ok _, .error e => .error e
    | .ok none, .ok keys => .ok keys
    | .ok (some key), .ok keys => .ok (key :: keys)

/-- `KeyVal::keys` without waiting -/
def keys [AsKey K] (kv : KeyVal K V) : Tool C X R KeyValError (List K) := do
  let names ← (Sys.readDir kv.baseDir).mapErr (kv.ioError "opening directory" kv.baseDir)
  Prog.ofExcept (keysOf kv.baseDir names)

/-- `KeyVal::sorted_keys` without waiting, in ascending order -/
def sortedKeys [AsKey K] [LinearOrder K] (kv : KeyVal K V) : Tool C X R KeyValError (List K) := do
  let keys ← kv.keys
  pure (keys.insertionSort (· ≤ ·))

end KeyVal

end Operations

/-! ### The abstract table -/

namespace KeyVal

variable {C K V : Type} [AsKey K]

/-- Where a key's file is. -/
def slot (kv : KeyVal K V) (key : K) : String × String := (kv.baseDir, asFilenameStr key)

/-- The table as a partial map. -/
def get? [Serde C V] (kv : KeyVal K V) (d : Disk C) (key : K) : Option V :=
  (d.entries (kv.slot key)).join.bind Serde.fromStr

theorem slot_injective (kv : KeyVal K V) : Function.Injective kv.slot := by
  intro k k' h
  exact asFilenameStr_injective (Prod.mk.inj h).2

end KeyVal

/-! ### Rules for the operations

For each operation: what has to hold of the states that it can lead to, by their visible files. -/

section Rules

variable {C X : Type} {R : X → Type} {K V ε α : Type} {pid : Pid} {I : World C X R → Prop} {w : World C X R}

/-- The visible files after a value has been put at a slot. -/
def putEntry (e : Entries C) (slot : String × String) (c : C) : Entries C :=
  Function.update e slot (some (some c))

/-- The visible files after a slot has been cleared. -/
def eraseEntry (e : Entries C) (slot : String × String) : Entries C := Function.update e slot none

theorem leads_of_goes {v v' : World C X R} {d : Disk C} {e : Entries C} (l : w.Leads e v) (h : v.Goes d v')
    (hd : d.entries = e) : w.Leads e v' :=
  l.trans (hd ▸ h.leads)

theorem safe_perhapsSyncDir {kv : KeyVal K V} {Q : Outcome KeyValError Unit → World C X R → Prop}
    (hsame : ∀ w', w.Leads w.disk.entries w' → I w')
    (herr : ∀ e w', w.Leads w.disk.entries w' → Q (.err e) w')
    (hok : ∀ w', w.Leads w.disk.entries w' → Q (.ok ()) w') : Safe pid I Q kv.perhapsSyncDir w := by
  have h0 := World.Leads.refl w
  unfold KeyVal.perhapsSyncDir
  split_ifs
  · exact Prog.holds_mapErr.2 (safe_syncDir (hsame w h0) (fun w' h => hsame w' h.leads)
      (fun _ w' h => herr _ w' h.leads) fun w' h => hok w' h.leads)
  · exact ⟨hsame w h0, hok w h0⟩

theorem safe_flushAndPerhapsSyncFile {kv : KeyVal K V} {name ctx : String}
    {Q : Outcome KeyValError Unit → World C X R → Prop} (h0 : I w)
    (hsame : ∀ w', w.Goes w.disk w' → I w') (herr : ∀ e w', w.Goes w.disk w' → Q (.err e) w')
    (hok : ∀ w', w'.disk = w.disk → w.Leads w.disk.entries w' → Q (.ok ()) w') :
    Safe pid I Q (kv.flushAndPerhapsSyncFile name ctx) w := by
  unfold KeyVal.flushAndPerhapsSyncFile
  split_ifs
  · exact Prog.holds_mapErr.2 (safe_syncFile h0 hsame (fun _ => herr _) fun w' h => hok w' h.disk h.leads)
  · exact ⟨h0, hok w rfl (World.Leads.refl w)⟩

theorem safe_lockExclusive {kv : KeyVal K V} {Q : Outcome KeyValError Unit → World C X R → Prop}
    (hsame : ∀ w', w.Leads w.disk.entries w' → I w')
    (herr : ∀ e w', w.Leads w.disk.entries w' → Q (.err e) w')
    (hok : ∀ w', w.Leads w.disk.entries w' → Q (.ok ()) w') : Safe pid I Q kv.lockExclusive w :=
  Prog.holds_mapErr.2 (safe_flockExclusive (hsame w (World.Leads.refl w)) (fun w' h => hsame w' h.leads)
    (fun _ w' h => herr _ w' h.leads) fun w' h => hok w' h.leads)

variable [AsKey K]

/-- Renaming the temporary file into place puts the entry. -/
theorem entries_rename (d : Disk C) (kv : KeyVal K V) (key : K) (c : C) :
    ((d.erase kv.baseDir ("." ++ asFilenameStr key)).put kv.baseDir (asFilenameStr key) (some c)).entries =
      putEntry d.entries (kv.slot key) c := by
  rw [Disk.entries_put (isTmp_asFilenameStr key), Disk.entries_erase_tmp (isTmp_dot _)]
  rfl

variable [Serde C V]

theorem safe_insertLocked {kv : KeyVal K V} {key : K} {val : V} {exclusive : Bool}
    {Q : Outcome KeyValError Unit → World C X R → Prop}
    (hsame : ∀ w', w.Leads w.disk.entries w' → I w')
    (hput : (exclusive = true → w.disk.entries (kv.slot key) = none) → ∀ w',
      w.Leads (putEntry w.disk.entries (kv.slot key) (Serde.toString val)) w' → I w')
    (hkeep : ∀ e w', w.Leads w.disk.entries w' → Q (.err e) w')
    (herr : (exclusive = true → w.disk.entries (kv.slot key) = none) → ∀ e w',
      w.Leads (putEntry w.disk.entries (kv.slot key) (Serde.toString val)) w' → Q (.err e) w')
    (hok : (exclusive = true → w.disk.entries (kv.slot key) = none) → ∀ w',
      w.Leads (putEntry w.disk.entries (kv.slot key) (Serde.toString val)) w' → Q (.ok ()) w') :
    Safe pid I Q (kv.insertLocked key val exclusive) w := by
  have l₀ := World.Leads.refl w
  refine Prog.holds_bind.2 (safe_pathExists (hsame w l₀) (fun v h => hsame v h.leads) fun w₁ h₁ => ?_)
  have l₁ : w.Leads w.disk.entries w₁ := h₁.leads
  -- the two cases of the existence check
  by_cases hex : (exclusive && (w.disk.file kv.baseDir (asFilenameStr key)).isSome) = true
  · simp only [Prog.Then, hex, if_true]
    exact ⟨hsame _ l₁, hkeep _ _ l₁⟩
  simp only [Prog.Then, hex]
  have habsent : exclusive = true → w.disk.entries (kv.slot key) = none := by
    intro he
    rw [KeyVal.slot, Disk.entries_eq_file (isTmp_asFilenameStr key)]
    simpa [he] using hex
  -- creating and writing the temporary file is not seen
  have htmp : ∀ {v : World C X R} (c : Option C), w.Leads w.disk.entries v →
      (v.disk.put kv.baseDir ("." ++ asFilenameStr key) c).entries = w.disk.entries :=
    fun c l => (Disk.entries_put_tmp (isTmp_dot _)).trans l.entries
  refine Prog.holds_bind.2 (Prog.holds_mapErr.2 (safe_createFile (hsame _ l₁)
    (fun v h => hsame v (leads_of_goes l₁ h l₁.entries)) (fun v h => hsame v (leads_of_goes l₁ h (htmp _ l₁)))
    (fun e v h => hkeep _ v (leads_of_goes l₁ h l₁.entries)) fun w₂ h₂ => ?_))
  have l₂ := leads_of_goes l₁ h₂ (htmp _ l₁)
  refine Prog.holds_bind.2 (Prog.holds_mapErr.2 (safe_writeAll (hsame _ l₂)
    (fun c v h => hsame v (leads_of_goes l₂ h (htmp _ l₂)))
    (fun e v h => hkeep _ v (leads_of_goes l₂ h (htmp _ l₂))) fun w₃ h₃ => ?_))
  have l₃ := leads_of_goes l₂ h₃ (htmp _ l₂)
  refine Prog.holds_bind.2 (safe_flushAndPerhapsSyncFile (hsame _ l₃)
    (fun v h => hsame v (leads_of_goes l₃ h l₃.entries)) (fun e v h => hkeep _ v (leads_of_goes l₃ h l₃.entries))
    fun w₄ hd₄ h₄ => ?_)
  have l₄ : w.Leads w.disk.entries w₄ := l₃.trans (l₃.entries ▸ h₄)
  -- the renaming is the one visible change
  have hsource : w₄.disk.file kv.baseDir ("." ++ asFilenameStr key) = some (some (Serde.toString val)) := by
    rw [hd₄, h₃.disk, Disk.file_put_self]
  have hrename := entries_rename w₄.disk kv key (Serde.toString val)
  rw [l₄.entries] at hrename
  have hmoved : ∀ {v : World C X R}, w₄.Goes ((w₄.disk.erase kv.baseDir ("." ++ asFilenameStr key)).put kv.baseDir
      (asFilenameStr key) (some (Serde.toString val))) v →
      w.Leads (putEntry w.disk.entries (kv.slot key) (Serde.toString val)) v :=
    fun h => l₄.trans (hrename ▸ h.leads)
  refine Prog.holds_bind.2 (Prog.holds_mapErr.2 (safe_rename hsource (hsame _ l₄)
    (fun v h => hsame v (leads_of_goes l₄ h l₄.entries)) (fun v h => hput habsent v (hmoved h))
    (fun e v h => hkeep _ v (leads_of_goes l₄ h l₄.entries)) fun w₅ h₅ => ?_))
  have l₅ := hmoved h₅
  exact safe_perhapsSyncDir (fun v h => hput habsent v (l₅.trans (l₅.entries ▸ h)))
    (fun e v h => herr habsent e v (l₅.trans (l₅.entries ▸ h)))
    fun v h => hok habsent v (l₅.trans (l₅.entries ▸ h))

/-- **Insertion.** The visible files are as before or have the new entry in every state passed through;
`Ok` means that the entry is there, and an exclusive insertion puts an entry only where there is none. -/
theorem KeyVal.safe_insert {kv : KeyVal K V} {key : K} {val : V} {exclusive : Bool}
    {Q : Outcome KeyValError Unit → World C X R → Prop}
    (hsame : ∀ w', w.Leads w.disk.entries w' → I w')
    (hput : (exclusive = true → w.disk.entries (kv.slot key) = none) → ∀ w',
      w.Leads (putEntry w.disk.entries (kv.slot key) (Serde.toString val)) w' → I w')
    (hkeep : ∀ e w', w.Leads w.disk.entries w' → Q (.err e) w')
    (herr : (exclusive = true → w.disk.entries (kv.slot key) = none) → ∀ e w',
      w.Leads (putEntry w.disk.entries (kv.slot key) (Serde.toString val)) w' → Q (.err e) w')
    (hok : (exclusive = true → w.disk.entries (kv.slot key) = none) → ∀ w',
      w.Leads (putEntry w.disk.entries (kv.slot key) (Serde.toString val)) w' → Q (.ok ()) w') :
    Safe pid I Q (kv.insert key val exclusive) w := by
  rw [KeyVal.insert, if_pos (verified_asFilenameStr key)]
  refine Prog.holds_bind.2 (safe_lockExclusive hsame hkeep fun w₁ l₁ => ?_)
  refine safe_withLock (safe_insertLocked ?_ ?_ ?_ ?_ ?_)
  · exact fun v h => hsame v (l₁.trans (l₁.entries ▸ h))
  · intro ha v h
    rw [l₁.entries] at ha h
    exact hput ha v (l₁.trans h)
  · intro e v h v' h'
    rw [l₁.entries] at h
    have l := l₁.trans (h.trans h'.leads)
    rw [h.entries] at l
    exact ⟨hsame v' l, hkeep e v' l⟩
  · intro ha e v h v' h'
    rw [l₁.entries] at ha h
    have l := l₁.trans (h.trans h'.leads)
    rw [h.entries] at l
    exact ⟨hput ha v' l, herr ha e v' l⟩
  · intro ha v h v' h'
    rw [l₁.entries] at ha h
    have l := l₁.trans (h.trans h'.leads)
    rw [h.entries] at l
    exact ⟨hput ha v' l, hok ha v' l⟩

omit [AsKey K] [Serde C V] in
/-- An I/O error does not say that a key exists. -/
theorem ne_keyExists_of_io {kv : KeyVal K V} {ctx path : String} {p : Tool C X R IoError α} :
    Safe pid (fun _ => True) (fun r _ => ∀ dir key, r ≠ .err (KeyValError.keyExists dir key))
      (p.mapErr (kv.ioError ctx path)) w := by
  refine Prog.holds_mapErr.2 ((Prog.holds_iff p).2 ⟨fun _ _ => trivial, fun r t _ => ?_⟩)
  cases r with
  | ok a => exact fun dir key he => by cases he
  | err e => exact fun dir key he => by cases he
  | panic msg => exact fun dir key he => by cases he

omit [AsKey K] [Serde C V] in
/-- In a sequence it is enough that no part says so. -/
theorem ne_keyExists_bind {β : Type} {p : Tool C X R KeyValError α} {f : α → Tool C X R KeyValError β}
    (h : Safe pid (fun _ => True) (fun r _ => ∀ dir key, r ≠ .err (KeyValError.keyExists dir key)) p w)
    (hf : ∀ a v, Safe pid (fun _ => True) (fun r _ => ∀ dir key, r ≠ .err (KeyValError.keyExists dir key)) (f a) v) :
    Safe pid (fun _ => True) (fun r _ => ∀ dir key, r ≠ .err (KeyValError.keyExists dir key)) (p >>= f) w := by
  refine Prog.holds_bind.2 (h.imp fun r v hr => ?_)
  cases r with
  | ok a => exact hf a v
  | err e => exact fun dir key he => hr dir key (by cases he; rfl)
  | panic msg => exact fun dir key he => by cases he

/-- The error that a key exists: an exclusive insertion has found it, and has changed nothing. -/
theorem KeyVal.keyExists_of_insert {kv : KeyVal K V} {key : K} {val : V} {exclusive : Bool} :
    Safe pid (fun _ => True) (fun r w' => ∀ dir key', r = .err (.keyExists dir key') →
      exclusive = true ∧ w.disk.entries (kv.slot key) ≠ none ∧ w.Leads w.disk.entries w')
      (kv.insert key val exclusive) w := by
  rw [KeyVal.insert, if_pos (verified_asFilenameStr key)]
  have hlock : Safe pid (fun _ => True) (fun r v => r = .ok () → w.Leads w.disk.entries v) kv.lockExclusive w :=
    safe_lockExclusive (fun _ _ => trivial) (fun e v _ he => by cases he) fun v h _ => h
  refine Prog.holds_bind.2 ((hlock.and ne_keyExists_of_io).mono (fun _ _ => trivial) fun r v hr => ?_)
  obtain ⟨hleads, hio⟩ := hr
  cases r with
  | err e => exact fun dir key' he => absurd he (fun he => hio dir key' (by cases he; rfl))
  | panic msg => exact fun dir key' he => by cases he
  | ok _ =>
    have l₁ := hleads rfl
    refine safe_withLock (Prog.holds_bind.2 (safe_pathExists trivial (fun _ _ => trivial) fun w₂ h₂ => ?_))
    have l₂ : w.Leads w.disk.entries w₂ := l₁.trans (l₁.entries ▸ h₂.leads)
    by_cases hexists : (exclusive && (v.disk.file kv.baseDir (asFilenameStr key)).isSome) = true
    · simp only [Prog.Then, hexists, if_true]
      rw [Bool.and_eq_true] at hexists
      refine ⟨trivial, fun t ht => ⟨trivial, fun dir key' _ => ⟨hexists.1, ?_, ?_⟩⟩⟩
      · rw [← l₁.entries, KeyVal.slot, Disk.entries_eq_file (isTmp_asFilenameStr key)]
        exact Option.isSome_iff_ne_none.1 hexists.2
      · exact l₂.trans (l₂.entries ▸ ht.leads)
    · simp only [Prog.Then, hexists]
      have hnever : ∀ {p : Tool C X R KeyValError Unit} {v : World C X R},
          Safe pid (fun _ => True) (fun r _ => ∀ dir key, r ≠ .err (KeyValError.keyExists dir key)) p v →
          Safe pid (fun _ => True) (fun r w' => ∀ t : World C X R, w'.Goes w'.disk t → True ∧ ∀ dir key',
            r = .err (.keyExists dir key') → exclusive = true ∧ w.disk.entries (kv.slot key) ≠ none ∧
              w.Leads w.disk.entries t) p v :=
        fun h => h.imp fun r _ hr _ _ => ⟨trivial, fun dir key' he => absurd he (hr dir key')⟩
      refine hnever (ne_keyExists_bind ne_keyExists_of_io fun _ v₁ => ?_)
      refine ne_keyExists_bind ne_keyExists_of_io fun _ v₂ => ?_
      refine ne_keyExists_bind ?_ fun _ v₃ => ne_keyExists_bind ne_keyExists_of_io fun _ v₄ => ?_
      · unfold KeyVal.flushAndPerhapsSyncFile
        split_ifs
        · exact ne_keyExists_of_io
        · exact ⟨trivial, fun dir key he => by cases he⟩
      · unfold KeyVal.perhapsSyncDir
        split_ifs
        · exact ne_keyExists_of_io
        · exact ⟨trivial, fun dir key he => by cases he⟩

omit [Serde C V] in
/-- Looking an entry up, seen on the whole disk. -/
theorem KeyVal.goes_entryOpt {kv : KeyVal K V} {key : K}
    {Q : Outcome KeyValError (Option (Entry C V)) → World C X R → Prop}
    (hsame : ∀ w', w.Goes w.disk w' → I w') (herr : ∀ e w', w.Goes w.disk w' → Q (.err e) w')
    (hnone : w.disk.entries (kv.slot key) = none → ∀ w', w.Goes w.disk w' → Q (.ok none) w')
    (hsome : ∀ content, w.disk.entries (kv.slot key) = some content → ∀ w', w.Goes w.disk w' →
      Q (.ok (some ⟨kv.baseDir, asFilenameStr key, content⟩)) w') :
    Safe pid I Q (kv.entryOpt key) w := by
  rw [KeyVal.slot, Disk.entries_eq_file (isTmp_asFilenameStr key)] at hnone hsome
  rw [KeyVal.entryOpt, if_pos (verified_asFilenameStr key)]
  refine Prog.holds_bind.2 (Prog.holds_attempt.2 (safe_openFile (hsame w (World.Goes.refl w)) hsame ?_ ?_ ?_))
  · exact fun hfile v h => ⟨hsame v h, hnone hfile v h⟩
  · exact fun errno v h => ⟨hsame v h, herr _ v h⟩
  · exact fun content hfile v h => ⟨hsame v h, hsome content hfile v h⟩

omit [Serde C V] in
/-- Looking an entry up. -/
theorem KeyVal.safe_entryOpt {kv : KeyVal K V} {key : K}
    {Q : Outcome KeyValError (Option (Entry C V)) → World C X R → Prop}
    (hsame : ∀ w', w.Leads w.disk.entries w' → I w')
    (herr : ∀ e w', w.Leads w.disk.entries w' → Q (.err e) w')
    (hnone : w.disk.entries (kv.slot key) = none → ∀ w', w.Leads w.disk.entries w' → Q (.ok none) w')
    (hsome : ∀ content, w.disk.entries (kv.slot key) = some content → ∀ w', w.Leads w.disk.entries w' →
      Q (.ok (some ⟨kv.baseDir, asFilenameStr key, content⟩)) w') :
    Safe pid I Q (kv.entryOpt key) w :=
  goes_entryOpt (fun v h => hsame v h.leads) (fun e v h => herr e v h.leads) (fun hfile v h => hnone hfile v h.leads)
    fun content hfile v h => hsome content hfile v h.leads

omit [Serde C V] in
/-- Looking an entry up takes time. -/
theorem KeyVal.later_entryOpt {kv : KeyVal K V} {key : K}
    {Q : Outcome KeyValError (Option (Entry C V)) → World C X R → Prop} (h : Safe pid I Q (kv.entryOpt key) w) :
    Safe pid I (fun r v => Q r v ∧ w.tick < v.tick) (kv.entryOpt key) w := by
  rw [KeyVal.entryOpt, if_pos (verified_asFilenameStr key)] at h ⊢
  exact safe_op_later h

omit [AsKey K] [Serde C V] in
/-- Removing a file, which may be gone already. -/
theorem safe_attempt_removeFile {dir name : String} {Q : Outcome ε (Except IoError Unit) → World C X R → Prop}
    (hsame : ∀ w', w.Leads w.disk.entries w' → I w')
    (hI : ∀ w', w.Leads (eraseEntry w.disk.entries (dir, name)) w' → I w')
    (herr : ∀ errno w', w.Leads w.disk.entries w' → Q (.ok (.error (.other errno))) w')
    (hgone : ∀ w', w.Leads (eraseEntry w.disk.entries (dir, name)) w' → Q (.ok (.error .notFound)) w')
    (hok : ∀ w', w.Leads (eraseEntry w.disk.entries (dir, name)) w' → Q (.ok (.ok ())) w') :
    Safe pid I Q (Sys.removeFile dir name).attempt w := by
  have hd : (w.disk.erase dir name).entries = eraseEntry w.disk.entries (dir, name) := Disk.entries_erase _ _ _
  have herase : ∀ {v : World C X R}, w.Goes (w.disk.erase dir name) v →
      w.Leads (eraseEntry w.disk.entries (dir, name)) v := fun h => hd ▸ h.leads
  refine Prog.holds_attempt.2 (safe_removeFile (hsame w (World.Leads.refl w)) (fun v h => hsame v h.leads)
    (fun v h => hI v (herase h)) ?_ ?_ ?_)
  · intro hfile v h
    -- nothing to erase
    have hnothing : eraseEntry w.disk.entries (dir, name) = w.disk.entries := by
      rw [eraseEntry, Function.update_eq_self_iff]
      simp [Disk.entries, hfile]
    exact hgone v (hnothing.symm ▸ h.leads)
  · exact fun errno v h => herr errno v h.leads
  · exact fun v h => hok v (herase h)

omit [AsKey K] [Serde C V] in
/-- Deleting an entry; it may be gone already. -/
theorem Entry.safe_delete {entry : Entry C V} {Q : Outcome KeyValError Bool → World C X R → Prop}
    (hsame : ∀ w', w.Leads w.disk.entries w' → I w')
    (hI : ∀ w', w.Leads (eraseEntry w.disk.entries (entry.baseDir, entry.fileName)) w' → I w')
    (herr : ∀ e w', w.Leads w.disk.entries w' → Q (.err e) w')
    (hok : ∀ b w', w.Leads (eraseEntry w.disk.entries (entry.baseDir, entry.fileName)) w' → Q (.ok b) w') :
    Safe pid I Q entry.delete w := by
  refine Prog.holds_bind.2 (safe_attempt_removeFile hsame hI ?_ ?_ ?_)
  · exact fun errno v h => ⟨hsame v h, herr _ v h⟩
  · exact fun v h => ⟨hI v h, hok false v h⟩
  · exact fun v h => ⟨hI v h, hok true v h⟩

omit [Serde C V] in
/-- Deleting a key; it may be gone already. -/
theorem KeyVal.safe_delete {kv : KeyVal K V} {key : K} {Q : Outcome KeyValError Bool → World C X R → Prop}
    (hsame : ∀ w', w.Leads w.disk.entries w' → I w')
    (hI : ∀ w', w.Leads (eraseEntry w.disk.entries (kv.slot key)) w' → I w')
    (herr : ∀ e w', w.Leads w.disk.entries w' → Q (.err e) w')
    (hok : ∀ b w', w.Leads (eraseEntry w.disk.entries (kv.slot key)) w' → Q (.ok b) w') :
    Safe pid I Q (kv.delete key) w := by
  rw [KeyVal.delete, if_pos (verified_asFilenameStr key)]
  refine Prog.holds_bind.2 (safe_attempt_removeFile hsame hI ?_ ?_ ?_)
  · exact fun errno v h => ⟨hsame v h, herr _ v h⟩
  · exact fun v h => ⟨hI v h, hok false v h⟩
  · exact fun v h => ⟨hI v h, hok true v h⟩

omit [Serde C V] in
/-- A temporary file gives no key. -/
theorem keyFromFileName_eq_none {name baseDir : String}
    (h : (keyFromFileName name baseDir : Except KeyValError (Option K)) = .ok none) : isTmp name = true := by
  unfold keyFromFileName at h
  split_ifs at h with htmp
  · exact htmp
  · split at h
    · cases h
    · cases h

omit [Serde C V] in
theorem keyFromFileName_eq_some {name baseDir : String} {key : K}
    (h : keyFromFileName name baseDir = .ok (some key)) :
    isTmp name = false ∧ tryFromFilenameStr name = some key := by
  unfold keyFromFileName at h
  split_ifs at h with htmp
  · cases h
  · split at h
    · next k hk =>
      cases h
      exact ⟨by simpa using htmp, hk⟩
    · cases h

omit [Serde C V] in
/-- The keys of the visible files of a directory. -/
theorem mem_keysOf {baseDir : String} {names : List String} {keys : List K}
    (h : KeyVal.keysOf baseDir names = .ok keys) (key : K) :
    key ∈ keys ↔ ∃ name ∈ names, isTmp name = false ∧ tryFromFilenameStr name = some key := by
  induction names generalizing keys with
  | nil =>
    cases h
    simp
  | cons name rest ih =>
    rw [KeyVal.keysOf] at h
    split at h
    · cases h
    · cases h
    · next hname hrest =>
      cases h
      rw [ih hrest]
      simp [keyFromFileName_eq_none hname]
    · next key' keys' hname hrest =>
      cases h
      obtain ⟨htmp, hkey⟩ := keyFromFileName_eq_some hname
      simp only [List.mem_cons, ih hrest, exists_eq_or_imp, htmp, hkey, Option.some.injEq, true_and]
      rw [eq_comm]

omit [AsKey K] [Serde C V] in
theorem mem_keys_iff_entries {d : Disk C} {dir name : String} (h : isTmp name = false) :
    name ∈ (d dir).keys ↔ (d.entries (dir, name)).isSome = true := by
  rw [Disk.entries_eq_file h, Disk.file, AList.lookup_isSome, AList.mem_keys]

omit [Serde C V] in
/-- Listing a table: the keys in ascending order. -/
theorem KeyVal.safe_sortedKeys [LinearOrder K] {kv : KeyVal K V}
    {Q : Outcome KeyValError (List K) → World C X R → Prop} (h0 : I w)
    (hsame : ∀ w', w.Goes w.disk w' → I w') (herr : ∀ e w', w.Goes w.disk w' → Q (.err e) w')
    (hok : ∀ keys w', KeyVal.keysOf kv.baseDir (w.disk kv.baseDir).keys = .ok keys → w.Goes w.disk w' →
      Q (.ok (keys.insertionSort (· ≤ ·))) w') : Safe pid I Q kv.sortedKeys w := by
  refine Prog.holds_bind.2 (Prog.holds_bind.2 (Prog.holds_mapErr.2
    (safe_readDir h0 hsame (fun e v h => herr _ v h) fun v h => ?_)))
  simp only [Prog.Then]
  cases hkeys : (KeyVal.keysOf kv.baseDir (w.disk kv.baseDir).keys : Except KeyValError (List K)) with
  | error e => exact ⟨hsame v h, herr e v h⟩
  | ok keys => exact ⟨hsame v h, hsame v h, hok keys v hkeys h⟩

end Rules

end Evobench.KeyValFs

import Evobench.KeyValFs.TimeKey
import Evobench.Library.Combination

/-!
# Migrating a table

After a change of the format of its values, a table is migrated: each value is read in the old or the new format,
gets the key that belongs to it, and is written back. Values that come to the same key are combined by a handler.

## The model

* `Migration`: the functions that `migrate_key_val` takes, and `FromStrMigrating`.
* `readEntries`, `deleteOld`, `saveOne`: its three passes, and `migrateKeyVal`.

## What is proved

* `goes_readEntries`, `safe_deleteOld`, `safe_saveAll`: how far each pass has come, if it ends with `Ok` or with an
  error.
* `migrate_loses_nothing_iff`: when the migrated table holds the combinations of all old values, and that a migration
  in which no value changes its key loses nothing when it fails.

## Honest scope

The new format is what the table reads; the contract of `from_str_migrating` is that it says whether a value is in it.
The table's files are named as its keys are written.
-/

namespace Evobench.Run

open Library KeyValFs IoUtils

/-- Errors of a migration. -/
inductive MigrateError where
  /-- An error of the table. -/
  | keyVal (error : KeyValError)
  /-- "reading file {path:?}" -/
  | readingFile (path : String)
  /-- The value can be read in neither format. -/
  | fromStrMigrating (error : String)
  /-- The handler gives up. -/
  | handleConflict (error : String)
  /-- "entry {new_key:?} has vanished while we held the lock" -/
  | vanished (newKey : String)
deriving DecidableEq, Repr

/-- What a migration depends on. -/
structure Migration (C K T : Type) where
  /-- `from_str_migrating`: the value, and whether migration was needed -/
  fromStrMigrating : C → Except String (T × Bool)
  /-- `gen_key` -/
  genKey : K → T → K
  /-- `handle_conflict` -/
  handleConflict : K → T → T → Except String T

/-- What has been collected. -/
structure Changes (K T : Type) where
  /-- Values to be saved under a key, with whether the key is a new one. -/
  saves : List (K × Bool × T)
  /-- Keys to be deleted. -/
  deletions : List K
  /-- `num_migrated` -/
  numMigrated : ℕ

section Model

variable {C X : Type} {R : X → Type} {K T : Type} [LinearOrder K] [AsKey K] [Serde C T]

/-- Take a value in, if it has to be saved. -/
def Changes.add (changes : Changes K T) (m : Migration C K T) (oldKey : K) (value : T) (needsSaving : Bool) :
    Changes K T :=
  let newKey := m.genKey oldKey value
  let keyChanged := decide (newKey ≠ oldKey)
  if needsSaving || keyChanged then
    { saves := changes.saves ++ [(newKey, keyChanged, value)]
      deletions := if keyChanged then changes.deletions ++ [oldKey] else changes.deletions
      numMigrated := changes.numMigrated + 1 }
  else changes

/-- The deletions in the order of a `BTreeSet`. -/
def Changes.sortedDeletions (changes : Changes K T) : List K := changes.deletions.dedup.insertionSort (· ≤ ·)

/-- The saves in the order of a `BTreeMap`, each key with its values in the order in which they came. -/
def Changes.sortedSaves (changes : Changes K T) : List (K × List (Bool × T)) :=
  ((changes.saves.map Prod.fst).dedup.insertionSort (· ≤ ·)).map fun newKey =>
    (newKey, (changes.saves.filter fun save => save.1 = newKey).map Prod.snd)

/-- `read_to_string` on the file of an entry -/
def readToString (entry : Entry C T) : Tool C X R MigrateError C := do
  match ← (Sys.openFile entry.baseDir entry.fileName).attempt with
  | .ok (some s) => pure s
  | .ok none => .throw (.readingFile entry.targetPath)
  | .error _ => .throw (.readingFile entry.targetPath)

/-- Read the entry of a key, if it is there. -/
def readEntry (kv : KeyVal K T) (m : Migration C K T) (changes : Changes K T) (oldKey : K) :
    Tool C X R MigrateError (Changes K T) := do
  match ← (kv.entryOpt oldKey).mapErr MigrateError.keyVal with
  | none => pure changes
  | some entry => do
    let s ← readToString entry
    match m.fromStrMigrating s with
    | .error error => .throw (.fromStrMigrating error)
    | .ok (value, needsSaving) => pure (changes.add m oldKey value needsSaving)

/-- The loop over the files of the table. -/
def readEntries (kv : KeyVal K T) (m : Migration C K T) :
    List String → Changes K T → Tool C X R MigrateError (Changes K T)
  | [], changes => pure changes
  | fileName :: rest, changes =>
    match keyFromFileName fileName kv.baseDir with
    | .error error => .throw (.keyVal error)
    | .ok none => readEntries kv m rest changes
    | .ok (some oldKey) => do
      let changes ← readEntry kv m changes oldKey
      readEntries kv m rest changes

/-- List the files and read them. -/
def collectChanges (kv : KeyVal K T) (m : Migration C K T) : Tool C X R MigrateError (Changes K T) := do
  let names ← ((Sys.readDir kv.baseDir).mapErr (kv.ioError "opening directory" kv.baseDir)).mapErr MigrateError.keyVal
  readEntries kv m names ⟨[], [], 0⟩

/-- Delete what has been under another key. -/
def deleteOld (kv : KeyVal K T) (deletions : List K) : Tool C X R MigrateError Unit :=
  Prog.forEach deletions fun oldKey => do
    let _ ← (kv.delete oldKey).mapErr MigrateError.keyVal
    pure ()

/-- Combine the value with the others. -/
def mergeOthers (m : Migration C K T) (newKey : K) : Bool × T → List (Bool × T) → Outcome MigrateError (Bool × T)
  | value, [] => .ok value
  | (_, value), (_, otherValue) :: values =>
    match m.handleConflict newKey value otherValue with
    | .error error => .err (.handleConflict error)
    | .ok value => mergeOthers m newKey (false, value) values

/-- Combine the values for a key, starting with the last one. -/
def mergeValues (m : Migration C K T) (newKey : K) (values : List (Bool × T)) : Outcome MigrateError (Bool × T) :=
  match values.getLast? with
  | none => .panic "at least one must have been inserted"
  | some value => mergeOthers m newKey value values.dropLast

/-- `KeyVal::get` -/
def getValue (kv : KeyVal K T) (key : K) : Tool C X R KeyValError (Option T) := do
  match ← kv.entryOpt key with
  | none => pure none
  | some entry => do
    let val ← Prog.ofExcept (Entry.get entry)
    pure (some val)

/-- Save the values for a key. -/
def saveOne (kv : KeyVal K T) (m : Migration C K T) (save : K × List (Bool × T)) : Tool C X R MigrateError Unit := do
  let (keyChanged, value) ← Prog.ofOutcome (mergeValues m save.1 save.2)
  match ← (kv.insert save.1 value keyChanged).attempt with
  | .ok () => pure ()
  | .error (.keyExists _ _) => do
    match ← (getValue kv save.1).mapErr MigrateError.keyVal with
    | none => .throw (.vanished (AsKey.debug save.1))
    | some oldValue =>
      match m.handleConflict save.1 oldValue value with
      | .error error => .throw (.handleConflict error)
      | .ok value => (kv.insert save.1 value false).mapErr MigrateError.keyVal
  | .error error => .throw (.keyVal error)

/-- Make the changes. -/
def applyChanges (kv : KeyVal K T) (m : Migration C K T) (changes : Changes K T) : Tool C X R MigrateError ℕ := do
  deleteOld kv changes.sortedDeletions
  Prog.forEach changes.sortedSaves (saveOne kv m)
  pure changes.numMigrated

/-- `migrate_key_val`: how many items were migrated -/
def migrateKeyVal (kv : KeyVal K T) (m : Migration C K T) : Tool C X R MigrateError ℕ := do
  kv.lockExclusive.mapErr MigrateError.keyVal
  Sys.withLock kv.baseDir do
    let changes ← collectChanges kv m
    applyChanges kv m changes

end Model

/-! ### Reading -/

section Reading

variable {C X : Type} {R : X → Type} {K T : Type} [LinearOrder K] [AsKey K] {pid : Pid} {w : World C X R}
  {kv : KeyVal K T} {m : Migration C K T}

/-- The entry of a file: its key, its value, and whether that is in the old format. -/
def oldEntry (kv : KeyVal K T) (m : Migration C K T) (e : Entries C) (fileName : String) : Option (K × T × Bool) :=
  if isTmp fileName then none
  else do
    let key ← tryFromFilenameStr fileName
    let content ← (e (kv.slot key)).join
    let value ← (m.fromStrMigrating content).toOption
    pure (key, value)

/-- The entries of the table, in the order in which the files are listed. -/
def oldEntries (kv : KeyVal K T) (m : Migration C K T) (d : Disk C) : List (K × T × Bool) :=
  (d kv.baseDir).keys.filterMap (oldEntry kv m d.entries)

/-- Take all of them in. -/
def addAll (m : Migration C K T) (olds : List (K × T × Bool)) (changes : Changes K T) : Changes K T :=
  olds.foldl (fun changes old => changes.add m old.1 old.2.1 old.2.2) changes

/-- The file is not visible, or it has the name of a key, and if that has an entry, it can be read. -/
def Readable (kv : KeyVal K T) (m : Migration C K T) (e : Entries C) (fileName : String) : Prop :=
  isTmp fileName = false → ∃ key, tryFromFilenameStr fileName = some key ∧
    (e (kv.slot key) = none ∨ ∃ old, oldEntry kv m e fileName = some old)

theorem goes_readToString {entry : Entry C T} {Q : Outcome MigrateError C → World C X R → Prop}
    (herr : ∀ e w', w.Goes w.disk w' → Q (.err e) w')
    (hok : ∀ s, w.disk.file entry.baseDir entry.fileName = some (some s) → ∀ w', w.Goes w.disk w' → Q (.ok s) w') :
    Safe pid (fun _ => True) Q (readToString entry) w := by
  refine Prog.holds_bind.2 (Prog.holds_attempt.2 (safe_openFile trivial (fun _ _ => trivial) ?_ ?_ ?_))
  · exact fun _ v h => ⟨trivial, herr _ v h⟩
  · exact fun errno v h => ⟨trivial, herr _ v h⟩
  · intro content hfile v h
    cases content with
    | none => exact ⟨trivial, herr _ v h⟩
    | some s => exact ⟨trivial, hok s hfile v h⟩

/-- Reading an entry. -/
theorem goes_readEntry {changes : Changes K T} {fileName : String} {oldKey : K}
    {Q : Outcome MigrateError (Changes K T) → World C X R → Prop} (htmp : isTmp fileName = false)
    (hkey : tryFromFilenameStr fileName = some oldKey) (herr : ∀ e w', w.Goes w.disk w' → Q (.err e) w')
    (hok : Readable kv m w.disk.entries fileName → ∀ w', w.Goes w.disk w' →
      Q (.ok (addAll m (oldEntry kv m w.disk.entries fileName).toList changes)) w') :
    Safe pid (fun _ => True) Q (readEntry kv m changes oldKey) w := by
  refine Prog.holds_bind.2 (Prog.holds_mapErr.2 (KeyVal.goes_entryOpt (fun _ _ => trivial) ?_ ?_ ?_))
  · exact fun e v h => herr _ v h
  · intro hnone v h
    have hold : oldEntry kv m w.disk.entries fileName = none := by simp [oldEntry, htmp, hkey, hnone]
    rw [hold] at hok
    exact ⟨trivial, hok (fun _ => ⟨oldKey, hkey, .inl hnone⟩) v h⟩
  · intro content hcontent v h
    refine Prog.holds_bind.2 (goes_readToString (fun e v' h' => ?_) fun s hfile v' h' => ?_)
    · exact herr e v' (h.same h')
    · have hsome : w.disk.entries (kv.slot oldKey) = some (some s) := by
        rw [KeyVal.slot, Disk.entries_eq_file (isTmp_asFilenameStr oldKey), ← h.disk]
        exact hfile
      cases hvalue : m.fromStrMigrating s with
      | error e =>
        simp only [Prog.Then, hvalue]
        exact ⟨trivial, herr _ v' (h.same h')⟩
      | ok value =>
        have hold : oldEntry kv m w.disk.entries fileName = some (oldKey, value) := by
          simp [oldEntry, htmp, hkey, hsome, hvalue, Except.toOption]
        rw [hold] at hok
        simp only [Prog.Then, hvalue]
        exact ⟨trivial, hok (fun _ => ⟨oldKey, hkey, .inr ⟨_, hold⟩⟩) v' (h.same h')⟩

/-- **Reading** changes nothing, and takes in the entries of all files. -/
theorem goes_readEntries {names : List String} {changes : Changes K T}
    {Q : Outcome MigrateError (Changes K T) → World C X R → Prop} (herr : ∀ e w', w.Goes w.disk w' → Q (.err e) w')
    (hok : (∀ name ∈ names, Readable kv m w.disk.entries name) → ∀ w', w.Goes w.disk w' →
      Q (.ok (addAll m (names.filterMap (oldEntry kv m w.disk.entries)) changes)) w') :
    Safe pid (fun _ => True) Q (readEntries kv m names changes) w := by
  induction names generalizing w changes with
  | nil => exact ⟨trivial, hok (by simp) w (World.Goes.refl w)⟩
  | cons name names ih =>
    unfold readEntries
    split
    · exact ⟨trivial, herr _ w (World.Goes.refl w)⟩
    · next hnone =>
      have htmp := keyFromFileName_eq_none hnone
      have hold : oldEntry kv m w.disk.entries name = none := by simp [oldEntry, htmp]
      refine ih herr fun hreadable v h => ?_
      rw [List.filterMap_cons_none hold] at hok
      refine hok (List.forall_mem_cons.2 ⟨fun hvisible => ?_, hreadable⟩) v h
      rw [htmp] at hvisible
      cases hvisible
    · next oldKey hsome =>
      obtain ⟨htmp, hkey⟩ := keyFromFileName_eq_some hsome
      refine Prog.holds_bind.2 (goes_readEntry htmp hkey herr fun hreadable v h => ?_)
      refine ih (fun e v' h' => herr e v' (h.same h')) fun hrest v' h' => ?_
      rw [h.disk] at hrest ⊢
      have hall := hok (List.forall_mem_cons.2 ⟨hreadable, hrest⟩) v' (h.same h')
      cases hold : oldEntry kv m w.disk.entries name with
      | none =>
        rw [List.filterMap_cons_none hold] at hall
        exact hall
      | some old =>
        rw [List.filterMap_cons_some hold] at hall
        exact hall

theorem goes_collectChanges {Q : Outcome MigrateError (Changes K T) → World C X R → Prop}
    (herr : ∀ e w', w.Goes w.disk w' → Q (.err e) w')
    (hok : (∀ name ∈ (w.disk kv.baseDir).keys, Readable kv m w.disk.entries name) → ∀ w', w.Goes w.disk w' →
      Q (.ok (addAll m (oldEntries kv m w.disk) ⟨[], [], 0⟩)) w') :
    Safe pid (fun _ => True) Q (collectChanges kv m) w := by
  refine Prog.holds_bind.2 (Prog.holds_mapErr.2 (Prog.holds_mapErr.2 (safe_readDir trivial (fun _ _ => trivial) ?_ ?_)))
  · exact fun e v h => herr _ v h
  · intro v h
    refine goes_readEntries (fun e v' h' => herr e v' (h.same h')) fun hreadable v' h' => ?_
    rw [h.disk] at hreadable ⊢
    exact hok hreadable v' (h.same h')

end Reading

/-! ### What is to be changed -/

section Changes

variable {C : Type} {K T : Type} [LinearOrder K] {m : Migration C K T}

/-- The value to be saved for an entry, if there is one. -/
def saveOf (m : Migration C K T) (old : K × T × Bool) : Option (K × Bool × T) :=
  let newKey := m.genKey old.1 old.2.1
  if old.2.2 || decide (newKey ≠ old.1) then some (newKey, decide (newKey ≠ old.1), old.2.1) else none

/-- The values to be saved under a key. -/
def group (m : Migration C K T) (olds : List (K × T × Bool)) (key : K) : List (Bool × T) :=
  ((olds.filterMap (saveOf m)).filter fun save => save.1 = key).map Prod.snd

/-- The values that stay as they are under a key. -/
def current (m : Migration C K T) (olds : List (K × T × Bool)) (key : K) : List T :=
  (olds.filter fun old => old.1 = key ∧ old.2.2 = false ∧ m.genKey old.1 old.2.1 = key).map fun old => old.2.1

/-- All old values whose new key is that key. -/
def newValues (m : Migration C K T) (olds : List (K × T × Bool)) (key : K) : Multiset T :=
  (olds.filter fun old => m.genKey old.1 old.2.1 = key).map fun old => old.2.1

theorem addAll_eq (olds : List (K × T × Bool)) (changes : Changes K T) :
    (addAll m olds changes).saves = changes.saves ++ olds.filterMap (saveOf m) ∧
      (addAll m olds changes).deletions =
        changes.deletions ++ (olds.filter fun old => m.genKey old.1 old.2.1 ≠ old.1).map Prod.fst := by
  induction olds generalizing changes with
  | nil => simp [addAll]
  | cons old olds ih =>
    obtain ⟨hsaves, hdeletions⟩ := ih (changes.add m old.1 old.2.1 old.2.2)
    rw [addAll, List.foldl_cons]
    rw [addAll] at hsaves hdeletions
    rw [hsaves, hdeletions]
    by_cases hkey : m.genKey old.1 old.2.1 = old.1
    · cases hneeds : old.2.2 with
      | false => simp [Changes.add, saveOf, hkey, hneeds]
      | true => simp [Changes.add, saveOf, hkey, hneeds]
    · simp [Changes.add, saveOf, hkey]

theorem eq_of_saveOf {old : K × T × Bool} {save : K × Bool × T} (h : saveOf m old = some save) :
    save = (m.genKey old.1 old.2.1, decide (m.genKey old.1 old.2.1 ≠ old.1), old.2.1) ∧
      (old.2.2 = true ∨ m.genKey old.1 old.2.1 ≠ old.1) := by
  unfold saveOf at h
  dsimp only at h
  split_ifs at h with hsave
  refine ⟨(Option.some.inj h).symm, ?_⟩
  simpa using hsave

/-- The values for a key are those to be saved under it, and those that stay there. -/
theorem newValues_eq (olds : List (K × T × Bool)) (key : K) :
    newValues m olds key = ((group m olds key).map Prod.snd : Multiset T) + (current m olds key : Multiset T) := by
  induction olds with
  | nil => rfl
  | cons old olds ih =>
    simp only [newValues, group, current] at ih ⊢
    by_cases hkey : m.genKey old.1 old.2.1 = key
    · rw [List.filter_cons_of_pos (by simpa using hkey), List.map_cons, ← Multiset.cons_coe, ih]
      cases hsave : saveOf m old with
      | none =>
        -- It stays.
        have hstays : old.1 = key ∧ old.2.2 = false := by
          simp only [saveOf, hkey] at hsave
          split_ifs at hsave with hchanged
          simp only [Bool.or_eq_true, decide_eq_true_eq, not_or, Bool.not_eq_true, not_not] at hchanged
          exact ⟨hchanged.2.symm, hchanged.1⟩
        rw [List.filterMap_cons_none hsave, List.filter_cons_of_pos (by simpa [hkey] using hstays), List.map_cons,
          ← Multiset.cons_coe, Multiset.add_cons]
      | some save =>
        obtain ⟨rfl, hchanged⟩ := eq_of_saveOf hsave
        have hnot : ¬ (old.1 = key ∧ old.2.2 = false ∧ m.genKey old.1 old.2.1 = key) := by
          rintro ⟨hsame, hneeds, -⟩
          rcases hchanged with hold | hne
          · rw [hold] at hneeds
            cases hneeds
          · exact hne (hkey.trans hsame.symm)
        rw [List.filterMap_cons_some hsave, List.filter_cons_of_pos (by simpa using hkey),
          List.filter_cons_of_neg (by simpa using hnot), List.map_cons, List.map_cons, ← Multiset.cons_coe,
          Multiset.cons_add]
    · have hgroup : ((old :: olds).filterMap (saveOf m)).filter (fun save => save.1 = key) =
          (olds.filterMap (saveOf m)).filter fun save => save.1 = key := by
        cases hsave : saveOf m old with
        | none => rw [List.filterMap_cons_none hsave]
        | some save =>
          obtain ⟨rfl, -⟩ := eq_of_saveOf hsave
          rw [List.filterMap_cons_some hsave, List.filter_cons_of_neg (by simpa using hkey)]
      rw [List.filter_cons_of_neg (by simpa using hkey), hgroup, List.filter_cons_of_neg (by simp [hkey]), ih]

theorem newValues_eq_zero {olds : List (K × T × Bool)} {key : K} :
    newValues m olds key = 0 ↔ group m olds key = [] ∧ current m olds key = [] := by
  rw [newValues_eq, Multiset.coe_add, Multiset.coe_eq_zero, List.append_eq_nil_iff, List.map_eq_nil_iff]

end Changes

/-! ### Deleting and saving -/

section Saving

variable {C X : Type} {R : X → Type} {K T : Type} [LinearOrder K] [AsKey K] [Serde C T] {pid : Pid}
  {w : World C X R} {kv : KeyVal K T} {m : Migration C K T}

omit [Serde C T] in
/-- Deleting, if it ends with `Ok`. -/
theorem safe_deleteOld {deletions : List K} {Q : Outcome MigrateError Unit → World C X R → Prop}
    (herr : deletions ≠ [] → ∀ e w', Q (.err e) w')
    (hok : ∀ w' : World C X R, (∀ key, w'.disk.entries (kv.slot key) =
      if key ∈ deletions then none else w.disk.entries (kv.slot key)) → Q (.ok ()) w') :
    Safe pid (fun _ => True) Q (deleteOld kv deletions) w := by
  refine Prog.holds_forEach (fun rest v => rest ⊆ deletions ∧
    ∀ key, (key ∈ deletions → key ∈ rest ∨ v.disk.entries (kv.slot key) = none) ∧
      (key ∉ deletions → v.disk.entries (kv.slot key) = w.disk.entries (kv.slot key))) ?_ ?_ ?_
  · rintro key rest v ⟨hsub, hinv⟩
    refine Prog.holds_bind.2 (Prog.holds_mapErr.2 (KeyVal.safe_delete (fun _ _ => trivial) (fun _ _ => trivial) ?_ ?_))
    · exact fun e v' _ => herr (List.ne_nil_of_mem (hsub List.mem_cons_self)) _ v'
    · intro b v' h
      refine ⟨trivial, fun x hx => hsub (List.mem_cons_of_mem _ hx), fun key' => ⟨fun hmem => ?_, fun hnot => ?_⟩⟩
      · by_cases he : key' = key
        · exact .inr (by rw [h.entries, he, eraseEntry, Function.update_self])
        · rw [h.entries, eraseEntry, Function.update_of_ne (kv.slot_injective.ne he)]
          exact ((hinv key').1 hmem).imp_left fun hrest => (List.mem_cons.1 hrest).resolve_left he
      · have he : key' ≠ key := fun he => hnot (he ▸ hsub List.mem_cons_self)
        rw [h.entries, eraseEntry, Function.update_of_ne (kv.slot_injective.ne he)]
        exact (hinv key').2 hnot
  · rintro v ⟨-, hinv⟩
    refine ⟨trivial, hok v fun key => ?_⟩
    split_ifs with hmem
    · exact ((hinv key).1 hmem).resolve_left (by simp)
    · exact (hinv key).2 hmem
  · exact ⟨List.Subset.refl _, fun key => ⟨.inl, fun _ => rfl⟩⟩

variable (op : K → T → T → T) [∀ k, Std.Commutative (op k)] [∀ k, Std.Associative (op k)]

omit [LinearOrder K] [AsKey K] [Serde C T] in
/-- The others are combined with the value, and if there are any, it is saved without a check. -/
theorem mergeOthers_spec (hop : ∀ k a b c, m.handleConflict k a b = .ok c → c = op k a b) (newKey : K) (value : Bool × T)
    (values : List (Bool × T)) :
    (∃ e, mergeOthers m newKey value values = .err e) ∨
      ∃ value', mergeOthers m newKey value values = .ok value' ∧
        some value'.2 = combine (op newKey) (value.2 ::ₘ (values.map Prod.snd : Multiset T)) ∧
        value'.1 = (value.1 && values.isEmpty) := by
  induction values generalizing value with
  | nil =>
    obtain ⟨keyChanged, v⟩ := value
    exact .inr ⟨(keyChanged, v), rfl, (combine_singleton (op newKey) v).symm, (Bool.and_true _).symm⟩
  | cons other values ih =>
    obtain ⟨keyChanged, v⟩ := value
    obtain ⟨otherKeyChanged, otherValue⟩ := other
    rw [mergeOthers]
    cases hcombined : m.handleConflict newKey v otherValue with
    | error e => exact .inl ⟨_, rfl⟩
    | ok v' =>
      obtain rfl := hop newKey v otherValue v' hcombined
      rcases ih (false, op newKey v otherValue) with ⟨e, he⟩ | ⟨value', hvalue, hcombine, hchanged⟩
      · exact .inl ⟨e, he⟩
      · refine .inr ⟨value', hvalue, ?_, by simpa using hchanged⟩
        rw [hcombine, List.map_cons, ← Multiset.cons_coe, combine_cons_cons]

omit [LinearOrder K] [AsKey K] [Serde C T] in
/-- The values for a key, of which there are some. -/
theorem mergeValues_spec (hop : ∀ k a b c, m.handleConflict k a b = .ok c → c = op k a b) (newKey : K)
    {values : List (Bool × T)} (hne : values ≠ []) :
    (∃ e, mergeValues m newKey values = .err e) ∨
      ∃ keyChanged value, mergeValues m newKey values = .ok (keyChanged, value) ∧
        some value = combine (op newKey) (values.map Prod.snd : Multiset T) ∧
        (keyChanged = true ↔ values = [(true, value)]) := by
  obtain ⟨front, ⟨lastChanged, last⟩, rfl⟩ : ∃ front last, values = front ++ [last] :=
    ⟨_, _, (List.dropLast_append_getLast hne).symm⟩
  have hmerge : mergeValues m newKey (front ++ [(lastChanged, last)]) =
      mergeOthers m newKey (lastChanged, last) front := by
    rw [mergeValues, List.getLast?_concat, List.dropLast_concat]
  rw [hmerge]
  rcases mergeOthers_spec op hop newKey (lastChanged, last) front with ⟨e, he⟩ | ⟨⟨keyChanged, value⟩, he, hvalue, hchanged⟩
  · exact .inl ⟨e, he⟩
  · refine .inr ⟨keyChanged, value, he, ?_, ?_⟩
    · rw [hvalue, List.map_append, ← Multiset.coe_add, Multiset.add_comm]
      rfl
    · cases front with
      | nil =>
        have hlast : value = last := by
          simpa using hvalue
        obtain rfl : keyChanged = lastChanged := by simpa using hchanged
        simp [hlast]
      | cons x front =>
        obtain rfl : keyChanged = false := by simpa using hchanged
        simp

/-- The value that is saved for a key: the combination of its values, and with a value that is there already if there
was only one and it has moved. -/
def SavedAs (kv : KeyVal K T) (e : Entries C) (save : K × List (Bool × T)) (value : T) : Prop :=
  Option.merge (op save.1) (if save.2.map Prod.fst = [true] then (e (kv.slot save.1)).join.bind Serde.fromStr else none)
    (combine (op save.1) (save.2.map Prod.snd : Multiset T)) = some value

omit [LinearOrder K] in
theorem goes_getValue {key : K} {Q : Outcome KeyValError (Option T) → World C X R → Prop}
    (herr : ∀ e w', w.Goes w.disk w' → Q (.err e) w')
    (hnone : w.disk.entries (kv.slot key) = none → ∀ w', w.Goes w.disk w' → Q (.ok none) w')
    (hsome : ∀ value, (w.disk.entries (kv.slot key)).join.bind Serde.fromStr = some value → ∀ w', w.Goes w.disk w' →
      Q (.ok (some value)) w') : Safe pid (fun _ => True) Q (getValue kv key) w := by
  refine Prog.holds_bind.2 (KeyVal.goes_entryOpt (fun _ _ => trivial) herr ?_ ?_)
  · exact fun hmissing v h => ⟨trivial, hnone hmissing v h⟩
  · intro content hcontent v h
    rw [hcontent] at hsome
    simp only [Prog.Then, Entry.get, Option.join_some] at hsome ⊢
    cases hvalue : (content.bind Serde.fromStr : Option T) with
    | none => exact ⟨trivial, herr _ v h⟩
    | some value => exact ⟨trivial, hsome value hvalue v h⟩

omit [LinearOrder K] in
/-- **Saving** the values for a key: nothing has changed, or the value for the key is there. -/
theorem safe_saveOne (hop : ∀ k a b c, m.handleConflict k a b = .ok c → c = op k a b) {save : K × List (Bool × T)}
    (hne : save.2 ≠ []) {Q : Outcome MigrateError Unit → World C X R → Prop}
    (hkeep : ∀ e w', w.Leads w.disk.entries w' → Q (.err e) w')
    (hput : ∀ value w', SavedAs op kv w.disk.entries save value →
      w.Leads (putEntry w.disk.entries (kv.slot save.1) (Serde.toString value)) w' → (∀ e, Q (.err e) w') ∧ Q (.ok ()) w') :
    Safe pid (fun _ => True) Q (saveOne kv m save) w := by
  obtain ⟨newKey, values⟩ := save
  have l₀ := World.Leads.refl w
  refine Prog.holds_bind.2 ?_
  rcases mergeValues_spec op hop newKey hne with ⟨e, he⟩ | ⟨keyChanged, value, he, hvalue, hchanged⟩
  · rw [he]
    exact ⟨trivial, hkeep _ w l₀⟩
  rw [he]
  refine ⟨trivial, ?_⟩
  -- The value to be inserted, if no other value is under the key.
  have hsaved : (keyChanged = true → w.disk.entries (kv.slot newKey) = none) →
      SavedAs op kv w.disk.entries (newKey, values) value := by
    intro habsent
    rw [SavedAs, ← hvalue]
    split_ifs with hsingle
    · have hmoved : keyChanged = true := by
        obtain ⟨⟨b, v⟩, rfl⟩ := List.length_eq_one_iff.1 (show values.length = 1 by simpa using congrArg List.length hsingle)
        obtain rfl : b = true := by simpa using hsingle
        refine hchanged.2 ?_
        rw [show value = v by simpa using hvalue]
      rw [habsent hmoved]
      rfl
    · rfl
  have hinsert : Safe pid (fun _ => True) (fun r v => (r = .ok () → SavedAs op kv w.disk.entries (newKey, values) value ∧
      w.Leads (putEntry w.disk.entries (kv.slot newKey) (Serde.toString value)) v) ∧
      (∀ e, r = .err e → w.Leads w.disk.entries v ∨ SavedAs op kv w.disk.entries (newKey, values) value ∧
        w.Leads (putEntry w.disk.entries (kv.slot newKey) (Serde.toString value)) v) ∧ ∀ msg, r ≠ .panic msg)
      (kv.insert newKey value keyChanged) w := by
    refine KeyVal.safe_insert (fun _ _ => trivial) (fun _ _ _ => trivial) ?_ ?_ ?_
    · exact fun e v h => ⟨(fun he => by cases he), fun _ _ => .inl h, (fun msg he => by cases he)⟩
    · exact fun ha e v h => ⟨(fun he => by cases he), fun _ _ => .inr ⟨hsaved ha, h⟩, (fun msg he => by cases he)⟩
    · exact fun ha v h => ⟨fun _ => ⟨hsaved ha, h⟩, (fun e he => by cases he), (fun msg he => by cases he)⟩
  refine Prog.holds_bind.2 (Prog.holds_attempt.2 ((hinsert.and KeyVal.keyExists_of_insert).mono (fun _ _ => trivial) ?_))
  rintro r v ⟨⟨hok, herr, hpanic⟩, hexists⟩
  cases r with
  | panic msg => exact absurd rfl (hpanic msg)
  | ok _ =>
    obtain ⟨hs, h⟩ := hok rfl
    exact ⟨trivial, (hput value v hs h).2⟩
  | err e =>
    have herr' : ∀ e', Q (.err e') v := by
      intro e'
      rcases herr e rfl with h | ⟨hs, h⟩
      · exact hkeep e' v h
      · exact (hput value v hs h).1 e'
    cases e with
    | keyExists dir key' =>
      -- The key is taken by a value that stays there: the two are combined.
      obtain ⟨hmoved, hpresent, h⟩ := hexists dir key' rfl
      refine Prog.holds_bind.2 (Prog.holds_mapErr.2 (goes_getValue ?_ ?_ ?_))
      · exact fun e v' h' => hkeep _ v' (h.trans (h.entries ▸ h'.leads))
      · intro hmissing
        rw [h.entries] at hmissing
        exact absurd hmissing hpresent
      · intro oldValue hold v' h'
        rw [h.entries] at hold
        have l' : w.Leads w.disk.entries v' := h.trans (h.entries ▸ h'.leads)
        cases hcombined : m.handleConflict newKey oldValue value with
        | error e =>
          simp only [Prog.Then, hcombined]
          exact ⟨trivial, hkeep _ v' l'⟩
        | ok combined =>
          simp only [Prog.Then, hcombined]
          have hs : SavedAs op kv w.disk.entries (newKey, values) combined := by
            rw [SavedAs, ← hvalue, if_pos (by rw [hchanged.1 hmoved]; rfl), hold, hop newKey oldValue value combined hcombined]
            rfl
          refine Prog.holds_mapErr.2 (KeyVal.safe_insert (fun _ _ => trivial) (fun _ _ _ => trivial) ?_ ?_ ?_)
          · exact fun e u hu => hkeep _ u (l'.trans (l'.entries ▸ hu))
          · intro _ e u hu
            rw [l'.entries] at hu
            exact (hput combined u hs (l'.trans hu)).1 _
          · intro _ u hu
            rw [l'.entries] at hu
            exact (hput combined u hs (l'.trans hu)).2
    | io baseDir path ctx error => exact ⟨trivial, herr' _⟩
    | deserialization baseDir path => exact ⟨trivial, herr' _⟩
    | invalidFileNameInStorage baseDir ctx name => exact ⟨trivial, herr' _⟩
    | lockTaken baseDir path => exact ⟨trivial, herr' _⟩
    | alreadyLocked baseDir path => exact ⟨trivial, herr' _⟩

/-- All saves are done but the rest. -/
structure SavedBut (kv : KeyVal K T) (e : Entries C) (saves rest : List (K × List (Bool × T))) (e' : Entries C) : Prop where
  /-- The rest. -/
  waiting : ∀ save ∈ saves, save ∈ rest → e' (kv.slot save.1) = e (kv.slot save.1)
  /-- Those that are done. -/
  done : ∀ save ∈ saves, save ∉ rest → ∃ value, SavedAs op kv e save value ∧
    e' (kv.slot save.1) = some (some (Serde.toString value))
  /-- Everything else. -/
  others : ∀ key, key ∉ saves.map Prod.fst → e' (kv.slot key) = e (kv.slot key)

omit [LinearOrder K] in
theorem SavedBut.step {e e₁ e₂ : Entries C} {saves rest : List (K × List (Bool × T))} {save : K × List (Bool × T)}
    (h : SavedBut op kv e saves (save :: rest) e₁) (hsub : save :: rest ⊆ saves) (hnodup : (saves.map Prod.fst).Nodup)
    (hrest : (save :: rest).Nodup) {value : T} (hs : SavedAs op kv e₁ save value)
    (he₂ : e₂ = putEntry e₁ (kv.slot save.1) (Serde.toString value)) : SavedBut op kv e saves rest e₂ := by
  have hmem : save ∈ saves := hsub List.mem_cons_self
  have hother : ∀ {key : K}, key ≠ save.1 → e₂ (kv.slot key) = e₁ (kv.slot key) := by
    intro key hne
    rw [he₂, putEntry, Function.update_of_ne (kv.slot_injective.ne hne)]
  have hkey : ∀ save' ∈ saves, save'.1 = save.1 → save' = save := fun save' hsave' he =>
    List.inj_on_of_nodup_map hnodup hsave' hmem he
  have hhere : e₁ (kv.slot save.1) = e (kv.slot save.1) := h.waiting save hmem List.mem_cons_self
  refine ⟨fun save' hsave' hwaiting => ?_, fun save' hsave' hdone => ?_, fun key hnot => ?_⟩
  · have hne : save' ≠ save := by
      rintro rfl
      exact (List.nodup_cons.1 hrest).1 hwaiting
    rw [hother fun he => hne (hkey save' hsave' he)]
    exact h.waiting save' hsave' (List.mem_cons_of_mem _ hwaiting)
  · by_cases he : save' = save
    · subst he
      refine ⟨value, ?_, by rw [he₂, putEntry, Function.update_self]⟩
      rw [SavedAs, ← hhere]
      exact hs
    · rw [hother fun hk => he (hkey save' hsave' hk)]
      exact h.done save' hsave' fun hin => hdone ((List.mem_cons.1 hin).resolve_left he)
  · have hne : key ≠ save.1 := by
      rintro rfl
      exact hnot (List.mem_map_of_mem hmem)
    rw [hother hne]
    exact h.others key hnot

omit [LinearOrder K] in
/-- **Saving** everything: all is saved, or with an error all but a rest. -/
theorem safe_saveAll (hop : ∀ k a b c, m.handleConflict k a b = .ok c → c = op k a b)
    {saves : List (K × List (Bool × T))} (hnodup : (saves.map Prod.fst).Nodup) (hne : ∀ save ∈ saves, save.2 ≠ [])
    {Q : Outcome MigrateError Unit → World C X R → Prop}
    (herr : ∀ e rest w', SavedBut op kv w.disk.entries saves rest w'.disk.entries → Q (.err e) w')
    (hok : ∀ w', SavedBut op kv w.disk.entries saves [] w'.disk.entries → Q (.ok ()) w') :
    Safe pid (fun _ => True) Q (Prog.forEach saves (saveOne kv m)) w := by
  refine Prog.holds_forEach (fun rest v => rest <:+ saves ∧
    SavedBut op kv w.disk.entries saves rest v.disk.entries) ?_ ?_ ?_
  · rintro save rest v ⟨hsuffix, hinv⟩
    have hsub := hsuffix.subset
    have hrest : (save :: rest).Nodup := hsuffix.sublist.nodup hnodup.of_map
    refine safe_saveOne op hop (hne save (hsub List.mem_cons_self)) ?_ ?_
    · intro e v' h
      refine herr e (save :: rest) v' ?_
      rw [h.entries]
      exact hinv
    · intro value v' hs h
      have hdone := hinv.step op hsub hnodup hrest hs h.entries
      exact ⟨fun e => herr e rest v' hdone, (List.suffix_cons save rest).trans hsuffix, hdone⟩
  · rintro v ⟨-, hinv⟩
    exact ⟨trivial, hok v hinv⟩
  · refine ⟨List.suffix_refl saves, fun _ _ _ => rfl, fun save hsave hnot => absurd hsave hnot, fun _ _ => rfl⟩

end Saving

/-! ### The migrated table -/

section Migrated

variable {C X : Type} {R : X → Type} {K T : Type} [LinearOrder K] [AsKey K] [Serde C T] {pid : Pid}
  {w w' : World C X R} {kv : KeyVal K T} {m : Migration C K T}

/-- The files of the table have the names of their keys. -/
def Canonical (kv : KeyVal K T) (d : Disk C) : Prop :=
  ∀ name ∈ (d kv.baseDir).keys, isTmp name = false → ∀ key : K, tryFromFilenameStr name = some key →
    name = asFilenameStr key

omit [LinearOrder K] [Serde C T] in
theorem oldEntry_eq_some_iff {e : Entries C} {fileName : String} {key : K} {value : T × Bool} :
    oldEntry kv m e fileName = some (key, value) ↔ isTmp fileName = false ∧ tryFromFilenameStr fileName = some key ∧
      ∃ s, e (kv.slot key) = some (some s) ∧ m.fromStrMigrating s = .ok value := by
  unfold oldEntry
  split_ifs with htmp
  · simp [htmp]
  · simp only [Option.bind_eq_bind, Option.bind_eq_some_iff, Option.pure_def, Option.some.injEq, Prod.mk.injEq]
    constructor
    · rintro ⟨key', hkey, s, hs, value', hvalue, rfl, rfl⟩
      refine ⟨by simpa using htmp, hkey, s, Option.join_eq_some_iff.1 hs, ?_⟩
      cases hm : m.fromStrMigrating s with
      | error e =>
        rw [hm] at hvalue
        cases hvalue
      | ok v =>
        rw [hm] at hvalue
        rw [← Option.some.inj hvalue]
    · rintro ⟨-, hkey, s, hs, hvalue⟩
      exact ⟨key, hkey, s, Option.join_eq_some_iff.2 hs, value, by rw [hvalue]; rfl, rfl, rfl⟩

omit [LinearOrder K] [Serde C T] in
theorem mem_oldEntries {key : K} {value : T × Bool} :
    (key, value) ∈ oldEntries kv m w.disk ↔
      ∃ s, w.disk.entries (kv.slot key) = some (some s) ∧ m.fromStrMigrating s = .ok value := by
  rw [oldEntries, List.mem_filterMap]
  constructor
  · rintro ⟨name, -, hold⟩
    exact (oldEntry_eq_some_iff.1 hold).2.2
  · rintro ⟨s, hs, hvalue⟩
    refine ⟨asFilenameStr key, ?_, oldEntry_eq_some_iff.2 ⟨isTmp_asFilenameStr key, tryFrom_asFilenameStr key, s, hs, hvalue⟩⟩
    refine (mem_keys_iff_entries (isTmp_asFilenameStr key)).2 ?_
    rw [show w.disk.entries (kv.baseDir, asFilenameStr key) = some (some s) from hs]
    rfl

omit [LinearOrder K] [Serde C T] in
/-- Each key has one value. -/
theorem nodup_oldEntries (hnames : Canonical (K := K) kv w.disk) : ((oldEntries kv m w.disk).map Prod.fst).Nodup := by
  rw [oldEntries, List.map_filterMap]
  refine List.pairwise_filterMap.2 (List.Pairwise.imp_of_mem ?_ (w.disk kv.baseDir).keys_nodup)
  intro name name' hmem hmem' hne key hkey key' hkey' he
  obtain ⟨⟨k, value⟩, hold, rfl⟩ := Option.map_eq_some_iff.1 hkey
  obtain ⟨⟨k', value'⟩, hold', rfl⟩ := Option.map_eq_some_iff.1 hkey'
  obtain rfl : k = k' := he
  obtain ⟨htmp, hname, -⟩ := oldEntry_eq_some_iff.1 hold
  obtain ⟨htmp', hname', -⟩ := oldEntry_eq_some_iff.1 hold'
  exact hne ((hnames name hmem htmp k hname).trans (hnames name' hmem' htmp' k hname').symm)

omit [LinearOrder K] [Serde C T] in
/-- Where all files can be read, what is under a key is a value. -/
theorem exists_old_of_entry (hreadable : ∀ name ∈ (w.disk kv.baseDir).keys, Readable kv m w.disk.entries name) {key : K}
    (hentry : w.disk.entries (kv.slot key) ≠ none) : ∃ value, (key, value) ∈ oldEntries kv m w.disk := by
  have hmem : asFilenameStr key ∈ (w.disk kv.baseDir).keys :=
    (mem_keys_iff_entries (isTmp_asFilenameStr key)).2 (Option.isSome_iff_ne_none.2 hentry)
  obtain ⟨key', hkey, hread⟩ := hreadable _ hmem (isTmp_asFilenameStr key)
  obtain rfl : key = key' := Option.some.inj ((tryFrom_asFilenameStr key).symm.trans hkey)
  rcases hread with hnone | ⟨⟨key', value⟩, hold⟩
  · exact absurd hnone hentry
  · obtain ⟨-, hkey', s, hs, hvalue⟩ := oldEntry_eq_some_iff.1 hold
    obtain rfl : key = key' := Option.some.inj (hkey.symm.trans hkey')
    exact ⟨value, mem_oldEntries.2 ⟨s, hs, hvalue⟩⟩

/-- Under the key a value stays as it is, and two or more others come to it. -/
def Overwritten (m : Migration C K T) (olds : List (K × T × Bool)) (key : K) : Prop :=
  current m olds key ≠ [] ∧ 2 ≤ (group m olds key).length

instance (m : Migration C K T) (olds : List (K × T × Bool)) (key : K) : Decidable (Overwritten m olds key) :=
  inferInstanceAs (Decidable (_ ∧ _))

/-- All values stay under their keys. -/
def StaysPut (m : Migration C K T) (olds : List (K × T × Bool)) : Prop :=
  ∀ old ∈ olds, m.genKey old.1 old.2.1 = old.1

/-- The table maps each key to the combination of all old values whose new key it is, and holds no other key. -/
structure Combined (op : K → T → T → T) [∀ k, Std.Commutative (op k)] [∀ k, Std.Associative (op k)] (kv : KeyVal K T)
    (m : Migration C K T) (d d' : Disk C) : Prop where
  /-- The values. -/
  value : ∀ key, kv.get? d' key = combine (op key) (newValues m (oldEntries kv m d) key)
  /-- There is nothing under other keys. -/
  only : ∀ key, newValues m (oldEntries kv m d) key = 0 → d'.entries (kv.slot key) = none

/-- Whatever has been in the table is still there, or it is one of the values combined under its new key. -/
def NothingLost (op : K → T → T → T) [∀ k, Std.Commutative (op k)] [∀ k, Std.Associative (op k)] (kv : KeyVal K T)
    (m : Migration C K T) (d d' : Disk C) : Prop :=
  ∀ key content, d.entries (kv.slot key) = some content → d'.entries (kv.slot key) = some content ∨
    ∃ value newKey, (key, value) ∈ oldEntries kv m d ∧ m.genKey key value.1 = newKey ∧
      ∃ s ≤ newValues m (oldEntries kv m d) newKey, value.1 ∈ s ∧ kv.get? d' newKey = combine (op newKey) s

variable {olds : List (K × T × Bool)}

omit [AsKey K] [Serde C T] in
theorem mem_sortedDeletions {key : K} :
    key ∈ (addAll m olds ⟨[], [], 0⟩).sortedDeletions ↔ ∃ value, (key, value) ∈ olds ∧ m.genKey key value.1 ≠ key := by
  rw [Changes.sortedDeletions, (addAll_eq olds _).2, List.mem_insertionSort, List.mem_dedup]
  simp

omit [AsKey K] [Serde C T] in
/-- The saves: each key to which values come, with these values. -/
theorem mem_sortedSaves {save : K × List (Bool × T)} :
    save ∈ (addAll m olds ⟨[], [], 0⟩).sortedSaves ↔ save.2 = group m olds save.1 ∧ group m olds save.1 ≠ [] := by
  obtain ⟨key, values⟩ := save
  have hgroup : group m olds key ≠ [] ↔ ∃ save ∈ olds.filterMap (saveOf m), save.1 = key := by
    rw [group, Ne, List.map_eq_nil_iff, List.filter_eq_nil_iff]
    simp only [decide_eq_true_eq, not_forall, not_not, exists_prop]
  rw [Changes.sortedSaves, (addAll_eq olds _).1, List.nil_append, List.mem_map, hgroup]
  simp only [List.mem_insertionSort, List.mem_dedup, List.mem_map, Prod.mk.injEq]
  constructor
  · rintro ⟨key', hkey', rfl, rfl⟩
    exact ⟨rfl, hkey'⟩
  · rintro ⟨rfl, hkey⟩
    exact ⟨key, hkey, rfl, rfl⟩

omit [AsKey K] [Serde C T] in
theorem nodup_sortedSaves : ((addAll m olds ⟨[], [], 0⟩).sortedSaves.map Prod.fst).Nodup := by
  rw [Changes.sortedSaves, List.map_map]
  refine List.Nodup.map (fun _ _ h => h) ?_
  exact (List.perm_insertionSort _ _).nodup_iff.2 (List.nodup_dedup _)

omit [AsKey K] [Serde C T] in
/-- Where the values to be saved come from. -/
theorem exists_old_of_mem_group {key : K} {save : Bool × T} (h : save ∈ group m olds key) :
    ∃ old ∈ olds, m.genKey old.1 old.2.1 = key ∧ save = (decide (key ≠ old.1), old.2.1) ∧ (old.2.2 = true ∨ key ≠ old.1) := by
  rw [group, List.mem_map] at h
  obtain ⟨save', hsave', rfl⟩ := h
  rw [List.mem_filter, List.mem_filterMap] at hsave'
  obtain ⟨⟨old, hold, hof⟩, hkey⟩ := hsave'
  obtain ⟨rfl, hchanged⟩ := eq_of_saveOf hof
  obtain rfl : m.genKey old.1 old.2.1 = key := by simpa using hkey
  exact ⟨old, hold, rfl, rfl, hchanged⟩

omit [AsKey K] [Serde C T] in
/-- A value that is in the new format and stays under its key. -/
theorem current_eq_singleton (hnodup : (olds.map Prod.fst).Nodup) {key : K} {value : T} (hmem : (key, value, false) ∈ olds)
    (hkey : m.genKey key value = key) : current m olds key = [value] := by
  have hfilter : olds.filter (fun old => old.1 = key ∧ old.2.2 = false ∧ m.genKey old.1 old.2.1 = key) =
      [(key, value, false)] := by
    have hall : ∀ old ∈ olds.filter (fun old => old.1 = key ∧ old.2.2 = false ∧ m.genKey old.1 old.2.1 = key),
        old = (key, value, false) := by
      intro old hold
      obtain ⟨hin, hp⟩ := List.mem_filter.1 hold
      exact List.inj_on_of_nodup_map hnodup hin hmem (of_decide_eq_true hp).1
    have hin : (key, value, false) ∈
        olds.filter (fun old => old.1 = key ∧ old.2.2 = false ∧ m.genKey old.1 old.2.1 = key) :=
      List.mem_filter.2 ⟨hmem, decide_eq_true ⟨rfl, rfl, hkey⟩⟩
    obtain ⟨n, hn⟩ : ∃ n, olds.filter (fun old => old.1 = key ∧ old.2.2 = false ∧ m.genKey old.1 old.2.1 = key) =
        List.replicate n (key, value, false) := ⟨_, List.eq_replicate_of_mem hall⟩
    have hle : n ≤ 1 := List.nodup_replicate.1 (hn ▸ (hnodup.of_map).filter _)
    rw [hn] at hin ⊢
    obtain rfl : n = 1 := by
      have := (List.mem_replicate.1 hin).1
      omega
    rfl
  rw [current, hfilter]
  rfl

omit [AsKey K] [Serde C T] in
/-- Otherwise nothing stays under a key. -/
theorem current_eq_nil {key : K} (h : ∀ value, (key, value, false) ∈ olds → m.genKey key value ≠ key) :
    current m olds key = [] := by
  rw [current, List.map_eq_nil_iff, List.filter_eq_nil_iff]
  rintro ⟨key', value, needs⟩ hmem hp
  obtain ⟨rfl, rfl, hkey⟩ := of_decide_eq_true hp
  exact h value hmem hkey

section Result

variable (op : K → T → T → T) [∀ k, Std.Commutative (op k)] [∀ k, Std.Associative (op k)]

/-- What is under a key when the old keys have been deleted, if it is not to be saved again itself. -/
theorem get_afterDeletions (hcurrent : ∀ s v, m.fromStrMigrating s = .ok (v, false) → Serde.fromStr s = some v)
    (hnames : Canonical (K := K) kv w.disk)
    (hreadable : ∀ name ∈ (w.disk kv.baseDir).keys, Readable kv m w.disk.entries name) {e : Entries C}
    (he : ∀ key, e (kv.slot key) = if key ∈ (addAll m (oldEntries kv m w.disk) ⟨[], [], 0⟩).sortedDeletions then none
      else w.disk.entries (kv.slot key)) (key : K) (hgroup : ∀ value, (false, value) ∉ group m (oldEntries kv m w.disk) key) :
    ((e (kv.slot key)).join.bind Serde.fromStr : Option T) =
      combine (op key) (current m (oldEntries kv m w.disk) key : Multiset T) := by
  have hnodup := nodup_oldEntries (m := m) hnames
  rw [he]
  split_ifs with hdeleted
  · obtain ⟨value, hmem, hmoves⟩ := mem_sortedDeletions.1 hdeleted
    rw [current_eq_nil]
    · rfl
    · intro value' hmem' hkey
      obtain ⟨-, rfl⟩ := Prod.mk.inj (List.inj_on_of_nodup_map hnodup hmem hmem' rfl)
      exact hmoves hkey
  · by_cases hentry : w.disk.entries (kv.slot key) = none
    · rw [hentry, current_eq_nil]
      · rfl
      · intro value hmem
        obtain ⟨s, hs, -⟩ := mem_oldEntries.1 hmem
        rw [hentry] at hs
        cases hs
    · obtain ⟨⟨value, needs⟩, hmem⟩ := exists_old_of_entry hreadable hentry
      obtain ⟨s, hs, hvalue⟩ := mem_oldEntries.1 hmem
      have hkey : m.genKey key value = key := by
        by_contra hmoves
        exact hdeleted (mem_sortedDeletions.2 ⟨_, hmem, hmoves⟩)
      cases needs with
      | true =>
        refine absurd ?_ (hgroup value)
        rw [group, List.mem_map]
        refine ⟨(key, false, value), List.mem_filter.2 ⟨List.mem_filterMap.2 ⟨_, hmem, ?_⟩, by simp⟩, rfl⟩
        simp [saveOf, hkey]
      | false =>
        rw [current_eq_singleton hnodup hmem hkey, hs, Option.join_some, Option.bind_some, hcurrent s value hvalue,
          Multiset.coe_singleton, combine_singleton]

/-- **The migrated table**: under each key the combination of all old values with that new key, but a value that
stays there is overwritten if two or more others come to it. -/
theorem get_of_savedBut (hcurrent : ∀ s v, m.fromStrMigrating s = .ok (v, false) → Serde.fromStr s = some v)
    (hnames : Canonical (K := K) kv w.disk)
    (hreadable : ∀ name ∈ (w.disk kv.baseDir).keys, Readable kv m w.disk.entries name) {e : Entries C}
    (he : ∀ key, e (kv.slot key) = if key ∈ (addAll m (oldEntries kv m w.disk) ⟨[], [], 0⟩).sortedDeletions then none
      else w.disk.entries (kv.slot key))
    (hsaved : SavedBut op kv e (addAll m (oldEntries kv m w.disk) ⟨[], [], 0⟩).sortedSaves [] w'.disk.entries) (key : K) :
    kv.get? w'.disk key = combine (op key) (if Overwritten m (oldEntries kv m w.disk) key
      then ((group m (oldEntries kv m w.disk) key).map Prod.snd : Multiset T) else newValues m (oldEntries kv m w.disk) key) := by
  have hnodup := nodup_oldEntries (m := m) hnames
  have hafter := get_afterDeletions op hcurrent hnames hreadable he key
  generalize oldEntries kv m w.disk = olds at *
  by_cases hempty : group m olds key = []
  · -- Nothing is saved under the key.
    have hnot : key ∉ (addAll m olds ⟨[], [], 0⟩).sortedSaves.map Prod.fst := by
      rw [List.mem_map]
      rintro ⟨save, hsave, rfl⟩
      exact (mem_sortedSaves.1 hsave).2 hempty
    rw [if_neg (by simp [Overwritten, hempty]), newValues_eq, hempty, KeyVal.get?, hsaved.others key hnot,
      hafter (by simp [hempty])]
    simp
  obtain ⟨value, hvalue, hstored⟩ := hsaved.done (key, group m olds key) (mem_sortedSaves.2 ⟨rfl, hempty⟩) (by simp)
  have hget : kv.get? w'.disk key = some value := by
    rw [KeyVal.get?, hstored, Option.join_some, Option.bind_some, Serde.fromStr_toString]
  rw [hget, ← hvalue]
  dsimp only
  by_cases hsingle : (group m olds key).map Prod.fst = [true]
  · -- One value comes to the key, and is combined with the one that stays there.
    have hgroup : ∀ value, (false, value) ∉ group m olds key := by
      intro value hmem
      have := List.mem_map_of_mem (f := Prod.fst) hmem
      rw [hsingle] at this
      simp at this
    have hlength : (group m olds key).length = 1 := by simpa using congrArg List.length hsingle
    rw [if_pos hsingle, if_neg (by simp [Overwritten, hlength]), hafter hgroup, newValues_eq, combine_add]
    exact Std.Commutative.comm _ _
  · rw [if_neg hsingle]
    by_cases hgroup : ∀ value, (false, value) ∉ group m olds key
    · -- Two or more values come to the key.
      have hlength : 2 ≤ (group m olds key).length := by
        match hcase : group m olds key with
        | [] => exact absurd hcase hempty
        | [(true, v)] => exact absurd (by rw [hcase]; rfl) hsingle
        | [(false, v)] => exact absurd (by rw [hcase]; exact List.mem_singleton_self _) (hgroup v)
        | a :: b :: rest => simp
      by_cases hnil : current m olds key = []
      · rw [if_neg (by simp [Overwritten, hnil]), newValues_eq, hnil]
        simp
      · rw [if_pos ⟨hnil, hlength⟩]
        simp
    · -- The value under the key is itself saved again.
      push Not at hgroup
      obtain ⟨v, hv⟩ := hgroup
      obtain ⟨⟨key', v', needs⟩, hold, hkey, hsave, hneeds⟩ := exists_old_of_mem_group hv
      have hsame : key = key' := by simpa using congrArg Prod.fst hsave
      subst hsame
      obtain rfl : needs = true := hneeds.resolve_right fun hne => hne rfl
      have hnil : current m olds key = [] := by
        refine current_eq_nil fun value' hmem' => ?_
        have := List.inj_on_of_nodup_map hnodup hold hmem' rfl
        simp at this
      rw [if_neg (by simp [Overwritten, hnil]), newValues_eq, hnil]
      simp

omit op [Serde C T] [∀ k, Std.Commutative (op k)] [∀ k, Std.Associative (op k)] in
/-- A value that stays under its key is one of the new values of it. -/
theorem newValues_ne_zero (hnames : Canonical (K := K) kv w.disk) {key : K} {value : T} {needs : Bool}
    (hmem : (key, value, needs) ∈ oldEntries kv m w.disk) (hkey : m.genKey key value = key) :
    newValues m (oldEntries kv m w.disk) key ≠ 0 := by
  intro hzero
  obtain ⟨hgroup, hcurrent⟩ := newValues_eq_zero.1 hzero
  cases needs with
  | true =>
    have hsave : (false, value) ∈ group m (oldEntries kv m w.disk) key := by
      rw [group, List.mem_map]
      refine ⟨(key, false, value), List.mem_filter.2 ⟨List.mem_filterMap.2 ⟨_, hmem, ?_⟩, by simp⟩, rfl⟩
      simp [saveOf, hkey]
    rw [hgroup] at hsave
    cases hsave
  | false =>
    rw [current_eq_singleton (nodup_oldEntries hnames) hmem hkey] at hcurrent
    cases hcurrent

/-- **No other key is left**: there is nothing under a key that no old value comes to. -/
theorem entry_of_savedBut (hnames : Canonical (K := K) kv w.disk)
    (hreadable : ∀ name ∈ (w.disk kv.baseDir).keys, Readable kv m w.disk.entries name) {e : Entries C}
    (he : ∀ key, e (kv.slot key) = if key ∈ (addAll m (oldEntries kv m w.disk) ⟨[], [], 0⟩).sortedDeletions then none
      else w.disk.entries (kv.slot key))
    (hsaved : SavedBut op kv e (addAll m (oldEntries kv m w.disk) ⟨[], [], 0⟩).sortedSaves [] w'.disk.entries) {key : K}
    (hzero : newValues m (oldEntries kv m w.disk) key = 0) : w'.disk.entries (kv.slot key) = none := by
  have hnot : key ∉ (addAll m (oldEntries kv m w.disk) ⟨[], [], 0⟩).sortedSaves.map Prod.fst := by
    rw [List.mem_map]
    rintro ⟨save, hsave, rfl⟩
    exact (mem_sortedSaves.1 hsave).2 (newValues_eq_zero.1 hzero).1
  rw [hsaved.others key hnot, he]
  split_ifs with hdeleted
  · rfl
  · by_contra hentry
    obtain ⟨⟨value, needs⟩, hmem⟩ := exists_old_of_entry hreadable hentry
    refine newValues_ne_zero hnames hmem ?_ hzero
    by_contra hmoves
    exact hdeleted (mem_sortedDeletions.2 ⟨_, hmem, hmoves⟩)

omit [LinearOrder K] [Serde C T] in
theorem nothingLost_of_entries {op : K → T → T → T} [∀ k, Std.Commutative (op k)] [∀ k, Std.Associative (op k)]
    [LinearOrder K] [Serde C T] {d d' : Disk C} (h : d'.entries = d.entries) : NothingLost op kv m d d' := by
  intro key content hcontent
  left
  rw [h]
  exact hcontent

/-- While the values are saved, nothing is lost if all stay under their keys. -/
theorem nothingLost_of_savedBut (hstays : StaysPut m (oldEntries kv m w.disk)) {e : Entries C}
    (he : ∀ key, e (kv.slot key) = w.disk.entries (kv.slot key)) {rest : List (K × List (Bool × T))}
    (hsaved : SavedBut op kv e (addAll m (oldEntries kv m w.disk) ⟨[], [], 0⟩).sortedSaves rest
      w'.disk.entries) : NothingLost op kv m w.disk w'.disk := by
  intro key content hcontent
  by_cases hsave : (key, group m (oldEntries kv m w.disk) key) ∈ (addAll m (oldEntries kv m w.disk) ⟨[], [], 0⟩).sortedSaves
  · by_cases hrest : (key, group m (oldEntries kv m w.disk) key) ∈ rest
    · left
      rw [hsaved.waiting _ hsave hrest, he]
      exact hcontent
    · right
      obtain ⟨value, hvalue, hstored⟩ := hsaved.done _ hsave hrest
      obtain ⟨save, hmem⟩ := List.exists_mem_of_ne_nil _ (mem_sortedSaves.1 hsave).2
      -- The values to be saved are old values under the same key.
      have hold : ∀ save ∈ group m (oldEntries kv m w.disk) key,
          (key, save.2, true) ∈ oldEntries kv m w.disk ∧ save.1 = false := by
        intro save hmem
        obtain ⟨⟨key', v, needs⟩, hin, hkey, rfl, hneeds⟩ := exists_old_of_mem_group hmem
        obtain rfl : key' = key := (hstays _ hin).symm.trans hkey
        obtain rfl : needs = true := hneeds.resolve_right fun hne => hne rfl
        exact ⟨hin, by simp⟩
      have hfirst : ¬ (group m (oldEntries kv m w.disk) key).map Prod.fst = [true] := by
        intro hsingle
        have hin := List.mem_map_of_mem (f := Prod.fst) hmem
        rw [(hold save hmem).2, hsingle] at hin
        simp at hin
      have hkey : m.genKey key save.2 = key := hstays _ (hold save hmem).1
      refine ⟨(save.2, true), key, (hold save hmem).1, hkey,
        ((group m (oldEntries kv m w.disk) key).map Prod.snd : Multiset T), ?_, ?_, ?_⟩
      · rw [newValues_eq]
        exact Multiset.le_add_right _ _
      · exact Multiset.mem_coe.2 (List.mem_map_of_mem hmem)
      · rw [SavedAs, if_neg hfirst] at hvalue
        dsimp only at hvalue ⊢
        rw [KeyVal.get?, hstored, Option.join_some, Option.bind_some, Serde.fromStr_toString, ← hvalue]
        simp
  · left
    have hnot : key ∉ (addAll m (oldEntries kv m w.disk) ⟨[], [], 0⟩).sortedSaves.map Prod.fst := by
      rw [List.mem_map]
      rintro ⟨⟨key', values⟩, hmem, rfl⟩
      have hvalues : values = group m (oldEntries kv m w.disk) key' := (mem_sortedSaves.1 hmem).1
      rw [hvalues] at hmem
      exact hsave hmem
    rw [hsaved.others key hnot, he]
    exact hcontent

/-- What a migration leaves behind. -/
structure Migrates (kv : KeyVal K T) (m : Migration C K T) (d : Disk C) (r : Outcome MigrateError ℕ) (d' : Disk C) :
    Prop where
  /-- After `Ok` the values are combined. -/
  ok : ∀ n, r = .ok n → ∀ key, kv.get? d' key = combine (op key) (if Overwritten m (oldEntries kv m d) key
    then ((group m (oldEntries kv m d) key).map Prod.snd : Multiset T) else newValues m (oldEntries kv m d) key)
  /-- After `Ok` there is no other key. -/
  only : ∀ n, r = .ok n → ∀ key, newValues m (oldEntries kv m d) key = 0 → d'.entries (kv.slot key) = none
  /-- After an error nothing is lost, if no value changes its key. -/
  err : ∀ e, r = .err e → StaysPut m (oldEntries kv m d) → NothingLost op kv m d d'
  /-- It does not panic. -/
  panic : ∀ msg, r ≠ .panic msg

theorem Migrates.of_err {e : MigrateError} {d d' : Disk C}
    (h : StaysPut m (oldEntries kv m d) → NothingLost op kv m d d') : Migrates op kv m d (.err e) d' where
  ok n he := by cases he
  only n he := by cases he
  err _ _ := h
  panic msg he := by cases he

theorem safe_applyChanges (hop : ∀ k a b c, m.handleConflict k a b = .ok c → c = op k a b)
    (hcurrent : ∀ s v, m.fromStrMigrating s = .ok (v, false) → Serde.fromStr s = some v)
    (hnames : Canonical (K := K) kv w.disk)
    (hreadable : ∀ name ∈ (w.disk kv.baseDir).keys, Readable kv m w.disk.entries name) :
    Safe pid (fun _ => True) (fun r v => Migrates op kv m w.disk r v.disk)
      (applyChanges kv m (addAll m (oldEntries kv m w.disk) ⟨[], [], 0⟩)) w := by
  have hnothing : StaysPut m (oldEntries kv m w.disk) →
      ∀ key, key ∉ (addAll m (oldEntries kv m w.disk) ⟨[], [], 0⟩).sortedDeletions := by
    intro hstays key hkey
    obtain ⟨value, hmem, hmoves⟩ := mem_sortedDeletions.1 hkey
    exact hmoves (hstays _ hmem)
  refine Prog.holds_bind.2 (safe_deleteOld (fun hne e v => ?_) fun v hdeleted => ?_)
  · exact .of_err op fun hstays => absurd (List.eq_nil_iff_forall_not_mem.2 (hnothing hstays)) hne
  · refine Prog.holds_bind.2 (safe_saveAll op hop nodup_sortedSaves ?_ (fun e rest u hsaved => ?_) fun u hsaved => ?_)
    · intro save hsave
      obtain ⟨hvalues, hne⟩ := mem_sortedSaves.1 hsave
      rw [hvalues]
      exact hne
    · refine .of_err op fun hstays => nothingLost_of_savedBut op hstays (fun key => ?_) hsaved
      rw [hdeleted, if_neg (hnothing hstays key)]
    · exact ⟨trivial, fun n _ => get_of_savedBut op hcurrent hnames hreadable hdeleted hsaved,
        fun n _ key hzero => entry_of_savedBut op hnames hreadable hdeleted hsaved hzero, (fun e he => by cases he),
        fun msg he => by cases he⟩

theorem safe_migrateKeyVal (hop : ∀ k a b c, m.handleConflict k a b = .ok c → c = op k a b)
    (hcurrent : ∀ s v, m.fromStrMigrating s = .ok (v, false) → Serde.fromStr s = some v)
    (hnames : Canonical (K := K) kv w.disk) :
    Safe pid (fun _ => True) (fun r v => Migrates op kv m w.disk r v.disk) (migrateKeyVal kv m) w := by
  refine Prog.holds_bind.2 (Prog.holds_mapErr.2 (Prog.holds_mapErr.2 (safe_flockExclusive trivial (fun _ _ => trivial)
    (fun e v h => ?_) fun v h => ?_)))
  · exact .of_err op fun _ => nothingLost_of_entries (by rw [h.disk])
  refine safe_withLock (Prog.holds_bind.2 (goes_collectChanges (fun e v₁ h₁ t ht => ?_) fun hreadable v₁ h₁ => ?_))
  · exact ⟨trivial, .of_err op fun _ => nothingLost_of_entries (by rw [ht.disk, h₁.disk, h.disk])⟩
  · have hdisk : v₁.disk = w.disk := h₁.disk.trans h.disk
    rw [h.disk, ← hdisk] at hreadable ⊢
    rw [← hdisk] at hnames
    refine (safe_applyChanges op hop hcurrent hnames hreadable).imp fun r t hr t' ht => ⟨trivial, ?_⟩
    rw [ht.disk]
    exact hr

end Result

/-- The table cannot be locked, listed or read. -/
def ReadingFails (pid : Pid) (kv : KeyVal K T) (m : Migration C K T) (w : World C X R) : Prop :=
  ∀ changes v, (kv.lockExclusive.mapErr MigrateError.keyVal >>= fun _ => collectChanges kv m).run (machine pid) w ≠
    some (.ok changes, v)

/-- Then nothing has been changed. -/
theorem disk_of_readingFails (hfails : ReadingFails pid kv m w) {r : Outcome MigrateError ℕ}
    (hrun : (migrateKeyVal kv m).run (machine pid) w = some (r, w')) : w'.disk = w.disk := by
  have hlock : Safe pid (fun _ => True) (fun _ v => v.disk = w.disk) (kv.lockExclusive.mapErr MigrateError.keyVal) w :=
    Prog.holds_mapErr.2 (Prog.holds_mapErr.2 (safe_flockExclusive trivial (fun _ _ => trivial) (fun e v h => h.disk)
      fun v h => h.disk))
  have hcollect : ∀ v : World C X R, Safe pid (fun _ => True) (fun _ v' => v'.disk = v.disk) (collectChanges kv m) v :=
    fun v => goes_collectChanges (fun e v' h => h.disk) fun _ v' h => h.disk
  have hholds : Safe pid (fun _ => True) (fun _ v => v.disk = w.disk) (migrateKeyVal kv m) w := by
    refine Prog.holds_bind.2 ((Prog.holds_iff _).2 ⟨fun _ _ => trivial, fun r v hv => ?_⟩)
    have hdisk := ((Prog.holds_iff _).1 hlock).2 r v hv
    cases r with
    | err e => exact hdisk
    | panic msg => exact hdisk
    | ok _ =>
      refine safe_withLock (Prog.holds_bind.2 ((Prog.holds_iff _).2 ⟨fun _ _ => trivial, fun r' v' hv' => ?_⟩))
      have hdisk' := (((Prog.holds_iff _).1 (hcollect v)).2 r' v' hv').trans hdisk
      cases r' with
      | err e => exact fun t ht => ⟨trivial, ht.disk.trans hdisk'⟩
      | panic msg => exact fun t ht => ⟨trivial, ht.disk.trans hdisk'⟩
      | ok changes => exact absurd (Prog.run_bind_eq_ok.2 ⟨_, v, hv, hv'⟩) (hfails changes v')
  exact ((Prog.holds_iff _).1 hholds).2 r w' hrun

/-- **A migration loses nothing** if it ends with `Ok` exactly if the combinations do not need the values that are
overwritten; and if it ends with an error, when no value changes its key, or when already the reading has failed. -/
theorem migrate_loses_nothing_iff (op : K → T → T → T) [∀ k, Std.Commutative (op k)] [∀ k, Std.Associative (op k)]
    (hop : ∀ k a b c, m.handleConflict k a b = .ok c → c = op k a b)
    (hcurrent : ∀ s v, m.fromStrMigrating s = .ok (v, false) → Serde.fromStr s = some v)
    (hnames : Canonical (K := K) kv w.disk) {r : Outcome MigrateError ℕ}
    (hrun : (migrateKeyVal kv m).run (machine pid) w = some (r, w')) :
    (∀ n, r = .ok n →
      (Combined op kv m w.disk w'.disk ↔ ∀ key, Overwritten m (oldEntries kv m w.disk) key →
        combine (op key) ((group m (oldEntries kv m w.disk) key).map Prod.snd : Multiset T) =
          combine (op key) (newValues m (oldEntries kv m w.disk) key))) ∧
    (∀ e, r = .err e → StaysPut m (oldEntries kv m w.disk) ∨ ReadingFails pid kv m w →
      NothingLost op kv m w.disk w'.disk) ∧ ∀ msg, r ≠ .panic msg := by
  have hmigrates := ((Prog.holds_iff _).1 (safe_migrateKeyVal op hop hcurrent hnames)).2 r w' hrun
  refine ⟨fun n hn => ?_, fun e he => ?_, hmigrates.panic⟩
  · have hget := hmigrates.ok n hn
    constructor
    · intro hall key hover
      rw [← hall.value key, hget key, if_pos hover]
    · intro hall
      refine ⟨fun key => ?_, hmigrates.only n hn⟩
      rw [hget key]
      split_ifs with hover
      · exact hall key hover
      · rfl
  · rintro (hstays | hfails)
    · exact hmigrates.err e he hstays
    · exact nothingLost_of_entries (by rw [disk_of_readingFails hfails hrun])

end Migrated

/-- `migrate_queue`: the keys remain the same, and conflicts can't happen -/
def queueMigration {C K T : Type} (fromStrMigrating : C → Except String (T × Bool)) : Migration C K T where
  fromStrMigrating := fromStrMigrating
  genKey k _ := k
  handleConflict _ _ _ := .error "can't happen"

/-- So the migration of a queue loses nothing when it fails. -/
theorem staysPut_queueMigration {C K T : Type} (fromStrMigrating : C → Except String (T × Bool))
    (olds : List (K × T × Bool)) : StaysPut (queueMigration fromStrMigrating) olds := fun _ _ => rfl

/-! ### A table of counts -/

/-- A count. -/
structure Count where
  /-- The number. -/
  val : ℕ
deriving DecidableEq

/-- Counts are stored in an old format (`inl`) or in the new one (`inr`). -/
instance : Serde (ℕ ⊕ ℕ) Count where
  toString count := .inr count.val
  fromStr
    | .inl _ => none
    | .inr n => some ⟨n⟩
  fromStr_toString _ := rfl

/-- The greater count. -/
def maxCount (_ : TimeKey) (a b : Count) : Count := ⟨max a.val b.val⟩

instance (k : TimeKey) : Std.Commutative (maxCount k) := ⟨fun a b => congrArg Count.mk (max_comm a.val b.val)⟩

instance (k : TimeKey) : Std.Associative (maxCount k) :=
  ⟨fun a b c => congrArg Count.mk (max_assoc a.val b.val c.val)⟩

/-- A migration that puts small counts under one key, where the greatest one is kept. -/
def countMigration : Migration (ℕ ⊕ ℕ) TimeKey Count where
  fromStrMigrating
    | .inl n => .ok (⟨n⟩, true)
    | .inr n => .ok (⟨n⟩, false)
  genKey key count := if count.val < 3 then ⟨0, 0, 9⟩ else key
  handleConflict key a b := .ok (maxCount key a b)

/-- The table. -/
def countTable : KeyVal TimeKey Count := ⟨"counts", .no⟩

/-- A world with that table. -/
def countWorld (files : List (TimeKey × (ℕ ⊕ ℕ))) : World (ℕ ⊕ ℕ) Empty fun _ => Unit where
  disk := Function.update (fun _ => ∅) "counts" (files.map fun file =>
    (⟨asFilenameStr file.1, some file.2⟩ : (_ : String) × Option (ℕ ⊕ ℕ))).toAList
  locks := fun _ => none
  env := fun _ => ⟨.epoch, none, fun _ => ()⟩
  tick := 0
  ids := fun _ => 0
  calls := []

/-- What comes out if no system call fails. -/
theorem countWorld_run (files : List (TimeKey × (ℕ ⊕ ℕ))) (n : ℕ) (value : Option Count)
    (h : ((migrateKeyVal countTable countMigration).run (machine 5) (countWorld files)).map
      (fun x => (x.1, countTable.get? x.2.disk ⟨0, 0, 9⟩)) = some (.ok n, value)) :
    ∃ w', (migrateKeyVal countTable countMigration).run (machine 5) (countWorld files) = some (.ok n, w') ∧
      countTable.get? w'.disk ⟨0, 0, 9⟩ = value := by
  obtain ⟨⟨r, w'⟩, hrun, he⟩ := Option.map_eq_some_iff.1 h
  obtain ⟨rfl, hvalue⟩ := Prod.mk.inj he
  exact ⟨w', hrun, hvalue⟩

/-- One small count comes to a key where there is a greater one, and that is kept; nothing is left under the old key. -/
theorem migrate_loses_nothing_sample :
    ∃ w', (migrateKeyVal countTable countMigration).run (machine 5) (countWorld [(⟨0, 0, 1⟩, .inl 1), (⟨0, 0, 9⟩, .inr 5)]) =
      some (.ok 1, w') ∧ countTable.get? w'.disk ⟨0, 0, 9⟩ = some ⟨5⟩ ∧
        w'.disk.entries (countTable.slot ⟨0, 0, 1⟩) = none := by
  obtain ⟨w', hrun, -⟩ := countWorld_run [(⟨0, 0, 1⟩, .inl 1), (⟨0, 0, 9⟩, .inr 5)] 1 (some ⟨5⟩) (by decide +kernel)
  have hold : oldEntries countTable countMigration (countWorld [(⟨0, 0, 1⟩, .inl 1), (⟨0, 0, 9⟩, .inr 5)]).disk =
      [(⟨0, 0, 1⟩, ⟨1⟩, true), (⟨0, 0, 9⟩, ⟨5⟩, false)] := by decide +kernel
  have hnames : Canonical (K := TimeKey) countTable (countWorld [(⟨0, 0, 1⟩, .inl 1), (⟨0, 0, 9⟩, .inr 5)]).disk := by
    intro name hname htmp key hkey
    rw [show ((countWorld [(⟨0, 0, 1⟩, .inl 1), (⟨0, 0, 9⟩, .inr 5)]).disk countTable.baseDir).keys =
      [asFilenameStr (⟨0, 0, 1⟩ : TimeKey), asFilenameStr (⟨0, 0, 9⟩ : TimeKey)] by decide +kernel, List.mem_pair] at hname
    rcases hname with rfl | rfl
    · rw [← Option.some.inj ((tryFrom_asFilenameStr _).symm.trans hkey)]
    · rw [← Option.some.inj ((tryFrom_asFilenameStr _).symm.trans hkey)]
  have hcurrent : ∀ s v, countMigration.fromStrMigrating s = .ok (v, false) → Serde.fromStr s = some v := by
    rintro (n | n) v hv
    · cases hv
    · cases hv
      rfl
  have hop : ∀ k a b c, countMigration.handleConflict k a b = .ok c → c = maxCount k a b := by
    intro k a b c hc
    exact (Except.ok.inj hc).symm
  have hresult := ((migrate_loses_nothing_iff maxCount hop hcurrent hnames hrun).1 1 rfl).2 (fun key hover => by
    have hlength : (group countMigration [(⟨0, 0, 1⟩, ⟨1⟩, true), (⟨0, 0, 9⟩, ⟨5⟩, false)] key).length ≤ 1 := by
      rw [group, List.length_map]
      exact List.length_filter_le _ _
    rw [hold] at hover
    exact absurd hover.2 (by omega))
  refine ⟨w', hrun, ?_, hresult.only _ ?_⟩
  · rw [hresult.value, hold]
    decide +kernel
  · rw [hold]
    decide +kernel

/-- Two small counts come to a key where there is a greater one, and that is lost. -/
theorem overwritten_count :
    ∃ w', (migrateKeyVal countTable countMigration).run (machine 5)
        (countWorld [(⟨0, 0, 1⟩, .inl 1), (⟨0, 0, 2⟩, .inl 2), (⟨0, 0, 9⟩, .inr 5)]) = some (.ok 2, w') ∧
      countTable.get? w'.disk ⟨0, 0, 9⟩ ≠ combine (maxCount ⟨0, 0, 9⟩) (newValues countMigration
        (oldEntries countTable countMigration
          (countWorld [(⟨0, 0, 1⟩, .inl 1), (⟨0, 0, 2⟩, .inl 2), (⟨0, 0, 9⟩, .inr 5)]).disk) ⟨0, 0, 9⟩) := by
  obtain ⟨w', hrun, hvalue⟩ := countWorld_run [(⟨0, 0, 1⟩, .inl 1), (⟨0, 0, 2⟩, .inl 2), (⟨0, 0, 9⟩, .inr 5)] 2 (some ⟨2⟩)
    (by decide +kernel)
  refine ⟨w', hrun, ?_⟩
  rw [hvalue]
  decide +kernel

end Evobench.Run

import Evobench.Run.WorkingDirectories
import Evobench.Run.OsString
import Evobench.KeyValFs.TimeKey

/-!
# The ids of working directories

A pool of working directories lives in a base directory: the directory with the id 5 is `5`, and beside it are
files that belong to it, such as `5.status`. Ids come from a counter. The counter is not stored: when the pool
is opened, it is taken from the names in the base directory.

## The model

* `WorkingDirectoryPoolState`: the counter and the entries, with `open_`, `nextId`, `getNew` and
  `deleteWorkingDirectory`.
* `PoolStep`, `PoolRun`: what can happen to the base directory and the pool that is open.

## What is proved

* `openEntries_spec`, `open_of_room`: what the scan of the names finds, and that it ends unless a directory has the
  greatest number.
* `ids_fresh_iff`: when opening the pool returns with a counter above all numbers in the base directory, and one
  directory for each id; and that then all ids handed out are new, over all runs.

## Honest scope

The scan skips whatever is no directory. So a `5.status` that is left over when the directory `5` is deleted
does not keep the id 5 from being handed out again (`reused_id`).
-/

namespace Evobench.Run

open Library KeyValFs IoUtils

/-! ### Names in the base directory -/

/-- `u64::from_str` -/
def u64FromStr (cs : List Char) : Option UInt64 := (parseUInt UInt64.size cs).map UInt64.ofFin

/-- A number in the same spelling, of any size. -/
def natFromStr (cs : List Char) : Option ℕ :=
  let digits := match cs with
    | '+' :: rest => rest
    | cs => cs
  if digits.isEmpty || !digits.all Char.isDigit then none else some (Nat.ofDigitChars 10 digits 0)

/-- A number that fits is read as what it is. -/
theorem u64FromStr_eq_some_iff {cs : List Char} {id : UInt64} : u64FromStr cs = some id ↔ natFromStr cs = some id.toNat := by
  have hdigits : ∀ digits : List Char, (if digits.isEmpty || !digits.all Char.isDigit then none else
      if h : Nat.ofDigitChars 10 digits 0 < UInt64.size then some (⟨_, h⟩ : Fin UInt64.size)
      else none).map UInt64.ofFin = some id ↔
      (if digits.isEmpty || !digits.all Char.isDigit then none else some (Nat.ofDigitChars 10 digits 0)) = some id.toNat := by
    intro digits
    split_ifs with hbad hfits
    · exact ⟨nofun, nofun⟩
    · rw [Option.map_some, Option.some.injEq, Option.some.injEq, ← UInt64.toNat_inj]
      rfl
    · refine ⟨nofun, fun hn => absurd id.toNat_lt_size ?_⟩
      rwa [← Option.some.inj hn]
  exact hdigits (match cs with | '+' :: rest => rest | cs => cs)

namespace OsString

/-- The number of an entry `N` or `N.*`, if it fits. -/
def number (name : OsString) : Option UInt64 := do
  let cs ← toStr (name.takeWhile (· ≠ Sum.inl '.'))
  u64FromStr cs

/-- The number of an entry `N` or `N.*`, of any size. -/
def anyNumber (name : OsString) : Option ℕ := do
  let cs ← toStr (name.takeWhile (· ≠ Sum.inl '.'))
  natFromStr cs

theorem number_eq_some_iff {name : OsString} {id : UInt64} : number name = some id ↔ anyNumber name = some id.toNat := by
  rw [number, anyNumber]
  cases toStr (name.takeWhile (· ≠ Sum.inl '.')) with
  | none => exact ⟨nofun, nofun⟩
  | some cs => exact u64FromStr_eq_some_iff

/-- The id of a directory with that name. -/
def directoryId (name : OsString) : Option WorkingDirectoryId := do
  let cs ← toStr name
  u64FromStr cs

theorem directoryId_ofChars (cs : List Char) : directoryId (ofChars cs) = u64FromStr cs := by
  rw [directoryId, toStr_ofChars]
  rfl

theorem number_ofChars (cs : List Char) : number (ofChars cs) = u64FromStr (cs.takeWhile (· ≠ '.')) := by
  have htake : (ofChars cs).takeWhile (· ≠ Sum.inl '.') = ofChars (cs.takeWhile (· ≠ '.')) := by
    rw [ofChars, ofChars, List.takeWhile_map]
    congr 2
    funext c
    simp
  rw [number, htake, toStr_ofChars]
  rfl

end OsString

/-- What is no digit and no sign does not occur in a number. -/
theorem not_mem_of_u64FromStr {cs : List Char} {id : UInt64} {c : Char} (h : u64FromStr cs = some id)
    (hdigit : c.isDigit = false) (hplus : c ≠ '+') : c ∉ cs := by
  intro hmem
  obtain ⟨n, hn, -⟩ := Option.map_eq_some_iff.1 h
  obtain ⟨digits, hcs, hall⟩ := digits_of_parseUInt hn
  have hrest : c ∈ digits := by
    rcases hcs with rfl | rfl
    · exact hmem
    · exact (List.mem_cons.1 hmem).resolve_left hplus
  rw [hall c hrest] at hdigit
  cases hdigit

namespace OsString

/-- A directory's id is its number. -/
theorem number_of_directoryId {name : OsString} {id : WorkingDirectoryId} (h : name.directoryId = some id) :
    name.number = some id := by
  obtain ⟨cs, hcs, hid⟩ := Option.bind_eq_some_iff.1 h
  obtain rfl := eq_ofChars_of_toStr hcs
  have hdot : '.' ∉ cs := not_mem_of_u64FromStr hid (by decide) (by decide)
  have htake : cs.takeWhile (· ≠ '.') = cs := by
    refine List.takeWhile_eq_self_iff.2 fun c hc => decide_eq_true ?_
    rintro rfl
    exact hdot hc
  rw [number_ofChars, htake]
  exact hid

end OsString

/-- `to_directory_file_name` -/
def toDirectoryFileName (id : WorkingDirectoryId) : List Char := Nat.toDigits 10 id.toNat

theorem u64FromStr_toDirectoryFileName (id : WorkingDirectoryId) : u64FromStr (toDirectoryFileName id) = some id := by
  have h : parseUInt UInt64.size (Nat.toDigits 10 id.toNat) = some id.toFin := parseUInt_toDigits id.toFin
  rw [u64FromStr, toDirectoryFileName, h, Option.map_some, UInt64.ofFin_toFin]

/-- The name of the directory with that id. -/
def directoryName (id : WorkingDirectoryId) : OsString := .ofChars (toDirectoryFileName id)

theorem directoryId_directoryName (id : WorkingDirectoryId) : (directoryName id).directoryId = some id := by
  rw [directoryName, OsString.directoryId_ofChars, u64FromStr_toDirectoryFileName]

/-! ### The pool -/

/-- An entry of `read_dir`. -/
structure DirEntry where
  /-- The name. -/
  fileName : OsString
  /-- Whether it is a directory. -/
  fileType : Except CallError Bool

/-- `WorkingDirectoryPoolState` -/
structure WorkingDirectoryPoolState where
  /-- The next id. -/
  nextId : UInt64
  /-- Working directories with their names, also those with `Status::Error`. -/
  allEntries : WorkingDirectoryId → Option (List Char × WorkingDirectory)

/-- `if id >= next_id { next_id = id + 1 }` -/
def raiseNextId (nextId id : UInt64) : Outcome CallError UInt64 :=
  if nextId ≤ id then
    if id.toNat + 1 < UInt64.size then .ok (id + 1) else .panic "attempt to add with overflow"
  else .ok nextId

/-- What `open` does with one entry. -/
def openEntry (nextId : UInt64) : Except CallError DirEntry →
    Outcome CallError (UInt64 × Option (WorkingDirectoryId × List Char))
  | .error e => .err e
  | .ok entry =>
    match entry.fileType with
    | .error e => .err e
    | .ok false => .ok (nextId, none)
    | .ok true =>
      match entry.fileName.toStr with
      | none => .ok (nextId, none)
      | some fname =>
        match splitOnce '.' fname with
        | some (idStr, _) =>
          match u64FromStr idStr with
          | some id => (raiseNextId nextId id).bind fun nextId => .ok (nextId, none)
          | none => .ok (nextId, none)
        | none =>
          match u64FromStr fname with
          | some id => (raiseNextId nextId id).bind fun nextId => .ok (nextId, some (id, fname))
          | none => .ok (nextId, none)

/-- What `open` does with the entries: the next id, and the directories to be opened. -/
def openEntries (nextId : UInt64) : List (Except CallError DirEntry) →
    Outcome CallError (UInt64 × List (WorkingDirectoryId × List Char))
  | [] => .ok (nextId, [])
  | entry :: entries =>
    (openEntry nextId entry).bind fun (nextId, found) =>
      (openEntries nextId entries).bind fun (nextId, rest) => .ok (nextId, found.toList ++ rest)

/-- Open the directories, and collect them by id. -/
def openDirectories (openDir : List Char → Except CallError WorkingDirectory) :
    List (WorkingDirectoryId × List Char) → (WorkingDirectoryId → Option (List Char × WorkingDirectory)) →
      Except CallError (WorkingDirectoryId → Option (List Char × WorkingDirectory))
  | [], allEntries => .ok allEntries
  | (id, fname) :: found, allEntries => do
    let wd ← openDir fname
    openDirectories openDir found (Function.update allEntries id (some (fname, wd)))

namespace WorkingDirectoryPoolState

/-- `WorkingDirectoryPool::open`, after locking and listing the base directory -/
def open_ (openDir : List Char → Except CallError WorkingDirectory)
    (listing : Except CallError (List (Except CallError DirEntry))) : Outcome CallError WorkingDirectoryPoolState :=
  (Outcome.ofExcept listing).bind fun entries =>
    (openEntries 0 entries).bind fun (nextId, found) =>
      (Outcome.ofExcept (openDirectories openDir found fun _ => none)).bind fun allEntries => .ok ⟨nextId, allEntries⟩

/-- `next_id` -/
def takeNextId (s : WorkingDirectoryPoolState) : Outcome CallError (WorkingDirectoryId × WorkingDirectoryPoolState) :=
  if s.nextId.toNat + 1 < UInt64.size then .ok (s.nextId, { s with nextId := s.nextId + 1 })
  else .panic "attempt to add with overflow"

/-- `get_new`: the new id or an error, and the state afterwards -/
def getNew (s : WorkingDirectoryPoolState) (cloneRepo : List Char → Except CallError WorkingDirectory) :
    Outcome CallError (Except CallError WorkingDirectoryId × WorkingDirectoryPoolState) :=
  s.takeNextId.bind fun (id, s) =>
    match cloneRepo (toDirectoryFileName id) with
    | .error e => .ok (.error e, s)
    | .ok dir =>
      .ok (.ok id, { s with allEntries := Function.update s.allEntries id (some (toDirectoryFileName id, dir)) })

/-- `delete_working_directory` -/
def deleteWorkingDirectory (s : WorkingDirectoryPoolState) (id : WorkingDirectoryId)
    (removeDirAll : List Char → Except CallError Unit) : Except CallError Unit × WorkingDirectoryPoolState :=
  match s.allEntries id with
  | none => (.error "working directory id must still exist", s)
  | some (fname, _) => (removeDirAll fname, { s with allEntries := Function.update s.allEntries id none })

end WorkingDirectoryPoolState

/-! ### What opening a pool finds -/

/-- What is in the base directory, and whether it is a directory. -/
abbrev BaseDir := OsString → Option Bool

/-- A listing of the base directory, in any order. -/
def Lists (entries : List (OsString × Bool)) (files : BaseDir) : Prop :=
  ∀ name isDir, (name, isDir) ∈ entries ↔ files name = some isDir

/-- The same as it is read. -/
def readDir (entries : List (OsString × Bool)) : List (Except CallError DirEntry) :=
  entries.map fun entry => .ok ⟨entry.1, .ok entry.2⟩

/-- The number that the scan sees in an entry: directories with a Unicode name have one. -/
def seenNumber (entry : OsString × Bool) : Option UInt64 :=
  if entry.2 = true ∧ entry.1.toStr ≠ none then entry.1.number else none

/-- The directory that the scan finds in an entry. -/
def foundDirectory (entry : OsString × Bool) : Option (WorkingDirectoryId × List Char) := do
  let cs ← if entry.2 then entry.1.toStr else none
  let id ← u64FromStr cs
  pure (id, cs)

theorem toNat_of_raiseNextId {nextId id nextId' : UInt64} (h : raiseNextId nextId id = .ok nextId') :
    nextId'.toNat = max nextId.toNat (id.toNat + 1) := by
  unfold raiseNextId at h
  split_ifs at h with hle hlt
  · cases h
    rw [UInt64.le_iff_toNat_le] at hle
    rw [UInt64.toNat_add, UInt64.toNat_one, Nat.mod_eq_of_lt hlt]
    omega
  · cases h
    rw [UInt64.le_iff_toNat_le] at hle
    omega

/-- There is a next id above every number but the greatest one. -/
theorem exists_raiseNextId (nextId : UInt64) {id : UInt64} (h : id.toNat + 1 < UInt64.size) :
    ∃ nextId', raiseNextId nextId id = .ok nextId' := by
  unfold raiseNextId
  split_ifs
  · exact ⟨_, rfl⟩
  · exact ⟨_, rfl⟩

/-- The next id after a number, if there is one. -/
def raiseFor (nextId : UInt64) : Option UInt64 → Outcome CallError UInt64
  | some id => raiseNextId nextId id
  | none => .ok nextId

/-- One entry raises the next id above its number, and may be a directory to be opened. -/
theorem openEntry_eq (nextId : UInt64) (entry : OsString × Bool) :
    openEntry nextId (.ok ⟨entry.1, .ok entry.2⟩) =
      (raiseFor nextId (seenNumber entry)).bind fun next => .ok (next, foundDirectory entry) := by
  obtain ⟨name, isDir⟩ := entry
  cases isDir with
  | false => rfl
  | true =>
    cases hname : name.toStr with
    | none =>
      have hseen : seenNumber (name, true) = none := if_neg fun h => h.2 hname
      have hfound : foundDirectory (name, true) = none := by simp [foundDirectory, hname]
      simp only [openEntry, hname, hseen, hfound]
      rfl
    | some cs =>
      obtain rfl := OsString.eq_ofChars_of_toStr hname
      have hseen : seenNumber (.ofChars cs, true) = u64FromStr (cs.takeWhile (· ≠ '.')) := by
        rw [seenNumber, if_pos ⟨rfl, by simp [hname]⟩, OsString.number_ofChars]
      have hfound : foundDirectory (.ofChars cs, true) = (u64FromStr cs).map fun id => (id, cs) := by
        simp only [foundDirectory, if_pos, hname, Option.bind_eq_bind, Option.bind_some]
        cases u64FromStr cs with
        | none => rfl
        | some id => rfl
      rw [hseen, hfound]
      simp only [openEntry, hname]
      by_cases hdot : '.' ∈ cs
      · -- An entry `N.*`, which is not opened.
        have hnumber : u64FromStr cs = none := by
          by_contra hsome
          obtain ⟨id, hid⟩ := Option.ne_none_iff_exists'.1 hsome
          exact not_mem_of_u64FromStr hid (by decide) (by decide) hdot
        obtain ⟨rest, hsplit⟩ := exists_splitOnce_of_mem hdot
        rw [hsplit, hnumber]
        dsimp only
        cases u64FromStr (cs.takeWhile (· ≠ '.')) with
        | none => rfl
        | some id => rfl
      · have htake : cs.takeWhile (· ≠ '.') = cs := by
          refine List.takeWhile_eq_self_iff.2 fun c hc => decide_eq_true ?_
          rintro rfl
          exact hdot hc
        rw [splitOnce_eq_none hdot, htake]
        dsimp only
        cases u64FromStr cs with
        | none => rfl
        | some id => rfl

theorem openEntry_spec {nextId nextId' : UInt64} {entry : OsString × Bool} {found : Option (WorkingDirectoryId × List Char)}
    (h : openEntry nextId (.ok ⟨entry.1, .ok entry.2⟩) = .ok (nextId', found)) :
    nextId'.toNat = max nextId.toNat (((seenNumber entry).map fun id => id.toNat + 1).getD 0) ∧
      found = foundDirectory entry := by
  rw [openEntry_eq] at h
  obtain ⟨next, hraise, h⟩ := Outcome.bind_eq_ok.1 h
  cases h
  refine ⟨?_, rfl⟩
  cases hseen : seenNumber entry with
  | none =>
    rw [hseen] at hraise
    cases hraise
    simp
  | some id =>
    rw [hseen] at hraise
    exact toNat_of_raiseNextId hraise

/-- The scan ends if no directory has the greatest number. -/
theorem exists_openEntries (nextId : UInt64) {entries : List (OsString × Bool)}
    (h : ∀ entry ∈ entries, ∀ id, seenNumber entry = some id → id.toNat + 1 < UInt64.size) :
    ∃ nextId' found, openEntries nextId (readDir entries) = .ok (nextId', found) := by
  induction entries generalizing nextId with
  | nil => exact ⟨nextId, [], rfl⟩
  | cons entry entries ih =>
    have hraise : ∃ next, raiseFor nextId (seenNumber entry) = .ok next := by
      cases hseen : seenNumber entry with
      | none => exact ⟨nextId, rfl⟩
      | some id => exact exists_raiseNextId nextId (h entry List.mem_cons_self id hseen)
    obtain ⟨next, hnext⟩ := hraise
    obtain ⟨last, rest, hrest⟩ := ih next fun e he => h e (List.mem_cons_of_mem _ he)
    have hentry : openEntry nextId (.ok ⟨entry.1, .ok entry.2⟩) = .ok (next, foundDirectory entry) := by
      rw [openEntry_eq, hnext]
      rfl
    exact ⟨last, _, Outcome.bind_eq_ok.2 ⟨_, hentry, Outcome.bind_eq_ok.2 ⟨_, hrest, rfl⟩⟩⟩

/-- **The scan**: the next id is the least one above all numbers that are seen, and the directories with an id are
found. -/
theorem openEntries_spec {entries : List (OsString × Bool)} {nextId nextId' : UInt64}
    {found : List (WorkingDirectoryId × List Char)}
    (h : openEntries nextId (readDir entries) = .ok (nextId', found)) :
    (∀ entry ∈ entries, ∀ id, seenNumber entry = some id → id < nextId') ∧
      (nextId' = nextId ∨ ∃ entry ∈ entries, ∃ id, seenNumber entry = some id ∧ nextId'.toNat = id.toNat + 1) ∧
      nextId ≤ nextId' ∧ found = entries.filterMap foundDirectory := by
  induction entries generalizing nextId found with
  | nil =>
    cases h
    exact ⟨by simp, .inl rfl, UInt64.le_refl _, rfl⟩
  | cons entry entries ih =>
    obtain ⟨⟨next, first⟩, hentry, h⟩ := Outcome.bind_eq_ok.1 h
    obtain ⟨⟨last, rest⟩, hentries, h⟩ := Outcome.bind_eq_ok.1 h
    cases h
    obtain ⟨hnext, hfirst⟩ := openEntry_spec hentry
    obtain ⟨hbelow, hattained, hle, hrest⟩ := ih hentries
    rw [UInt64.le_iff_toNat_le] at hle
    refine ⟨?_, ?_, ?_, ?_⟩
    · intro e he id hid
      rcases List.mem_cons.1 he with rfl | he
      · rw [hid] at hnext
        rw [UInt64.lt_iff_toNat_lt]
        simp only [Option.map_some, Option.getD_some] at hnext
        omega
      · exact hbelow e he id hid
    · rcases hattained with rfl | ⟨e, he, id, hid, hlast⟩
      · cases hseen : seenNumber entry with
        | none =>
          rw [hseen] at hnext
          simp only [Option.map_none, Option.getD_none] at hnext
          exact .inl (UInt64.toNat.inj (by omega))
        | some id =>
          rw [hseen] at hnext
          simp only [Option.map_some, Option.getD_some] at hnext
          by_cases hraised : nextId.toNat < id.toNat + 1
          · exact .inr ⟨entry, List.mem_cons_self, id, hseen, by omega⟩
          · exact .inl (UInt64.toNat.inj (by omega))
      · exact .inr ⟨e, List.mem_cons_of_mem _ he, id, hid, hlast⟩
    · rw [UInt64.le_iff_toNat_le]
      omega
    · rw [hfirst, hrest, List.filterMap_cons]
      cases foundDirectory entry with
      | none => rfl
      | some x => rfl

/-- An entry of the pool is one of the directories that were found. -/
theorem mem_of_openDirectories {openDir : List Char → Except CallError WorkingDirectory}
    {found : List (WorkingDirectoryId × List Char)}
    {before allEntries : WorkingDirectoryId → Option (List Char × WorkingDirectory)}
    (h : openDirectories openDir found before = .ok allEntries) {id : WorkingDirectoryId}
    {entry : List Char × WorkingDirectory} (hentry : allEntries id = some entry) :
    (id, entry.1) ∈ found ∨ before id = some entry := by
  induction found generalizing before with
  | nil =>
    cases h
    exact .inr hentry
  | cons x found ih =>
    obtain ⟨id', fname⟩ := x
    rw [openDirectories] at h
    cases hopen : openDir fname with
    | error e =>
      rw [hopen] at h
      cases h
    | ok wd =>
      rw [hopen] at h
      rcases ih h with hmem | hbefore
      · exact .inl (List.mem_cons_of_mem _ hmem)
      · rw [Function.update_apply] at hbefore
        split_ifs at hbefore with hid
        · obtain rfl := Option.some.inj hbefore
          obtain rfl := hid
          exact .inl List.mem_cons_self
        · exact .inr hbefore

/-! ### Fresh ids -/

/-- The numbers of all entries `N` and `N.*`, of any size, are below the next id. -/
def NumbersBelow (files : BaseDir) (nextId : UInt64) : Prop :=
  ∀ name isDir, files name = some isDir → ∀ n, OsString.anyNumber name = some n → n < nextId.toNat

theorem NumbersBelow.lt {files : BaseDir} {nextId id : UInt64} {name : OsString} {isDir : Bool} (h : NumbersBelow files nextId)
    (hname : files name = some isDir) (hid : OsString.number name = some id) : id < nextId := by
  rw [UInt64.lt_iff_toNat_lt]
  exact h name isDir hname id.toNat (OsString.number_eq_some_iff.1 hid)

/-- No two directories are for one id, and the pool's entry for an id is the directory for it. -/
structure NoAlias (files : BaseDir) (pool : WorkingDirectoryPoolState) : Prop where
  /-- The directories. -/
  dirs : ∀ name name' id, files name = some true → files name' = some true → OsString.directoryId name = some id →
    OsString.directoryId name' = some id → name = name'
  /-- The entries of the pool. -/
  entries : ∀ name id entry, files name = some true → OsString.directoryId name = some id →
    pool.allEntries id = some entry → OsString.ofChars entry.1 = name

/-- The condition on the base directory when the pool is opened. -/
structure ScanSuffices (files : BaseDir) : Prop where
  /-- Every entry's number, of any size, is at most that of some directory with a Unicode name whose number fits. -/
  covered : ∀ name isDir n, files name = some isDir → OsString.anyNumber name = some n →
    ∃ dir id, files dir = some true ∧ OsString.toStr dir ≠ none ∧ OsString.number dir = some id ∧ n ≤ id.toNat
  /-- No directory with a Unicode name has the greatest number that fits. -/
  room : ∀ dir id, files dir = some true → OsString.toStr dir ≠ none → OsString.number dir = some id →
    id.toNat + 1 < UInt64.size
  /-- If a directory's name is not the usual spelling of its number, no other directory has the number. -/
  spelled : ∀ name id, files name = some true → OsString.directoryId name = some id → name ≠ directoryName id →
    ∀ name', files name' = some true → OsString.directoryId name' = some id → name' = name

theorem foundDirectory_eq_some_iff {entry : OsString × Bool} {id : WorkingDirectoryId} {cs : List Char} :
    foundDirectory entry = some (id, cs) ↔
      entry = (.ofChars cs, true) ∧ OsString.directoryId (.ofChars cs) = some id := by
  obtain ⟨name, isDir⟩ := entry
  rw [OsString.directoryId_ofChars]
  cases isDir with
  | false => simp [foundDirectory]
  | true =>
    simp only [foundDirectory, if_pos, Option.bind_eq_bind, Option.bind_eq_some_iff, OsString.toStr_eq_some_iff,
      Prod.mk.injEq, and_true]
    constructor
    · rintro ⟨cs', rfl, id', hid, h⟩
      cases h
      exact ⟨rfl, hid⟩
    · rintro ⟨rfl, hid⟩
      exact ⟨cs, rfl, id, hid, rfl⟩

theorem seenNumber_eq_some_iff {entry : OsString × Bool} {id : UInt64} :
    seenNumber entry = some id ↔ entry.2 = true ∧ entry.1.toStr ≠ none ∧ entry.1.number = some id := by
  rw [seenNumber]
  split_ifs with h
  · exact ⟨fun hid => ⟨h.1, h.2, hid⟩, fun hid => hid.2.2⟩
  · constructor
    · intro hid
      cases hid
    · intro hid
      exact absurd ⟨hid.1, hid.2.1⟩ h

section Open

variable {openDir : List Char → Except CallError WorkingDirectory} {entries : List (OsString × Bool)} {files : BaseDir}
  {pool : WorkingDirectoryPoolState}

/-- The parts of opening a pool. -/
theorem WorkingDirectoryPoolState.open_eq_ok
    (h : WorkingDirectoryPoolState.open_ openDir (.ok (readDir entries)) = .ok pool) :
    ∃ found, openEntries 0 (readDir entries) = .ok (pool.nextId, found) ∧
      openDirectories openDir found (fun _ => none) = .ok pool.allEntries := by
  obtain ⟨listed, hlisted, h⟩ := Outcome.bind_eq_ok.1 h
  cases hlisted
  obtain ⟨⟨nextId, found⟩, hscan, h⟩ := Outcome.bind_eq_ok.1 h
  obtain ⟨allEntries, hopen, h⟩ := Outcome.bind_eq_ok.1 h
  cases h
  refine ⟨found, hscan, ?_⟩
  cases hdirs : openDirectories openDir found fun _ => none with
  | error e =>
    rw [hdirs] at hopen
    cases hopen
  | ok all =>
    rw [hdirs] at hopen
    cases hopen
    rfl

/-- The next id is above all numbers exactly if for each one there is a directory whose number is at least as great. -/
theorem numbersBelow_iff (hlist : Lists entries files)
    (h : WorkingDirectoryPoolState.open_ openDir (.ok (readDir entries)) = .ok pool) :
    NumbersBelow files pool.nextId ↔ ∀ name isDir n, files name = some isDir → OsString.anyNumber name = some n →
      ∃ dir id, files dir = some true ∧ OsString.toStr dir ≠ none ∧ OsString.number dir = some id ∧ n ≤ id.toNat := by
  obtain ⟨found, hscan, -⟩ := WorkingDirectoryPoolState.open_eq_ok h
  obtain ⟨hbelow, hattained, -, -⟩ := openEntries_spec hscan
  constructor
  · intro hnumbers name isDir n hname hn
    have hlt := hnumbers name isDir hname n hn
    rcases hattained with hzero | ⟨⟨dir, isDir'⟩, hdir, id, hid, hnext⟩
    · rw [hzero, UInt64.toNat_zero] at hlt
      omega
    · obtain ⟨hisDir, hstr, hnumber⟩ := seenNumber_eq_some_iff.1 hid
      obtain rfl : isDir' = true := hisDir
      refine ⟨dir, id, (hlist dir true).1 hdir, hstr, hnumber, ?_⟩
      omega
  · intro hcovered name isDir hname n hn
    obtain ⟨dir, id, hdir, hstr, hnumber, hle⟩ := hcovered name isDir n hname hn
    have hlt := hbelow (dir, true) ((hlist dir true).2 hdir) id (seenNumber_eq_some_iff.2 ⟨rfl, hstr, hnumber⟩)
    rw [UInt64.lt_iff_toNat_lt] at hlt
    omega

/-- Where a pool has been opened, no directory has the greatest number. -/
theorem room_of_open (hlist : Lists entries files)
    (h : WorkingDirectoryPoolState.open_ openDir (.ok (readDir entries)) = .ok pool) {dir : OsString} {id : UInt64}
    (hdir : files dir = some true) (hstr : OsString.toStr dir ≠ none) (hnumber : OsString.number dir = some id) :
    id.toNat + 1 < UInt64.size := by
  obtain ⟨found, hscan, -⟩ := WorkingDirectoryPoolState.open_eq_ok h
  have hlt := (openEntries_spec hscan).1 (dir, true) ((hlist dir true).2 hdir) id (seenNumber_eq_some_iff.2 ⟨rfl, hstr, hnumber⟩)
  rw [UInt64.lt_iff_toNat_lt] at hlt
  have := pool.nextId.toNat_lt_size
  omega

/-- There are no aliases exactly if no directory's number is spelled in another way besides. -/
theorem noAlias_iff (hlist : Lists entries files)
    (h : WorkingDirectoryPoolState.open_ openDir (.ok (readDir entries)) = .ok pool) :
    NoAlias files pool ↔ ∀ name id, files name = some true → OsString.directoryId name = some id →
      name ≠ directoryName id → ∀ name', files name' = some true → OsString.directoryId name' = some id →
        name' = name := by
  obtain ⟨found, hscan, hopen⟩ := WorkingDirectoryPoolState.open_eq_ok h
  obtain ⟨-, -, -, hfound⟩ := openEntries_spec hscan
  constructor
  · intro halias name id hname hid _ name' hname' hid'
    exact halias.dirs name' name id hname' hname hid' hid
  · intro hspelled
    have hdirs : ∀ name name' id, files name = some true → files name' = some true →
        OsString.directoryId name = some id → OsString.directoryId name' = some id → name = name' := by
      intro name name' id hname hname' hid hid'
      by_cases hcanonical : name' = directoryName id
      · by_cases hcanonical' : name = directoryName id
        · rw [hcanonical, hcanonical']
        · exact (hspelled name id hname hid hcanonical' name' hname' hid').symm
      · exact hspelled name' id hname' hid' hcanonical name hname hid
    refine ⟨hdirs, fun name id entry hname hid hentry => ?_⟩
    rcases mem_of_openDirectories hopen hentry with hmem | hnone
    · rw [hfound, List.mem_filterMap] at hmem
      obtain ⟨e, he, hfound'⟩ := hmem
      obtain ⟨rfl, hid'⟩ := foundDirectory_eq_some_iff.1 hfound'
      exact hdirs _ name id ((hlist _ _).1 he) hname hid' hid
    · cases hnone

/-- Opening a pool gives fresh ids exactly if the scan suffices. -/
theorem open_fresh_iff (hlist : Lists entries files)
    (h : WorkingDirectoryPoolState.open_ openDir (.ok (readDir entries)) = .ok pool) :
    NumbersBelow files pool.nextId ∧ NoAlias files pool ↔ ScanSuffices files := by
  rw [numbersBelow_iff hlist h, noAlias_iff hlist h]
  exact ⟨fun hboth => ⟨hboth.1, fun dir id => room_of_open hlist h, hboth.2⟩, fun hscan => ⟨hscan.covered, hscan.spelled⟩⟩

/-- The directories can be opened if each one can. -/
theorem exists_openDirectories {found : List (WorkingDirectoryId × List Char)}
    (h : ∀ x ∈ found, (openDir x.2).isOk = true) (before : WorkingDirectoryId → Option (List Char × WorkingDirectory)) :
    ∃ allEntries, openDirectories openDir found before = .ok allEntries := by
  induction found generalizing before with
  | nil => exact ⟨before, rfl⟩
  | cons x found ih =>
    have hx := h x List.mem_cons_self
    rw [openDirectories]
    cases hopen : openDir x.2 with
    | error e =>
      rw [hopen] at hx
      cases hx
    | ok wd => exact ih (fun y hy => h y (List.mem_cons_of_mem _ hy)) _

/-- **Opening ends** if no directory has the greatest number: it returns the pool, if the directories can be opened. -/
theorem open_of_room (hlist : Lists entries files)
    (hroom : ∀ dir id, files dir = some true → OsString.toStr dir ≠ none → OsString.number dir = some id →
      id.toNat + 1 < UInt64.size) :
    (∀ msg, WorkingDirectoryPoolState.open_ openDir (.ok (readDir entries)) ≠ .panic msg) ∧
      ((∀ fname, files (.ofChars fname) = some true → (openDir fname).isOk = true) →
        ∃ pool, WorkingDirectoryPoolState.open_ openDir (.ok (readDir entries)) = .ok pool) := by
  have hseen : ∀ entry ∈ entries, ∀ id, seenNumber entry = some id → id.toNat + 1 < UInt64.size := by
    rintro ⟨dir, isDir⟩ hentry id hid
    obtain ⟨hisDir, hstr, hnumber⟩ := seenNumber_eq_some_iff.1 hid
    obtain rfl : isDir = true := hisDir
    exact hroom dir id ((hlist dir true).1 hentry) hstr hnumber
  obtain ⟨nextId, found, hscan⟩ := exists_openEntries 0 hseen
  have hopen : WorkingDirectoryPoolState.open_ openDir (.ok (readDir entries)) =
      (Outcome.ofExcept (openDirectories openDir found fun _ => none)).bind fun allEntries => .ok ⟨nextId, allEntries⟩ := by
    rw [WorkingDirectoryPoolState.open_, Outcome.ofExcept, Outcome.bind, hscan]
    rfl
  rw [hopen]
  constructor
  · intro msg
    cases openDirectories openDir found fun _ => none with
    | error e =>
      intro h
      cases h
    | ok allEntries =>
      intro h
      cases h
  · intro hdirs
    have hfound : ∀ x ∈ found, (openDir x.2).isOk = true := by
      intro x hx
      rw [(openEntries_spec hscan).2.2.2, List.mem_filterMap] at hx
      obtain ⟨entry, hentry, hx⟩ := hx
      obtain ⟨rfl, -⟩ := foundDirectory_eq_some_iff.1 hx
      exact hdirs x.2 ((hlist _ true).1 hentry)
    obtain ⟨allEntries, hall⟩ := exists_openDirectories hfound fun _ => none
    rw [hall]
    exact ⟨⟨nextId, allEntries⟩, rfl⟩

/-- The ids of an opened pool are below its next id. -/
theorem lt_nextId_of_open (h : WorkingDirectoryPoolState.open_ openDir (.ok (readDir entries)) = .ok pool)
    {id : WorkingDirectoryId} {entry : List Char × WorkingDirectory} (hentry : pool.allEntries id = some entry) :
    id < pool.nextId := by
  obtain ⟨found, hscan, hopen⟩ := WorkingDirectoryPoolState.open_eq_ok h
  obtain ⟨hbelow, -, -, hfound⟩ := openEntries_spec hscan
  rcases mem_of_openDirectories hopen hentry with hmem | hnone
  · rw [hfound, List.mem_filterMap] at hmem
    obtain ⟨e, he, hfound'⟩ := hmem
    obtain ⟨rfl, hid⟩ := foundDirectory_eq_some_iff.1 hfound'
    refine hbelow _ he id (seenNumber_eq_some_iff.2 ⟨rfl, ?_, OsString.number_of_directoryId hid⟩)
    rw [OsString.toStr_ofChars]
    exact Option.some_ne_none _
  · cases hnone

end Open

/-! ### Runs -/

/-- The base directory, and the pool if it is open. -/
structure PoolSystem where
  /-- The base directory. -/
  files : BaseDir
  /-- The pool. -/
  pool : Option WorkingDirectoryPoolState

/-- What happens. -/
inductive PoolEvent where
  /-- The pool is opened. -/
  | opened
  /-- An id is handed out for a new directory. -/
  | handedOut (id : WorkingDirectoryId)
  /-- Anything else. -/
  | other

/-- The steps. When the pool is opened, `P` holds of the base directory. -/
inductive PoolStep (P : BaseDir → Prop) : PoolEvent → PoolSystem → PoolSystem → Prop where
  /-- The pool is opened, and a pool that was open before is dropped. -/
  | open_ {files : BaseDir} {before : Option WorkingDirectoryPoolState} {entries : List (OsString × Bool)}
      {openDir : List Char → Except CallError WorkingDirectory} {pool : WorkingDirectoryPoolState}
      (hP : P files) (hlist : Lists entries files)
      (hopen : WorkingDirectoryPoolState.open_ openDir (.ok (readDir entries)) = .ok pool) :
      PoolStep P .opened ⟨files, before⟩ ⟨files, some pool⟩
  /-- The pool is closed, or opening it fails. -/
  | closed {files : BaseDir} {before : Option WorkingDirectoryPoolState} :
      PoolStep P .other ⟨files, before⟩ ⟨files, none⟩
  /-- A new directory is made, or cloning the repository fails, with or without a directory. -/
  | getNew {files files' : BaseDir} {pool pool₁ pool' : WorkingDirectoryPoolState} {id : WorkingDirectoryId}
      {cloneRepo : List Char → Except CallError WorkingDirectory} {result : Except CallError WorkingDirectoryId}
      (hid : pool.takeNextId = .ok (id, pool₁)) (hrun : pool.getNew cloneRepo = .ok (result, pool'))
      (hfiles : files (directoryName id) ≠ some false ∧ files' = Function.update files (directoryName id) (some true) ∨
        (∃ e, result = .error e) ∧ files' = files) :
      PoolStep P (.handedOut id) ⟨files, some pool⟩ ⟨files', some pool'⟩
  /-- A directory is deleted, or only forgotten by the pool. -/
  | delete {files files' : BaseDir} {pool pool' : WorkingDirectoryPoolState} {id : WorkingDirectoryId}
      {removeDirAll : List Char → Except CallError Unit} {result : Except CallError Unit}
      (hrun : pool.deleteWorkingDirectory id removeDirAll = (result, pool'))
      (hfiles : (∃ entry, pool.allEntries id = some entry ∧ files' = Function.update files (.ofChars entry.1) none) ∨
        (∃ e, result = .error e) ∧ files' = files) :
      PoolStep P .other ⟨files, some pool⟩ ⟨files', some pool'⟩
  /-- Another process deletes an entry of the base directory. -/
  | removed {files : BaseDir} {pool : Option WorkingDirectoryPoolState} {name : OsString} :
      PoolStep P .other ⟨files, pool⟩ ⟨Function.update files name none, pool⟩
  /-- A status, an error or a log is saved for a directory, as `N.*`. -/
  | save {files : BaseDir} {pool : Option WorkingDirectoryPoolState} {id : WorkingDirectoryId} {base ext : List Char}
      (hheld : (∃ pool', pool = some pool' ∧ pool'.allEntries id ≠ none) ∨
        ∃ name, files name = some true ∧ OsString.directoryId name = some id)
      (hbase : u64FromStr base = some id) (hfile : files (.ofChars (base ++ '.' :: ext)) ≠ some true) :
      PoolStep P .other ⟨files, pool⟩ ⟨Function.update files (.ofChars (base ++ '.' :: ext)) (some false), pool⟩

/-- The runs, with their events in order. -/
inductive PoolRun (P : BaseDir → Prop) : List PoolEvent → PoolSystem → PoolSystem → Prop where
  /-- Nothing happens. -/
  | nil (s : PoolSystem) : PoolRun P [] s s
  /-- One step, and then the others. -/
  | cons {e : PoolEvent} {es : List PoolEvent} {s t u : PoolSystem} (hstep : PoolStep P e s t)
      (hrun : PoolRun P es t u) : PoolRun P (e :: es) s u

/-- The next id is above all numbers in the base directory and in the pool, and there are no aliases. -/
structure FreshIds (files : BaseDir) (pool : WorkingDirectoryPoolState) : Prop where
  /-- The base directory. -/
  numbers : NumbersBelow files pool.nextId
  /-- The pool. -/
  held : ∀ id, pool.allEntries id ≠ none → id < pool.nextId
  /-- Aliases. -/
  noAlias : NoAlias files pool

/-- If a pool is open, its next id is fresh. -/
def PoolSystem.Fresh (s : PoolSystem) : Prop := ∀ pool, s.pool = some pool → FreshIds s.files pool

theorem PoolSystem.fresh_some {files : BaseDir} {pool : WorkingDirectoryPoolState} :
    (PoolSystem.mk files (some pool)).Fresh ↔ FreshIds files pool := by
  refine ⟨fun h => h pool rfl, fun h pool' hpool => ?_⟩
  rw [← Option.some.inj hpool]
  exact h

theorem eq_of_takeNextId {pool pool' : WorkingDirectoryPoolState} {id : WorkingDirectoryId}
    (h : pool.takeNextId = .ok (id, pool')) :
    id = pool.nextId ∧ id < pool'.nextId ∧ pool'.allEntries = pool.allEntries := by
  unfold WorkingDirectoryPoolState.takeNextId at h
  split_ifs at h with hlt
  cases h
  refine ⟨rfl, ?_, rfl⟩
  rw [UInt64.lt_iff_toNat_lt, UInt64.toNat_add, UInt64.toNat_one, Nat.mod_eq_of_lt hlt]
  exact Nat.lt_succ_self _

/-- A new directory: the counter has moved on, and there may be an entry for the id. -/
theorem eq_of_getNew {pool pool' : WorkingDirectoryPoolState} {id : WorkingDirectoryId}
    {cloneRepo : List Char → Except CallError WorkingDirectory} {result : Except CallError WorkingDirectoryId}
    {pool₁ : WorkingDirectoryPoolState} (hid : pool.takeNextId = .ok (id, pool₁))
    (hrun : pool.getNew cloneRepo = .ok (result, pool')) :
    id = pool.nextId ∧ id < pool'.nextId ∧ ∀ id' entry, pool'.allEntries id' = some entry →
      pool.allEntries id' = some entry ∨ id' = id ∧ entry.1 = toDirectoryFileName id := by
  obtain ⟨hnext, hlt, hentries⟩ := eq_of_takeNextId hid
  rw [WorkingDirectoryPoolState.getNew, hid] at hrun
  dsimp only [Outcome.bind] at hrun
  split at hrun
  · cases hrun
    refine ⟨hnext, hlt, fun id' entry hentry => .inl ?_⟩
    rw [← hentries]
    exact hentry
  · cases hrun
    refine ⟨hnext, hlt, fun id' entry hentry => ?_⟩
    dsimp only at hentry
    rw [Function.update_apply] at hentry
    split_ifs at hentry with he
    · obtain rfl := Option.some.inj hentry
      exact .inr ⟨he, rfl⟩
    · rw [← hentries]
      exact .inl hentry

/-- Deleting takes entries away. -/
theorem eq_of_deleteWorkingDirectory {pool pool' : WorkingDirectoryPoolState} {id : WorkingDirectoryId}
    {removeDirAll : List Char → Except CallError Unit} {result : Except CallError Unit}
    (h : pool.deleteWorkingDirectory id removeDirAll = (result, pool')) :
    pool'.nextId = pool.nextId ∧ ∀ id' entry, pool'.allEntries id' = some entry → pool.allEntries id' = some entry := by
  unfold WorkingDirectoryPoolState.deleteWorkingDirectory at h
  split at h
  · cases h
    exact ⟨rfl, fun id' entry hentry => hentry⟩
  · cases h
    refine ⟨rfl, fun id' entry hentry => ?_⟩
    dsimp only at hentry
    rw [Function.update_apply] at hentry
    split_ifs at hentry
    exact hentry

theorem eq_some_of_update_none {files : BaseDir} {name name' : OsString} {isDir : Bool}
    (h : Function.update files name none name' = some isDir) : files name' = some isDir := by
  rw [Function.update_apply] at h
  split_ifs at h
  exact h

theorem number_ofChars_append {base ext : List Char} {id : UInt64} (h : u64FromStr base = some id) :
    OsString.number (.ofChars (base ++ '.' :: ext)) = some id := by
  have hdot : '.' ∉ base := not_mem_of_u64FromStr h (by decide) (by decide)
  have hall : ∀ c ∈ base, decide (c ≠ '.') = true := by
    intro c hc
    refine decide_eq_true ?_
    rintro rfl
    exact hdot hc
  rw [OsString.number_ofChars, List.takeWhile_append_of_pos hall]
  simpa using h

namespace FreshIds

variable {files : BaseDir} {pool pool' : WorkingDirectoryPoolState}

/-- Fewer files and fewer entries stay fresh. -/
theorem anti {files' : BaseDir} (h : FreshIds files pool)
    (hfiles : ∀ name isDir, files' name = some isDir → files name = some isDir) (hnext : pool'.nextId = pool.nextId)
    (hentries : ∀ id entry, pool'.allEntries id = some entry → pool.allEntries id = some entry) :
    FreshIds files' pool' where
  numbers name isDir hname id hid := by
    rw [hnext]
    exact h.numbers name isDir (hfiles name isDir hname) id hid
  held id hid := by
    obtain ⟨entry, hentry⟩ := Option.ne_none_iff_exists'.1 hid
    rw [hnext]
    exact h.held id (by rw [hentries id entry hentry]; simp)
  noAlias := by
    refine ⟨fun name name' id hname hname' => ?_, fun name id entry hname hid hentry => ?_⟩
    · exact h.noAlias.dirs name name' id (hfiles name true hname) (hfiles name' true hname')
    · exact h.noAlias.entries name id entry (hfiles name true hname) hid (hentries id entry hentry)

/-- A file of a directory that has an id does no harm. -/
theorem save {base ext : List Char} {id : UInt64} (h : FreshIds files pool) (hbase : u64FromStr base = some id)
    (hlt : id < pool.nextId) : FreshIds (Function.update files (.ofChars (base ++ '.' :: ext)) (some false)) pool := by
  have hdir : ∀ name, Function.update files (.ofChars (base ++ '.' :: ext)) (some false) name = some true →
      files name = some true := by
    intro name hname
    by_cases he : name = .ofChars (base ++ '.' :: ext)
    · rw [he, Function.update_self] at hname
      cases hname
    · rwa [Function.update_of_ne he] at hname
  refine ⟨fun name isDir hname id' hid' => ?_, h.held, ?_⟩
  · rw [Function.update_apply] at hname
    split_ifs at hname with he
    · rw [he, OsString.number_eq_some_iff.1 (number_ofChars_append hbase)] at hid'
      rw [← Option.some.inj hid']
      exact UInt64.lt_iff_toNat_lt.1 hlt
    · exact h.numbers name isDir hname id' hid'
  · refine ⟨fun name name' id' hname hname' => ?_, fun name id' entry hname => ?_⟩
    · exact h.noAlias.dirs name name' id' (hdir name hname) (hdir name' hname')
    · exact h.noAlias.entries name id' entry (hdir name hname)

/-- A number in the base directory is not the next id. -/
theorem ne_nextId (h : FreshIds files pool) {name : OsString} {isDir : Bool} (hname : files name = some isDir) :
    OsString.number name ≠ some pool.nextId := by
  intro hid
  exact UInt64.lt_irrefl _ (h.numbers.lt hname hid)

/-- The counter goes on, perhaps with an entry for the id. -/
theorem advance (h : FreshIds files pool) (hnext : pool.nextId < pool'.nextId)
    (hentries : ∀ id entry, pool'.allEntries id = some entry →
      pool.allEntries id = some entry ∨ id = pool.nextId ∧ entry.1 = toDirectoryFileName pool.nextId) :
    FreshIds files pool' where
  numbers name isDir hname n hn := (h.numbers name isDir hname n hn).trans (UInt64.lt_iff_toNat_lt.1 hnext)
  held id hid := by
    obtain ⟨entry, hentry⟩ := Option.ne_none_iff_exists'.1 hid
    rcases hentries id entry hentry with hbefore | ⟨rfl, -⟩
    · exact UInt64.lt_trans (h.held id (by rw [hbefore]; simp)) hnext
    · exact hnext
  noAlias := by
    refine ⟨h.noAlias.dirs, fun name id entry hname hid hentry => ?_⟩
    rcases hentries id entry hentry with hbefore | ⟨rfl, -⟩
    · exact h.noAlias.entries name id entry hname hid hbefore
    · exact absurd (OsString.number_of_directoryId hid) (h.ne_nextId hname)

/-- A directory for an id whose number is not there yet. -/
theorem newDirectory {id : WorkingDirectoryId} (h : FreshIds files pool) (hlt : id < pool.nextId)
    (hnew : ∀ name isDir, files name = some isDir → OsString.number name ≠ some id)
    (hentry : ∀ entry, pool.allEntries id = some entry → entry.1 = toDirectoryFileName id) :
    FreshIds (Function.update files (directoryName id) (some true)) pool := by
  refine ⟨fun name isDir hname id' hid => ?_, h.held, ⟨fun name name' id' hname hname' hid hid' => ?_,
    fun name id' entry hname hid hentry' => ?_⟩⟩
  · rw [Function.update_apply] at hname
    split_ifs at hname with he
    · rw [he, OsString.number_eq_some_iff.1 (OsString.number_of_directoryId (directoryId_directoryName _))] at hid
      rw [← Option.some.inj hid]
      exact UInt64.lt_iff_toNat_lt.1 hlt
    · exact h.numbers name isDir hname id' hid
  · have hold : ∀ {name : OsString}, files name = some true → OsString.directoryId name ≠ some id :=
      fun hname hid => hnew _ _ hname (OsString.number_of_directoryId hid)
    rw [Function.update_apply] at hname hname'
    split_ifs at hname hname' with he he' he'
    · rw [he, he']
    · rw [he, directoryId_directoryName] at hid
      exact absurd (hid'.trans hid.symm) (hold hname')
    · rw [he', directoryId_directoryName] at hid'
      exact absurd (hid.trans hid'.symm) (hold hname)
    · exact h.noAlias.dirs name name' id' hname hname' hid hid'
  · rw [Function.update_apply] at hname
    split_ifs at hname with he
    · rw [he, directoryId_directoryName] at hid
      obtain rfl := Option.some.inj hid
      rw [he, hentry entry hentry', directoryName]
    · exact h.noAlias.entries name id' entry hname hid hentry'

end FreshIds

/-- **A step keeps the ids fresh**, if the scan suffices where the pool is opened. -/
theorem fresh_of_step {e : PoolEvent} {s s' : PoolSystem} (h : s.Fresh) (hstep : PoolStep ScanSuffices e s s') :
    s'.Fresh := by
  cases hstep with
  | open_ hP hlist hopen =>
    refine PoolSystem.fresh_some.2 ?_
    obtain ⟨hnumbers, halias⟩ := (open_fresh_iff hlist hopen).2 hP
    refine ⟨hnumbers, fun id hid => ?_, halias⟩
    obtain ⟨entry, hentry⟩ := Option.ne_none_iff_exists'.1 hid
    exact lt_nextId_of_open hopen hentry
  | closed =>
    intro pool hpool
    cases hpool
  | @getNew files files' pool pool₁ pool' id cloneRepo result hid hrun hfiles =>
    have hfresh : FreshIds files pool := PoolSystem.fresh_some.1 h
    refine PoolSystem.fresh_some.2 ?_
    obtain ⟨rfl, hlt, hentries⟩ := eq_of_getNew hid hrun
    have hadvanced := hfresh.advance hlt hentries
    rcases hfiles with ⟨-, rfl⟩ | ⟨-, rfl⟩
    · refine hadvanced.newDirectory hlt (fun name isDir => hfresh.ne_nextId) fun entry hentry => ?_
      rcases hentries _ entry hentry with hbefore | ⟨-, hfname⟩
      · exact absurd (hfresh.held _ (by rw [hbefore]; simp)) (UInt64.lt_irrefl _)
      · exact hfname
    · exact hadvanced
  | @delete files files' pool pool' id removeDirAll result hrun hfiles =>
    refine PoolSystem.fresh_some.2 ?_
    obtain ⟨hnext, hentries⟩ := eq_of_deleteWorkingDirectory hrun
    refine (PoolSystem.fresh_some.1 h).anti (fun name isDir hname => ?_) hnext hentries
    rcases hfiles with ⟨entry, -, rfl⟩ | ⟨-, rfl⟩
    · exact eq_some_of_update_none hname
    · exact hname
  | @removed files pool name =>
    intro pool' hpool
    exact (h pool' hpool).anti (fun name' isDir hname => eq_some_of_update_none hname) rfl fun id entry hentry => hentry
  | @save files pool id base ext hheld hbase hfile =>
    intro pool' hpool
    have hfresh : FreshIds files pool' := h pool' hpool
    refine hfresh.save hbase ?_
    rcases hheld with ⟨pool'', hpool', hid⟩ | ⟨name, hname, hid⟩
    · obtain rfl := Option.some.inj (hpool.symm.trans hpool')
      exact hfresh.held id hid
    · exact hfresh.numbers.lt hname (OsString.number_of_directoryId hid)

theorem fresh_of_run {es : List PoolEvent} {s s' : PoolSystem} (h : s.Fresh) (hrun : PoolRun ScanSuffices es s s') :
    s'.Fresh := by
  induction hrun with
  | nil s => exact h
  | cons hstep _ ih => exact ih (fresh_of_step h hstep)

/-- **The ids are fresh** exactly if the scan suffices when the pool is opened: then opening returns, the next id is above all
numbers in the base directory, there are no aliases, and from then on each id is handed out while there is nothing in the base
directory with that number. -/
theorem ids_fresh_iff (files : BaseDir) :
    (∀ openDir entries, Lists entries files →
      (∀ fname, files (.ofChars fname) = some true → (openDir fname).isOk = true) →
      ((∃ pool, WorkingDirectoryPoolState.open_ openDir (.ok (readDir entries)) = .ok pool ∧
        NumbersBelow files pool.nextId ∧ NoAlias files pool) ↔ ScanSuffices files)) ∧
    (∀ openDir entries, Lists entries files → ScanSuffices files →
      (∀ msg, WorkingDirectoryPoolState.open_ openDir (.ok (readDir entries)) ≠ .panic msg) ∧
        ∀ pool, WorkingDirectoryPoolState.open_ openDir (.ok (readDir entries)) = .ok pool →
          NumbersBelow files pool.nextId ∧ NoAlias files pool) ∧
    ∀ es s, PoolRun ScanSuffices es ⟨files, none⟩ s → (∀ pool, s.pool = some pool → NoAlias s.files pool) ∧
      ∀ id s', PoolStep (fun _ => True) (.handedOut id) s s' → ∀ name isDir, s.files name = some isDir →
        OsString.number name ≠ some id := by
  refine ⟨fun openDir entries hlist hdirs => ?_, fun openDir entries hlist hscan => ?_, fun es s hrun => ?_⟩
  · constructor
    · rintro ⟨pool, hopen, hfresh⟩
      exact (open_fresh_iff hlist hopen).1 hfresh
    · intro hscan
      obtain ⟨pool, hopen⟩ := (open_of_room hlist hscan.room).2 hdirs
      exact ⟨pool, hopen, (open_fresh_iff hlist hopen).2 hscan⟩
  · exact ⟨(open_of_room hlist hscan.room).1, fun pool hopen => (open_fresh_iff hlist hopen).2 hscan⟩
  have hclosed : (PoolSystem.mk files none).Fresh := by
    intro pool hpool
    cases hpool
  have hfresh := fresh_of_run hclosed hrun
  refine ⟨fun pool hpool => (hfresh pool hpool).noAlias, fun id s' hstep name isDir hname => ?_⟩
  cases hstep with
  | getNew hid hrun hfiles =>
    obtain ⟨rfl, -, -⟩ := eq_of_takeNextId hid
    exact (hfresh _ rfl).ne_nextId hname

/-! ### A directory and what is left of it -/

/-- The directory `0`. -/
def zeroDir : OsString := .ofChars ['0']

/-- Its status file. -/
def zeroStatus : OsString := .ofChars "0.status".toList

/-- A base directory without entries. -/
def noFiles : BaseDir := fun _ => none

/-- The directory and its status file. -/
def zeroFiles : BaseDir := Function.update (Function.update noFiles zeroDir (some true)) zeroStatus (some false)

/-- The pool when it has been opened without directories. -/
def newPool : WorkingDirectoryPoolState := ⟨0, fun _ => none⟩

/-- A directory that has just been made. -/
def newWorkingDirectory : WorkingDirectory := ⟨.epoch, 0, .checkedOut, false⟩

/-- The pool when the directory has been made. -/
def zeroPool : WorkingDirectoryPoolState :=
  ⟨1, Function.update (fun _ => none) 0 (some (['0'], newWorkingDirectory))⟩

theorem directoryName_zero : directoryName 0 = zeroDir := by decide +kernel

theorem lists_zeroStatus :
    Lists [(zeroStatus, false)] (Function.update zeroFiles zeroDir none) := by
  intro name isDir
  have hne : zeroStatus ≠ zeroDir := by decide
  by_cases hdir : name = zeroDir
  · rw [hdir, Function.update_self]
    simp [hne.symm]
  · rw [Function.update_of_ne hdir, zeroFiles]
    by_cases hstatus : name = zeroStatus
    · rw [hstatus, Function.update_self]
      simp [eq_comm]
    · rw [Function.update_of_ne hstatus, Function.update_of_ne hdir]
      simp [noFiles, hstatus]

theorem lists_zeroFiles : Lists [(zeroDir, true), (zeroStatus, false)] zeroFiles := by
  intro name isDir
  have hne : zeroStatus ≠ zeroDir := by decide
  by_cases hstatus : name = zeroStatus
  · rw [hstatus, zeroFiles, Function.update_self]
    simp [hne, @eq_comm _ false]
  · rw [zeroFiles, Function.update_of_ne hstatus]
    by_cases hdir : name = zeroDir
    · rw [hdir, Function.update_self]
      simp [hne.symm, eq_comm]
    · rw [Function.update_of_ne hdir]
      simp [noFiles, hstatus, hdir]

/-- Where the directory is still there, the next id is 1. -/
theorem ids_fresh_sample : ∀ name isDir, zeroFiles name = some isDir → OsString.number name ≠ some 1 := by
  have hopen : WorkingDirectoryPoolState.open_ (fun _ => .ok newWorkingDirectory)
      (.ok (readDir [(zeroDir, true), (zeroStatus, false)])) = .ok zeroPool := rfl
  have hscan : ScanSuffices zeroFiles := by
    have hzeroDir : OsString.anyNumber zeroDir = some 0 := by decide +kernel
    have hzeroStatus : OsString.anyNumber zeroStatus = some 0 := by decide +kernel
    have hzero : ∀ name isDir n, zeroFiles name = some isDir → OsString.anyNumber name = some n → n = 0 := by
      intro name isDir n hname hn
      rcases List.mem_pair.1 ((lists_zeroFiles name isDir).2 hname) with he | he
      · rw [(Prod.mk.inj he).1, hzeroDir] at hn
        exact (Option.some.inj hn).symm
      · rw [(Prod.mk.inj he).1, hzeroStatus] at hn
        exact (Option.some.inj hn).symm
    refine ⟨fun name isDir n hname hn => ⟨zeroDir, 0, rfl, by decide, by decide +kernel, ?_⟩,
      fun dir id hdir _ hid => ?_, fun name id hname hid hne => ?_⟩
    · exact (hzero name isDir n hname hn).le
    · rw [hzero dir true id.toNat hdir (OsString.number_eq_some_iff.1 hid)]
      decide
    · rcases List.mem_pair.1 ((lists_zeroFiles name true).2 hname) with he | he
      · obtain ⟨rfl, -⟩ := Prod.mk.inj he
        rw [show OsString.directoryId zeroDir = some 0 by decide +kernel] at hid
        obtain rfl := Option.some.inj hid
        exact absurd directoryName_zero.symm hne
      · cases (Prod.mk.inj he).2
  have hrun : PoolRun ScanSuffices [.opened] ⟨zeroFiles, none⟩ ⟨zeroFiles, some zeroPool⟩ :=
    .cons (.open_ hscan lists_zeroFiles hopen) (.nil _)
  have hnew : zeroPool.getNew (fun _ => .error "git clone") = .ok (.error "git clone", ⟨2, zeroPool.allEntries⟩) := rfl
  have hstep : PoolStep (fun _ => True) (.handedOut 1) ⟨zeroFiles, some zeroPool⟩
      ⟨zeroFiles, some ⟨2, zeroPool.allEntries⟩⟩ := .getNew rfl hnew (.inr ⟨⟨_, rfl⟩, rfl⟩)
  exact ((ids_fresh_iff zeroFiles).2.2 _ _ hrun).2 1 _ hstep

/-- When a directory is deleted, and the pool is opened again, the next directory gets the same id, with the status
file of the deleted one still there. -/
theorem reused_id :
    ¬ ∀ files es s, PoolRun (fun _ => True) es ⟨files, none⟩ s → ∀ id s', PoolStep (fun _ => True) (.handedOut id) s s' →
      ∀ name isDir, s.files name = some isDir → OsString.number name ≠ some id := by
  intro hall
  have hmade : newPool.getNew (fun _ => .ok newWorkingDirectory) = .ok (.ok 0, zeroPool) := rfl
  have hdeleted : zeroPool.deleteWorkingDirectory 0 (fun _ => .ok ()) =
      (.ok (), ⟨1, Function.update zeroPool.allEntries 0 none⟩) := rfl
  have hfailed : newPool.getNew (fun _ => .error "git clone") = .ok (.error "git clone", ⟨1, fun _ => none⟩) := rfl
  have hopened : WorkingDirectoryPoolState.open_ (fun _ => .ok newWorkingDirectory) (.ok (readDir [])) = .ok newPool := rfl
  have hreopened : WorkingDirectoryPoolState.open_ (fun _ => .ok newWorkingDirectory)
      (.ok (readDir [(zeroStatus, false)])) = .ok newPool := rfl
  have hempty : Lists [] noFiles := by
    intro name isDir
    simp [noFiles]
  have hsave : PoolStep (fun _ => True) .other ⟨Function.update noFiles zeroDir (some true), some zeroPool⟩
      ⟨zeroFiles, some zeroPool⟩ := by
    have hheld : zeroPool.allEntries 0 ≠ none := by simp [zeroPool]
    have hbase : u64FromStr ['0'] = some 0 := by decide +kernel
    have hfile : Function.update noFiles zeroDir (some true) (.ofChars (['0'] ++ '.' :: "status".toList)) ≠ some true := by
      decide
    exact .save (.inl ⟨_, rfl, hheld⟩) hbase hfile
  have hrun : PoolRun (fun _ => True) [.opened, .handedOut 0, .other, .other, .opened] ⟨noFiles, none⟩
      ⟨Function.update zeroFiles zeroDir none, some newPool⟩ := by
    refine .cons (.open_ trivial hempty hopened) (.cons (.getNew rfl hmade (.inl ⟨by simp [noFiles], rfl⟩)) ?_)
    rw [directoryName_zero]
    exact .cons hsave (.cons (.delete hdeleted (.inl ⟨_, rfl, rfl⟩)) (.cons (.open_ trivial lists_zeroStatus hreopened) (.nil _)))
  have hagain : PoolStep (fun _ => True) (.handedOut 0) ⟨Function.update zeroFiles zeroDir none, some newPool⟩
      ⟨Function.update zeroFiles zeroDir none, some ⟨1, fun _ => none⟩⟩ := .getNew rfl hfailed (.inr ⟨⟨_, rfl⟩, rfl⟩)
  exact hall _ _ _ hrun 0 _ hagain zeroStatus false rfl (by decide +kernel)

end Evobench.Run

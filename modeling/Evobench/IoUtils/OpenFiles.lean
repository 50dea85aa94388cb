import Evobench.IoUtils.System
import Mathlib.Data.List.Sublists

/-!
# Open files and what survives a crash

`Evobench.IoUtils.System` knows files by their paths. Where several programs work on the same directory, it
matters that a path and the file under it are not the same: a file that is open stays what it is when its name
is removed or given to another file, a `flock` is on the open file, and after a loss of power a directory can
have forgotten what has not been synced. This module runs the same programs on a machine that has all of that.

## The model

* `Folder`: a directory as it is on the disk, and the changes since then. `Folder.May d`: the directory can be
  found as `d` after a loss of power: some of the changes have been made, in order, and each of them in whole.
* `Store`: directories, the contents of files by inode, which of them have been synced, and a log of the changes
  of directories with the session that made each.
* `Kernel`: the store, the file that each session has open, and the locks.
* `Kernel.close`: what happens to the open file and the locks of a session that drops them or is killed.
* `Kernel.Recovers`: what is found after a loss of power.

## What is proved

* `Apart`: what the operations of one session leave as it is for the others (`Kernel.apart_of_act`).
* `Kernel.cases_of_failing` and one lemma for each operation: what it can do.
* `Folder.may_change`, `Folder.may_sync`: how what can be found develops.

## Honest scope

A session has one file open at a time: the one that it has opened or created last. Writing and syncing go to
that file. Changes of a directory are made on the disk in the order in which they are given, each of them in
whole or not at all. The content of a file that has not been synced can be anything after a loss of power.
-/

namespace Evobench.IoUtils

open Library

/-! ### Directories -/

/-- A file, whatever its name. -/
abbrev Inode := ℕ

/-- The files of a directory by name. -/
abbrev Names := AList fun _ : String => Inode

/-- A change of a directory. -/
inductive Change where
  /-- A new file gets a name. -/
  | link (name : String) (n : Inode)
  /-- A file gets another name, which is taken from the file that has it. -/
  | move (source target : String) (n : Inode)
  /-- A name is removed. -/
  | unlink (name : String) (n : Inode)
deriving DecidableEq, Repr

/-- The directory after a change. -/
def Change.apply (d : Names) : Change → Names
  | link name n => d.insert name n
  | move source target n => (d.erase source).insert target n
  | unlink name _ => d.erase name

section Lookup

variable {d : Names} {name source target : String} {n : Inode} (a : String)

theorem lookup_link : ((Change.link name n).apply d).lookup a = if a = name then some n else d.lookup a := by
  by_cases h : a = name
  · subst h
    simp [Change.apply]
  · simp [Change.apply, h]

theorem lookup_move : ((Change.move source target n).apply d).lookup a =
    if a = target then some n else if a = source then none else d.lookup a := by
  by_cases h : a = target
  · subst h
    simp [Change.apply]
  · by_cases h' : a = source
    · subst h'
      simp [Change.apply, h]
    · simp [Change.apply, h, h']

theorem lookup_unlink : ((Change.unlink name n).apply d).lookup a = if a = name then none else d.lookup a := by
  by_cases h : a = name
  · subst h
    simp [Change.apply]
  · simp [Change.apply, h]

end Lookup

/-- A directory. -/
structure Folder where
  /-- The directory as it is on the disk. -/
  durable : Names
  /-- What has been changed since, the oldest change first. -/
  pending : List Change

namespace Folder

variable {f : Folder} {d : Names} {c : Change}

/-- The directory as the programs see it. -/
def names (f : Folder) : Names := f.pending.foldl Change.apply f.durable

/-- The directory can be found like this after a loss of power. -/
def May (f : Folder) (d : Names) : Prop :=
  ∃ cs : List Change, cs.Sublist f.pending ∧ d = cs.foldl Change.apply f.durable

/-- Make a change. -/
def change (f : Folder) (c : Change) : Folder := { f with pending := f.pending ++ [c] }

/-- Write all changes to the disk. -/
def sync (f : Folder) : Folder := ⟨f.names, []⟩

theorem may_names (f : Folder) : f.May f.names := ⟨f.pending, List.Sublist.refl _, rfl⟩

@[simp] theorem names_change : (f.change c).names = c.apply f.names := by simp [names, change]

@[simp] theorem names_sync : f.sync.names = f.names := rfl

theorem names_of_pending (h : f.pending = []) : f.names = f.durable := by simp [names, h]

theorem may_of_pending (h : f.pending = []) : f.May d ↔ d = f.durable := by
  constructor
  · rintro ⟨cs, hcs, rfl⟩
    rw [h, List.sublist_nil] at hcs
    rw [hcs, List.foldl_nil]
  · rintro rfl
    exact ⟨[], List.nil_sublist _, rfl⟩

/-- A change has been made or not, whatever has been made of those before. -/
theorem may_change : (f.change c).May d ↔ f.May d ∨ ∃ d', f.May d' ∧ d = c.apply d' := by
  constructor
  · rintro ⟨cs, hcs, rfl⟩
    obtain ⟨cs₁, cs₂, rfl, h₁, h₂⟩ := List.sublist_append_iff.1 hcs
    rcases List.sublist_singleton.1 h₂ with rfl | rfl
    · exact .inl ⟨cs₁, h₁, by rw [List.append_nil]; rfl⟩
    · exact .inr ⟨_, ⟨cs₁, h₁, rfl⟩, by rw [List.foldl_append]; rfl⟩
  · rintro (⟨cs, hcs, rfl⟩ | ⟨d', ⟨cs, hcs, rfl⟩, rfl⟩)
    · exact ⟨cs, hcs.trans (List.sublist_append_left _ _), rfl⟩
    · exact ⟨cs ++ [c], hcs.append_right _, by rw [List.foldl_append]; rfl⟩

theorem may_sync : f.sync.May d ↔ d = f.names := may_of_pending rfl

end Folder

/-! ### The store -/

/-- A change of a directory and the session that made it. -/
structure Logged (S : Type) where
  /-- The session. -/
  session : S
  /-- The directory. -/
  dir : String
  /-- What it changed. -/
  change : Change
deriving DecidableEq

/-- What is on the disk and in the caches of the system. -/
structure Store (C S : Type) where
  /-- The directories by path. -/
  folders : String → Folder
  /-- The contents of the files, `none` for one that has not been written completely. -/
  content : Inode → Option C
  /-- Whether the content is on the disk. -/
  synced : Inode → Bool
  /-- The next file gets this number. -/
  fresh : Inode
  /-- All changes of directories, the latest one first. -/
  log : List (Logged S)

namespace Store

variable {C S : Type}

/-- The file under a name. -/
def inode (st : Store C S) (dir name : String) : Option Inode := (st.folders dir).names.lookup name

/-- Change a directory. -/
def change (st : Store C S) (s : S) (dir : String) (c : Change) : Store C S :=
  { st with folders := Function.update st.folders dir ((st.folders dir).change c), log := ⟨s, dir, c⟩ :: st.log }

/-- Change the content of a file. -/
def write (st : Store C S) (n : Inode) (c : Option C) : Store C S :=
  { st with content := Function.update st.content n c, synced := Function.update st.synced n false }

/-- Make a new file. -/
def create (st : Store C S) (s : S) (dir name : String) : Store C S :=
  { (st.change s dir (.link name st.fresh)).write st.fresh none with fresh := st.fresh + 1 }

/-- Write the content of a file to the disk. -/
def sync (st : Store C S) (n : Inode) : Store C S := { st with synced := Function.update st.synced n true }

/-- Write a directory to the disk. -/
def syncDir (st : Store C S) (dir : String) : Store C S :=
  { st with folders := Function.update st.folders dir (st.folders dir).sync }

section Fields

variable (st : Store C S) (s : S) (dir name : String) (n : Inode) (c : Change) (content : Option C)

@[simp] theorem content_change : (st.change s dir c).content = st.content := rfl
@[simp] theorem synced_change : (st.change s dir c).synced = st.synced := rfl
@[simp] theorem fresh_change : (st.change s dir c).fresh = st.fresh := rfl
@[simp] theorem log_change : (st.change s dir c).log = ⟨s, dir, c⟩ :: st.log := rfl
@[simp] theorem folders_write : (st.write n content).folders = st.folders := rfl
@[simp] theorem fresh_write : (st.write n content).fresh = st.fresh := rfl
@[simp] theorem log_write : (st.write n content).log = st.log := rfl
@[simp] theorem folders_create : (st.create s dir name).folders = (st.change s dir (.link name st.fresh)).folders := rfl
@[simp] theorem fresh_create : (st.create s dir name).fresh = st.fresh + 1 := rfl
@[simp] theorem log_create : (st.create s dir name).log = ⟨s, dir, .link name st.fresh⟩ :: st.log := rfl
@[simp] theorem folders_sync : (st.sync n).folders = st.folders := rfl
@[simp] theorem content_sync : (st.sync n).content = st.content := rfl
@[simp] theorem fresh_sync : (st.sync n).fresh = st.fresh := rfl
@[simp] theorem log_sync : (st.sync n).log = st.log := rfl
@[simp] theorem content_syncDir : (st.syncDir dir).content = st.content := rfl
@[simp] theorem synced_syncDir : (st.syncDir dir).synced = st.synced := rfl
@[simp] theorem fresh_syncDir : (st.syncDir dir).fresh = st.fresh := rfl
@[simp] theorem log_syncDir : (st.syncDir dir).log = st.log := rfl

@[simp] theorem folders_change_self : (st.change s dir c).folders dir = (st.folders dir).change c := by simp [change]
@[simp] theorem folders_syncDir_self : (st.syncDir dir).folders dir = (st.folders dir).sync := by simp [syncDir]

@[simp] theorem inode_write (dir' : String) : (st.write n content).inode dir' name = st.inode dir' name := rfl
@[simp] theorem inode_sync (dir' : String) : (st.sync n).inode dir' name = st.inode dir' name := rfl
@[simp] theorem inode_syncDir : (st.syncDir dir).inode dir name = st.inode dir name := by simp [inode]

theorem inode_create (name' : String) : (st.create s dir name).inode dir name' =
    if name' = name then some st.fresh else st.inode dir name' := by
  rw [inode, folders_create, folders_change_self, Folder.names_change, lookup_link]
  rfl

theorem inode_move (source target name' : String) : (st.change s dir (.move source target n)).inode dir name' =
    if name' = target then some n else if name' = source then none else st.inode dir name' := by
  rw [inode, folders_change_self, Folder.names_change, lookup_move]
  rfl

theorem inode_unlink (name' : String) : (st.change s dir (.unlink name n)).inode dir name' =
    if name' = name then none else st.inode dir name' := by
  rw [inode, folders_change_self, Folder.names_change, lookup_unlink]
  rfl

end Fields

end Store

/-! ### The machine -/

/-- An open file. -/
structure Handle where
  /-- The directory in which it was opened. -/
  dir : String
  /-- The name that it had then. -/
  name : String
  /-- The file. -/
  inode : Inode
deriving DecidableEq, Repr

/-- The path under which the file was opened. -/
def Handle.path (h : Handle) : String := h.dir ++ "/" ++ h.name

/-- What a lock is on. -/
inductive LockOn where
  /-- A directory. -/
  | path (path : String)
  /-- A file. -/
  | inode (n : Inode)
deriving DecidableEq, Repr

/-- A process. Others can have the same pid, later or on another machine. -/
structure Process where
  /-- The number of the process. -/
  number : ℕ
  /-- Its pid. -/
  pid : Pid
deriving DecidableEq

/-- The state of the system, with sessions `S` that each have their own open file and locks. -/
structure Kernel (C X : Type) (R : X → Type) (S : Type) where
  /-- The files. -/
  store : Store C S
  /-- The file that a session has open. -/
  handle : S → Option Handle
  /-- The holders of the exclusive locks. -/
  locks : LockOn → Option S
  /-- The counter of `next_id` in each process. -/
  ids : ℕ → UInt64
  /-- What the outside will do, operation after operation. -/
  env : ℕ → Event X R
  /-- The number of operations so far. -/
  tick : ℕ

namespace Kernel

variable {C X S : Type} {R : X → Type} {α : Type}

/-- The outside's behaviour at the operation that comes next. -/
def event (w : Kernel C X R S) : Event X R := w.env w.tick

/-- Go on to the next operation. -/
def next (w : Kernel C X R S) : Kernel C X R S := { w with tick := w.tick + 1 }

/-- Go on with a new store. -/
def stored (w : Kernel C X R S) (st : Store C S) : Kernel C X R S := { w with store := st }

variable [DecidableEq S]

/-- The session has opened a file. -/
def opened (w : Kernel C X R S) (s : S) (h : Handle) : Kernel C X R S :=
  { w with handle := Function.update w.handle s (some h) }

/-- The session has got a lock. -/
def locked (w : Kernel C X R S) (s : S) (x : LockOn) : Kernel C X R S :=
  { w with locks := Function.update w.locks x (some s) }

/-- The session has no lock on `x` any more. -/
def unlocked (w : Kernel C X R S) (s : S) (x : LockOn) : Kernel C X R S :=
  { w with locks := if w.locks x = some s then Function.update w.locks x none else w.locks }

/-- The session has closed its file and lost all its locks. -/
def close (w : Kernel C X R S) (s : S) : Kernel C X R S :=
  { w with handle := Function.update w.handle s none, locks := fun x => if w.locks x = some s then none else w.locks x }

omit [DecidableEq S] in
/-- What a lock on a path is on: the open file, or else the directory with that path. -/
def lockOn (w : Kernel C X R S) (s : S) (path : String) : LockOn :=
  match w.handle s with
  | none => .path path
  | some h => if path = h.path then .inode h.inode else .path path

omit [DecidableEq S] in
/-- An operation that can fail: the fault of the moment, or else its answer and its effect. -/
def failing (w : Kernel C X R S) (r : Except IoError α × Kernel C X R S) : Option (Except IoError α × Kernel C X R S) :=
  match w.event.fault with
  | some errno => some (.error (.other errno), w.next)
  | none => some (r.1, r.2.next)

/-- The error for an operation on a file that is not open (`EBADF`). -/
def badFile : IoError := .other 9

/-- The effect of an operation of a session. -/
def act (who : S → Process) (s : S) : (o : Op C X) → Kernel C X R S → Option (Ans C X R o × Kernel C X R S)
  | .readDir dir, w => failing w (.ok (w.store.folders dir).names.keys, w)
  | .pathExists dir name, w => some ((w.store.inode dir name).isSome, w.next)
  | .openFile dir name, w => failing w <|
      match w.store.inode dir name with
      | none => (.error .notFound, w)
      | some n => (.ok (w.store.content n), w.opened s ⟨dir, name, n⟩)
  | .createFile dir name, w => failing w <|
      match w.store.inode dir name with
      | none => (.ok (), (w.stored (w.store.create s dir name)).opened s ⟨dir, name, w.store.fresh⟩)
      -- a file that is there already is made empty
      | some n => (.ok (), (w.stored (w.store.write n none)).opened s ⟨dir, name, n⟩)
  | .writeAll _ _ content, w =>
      match w.handle s, w.event.fault with
      | none, _ => some (.error badFile, w.next)
      | some h, some errno => some (.error (.other errno), (w.stored (w.store.write h.inode none)).next)
      | some h, none => some (.ok (), (w.stored (w.store.write h.inode (some content))).next)
  | .syncFile _ _, w =>
      match w.handle s with
      | none => some (.error badFile, w.next)
      | some h => failing w (.ok (), w.stored (w.store.sync h.inode))
  | .rename dir source target, w => failing w <|
      match w.store.inode dir source with
      | none => (.error .notFound, w)
      | some n => (.ok (), w.stored (w.store.change s dir (.move source target n)))
  | .syncDir dir, w => failing w (.ok (), w.stored (w.store.syncDir dir))
  | .removeFile dir name, w => failing w <|
      match w.store.inode dir name with
      | none => (.error .notFound, w)
      | some n => (.ok (), w.stored (w.store.change s dir (.unlink name n)))
  | .flockExclusive path, w =>
      match w.event.fault with
      | some errno => some (.error (.other errno), w.next)
      | none =>
        if w.locks (w.lockOn s path) = none ∨ w.locks (w.lockOn s path) = some s then
          some (.ok (), (w.locked s (w.lockOn s path)).next)
        else none
  | .tryFlockExclusive path, w =>
      match w.event.fault with
      | some errno => some (.error (.other errno), w.next)
      | none =>
        if w.locks (w.lockOn s path) = none ∨ w.locks (w.lockOn s path) = some s then
          some (.ok true, (w.locked s (w.lockOn s path)).next)
        else some (.ok false, w.next)
  | .funlock path, w => some ((), (w.unlocked s (w.lockOn s path)).next)
  | .systemTime, w => some (w.event.now, w.next)
  | .processId, w => some ((who s).pid, w.next)
  | .nextId, w => some (w.ids (who s).number,
      { w.next with ids := Function.update w.ids (who s).number (w.ids (who s).number + 1) })
  | .call x, w => some (w.event.answer x, w.next)

/-- The machine as one session sees it. -/
def machine (who : S → Process) (s : S) : Machine (Op C X) (Ans C X R) (Kernel C X R S) := ⟨act who s⟩

/-! ### What an operation leaves to the other sessions -/

/-- The open files and the locks of all sessions but `s` are as they were. -/
structure Apart (s : S) (w w' : Kernel C X R S) : Prop where
  /-- Open files. -/
  handle : ∀ t, t ≠ s → w'.handle t = w.handle t
  /-- Locks. -/
  locks : ∀ x t, t ≠ s → (w'.locks x = some t ↔ w.locks x = some t)

section Apart

variable {w w' : Kernel C X R S} {s : S} {h : Handle} {x : LockOn}

omit [DecidableEq S] in
theorem Apart.refl (s : S) (w : Kernel C X R S) : Apart s w w := ⟨fun _ _ => rfl, fun _ _ _ => Iff.rfl⟩

omit [DecidableEq S] in
theorem Apart.next (ha : Apart s w w') : Apart s w w'.next := ⟨ha.handle, ha.locks⟩

omit [DecidableEq S] in
theorem apart_stored {st : Store C S} : Apart s w (w.stored st) := ⟨fun _ _ => rfl, fun _ _ _ => Iff.rfl⟩

theorem Apart.opened (ha : Apart s w w') : Apart s w (w'.opened s h) := by
  refine ⟨fun t ht => ?_, ha.locks⟩
  rw [← ha.handle t ht]
  exact Function.update_of_ne ht _ _

omit [DecidableEq S] in
theorem apart_locked (hx : w.locks x = none ∨ w.locks x = some s) : Apart s w (w.locked s x) := by
  refine ⟨fun _ _ => rfl, fun y t ht => ?_⟩
  by_cases hy : y = x
  · subst hy
    have hst : s ≠ t := ht.symm
    rcases hx with hx | hx
    · simp [Kernel.locked, hx, hst]
    · simp [Kernel.locked, hx, hst]
  · simp [Kernel.locked, hy]

theorem apart_unlocked : Apart s w (w.unlocked s x) := by
  refine ⟨fun _ _ => rfl, fun y t ht => ?_⟩
  have hst : s ≠ t := ht.symm
  unfold Kernel.unlocked
  split_ifs with hx
  · by_cases hy : y = x
    · subst hy
      simp [hx, hst]
    · simp [hy]
  · exact Iff.rfl

theorem apart_close : Apart s w (w.close s) := by
  refine ⟨fun t ht => by simp [Kernel.close, ht], fun y t ht => ?_⟩
  have hst : s ≠ t := ht.symm
  by_cases hy : w.locks y = some s
  · simp [Kernel.close, hy, hst]
  · simp [Kernel.close, hy]

omit [DecidableEq S] in
/-- Either the operation fails without any effect, or it answers and has its effect. -/
theorem cases_of_failing {r : Except IoError α × Kernel C X R S} {a : Except IoError α}
    (hact : failing w r = some (a, w')) : ((∃ e, a = .error e) ∧ w' = w.next) ∨ (a = r.1 ∧ w' = r.2.next) := by
  unfold failing at hact
  split at hact
  · cases hact
    exact .inl ⟨⟨_, rfl⟩, rfl⟩
  · cases hact
    exact .inr ⟨rfl, rfl⟩

omit [DecidableEq S] in
theorem apart_of_failing {r : Except IoError α × Kernel C X R S} {a : Except IoError α}
    (hr : Apart s w r.2) (hact : failing w r = some (a, w')) : Apart s w w' := by
  rcases cases_of_failing hact with ⟨-, rfl⟩ | ⟨-, rfl⟩
  · exact (Apart.refl s w).next
  · exact hr.next

/-- **The operations of a session** leave the open files and the locks of the others alone. -/
theorem apart_of_act {who : S → Process} {o : Op C X} {a : Ans C X R o}
    (hact : act who s o w = some (a, w')) : Apart s w w' := by
  have hrefl := Apart.refl s w
  cases o with
  | readDir dir => exact apart_of_failing hrefl hact
  | pathExists dir name =>
    cases hact
    exact hrefl.next
  | openFile dir name =>
    refine apart_of_failing ?_ hact
    split
    · exact hrefl
    · exact hrefl.opened
  | createFile dir name =>
    refine apart_of_failing ?_ hact
    split
    · exact apart_stored.opened
    · exact apart_stored.opened
  | writeAll dir name content =>
    simp only [act] at hact
    split at hact
    · cases hact
      exact hrefl.next
    · cases hact
      exact apart_stored.next
    · cases hact
      exact apart_stored.next
  | syncFile dir name =>
    simp only [act] at hact
    split at hact
    · cases hact
      exact hrefl.next
    · exact apart_of_failing apart_stored hact
  | rename dir source target =>
    refine apart_of_failing ?_ hact
    split
    · exact hrefl
    · exact apart_stored
  | syncDir dir => exact apart_of_failing apart_stored hact
  | removeFile dir name =>
    refine apart_of_failing ?_ hact
    split
    · exact hrefl
    · exact apart_stored
  | flockExclusive path =>
    simp only [act] at hact
    split at hact
    · cases hact
      exact hrefl.next
    · split at hact
      · next hfree =>
        cases hact
        exact (apart_locked hfree).next
      · cases hact
  | tryFlockExclusive path =>
    simp only [act] at hact
    split at hact
    · cases hact
      exact hrefl.next
    · split at hact
      · next hfree =>
        cases hact
        exact (apart_locked hfree).next
      · cases hact
        exact hrefl.next
  | funlock path =>
    cases hact
    exact apart_unlocked.next
  | systemTime =>
    cases hact
    exact hrefl.next
  | processId =>
    cases hact
    exact hrefl.next
  | nextId =>
    cases hact
    exact ⟨hrefl.handle, hrefl.locks⟩
  | call x =>
    cases hact
    exact hrefl.next

end Apart

/-! ### What each operation can do -/

section Cases

variable {w w' : Kernel C X R S} {s : S} {who : S → Process} {dir name source target path : String}

theorem cases_openFile {a : Except IoError (Option C)} (hact : act who s (.openFile dir name) w = some (a, w')) :
    ((∃ e, a = .error e) ∧ w' = w.next) ∨ ∃ n, w.store.inode dir name = some n ∧ a = .ok (w.store.content n) ∧
      w' = (w.opened s ⟨dir, name, n⟩).next := by
  simp only [act] at hact
  cases hname : w.store.inode dir name with
  | none =>
    rw [hname] at hact
    rcases cases_of_failing hact with h | ⟨ha, hw⟩
    · exact .inl h
    · exact .inl ⟨⟨_, ha⟩, hw⟩
  | some n =>
    rw [hname] at hact
    rcases cases_of_failing hact with h | ⟨ha, hw⟩
    · exact .inl h
    · exact .inr ⟨n, rfl, ha, hw⟩

theorem cases_createFile {a : Except IoError Unit} (hact : act who s (.createFile dir name) w = some (a, w')) :
    ((∃ e, a = .error e) ∧ w' = w.next) ∨
      (w.store.inode dir name = none ∧ a = .ok () ∧
        w' = ((w.stored (w.store.create s dir name)).opened s ⟨dir, name, w.store.fresh⟩).next) ∨
      ∃ n, w.store.inode dir name = some n ∧ a = .ok () ∧
        w' = ((w.stored (w.store.write n none)).opened s ⟨dir, name, n⟩).next := by
  simp only [act] at hact
  cases hname : w.store.inode dir name with
  | none =>
    rw [hname] at hact
    rcases cases_of_failing hact with h | ⟨ha, hw⟩
    · exact .inl h
    · exact .inr (.inl ⟨rfl, ha, hw⟩)
  | some n =>
    rw [hname] at hact
    rcases cases_of_failing hact with h | ⟨ha, hw⟩
    · exact .inl h
    · exact .inr (.inr ⟨n, rfl, ha, hw⟩)

theorem cases_writeAll {content : C} {h : Handle} {a : Except IoError Unit} (hh : w.handle s = some h)
    (hact : act who s (.writeAll dir name content) w = some (a, w')) :
    ((∃ e, a = .error e) ∧ w' = (w.stored (w.store.write h.inode none)).next) ∨
      (a = .ok () ∧ w' = (w.stored (w.store.write h.inode (some content))).next) := by
  simp only [act, hh] at hact
  cases hfault : w.event.fault with
  | none =>
    rw [hfault] at hact
    cases hact
    exact .inr ⟨rfl, rfl⟩
  | some errno =>
    rw [hfault] at hact
    cases hact
    exact .inl ⟨⟨_, rfl⟩, rfl⟩

theorem cases_syncFile {h : Handle} {a : Except IoError Unit} (hh : w.handle s = some h)
    (hact : act who s (.syncFile dir name) w = some (a, w')) :
    ((∃ e, a = .error e) ∧ w' = w.next) ∨ (a = .ok () ∧ w' = (w.stored (w.store.sync h.inode)).next) := by
  simp only [act, hh] at hact
  exact cases_of_failing hact

theorem cases_rename {a : Except IoError Unit} (hact : act who s (.rename dir source target) w = some (a, w')) :
    ((∃ e, a = .error e) ∧ w' = w.next) ∨ ∃ n, w.store.inode dir source = some n ∧ a = .ok () ∧
      w' = (w.stored (w.store.change s dir (.move source target n))).next := by
  simp only [act] at hact
  cases hname : w.store.inode dir source with
  | none =>
    rw [hname] at hact
    rcases cases_of_failing hact with h | ⟨ha, hw⟩
    · exact .inl h
    · exact .inl ⟨⟨_, ha⟩, hw⟩
  | some n =>
    rw [hname] at hact
    rcases cases_of_failing hact with h | ⟨ha, hw⟩
    · exact .inl h
    · exact .inr ⟨n, rfl, ha, hw⟩

theorem cases_syncDir {a : Except IoError Unit} (hact : act who s (.syncDir dir) w = some (a, w')) :
    ((∃ e, a = .error e) ∧ w' = w.next) ∨ (a = .ok () ∧ w' = (w.stored (w.store.syncDir dir)).next) :=
  cases_of_failing hact

theorem cases_removeFile {a : Except IoError Unit} (hact : act who s (.removeFile dir name) w = some (a, w')) :
    ((∃ errno, a = .error (.other errno)) ∧ w' = w.next) ∨
      (w.store.inode dir name = none ∧ a = .error .notFound ∧ w' = w.next) ∨
      ∃ n, w.store.inode dir name = some n ∧ a = .ok () ∧
        w' = (w.stored (w.store.change s dir (.unlink name n))).next := by
  simp only [act, failing] at hact
  split at hact
  · cases hact
    exact .inl ⟨⟨_, rfl⟩, rfl⟩
  · cases hname : w.store.inode dir name with
    | none =>
      rw [hname] at hact
      cases hact
      exact .inr (.inl ⟨rfl, rfl, rfl⟩)
    | some n =>
      rw [hname] at hact
      cases hact
      exact .inr (.inr ⟨n, rfl, rfl, rfl⟩)

theorem cases_flockExclusive {a : Except IoError Unit} (hact : act who s (.flockExclusive path) w = some (a, w')) :
    ((∃ e, a = .error e) ∧ w' = w.next) ∨ (a = .ok () ∧ w' = (w.locked s (w.lockOn s path)).next) := by
  simp only [act] at hact
  split at hact
  · cases hact
    exact .inl ⟨⟨_, rfl⟩, rfl⟩
  · split at hact
    · cases hact
      exact .inr ⟨rfl, rfl⟩
    · cases hact

theorem cases_tryFlockExclusive {a : Except IoError Bool}
    (hact : act who s (.tryFlockExclusive path) w = some (a, w')) :
    (a ≠ .ok true ∧ w' = w.next) ∨ (a = .ok true ∧ w' = (w.locked s (w.lockOn s path)).next) := by
  simp only [act] at hact
  split at hact
  · cases hact
    exact .inl ⟨by simp, rfl⟩
  · split at hact
    · cases hact
      exact .inr ⟨rfl, rfl⟩
    · cases hact
      exact .inl ⟨by simp, rfl⟩

omit [DecidableEq S] in
theorem log_of_failing {r : Except IoError α × Kernel C X R S} {a : Except IoError α} {e : Logged S}
    (hact : failing w r = some (a, w')) (hlog : w'.store.log = e :: w.store.log) :
    r.2.store.log = e :: w.store.log := by
  rcases cases_of_failing hact with ⟨-, rfl⟩ | ⟨-, rfl⟩
  · exact absurd hlog List.ne_cons_self
  · exact hlog

/-- Only renaming gives a new name to a file that has one. -/
theorem eq_rename_of_act {o : Op C X} {a : Ans C X R o} (hact : act who s o w = some (a, w')) {t : S} {n : Inode}
    (hlog : w'.store.log = ⟨t, dir, .move source target n⟩ :: w.store.log) : o = .rename dir source target := by
  have hself : ∀ {e : Logged S}, w.store.log ≠ e :: w.store.log := List.ne_cons_self
  cases o with
  | readDir dir => exact absurd (log_of_failing hact hlog) hself
  | pathExists dir name =>
    cases hact
    exact absurd hlog hself
  | openFile dir name =>
    replace hlog := log_of_failing hact hlog
    split at hlog
    · exact absurd hlog hself
    · exact absurd hlog hself
  | createFile dir name =>
    replace hlog := log_of_failing hact hlog
    split at hlog
    · cases (Logged.mk.inj (List.cons.inj hlog).1).2.2
    · exact absurd hlog hself
  | writeAll dir name content =>
    simp only [act] at hact
    split at hact
    · cases hact
      exact absurd hlog hself
    · cases hact
      exact absurd hlog hself
    · cases hact
      exact absurd hlog hself
  | syncFile dir name =>
    simp only [act] at hact
    split at hact
    · cases hact
      exact absurd hlog hself
    · exact absurd (log_of_failing hact hlog) hself
  | rename dir source target =>
    replace hlog := log_of_failing hact hlog
    split at hlog
    · exact absurd hlog hself
    · obtain ⟨-, rfl, hchange⟩ := Logged.mk.inj (List.cons.inj hlog).1
      obtain ⟨rfl, rfl, -⟩ := Change.move.inj hchange
      rfl
  | syncDir dir => exact absurd (log_of_failing hact hlog) hself
  | removeFile dir name =>
    replace hlog := log_of_failing hact hlog
    split at hlog
    · exact absurd hlog hself
    · cases (Logged.mk.inj (List.cons.inj hlog).1).2.2
  | flockExclusive path =>
    rcases cases_flockExclusive hact with ⟨-, rfl⟩ | ⟨-, rfl⟩
    · exact absurd hlog hself
    · exact absurd hlog hself
  | tryFlockExclusive path =>
    rcases cases_tryFlockExclusive hact with ⟨-, rfl⟩ | ⟨-, rfl⟩
    · exact absurd hlog hself
    · exact absurd hlog hself
  | funlock path =>
    cases hact
    exact absurd hlog hself
  | systemTime =>
    cases hact
    exact absurd hlog hself
  | processId =>
    cases hact
    exact absurd hlog hself
  | nextId =>
    cases hact
    exact absurd hlog hself
  | call x =>
    cases hact
    exact absurd hlog hself

end Cases

/-! ### Loss of power -/

/-- What is found after a loss of power: no session, the directories as they may be, and the files that have been
synced. -/
structure Recovers (w w' : Kernel C X R S) : Prop where
  /-- Each directory is found in one of the states that are possible. -/
  durable : ∀ dir, (w.store.folders dir).May (w'.store.folders dir).durable
  /-- The directories are what is on the disk. -/
  pending : ∀ dir, (w'.store.folders dir).pending = []
  /-- Data that has been synced is still there. -/
  content : ∀ n, w.store.synced n = true → w'.store.content n = w.store.content n
  /-- Data that has not been synced can still get lost. -/
  synced : w'.store.synced = w.store.synced
  /-- New files are new. -/
  fresh : w'.store.fresh = w.store.fresh
  /-- The log. -/
  log : w'.store.log = w.store.log
  /-- No file is open. -/
  handle : ∀ s, w'.handle s = none
  /-- There are no locks. -/
  locks : ∀ x, w'.locks x = none

end Kernel

end Evobench.IoUtils

import Evobench.Library.Program
import Mathlib.Data.List.AList
import Mathlib.Logic.Function.Basic

/-!
# The operating system below the tools

The tools keep their queues and tables as directories of small files, lock directories and files with
`flock`, and read the system clock. This module is the machine that their programs run on.

## The model

* `World.dirs`: the directories by path, each a finite map from file names to contents. A file whose
  writing has not been completed has no content (`none`).
* `World.locks`: which process holds the exclusive `flock` on a path. Locking again through the same
  open file is a no-op, and one unlock releases the lock (`Op.flockExclusive`, `Op.funlock`).
* `World.env`: what the outside does at each operation: the clock reading, whether the operation
  fails, and the answers to calls out of the model (running a benchmark, a command, git).
* `World.entries`: what is left of the disk when the temporary files (a leading dot) are ignored.

## What is proved

`Disk.entries` under each change of a file (`Disk.entries_put`, `Disk.entries_erase`, and
`Disk.entries_put_tmp` for temporary files), and for each system call the rule by which a program that
starts with it is verified (`safe_*`).

## Honest scope

A fault makes the operation fail without effect, except that a failed write leaves an incomplete file.
`pathExists` and `funlock` have no error path in the source and are not subject to faults. Durability
after a crash of the whole computer (what `fsync` is for) is not part of this state.
-/

namespace Evobench.IoUtils

open Library

/-! ### Operations -/

/-- `std::io::Error`, as far as the tools look at it. -/
inductive IoError where
  /-- `ErrorKind::NotFound` -/
  | notFound
  /-- Any other error. -/
  | other (errno : ℕ)
deriving DecidableEq, Repr

/-- A reading of the system clock: nanoseconds since the UNIX epoch, whose seconds are an `i64`. -/
structure SystemTime where
  /-- Nanoseconds since the epoch, negative before it. -/
  nanos : ℤ
  /-- The seconds fit an `i64`. -/
  range : -(2 ^ 63) * 1000000000 ≤ nanos ∧ nanos < 2 ^ 63 * 1000000000
deriving DecidableEq

/-- `UNIX_EPOCH` -/
def SystemTime.epoch : SystemTime := ⟨0, by decide⟩

/-- A process id. -/
abbrev Pid := UInt32

/-- The operations, for files with contents in `C` and outside calls in `X`. -/
inductive Op (C X : Type) where
  /-- `read_dir`: the names of the files in a directory, in no particular order -/
  | readDir (dir : String)
  /-- `Path::exists` -/
  | pathExists (dir name : String)
  /-- `File::open`, with what reading the file will give -/
  | openFile (dir name : String)
  /-- `File::create`: an empty file, also if there was one -/
  | createFile (dir name : String)
  /-- `write_all` of the whole content -/
  | writeAll (dir name : String) (content : C)
  /-- `flush` and `sync_all` on a file -/
  | syncFile (dir name : String)
  /-- `rename` within a directory, replacing the target -/
  | rename (dir source target : String)
  /-- `sync_all` on a directory -/
  | syncDir (dir : String)
  /-- `remove_file` -/
  | removeFile (dir name : String)
  /-- `flock(LOCK_EX)` on the file or directory at a path -/
  | flockExclusive (path : String)
  /-- The same without waiting -/
  | tryFlockExclusive (path : String)
  /-- `flock(LOCK_UN)` -/
  | funlock (path : String)
  /-- `SystemTime::now` -/
  | systemTime
  /-- `std::process::id` -/
  | processId
  /-- `fetch_add` on the counter of `next_id` -/
  | nextId
  /-- A call out of the model. -/
  | call (x : X)

/-- The answer to an operation; a call `x` is answered in `R x`. -/
def Ans (C X : Type) (R : X → Type) : Op C X → Type
  | .readDir _ => Except IoError (List String)
  | .pathExists _ _ => Bool
  | .openFile _ _ => Except IoError (Option C)
  | .createFile _ _ => Except IoError Unit
  | .writeAll _ _ _ => Except IoError Unit
  | .syncFile _ _ => Except IoError Unit
  | .rename _ _ _ => Except IoError Unit
  | .syncDir _ => Except IoError Unit
  | .removeFile _ _ => Except IoError Unit
  | .flockExclusive _ => Except IoError Unit
  | .tryFlockExclusive _ => Except IoError Bool
  | .funlock _ => Unit
  | .systemTime => SystemTime
  | .processId => Pid
  | .nextId => UInt64
  | .call x => R x

/-- A program of the tools, with errors in `ε`. -/
abbrev Tool (C X : Type) (R : X → Type) (ε α : Type) := Prog (Op C X) (Ans C X R) ε α

/-! ### The disk -/

/-- A directory: its files by name, `none` for a file that has not been written completely. -/
abbrev Dir (C : Type) := AList fun _ : String => Option C

/-- The directories by path. -/
abbrev Disk (C : Type) := String → Dir C

/-- Files by directory and name. -/
abbrev Entries (C : Type) := String × String → Option (Option C)

variable {C X : Type} {R : X → Type} {ε α : Type}

/-- File names with a leading dot are temporary files. -/
def isTmp (name : String) : Bool := name.toList.head? == some '.'

theorem isTmp_dot (name : String) : isTmp ("." ++ name) = true := by simp [isTmp]

namespace Disk

/-- The file of a name in a directory. -/
def file (d : Disk C) (dir name : String) : Option (Option C) := (d dir).lookup name

/-- Put a file into a directory. -/
def put (d : Disk C) (dir name : String) (content : Option C) : Disk C :=
  Function.update d dir ((d dir).insert name content)

/-- Take a file out of a directory. -/
def erase (d : Disk C) (dir name : String) : Disk C := Function.update d dir ((d dir).erase name)

/-- The files by directory and name, without the temporary ones. -/
def entries (d : Disk C) : Entries C :=
  fun p => if isTmp p.2 then none else d.file p.1 p.2

theorem file_put (d : Disk C) (dir name : String) (content : Option C) (dir' name' : String) :
    (d.put dir name content).file dir' name' =
      if dir' = dir ∧ name' = name then some content else d.file dir' name' := by
  by_cases hd : dir' = dir
  · subst hd
    by_cases hn : name' = name
    · subst hn
      simp [file, put]
    · simp [file, put, hn]
  · simp [file, put, hd]

theorem file_erase (d : Disk C) (dir name : String) (dir' name' : String) :
    (d.erase dir name).file dir' name' = if dir' = dir ∧ name' = name then none else d.file dir' name' := by
  by_cases hd : dir' = dir
  · subst hd
    by_cases hn : name' = name
    · subst hn
      simp [file, erase]
    · simp [file, erase, hn]
  · simp [file, erase, hd]

@[simp] theorem file_put_self (d : Disk C) (dir name : String) (content : Option C) :
    (d.put dir name content).file dir name = some content := by
  simp [file_put]

theorem entries_eq_file {d : Disk C} {dir name : String} (h : isTmp name = false) :
    d.entries (dir, name) = d.file dir name := by
  simp [entries, h]

theorem entries_put {d : Disk C} {dir name : String} {content : Option C} (h : isTmp name = false) :
    (d.put dir name content).entries = Function.update d.entries (dir, name) (some content) := by
  funext p
  obtain ⟨dir', name'⟩ := p
  simp only [entries, file_put, Function.update_apply, Prod.mk.injEq]
  by_cases hp : dir' = dir ∧ name' = name
  · simp [hp, h]
  · simp [hp]

theorem entries_erase (d : Disk C) (dir name : String) :
    (d.erase dir name).entries = Function.update d.entries (dir, name) none := by
  funext p
  obtain ⟨dir', name'⟩ := p
  simp only [entries, file_erase, Function.update_apply, Prod.mk.injEq]
  by_cases hp : dir' = dir ∧ name' = name
  · simp [hp]
  · simp [hp]

/-- Temporary files are not seen. -/
theorem entries_put_tmp {d : Disk C} {dir name : String} {content : Option C} (h : isTmp name = true) :
    (d.put dir name content).entries = d.entries := by
  funext p
  simp only [entries, file_put]
  split_ifs with hp hn
  · rfl
  · rw [hn.2] at hp
    exact absurd h hp
  · rfl

theorem entries_erase_tmp {d : Disk C} {dir name : String} (h : isTmp name = true) :
    (d.erase dir name).entries = d.entries := by
  rw [entries_erase, Function.update_eq_self_iff]
  simp [entries, h]

end Disk

/-! ### The machine -/

/-- What the outside does at one operation. -/
structure Event (X : Type) (R : X → Type) where
  /-- The clock reading. -/
  now : SystemTime
  /-- The error with which the operation fails, if it does. -/
  fault : Option ℕ
  /-- The answers to calls. -/
  answer : (x : X) → R x

/-- The state of the machine. -/
structure World (C X : Type) (R : X → Type) where
  /-- The files. -/
  disk : Disk C
  /-- The holder of the exclusive lock on each path. -/
  locks : String → Option Pid
  /-- What the outside will do, operation after operation. -/
  env : ℕ → Event X R
  /-- The number of operations so far. -/
  tick : ℕ
  /-- The counter of `next_id` in each process. -/
  ids : Pid → UInt64
  /-- The outside calls made so far with their answers, the latest one first. -/
  calls : List (Σ x : X, R x)

namespace World

/-- The outside's behaviour at the operation that comes next. -/
def event (w : World C X R) : Event X R := w.env w.tick

/-- Go on to the next operation, with a new disk. -/
def next (w : World C X R) (d : Disk C) : World C X R := { w with tick := w.tick + 1, disk := d }

/-- Between `w` and `w'` the disk has become `d`, and no outside call was made. -/
structure Goes (w : World C X R) (d : Disk C) (w' : World C X R) : Prop where
  /-- The disk afterwards. -/
  disk : w'.disk = d
  /-- No calls. -/
  calls : w'.calls = w.calls
  /-- The outside does what it was going to do. -/
  env : w'.env = w.env
  /-- Time moves forward. -/
  tick : w.tick ≤ w'.tick

/-- The same, looking at the visible files only. -/
structure Leads (w : World C X R) (e : Entries C) (w' : World C X R) : Prop where
  /-- The visible files afterwards. -/
  entries : w'.disk.entries = e
  /-- No calls. -/
  calls : w'.calls = w.calls
  /-- The outside does what it was going to do. -/
  env : w'.env = w.env
  /-- Time moves forward. -/
  tick : w.tick ≤ w'.tick

/-- Between `w` and `w'` the outside calls `cs` were made (the latest one first), and the visible files have
become `e`. -/
structure Reaches (w : World C X R) (cs : List (Σ x : X, R x)) (e : Entries C) (w' : World C X R) : Prop where
  /-- The visible files afterwards. -/
  entries : w'.disk.entries = e
  /-- The calls made. -/
  calls : w'.calls = cs ++ w.calls
  /-- The outside does what it was going to do. -/
  env : w'.env = w.env
  /-- Time moves forward. -/
  tick : w.tick ≤ w'.tick

theorem goes_next (w : World C X R) (d : Disk C) : w.Goes d (w.next d) := ⟨rfl, rfl, rfl, Nat.le_succ _⟩

theorem Goes.refl (w : World C X R) : w.Goes w.disk w := ⟨rfl, rfl, rfl, le_rfl⟩

/-- Nothing has been done to the disk in between. -/
theorem Goes.same {w w₁ w₂ : World C X R} (h₁ : w.Goes w.disk w₁) (h₂ : w₁.Goes w₁.disk w₂) : w.Goes w.disk w₂ :=
  ⟨h₂.disk.trans h₁.disk, h₂.calls.trans h₁.calls, h₂.env.trans h₁.env, Nat.le_trans h₁.tick h₂.tick⟩

theorem Goes.leads {w w' : World C X R} {d : Disk C} (h : w.Goes d w') : w.Leads d.entries w' :=
  ⟨by rw [h.disk], h.calls, h.env, h.tick⟩

theorem Leads.refl (w : World C X R) : w.Leads w.disk.entries w := ⟨rfl, rfl, rfl, le_rfl⟩

theorem Leads.trans {w w₁ w₂ : World C X R} {e₁ e₂ : Entries C} (h₁ : w.Leads e₁ w₁) (h₂ : w₁.Leads e₂ w₂) :
    w.Leads e₂ w₂ :=
  ⟨h₂.entries, h₂.calls.trans h₁.calls, h₂.env.trans h₁.env, Nat.le_trans h₁.tick h₂.tick⟩

theorem Reaches.refl (w : World C X R) : w.Reaches [] w.disk.entries w := ⟨rfl, rfl, rfl, le_rfl⟩

theorem Leads.reaches {w w' : World C X R} {e : Entries C} (h : w.Leads e w') : w.Reaches [] e w' :=
  ⟨h.entries, h.calls, h.env, h.tick⟩

theorem Reaches.leads {w w₁ w₂ : World C X R} {cs : List (Σ x : X, R x)} {e₁ e₂ : Entries C}
    (h₁ : w.Reaches cs e₁ w₁) (h₂ : w₁.Leads e₂ w₂) : w.Reaches cs e₂ w₂ :=
  ⟨h₂.entries, h₂.calls.trans h₁.calls, h₂.env.trans h₁.env, Nat.le_trans h₁.tick h₂.tick⟩

/-- Nothing has been done to the visible files. -/
theorem Reaches.same {w w₁ w₂ : World C X R} {cs : List (Σ x : X, R x)} {e : Entries C}
    (h₁ : w.Reaches cs e w₁) (h₂ : w₁.Leads w₁.disk.entries w₂) : w.Reaches cs e w₂ :=
  h₁.leads (h₁.entries ▸ h₂)

/-- Steps that do nothing to the visible files may come first. -/
theorem Leads.through {w w₁ w₂ : World C X R} {cs : List (Σ x : X, R x)} {e e' : Entries C}
    (h₁ : w.Leads e w₁) (h₂ : w₁.Reaches cs e' w₂) : w.Reaches cs e' w₂ :=
  ⟨h₂.entries, h₂.calls.trans (by rw [h₁.calls]), h₂.env.trans h₁.env, Nat.le_trans h₁.tick h₂.tick⟩

end World

/-- An operation that can fail: the fault of the moment, or else its answer and its effect on the disk. -/
def failing (w : World C X R) (k : Except IoError α × Disk C) : Option (Except IoError α × World C X R) :=
  match w.event.fault with
  | some errno => some (.error (.other errno), w.next w.disk)
  | none => some (k.1, w.next k.2)

/-- The effect of an operation of process `pid`. -/
def act (pid : Pid) : (o : Op C X) → World C X R → Option (Ans C X R o × World C X R)
  | .readDir dir, w => failing w (.ok (w.disk dir).keys, w.disk)
  | .pathExists dir name, w => some ((w.disk.file dir name).isSome, w.next w.disk)
  | .openFile dir name, w => failing w <|
      match w.disk.file dir name with
      | none => (.error .notFound, w.disk)
      | some content => (.ok content, w.disk)
  | .createFile dir name, w => failing w (.ok (), w.disk.put dir name none)
  | .writeAll dir name content, w =>
      match w.event.fault with
      | some errno => some (.error (.other errno), w.next (w.disk.put dir name none))
      | none => some (.ok (), w.next (w.disk.put dir name (some content)))
  | .syncFile _ _, w => failing w (.ok (), w.disk)
  | .rename dir source target, w => failing w <|
      match w.disk.file dir source with
      | none => (.error .notFound, w.disk)
      | some content => (.ok (), (w.disk.erase dir source).put dir target content)
  | .syncDir _, w => failing w (.ok (), w.disk)
  | .removeFile dir name, w => failing w <|
      match w.disk.file dir name with
      | none => (.error .notFound, w.disk)
      | some _ => (.ok (), w.disk.erase dir name)
  | .flockExclusive path, w =>
      match w.event.fault with
      | some errno => some (.error (.other errno), w.next w.disk)
      | none =>
        -- another process's lock has to be waited for; the own one is granted again
        if w.locks path = none ∨ w.locks path = some pid then
          some (.ok (), { w.next w.disk with locks := Function.update w.locks path (some pid) })
        else none
  | .tryFlockExclusive path, w =>
      match w.event.fault with
      | some errno => some (.error (.other errno), w.next w.disk)
      | none =>
        if w.locks path = none ∨ w.locks path = some pid then
          some (.ok true, { w.next w.disk with locks := Function.update w.locks path (some pid) })
        else some (.ok false, w.next w.disk)
  | .funlock path, w =>
      some ((), { w.next w.disk with
        locks := if w.locks path = some pid then Function.update w.locks path none else w.locks })
  | .systemTime, w => some (w.event.now, w.next w.disk)
  | .processId, w => some (pid, w.next w.disk)
  | .nextId, w => some (w.ids pid, { w.next w.disk with ids := Function.update w.ids pid (w.ids pid + 1) })
  | .call x, w => some (w.event.answer x, { w.next w.disk with calls := ⟨x, w.event.answer x⟩ :: w.calls })

/-- The machine as one process sees it. -/
def machine (pid : Pid) : Machine (Op C X) (Ans C X R) (World C X R) := ⟨act pid⟩

/-- Operations only move forward in what the outside does. -/
theorem act_env {pid : Pid} {o : Op C X} {w w' : World C X R} {x : Ans C X R o}
    (h : act pid o w = some (x, w')) : w'.env = w.env ∧ w'.tick = w.tick + 1 := by
  cases o <;> simp only [act, failing] at h <;> (try split at h) <;> (try split at h) <;>
    simp_all [World.next] <;> (obtain ⟨-, rfl⟩ := h; exact ⟨rfl, rfl⟩)

/-- Runs of programs only move forward in what the outside does. -/
theorem later_of_run {pid : Pid} {p : Tool C X R ε α} {w w' : World C X R} {r : Outcome ε α}
    (h : p.run (machine pid) w = some (r, w')) : w'.env = w.env ∧ w.tick ≤ w'.tick := by
  have hlater := Prog.holds_of_act (m := machine pid) (I := fun v : World C X R => v.env = w.env ∧ w.tick ≤ v.tick)
    (fun o v x v' hact hv => ?_) p ⟨rfl, le_rfl⟩
  · exact ((Prog.holds_iff p).1 hlater).2 r w' h
  · obtain ⟨henv, htick⟩ := act_env hact
    exact ⟨henv.trans hv.1, by omega⟩

/-! ### System calls as programs -/

namespace Sys

/-- `read_dir` -/
def readDir (dir : String) : Tool C X R IoError (List String) :=
  Prog.op (.readDir dir) Prog.ofExcept

/-- `Path::exists` -/
def pathExists (dir name : String) : Tool C X R ε Bool := Prog.op (.pathExists dir name) Prog.ret

/-- `File::open` -/
def openFile (dir name : String) : Tool C X R IoError (Option C) :=
  Prog.op (.openFile dir name) Prog.ofExcept

/-- `File::create` -/
def createFile (dir name : String) : Tool C X R IoError Unit :=
  Prog.op (.createFile dir name) Prog.ofExcept

/-- `write_all` -/
def writeAll (dir name : String) (content : C) : Tool C X R IoError Unit :=
  Prog.op (.writeAll dir name content) Prog.ofExcept

/-- `flush` and `sync_all` on a file -/
def syncFile (dir name : String) : Tool C X R IoError Unit := Prog.op (.syncFile dir name) Prog.ofExcept

/-- `rename` -/
def rename (dir source target : String) : Tool C X R IoError Unit :=
  Prog.op (.rename dir source target) Prog.ofExcept

/-- `sync_all` on a directory -/
def syncDir (dir : String) : Tool C X R IoError Unit := Prog.op (.syncDir dir) Prog.ofExcept

/-- `remove_file` -/
def removeFile (dir name : String) : Tool C X R IoError Unit :=
  Prog.op (.removeFile dir name) Prog.ofExcept

/-- `flock(LOCK_EX)` -/
def flockExclusive (path : String) : Tool C X R IoError Unit :=
  Prog.op (.flockExclusive path) Prog.ofExcept

/-- `flock(LOCK_EX | LOCK_NB)`: whether the lock was free -/
def tryFlockExclusive (path : String) : Tool C X R IoError Bool :=
  Prog.op (.tryFlockExclusive path) Prog.ofExcept

/-- Run a program while a lock guard on `path` is alive. -/
def withLock (path : String) (p : Tool C X R ε α) : Tool C X R ε α := p.finally_ (.funlock path)

/-- `SystemTime::now` -/
def systemTime : Tool C X R ε SystemTime := Prog.op .systemTime Prog.ret

/-- `std::process::id` -/
def processId : Tool C X R ε Pid := Prog.op .processId Prog.ret

/-- `fetch_add` on the id counter -/
def nextId : Tool C X R ε UInt64 := Prog.op .nextId Prog.ret

/-- A call out of the model -/
def call (x : X) : Tool C X R ε (R x) := Prog.op (.call x) Prog.ret

end Sys

/-! ### Rules for the system calls

For each call: what has to hold of the states that it can lead to. -/

section Rules

variable {pid : Pid} {I : World C X R → Prop} {w : World C X R}

/-- `Holds` on this machine. -/
abbrev Safe (pid : Pid) (I : World C X R → Prop) (Q : Outcome ε α → World C X R → Prop) (p : Tool C X R ε α)
    (w : World C X R) : Prop :=
  Prog.Holds (machine pid) I Q p w

/-- An operation takes time. -/
theorem safe_op_later {Q : Outcome ε α → World C X R → Prop}
    {o : Op C X} {k : Ans C X R o → Tool C X R ε α} (h : Safe pid I Q (.op o k) w) :
    Safe pid I (fun r v => Q r v ∧ w.tick < v.tick) (.op o k) w := by
  obtain ⟨hI, hQ⟩ := (Prog.holds_iff _).1 h
  refine (Prog.holds_iff _).2 ⟨hI, fun r v hrun => ⟨hQ r v hrun, ?_⟩⟩
  obtain ⟨⟨x, u⟩, hact, hrest⟩ := Option.bind_eq_some_iff.1 hrun
  have htick : u.tick = w.tick + 1 := (act_env hact).2
  have hlater : u.tick ≤ v.tick := (later_of_run hrest).2
  omega

/-- After an operation that can fail. -/
theorem safe_of_failing {Q : Outcome IoError α → World C X R → Prop} {k : Except IoError α × Disk C}
    {x : Except IoError α} {w' : World C X R} (hx : failing w k = some (x, w'))
    (hsame : ∀ w', w.Goes w.disk w' → I w') (hI : ∀ w', w.Goes k.2 w' → I w')
    (herr : ∀ errno w', w.Goes w.disk w' → Q (.err (.other errno)) w')
    (hk : ∀ w', w.Goes k.2 w' → match k.1 with
      | .ok a => Q (.ok a) w'
      | .error e => Q (.err e) w') :
    Safe pid I Q (Prog.ofExcept x) w' := by
  obtain ⟨answer, d⟩ := k
  cases hf : w.event.fault with
  | some errno =>
    simp only [failing, hf, Option.some.injEq, Prod.mk.injEq] at hx
    obtain ⟨rfl, rfl⟩ := hx
    exact ⟨hsame _ (w.goes_next _), herr errno _ (w.goes_next _)⟩
  | none =>
    simp only [failing, hf, Option.some.injEq, Prod.mk.injEq] at hx
    obtain ⟨rfl, rfl⟩ := hx
    cases answer with
    | ok a => exact ⟨hI _ (w.goes_next _), hk _ (w.goes_next _)⟩
    | error e => exact ⟨hI _ (w.goes_next _), hk _ (w.goes_next _)⟩

theorem safe_readDir {Q : Outcome IoError (List String) → World C X R → Prop} {dir : String} (h0 : I w)
    (hsame : ∀ w', w.Goes w.disk w' → I w') (herr : ∀ e w', w.Goes w.disk w' → Q (.err e) w')
    (hok : ∀ w', w.Goes w.disk w' → Q (.ok (w.disk dir).keys) w') : Safe pid I Q (Sys.readDir dir) w :=
  ⟨h0, fun _ _ hx => safe_of_failing hx hsame hsame (fun _ => herr _) hok⟩

theorem safe_pathExists {Q : Outcome ε Bool → World C X R → Prop} {dir name : String} (h0 : I w)
    (hsame : ∀ w', w.Goes w.disk w' → I w')
    (hok : ∀ w', w.Goes w.disk w' → Q (.ok (w.disk.file dir name).isSome) w') :
    Safe pid I Q (Sys.pathExists dir name) w := by
  refine ⟨h0, fun x w' hx => ?_⟩
  obtain ⟨rfl, rfl⟩ := Prod.mk.inj (Option.some.inj hx)
  exact ⟨hsame _ (w.goes_next _), hok _ (w.goes_next _)⟩

theorem safe_openFile {Q : Outcome IoError (Option C) → World C X R → Prop} {dir name : String} (h0 : I w)
    (hsame : ∀ w', w.Goes w.disk w' → I w')
    (hmissing : w.disk.file dir name = none → ∀ w', w.Goes w.disk w' → Q (.err .notFound) w')
    (herr : ∀ errno w', w.Goes w.disk w' → Q (.err (.other errno)) w')
    (hok : ∀ content, w.disk.file dir name = some content → ∀ w', w.Goes w.disk w' → Q (.ok content) w') :
    Safe pid I Q (Sys.openFile dir name) w := by
  refine ⟨h0, fun x w' hx => ?_⟩
  cases hfile : w.disk.file dir name with
  | none =>
    simp only [machine, act, hfile] at hx
    exact safe_of_failing hx hsame hsame herr (hmissing hfile)
  | some content =>
    simp only [machine, act, hfile] at hx
    exact safe_of_failing hx hsame hsame herr (hok content hfile)

theorem safe_createFile {Q : Outcome IoError Unit → World C X R → Prop} {dir name : String} (h0 : I w)
    (hsame : ∀ w', w.Goes w.disk w' → I w') (hI : ∀ w', w.Goes (w.disk.put dir name none) w' → I w')
    (herr : ∀ e w', w.Goes w.disk w' → Q (.err e) w')
    (hok : ∀ w', w.Goes (w.disk.put dir name none) w' → Q (.ok ()) w') :
    Safe pid I Q (Sys.createFile dir name) w :=
  ⟨h0, fun _ _ hx => safe_of_failing hx hsame hI (fun _ => herr _) hok⟩

theorem safe_writeAll {Q : Outcome IoError Unit → World C X R → Prop} {dir name : String} {content : C} (h0 : I w)
    (hI : ∀ c w', w.Goes (w.disk.put dir name c) w' → I w')
    (herr : ∀ e w', w.Goes (w.disk.put dir name none) w' → Q (.err e) w')
    (hok : ∀ w', w.Goes (w.disk.put dir name (some content)) w' → Q (.ok ()) w') :
    Safe pid I Q (Sys.writeAll dir name content) w := by
  refine ⟨h0, fun x w' hx => ?_⟩
  cases hf : w.event.fault with
  | some errno =>
    simp only [machine, act, hf, Option.some.injEq] at hx
    obtain ⟨rfl, rfl⟩ := hx
    exact ⟨hI _ _ (w.goes_next _), herr _ _ (w.goes_next _)⟩
  | none =>
    simp only [machine, act, hf, Option.some.injEq] at hx
    obtain ⟨rfl, rfl⟩ := hx
    exact ⟨hI _ _ (w.goes_next _), hok _ (w.goes_next _)⟩

theorem safe_syncFile {Q : Outcome IoError Unit → World C X R → Prop} {dir name : String} (h0 : I w)
    (hsame : ∀ w', w.Goes w.disk w' → I w') (herr : ∀ e w', w.Goes w.disk w' → Q (.err e) w')
    (hok : ∀ w', w.Goes w.disk w' → Q (.ok ()) w') : Safe pid I Q (Sys.syncFile dir name) w :=
  ⟨h0, fun _ _ hx => safe_of_failing hx hsame hsame (fun _ => herr _) hok⟩

theorem safe_syncDir {Q : Outcome IoError Unit → World C X R → Prop} {dir : String} (h0 : I w)
    (hsame : ∀ w', w.Goes w.disk w' → I w') (herr : ∀ e w', w.Goes w.disk w' → Q (.err e) w')
    (hok : ∀ w', w.Goes w.disk w' → Q (.ok ()) w') : Safe pid I Q (Sys.syncDir dir) w :=
  ⟨h0, fun _ _ hx => safe_of_failing hx hsame hsame (fun _ => herr _) hok⟩

/-- Renaming a file that is there. -/
theorem safe_rename {Q : Outcome IoError Unit → World C X R → Prop} {dir source target : String}
    {content : Option C} (hsource : w.disk.file dir source = some content) (h0 : I w)
    (hsame : ∀ w', w.Goes w.disk w' → I w')
    (hI : ∀ w', w.Goes ((w.disk.erase dir source).put dir target content) w' → I w')
    (herr : ∀ e w', w.Goes w.disk w' → Q (.err e) w')
    (hok : ∀ w', w.Goes ((w.disk.erase dir source).put dir target content) w' → Q (.ok ()) w') :
    Safe pid I Q (Sys.rename dir source target) w := by
  refine ⟨h0, fun x w' hx => ?_⟩
  simp only [machine, act, hsource] at hx
  exact safe_of_failing hx hsame hI (fun _ => herr _) hok

theorem safe_removeFile {Q : Outcome IoError Unit → World C X R → Prop} {dir name : String} (h0 : I w)
    (hsame : ∀ w', w.Goes w.disk w' → I w') (hI : ∀ w', w.Goes (w.disk.erase dir name) w' → I w')
    (hmissing : w.disk.file dir name = none → ∀ w', w.Goes w.disk w' → Q (.err .notFound) w')
    (herr : ∀ errno w', w.Goes w.disk w' → Q (.err (.other errno)) w')
    (hok : ∀ w', w.Goes (w.disk.erase dir name) w' → Q (.ok ()) w') :
    Safe pid I Q (Sys.removeFile dir name) w := by
  refine ⟨h0, fun x w' hx => ?_⟩
  cases hfile : w.disk.file dir name with
  | none =>
    simp only [machine, act, hfile] at hx
    exact safe_of_failing hx hsame hsame herr (hmissing hfile)
  | some content =>
    simp only [machine, act, hfile] at hx
    exact safe_of_failing hx hsame hI herr hok

theorem safe_flockExclusive {Q : Outcome IoError Unit → World C X R → Prop} {path : String} (h0 : I w)
    (hsame : ∀ w', w.Goes w.disk w' → I w') (herr : ∀ e w', w.Goes w.disk w' → Q (.err e) w')
    (hok : ∀ w', w.Goes w.disk w' → Q (.ok ()) w') : Safe pid I Q (Sys.flockExclusive path) w := by
  refine ⟨h0, fun x w' hx => ?_⟩
  cases hf : w.event.fault with
  | some errno =>
    simp only [machine, act, hf, Option.some.injEq] at hx
    obtain ⟨rfl, rfl⟩ := hx
    exact ⟨hsame _ (w.goes_next _), herr _ _ (w.goes_next _)⟩
  | none =>
    simp only [machine, act, hf] at hx
    split_ifs at hx with hfree
    simp only [Option.some.injEq] at hx
    obtain ⟨rfl, rfl⟩ := hx
    exact ⟨hsame _ ⟨rfl, rfl, rfl, Nat.le_succ _⟩, hok _ ⟨rfl, rfl, rfl, Nat.le_succ _⟩⟩

/-- Dropping a lock guard changes no file. -/
theorem safe_withLock {Q : Outcome ε α → World C X R → Prop} {path : String} {p : Tool C X R ε α}
    (h : Safe pid I (fun r t => ∀ w', t.Goes t.disk w' → I w' ∧ Q r w') p w) :
    Safe pid I Q (Sys.withLock path p) w := by
  refine Prog.holds_finally.2 (h.imp fun r t hr x w' hx => ?_)
  obtain ⟨-, rfl⟩ := Prod.mk.inj (Option.some.inj hx)
  exact hr _ ⟨rfl, rfl, rfl, Nat.le_succ _⟩

theorem safe_systemTime {Q : Outcome ε SystemTime → World C X R → Prop} (h0 : I w)
    (hsame : ∀ w', w.Goes w.disk w' → I w') (hok : ∀ w', w.Goes w.disk w' → Q (.ok w.event.now) w') :
    Safe pid I Q Sys.systemTime w := by
  refine ⟨h0, fun x w' hx => ?_⟩
  obtain ⟨rfl, rfl⟩ := Prod.mk.inj (Option.some.inj hx)
  exact ⟨hsame _ (w.goes_next _), hok _ (w.goes_next _)⟩

theorem safe_processId {Q : Outcome ε Pid → World C X R → Prop} (h0 : I w)
    (hsame : ∀ w', w.Goes w.disk w' → I w') (hok : ∀ w', w.Goes w.disk w' → Q (.ok pid) w') :
    Safe pid I Q Sys.processId w := by
  refine ⟨h0, fun x w' hx => ?_⟩
  obtain ⟨rfl, rfl⟩ := Prod.mk.inj (Option.some.inj hx)
  exact ⟨hsame _ (w.goes_next _), hok _ (w.goes_next _)⟩

theorem safe_nextId {Q : Outcome ε UInt64 → World C X R → Prop} (h0 : I w)
    (hsame : ∀ w', w.Goes w.disk w' → I w') (hok : ∀ id w', w.Goes w.disk w' → Q (.ok id) w') :
    Safe pid I Q Sys.nextId w := by
  refine ⟨h0, fun x w' hx => ?_⟩
  obtain ⟨rfl, rfl⟩ := Prod.mk.inj (Option.some.inj hx)
  exact ⟨hsame _ ⟨rfl, rfl, rfl, Nat.le_succ _⟩, hok _ _ ⟨rfl, rfl, rfl, Nat.le_succ _⟩⟩

/-- A call out of the model is recorded. -/
theorem safe_call {x : X} {Q : Outcome ε (R x) → World C X R → Prop} (h0 : I w)
    (hok : ∀ w', w.Reaches [⟨x, w.event.answer x⟩] w.disk.entries w' → I w' ∧ Q (.ok (w.event.answer x)) w') :
    Safe pid I Q (Sys.call x) w := by
  refine ⟨h0, fun y w' hx => ?_⟩
  obtain ⟨rfl, rfl⟩ := Prod.mk.inj (Option.some.inj hx)
  exact hok _ ⟨rfl, rfl, rfl, Nat.le_succ _⟩

end Rules

end Evobench.IoUtils

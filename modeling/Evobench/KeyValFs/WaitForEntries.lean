import Evobench.KeyValFs.CrashSafety
import Evobench.KeyValFs.Interference
import Evobench.KeyValFs.Items

/-!
# Waiting for entries

`wait_for_entries` opens the directory again and again until it finds a file in it. Any file will do, also a temporary one,
which an insertion makes before it renames it, and leaves behind when it is killed.

## The model

* `Users`: processes that insert and delete, one operation at a time, and can be killed at any moment. `Users.Among`: the
  same with somebody who looks on.
* `KeyVal.waitStep`: the loop of `wait_for_entries`, step by step.
* `Queue.itemsStep`: `Queue::items` with `wait`: it waits, lists the keys, goes through them, and begins again.

## What is proved

* `Users.Inv.lists_iff`: in every directory that comes about, keys are listed unless all files are temporary ones.
* `waits_unless_misled`: at the moment when waiting is over there is an entry, unless there are temporary files only; and
  while there is none, `items` goes on waiting, unless it is misled by a temporary file or by the time to stop at.

## Honest scope

A listing of the directory is one operation.
-/

namespace Evobench.KeyValFs

open Library IoUtils

variable {C X ι : Type} {R : X → Type} {K V : Type}

/-! ### Users of a table -/

/-- The locks of a process that is killed are free. -/
def freed (pid : Pid) (w : World C X R) : World C X R :=
  { w with locks := fun path => if w.locks path = some pid then none else w.locks path }

/-- Processes that use one table. -/
structure Users (K V ι : Type) where
  /-- The table. -/
  kv : KeyVal K V
  /-- The processes. -/
  pid : ι → Pid
  /-- Their calls. -/
  call : ι → TableCall K V

/-- The calls with what they have still to do. -/
abbrev UserPool (C X : Type) (R : X → Type) (ι : Type) := Pool ι (Op C X) (Ans C X R) (World C X R) KeyValError Unit

namespace Users

/-- Files of keys and their temporary files. -/
def Known [AsKey K] (sys : Users K V ι) (dir name : String) : Prop := ∃ key : K, sys.kv.Files key dir name

variable [AsKey K] [Serde C V] [DecidableEq ι] {σ : Type}

/-- The program of a call. -/
def program (sys : Users K V ι) (i : ι) : Tool C X R KeyValError Unit :=
  match sys.call i with
  | .insert key val exclusive => sys.kv.insert key val exclusive
  | .delete key => do
    let _ ← sys.kv.delete key
    pure ()

/-- A new directory, and no call has begun. -/
def start (sys : Users K V ι) (env : ℕ → Event X R) : UserPool C X R ι :=
  ⟨⟨fun _ => ∅, fun _ => none, env, 0, fun _ => 0, []⟩, sys.program, fun _ => 0⟩

/-- What users do. -/
inductive Step (sys : Users K V ι) (c : UserPool C X R ι) : UserPool C X R ι → Prop where
  /-- A call performs its next operation. -/
  | op {i : ι} {c' : UserPool C X R ι} (h : Pool.Step (fun i => machine (sys.pid i)) i c c') : Step sys c c'
  /-- The process of a call is killed. -/
  | kill (i : ι) : Step sys c ⟨freed (sys.pid i) c.state, Function.update c.procs i (killed (c.procs i)), c.done⟩

/-- What can happen when there is an `agent` besides. -/
inductive Among (sys : Users K V ι) (agent : σ → World C X R → Option (σ × World C X R)) :
    UserPool C X R ι × σ → UserPool C X R ι × σ → Prop where
  /-- The users do something. -/
  | users {c c' : UserPool C X R ι} {a : σ} (h : sys.Step c c') : Among sys agent (c, a) (c', a)
  /-- The agent does something. -/
  | own {c : UserPool C X R ι} {a a' : σ} {w' : World C X R} (h : agent a c.state = some (a', w')) :
    Among sys agent (c, a) (⟨w', c.procs, c.done⟩, a')

/-- What can come about. -/
def Reaches (sys : Users K V ι) (agent : σ → World C X R → Option (σ × World C X R)) (a₀ : σ) (env : ℕ → Event X R) :
    UserPool C X R ι × σ → Prop :=
  Relation.ReflTransGen (sys.Among agent) (sys.start env, a₀)

end Users

/-! ### What users touch -/

section Touched

variable {pid : Pid}

theorem KeyVal.respects_delete [AsKey K] {kv : KeyVal K V} {key : K} :
    TouchesOnly pid (kv.Files key) (fun _ => True) (kv.delete key : Tool C X R KeyValError Bool) := by
  rw [delete, if_pos (verified_asFilenameStr key)]
  refine .bind (Prog.Respects.attempt (touchesOnly_failing fun _ _ h => ⟨h.1, .inl h.2⟩)) fun a _ => ?_
  split
  · exact trivial
  · exact trivial
  · exact trivial

/-- Making an item touches the file of its entry at most. -/
theorem QueueItem.respects_fromEntry {entry : Entry C V} {opts : QueueGetItemOptions} :
    TouchesOnly pid (fun dir name => dir = entry.baseDir ∧ name = entry.fileName) (fun _ => True)
      (QueueItem.fromEntry entry opts : Tool C X R KeyValError (QueueItem C V)) := by
  cases hlock : opts.noLock with
  | true =>
    unfold QueueItem.fromEntry
    simp only [hlock, if_true]
    split_ifs
    · exact .bind Entry.respects_delete fun _ _ => trivial
    · exact trivial
  | false =>
    rw [Queue.fromEntry_eq hlock]
    refine .bind (Q := fun _ => True) ?_ fun got _ => ?_
    · split_ifs
      · exact .mapErr (touchesOnly_failing fun _ _ h => h.elim)
      · exact .bind (Q := fun _ => True) (.mapErr (touchesOnly_failing fun _ _ h => h.elim)) fun _ _ => trivial
    · unfold Queue.afterLock
      split
      · exact trivial
      · refine .bind (Q := fun _ => True) (touchesOnly_op (fun _ _ h => h.elim) fun _ _ _ _ => trivial) fun there _ => ?_
        split_ifs
        · refine .bind (Q := fun _ => True) Entry.respects_delete.attempt.any fun a _ => ?_
          split
          · exact trivial
          · exact touchesOnly_withLock trivial
        · exact trivial
        · exact touchesOnly_withLock trivial

theorem Queue.respects_visit [Serde C V] {queue : Queue V} {opts : QueueGetItemOptions} {key : TimeKey} :
    TouchesOnly pid (queue.keyVal.Files key) (fun _ => True)
      (queue.visit opts key : Tool C X R KeyValError (Option (QueueItem C V × V))) := by
  refine .bind KeyVal.respects_entryOpt fun a ha => ?_
  cases a with
  | none => exact trivial
  | some entry =>
    obtain ⟨hdir, hname⟩ := ha entry rfl
    refine .bind (Q := fun _ => True) (.ofExcept fun _ _ => trivial) fun value _ => ?_
    refine .bind (QueueItem.respects_fromEntry.imp fun _ _ h => h.mono fun _ _ hf => ?_) fun item _ => ?_
    · exact ⟨hf.1.trans hdir, .inl (hf.2.trans hname)⟩
    · split_ifs
      · exact trivial
      · exact trivial

end Touched

namespace Users

variable [AsKey K] [Serde C V] [DecidableEq ι] {σ : Type} {sys : Users K V ι} {c c' : UserPool C X R ι}

/-- What holds of the files and the programs of users. -/
structure Inv (sys : Users K V ι) (c : UserPool C X R ι) : Prop where
  /-- The files are those of keys, and temporary ones. -/
  known : ∀ name, c.state.disk.file sys.kv.baseDir name ≠ none → sys.Known sys.kv.baseDir name
  /-- Nobody will touch other files. -/
  procs : ∀ i, TouchesOnly (sys.pid i) sys.Known (fun _ => True) (c.procs i)

omit [DecidableEq ι] in
theorem inv_start (env : ℕ → Event X R) : sys.Inv (sys.start env) := by
  refine ⟨fun name hname => absurd rfl hname, fun i => ?_⟩
  show TouchesOnly _ _ _ (sys.program i)
  unfold program
  split
  · exact KeyVal.respects_insert.imp fun _ _ h => h.mono fun _ _ hf => ⟨_, hf⟩
  · exact .bind (KeyVal.respects_delete.imp fun _ _ h => h.mono fun _ _ hf => ⟨_, hf⟩) fun _ _ => trivial

omit [DecidableEq ι] [Serde C V] in
/-- Whoever touches known files only makes no other ones. -/
theorem known_of_touches {w w' : World C X R} (h : Touches sys.Known w w')
    (hw : ∀ name, w.disk.file sys.kv.baseDir name ≠ none → sys.Known sys.kv.baseDir name) :
    ∀ name, w'.disk.file sys.kv.baseDir name ≠ none → sys.Known sys.kv.baseDir name := by
  intro name hname
  by_contra hnot
  rw [h _ _ hnot] at hname
  exact hnot (hw name hname)

omit [Serde C V] in
theorem Inv.step (h : sys.Inv c) (hstep : sys.Step c c') : sys.Inv c' := by
  cases hstep with
  | @op i _ hop =>
    obtain ⟨hprog, hact⟩ := hop
    have hproc := h.procs i
    rw [hprog] at hproc
    obtain ⟨htouches, hrest⟩ := hproc _ _ _ hact
    refine ⟨known_of_touches htouches h.known, fun j => ?_⟩
    show TouchesOnly _ _ _ (Function.update c.procs i _ j)
    rw [Function.update_apply]
    split_ifs with hj
    · rw [hj]
      exact hrest
    · exact h.procs j
  | kill i =>
    refine ⟨h.known, fun j => ?_⟩
    show TouchesOnly _ _ _ (Function.update c.procs i _ j)
    rw [Function.update_apply]
    split_ifs with hj
    · have hproc := h.procs i
      rw [hj]
      cases hp : c.procs i with
      | ret a => exact trivial
      | throw e => exact trivial
      | panic msg => exact trivial
      | op o k => exact trivial
    · exact h.procs j

omit [Serde C V] in
/-- An agent that touches known files only. -/
theorem Inv.among {agent : σ → World C X R → Option (σ × World C X R)} {J : σ → Prop} {s s' : UserPool C X R ι × σ}
    (hJ : ∀ a w a' w', J a → agent a w = some (a', w') → J a' ∧ Touches sys.Known w w') (h : sys.Inv s.1 ∧ J s.2)
    (hstep : sys.Among agent s s') : sys.Inv s'.1 ∧ J s'.2 := by
  cases hstep with
  | users hstep => exact ⟨h.1.step hstep, h.2⟩
  | own hown =>
    obtain ⟨hJ', htouches⟩ := hJ _ _ _ _ h.2 hown
    exact ⟨⟨known_of_touches htouches h.1.known, h.1.procs⟩, hJ'⟩

/-- **Whatever comes about.** -/
theorem inv_of_reaches {agent : σ → World C X R → Option (σ × World C X R)} {J : σ → Prop} {a₀ : σ}
    {env : ℕ → Event X R} {s : UserPool C X R ι × σ} (h₀ : J a₀)
    (hJ : ∀ a w a' w', J a → agent a w = some (a', w') → J a' ∧ Touches sys.Known w w')
    (h : sys.Reaches agent a₀ env s) : sys.Inv s.1 ∧ J s.2 := by
  induction h with
  | refl => exact ⟨inv_start env, h₀⟩
  | tail _ hstep ih => exact Inv.among hJ ih hstep

/-- What the users do by themselves. -/
theorem reaches_exec (agent : σ → World C X R → Option (σ × World C X R)) (a₀ : σ) (env : ℕ → Event X R)
    (schedule : List ι) :
    sys.Reaches agent a₀ env (Pool.exec (fun i => machine (sys.pid i)) (sys.start env) schedule, a₀) := by
  have hpool : Pool.Reaches (fun i => machine (sys.pid i)) (fun _ _ _ => True) (sys.start env)
      (Pool.exec (fun i => machine (sys.pid i)) (sys.start env) schedule) :=
    Pool.reaches_exec (fun _ _ _ => trivial) .start schedule
  generalize Pool.exec (fun i => machine (sys.pid i)) (sys.start env) schedule = c at hpool
  induction hpool with
  | start => exact .refl
  | step _ hstep _ ih => exact ih.tail (.users (.op hstep))

end Users

/-! ### `wait_for_entries` -/

/-- Where `wait_for_entries` is, with the time to sleep. -/
inductive Waiter where
  /-- At the beginning of the loop. -/
  | looking (sleepTime : ℕ)
  /-- There was no file. -/
  | timing (sleepTime : ℕ)
  /-- It is not yet time to stop. -/
  | sleeping (sleepTime : ℕ)
  /-- After `return`. -/
  | returned (r : Except KeyValError Bool)
deriving DecidableEq

/-- The call of `wait_for_entries`. -/
def Waiter.start : Waiter := .looking 1000

/-- The loop of `KeyVal::wait_for_entries`. -/
def KeyVal.waitStep (kv : KeyVal K V) (stopAt : Option SystemTime) (pid : Pid) :
    Waiter → World C X R → Option (Waiter × World C X R)
  | .looking sleepTime, w =>
    match act pid (.readDir kv.baseDir) w with
    | some (.error error, w') => some (.returned (.error (kv.ioError "opening directory" kv.baseDir error)), w')
    | some (.ok [], w') => some (.timing sleepTime, w')
    | some (.ok (_ :: _), w') => some (.returned (.ok true), w')
    | none => none
  | .timing sleepTime, w =>
    match stopAt with
    | none => some (.sleeping sleepTime, w)
    | some stopAt =>
      match act pid .systemTime w with
      | some (now, w') => some (if stopAt.nanos ≤ now.nanos then .returned (.ok false) else .sleeping sleepTime, w')
      | none => none
  | .sleeping sleepTime, w => some (.looking (if sleepTime < 2000000000 then sleepTime * 101 / 100 else sleepTime), w)
  | .returned _, _ => none

/-! ### `Queue::items` -/

/-- Where `Queue::items` is. -/
inductive Consumer (C X : Type) (R : X → Type) (V : Type) where
  /-- In `sorted_entries`, which waits. -/
  | waiting (waiter : Waiter)
  /-- In `sorted_entries`, which lists the keys. -/
  | listing
  /-- With an entry, before those of the other keys. -/
  | visiting (p : Tool C X R KeyValError (Option (QueueItem C V × V))) (rest : List TimeKey)
  /-- After an error. -/
  | stopped

namespace Queue

/-- The loop: the entry of the next key, or all over again. -/
def nextEntry [Serde C V] (queue : Queue V) (opts : QueueGetItemOptions) : List TimeKey → Consumer C X R V
  | [] => .waiting .start
  | key :: rest => .visiting (queue.visit opts key) rest

/-- `Queue::items` with `wait` -/
def itemsStep [Serde C V] (queue : Queue V) (stopAt : Option SystemTime) (reverse : Bool) (opts : QueueGetItemOptions)
    (pid : Pid) : Consumer C X R V → World C X R → Option (Consumer C X R V × World C X R)
  | .waiting (.returned (.ok _)), w => some (.listing, w)
  | .waiting (.returned (.error _)), w => some (.stopped, w)
  | .waiting waiter, w => (queue.keyVal.waitStep stopAt pid waiter w).map fun r => (.waiting r.1, r.2)
  | .listing, w =>
    match (queue.keyVal.sortedKeys (K := TimeKey)).run (machine pid) w with
    | some (.ok keys, w') => some (queue.nextEntry opts (if reverse then keys.reverse else keys), w')
    | some (_, w') => some (.stopped, w')
    | none => none
  | .visiting (.ret _) rest, w => some (queue.nextEntry opts rest, w)
  | .visiting (.throw _) _, w => some (.stopped, w)
  | .visiting (.panic _) _, w => some (.stopped, w)
  | .visiting (.op o k) rest, w => (act pid o w).map fun r => (.visiting (k r.1) rest, r.2)
  | .stopped, _ => none

end Queue

/-! ### What waiting finds -/

namespace KeyVal

/-- `keys` lists these keys, if nothing fails. -/
def Lists [AsKey K] (kv : KeyVal K V) (d : Disk C) (keys : List K) : Prop :=
  keysOf kv.baseDir (d kv.baseDir).keys = .ok keys

/-- There are files, and all of them are temporary ones. -/
def OnlyTmp (kv : KeyVal K V) (d : Disk C) : Prop :=
  (d kv.baseDir).keys ≠ [] ∧ ∀ name ∈ (d kv.baseDir).keys, isTmp name = true

/-- What ends the waiting though there is no entry: temporary files only, or the time to stop at. -/
def Misled (kv : KeyVal K V) (stopAt : Option SystemTime) (w : World C X R) : Waiter → Prop
  | .looking _ => w.event.fault = none ∧ kv.OnlyTmp w.disk
  | .timing _ => ∃ stop, stopAt = some stop ∧ stop.nanos ≤ w.event.now.nanos
  | .sleeping _ => False
  | .returned _ => False

/-- What one step of waiting does. -/
inductive WaitCase (kv : KeyVal K V) (stopAt : Option SystemTime) (w : World C X R) : Waiter → Waiter → Prop where
  /-- The directory cannot be opened. -/
  | failed {sleepTime : ℕ} {error : KeyValError} (h : w.event.fault ≠ none) :
    WaitCase kv stopAt w (.looking sleepTime) (.returned (.error error))
  /-- There is no file. -/
  | empty {sleepTime : ℕ} (h : w.event.fault = none) (hnames : (w.disk kv.baseDir).keys = []) :
    WaitCase kv stopAt w (.looking sleepTime) (.timing sleepTime)
  /-- There is a file. -/
  | found {sleepTime : ℕ} (h : w.event.fault = none) (hnames : (w.disk kv.baseDir).keys ≠ []) :
    WaitCase kv stopAt w (.looking sleepTime) (.returned (.ok true))
  /-- It is time to stop. -/
  | late {sleepTime : ℕ} {stop : SystemTime} (hstop : stopAt = some stop) (h : stop.nanos ≤ w.event.now.nanos) :
    WaitCase kv stopAt w (.timing sleepTime) (.returned (.ok false))
  /-- There is time left. -/
  | early {sleepTime : ℕ} (h : ∀ stop, stopAt = some stop → ¬ stop.nanos ≤ w.event.now.nanos) :
    WaitCase kv stopAt w (.timing sleepTime) (.sleeping sleepTime)
  /-- After some sleep. -/
  | awake {sleepTime sleepTime' : ℕ} : WaitCase kv stopAt w (.sleeping sleepTime) (.looking sleepTime')

variable {kv : KeyVal K V} {stopAt : Option SystemTime} {pid : Pid} {q q' : Waiter} {w w' : World C X R}

theorem waitStep_cases (h : kv.waitStep stopAt pid q w = some (q', w')) :
    w'.disk = w.disk ∧ kv.WaitCase stopAt w q q' := by
  cases q with
  | looking sleepTime =>
    cases hfault : w.event.fault with
    | some errno =>
      simp only [waitStep, act, failing, hfault, Option.some.injEq, Prod.mk.injEq] at h
      obtain ⟨rfl, rfl⟩ := h
      exact ⟨rfl, .failed (by simp [hfault])⟩
    | none =>
      cases hnames : (w.disk kv.baseDir).keys with
      | nil =>
        simp only [waitStep, act, failing, hfault, hnames, Option.some.injEq, Prod.mk.injEq] at h
        obtain ⟨rfl, rfl⟩ := h
        exact ⟨rfl, .empty hfault hnames⟩
      | cons name names =>
        simp only [waitStep, act, failing, hfault, hnames, Option.some.injEq, Prod.mk.injEq] at h
        obtain ⟨rfl, rfl⟩ := h
        exact ⟨rfl, .found hfault (by simp [hnames])⟩
  | timing sleepTime =>
    cases hstop : stopAt with
    | none =>
      simp only [waitStep, hstop, Option.some.injEq, Prod.mk.injEq] at h
      obtain ⟨rfl, rfl⟩ := h
      exact ⟨rfl, .early fun stop hs => by cases hs⟩
    | some stop =>
      simp only [waitStep, act, hstop, Option.some.injEq, Prod.mk.injEq] at h
      obtain ⟨rfl, rfl⟩ := h
      split_ifs with hlate
      · exact ⟨rfl, .late rfl hlate⟩
      · exact ⟨rfl, .early fun stop' hs => by cases hs; exact hlate⟩
  | sleeping sleepTime =>
    cases h
    exact ⟨rfl, .awake⟩
  | returned r => cases h

end KeyVal

namespace Users

variable [AsKey K] [Serde C V] [DecidableEq ι] {sys : Users K V ι} {c : UserPool C X R ι}

omit [Serde C V] [DecidableEq ι] in
/-- **Listings**: there are keys unless there are temporary files only. -/
theorem Inv.exists_lists (h : sys.Inv c) : ∃ keys : List K, sys.kv.Lists c.state.disk keys ∧
    (keys = [] ↔ ∀ name ∈ (c.state.disk sys.kv.baseDir).keys, isTmp name = true) := by
  have hnamed : ∀ name ∈ (c.state.disk sys.kv.baseDir).keys,
      ∃ key : K, name = asFilenameStr key ∨ name = KeyVal.tmpName key := by
    intro name hname
    rw [← AList.mem_keys, ← AList.lookup_isSome, Option.isSome_iff_ne_none] at hname
    obtain ⟨key, -, hkey⟩ := h.known name hname
    exact ⟨key, hkey⟩
  obtain ⟨keys, hkeys⟩ : ∃ keys, (KeyVal.keysOf sys.kv.baseDir _ : Except KeyValError (List K)) = .ok keys :=
    Callers.exists_keysOf hnamed
  refine ⟨keys, hkeys, fun hnil name hname => ?_, fun htmp => ?_⟩
  · obtain ⟨key, rfl | rfl⟩ := hnamed name hname
    · have hmem := (mem_keysOf hkeys key).2 ⟨_, hname, isTmp_asFilenameStr key, tryFrom_asFilenameStr key⟩
      rw [hnil] at hmem
      cases hmem
    · exact isTmp_dot _
  · refine List.eq_nil_iff_forall_not_mem.2 fun key hkey => ?_
    obtain ⟨name, hname, hnot, -⟩ := (mem_keysOf hkeys key).1 hkey
    rw [htmp name hname] at hnot
    cases hnot

omit [Serde C V] [DecidableEq ι] in
theorem Inv.lists_nil_iff (h : sys.Inv c) :
    sys.kv.Lists c.state.disk [] ↔ ∀ name ∈ (c.state.disk sys.kv.baseDir).keys, isTmp name = true := by
  obtain ⟨keys, hkeys, hnil⟩ := h.exists_lists
  rw [← hnil]
  constructor
  · intro hlists
    exact Except.ok.inj (hkeys.symm.trans hlists)
  · rintro rfl
    exact hkeys

omit [Serde C V] [DecidableEq ι] in
/-- In a directory that is not empty. -/
theorem Inv.lists_iff (h : sys.Inv c) (hnames : (c.state.disk sys.kv.baseDir).keys ≠ []) :
    (∃ keys : List K, sys.kv.Lists c.state.disk keys ∧ keys ≠ []) ↔ ¬ sys.kv.OnlyTmp c.state.disk := by
  obtain ⟨keys, hkeys, hnil⟩ := h.exists_lists
  constructor
  · rintro ⟨keys', hkeys', hne⟩ ⟨-, htmp⟩
    rw [Except.ok.inj (hkeys'.symm.trans hkeys)] at hne
    exact hne (hnil.2 htmp)
  · intro honly
    exact ⟨keys, hkeys, fun hk => honly ⟨hnames, hnil.1 hk⟩⟩

omit [Serde C V] [DecidableEq ι] in
/-- **Without an entry**, waiting is over iff it is misled. -/
theorem Inv.returned_iff (h : sys.Inv c) (hempty : sys.kv.Lists c.state.disk []) {stopAt : Option SystemTime}
    {q q' : Waiter} (hcase : sys.kv.WaitCase stopAt c.state q q') :
    (∃ found, q' = .returned (.ok found)) ↔ sys.kv.Misled stopAt c.state q := by
  have htmp := h.lists_nil_iff.1 hempty
  cases hcase with
  | failed hfault => exact iff_of_false (by simp) fun hm => hfault hm.1
  | empty _ hnames => exact iff_of_false (by simp) fun hm => hm.2.1 hnames
  | found hfault hnames => exact iff_of_true ⟨true, rfl⟩ ⟨hfault, hnames, htmp⟩
  | late hstop hlate => exact iff_of_true ⟨false, rfl⟩ ⟨_, hstop, hlate⟩
  | early hearly => exact iff_of_false (by simp) fun ⟨stop, hstop, hlate⟩ => hearly stop hstop hlate
  | awake => exact iff_of_false (by simp) id

end Users

/-! ### What `items` does -/

/-- It waits for entries, or has stopped with an error. -/
def Consumer.Waits : Consumer C X R V → Prop
  | .waiting waiter => ∀ found, waiter ≠ .returned (.ok found)
  | .listing => False
  | .visiting _ _ => False
  | .stopped => True

/-- The files that `items` makes on its way are known. -/
def Consumer.Touching (users : Users TimeKey V ι) (pid : Pid) : Consumer C X R V → Prop
  | .visiting p _ => TouchesOnly pid users.Known (fun _ => True) p
  | _ => True

section Items

variable [Serde C V] {users : Users TimeKey V ι} {stopAt : Option SystemTime} {reverse : Bool}
  {opts : QueueGetItemOptions} {pid : Pid}

/-- The queue holds no entry, and waiting is not misled. -/
def Users.Quiet (users : Users TimeKey V ι) (stopAt : Option SystemTime) (s : UserPool C X R ι × Consumer C X R V) : Prop :=
  users.kv.Lists s.1.state.disk ([] : List TimeKey) ∧
    ∀ waiter, s.2 = .waiting waiter → ¬ users.kv.Misled stopAt s.1.state waiter

theorem Queue.touching_nextEntry (keys : List TimeKey) :
    Consumer.Touching users pid ((⟨users.kv⟩ : Queue V).nextEntry opts keys : Consumer C X R V) := by
  cases keys with
  | nil => exact trivial
  | cons key rest => exact Queue.respects_visit.imp fun _ _ h => h.mono fun _ _ hf => ⟨key, hf⟩

/-- While it waits. -/
theorem Queue.itemsStep_waiting_of_ne {queue : Queue V} {waiter : Waiter} {w : World C X R}
    (h : ∀ r, waiter ≠ .returned r) :
    queue.itemsStep stopAt reverse opts pid (.waiting waiter) w =
      (queue.keyVal.waitStep stopAt pid waiter w).map fun r => ((.waiting r.1, r.2) : Consumer C X R V × World C X R) := by
  cases waiter with
  | looking sleepTime => rfl
  | timing sleepTime => rfl
  | sleeping sleepTime => rfl
  | returned r => exact absurd rfl (h r)

/-- While it waits, and when this is over. -/
theorem Queue.itemsStep_waiting {queue : Queue V} {waiter : Waiter} {a' : Consumer C X R V} {w w' : World C X R}
    (h : queue.itemsStep stopAt reverse opts pid (.waiting waiter) w = some (a', w')) :
    (w' = w ∧ ((∃ found, waiter = .returned (.ok found)) ∧ a' = .listing ∨
      (∃ error, waiter = .returned (.error error)) ∧ a' = .stopped)) ∨
    ∃ waiter', queue.keyVal.waitStep stopAt pid waiter w = some (waiter', w') ∧ a' = .waiting waiter' := by
  by_cases hret : ∃ r, waiter = .returned r
  · obtain ⟨r, rfl⟩ := hret
    cases r with
    | ok found =>
      cases h
      exact .inl ⟨rfl, .inl ⟨⟨found, rfl⟩, rfl⟩⟩
    | error error =>
      cases h
      exact .inl ⟨rfl, .inr ⟨⟨error, rfl⟩, rfl⟩⟩
  · rw [Queue.itemsStep_waiting_of_ne fun r hr => hret ⟨r, hr⟩] at h
    obtain ⟨r, hr, he⟩ := Option.map_eq_some_iff.1 h
    cases he
    exact .inr ⟨r.1, hr, rfl⟩

omit [Serde C V] in
/-- Listing the keys leaves the files as they are. -/
theorem KeyVal.disk_of_sortedKeys {kv : KeyVal TimeKey V} {r : Outcome KeyValError (List TimeKey)} {w w' : World C X R}
    (h : kv.sortedKeys.run (machine pid) w = some (r, w')) : w'.disk = w.disk := by
  have hsafe : Safe pid (fun _ => True) (fun _ t => w.Goes w.disk t) kv.sortedKeys w :=
    KeyVal.safe_sortedKeys trivial (fun _ _ => trivial) (fun _ _ h => h) fun _ _ _ h => h
  exact (((Prog.holds_iff _).1 hsafe).2 r w' h).disk

/-- What `items` does to the files. -/
theorem Queue.touches_itemsStep {a a' : Consumer C X R V} {w w' : World C X R} (ha : a.Touching users pid)
    (h : (⟨users.kv⟩ : Queue V).itemsStep stopAt reverse opts pid a w = some (a', w')) :
    a'.Touching users pid ∧ Touches users.Known w w' := by
  have hsame : ∀ {u : World C X R}, u.disk = w.disk → Touches users.Known w u := by
    intro u hu dir name _
    rw [hu]
  cases a with
  | waiting waiter =>
    obtain ⟨rfl, ⟨-, rfl⟩ | ⟨-, rfl⟩⟩ | ⟨waiter', hwait, rfl⟩ := Queue.itemsStep_waiting h
    · exact ⟨trivial, hsame rfl⟩
    · exact ⟨trivial, hsame rfl⟩
    · exact ⟨trivial, hsame (KeyVal.waitStep_cases hwait).1⟩
  | listing =>
    simp only [itemsStep] at h
    split at h
    · next keys u hrun =>
      cases h
      exact ⟨touching_nextEntry _, hsame (KeyVal.disk_of_sortedKeys hrun)⟩
    · next r u _ hrun =>
      cases h
      exact ⟨trivial, hsame (KeyVal.disk_of_sortedKeys hrun)⟩
    · cases h
  | visiting p rest =>
    cases p with
    | ret a =>
      cases h
      exact ⟨touching_nextEntry _, hsame rfl⟩
    | throw e =>
      cases h
      exact ⟨trivial, hsame rfl⟩
    | panic msg =>
      cases h
      exact ⟨trivial, hsame rfl⟩
    | op o k =>
      obtain ⟨r, hr, he⟩ := Option.map_eq_some_iff.1 h
      cases he
      obtain ⟨htouches, hrest⟩ := ha w r.1 r.2 hr
      exact ⟨hrest, htouches⟩
  | stopped => cases h

/-- One step while there is no entry. -/
theorem Users.waits_step [DecidableEq ι] {s s' : UserPool C X R ι × Consumer C X R V} (hinv : users.Inv s.1)
    (hquiet : users.Quiet stopAt s) (hwaits : s.2.Waits)
    (hstep : users.Among ((⟨users.kv⟩ : Queue V).itemsStep stopAt reverse opts pid) s s') : s'.2.Waits := by
  cases hstep with
  | users _ => exact hwaits
  | @own c a a' w' hown =>
    cases a with
    | waiting waiter =>
      obtain ⟨-, ⟨⟨found, hfound⟩, -⟩ | ⟨-, rfl⟩⟩ | ⟨waiter', hwait, rfl⟩ := Queue.itemsStep_waiting hown
      · exact absurd hfound (hwaits found)
      · exact trivial
      · -- waiting that is over has been misled
        intro found hfound
        exact hquiet.2 waiter rfl ((hinv.returned_iff hquiet.1 (KeyVal.waitStep_cases hwait).2).1 ⟨found, hfound⟩)
    | listing => exact hwaits.elim
    | visiting p rest => exact hwaits.elim
    | stopped => cases hown

end Items

/-- **Waiting.** When `wait_for_entries` returns `true` the table has an entry iff the directory does not have temporary
files only. Of the steps that waiting takes while there is no entry, those end it that are misled; and as long as there is
none of these and no entry, `items` goes on waiting. -/
theorem waits_unless_misled [AsKey K] [Serde C V] [DecidableEq ι] (sys : Users K V ι) (users : Users TimeKey V ι)
    (stopAt : Option SystemTime) (reverse : Bool) (opts : QueueGetItemOptions) (pid : Pid) (env : ℕ → Event X R) :
    (∀ (c : UserPool C X R ι) waiter w', sys.Reaches (sys.kv.waitStep stopAt pid) .start env (c, waiter) →
      sys.kv.waitStep stopAt pid waiter c.state = some (.returned (.ok true), w') →
      ((∃ keys : List K, sys.kv.Lists c.state.disk keys ∧ keys ≠ []) ↔ ¬ sys.kv.OnlyTmp c.state.disk)) ∧
    (∀ (c : UserPool C X R ι) waiter waiter' w', sys.Reaches (sys.kv.waitStep stopAt pid) .start env (c, waiter) →
      sys.kv.Lists c.state.disk ([] : List K) →
      sys.kv.waitStep stopAt pid waiter c.state = some (waiter', w') →
      ((∃ found, waiter' = .returned (.ok found)) ↔ sys.kv.Misled stopAt c.state waiter)) ∧
    ∀ s s' : UserPool C X R ι × Consumer C X R V,
      users.Reaches ((⟨users.kv⟩ : Queue V).itemsStep stopAt reverse opts pid) (.waiting .start) env s → s.2.Waits →
      Relation.ReflTransGen (fun t t' => users.Quiet stopAt t ∧
        users.Among ((⟨users.kv⟩ : Queue V).itemsStep stopAt reverse opts pid) t t') s s' → s'.2.Waits := by
  have hwaiter : ∀ (a : Waiter) (w : World C X R) (a' : Waiter) w', True → sys.kv.waitStep stopAt pid a w = some (a', w') →
      True ∧ Touches sys.Known w w' := by
    intro a w a' w' _ h
    refine ⟨trivial, fun dir name _ => ?_⟩
    rw [(KeyVal.waitStep_cases h).1]
  refine ⟨fun c waiter w' hreach hstep => ?_, fun c waiter waiter' w' hreach hempty hstep => ?_, ?_⟩
  · have hinv := (Users.inv_of_reaches (J := fun _ => True) trivial hwaiter hreach).1
    cases (KeyVal.waitStep_cases hstep).2 with
    | found _ hnames => exact hinv.lists_iff hnames
  · have hinv := (Users.inv_of_reaches (J := fun _ => True) trivial hwaiter hreach).1
    exact hinv.returned_iff hempty (KeyVal.waitStep_cases hstep).2
  · intro s s' hreach hwaits hrun
    induction hrun with
    | refl => exact hwaits
    | tail hrun hstep ih =>
      have hreach' := hreach.trans (Relation.ReflTransGen.mono (fun _ _ h => h.2) _ _ hrun)
      have hstart : Consumer.Touching users pid (.waiting .start : Consumer C X R V) := trivial
      have hinv := (Users.inv_of_reaches hstart (fun _ _ _ _ => Queue.touches_itemsStep) hreach').1
      exact Users.waits_step hinv hstep.1 ih hstep.2

/-! ### Samples -/

/-- A process that inserts one value. -/
def sampleInserter : Users TimeKey String Unit := ⟨⟨"queue", .no⟩, fun _ => 7, fun _ => .insert ⟨1, 2, 3⟩ "job" true⟩

/-- Nothing fails, and no time passes. -/
def sampleInserterEnv : ℕ → Event Empty fun _ => Unit := fun _ => ⟨.epoch, none, fun _ => ()⟩

/-- The table after so many operations of the insertion. -/
def sampleAfter (n : ℕ) : UserPool String Empty (fun _ => Unit) Unit :=
  Pool.exec (fun i => machine (sampleInserter.pid i)) (sampleInserter.start sampleInserterEnv) (List.replicate n ())

/-- Options of an iteration. -/
def sampleItemOpts : QueueGetItemOptions := ⟨false, false, false⟩

/-- `items` as it goes on by itself. -/
def sampleItems (stopAt : Option SystemTime) : ℕ → Consumer String Empty (fun _ => Unit) String →
    World String Empty (fun _ => Unit) → Option Waiter
  | 0, .waiting waiter, _ => some waiter
  | 0, _, _ => none
  | n + 1, a, w =>
    match (⟨sampleInserter.kv⟩ : Queue String).itemsStep stopAt false sampleItemOpts 5 a w with
    | some (a', w') => sampleItems stopAt n a' w'
    | none => none

/-- With an entry, without one, and in the first step of `items`. -/
theorem waits_unless_misled_sample :
    ((∃ keys : List TimeKey, sampleInserter.kv.Lists (sampleAfter 5).state.disk keys ∧ keys ≠ []) ↔
        ¬ sampleInserter.kv.OnlyTmp (sampleAfter 5).state.disk) ∧
      ((∃ found, Waiter.timing 1000 = .returned (.ok found)) ↔
        sampleInserter.kv.Misled none (sampleAfter 0).state .start) ∧
      ∃ s' : UserPool String Empty (fun _ => Unit) Unit × Consumer String Empty (fun _ => Unit) String,
        s'.2 = .waiting (.timing 1000) ∧ s'.2.Waits := by
  obtain ⟨hfound, hmisled, hitems⟩ := waits_unless_misled (C := String) sampleInserter sampleInserter none false
    sampleItemOpts 5 sampleInserterEnv
  have hthere : (sampleInserter.kv.waitStep none 5 .start (sampleAfter 5).state).map Prod.fst =
      some (.returned (.ok true)) := by decide +kernel
  have hempty : (sampleInserter.kv.waitStep none 5 .start (sampleAfter 0).state).map Prod.fst = some (.timing 1000) := by
    decide +kernel
  obtain ⟨⟨_, w⟩, hthere, rfl⟩ := Option.map_eq_some_iff.1 hthere
  obtain ⟨⟨_, w'⟩, hempty, hw'⟩ := Option.map_eq_some_iff.1 hempty
  have hlists : (KeyVal.keysOf "queue" ((sampleAfter 0).state.disk "queue").keys :
      Except KeyValError (List TimeKey)) = .ok [] := by decide +kernel
  have hquiet : ¬ sampleInserter.kv.OnlyTmp (sampleAfter 0).state.disk := fun h => h.1 rfl
  have hitem : (⟨sampleInserter.kv⟩ : Queue String).itemsStep none false sampleItemOpts 5 (.waiting .start)
      (sampleAfter 0).state = some ((.waiting (.timing 1000) : Consumer String Empty (fun _ => Unit) String), w') := by
    rw [Queue.itemsStep_waiting_of_ne (by rintro _ ⟨⟩), hempty]
    cases hw'
    rfl
  refine ⟨hfound _ _ _ (Users.reaches_exec _ _ _ _) hthere, ?_, ?_⟩
  · cases hw'
    exact hmisled _ _ _ _ (Users.reaches_exec _ _ _ _) hlists hempty
  · refine ⟨_, rfl, hitems (sampleAfter 0, .waiting .start) _ (Users.reaches_exec _ _ _ _) (by rintro _ ⟨⟩)
      (.single ⟨⟨hlists, ?_⟩, .own hitem⟩)⟩
    rintro _ ⟨⟩ hm
    exact hquiet hm.2

/-- A killed insertion leaves a temporary file, with which waiting is over though no key is listed, and `items` begins again
without having slept. So it does when the time to stop at is over. -/
theorem tmp_file_ends_waiting :
    (∃ (c : UserPool String Empty (fun _ => Unit) Unit) (w' : World String Empty fun _ => Unit),
      sampleInserter.Reaches (sampleInserter.kv.waitStep none 5) .start sampleInserterEnv (c, .start) ∧
      sampleInserter.kv.waitStep none 5 .start c.state = some (.returned (.ok true), w') ∧
      (¬ ∃ keys : List TimeKey, sampleInserter.kv.Lists c.state.disk keys ∧ keys ≠ []) ∧
      sampleItems none 3 (.waiting .start) c.state = some .start) ∧
    sampleItems (some .epoch) 4 (.waiting .start) (sampleAfter 0).state = some .start := by
  have hreach : sampleInserter.Reaches (sampleInserter.kv.waitStep none 5) .start sampleInserterEnv
      (sampleAfter 3, .start) := Users.reaches_exec _ _ _ _
  have hwait : (sampleInserter.kv.waitStep none 5 .start (freed 7 (sampleAfter 3).state)).map Prod.fst =
      some (.returned (.ok true)) := by decide +kernel
  have hkeys : (KeyVal.keysOf "queue" ((sampleAfter 3).state.disk "queue").keys :
      Except KeyValError (List TimeKey)) = .ok [] := by decide +kernel
  obtain ⟨⟨_, w'⟩, hwait, rfl⟩ := Option.map_eq_some_iff.1 hwait
  refine ⟨⟨_, w', hreach.tail (.users (.kill ())), hwait, ?_, by decide +kernel⟩, by decide +kernel⟩
  rintro ⟨keys, hlists, hne⟩
  exact hne (Except.ok.inj (hlists.symm.trans hkeys))

end Evobench.KeyValFs

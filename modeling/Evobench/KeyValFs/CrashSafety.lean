import Evobench.KeyValFs.SharedTable
import Evobench.Library.Interleaving

/-!
# Tables and crashes

Any number of processes insert into one table and delete from it, each with the table opened for itself and with
full syncing. At any moment one of them can be killed, or the whole computer can lose power.

## The model

* `Callers`: the calls. A process that makes several of them, one after the other, is several callers, each of
  which begins when the one before has ended.
* `Callers.Step`: one operation of a call, or a process is killed, or there is a loss of power, after which other
  calls can be made.
* `KeyVal.get`: the source's `get`.

## What is proved

* `Callers.Inv.step`: whatever happens, each call is judged (`Judged`) by what it was at its beginning.
* `crash_safe`: every key's file has a complete value that was inserted for that key; what has been inserted and
  not changed since is read again; a listing has the keys that have files, and never fails on temporary files; of
  two exclusive insertions of a key one comes after a deletion.

## Honest scope

Whether a call comes after another one is decided by the changes that they make to the directory.
-/

namespace Evobench.KeyValFs

open Library IoUtils

variable {C X ι : Type} {R : X → Type} {K V : Type} {ε α : Type}

/-- `KeyVal::get` -/
def KeyVal.get [AsKey K] [Serde C V] (kv : KeyVal K V) (key : K) : Tool C X R KeyValError (Option V) := do
  match ← kv.entryOpt key with
  | some entry =>
    let val ← Prog.ofExcept entry.get
    pure (some val)
  | none => pure none

/-- A program that has been killed: if it has not ended yet, it does nothing any more. -/
def killed : Tool C X R ε α → Tool C X R ε α
  | .op _ _ => .panic "killed"
  | p => p

/-- A call on a table. -/
inductive TableCall (K V : Type) where
  /-- `insert(key, val, exclusive)` -/
  | insert (key : K) (val : V) (exclusive : Bool)
  /-- `delete(key)` -/
  | delete (key : K)

/-- Calls on one table. -/
structure Callers (K V ι : Type) where
  /-- The table, as each of them has opened it. -/
  kv : KeyVal K V
  /-- Files and directories are synced. -/
  sync : kv.sync = .all
  /-- The processes. -/
  who : ι → Process
  /-- The calls. -/
  call : ι → TableCall K V

namespace Callers

variable [AsKey K] [Serde C V]

/-- The program of a call; whether something has been deleted is not looked at. -/
def program (sys : Callers K V ι) (i : ι) : Tool C X R KeyValError Unit :=
  match sys.call i with
  | .insert key val exclusive => sys.kv.insert key val exclusive
  | .delete key => do
    let _ ← sys.kv.delete key
    pure ()

/-- The calls as a pool. -/
abbrev CallPool (C X : Type) (R : X → Type) (ι : Type) :=
  Pool ι (Op C X) (Ans C X R) (Kernel C X R ι) KeyValError Unit

/-- A new directory, and no call has begun. -/
def start (sys : Callers K V ι) (env : ℕ → Event X R) : CallPool C X R ι :=
  ⟨⟨⟨fun _ => ⟨∅, []⟩, fun _ => none, fun _ => false, 0, []⟩, fun _ => none, fun _ => none, fun _ => 0, env, 0⟩,
    sys.program, fun _ => 0⟩

variable [DecidableEq ι]

/-- What can happen. -/
inductive Step (sys : Callers K V ι) (c : CallPool C X R ι) : CallPool C X R ι → Prop where
  /-- A call performs its next operation. -/
  | op {i : ι} {c' : CallPool C X R ι} (h : Pool.Step (Kernel.machine sys.who) i c c') : Step sys c c'
  /-- The process of a call that has begun is killed: its files are closed, and its locks are free. -/
  | kill (i : ι) (hbegun : c.done i ≠ 0) : Step sys c ⟨c.state.close i, Function.update c.procs i (killed (c.procs i)), c.done⟩
  /-- Power is lost: all calls that have begun are killed. -/
  | powerLoss {w : Kernel C X R ι} (h : c.state.Recovers w) :
    Step sys c ⟨w, fun i => if c.done i = 0 then c.procs i else killed (c.procs i), c.done⟩

/-- The pools that can be reached. -/
def Reaches (sys : Callers K V ι) (env : ℕ → Event X R) (c : CallPool C X R ι) : Prop :=
  Relation.ReflTransGen sys.Step (sys.start env) c

/-! ### The calls are judged -/

omit [DecidableEq ι] in
variable (C) in
/-- The contents that are valid for a key: the values that are inserted for it. -/
def Valid (sys : Callers K V ι) (key : K) (c : C) : Prop :=
  ∃ i val e, sys.call i = .insert key val e ∧ c = Serde.toString val

/-- The call is an exclusive insertion. -/
def exclusive (sys : Callers K V ι) (i : ι) : Bool :=
  match sys.call i with
  | .insert _ _ e => e
  | .delete _ => false

/-- The call is a deletion. -/
def Deletes (sys : Callers K V ι) (i : ι) : Prop := ∃ key, sys.call i = .delete key

/-- How a call ends. -/
def EndsIn (sys : Callers K V ι) (i : ι) (r : Outcome KeyValError Unit) (w : Kernel C X R ι) : Prop :=
  match sys.call i with
  | .insert key val _ => sys.kv.Inserted (sys.Valid C) sys.exclusive i key (Serde.toString val) r w
  | .delete _ => sys.kv.Ready (sys.Valid C) i w

/-- What is known of a call with the program `p`. -/
def Judged (sys : Callers K V ι) (i : ι) (p : Tool C X R KeyValError Unit) (w : Kernel C X R ι) : Prop :=
  Prog.Guarantees (Kernel.machine sys.who i) (sys.kv.Among (sys.Valid C) sys.exclusive i)
    (sys.kv.Own (sys.Valid C) sys.exclusive (sys.Deletes i) i) (sys.EndsIn i) p w

section Judged

variable {sys : Callers K V ι} {i j : ι} {p : Tool C X R KeyValError Unit} {w w' : Kernel C X R ι}

omit [DecidableEq ι] in
theorem EndsIn.ready {r : Outcome KeyValError Unit} (h : sys.EndsIn i r w) : sys.kv.Ready (sys.Valid C) i w := by
  unfold EndsIn at h
  split at h
  · exact h.1
  · exact h

/-- A call is judged from its beginning on. -/
theorem judged_program (hw : sys.kv.Ready (sys.Valid C) i w) : sys.Judged i (sys.program i) w := by
  unfold Judged program EndsIn
  split
  · next key val e hcall =>
    refine (KeyVal.guarantees_insert ⟨i, val, e, hcall, rfl⟩ (fun hex => ?_) hw).mono
      (fun t t' h => ⟨h.1, h.2.imp False.elim⟩) fun _ _ h => h
    simpa only [exclusive, hcall] using hex
  · next key hcall =>
    refine .bind ((KeyVal.guarantees_delete hw).mono (fun t t' h => ⟨h.1, h.2.imp fun _ => ⟨key, hcall⟩⟩) ?_)
    intro r t ht
    cases r with
    | ok _ => exact ht
    | err e => exact ht
    | panic msg => exact ht

omit [DecidableEq ι] in
/-- How a call has ended remains true. -/
theorem EndsIn.among {r : Outcome KeyValError Unit} (h : sys.EndsIn i r w)
    (ha : sys.kv.Among (sys.Valid C) sys.exclusive i w w') : sys.EndsIn i r w' := by
  unfold EndsIn at h ⊢
  split
  · next hcall =>
    simp only [hcall] at h
    exact h.among ha
  · next hcall =>
    simp only [hcall] at h
    exact h.among ha

omit [DecidableEq ι] in
/-- What a session does is a change made by another one for the rest. -/
theorem among_of_own {deletes : Prop} (hs : sys.kv.Sound (sys.Valid C) w.store)
    (h : sys.kv.Own (sys.Valid C) sys.exclusive deletes i w w') (hij : i ≠ j) :
    sys.kv.Among (sys.Valid C) sys.exclusive j w w' :=
  ⟨h.2.sound hs, i, hij, h.1, h.2.imp fun _ => trivial⟩

theorem Judged.among (h : sys.Judged i p w) (ha : sys.kv.Among (sys.Valid C) sys.exclusive i w w') :
    sys.Judged i p w' :=
  h.env (fun _ _ _ hB hQ => hQ.among hB) ha

/-- A call that is killed, with what it had done until then. -/
theorem judged_killed (h : sys.Judged i p w) (hw' : sys.kv.Ready (sys.Valid C) i w')
    (hends : ∀ r, sys.EndsIn i r w → sys.EndsIn i r w') : sys.Judged i (killed p) w' := by
  cases p with
  | ret a => exact hends _ h
  | throw e => exact hends _ h
  | panic msg => exact hends _ h
  | op o k =>
    show sys.EndsIn i (.panic "killed") w'
    unfold EndsIn
    split
    · exact ⟨hw', fun h => nomatch h⟩
    · exact hw'

omit [DecidableEq ι] in
/-- What a call has achieved survives a loss of power. -/
theorem EndsIn.recovers {r : Outcome KeyValError Unit} (h : sys.EndsIn i r w) (hr : w.Recovers w') :
    sys.EndsIn i r w' := by
  have hfiles : sys.kv.sync.doSyncFiles = true := by
    rw [sys.sync]
    rfl
  have hready : sys.kv.Ready (sys.Valid C) i w' :=
    ⟨h.ready.sound.recovers hfiles hr, fun h hh => by cases (hr.handle i).symm.trans hh⟩
  unfold EndsIn at h ⊢
  split
  · next hcall =>
    simp only [hcall] at h
    exact ⟨hready, fun hr' hdirs => (h.2 hr' hdirs).recovers h.1.sound hfiles hr⟩
  · exact hready

/-- A session whose files are closed. -/
theorem ready_close (hs : sys.kv.Sound (sys.Valid C) w.store) : sys.kv.Ready (sys.Valid C) i (w.close i) := by
  refine ⟨hs, fun h hh => ?_⟩
  have hnone : (w.close i).handle i = none := by simp [Kernel.close]
  cases hnone.symm.trans hh

/-- What a call has achieved is still there when its files are closed. -/
theorem EndsIn.close {r : Outcome KeyValError Unit} (h : sys.EndsIn i r w) : sys.EndsIn i r (w.close i) := by
  have hready := ready_close (i := i) h.ready.sound
  unfold EndsIn at h ⊢
  split
  · next hcall =>
    simp only [hcall] at h
    exact ⟨hready, h.2⟩
  · exact hready

end Judged

/-- What is known in every pool that is reached. -/
structure Inv (sys : Callers K V ι) (c : CallPool C X R ι) : Prop where
  /-- The table is sound. -/
  sound : sys.kv.Sound (sys.Valid C) c.state.store
  /-- All calls are judged. -/
  judged : ∀ i, sys.Judged i (c.procs i) c.state
  /-- A call that has not begun is to run its program. -/
  program : ∀ i, c.done i = 0 → c.procs i = sys.program i

variable {sys : Callers K V ι} {c c' : CallPool C X R ι}

theorem inv_start (sys : Callers K V ι) (env : ℕ → Event X R) :
    sys.Inv (sys.start env : CallPool C X R ι) := by
  have hsound : sys.kv.Sound (sys.Valid C) (sys.start env : CallPool C X R ι).state.store := KeyVal.sound_of_empty rfl
  exact ⟨hsound, fun i => judged_program ⟨hsound, fun h hh => nomatch hh⟩, fun _ _ => rfl⟩

/-- **One step**: an operation of a call, a process that is killed, a loss of power. -/
theorem Inv.step (h : sys.Inv c) (hstep : sys.Step c c') : sys.Inv c' := by
  cases hstep with
  | @op i c' hop =>
    cases hop with
    | @op o k x w' hprog hact =>
      have hj := h.judged i
      rw [hprog] at hj
      obtain ⟨hown, hrest⟩ := Prog.Guarantees.own hj hact
      refine ⟨hown.2.sound h.sound, fun j => ?_, fun j hj => ?_⟩
      · by_cases hji : j = i
        · subst hji
          show sys.Judged j (Function.update c.procs j (k x) j) w'
          rw [Function.update_self]
          exact hrest
        · show sys.Judged j (Function.update c.procs i (k x) j) w'
          rw [Function.update_of_ne hji]
          exact (h.judged j).among (among_of_own h.sound hown fun he => hji he.symm)
      · by_cases hji : j = i
        · subst hji
          simp at hj
        · simp only [Function.update_of_ne hji] at hj ⊢
          exact h.program j hj
  | kill i hbegun =>
    refine ⟨h.sound, fun j => ?_, fun j hj => ?_⟩
    · by_cases hji : j = i
      · subst hji
        show sys.Judged j (Function.update c.procs j (killed (c.procs j)) j) _
        rw [Function.update_self]
        exact judged_killed (h.judged j) (ready_close h.sound) fun r => EndsIn.close
      · show sys.Judged j (Function.update c.procs i (killed (c.procs i)) j) _
        rw [Function.update_of_ne hji]
        refine (h.judged j).among ⟨h.sound, i, fun he => hji he.symm, Kernel.apart_close, .minor (.quiet rfl)⟩
    · have hji : j ≠ i := by
        rintro rfl
        exact hbegun hj
      show Function.update c.procs i (killed (c.procs i)) j = _
      rw [Function.update_of_ne hji]
      exact h.program j hj
  | @powerLoss w hr =>
    have hsound : sys.kv.Sound (sys.Valid C) w.store := by
      refine h.sound.recovers ?_ hr
      rw [sys.sync]
      rfl
    have hready : ∀ j, sys.kv.Ready (sys.Valid C) j w :=
      fun j => ⟨hsound, fun g hg => by cases (hr.handle j).symm.trans hg⟩
    refine ⟨hsound, fun j => ?_, fun j hj => ?_⟩
    · show sys.Judged j (if c.done j = 0 then c.procs j else killed (c.procs j)) w
      split_ifs with hj
      · rw [h.program j hj]
        exact judged_program (hready j)
      · exact judged_killed (h.judged j) (hready j) fun r hends => hends.recovers hr
    · show (if c.done j = 0 then c.procs j else killed (c.procs j)) = _
      rw [if_pos hj]
      exact h.program j hj

/-- **Every pool that is reached.** -/
theorem inv_of_reaches {env : ℕ → Event X R} (h : sys.Reaches env c) : sys.Inv c := by
  induction h with
  | refl => exact inv_start sys env
  | tail _ hstep ih => exact ih.step hstep

/-! ### What callers can see -/

section Answers

variable {S : Type} [DecidableEq S]

/-- Whoever runs the program in this state gets `a`, unless the operating system reports an error. -/
def Answers (p : Tool C X R KeyValError α) (w : Kernel C X R S) (a : α) : Prop :=
  w.event.fault = none → ∀ who s, ∃ w', p.run (Kernel.machine who s) w = some (.ok a, w')

variable {kv : KeyVal K V} {w : Kernel C X R S} {key : K} {n : Inode} {val : V}

/-- A file with a complete value is read. -/
theorem answers_get (hn : w.store.inode kv.baseDir (asFilenameStr key) = some n)
    (hc : w.store.content n = some (Serde.toString val)) : Answers (kv.get key) w (some val) := by
  intro hfault who s
  have hact : Kernel.act who s (.openFile kv.baseDir (asFilenameStr key)) w =
      some (.ok (some (Serde.toString val)), (w.opened s ⟨kv.baseDir, asFilenameStr key, n⟩).next) := by
    simp only [Kernel.act, Kernel.failing, hfault, hn, hc]
    rfl
  have hget : (⟨kv.baseDir, asFilenameStr key, some (Serde.toString val)⟩ : Entry C V).get = .ok val := by
    simp [Entry.get, Serde.fromStr_toString]
  refine ⟨(w.opened s ⟨kv.baseDir, asFilenameStr key, n⟩).next, ?_⟩
  rw [KeyVal.get, KeyVal.entryOpt, if_pos (verified_asFilenameStr key)]
  show ((Kernel.machine who s).act (.openFile kv.baseDir (asFilenameStr key)) w).bind _ = _
  rw [show (Kernel.machine who s).act (.openFile kv.baseDir (asFilenameStr key)) w = _ from hact, Option.bind_some]
  show Prog.run _ (Prog.ofExcept (Entry.get (⟨kv.baseDir, asFilenameStr key, some (Serde.toString val)⟩ : Entry C V)) >>=
    fun val => pure (some val)) _ = _
  rw [hget]
  rfl

omit [DecidableEq S] [Serde C V] in
/-- The names of a sound table are those of keys and those of temporary files, and only the former are listed. -/
theorem exists_keysOf {baseDir : String} {names : List String}
    (h : ∀ name ∈ names, ∃ key : K, name = asFilenameStr key ∨ name = KeyVal.tmpName key) :
    ∃ keys, (KeyVal.keysOf baseDir names : Except KeyValError (List K)) = .ok keys := by
  induction names with
  | nil => exact ⟨[], rfl⟩
  | cons name rest ih =>
    obtain ⟨keys, hkeys⟩ := ih fun name hname => h name (List.mem_cons_of_mem _ hname)
    obtain ⟨key, rfl | rfl⟩ := h name List.mem_cons_self
    · refine ⟨key :: keys, ?_⟩
      simp only [KeyVal.keysOf, keyFromFileName, isTmp_asFilenameStr, tryFrom_asFilenameStr, hkeys, Bool.false_eq_true,
        if_false]
    · refine ⟨keys, ?_⟩
      simp only [KeyVal.keysOf, keyFromFileName, KeyVal.tmpName, isTmp_dot, if_true, hkeys]

omit [Serde C V] in
/-- **A listing** of a sound table gives the keys that have files. -/
theorem answers_keys {valid : K → C → Prop} (hs : kv.Sound valid w.store) :
    ∃ keys, Answers kv.keys w keys ∧
      ∀ key, key ∈ keys ↔ w.store.inode kv.baseDir (asFilenameStr key) ≠ none := by
  have hnames : ∀ name, name ∈ (w.store.folders kv.baseDir).names.keys ↔ w.store.inode kv.baseDir name ≠ none := by
    intro name
    rw [← AList.mem_keys, ← AList.lookup_isSome, Option.isSome_iff_ne_none]
    rfl
  have hnamed : ∀ name ∈ (w.store.folders kv.baseDir).names.keys,
      ∃ key : K, name = asFilenameStr key ∨ name = KeyVal.tmpName key := by
    intro name hname
    obtain ⟨n, hn⟩ := Option.ne_none_iff_exists'.1 ((hnames name).1 hname)
    exact hs.named _ (Folder.may_names _) name n hn
  obtain ⟨keys, hkeys⟩ : ∃ keys, (KeyVal.keysOf kv.baseDir _ : Except KeyValError (List K)) = .ok keys :=
    exists_keysOf hnamed
  refine ⟨keys, fun hfault who s => ?_, fun key => ?_⟩
  · have hact : Kernel.act who s (.readDir kv.baseDir) w = some (.ok (w.store.folders kv.baseDir).names.keys, w.next) := by
      simp only [Kernel.act, Kernel.failing, hfault]
      rfl
    refine ⟨w.next, ?_⟩
    show ((Kernel.machine who s).act (.readDir kv.baseDir) w).bind _ = _
    rw [show (Kernel.machine who s).act (.readDir kv.baseDir) w = _ from hact, Option.bind_some]
    show Prog.run _ (Prog.ofExcept (KeyVal.keysOf kv.baseDir _)) _ = _
    rw [hkeys]
    rfl
  · rw [mem_keysOf hkeys]
    constructor
    · rintro ⟨name, hname, htmp, hfrom⟩
      obtain ⟨key', rfl | rfl⟩ := hnamed name hname
      · rw [tryFrom_asFilenameStr] at hfrom
        rw [← Option.some.inj hfrom]
        exact (hnames _).1 hname
      · rw [KeyVal.tmpName, isTmp_dot] at htmp
        cases htmp
    · intro hkey
      exact ⟨_, (hnames _).2 hkey, isTmp_asFilenameStr key, tryFrom_asFilenameStr key⟩

end Answers

/-! ### Crash safety -/

/-- An insertion that has returned `Ok`. -/
theorem Inv.kept (h : sys.Inv c) {i : ι} {key : K} {val : V} {e : Bool} (hcall : sys.call i = .insert key val e)
    (hret : c.procs i = .ret ()) :
    sys.kv.Kept sys.exclusive i key (Serde.toString val) c.state.store := by
  have hends : sys.EndsIn i (.ok ()) c.state := by
    have hj := h.judged i
    rw [hret] at hj
    exact hj
  simp only [EndsIn, hcall] at hends
  refine hends.2 rfl ?_
  rw [sys.sync]
  rfl

omit [AsKey K] [Serde C V] [DecidableEq ι] in
/-- Two elements of a list, one of them comes after the other. -/
theorem apart_of_append_cons {E : Type} {a b : E} {l₁ l₂ m₁ m₂ : List E} (hab : a ≠ b)
    (h : l₁ ++ a :: l₂ = m₁ ++ b :: m₂) :
    (∃ k, m₁ = l₁ ++ a :: k ∧ l₂ = k ++ b :: m₂) ∨ ∃ k, l₁ = m₁ ++ b :: k ∧ m₂ = k ++ a :: l₂ := by
  rcases List.append_eq_append_iff.1 h with ⟨k, rfl, hk⟩ | ⟨k, rfl, hk⟩
  · cases k with
    | nil => exact absurd (List.cons.inj hk).1 hab
    | cons x k =>
      obtain ⟨rfl, hk'⟩ := List.cons.inj hk
      exact .inl ⟨k, rfl, hk'⟩
  · cases k with
    | nil => exact absurd (List.cons.inj hk).1.symm hab
    | cons x k =>
      obtain ⟨rfl, hk'⟩ := List.cons.inj hk
      exact .inr ⟨k, rfl, hk'⟩

/-- The changes of the directory so far. -/
abbrev changes (c : CallPool C X R ι) : List (Logged ι) := c.state.store.log

/-- Of two exclusive insertions of a key the later one comes after a deletion. -/
theorem Inv.removed_between (h : sys.Inv c) {i j : ι} {key : K} {vali valj : V} (hij : i ≠ j)
    (hi : sys.call i = .insert key vali true) (hj : sys.call j = .insert key valj true)
    (hreti : c.procs i = .ret ()) (hretj : c.procs j = .ret ()) :
    ∃ later e between f earlier, changes c = later ++ e :: (between ++ f :: earlier) ∧
      ((e.session = i ∧ f.session = j) ∨ (e.session = j ∧ f.session = i)) ∧
      KeyVal.Puts sys.kv.baseDir (asFilenameStr key) e ∧ KeyVal.Puts sys.kv.baseDir (asFilenameStr key) f ∧
      ∃ r ∈ between, KeyVal.Removes sys.kv.baseDir (asFilenameStr key) r := by
  obtain ⟨n, since, before, hlog, hkept⟩ := h.kept hi hreti
  obtain ⟨m, since', before', hlog', hkept'⟩ := h.kept hj hretj
  have hne : sys.kv.putOf i key n ≠ sys.kv.putOf j key m := fun he => hij (congrArg Logged.session he)
  have hexi : sys.exclusive i = true := by simp [exclusive, hi]
  have hexj : sys.exclusive j = true := by simp [exclusive, hj]
  rcases apart_of_append_cons hne (hlog.symm.trans hlog') with ⟨k, rfl, rfl⟩ | ⟨k, rfl, rfl⟩
  · refine ⟨since, sys.kv.putOf i key n, k, sys.kv.putOf j key m, before', hlog, .inl ⟨rfl, rfl⟩, KeyVal.puts_putOf,
      KeyVal.puts_putOf, ?_⟩
    exact hkept'.exclusive since _ k rfl KeyVal.puts_putOf hexi
  · refine ⟨since', sys.kv.putOf j key m, k, sys.kv.putOf i key n, before, hlog', .inr ⟨rfl, rfl⟩, KeyVal.puts_putOf,
      KeyVal.puts_putOf, ?_⟩
    exact hkept.exclusive since' _ k rfl KeyVal.puts_putOf hexj

/-- **The table is crash-safe**, in every pool that is reached: the file of a key has a complete value that was
inserted for that key; a value whose insertion has returned `Ok` is read, unless the directory has been changed for
that key since; a listing gives the keys that have files, whatever temporary files there are; and between two
exclusive insertions of a key that have both returned `Ok` its file has been removed. -/
theorem crash_safe {env : ℕ → Event X R} (h : sys.Reaches env c) :
    (∀ key, c.state.store.inode sys.kv.baseDir (asFilenameStr key) = none ∨
      ∃ n i val e, c.state.store.inode sys.kv.baseDir (asFilenameStr key) = some n ∧
        sys.call i = .insert key val e ∧ c.state.store.content n = some (Serde.toString val)) ∧
    (∀ i key val e, sys.call i = .insert key val e → c.procs i = .ret () →
      ∃ n since before, changes c = since ++ sys.kv.putOf i key n :: before ∧
        ((∀ f ∈ since, ¬ KeyVal.Removes sys.kv.baseDir (asFilenameStr key) f ∧
            ¬ KeyVal.Puts sys.kv.baseDir (asFilenameStr key) f) →
          Answers (sys.kv.get key) c.state (some val))) ∧
    (∃ keys, Answers sys.kv.keys c.state keys ∧
      ∀ key, key ∈ keys ↔ c.state.store.inode sys.kv.baseDir (asFilenameStr key) ≠ none) ∧
    (∀ i j key vali valj, i ≠ j → sys.call i = .insert key vali true → sys.call j = .insert key valj true →
      c.procs i = .ret () → c.procs j = .ret () →
        ∃ later e between f earlier, changes c = later ++ e :: (between ++ f :: earlier) ∧
          ((e.session = i ∧ f.session = j) ∨ (e.session = j ∧ f.session = i)) ∧
          KeyVal.Puts sys.kv.baseDir (asFilenameStr key) e ∧ KeyVal.Puts sys.kv.baseDir (asFilenameStr key) f ∧
          ∃ r ∈ between, KeyVal.Removes sys.kv.baseDir (asFilenameStr key) r) := by
  have hinv := inv_of_reaches h
  refine ⟨fun key => ?_, fun i key val e hcall hret => ?_, answers_keys hinv.sound, ?_⟩
  · cases hn : c.state.store.inode sys.kv.baseDir (asFilenameStr key) with
    | none => exact .inl rfl
    | some n =>
      obtain ⟨-, content, hc, i, val, e, hcall, rfl⟩ := hinv.sound.complete _ (Folder.may_names _) key n hn
      exact .inr ⟨n, i, val, e, rfl, hcall, hc⟩
  · obtain ⟨n, since, before, hlog, hkept⟩ := hinv.kept hcall hret
    refine ⟨n, since, before, hlog, fun hnone => ?_⟩
    obtain ⟨hsame, hc⟩ := hkept.same hnone
    exact answers_get (hsame _ (Folder.may_names _)) hc
  · intro i j key vali valj hij hi hj hreti hretj
    exact hinv.removed_between hij hi hj hreti hretj

/-! ### Two insertions and a loss of power -/

/-- The operations of a schedule are steps. -/
theorem reaches_exec {env : ℕ → Event X R} (h : sys.Reaches env c) (schedule : List ι) :
    sys.Reaches env (Pool.exec (Kernel.machine sys.who) c schedule) := by
  have hpool : Pool.Reaches (Kernel.machine sys.who) (fun _ _ _ => True) c
      (Pool.exec (Kernel.machine sys.who) c schedule) :=
    Pool.reaches_exec (fun _ _ _ => trivial) .start schedule
  exact hpool.invariant (sys.Reaches env) h fun i c c' ih hstep _ => .tail ih (.op hstep)

/-- The key that is inserted. -/
def sampleKey : TimeKey := ⟨1, 2, 3⟩

/-- Two processes insert the same key exclusively. -/
def sampleCallers : Callers TimeKey String Bool where
  kv := ⟨"/queue", .all⟩
  sync := rfl
  who i := if i then ⟨1, 5⟩ else ⟨2, 6⟩
  call i := .insert sampleKey (if i then "first" else "second") true

/-- Nothing fails. -/
def sampleEnv (_ : ℕ) : Event Empty (fun _ => Unit) := ⟨.epoch, none, fun x => nomatch x⟩

/-- The second process is waiting for the lock when the first one begins to write. -/
def sampleCalls : CallPool String Empty (fun _ => Unit) Bool :=
  Pool.exec (Kernel.machine sampleCallers.who) (sampleCallers.start sampleEnv)
    (List.replicate 3 true ++ List.replicate 2 false ++ List.replicate 5 true ++ List.replicate 3 false)

/-- The calls after a loss of power, by which nothing is found of what has not been synced. -/
def sampleLost : CallPool String Empty (fun _ => Unit) Bool :=
  let found := { sampleCalls.state with
    store := { sampleCalls.state.store with
      folders := fun dir => ⟨(sampleCalls.state.store.folders dir).durable, []⟩ }
    handle := fun _ => none
    locks := fun _ => none }
  ⟨found, fun i => if sampleCalls.done i = 0 then sampleCalls.procs i else killed (sampleCalls.procs i), sampleCalls.done⟩

/-- The first insertion has returned, and its value is still read afterwards. -/
theorem crash_safe_sample :
    sampleLost.procs true = .ret () ∧
      Answers (sampleCallers.kv.get sampleKey) sampleLost.state (some "first") := by
  have hrecovers : sampleCalls.state.Recovers sampleLost.state :=
    ⟨fun _ => ⟨[], List.nil_sublist _, rfl⟩, fun _ => rfl, fun _ _ => rfl, rfl, rfl, rfl, fun _ => rfl, fun _ => rfl⟩
  have hreaches : sampleCallers.Reaches sampleEnv sampleLost :=
    .tail (reaches_exec .refl _) (.powerLoss hrecovers)
  have hret : sampleLost.procs true = .ret () := by with_unfolding_all rfl
  obtain ⟨-, hread, -⟩ := crash_safe hreaches
  obtain ⟨n, since, before, hlog, hsame⟩ := hread true sampleKey "first" true rfl hret
  refine ⟨hret, hsame ?_⟩
  have hchanges : changes sampleLost =
      [⟨true, "/queue", .move ".1-2-3" "1-2-3" 0⟩, ⟨true, "/queue", .link ".1-2-3" 0⟩] := by
    decide +kernel
  rw [hchanges] at hlog
  cases since with
  | nil => exact fun f hf => absurd hf List.not_mem_nil
  | cons e since =>
    obtain ⟨-, hlog⟩ := List.cons.inj hlog
    cases since with
    | nil => cases congrArg Logged.change (List.cons.inj hlog).1
    | cons e' since =>
      have hlength := congrArg List.length hlog
      simp at hlength

end Callers

end Evobench.KeyValFs

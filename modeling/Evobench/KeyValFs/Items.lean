import Evobench.KeyValFs.SharedTable

/-!
# Items that several consumers go for

A consumer of a queue opens the file of an entry, reads it, waits for the lock on it, and looks whether there is
still a file of that name. What it has open can be another file than the one that has the name by then.

## The model

* `Queue.visit`: what `Queue::items` does for one key.
* `Queue.Current`: the file that the session has open has still its name, or the name is free.
* `Queue.Around`: what the others do, as far as it matters to the session. `Queue.Does`: what the session does.
* `Queue.Taken`: the session has the item: it holds the lock on it, and no one else has removed it.

## What is proved

* `Queue.guarantees_visit`: an item that is handed out has been taken.
* `Queue.guarantees_itemDelete`: an item that has been taken remains so, and after `Ok` it has been removed.
-/

namespace Evobench.KeyValFs

open Library IoUtils

variable {C X S : Type} {R : X → Type} {V ε α : Type}

namespace Queue

/-- What `items` does for one key: `none` if there is nothing to hand out. -/
def visit [Serde C V] (queue : Queue V) (opts : QueueGetItemOptions) (key : TimeKey) :
    Tool C X R KeyValError (Option (QueueItem C V × V)) := do
  match ← queue.getEntry key with
  | none => pure none
  | some entry =>
    let value ← Prog.ofExcept entry.get
    let item ← QueueItem.fromEntry entry opts
    if item.perhapsLock.isGone then
      pure none
    else
      pure (some (item, value))

/-! ### The session and the others -/

/-- The file that the session has open is the one under its name, unless no file has that name. -/
def Current (queue : Queue V) (s : S) (w : Kernel C X R S) : Prop :=
  ∀ h, w.handle s = some h → h.dir = queue.keyVal.baseDir ∧ (∃ key : TimeKey, h.name = asFilenameStr key) ∧
    ∀ m, w.store.inode queue.keyVal.baseDir h.name = some m → m = h.inode

/-- What a session can rely on when others make changes. -/
structure Around (queue : Queue V) (s : S) (w w' : Kernel C X R S) : Prop where
  /-- It has the same file open. -/
  handle : w'.handle s = w.handle s
  /-- It has the same locks. -/
  locks : ∀ x, w.locks x = some s → w'.locks x = some s
  /-- A file that it has locked keeps its name. -/
  kept : ∀ h, w.handle s = some h → w.locks (.inode h.inode) = some s →
    w.store.inode queue.keyVal.baseDir h.name = some h.inode → w'.store.inode queue.keyVal.baseDir h.name = some h.inode
  /-- What has been logged is known. -/
  log : ∀ e ∈ w.store.log, e ∈ w'.store.log
  /-- No other file gets the name. -/
  current : queue.Current s w'

/-- What the session does itself: it opens files of keys, and removes a name if it has locked the file that it had
opened under it. -/
structure Does (queue : Queue V) (s : S) (w w' : Kernel C X R S) : Prop where
  /-- It leaves the others alone. -/
  apart : Kernel.Apart s w w'
  /-- Its open file. -/
  handle : w'.handle s = w.handle s ∨ w'.handle s = none ∨ ∃ (key : TimeKey) (n : Inode),
    w'.handle s = some ⟨queue.keyVal.baseDir, asFilenameStr key, n⟩ ∧
      w.store.inode queue.keyVal.baseDir (asFilenameStr key) = some n
  /-- The files. -/
  store : w'.store = w.store ∨ ∃ h m, w.handle s = some h ∧ w.locks (.inode h.inode) = some s ∧
    w.store.inode queue.keyVal.baseDir h.name = some m ∧
      w'.store = w.store.change s queue.keyVal.baseDir (.unlink h.name m)

/-- The session has removed the file of the key. -/
def Unlinked (queue : Queue V) (s : S) (key : TimeKey) (n : Inode) (w : Kernel C X R S) : Prop :=
  (⟨s, queue.keyVal.baseDir, .unlink (asFilenameStr key) n⟩ : Logged S) ∈ w.store.log

/-- The session has the file of the key open. -/
structure Has (queue : Queue V) (s : S) (key : TimeKey) (n : Inode) (w : Kernel C X R S) : Prop where
  /-- The open file. -/
  handle : w.handle s = some ⟨queue.keyVal.baseDir, asFilenameStr key, n⟩
  /-- It is the one of that name. -/
  current : queue.Current s w

/-- The session has locked the file of the key. -/
structure Owns (queue : Queue V) (s : S) (key : TimeKey) (n : Inode) (w : Kernel C X R S) : Prop
    extends Has queue s key n w where
  /-- The lock. -/
  lock : w.locks (.inode n) = some s

/-- The session has taken the entry: if its file is not there any more, then the session has removed it. -/
structure Taken (queue : Queue V) (s : S) (key : TimeKey) (n : Inode) (w : Kernel C X R S) : Prop
    extends Owns queue s key n w where
  /-- The file is there, or has been removed by the session. -/
  there : w.store.inode queue.keyVal.baseDir (asFilenameStr key) = some n ∨ queue.Unlinked s key n w

section Around

variable {queue : Queue V} {s : S} {key : TimeKey} {n : Inode} {w w' : Kernel C X R S}

theorem Has.around (hw : queue.Has s key n w) (h : queue.Around s w w') : queue.Has s key n w' :=
  ⟨h.handle.trans hw.handle, h.current⟩

theorem Owns.around (hw : queue.Owns s key n w) (h : queue.Around s w w') : queue.Owns s key n w' :=
  ⟨hw.toHas.around h, h.locks _ hw.lock⟩

theorem Owns.there_around (hw : queue.Owns s key n w) (h : queue.Around s w w')
    (hn : w.store.inode queue.keyVal.baseDir (asFilenameStr key) = some n) :
    w'.store.inode queue.keyVal.baseDir (asFilenameStr key) = some n :=
  h.kept _ hw.handle hw.lock hn

theorem Unlinked.around (hw : queue.Unlinked s key n w) (h : queue.Around s w w') : queue.Unlinked s key n w' :=
  h.log _ hw

theorem Taken.around (hw : queue.Taken s key n w) (h : queue.Around s w w') : queue.Taken s key n w' :=
  ⟨hw.toOwns.around h, hw.there.imp (hw.toOwns.there_around h) fun hu => hu.around h⟩

theorem Has.next (hw : queue.Has s key n w) : queue.Has s key n w.next := ⟨hw.handle, hw.current⟩

theorem Owns.next (hw : queue.Owns s key n w) : queue.Owns s key n w.next := ⟨hw.toHas.next, hw.lock⟩

theorem Taken.next (hw : queue.Taken s key n w) : queue.Taken s key n w.next := ⟨hw.toOwns.next, hw.there⟩

/-- A file that has the name is the one that the session has open. -/
theorem Has.eq_inode (hw : queue.Has s key n w) {m : Inode}
    (hm : w.store.inode queue.keyVal.baseDir (asFilenameStr key) = some m) : m = n :=
  (hw.current _ hw.handle).2.2 m hm

/-- The session removes the file that it has locked. -/
theorem Owns.unlink (hw : queue.Owns s key n w) :
    queue.Taken s key n
        (w.stored (w.store.change s queue.keyVal.baseDir (.unlink (asFilenameStr key) n))).next ∧
      queue.Unlinked s key n
        (w.stored (w.store.change s queue.keyVal.baseDir (.unlink (asFilenameStr key) n))).next := by
  have hunlinked : queue.Unlinked s key n
      (w.stored (w.store.change s queue.keyVal.baseDir (.unlink (asFilenameStr key) n))).next := List.mem_cons_self
  refine ⟨⟨⟨⟨hw.handle, fun h hh => ?_⟩, hw.lock⟩, .inr hunlinked⟩, hunlinked⟩
  obtain ⟨hdir, hkey, hsame⟩ := hw.current h hh
  refine ⟨hdir, hkey, fun m hm => ?_⟩
  have hm' : (w.store.change s queue.keyVal.baseDir (.unlink (asFilenameStr key) n)).inode queue.keyVal.baseDir h.name =
      some m := hm
  rw [Store.inode_unlink] at hm'
  split_ifs at hm'
  exact hsame m hm'

end Around

/-! ### A visit -/

section Visit

variable [DecidableEq S] {queue : Queue V} {s : S} {key : TimeKey} {n : Inode} {w w' : Kernel C X R S}
  {who : S → Process}

/-- The judgement of this section. -/
abbrev Visiting (queue : Queue V) (who : S → Process) (s : S) (Q : Outcome ε α → Kernel C X R S → Prop)
    (p : Tool C X R ε α) (w : Kernel C X R S) : Prop :=
  Prog.Guarantees (Kernel.machine who s) (queue.Around s) (queue.Does s) Q p w

/-- An operation that changes nothing that counts. -/
theorem does_of_act {o : Op C X} {x : Ans C X R o} (hact : Kernel.act who s o w = some (x, w'))
    (hstore : w'.store = w.store) (hhandle : w'.handle s = w.handle s) : queue.Does s w w' :=
  ⟨Kernel.apart_of_act hact, .inl hhandle, .inl hstore⟩

/-- Leaving the scope of a lock. -/
theorem visiting_funlock {path : String} {Q : Outcome ε α → Kernel C X R S → Prop} {p : Tool C X R ε α}
    (hp : ∀ t, Visiting queue who s Q p t) : Visiting queue who s Q (Prog.op (.funlock path) fun _ => p) w := by
  refine .op (P := fun _ => True) (fun _ _ _ _ => trivial) trivial fun t x t' _ hact => ?_
  replace hact : Kernel.act who s (.funlock path) t = some (x, t') := hact
  refine ⟨does_of_act hact ?_ ?_, hp t'⟩
  · cases hact
    rfl
  · cases hact
    rfl

/-- Opening the file of a key. -/
theorem visiting_getEntry [Serde C V] {Q : Outcome KeyValError (Option (Entry C V)) → Kernel C X R S → Prop}
    (hw : queue.Current s w) (herr : ∀ e t, Q (.err e) t) (hnone : ∀ t, Q (.ok none) t)
    (hsome : ∀ content n t, queue.Has s key n t →
      Q (.ok (some ⟨queue.keyVal.baseDir, asFilenameStr key, content⟩)) t) :
    Visiting queue who s Q (queue.getEntry key) w := by
  rw [getEntry, KeyVal.entryOpt, if_pos (verified_asFilenameStr key)]
  refine .bind (.attempt (.op (P := queue.Current s) (fun _ _ h _ => h.current) hw fun t x t' ht hact => ?_))
  replace hact : Kernel.act who s (.openFile queue.keyVal.baseDir (asFilenameStr key)) t = some (x, t') := hact
  have hapart := Kernel.apart_of_act hact
  rcases Kernel.cases_openFile hact with ⟨⟨e, rfl⟩, rfl⟩ | ⟨n, hn, rfl, rfl⟩
  · refine ⟨⟨hapart, .inl rfl, .inl rfl⟩, ?_⟩
    cases e with
    | notFound => exact hnone _
    | other errno => exact herr _ _
  · have hhandle : (t.opened s ⟨queue.keyVal.baseDir, asFilenameStr key, n⟩).handle s =
        some ⟨queue.keyVal.baseDir, asFilenameStr key, n⟩ := Function.update_self _ _ _
    refine ⟨⟨hapart, .inr (.inr ⟨key, n, hhandle, hn⟩), .inl rfl⟩, hsome _ n _ ⟨hhandle, fun h hh => ?_⟩⟩
    cases hhandle.symm.trans hh
    exact ⟨rfl, ⟨key, rfl⟩, fun m hm => Option.some.inj (hm.symm.trans hn)⟩

/-- Locking the open file, waiting for the lock or not. -/
theorem visiting_lock {e : Bool} {entry : Entry C V} {wrap : IoError → KeyValError}
    {Q : Outcome KeyValError Bool → Kernel C X R S → Prop} (hentry : entry.targetPath =
      (⟨queue.keyVal.baseDir, asFilenameStr key, n⟩ : Handle).path) (hw : queue.Has s key n w)
    (herr : ∀ f t, Q (.err f) t) (hfalse : ∀ t, Q (.ok false) t) (htrue : ∀ t, queue.Owns s key n t → Q (.ok true) t) :
    Visiting queue who s Q (if e then (Sys.tryFlockExclusive entry.targetPath).mapErr wrap
      else (Sys.flockExclusive entry.targetPath).mapErr wrap >>= fun _ => pure true) w := by
  have hlockOn : ∀ t : Kernel C X R S, queue.Has s key n t → t.lockOn s entry.targetPath = .inode n := by
    intro t ht
    rw [Kernel.lockOn, ht.handle]
    exact if_pos hentry
  have hgot : ∀ t : Kernel C X R S, queue.Has s key n t →
      queue.Owns s key n (t.locked s (t.lockOn s entry.targetPath)).next := by
    intro t ht
    refine ⟨⟨ht.handle, ht.current⟩, ?_⟩
    rw [hlockOn t ht]
    exact Function.update_self _ _ _
  split_ifs
  · refine .mapErr (.op (P := queue.Has s key n) (fun _ _ h ht => ht.around h) hw fun t x t' ht hact => ?_)
    replace hact : Kernel.act who s (.tryFlockExclusive entry.targetPath) t = some (x, t') := hact
    rcases Kernel.cases_tryFlockExclusive hact with ⟨hx, rfl⟩ | ⟨rfl, rfl⟩
    · refine ⟨does_of_act hact rfl rfl, ?_⟩
      cases x with
      | error f => exact herr _ _
      | ok got =>
        cases got with
        | false => exact hfalse _
        | true => exact absurd rfl hx
    · exact ⟨does_of_act hact rfl rfl, htrue _ (hgot t ht)⟩
  · refine .bind (.mapErr (.op (P := queue.Has s key n) (fun _ _ h ht => ht.around h) hw fun t x t' ht hact => ?_))
    replace hact : Kernel.act who s (.flockExclusive entry.targetPath) t = some (x, t') := hact
    rcases Kernel.cases_flockExclusive hact with ⟨⟨f, rfl⟩, rfl⟩ | ⟨rfl, rfl⟩
    · exact ⟨does_of_act hact rfl rfl, herr _ _⟩
    · exact ⟨does_of_act hact rfl rfl, htrue _ (hgot t ht)⟩

/-- Looking whether there is still a file of that name. -/
theorem visiting_exists {entry : Entry C V} {Q : Outcome KeyValError Bool → Kernel C X R S → Prop}
    (hdir : entry.baseDir = queue.keyVal.baseDir) (hname : entry.fileName = asFilenameStr key)
    (hw : queue.Owns s key n w) (hfalse : ∀ t, queue.Owns s key n t → Q (.ok false) t)
    (htrue : ∀ t, queue.Owns s key n t → t.store.inode queue.keyVal.baseDir (asFilenameStr key) = some n →
      Q (.ok true) t) : Visiting queue who s Q entry.exists_ w := by
  refine .op (P := queue.Owns s key n) (fun _ _ h ht => ht.around h) hw fun t x t' ht hact => ?_
  replace hact : Kernel.act who s (.pathExists entry.baseDir entry.fileName) t = some (x, t') := hact
  rw [hdir, hname] at hact
  have hx := (Prod.mk.inj (Option.some.inj hact)).1
  have ht' := (Prod.mk.inj (Option.some.inj hact)).2
  subst ht'
  refine ⟨⟨(Kernel.Apart.refl s t).next, .inl rfl, .inl rfl⟩, ?_⟩
  cases hinode : t.store.inode queue.keyVal.baseDir (asFilenameStr key) with
  | none =>
    rw [hinode] at hx
    subst hx
    exact hfalse _ ht.next
  | some m =>
    rw [hinode] at hx
    subst hx
    refine htrue _ ht.next ?_
    rw [← ht.eq_inode hinode]
    exact hinode

/-- What the session does to an entry that it has taken: it keeps it. -/
def Keeps (queue : Queue V) (s : S) (key : TimeKey) (n : Inode) (w w' : Kernel C X R S) : Prop :=
  queue.Does s w w' ∧ (queue.Taken s key n w → queue.Taken s key n w')

/-- Deleting the entry that has been taken. -/
theorem keeping_delete {entry : Entry C V} {Q : Outcome KeyValError Bool → Kernel C X R S → Prop}
    (hdir : entry.baseDir = queue.keyVal.baseDir) (hname : entry.fileName = asFilenameStr key)
    (hw : queue.Taken s key n w) (herr : ∀ e t, queue.Taken s key n t → Q (.err e) t)
    (hok : ∀ b t, queue.Taken s key n t → queue.Unlinked s key n t → Q (.ok b) t) :
    Prog.Guarantees (Kernel.machine who s) (queue.Around s) (queue.Keeps s key n) Q
      (entry.delete : Tool C X R KeyValError Bool) w := by
  refine .bind (.attempt (.op (P := queue.Taken s key n) (fun _ _ h ht => ht.around h) hw fun t x t' ht hact => ?_))
  replace hact : Kernel.act who s (.removeFile entry.baseDir entry.fileName) t = some (x, t') := hact
  rw [hdir, hname] at hact
  have hapart := Kernel.apart_of_act hact
  rcases Kernel.cases_removeFile hact with ⟨⟨errno, rfl⟩, rfl⟩ | ⟨hnone, rfl, rfl⟩ | ⟨m, hm, rfl, rfl⟩
  · exact ⟨⟨⟨hapart, .inl rfl, .inl rfl⟩, Taken.next⟩, herr _ _ ht.next⟩
  · -- the session itself has removed it before
    refine ⟨⟨⟨hapart, .inl rfl, .inl rfl⟩, Taken.next⟩, hok false _ ht.next ?_⟩
    rcases ht.there with hthere | hunlinked
    · cases hnone.symm.trans hthere
    · exact hunlinked
  · obtain rfl := ht.eq_inode hm
    obtain ⟨htaken, hunlinked⟩ := ht.toOwns.unlink
    exact ⟨⟨⟨hapart, .inl rfl, .inr ⟨_, m, ht.handle, ht.lock, hm, rfl⟩⟩, fun _ => htaken⟩,
      hok true _ htaken hunlinked⟩

/-- What holds when an item is handed out. -/
structure Delivered (queue : Queue V) (s : S) (deleteFirst : Bool) (item : QueueItem C V) (key : TimeKey) (n : Inode)
    (w : Kernel C X R S) : Prop extends Taken queue s key n w where
  /-- The entry's directory. -/
  dir : item.entry.baseDir = queue.keyVal.baseDir
  /-- The entry's name. -/
  name : item.entry.fileName = asFilenameStr key
  /-- With `delete_first` it has been removed. -/
  unlinked : deleteFirst = true → queue.Unlinked s key n w
  /-- Otherwise it is there. -/
  present : deleteFirst = false → w.store.inode queue.keyVal.baseDir (asFilenameStr key) = some n

omit [DecidableEq S] in
theorem Delivered.around {deleteFirst : Bool} {item : QueueItem C V} (hw : queue.Delivered s deleteFirst item key n w)
    (h : queue.Around s w w') : queue.Delivered s deleteFirst item key n w' :=
  ⟨hw.toTaken.around h, hw.dir, hw.name, fun hd => (hw.unlinked hd).around h,
    fun hd => hw.toOwns.there_around h (hw.present hd)⟩

/-- The part of `from_entry` after the attempt to get the lock. -/
def afterLock (entry : Entry C V) (deleteFirst got : Bool) : Tool C X R KeyValError (QueueItem C V) :=
  if !got then
    .throw (.lockTaken entry.baseDir entry.targetPath)
  else do
    if ← entry.exists_ then
      if deleteFirst then
        match ← entry.delete.attempt with
        | .ok _ => pure ⟨entry, .lock⟩
        | .error e => Sys.withLock entry.targetPath (.throw e)
      else
        pure ⟨entry, .lock⟩
    else
      Sys.withLock entry.targetPath (pure ⟨entry, .entryGone⟩)

theorem fromEntry_eq {entry : Entry C V} {opts : QueueGetItemOptions} (hlock : opts.noLock = false) :
    (QueueItem.fromEntry entry opts : Tool C X R KeyValError (QueueItem C V)) =
      ((if opts.errorWhenLocked then
          (Sys.tryFlockExclusive entry.targetPath).mapErr (.io entry.baseDir entry.targetPath "getting lock on file")
        else
          (Sys.flockExclusive entry.targetPath).mapErr (.io entry.baseDir entry.targetPath "getting lock on file") >>=
            fun _ => pure true) >>= afterLock entry opts.deleteFirst) := by
  unfold QueueItem.fromEntry
  rw [hlock]
  cases opts.errorWhenLocked with
  | true => rfl
  | false => rfl

/-- **Making an item**, with a lock: either it is gone or it has been taken. -/
theorem visiting_fromEntry {entry : Entry C V} {opts : QueueGetItemOptions} (hlock : opts.noLock = false)
    (hdir : entry.baseDir = queue.keyVal.baseDir) (hname : entry.fileName = asFilenameStr key)
    (hw : queue.Has s key n w) :
    Visiting queue who s (fun r t => ∀ item, r = .ok item → item.perhapsLock.isGone = false →
      queue.Delivered s opts.deleteFirst item key n t) (QueueItem.fromEntry entry opts) w := by
  have hpath : entry.targetPath = (⟨queue.keyVal.baseDir, asFilenameStr key, n⟩ : Handle).path := by
    rw [Entry.targetPath, hdir, hname]
    rfl
  rw [fromEntry_eq hlock]
  refine .bind (visiting_lock hpath hw ?_ ?_ fun t ht => ?_)
  · rintro f t item ⟨⟩
  · rintro t item ⟨⟩
  refine .bind (visiting_exists hdir hname ht (fun u hu => ?_) fun u hu hthere => ?_)
  · refine visiting_funlock fun v => ?_
    rintro item ⟨⟩ hgone
    cases hgone
  · have htaken : queue.Taken s key n u := ⟨hu, .inl hthere⟩
    show Visiting queue who s _ (if opts.deleteFirst then _ else _) u
    split_ifs with hfirst
    · refine .bind (.attempt ((keeping_delete hdir hname htaken (fun e v _ => ?_) fun b v hv hunlinked => ?_).mono
        (fun _ _ h => h.1) fun _ _ h => h))
      · exact visiting_funlock fun _ _ h => nomatch h
      · rintro item ⟨⟩ -
        exact ⟨hv, hdir, hname, fun _ => hunlinked, fun h => absurd (hfirst.symm.trans h) nofun⟩
    · rintro item ⟨⟩ -
      exact ⟨htaken, hdir, hname, fun h => absurd h hfirst, fun _ => hthere⟩

/-- **A visit among others**: an item that is handed out has been taken. -/
theorem guarantees_visit [Serde C V] {opts : QueueGetItemOptions} (hlock : opts.noLock = false)
    (hw : queue.Current s w) :
    Visiting queue who s (fun r t => ∀ item value, r = .ok (some (item, value)) →
      ∃ n, queue.Delivered s opts.deleteFirst item key n t) (queue.visit opts key) w := by
  refine .bind (visiting_getEntry hw ?_ ?_ fun content n t ht => ?_)
  · rintro e t item value ⟨⟩
  · rintro t item value ⟨⟩
  cases hget : Entry.get (⟨queue.keyVal.baseDir, asFilenameStr key, content⟩ : Entry C V) with
  | error e =>
    show Visiting queue who s _ (Prog.ofExcept (Entry.get _) >>= _) t
    rw [hget]
    exact fun _ _ h => nomatch h
  | ok value =>
    show Visiting queue who s _ (Prog.ofExcept (Entry.get _) >>= _) t
    rw [hget]
    show Visiting queue who s _ (QueueItem.fromEntry _ opts >>= _) t
    refine .bind ((visiting_fromEntry hlock rfl rfl ht).imp fun r u hr => ?_)
    cases r with
    | err e => exact fun _ _ h => nomatch h
    | panic msg => exact fun _ _ h => nomatch h
    | ok item =>
      show Visiting queue who s _ (if item.perhapsLock.isGone then _ else _) u
      split_ifs with hgone
      · exact fun _ _ h => nomatch h
      · rintro _ _ ⟨⟩
        exact ⟨n, hr item rfl (Bool.not_eq_true _ ▸ hgone)⟩

/-- **Deleting an item** that has been taken. -/
theorem guarantees_itemDelete {item : QueueItem C V} (hdir : item.entry.baseDir = queue.keyVal.baseDir)
    (hname : item.entry.fileName = asFilenameStr key) (hw : queue.Taken s key n w) :
    Prog.Guarantees (Kernel.machine who s) (queue.Around s) (queue.Keeps s key n)
      (fun r t => r = .ok () → queue.Unlinked s key n t) (item.delete : Tool C X R KeyValError Unit) w :=
  .bind (keeping_delete hdir hname hw (fun _ _ _ h => nomatch h) fun _ _ _ hunlinked _ => hunlinked)

end Visit

end Queue

end Evobench.KeyValFs

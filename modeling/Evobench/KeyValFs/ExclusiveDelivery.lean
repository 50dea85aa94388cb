import Evobench.KeyValFs.Items
import Evobench.Library.Interleaving

/-!
# Several consumers of one queue

Consumers go through the items of a queue while others push to it. Each of them locks the entries that it gets,
and deletes an item before it lets go of it.

## The model

* `Queue.waitRound`, `Queue.sortedKeys`: the parts of `items` before an entry is opened; `Iteration`: where the
  iterator of a consumer is.
* `QueueUsers`: the consumers with their options, and the pushes with their values.
* `Market`, `Action`, `Market.next`: the state of all of them, and one step of one of them: an operation of an
  iterator, of a deletion or of a push, or an item that is let go. Each entry that a consumer opens is a session
  of its own, with its own open file.
* `Market.handed`: which files have been handed out, to whom, and what had been done until then.
* `Market.Allowed`: the condition on steps.

## What is proved

* `handed_at_most_once`: if no push puts its file in place under a name under which a consumer still has an earlier
  file open, then every file is handed out at most once, and none that someone else has removed.
* `handed_twice`: two pushes with the same key, and the first file is handed out to two consumers, to the second one
  after the first one has deleted it.

## Honest scope

What a consumer does with its items, and when, is not looked at. It can delete an item and let go of it at any
time, and go on with its iterator in between.
-/

namespace Evobench.KeyValFs

open Library IoUtils

variable {C X : Type} {R : X → Type} {V ι κ : Type}

/-! ### The iterator -/

/-- Options for going through a queue. -/
structure QueueIterationOptions where
  /-- Wait for entries if the queue is empty, that is, go on forever. -/
  wait : Bool
  /-- Do not wait longer than this. -/
  stopAt : Option SystemTime
  /-- Sort in reverse. -/
  reverse : Bool
  /-- The options for each item. -/
  getItemOpts : QueueGetItemOptions

namespace Queue

/-- One round of `wait_for_entries`: whether the waiting is over. -/
def waitRound (queue : Queue V) (stopAt : Option SystemTime) : Tool C X R KeyValError Bool := do
  let names ← (Sys.readDir queue.keyVal.baseDir).mapErr
    (queue.keyVal.ioError "opening directory" queue.keyVal.baseDir)
  if names.isEmpty then
    match stopAt with
    | some time => do
      let now ← Sys.systemTime
      pure (decide (time.nanos ≤ now.nanos))
    | none => pure false
  else
    pure true

/-- `sorted_keys`, after the waiting. -/
def sortedKeys (queue : Queue V) (reverse : Bool) : Tool C X R KeyValError (List TimeKey) := do
  let keys ← queue.keyVal.sortedKeys
  pure (if reverse then keys.reverse else keys)

end Queue

/-- Where an iterator is. -/
inductive Iteration (C X : Type) (R : X → Type) (V : Type) where
  /-- It waits for entries. -/
  | waiting (p : Tool C X R KeyValError Bool)
  /-- It lists the keys. -/
  | listing (p : Tool C X R KeyValError (List TimeKey))
  /-- It goes on with these keys when it is asked for the next item. -/
  | among (keys : List TimeKey)
  /-- It looks at an entry, and has these keys left. -/
  | visiting (p : Tool C X R KeyValError (Option (QueueItem C V × V))) (keys : List TimeKey)
  /-- It has ended. -/
  | ended

/-- An item in the hands of a consumer. -/
inductive Holding (C X : Type) (R : X → Type) (V : Type) where
  /-- Nothing: not handed out, or let go. -/
  | nothing
  /-- The item, and whether it has been deleted. -/
  | held (item : QueueItem C V) (deleted : Bool)
  /-- The item is being deleted; it may have been deleted before. -/
  | deleting (item : QueueItem C V) (p : Tool C X R KeyValError Unit) (deleted : Bool)

/-- A session: the visit of an entry, or a push. -/
inductive Session (ι κ : Type) where
  /-- The `n`-th entry that a consumer opens. -/
  | visit (i : ι) (n : ℕ)
  /-- A push. -/
  | push (k : κ)
deriving DecidableEq

theorem visit_ne_push {i : ι} {n : ℕ} {k : κ} : (Session.visit i n : Session ι κ) ≠ .push k := by
  rintro ⟨⟩

/-! ### The users of a queue -/

/-- Consumers and pushes of a queue. -/
structure QueueUsers (V ι κ : Type) where
  /-- The queue. -/
  queue : Queue V
  /-- The processes. -/
  who : Session ι κ → Process
  /-- The options of the consumers. -/
  opts : ι → QueueIterationOptions
  /-- They use locks. -/
  locking : ∀ i, (opts i).getItemOpts.noLock = false
  /-- The values that are pushed. -/
  value : κ → V

/-- A file that has been handed out. -/
structure HandedOut (ι κ : Type) where
  /-- The visit in which it was opened. -/
  session : Session ι κ
  /-- The file. -/
  inode : Option Inode
  /-- What had been changed until then. -/
  before : List (Logged (Session ι κ))
deriving DecidableEq

/-- The state of all users. -/
structure Market (C X : Type) (R : X → Type) (V ι κ : Type) where
  /-- The system. -/
  kernel : Kernel C X R (Session ι κ)
  /-- The iterators. -/
  iteration : ι → Iteration C X R V
  /-- How many entries each of them has visited. -/
  visits : ι → ℕ
  /-- What the consumers have. -/
  holding : ι → ℕ → Holding C X R V
  /-- What the pushes have still to do. -/
  pushing : κ → Tool C X R KeyValError Unit
  /-- What has been handed out, the latest first. -/
  handed : List (HandedOut ι κ)

/-- Who makes the next step. -/
inductive Action (ι κ : Type) where
  /-- The iterator of a consumer goes on. -/
  | advance (i : ι)
  /-- A consumer goes on to delete the item of a visit. -/
  | delete (i : ι) (n : ℕ)
  /-- A consumer lets go of a deleted item. -/
  | release (i : ι) (n : ℕ)
  /-- A push goes on. -/
  | push (k : κ)

namespace Market

variable [DecidableEq ι] [DecidableEq κ] [Serde C V]

/-- One operation of a program. -/
def perform {ε α : Type} (sys : QueueUsers V ι κ) (s : Session ι κ) (o : Op C X) (k : Ans C X R o → Tool C X R ε α)
    (w : Kernel C X R (Session ι κ)) : Option (Tool C X R ε α × Kernel C X R (Session ι κ)) :=
  (Kernel.act sys.who s o w).map fun r => (k r.1, r.2)

/-- The iterator is somewhere else. -/
def at_ (c : Market C X R V ι κ) (i : ι) (it : Iteration C X R V) : Market C X R V ι κ :=
  { c with iteration := Function.update c.iteration i it }

/-- The consumer has something else of a visit. -/
def holds (c : Market C X R V ι κ) (i : ι) (n : ℕ) (x : Holding C X R V) : Market C X R V ι κ :=
  { c with holding := Function.update c.holding i (Function.update (c.holding i) n x) }

/-- The system is in another state. -/
def inState (c : Market C X R V ι κ) (w : Kernel C X R (Session ι κ)) : Market C X R V ι κ := { c with kernel := w }

/-- The visit has ended, and its file is closed. -/
def leave (c : Market C X R V ι κ) (i : ι) : Market C X R V ι κ :=
  { c with kernel := c.kernel.close (.visit i (c.visits i)), visits := Function.update c.visits i (c.visits i + 1) }

/-- The item of the visit is handed out. -/
def handOut (c : Market C X R V ι κ) (i : ι) (item : QueueItem C V) (deleted : Bool) : Market C X R V ι κ :=
  { c.holds i (c.visits i) (.held item deleted) with
    visits := Function.update c.visits i (c.visits i + 1)
    handed := ⟨.visit i (c.visits i), (c.kernel.handle (.visit i (c.visits i))).map Handle.inode, c.kernel.store.log⟩ ::
      c.handed }

/-- What an iterator does first: with `wait` it waits for entries. -/
def beginning (sys : QueueUsers V ι κ) (i : ι) : Iteration C X R V :=
  if (sys.opts i).wait then .waiting (sys.queue.waitRound (sys.opts i).stopAt)
  else .listing (sys.queue.sortedKeys (sys.opts i).reverse)

/-- The iterator goes on. -/
def advance (sys : QueueUsers V ι κ) (c : Market C X R V ι κ) (i : ι) : Option (Market C X R V ι κ) :=
  match c.iteration i with
  | .waiting (.op o k) => (perform sys (.visit i (c.visits i)) o k c.kernel).map fun r =>
      (c.inState r.2).at_ i (.waiting r.1)
  | .waiting (.ret finished) => some (c.at_ i (if finished then .listing (sys.queue.sortedKeys (sys.opts i).reverse)
      else .waiting (sys.queue.waitRound (sys.opts i).stopAt)))
  | .waiting _ => some (c.at_ i .ended)
  | .listing (.op o k) => (perform sys (.visit i (c.visits i)) o k c.kernel).map fun r =>
      (c.inState r.2).at_ i (.listing r.1)
  | .listing (.ret keys) => some (c.at_ i (.among keys))
  | .listing _ => some (c.at_ i .ended)
  | .among (key :: keys) => some (c.at_ i (.visiting (sys.queue.visit (sys.opts i).getItemOpts key) keys))
  | .among [] => some (c.at_ i (if (sys.opts i).wait then beginning sys i else .ended))
  | .visiting (.op o k) keys => (perform sys (.visit i (c.visits i)) o k c.kernel).map fun r =>
      (c.inState r.2).at_ i (.visiting r.1 keys)
  | .visiting (.ret none) keys => some (c.leave i |>.at_ i (.among keys))
  | .visiting (.ret (some (item, _))) keys =>
      some (c.handOut i item (sys.opts i).getItemOpts.deleteFirst |>.at_ i (.among keys))
  | .visiting _ _ => some (c.leave i |>.at_ i .ended)
  | .ended => none

/-- The consumer goes on to delete an item. -/
def delete (sys : QueueUsers V ι κ) (c : Market C X R V ι κ) (i : ι) (n : ℕ) : Option (Market C X R V ι κ) :=
  match c.holding i n with
  | .nothing => none
  | .held item deleted => some (c.holds i n (.deleting item item.delete deleted))
  | .deleting item (.op o k) deleted => (perform sys (.visit i n) o k c.kernel).map fun r =>
      (c.inState r.2).holds i n (.deleting item r.1 deleted)
  | .deleting item (.ret ()) _ => some (c.holds i n (.held item true))
  | .deleting item _ deleted => some (c.holds i n (.held item deleted))

/-- The consumer lets go of an item that has been deleted. -/
def release (c : Market C X R V ι κ) (i : ι) (n : ℕ) : Option (Market C X R V ι κ) :=
  match c.holding i n with
  | .held _ true => some ((c.inState (c.kernel.close (.visit i n))).holds i n .nothing)
  | _ => none

/-- A push goes on. -/
def push (sys : QueueUsers V ι κ) (c : Market C X R V ι κ) (k : κ) : Option (Market C X R V ι κ) :=
  match c.pushing k with
  | .op o f => (perform sys (.push k) o f c.kernel).map fun r =>
      { c.inState r.2 with pushing := Function.update c.pushing k r.1 }
  | _ => none

/-- One step. -/
def next (sys : QueueUsers V ι κ) (c : Market C X R V ι κ) : Action ι κ → Option (Market C X R V ι κ)
  | .advance i => advance sys c i
  | .delete i n => delete sys c i n
  | .release i n => release c i n
  | .push k => push sys c k

/-- Some steps. -/
def run (sys : QueueUsers V ι κ) (actions : List (Action ι κ)) (c : Market C X R V ι κ) :
    Option (Market C X R V ι κ) :=
  actions.foldlM (next sys) c

/-- A new directory, and no one has begun. -/
def start (sys : QueueUsers V ι κ) (env : ℕ → Event X R) : Market C X R V ι κ where
  kernel := ⟨⟨fun _ => ⟨∅, []⟩, fun _ => none, fun _ => false, 0, []⟩, fun _ => none, fun _ => none, fun _ => 0, env, 0⟩
  iteration := beginning sys
  visits _ := 0
  holding _ _ := .nothing
  pushing k := sys.queue.pushFront (sys.value k)
  handed := []

/-- The condition on a step: a push does not put a file in place under a name under which a consumer still has an
earlier file open. -/
def Allowed (c : Market C X R V ι κ) : Action ι κ → Prop
  | .push k => ∀ dir source target f, c.pushing k = .op (.rename dir source target) f →
      ∀ i n h, c.kernel.handle (.visit i n) = some h → ¬ (h.dir = dir ∧ h.name = target)
  | _ => True

/-- What is reached by steps that satisfy a condition. -/
inductive Reaches (sys : QueueUsers V ι κ) (allowed : Market C X R V ι κ → Action ι κ → Prop) (env : ℕ → Event X R) :
    Market C X R V ι κ → Prop where
  /-- The start. -/
  | start : Reaches sys allowed env (start sys env)
  /-- After one step more. -/
  | step {c c' : Market C X R V ι κ} {a : Action ι κ} (h : Reaches sys allowed env c) (hnext : next sys c a = some c')
    (hallowed : allowed c a) : Reaches sys allowed env c'

end Market

/-! ### What holds of the system -/

section Globals

variable {queue : Queue V} {w w' : Kernel C X R (Session ι κ)}

/-- What holds of the files at any time. -/
structure Globals (queue : Queue V) (w : Kernel C X R (Session ι κ)) : Prop where
  /-- The table is sound. -/
  sound : queue.keyVal.Sound (fun (_ : TimeKey) (_ : C) => True) w.store
  /-- What a visit has open has still its name, or the name is free. -/
  current : ∀ i n, queue.Current (.visit i n) w
  /-- A file that has been removed has no name any more. -/
  gone : ∀ e ∈ w.store.log, e.dir = queue.keyVal.baseDir → ∀ a n, e.change = .unlink a n →
    n < w.store.fresh ∧ ∀ b, w.store.inode queue.keyVal.baseDir b ≠ some n
  /-- A file is removed by one session. -/
  remover : ∀ e ∈ w.store.log, ∀ f ∈ w.store.log, e.dir = queue.keyVal.baseDir → f.dir = queue.keyVal.baseDir →
    ∀ a b n, e.change = .unlink a n → f.change = .unlink b n → e.session = f.session

/-- The log has no new removals, and no removed file gets a name. -/
theorem Globals.of_log (h : Globals queue w)
    (hsound : queue.keyVal.Sound (fun (_ : TimeKey) (_ : C) => True) w'.store)
    (hcurrent : ∀ i n, queue.Current (.visit i n) w') (hfresh : w.store.fresh ≤ w'.store.fresh)
    (hlog : ∀ e ∈ w'.store.log, ∀ a n, e.change = .unlink a n → e ∈ w.store.log)
    (hinode : ∀ b m, w'.store.inode queue.keyVal.baseDir b = some m →
      w.store.fresh ≤ m ∨ ∃ b', w.store.inode queue.keyVal.baseDir b' = some m) : Globals queue w' := by
  refine ⟨hsound, hcurrent, fun e he hdir a n hchange => ?_, fun e he f hf hdir hdir' a b n ha hb => ?_⟩
  · obtain ⟨hlt, hno⟩ := h.gone e (hlog e he a n hchange) hdir a n hchange
    refine ⟨Nat.lt_of_lt_of_le hlt hfresh, fun b hb => ?_⟩
    rcases hinode b n hb with hle | ⟨b', hb'⟩
    · exact absurd hlt (Nat.not_lt.2 hle)
    · exact hno b' hb'
  · exact h.remover e (hlog e he a n ha) f (hlog f hf b n hb) hdir hdir' a b n ha hb

/-- What a visit does is an effect on the table. -/
theorem effect_of_does {s : Session ι κ} (exclusive : Session ι κ → Bool) (hcurrent : queue.Current s w)
    (hd : queue.Does s w w') : queue.keyVal.Effect (fun (_ : TimeKey) (_ : C) => True) exclusive True s w w' := by
  rcases hd.store with hstore | ⟨h, m, hh, -, hm, hstore⟩
  · exact .minor (.quiet hstore)
  · obtain ⟨-, ⟨key, hkey⟩, -⟩ := hcurrent h hh
    rw [hkey] at hm hstore
    exact .minor (.unlinked key m trivial hm hstore)

/-- A visit gives no name to any file. -/
theorem inode_of_does {s : Session ι κ} (hd : queue.Does s w w') {a : String} {m : Inode}
    (hm : w'.store.inode queue.keyVal.baseDir a = some m) : w.store.inode queue.keyVal.baseDir a = some m := by
  rcases hd.store with hstore | ⟨h, m', -, -, -, hstore⟩
  · rwa [hstore] at hm
  · rw [hstore, Store.inode_unlink] at hm
    split_ifs at hm
    exact hm

/-- **A step of a visit.** -/
theorem Globals.does {i : ι} {n : ℕ} (h : Globals queue w) (hd : queue.Does (.visit i n) w w') : Globals queue w' := by
  have hsound := (effect_of_does (fun _ => true) (h.current i n) hd).sound h.sound
  have hcurrent : ∀ j m, queue.Current (.visit j m) w' := by
    intro j m g hg
    have hsame : w'.handle (.visit j m) = w.handle (.visit j m) → g.dir = queue.keyVal.baseDir ∧
        (∃ key : TimeKey, g.name = asFilenameStr key) ∧
          ∀ m, w'.store.inode queue.keyVal.baseDir g.name = some m → m = g.inode := by
      intro he
      obtain ⟨hdir, hkey, hfile⟩ := h.current j m g (he.symm.trans hg)
      exact ⟨hdir, hkey, fun m' hm' => hfile m' (inode_of_does hd hm')⟩
    by_cases hs : (Session.visit j m : Session ι κ) = .visit i n
    · rw [hs] at hg hsame
      rcases hd.handle with hhandle | hnone | ⟨key, n', hopened, hn'⟩
      · exact hsame hhandle
      · cases hnone.symm.trans hg
      · cases hopened.symm.trans hg
        refine ⟨rfl, ⟨key, rfl⟩, fun m' hm' => ?_⟩
        exact Option.some.inj ((inode_of_does hd hm').symm.trans hn')
    · exact hsame (hd.apart.handle _ hs)
  rcases hd.store with hstore | ⟨g, m, hg, hlock, hm, hstore⟩
  · rw [hstore] at hsound
    exact h.of_log (hstore ▸ hsound) hcurrent (by rw [hstore]) (by rw [hstore]; exact fun e he _ _ _ => he)
      fun b m hb => .inr ⟨b, inode_of_does hd hb⟩
  · have hlog : ∀ e ∈ w'.store.log, e = ⟨.visit i n, queue.keyVal.baseDir, .unlink g.name m⟩ ∨ e ∈ w.store.log := by
      rw [hstore]
      exact fun e he => List.mem_cons.1 he
    refine ⟨hsound, hcurrent, fun e he hdir a m' hchange => ?_, fun e he f hf hdir hdir' a b m' ha hb => ?_⟩
    · rcases hlog e he with rfl | he
      · cases hchange
        refine ⟨?_, fun b hb => ?_⟩
        · rw [hstore]
          exact h.sound.lt_fresh hm
        · rw [hstore, Store.inode_unlink] at hb
          split_ifs at hb with hname
          exact hname (h.sound.injective _ (Folder.may_names _) _ _ _ hb hm)
      · obtain ⟨hlt, hno⟩ := h.gone e he hdir a m' hchange
        refine ⟨?_, fun b hb => hno b (inode_of_does hd hb)⟩
        rw [hstore]
        exact hlt
    · rcases hlog e he with rfl | he
      · cases ha
        rcases hlog f hf with rfl | hf
        · rfl
        · exact absurd hm ((h.gone f hf hdir' b _ hb).2 _)
      · rcases hlog f hf with rfl | hf
        · cases hb
          exact absurd hm ((h.gone e he hdir a _ ha).2 _)
        · exact h.remover e he f hf hdir hdir' a b m' ha hb

/-- What a push does to the files: no deletion, and exclusively. -/
abbrev Pushes (queue : Queue V) (s : Session ι κ) (w w' : Kernel C X R (Session ι κ)) : Prop :=
  queue.keyVal.Own (fun (_ : TimeKey) (_ : C) => True) (fun _ => true) False s w w'

/-- The condition on a step of a push. -/
def Apt (queue : Queue V) (w w' : Kernel C X R (Session ι κ)) : Prop :=
  ∀ s (key : TimeKey) m, w'.store = w.store.change s queue.keyVal.baseDir (.move (KeyVal.tmpName key) (asFilenameStr key) m) →
    ∀ i n h, w.handle (.visit i n) = some h → h.name ≠ asFilenameStr key

/-- Another file gets a name that is neither open in a visit nor that of a file that is there. -/
theorem Globals.current_push {k : κ} (h : Globals queue w) (hp : Pushes queue (.push k) w w') (hapt : Apt queue w w')
    (i : ι) (n : ℕ) : queue.Current (.visit i n) w' := by
  have hs : (Session.visit i n : Session ι κ) ≠ .push k := visit_ne_push
  intro g hg
  rw [hp.1.handle _ hs] at hg
  obtain ⟨hdir, ⟨key, hkey⟩, hfile⟩ := h.current i n g hg
  refine ⟨hdir, ⟨key, hkey⟩, fun m hm => hfile m ?_⟩
  cases hp.2 with
  | minor hminor =>
    cases hminor with
    | quiet hstore => rwa [hstore] at hm
    | syncedFile m' hstore => rwa [hstore, Store.inode_sync] at hm
    | syncedDir hstore => rwa [hstore, Store.inode_syncDir] at hm
    | unlinked key' m' hdeletes hm' hstore => exact hdeletes.elim
  | created key' hlock hstore =>
    rwa [hstore, Store.inode_create, hkey, if_neg (KeyVal.tmpName_ne_asFilenameStr key' key).symm, ← hkey] at hm
  | wrote key' m' c hlock hm' hstore => rwa [hstore, Store.inode_write] at hm
  | moved key' m' c hlock hm' hc hvalid hsynced hexclusive hstore =>
    rw [hstore, Store.inode_move, if_neg (hapt _ key' m' hstore i n g hg)] at hm
    split_ifs at hm
    exact hm

/-- **A step of a push.** -/
theorem Globals.pushes {k : κ} (h : Globals queue w) (hp : Pushes queue (.push k) w w') (hapt : Apt queue w w') :
    Globals queue w' := by
  have hsound := hp.2.sound h.sound
  have hcurrent := h.current_push hp hapt
  cases hp.2 with
  | minor hminor =>
    cases hminor with
    | quiet hstore =>
      exact h.of_log hsound hcurrent (by rw [hstore]) (by rw [hstore]; exact fun e he _ _ _ => he)
        fun b m hb => .inr ⟨b, by rwa [hstore] at hb⟩
    | syncedFile m' hstore =>
      exact h.of_log hsound hcurrent (by rw [hstore, Store.fresh_sync])
        (by rw [hstore, Store.log_sync]; exact fun e he _ _ _ => he)
        fun b m hb => .inr ⟨b, by rwa [hstore, Store.inode_sync] at hb⟩
    | syncedDir hstore =>
      exact h.of_log hsound hcurrent (by rw [hstore, Store.fresh_syncDir])
        (by rw [hstore, Store.log_syncDir]; exact fun e he _ _ _ => he)
        fun b m hb => .inr ⟨b, by rwa [hstore, Store.inode_syncDir] at hb⟩
    | unlinked key' m' hdeletes hm' hstore => exact hdeletes.elim
  | created key' hlock hstore =>
    refine h.of_log hsound hcurrent ?_ (fun e he a n hchange => ?_) fun b m hb => ?_
    · rw [hstore, Store.fresh_create]
      exact Nat.le_succ _
    · rw [hstore, Store.log_create] at he
      rcases List.mem_cons.1 he with rfl | he
      · cases hchange
      · exact he
    · rw [hstore, Store.inode_create] at hb
      split_ifs at hb
      · exact .inl (Option.some.inj hb).le
      · exact .inr ⟨b, hb⟩
  | wrote key' m' c hlock hm' hstore =>
    exact h.of_log hsound hcurrent (by rw [hstore, Store.fresh_write])
      (by rw [hstore, Store.log_write]; exact fun e he _ _ _ => he)
      fun b m hb => .inr ⟨b, by rwa [hstore, Store.inode_write] at hb⟩
  | moved key' m' c hlock hm' hc hvalid hsynced hexclusive hstore =>
    refine h.of_log hsound hcurrent (by rw [hstore, Store.fresh_change]) (fun e he a n hchange => ?_) fun b m hb => ?_
    · rw [hstore, Store.log_change] at he
      rcases List.mem_cons.1 he with rfl | he
      · cases hchange
      · exact he
    · rw [hstore, Store.inode_move] at hb
      split_ifs at hb
      · exact .inr ⟨_, hm'.trans hb⟩
      · exact .inr ⟨b, hb⟩

/-! ### What the sessions see of each other -/

/-- A visit as seen from another one. -/
theorem around_of_does {i j : ι} {n m : ℕ} (h : Globals queue w) (hd : queue.Does (.visit i n) w w')
    (hs : (Session.visit j m : Session ι κ) ≠ .visit i n) : queue.Around (.visit j m) w w' := by
  refine ⟨hd.apart.handle _ hs, fun x hx => (hd.apart.locks x _ hs).2 hx, fun g hg hlock hg' => ?_, fun e he => ?_,
    (h.does hd).current j m⟩
  · rcases hd.store with hstore | ⟨f, n', hf, hlock', hn', hstore⟩
    · rwa [hstore]
    · rw [hstore, Store.inode_unlink]
      split_ifs with hname
      · -- both would have locked the same file
        rw [hname] at hg'
        have hsame := (h.current i n f hf).2.2 _ hg'
        rw [hsame] at hlock
        exact absurd (Option.some.inj (hlock.symm.trans hlock')) hs
      · exact hg'
  · rcases hd.store with hstore | ⟨f, n', -, -, -, hstore⟩
    · rwa [hstore]
    · rw [hstore]
      exact List.mem_cons_of_mem _ he

/-- A push as seen from a visit. -/
theorem around_of_pushes {j : ι} {m : ℕ} {k : κ} (h : Globals queue w) (hp : Pushes queue (.push k) w w')
    (hapt : Apt queue w w') : queue.Around (.visit j m) w w' := by
  have hs : (Session.visit j m : Session ι κ) ≠ .push k := visit_ne_push
  refine ⟨hp.1.handle _ hs, fun x hx => (hp.1.locks x _ hs).2 hx, fun g hg hlock hg' => ?_,
    fun e he => hp.2.mem_log he, h.current_push hp hapt j m⟩
  · obtain ⟨-, ⟨key, hkey⟩, -⟩ := h.current j m g hg
    have htmp : ∀ key' : TimeKey, g.name ≠ KeyVal.tmpName key' := by
      intro key'
      rw [hkey]
      exact (KeyVal.tmpName_ne_asFilenameStr key' key).symm
    cases hp.2 with
    | minor hminor =>
      cases hminor with
      | quiet hstore => rwa [hstore]
      | syncedFile m' hstore => rwa [hstore, Store.inode_sync]
      | syncedDir hstore => rwa [hstore, Store.inode_syncDir]
      | unlinked key' m' hdeletes hm' hstore => exact hdeletes.elim
    | created key' hlock hstore => rwa [hstore, Store.inode_create, if_neg (htmp key')]
    | wrote key' m' c hlock hm' hstore => rwa [hstore, Store.inode_write]
    | moved key' m' c hlock hm' hc hvalid hsynced hexclusive hstore =>
      have hname : g.name ≠ asFilenameStr key' := by
        intro he
        rw [he, hexclusive rfl] at hg'
        cases hg'
      rwa [hstore, Store.inode_move, if_neg hname, if_neg (htmp key')]

end Globals

/-! ### What holds of each session -/

section Sessions

variable [DecidableEq ι] [DecidableEq κ] {sys : QueueUsers V ι κ} {w w' : Kernel C X R (Session ι κ)}
  {c : Market C X R V ι κ}

/-- A change that leaves the files alone, and the open file of the session. -/
def Still {S : Type} (s : S) (w w' : Kernel C X R S) : Prop :=
  Kernel.Apart s w w' ∧ w'.store = w.store ∧ w'.handle s = w.handle s

omit [DecidableEq ι] [DecidableEq κ] in
theorem Still.does {s : Session ι κ} (h : Still s w w') : sys.queue.Does s w w' := ⟨h.1, .inl h.2.2, .inl h.2.1⟩

theorem still_readDir {s : Session ι κ} {who : Session ι κ → Process} {dir : String} :
    Prog.Respects (Kernel.machine who s) (Still s) (fun _ => True)
      (Sys.readDir dir : Tool C X R IoError (List String)) := by
  intro t x t' hact
  replace hact : Kernel.act who s (.readDir dir) t = some (x, t') := hact
  refine ⟨⟨Kernel.apart_of_act hact, ?_⟩, .ofExcept fun _ _ => trivial⟩
  rcases Kernel.cases_of_failing hact with ⟨-, rfl⟩ | ⟨-, rfl⟩
  · exact ⟨rfl, rfl⟩
  · exact ⟨rfl, rfl⟩

theorem still_waitRound {s : Session ι κ} {who : Session ι κ → Process} {queue : Queue V}
    {stopAt : Option SystemTime} : Prog.Respects (Kernel.machine who s) (Still s) (fun _ => True)
      (queue.waitRound stopAt : Tool C X R KeyValError Bool) := by
  refine .bind (.mapErr still_readDir) fun names _ => ?_
  split_ifs with hempty
  · cases stopAt with
    | none => exact trivial
    | some time =>
      intro t x t' hact
      replace hact : Kernel.act who s .systemTime t = some (x, t') := hact
      refine ⟨⟨Kernel.apart_of_act hact, ?_⟩, trivial⟩
      cases hact
      exact ⟨rfl, rfl⟩
  · exact trivial

theorem still_sortedKeys {s : Session ι κ} {who : Session ι κ → Process} {queue : Queue V} {reverse : Bool} :
    Prog.Respects (Kernel.machine who s) (Still s) (fun _ => True)
      (queue.sortedKeys reverse : Tool C X R KeyValError (List TimeKey)) := by
  refine .bind (Q := fun _ => True) (.bind (Q := fun _ => True) (.bind (.mapErr still_readDir) fun names _ => ?_)
    fun keys _ => trivial) fun keys _ => trivial
  exact .ofExcept fun _ _ => trivial

/-- What holds of the visit in which an iterator is, or which it makes next. -/
def IterOk (sys : QueueUsers V ι κ) (i : ι) (n : ℕ) (it : Iteration C X R V) (w : Kernel C X R (Session ι κ)) : Prop :=
  match it with
  | .waiting p => w.handle (.visit i n) = none ∧
      Prog.Respects (Kernel.machine sys.who (.visit i n)) (Still (.visit i n)) (fun _ => True) p
  | .listing p => w.handle (.visit i n) = none ∧
      Prog.Respects (Kernel.machine sys.who (.visit i n)) (Still (.visit i n)) (fun _ => True) p
  | .among _ => w.handle (.visit i n) = none
  | .visiting p _ => sys.queue.Visiting sys.who (.visit i n) (fun r t => ∀ item value, r = .ok (some (item, value)) →
      ∃ key m, sys.queue.Delivered (.visit i n) (sys.opts i).getItemOpts.deleteFirst item key m t) p w
  | .ended => w.handle (.visit i n) = none

/-- What holds of a visit whose item has been handed out. -/
def HoldOk (sys : QueueUsers V ι κ) (i : ι) (n : ℕ) (x : Holding C X R V) (w : Kernel C X R (Session ι κ)) : Prop :=
  match x with
  | .nothing => w.handle (.visit i n) = none
  | .held item deleted => ∃ key m, sys.queue.Taken (.visit i n) key m w ∧
      item.entry.baseDir = sys.queue.keyVal.baseDir ∧ item.entry.fileName = asFilenameStr key ∧
        (deleted = true → sys.queue.Unlinked (.visit i n) key m w)
  | .deleting item p deleted => ∃ key m, sys.queue.Taken (.visit i n) key m w ∧
      item.entry.baseDir = sys.queue.keyVal.baseDir ∧ item.entry.fileName = asFilenameStr key ∧
        (deleted = true → sys.queue.Unlinked (.visit i n) key m w) ∧
        Prog.Guarantees (Kernel.machine sys.who (.visit i n)) (sys.queue.Around (.visit i n))
          (sys.queue.Keeps (.visit i n) key m) (fun r t => r = .ok () → sys.queue.Unlinked (.visit i n) key m t) p w

/-- What holds of a push. -/
def PushOk (sys : QueueUsers V ι κ) (k : κ) (p : Tool C X R KeyValError Unit) (w : Kernel C X R (Session ι κ)) : Prop :=
  Prog.Guarantees (Kernel.machine sys.who (.push k))
    (sys.queue.keyVal.Among (fun (_ : TimeKey) (_ : C) => True) (fun _ => true) (.push k))
    (Pushes sys.queue (.push k)) (fun _ _ => True) p w

/-- What holds of a file that has been handed out: its visit still has it, or has removed it. -/
def HandedOk (sys : QueueUsers V ι κ) (c : Market C X R V ι κ) (d : HandedOut ι κ) (w : Kernel C X R (Session ι κ)) :
    Prop :=
  ∃ i n m, d.session = .visit i n ∧ n < c.visits i ∧ d.inode = some m ∧
    ((∃ key, sys.queue.Unlinked (.visit i n) key m w) ∨
      (c.holding i n ≠ .nothing ∧ ∃ h, w.handle (.visit i n) = some h ∧ h.inode = m))

theorem IterOk.around {i : ι} {n : ℕ} {it : Iteration C X R V} (h : IterOk sys i n it w)
    (ha : sys.queue.Around (.visit i n) w w') : IterOk sys i n it w' := by
  cases it with
  | waiting p => exact ⟨ha.handle.trans h.1, h.2⟩
  | listing p => exact ⟨ha.handle.trans h.1, h.2⟩
  | among keys => exact ha.handle.trans h
  | ended => exact ha.handle.trans h
  | visiting p keys =>
    refine Prog.Guarantees.env (fun r s t hB hQ item value hr => ?_) h ha
    obtain ⟨key, m, hd⟩ := hQ item value hr
    exact ⟨key, m, hd.around hB⟩

theorem iterOk_beginning [Serde C V] {i : ι} {n : ℕ} (hnone : w.handle (.visit i n) = none) :
    IterOk sys i n (Market.beginning sys i) w := by
  unfold Market.beginning
  split_ifs
  · exact ⟨hnone, still_waitRound⟩
  · exact ⟨hnone, still_sortedKeys⟩

theorem HoldOk.around {i : ι} {n : ℕ} {x : Holding C X R V} (h : HoldOk sys i n x w)
    (ha : sys.queue.Around (.visit i n) w w') : HoldOk sys i n x w' := by
  cases x with
  | nothing => exact ha.handle.trans h
  | held item deleted =>
    obtain ⟨key, m, ht, hdir, hname, hdeleted⟩ := h
    exact ⟨key, m, ht.around ha, hdir, hname, fun hd => (hdeleted hd).around ha⟩
  | deleting item p deleted =>
    obtain ⟨key, m, ht, hdir, hname, hdeleted, hp⟩ := h
    exact ⟨key, m, ht.around ha, hdir, hname, fun hd => (hdeleted hd).around ha,
      hp.env (fun r s t hB hQ hr => (hQ hr).around hB) ha⟩

/-- What holds in every state that is reached. -/
structure Market.Inv (sys : QueueUsers V ι κ) (c : Market C X R V ι κ) : Prop where
  /-- The files. -/
  globals : Globals sys.queue c.kernel
  /-- The iterators. -/
  iter : ∀ i, IterOk sys i (c.visits i) (c.iteration i) c.kernel
  /-- The visits whose items have been handed out. -/
  hold : ∀ i n, n < c.visits i → HoldOk sys i n (c.holding i n) c.kernel
  /-- The others have nothing. -/
  later : ∀ i n, c.visits i ≤ n → c.holding i n = .nothing
  /-- Visits that have not been made have not opened anything. -/
  unopened : ∀ i n, c.visits i < n → c.kernel.handle (.visit i n) = none
  /-- The pushes. -/
  push : ∀ k, PushOk sys k (c.pushing k) c.kernel
  /-- What has been handed out. -/
  handed : ∀ d ∈ c.handed, HandedOk sys c d c.kernel
  /-- No file has been handed out twice. -/
  nodup : (c.handed.map HandedOut.inode).Nodup
  /-- No file has been handed out that had been removed, but by the visit itself for `delete_first`. -/
  before : ∀ d ∈ c.handed, ∀ i n m, d.session = .visit i n → d.inode = some m → ∀ e ∈ d.before, ∀ a,
    e.dir = sys.queue.keyVal.baseDir → e.change = .unlink a m →
      e.session = d.session ∧ (sys.opts i).getItemOpts.deleteFirst = true

/-- What still holds after a change made by the session `s`, of everything else. -/
structure Rest (sys : QueueUsers V ι κ) (c : Market C X R V ι κ) (s : Session ι κ) (w : Kernel C X R (Session ι κ)) :
    Prop where
  /-- The files. -/
  globals : Globals sys.queue w
  /-- The iterators. -/
  iter : ∀ i, Session.visit i (c.visits i) ≠ s → IterOk sys i (c.visits i) (c.iteration i) w
  /-- The visits whose items have been handed out. -/
  hold : ∀ i n, Session.visit i n ≠ s → n < c.visits i → HoldOk sys i n (c.holding i n) w
  /-- Visits that have not been made. -/
  unopened : ∀ i n, Session.visit i n ≠ s → c.visits i < n → w.handle (.visit i n) = none
  /-- The pushes. -/
  push : ∀ k, Session.push k ≠ s → PushOk sys k (c.pushing k) w
  /-- What has been handed out in other visits. -/
  handed : ∀ d ∈ c.handed, d.session ≠ s → HandedOk sys c d w
  /-- What has been logged. -/
  log : ∀ e ∈ c.kernel.store.log, e ∈ w.store.log

/-- The rest of the system, when it sees the change like this. -/
theorem Market.Inv.rest (h : c.Inv sys) {s : Session ι κ} (hglobals : Globals sys.queue w)
    (haround : ∀ i n, Session.visit i n ≠ s → sys.queue.Around (.visit i n) c.kernel w)
    (hamong : ∀ k, Session.push k ≠ s →
      sys.queue.keyVal.Among (fun (_ : TimeKey) (_ : C) => True) (fun _ => true) (.push k) c.kernel w)
    (hlog : ∀ e ∈ c.kernel.store.log, e ∈ w.store.log) : Rest sys c s w := by
  refine ⟨hglobals, fun i hi => (h.iter i).around (haround i _ hi), fun i n hi hn => (h.hold i n hn).around (haround i n hi),
    fun i n hi hn => (haround i n hi).handle.trans (h.unopened i n hn),
    fun k hk => (h.push k).env (fun _ _ _ _ _ => trivial) (hamong k hk), fun d hd hds => ?_, hlog⟩
  obtain ⟨i, n, m, hsession, hn, hinode, hor⟩ := h.handed d hd
  rw [hsession] at hds
  refine ⟨i, n, m, hsession, hn, hinode, hor.imp ?_ ?_⟩
  · rintro ⟨key, hunlinked⟩
    exact ⟨key, hlog _ hunlinked⟩
  · rintro ⟨hholding, g, hg, hm⟩
    exact ⟨hholding, g, (haround i n hds).handle.trans hg, hm⟩

theorem Market.Inv.rest_does (h : c.Inv sys) {i : ι} {n : ℕ} (hd : sys.queue.Does (.visit i n) c.kernel w) :
    Rest sys c (.visit i n) w := by
  refine h.rest (h.globals.does hd) (fun j m hs => around_of_does h.globals hd hs) (fun k hk => ?_) fun e he => ?_
  · exact ⟨(h.globals.does hd).sound, .visit i n, hk.symm, hd.apart, effect_of_does _ (h.globals.current i n) hd⟩
  · exact (effect_of_does (fun _ => true) (h.globals.current i n) hd).mem_log he

theorem Market.Inv.rest_pushes (h : c.Inv sys) {k : κ} (hp : Pushes sys.queue (.push k) c.kernel w)
    (hapt : Apt sys.queue c.kernel w) : Rest sys c (.push k) w := by
  refine h.rest (h.globals.pushes hp hapt) (fun j m _ => around_of_pushes h.globals hp hapt) (fun k' hk' => ?_)
    fun e he => hp.2.mem_log he
  exact ⟨(h.globals.pushes hp hapt).sound, .push k, hk'.symm, hp.1, hp.2.imp False.elim⟩

/-- Nothing has been changed. -/
theorem Market.Inv.rest_self (h : c.Inv sys) (s : Session ι κ) : Rest sys c s c.kernel :=
  ⟨h.globals, fun i _ => h.iter i, fun i n _ => h.hold i n, fun i n _ => h.unopened i n, fun k _ => h.push k,
    fun d hd _ => h.handed d hd, fun _ => id⟩

/-! ### One step -/

/-- **The iterator goes on** in the visit in which it is. -/
theorem Market.Inv.iterate (h : c.Inv sys) {i : ι} (hrest : Rest sys c (.visit i (c.visits i)) w)
    {it : Iteration C X R V} (hit : IterOk sys i (c.visits i) it w) : ((c.inState w).at_ i it).Inv sys := by
  have hother : ∀ {j n}, n < c.visits j → (Session.visit j n : Session ι κ) ≠ .visit i (c.visits i) := by
    rintro j n hn he
    cases he
    exact lt_irrefl _ hn
  have hlater : ∀ {j n}, c.visits j < n → (Session.visit j n : Session ι κ) ≠ .visit i (c.visits i) := by
    rintro j n hn he
    cases he
    exact lt_irrefl _ hn
  refine ⟨hrest.globals, fun j => ?_, fun j n hn => hrest.hold j n (hother hn) hn, h.later,
    fun j n hn => hrest.unopened j n (hlater hn) hn, fun k => hrest.push k visit_ne_push.symm, fun d hd => ?_, h.nodup, h.before⟩
  · show IterOk sys j (c.visits j) (Function.update c.iteration i it j) w
    by_cases hj : j = i
    · subst hj
      rw [Function.update_self]
      exact hit
    · rw [Function.update_of_ne hj]
      refine hrest.iter j fun he => hj ?_
      cases he
      rfl
  · obtain ⟨j, n, m, hsession, hn, -⟩ := h.handed d hd
    refine hrest.handed d hd ?_
    rw [hsession]
    exact hother hn

/-- **A visit ends** without an item. -/
theorem Market.Inv.leave (h : c.Inv sys) {i : ι} {it : Iteration C X R V} (hit : ∀ n w,
    w.handle (.visit i n) = none → IterOk sys i n it w) : ((c.leave i).at_ i it).Inv sys := by
  have hnone : (c.kernel.close (.visit i (c.visits i))).handle (.visit i (c.visits i)) = none := by
    simp [Kernel.close]
  have hrest : Rest sys c (.visit i (c.visits i)) (c.kernel.close (.visit i (c.visits i))) :=
    h.rest_does ⟨Kernel.apart_close, .inr (.inl hnone), .inl rfl⟩
  have hvisits : ∀ j, c.visits j ≤ (c.leave i).visits j := by
    intro j
    show c.visits j ≤ Function.update c.visits i (c.visits i + 1) j
    rw [Function.update_apply]
    split_ifs with hj
    · rw [hj]
      exact Nat.le_succ _
    · exact le_rfl
  have hself : (c.leave i).visits i = c.visits i + 1 := Function.update_self _ _ _
  have hother : ∀ {j n}, n < c.visits j ∨ j ≠ i ∨ c.visits j < n →
      (Session.visit j n : Session ι κ) ≠ .visit i (c.visits i) := by
    rintro j n hn he
    cases he
    rcases hn with hn | hn | hn
    · exact lt_irrefl _ hn
    · exact hn rfl
    · exact lt_irrefl _ hn
  refine ⟨hrest.globals, fun j => ?_, fun j n hn => ?_, fun j n hn => h.later j n ((hvisits j).trans hn),
    fun j n hn => ?_, fun k => hrest.push k visit_ne_push.symm, fun d hd => ?_, h.nodup, h.before⟩
  · show IterOk sys j ((c.leave i).visits j) (Function.update c.iteration i it j) _
    by_cases hj : j = i
    · subst hj
      rw [Function.update_self, hself]
      exact hit _ _ (hrest.unopened j _ (hother (.inr (.inr (Nat.lt_succ_self _)))) (Nat.lt_succ_self _))
    · rw [Function.update_of_ne hj]
      show IterOk sys j (Function.update c.visits i (c.visits i + 1) j) _ _
      rw [Function.update_of_ne hj]
      exact hrest.iter j (hother (.inr (.inl hj)))
  · by_cases hn' : n < c.visits j
    · exact hrest.hold j n (hother (.inl hn')) hn'
    · show HoldOk sys j n (c.holding j n) _
      rw [h.later j n (Nat.not_lt.1 hn')]
      by_cases hj : j = i
      · subst hj
        have hn₁ : n < (c.leave j).visits j := hn
        rw [hself] at hn₁
        obtain rfl : n = c.visits j := by omega
        exact hnone
      · have hn₁ : n < (c.leave i).visits j := hn
        rw [show (c.leave i).visits j = c.visits j from Function.update_of_ne hj _ _] at hn₁
        exact absurd hn₁ hn'
  · have hn' : c.visits j < n := Nat.lt_of_le_of_lt (hvisits j) hn
    exact hrest.unopened j n (hother (.inr (.inr hn'))) hn'
  · obtain ⟨j, n, m, hsession, hn, hinode, hor⟩ := h.handed d hd
    obtain ⟨j', n', m', hsession', hn', hinode', hor'⟩ := hrest.handed d hd (by
      rw [hsession]
      exact hother (.inl hn))
    exact ⟨j', n', m', hsession', Nat.lt_of_lt_of_le hn' (hvisits j'), hinode', hor'⟩

/-- **What has been delivered is new**, and no one else has removed it. -/
theorem Market.Inv.delivered_new (h : c.Inv sys) {i : ι} {item : QueueItem C V} {key : TimeKey} {m : Inode}
    {deleteFirst : Bool} (hd : sys.queue.Delivered (.visit i (c.visits i)) deleteFirst item key m c.kernel) :
    (some m ∉ c.handed.map HandedOut.inode) ∧ ∀ e ∈ c.kernel.store.log, ∀ a, e.dir = sys.queue.keyVal.baseDir →
      e.change = .unlink a m → e.session = .visit i (c.visits i) ∧ deleteFirst = true := by
  have hremoved : ∀ e ∈ c.kernel.store.log, ∀ a, e.dir = sys.queue.keyVal.baseDir → e.change = .unlink a m →
      e.session = .visit i (c.visits i) ∧ deleteFirst = true := by
    intro e he a hdir hchange
    cases deleteFirst with
    | true => exact ⟨h.globals.remover e he _ (hd.unlinked rfl) hdir rfl a _ m hchange rfl, rfl⟩
    | false => exact absurd (hd.present rfl) ((h.globals.gone e he hdir a m hchange).2 _)
  refine ⟨fun hmem => ?_, hremoved⟩
  obtain ⟨d, hdmem, hdinode⟩ := List.mem_map.1 hmem
  obtain ⟨j, n, m', hsession, hn, hinode, hor⟩ := h.handed d hdmem
  obtain rfl : m' = m := Option.some.inj (hinode.symm.trans hdinode)
  have hne : (Session.visit j n : Session ι κ) ≠ .visit i (c.visits i) := by
    intro he
    cases he
    exact lt_irrefl _ hn
  rcases hor with ⟨key', hunlinked⟩ | ⟨hholding, g, hg, rfl⟩
  · exact hne (hremoved _ hunlinked _ rfl rfl).1
  · -- the other visit would have the lock
    have hhold := h.hold j n hn
    have hlocked : ∃ key' m', sys.queue.Taken (.visit j n) key' m' c.kernel := by
      cases hx : c.holding j n with
      | nothing => exact absurd hx hholding
      | held item' deleted =>
        rw [hx] at hhold
        obtain ⟨key', m', ht, -⟩ := hhold
        exact ⟨key', m', ht⟩
      | deleting item' p deleted =>
        rw [hx] at hhold
        obtain ⟨key', m', ht, -⟩ := hhold
        exact ⟨key', m', ht⟩
    obtain ⟨key', m', ht⟩ := hlocked
    cases ht.handle.symm.trans hg
    exact hne (Option.some.inj (ht.lock.symm.trans hd.lock))

/-- **An item is handed out.** -/
theorem Market.Inv.handOut (h : c.Inv sys) {i : ι} {item : QueueItem C V} {key : TimeKey} {m : Inode}
    {keys : List TimeKey} (hd : sys.queue.Delivered (.visit i (c.visits i)) (sys.opts i).getItemOpts.deleteFirst item key
      m c.kernel) : ((c.handOut i item (sys.opts i).getItemOpts.deleteFirst).at_ i (.among keys)).Inv sys := by
  obtain ⟨hnew, hremoved⟩ := h.delivered_new hd
  have hinode : (c.kernel.handle (.visit i (c.visits i))).map Handle.inode = some m := by
    rw [hd.handle]
    rfl
  have hvisits : ∀ j, c.visits j ≤ Function.update c.visits i (c.visits i + 1) j := by
    intro j
    rw [Function.update_apply]
    split_ifs with hj
    · rw [hj]
      exact Nat.le_succ _
    · exact le_rfl
  have hholding : ∀ j n, n ≠ c.visits j ∨ j ≠ i → Function.update c.holding i (Function.update (c.holding i) (c.visits i)
      (.held item (sys.opts i).getItemOpts.deleteFirst)) j n = c.holding j n := by
    intro j n hjn
    by_cases hj : j = i
    · subst hj
      rw [Function.update_self, Function.update_of_ne (hjn.resolve_right fun hne => hne rfl)]
    · rw [Function.update_of_ne hj]
  have hself : Function.update c.holding i (Function.update (c.holding i) (c.visits i)
      (.held item (sys.opts i).getItemOpts.deleteFirst)) i (c.visits i) =
        .held item (sys.opts i).getItemOpts.deleteFirst := by
    rw [Function.update_self, Function.update_self]
  refine ⟨h.globals, fun j => ?_, fun j n hn => ?_, fun j n hn => ?_, fun j n hn => ?_, h.push, fun d hdmem => ?_, ?_,
    fun d hdmem => ?_⟩
  · show IterOk sys j (Function.update c.visits i (c.visits i + 1) j) (Function.update c.iteration i (.among keys) j) _
    by_cases hj : j = i
    · subst hj
      rw [Function.update_self, Function.update_self]
      exact h.unopened j _ (Nat.lt_succ_self _)
    · rw [Function.update_of_ne hj, Function.update_of_ne hj]
      exact h.iter j
  · show HoldOk sys j n (Function.update c.holding i _ j n) _
    replace hn : n < Function.update c.visits i (c.visits i + 1) j := hn
    by_cases hjn : n ≠ c.visits j ∨ j ≠ i
    · rw [hholding j n hjn]
      refine h.hold j n ?_
      by_cases hj : j = i
      · subst hj
        have hne := hjn.resolve_right fun hne => hne rfl
        rw [Function.update_self] at hn
        omega
      · rwa [Function.update_of_ne hj] at hn
    · push Not at hjn
      obtain ⟨rfl, rfl⟩ := hjn
      rw [hself]
      exact ⟨key, m, hd.toTaken, hd.dir, hd.name, hd.unlinked⟩
  · show Function.update c.holding i _ j n = _
    replace hn : Function.update c.visits i (c.visits i + 1) j ≤ n := hn
    have hjn : n ≠ c.visits j ∨ j ≠ i := by
      by_cases hj : j = i
      · subst hj
        rw [Function.update_self] at hn
        exact .inl (by omega)
      · exact .inr hj
    rw [hholding j n hjn]
    exact h.later j n ((hvisits j).trans hn)
  · exact h.unopened j n (Nat.lt_of_le_of_lt (hvisits j) hn)
  · rcases List.mem_cons.1 hdmem with rfl | hdmem
    · refine ⟨i, c.visits i, m, rfl, ?_, hinode, .inr ⟨?_, _, hd.handle, rfl⟩⟩
      · show c.visits i < Function.update c.visits i (c.visits i + 1) i
        rw [Function.update_self]
        exact Nat.lt_succ_self _
      · show Function.update c.holding i _ i (c.visits i) ≠ _
        rw [hself]
        exact nofun
    · obtain ⟨j, n, m', hsession, hn, hinode', hor⟩ := h.handed d hdmem
      refine ⟨j, n, m', hsession, Nat.lt_of_lt_of_le hn (hvisits j), hinode', hor.imp_right ?_⟩
      rintro ⟨hne, hg⟩
      refine ⟨?_, hg⟩
      show Function.update c.holding i _ j n ≠ _
      rwa [hholding j n (.inl hn.ne)]
  · show (_ :: c.handed.map HandedOut.inode).Nodup
    rw [List.nodup_cons]
    refine ⟨?_, h.nodup⟩
    rw [show (HandedOut.inode _) = some m from hinode]
    exact hnew
  · rcases List.mem_cons.1 hdmem with rfl | hdmem
    · intro j n m' hsession hinode' e he a hdir hchange
      cases hsession
      cases hinode.symm.trans hinode'
      exact hremoved e he a hdir hchange
    · exact h.before d hdmem

/-- **A step of an iterator.** -/
theorem Market.Inv.advance [Serde C V] (h : c.Inv sys) {c' : Market C X R V ι κ} {i : ι}
    (hnext : Market.advance sys c i = some c') : c'.Inv sys := by
  have hiter := h.iter i
  have hself := h.rest_self (.visit i (c.visits i))
  unfold Market.advance at hnext
  cases hit : c.iteration i with
  | ended =>
    rw [hit] at hnext
    cases hnext
  | waiting p =>
    rw [hit] at hiter hnext
    obtain ⟨hnone, hp⟩ := hiter
    cases p with
    | op o k =>
      obtain ⟨r, hr, rfl⟩ := Option.map_eq_some_iff.1 hnext
      obtain ⟨⟨x, w⟩, hact, rfl⟩ := Option.map_eq_some_iff.1 hr
      obtain ⟨hstill, hk⟩ := hp _ _ _ hact
      exact h.iterate (h.rest_does hstill.does) ⟨hstill.2.2.trans hnone, hk⟩
    | ret finished =>
      cases hnext
      refine h.iterate hself ?_
      split_ifs
      · exact ⟨hnone, still_sortedKeys⟩
      · exact ⟨hnone, still_waitRound⟩
    | throw e =>
      cases hnext
      exact h.iterate hself hnone
    | panic msg =>
      cases hnext
      exact h.iterate hself hnone
  | listing p =>
    rw [hit] at hiter hnext
    obtain ⟨hnone, hp⟩ := hiter
    cases p with
    | op o k =>
      obtain ⟨r, hr, rfl⟩ := Option.map_eq_some_iff.1 hnext
      obtain ⟨⟨x, w⟩, hact, rfl⟩ := Option.map_eq_some_iff.1 hr
      obtain ⟨hstill, hk⟩ := hp _ _ _ hact
      exact h.iterate (h.rest_does hstill.does) ⟨hstill.2.2.trans hnone, hk⟩
    | ret keys =>
      cases hnext
      exact h.iterate hself hnone
    | throw e =>
      cases hnext
      exact h.iterate hself hnone
    | panic msg =>
      cases hnext
      exact h.iterate hself hnone
  | among keys =>
    rw [hit] at hiter hnext
    cases keys with
    | nil =>
      cases hnext
      refine h.iterate hself ?_
      split_ifs
      · exact iterOk_beginning hiter
      · exact hiter
    | cons key keys =>
      cases hnext
      refine h.iterate hself ?_
      refine (Queue.guarantees_visit (sys.locking i) (h.globals.current i _)).imp fun r t hr item value he => ?_
      exact ⟨key, hr item value he⟩
  | visiting p keys =>
    rw [hit] at hiter hnext
    cases p with
    | op o k =>
      obtain ⟨r, hr, rfl⟩ := Option.map_eq_some_iff.1 hnext
      obtain ⟨⟨x, w⟩, hact, rfl⟩ := Option.map_eq_some_iff.1 hr
      obtain ⟨hdoes, hk⟩ := Prog.Guarantees.own hiter hact
      exact h.iterate (h.rest_does hdoes) hk
    | ret r =>
      cases r with
      | none =>
        cases hnext
        exact h.leave fun _ _ hnone => hnone
      | some itemValue =>
        obtain ⟨item, value⟩ := itemValue
        cases hnext
        obtain ⟨key, m, hd⟩ := hiter item value rfl
        exact h.handOut hd
    | throw e =>
      cases hnext
      exact h.leave fun _ _ hnone => hnone
    | panic msg =>
      cases hnext
      exact h.leave fun _ _ hnone => hnone

/-- **A consumer does something with an item.** It still has the file open, or has removed it. -/
theorem Market.Inv.holds (h : c.Inv sys) {i : ι} {n : ℕ} (hn : n < c.visits i) (hrest : Rest sys c (.visit i n) w)
    {x : Holding C X R V} (hx : HoldOk sys i n x w)
    (hkeep : (x ≠ .nothing ∧ w.handle (.visit i n) = c.kernel.handle (.visit i n)) ∨ ∃ key g,
      c.kernel.handle (.visit i n) = some g ∧ sys.queue.Unlinked (.visit i n) key g.inode w) :
    ((c.inState w).holds i n x).Inv sys := by
  have hholding : ∀ j m, (Session.visit j m : Session ι κ) ≠ .visit i n →
      Function.update c.holding i (Function.update (c.holding i) n x) j m = c.holding j m := by
    intro j m hne
    by_cases hj : j = i
    · subst hj
      rw [Function.update_self, Function.update_of_ne]
      rintro rfl
      exact hne rfl
    · rw [Function.update_of_ne hj]
  have hself : Function.update c.holding i (Function.update (c.holding i) n x) i n = x := by
    rw [Function.update_self, Function.update_self]
  have hcurrent : ∀ j m, c.visits j ≤ m → (Session.visit j m : Session ι κ) ≠ .visit i n := by
    rintro j m hm he
    cases he
    exact absurd hn (Nat.not_lt.2 hm)
  refine ⟨hrest.globals, fun j => hrest.iter j (hcurrent j _ le_rfl), fun j m hm => ?_, fun j m hm => ?_,
    fun j m hm => hrest.unopened j m (hcurrent j m hm.le) hm, fun k => hrest.push k visit_ne_push.symm, fun d hd => ?_, h.nodup,
    h.before⟩
  · show HoldOk sys j m (Function.update c.holding i (Function.update (c.holding i) n x) j m) w
    by_cases hjm : (Session.visit j m : Session ι κ) = .visit i n
    · cases hjm
      rw [hself]
      exact hx
    · rw [hholding j m hjm]
      exact hrest.hold j m hjm hm
  · show Function.update c.holding i (Function.update (c.holding i) n x) j m = _
    rw [hholding j m (hcurrent j m hm)]
    exact h.later j m hm
  · by_cases hds : d.session = .visit i n
    · obtain ⟨j, m, file, hsession, hm, hinode, hor⟩ := h.handed d hd
      cases hsession.symm.trans hds
      refine ⟨i, n, file, hsession, hm, hinode, ?_⟩
      rcases hor with ⟨key, hunlinked⟩ | ⟨hne, g, hg, rfl⟩
      · exact .inl ⟨key, hrest.log _ hunlinked⟩
      · rcases hkeep with ⟨hx', hhandle⟩ | ⟨key, g', hg', hunlinked⟩
        · refine .inr ⟨?_, g, hhandle.trans hg, rfl⟩
          show Function.update c.holding i (Function.update (c.holding i) n x) i n ≠ _
          rwa [hself]
        · cases hg'.symm.trans hg
          exact .inl ⟨key, hunlinked⟩
    · obtain ⟨j, m, file, hsession, hm, hinode, hor⟩ := hrest.handed d hd hds
      refine ⟨j, m, file, hsession, hm, hinode, hor.imp_right ?_⟩
      rintro ⟨hne, hg⟩
      refine ⟨?_, hg⟩
      show Function.update c.holding i (Function.update (c.holding i) n x) j m ≠ _
      rwa [hholding j m (hsession ▸ hds)]

/-- **A step of a deletion.** -/
theorem Market.Inv.delete (h : c.Inv sys) {c' : Market C X R V ι κ} {i : ι} {n : ℕ}
    (hnext : Market.delete sys c i n = some c') : c'.Inv sys := by
  have hn : c.holding i n ≠ .nothing → n < c.visits i := fun hne => Nat.lt_of_not_le fun hle => hne (h.later i n hle)
  unfold Market.delete at hnext
  cases hx : c.holding i n with
  | nothing =>
    rw [hx] at hnext
    cases hnext
  | held item deleted =>
    have hlt := hn (by simp [hx])
    have hhold := h.hold i n hlt
    rw [hx] at hnext hhold
    cases hnext
    obtain ⟨key, m, ht, hdir, hname, hdeleted⟩ := hhold
    refine h.holds hlt (h.rest_self _) ⟨key, m, ht, hdir, hname, hdeleted, ?_⟩ (.inl ⟨nofun, rfl⟩)
    exact Queue.guarantees_itemDelete hdir hname ht
  | deleting item p deleted =>
    have hlt := hn (by simp [hx])
    have hhold := h.hold i n hlt
    rw [hx] at hnext hhold
    obtain ⟨key, m, ht, hdir, hname, hdeleted, hp⟩ := hhold
    cases p with
    | ret u =>
      cases hnext
      exact h.holds hlt (h.rest_self _) ⟨key, m, ht, hdir, hname, fun _ => hp rfl⟩ (.inl ⟨nofun, rfl⟩)
    | throw e =>
      cases hnext
      exact h.holds hlt (h.rest_self _) ⟨key, m, ht, hdir, hname, hdeleted⟩ (.inl ⟨nofun, rfl⟩)
    | panic msg =>
      cases hnext
      exact h.holds hlt (h.rest_self _) ⟨key, m, ht, hdir, hname, hdeleted⟩ (.inl ⟨nofun, rfl⟩)
    | op o k =>
      obtain ⟨r, hr, rfl⟩ := Option.map_eq_some_iff.1 hnext
      obtain ⟨⟨x, w⟩, hact, rfl⟩ := Option.map_eq_some_iff.1 hr
      obtain ⟨⟨hdoes, hkeeps⟩, hp'⟩ := Prog.Guarantees.own hp hact
      have hrest := h.rest_does hdoes
      have ht' := hkeeps ht
      refine h.holds hlt hrest ⟨key, m, ht', hdir, hname, fun hd => hrest.log _ (hdeleted hd), hp'⟩ (.inl ⟨nofun, ?_⟩)
      exact ht'.handle.trans ht.handle.symm

/-- **An item is let go of.** -/
theorem Market.Inv.release (h : c.Inv sys) {c' : Market C X R V ι κ} {i : ι} {n : ℕ}
    (hnext : Market.release c i n = some c') : c'.Inv sys := by
  unfold Market.release at hnext
  split at hnext
  · next item hx =>
    cases hnext
    have hlt : n < c.visits i := by
      refine Nat.lt_of_not_le fun hle => ?_
      cases hx.symm.trans (h.later i n hle)
    have hhold := h.hold i n hlt
    rw [hx] at hhold
    obtain ⟨key, m, ht, -, -, hunlinked⟩ := hhold
    have hnone : (c.kernel.close (.visit i n)).handle (.visit i n) = none := by simp [Kernel.close]
    refine h.holds hlt (h.rest_does ⟨Kernel.apart_close, .inr (.inl hnone), .inl rfl⟩) hnone ?_
    exact .inr ⟨key, _, ht.handle, hunlinked rfl⟩
  · cases hnext

/-- **A step of a push.** -/
theorem Market.Inv.pushed (h : c.Inv sys) {c' : Market C X R V ι κ} {k : κ} (hnext : Market.push sys c k = some c')
    (hallowed : Market.Allowed c (.push k)) : c'.Inv sys := by
  unfold Market.push at hnext
  split at hnext
  · next o f hp =>
    obtain ⟨r, hr, rfl⟩ := Option.map_eq_some_iff.1 hnext
    obtain ⟨⟨x, w⟩, hact, rfl⟩ := Option.map_eq_some_iff.1 hr
    have hk := h.push k
    rw [hp] at hk
    obtain ⟨hpushes, hk'⟩ := Prog.Guarantees.own hk hact
    have hapt : Apt sys.queue c.kernel w := by
      intro s key m hstore i n g hg hname
      obtain rfl := Kernel.eq_rename_of_act hact (by rw [hstore]; rfl)
      exact hallowed _ _ _ f hp i n g hg ⟨(h.globals.current i n g hg).1, hname⟩
    have hrest := h.rest_pushes hpushes hapt
    refine ⟨hrest.globals, fun i => hrest.iter i visit_ne_push, fun i n => hrest.hold i n visit_ne_push, h.later,
      fun i n => hrest.unopened i n visit_ne_push, fun j => ?_, fun d hd => ?_, h.nodup, h.before⟩
    · show PushOk sys j (Function.update c.pushing k (f x) j) w
      by_cases hj : j = k
      · subst hj
        rw [Function.update_self]
        exact hk'
      · rw [Function.update_of_ne hj]
        refine hrest.push j fun he => hj ?_
        cases he
        rfl
    · obtain ⟨j, n, m, hsession, -⟩ := h.handed d hd
      refine hrest.handed d hd ?_
      rw [hsession]
      exact nofun
  · cases hnext

/-! ### Runs -/

/-- A push, before it has begun. -/
theorem guarantees_pushFront [Serde C V] {k : κ} {val : V}
    (hw : sys.queue.keyVal.Ready (fun (_ : TimeKey) (_ : C) => True) (.push k) w) :
    PushOk sys k (sys.queue.pushFront val) w := by
  have hquiet : ∀ {o : Op C X} {t t' : Kernel C X R (Session ι κ)} {x : Ans C X R o},
      Kernel.act sys.who (.push k) o t = some (x, t') → t'.store = t.store → Pushes sys.queue (.push k) t t' :=
    fun hact hstore => ⟨Kernel.apart_of_act hact, .minor (.quiet hstore)⟩
  have hready : ∀ t t' : Kernel C X R (Session ι κ),
      sys.queue.keyVal.Among (fun (_ : TimeKey) (_ : C) => True) (fun _ => true) (.push k) t t' →
        sys.queue.keyVal.Ready (fun (_ : TimeKey) (_ : C) => True) (.push k) t →
          sys.queue.keyVal.Ready (fun (_ : TimeKey) (_ : C) => True) (.push k) t' := fun _ _ hamong ht => ht.among hamong
  refine .bind (.op hready hw fun t x t' ht hact => ?_)
  replace hact : Kernel.act sys.who (.push k) .systemTime t = some (x, t') := hact
  obtain ⟨hstore, ht'⟩ : t'.store = t.store ∧ sys.queue.keyVal.Ready (fun (_ : TimeKey) (_ : C) => True) (.push k) t' := by
    cases hact
    exact ⟨rfl, ht.next⟩
  refine ⟨hquiet hact hstore, ?_⟩
  show Prog.Guarantees _ _ _ _ (if h : 0 ≤ x.nanos then _ else _) t'
  split_ifs with hx
  · refine .op hready ht' fun u y u' hu hact => ?_
    replace hact : Kernel.act sys.who (.push k) .processId u = some (y, u') := hact
    obtain ⟨hstore, hu'⟩ : u'.store = u.store ∧
        sys.queue.keyVal.Ready (fun (_ : TimeKey) (_ : C) => True) (.push k) u' := by
      cases hact
      exact ⟨rfl, hu.next⟩
    refine ⟨hquiet hact hstore, .op hready hu' fun v z v' hv hact => ?_⟩
    replace hact : Kernel.act sys.who (.push k) .nextId v = some (z, v') := hact
    obtain ⟨hstore, hv'⟩ : v'.store = v.store ∧
        sys.queue.keyVal.Ready (fun (_ : TimeKey) (_ : C) => True) (.push k) v' := by
      cases hact
      exact ⟨rfl, hv.sound, hv.dir⟩
    refine ⟨hquiet hact hstore, ?_⟩
    exact (KeyVal.guarantees_insert trivial (fun _ => rfl) hv').imp fun _ _ _ => trivial
  · exact trivial

/-- At the start. -/
theorem Market.inv_start [Serde C V] (env : ℕ → Event X R) : (Market.start sys env : Market C X R V ι κ).Inv sys := by
  have hsound : sys.queue.keyVal.Sound (fun (_ : TimeKey) (_ : C) => True)
      (Market.start sys env : Market C X R V ι κ).kernel.store := KeyVal.sound_of_empty rfl
  refine ⟨⟨hsound, fun i n => nofun, nofun, nofun⟩, fun i => iterOk_beginning rfl, nofun, fun i n _ => rfl,
    fun i n _ => rfl, fun k => guarantees_pushFront ⟨hsound, nofun⟩, nofun, List.nodup_nil, nofun⟩

/-- **One step.** -/
theorem Market.Inv.next [Serde C V] (h : c.Inv sys) {c' : Market C X R V ι κ} {a : Action ι κ}
    (hnext : Market.next sys c a = some c') (hallowed : Market.Allowed c a) : c'.Inv sys := by
  cases a with
  | advance i => exact h.advance hnext
  | delete i n => exact h.delete hnext
  | release i n => exact h.release hnext
  | push k => exact h.pushed hnext hallowed

/-- **Any number of steps.** -/
theorem Market.Reaches.inv [Serde C V] {env : ℕ → Event X R} (h : Market.Reaches sys Market.Allowed env c) :
    c.Inv sys := by
  induction h with
  | start => exact Market.inv_start env
  | step _ hnext hallowed ih => exact ih.next hnext hallowed

/-- **Exclusive delivery.** As long as no push puts its file in place under a name under which a consumer still has an
earlier file open, every file is handed out once at most, and when it is handed out, no one has removed it, but for the
visit itself with `delete_first`. -/
theorem handed_at_most_once [Serde C V] {env : ℕ → Event X R} (h : Market.Reaches sys Market.Allowed env c) :
    (c.handed.map HandedOut.inode).Nodup ∧ ∀ d ∈ c.handed, ∃ i n m, d.session = .visit i n ∧ d.inode = some m ∧
      ∀ e ∈ d.before, ∀ a, e.dir = sys.queue.keyVal.baseDir → e.change = .unlink a m →
        e.session = d.session ∧ (sys.opts i).getItemOpts.deleteFirst = true := by
  have hinv := h.inv
  refine ⟨hinv.nodup, fun d hd => ?_⟩
  obtain ⟨i, n, m, hsession, -, hinode, -⟩ := hinv.handed d hd
  exact ⟨i, n, m, hsession, hinode, hinv.before d hd i n m hsession hinode⟩

/-! ### Two pushes with the same key -/

/-- Steps that are allowed in any state. -/
theorem Market.reaches_run [Serde C V] {allowed : Market C X R V ι κ → Action ι κ → Prop} {env : ℕ → Event X R}
    {c' : Market C X R V ι κ} (h : Market.Reaches sys allowed env c) {actions : List (Action ι κ)}
    (hactions : ∀ a ∈ actions, ∀ c, allowed c a) (hrun : Market.run sys actions c = some c') :
    Market.Reaches sys allowed env c' := by
  induction actions generalizing c with
  | nil =>
    cases hrun
    exact h
  | cons a actions ih =>
    obtain ⟨c₁, hnext, hrest⟩ : ∃ c₁, Market.next sys c a = some c₁ ∧ Market.run sys actions c₁ = some c' :=
      Option.bind_eq_some_iff.1 hrun
    have h₁ := h.step hnext (hactions a List.mem_cons_self c)
    exact ih h₁ (fun b hb => hactions b (List.mem_cons_of_mem _ hb)) hrest

/-- Pushes, before anyone has opened a file. -/
theorem Market.reaches_run_push [Serde C V] {env : ℕ → Event X R} {c' : Market C X R V ι κ}
    (h : Market.Reaches sys Market.Allowed env c) (hquiet : ∀ i n, c.kernel.handle (.visit i n) = none) {ks : List κ}
    (hrun : Market.run sys (ks.map .push) c = some c') : Market.Reaches sys Market.Allowed env c' := by
  induction ks generalizing c with
  | nil =>
    cases hrun
    exact h
  | cons k ks ih =>
    obtain ⟨c₁, hnext, hrest⟩ : ∃ c₁, Market.push sys c k = some c₁ ∧ Market.run sys (ks.map .push) c₁ = some c' :=
      Option.bind_eq_some_iff.1 hrun
    have h₁ : Market.Reaches sys Market.Allowed env c₁ := by
      refine h.step (a := .push k) hnext fun dir source target f _ i n g hg => ?_
      cases (hquiet i n).symm.trans hg
    refine ih h₁ (fun i n => ?_) hrest
    unfold Market.push at hnext
    split at hnext
    · obtain ⟨r, hr, rfl⟩ := Option.map_eq_some_iff.1 hnext
      obtain ⟨⟨x, w⟩, hact, rfl⟩ := Option.map_eq_some_iff.1 hr
      exact ((Kernel.apart_of_act hact).handle _ visit_ne_push).trans (hquiet i n)
    · cases hnext

end Sessions

/-- Two consumers, and two pushes by processes that have the same pid. -/
def sampleUsers : QueueUsers String Bool Bool where
  queue := ⟨⟨"/queue", .all⟩⟩
  who
    | .visit i _ => ⟨if i then 3 else 4, if i then 7 else 8⟩
    | .push k => ⟨if k then 1 else 2, 5⟩
  opts _ := ⟨false, none, false, ⟨false, false, false⟩⟩
  locking _ := rfl
  value k := if k then "second" else "first"

/-- Nothing fails, and the clock stands still. -/
def sampleEvents (_ : ℕ) : Event Empty (fun _ => Unit) := ⟨⟨1, by decide⟩, none, fun x => nomatch x⟩

/-- The first push. -/
def samplePush : Option (Market String Empty (fun _ => Unit) String Bool Bool) :=
  Market.run sampleUsers ((List.replicate 11 false).map .push) (Market.start sampleUsers sampleEvents)

/-- One consumer has opened the file, and the other one takes, deletes and lets go of the item. -/
def sampleSteps : List (Action Bool Bool) :=
  List.replicate 4 (.advance false) ++ List.replicate 7 (.advance true) ++ List.replicate 3 (.delete true 0) ++
    [.release true 0]

/-- The first consumer goes on, and gets the lock. -/
theorem handed_at_most_once_sample : ∃ c, samplePush.bind (Market.run sampleUsers (sampleSteps ++
      List.replicate 4 (.advance false))) = some c ∧
    c.handed.map HandedOut.session = [.visit true 0] ∧ (c.handed.map HandedOut.inode).Nodup := by
  have hpushed : samplePush.isSome = true := by decide +kernel
  obtain ⟨c₁, hc₁⟩ := Option.isSome_iff_exists.1 hpushed
  have hhanded : (samplePush.bind (Market.run sampleUsers (sampleSteps ++ List.replicate 4 (.advance false)))).map
      (fun c => c.handed.map HandedOut.session) = some [.visit true 0] := by decide +kernel
  obtain ⟨c, hc, hsessions⟩ := Option.map_eq_some_iff.1 hhanded
  have hreaches₁ : Market.Reaches sampleUsers Market.Allowed sampleEvents c₁ :=
    Market.reaches_run_push .start (fun _ _ => rfl) hc₁
  have hreaches : Market.Reaches sampleUsers Market.Allowed sampleEvents c := by
    rw [hc₁] at hc
    refine Market.reaches_run hreaches₁ (fun a ha c => ?_) hc
    simp only [sampleSteps, List.mem_append, List.mem_replicate, List.mem_singleton] at ha
    rcases ha with (((⟨-, rfl⟩ | ⟨-, rfl⟩) | ⟨-, rfl⟩) | rfl) | ⟨-, rfl⟩ <;> exact trivial
  exact ⟨c, hc, hsessions, (handed_at_most_once hreaches).1⟩

/-- What happens when the second push puts its file in place before the first consumer goes on. -/
def sampleHanded : List (HandedOut Bool Bool) :=
  let pushed : List (Logged (Session Bool Bool)) :=
    [⟨.push false, "/queue", .move ".1-5-0" "1-5-0" 0⟩, ⟨.push false, "/queue", .link ".1-5-0" 0⟩]
  let removed : List (Logged (Session Bool Bool)) := ⟨.visit true 0, "/queue", .unlink "1-5-0" 0⟩ :: pushed
  [⟨.visit false 0, some 0, ⟨.push true, "/queue", .move ".1-5-0" "1-5-0" 1⟩ ::
      ⟨.push true, "/queue", .link ".1-5-0" 1⟩ :: removed⟩,
    ⟨.visit true 0, some 0, pushed⟩]

/-- **A file is handed out to two consumers**, to the second one after the first one has removed it. -/
theorem handed_twice :
    (¬ ∀ c : Market String Empty (fun _ => Unit) String Bool Bool,
      Market.Reaches sampleUsers (fun _ _ => True) sampleEvents c → (c.handed.map HandedOut.inode).Nodup) ∧
    ¬ ∀ c : Market String Empty (fun _ => Unit) String Bool Bool,
      Market.Reaches sampleUsers (fun _ _ => True) sampleEvents c → ∀ d ∈ c.handed, ∀ e ∈ d.before, ∀ a m,
        d.inode = some m → e.change = .unlink a m → e.session = d.session := by
  have hhanded : (Market.run sampleUsers ((List.replicate 11 false).map .push ++ sampleSteps ++
      (List.replicate 11 true).map .push ++ List.replicate 3 (.advance false))
        (Market.start sampleUsers sampleEvents)).map Market.handed = some sampleHanded := by
    decide +kernel
  obtain ⟨c, hc, hlist⟩ := Option.map_eq_some_iff.1 hhanded
  have hreaches : Market.Reaches sampleUsers (fun _ _ => True) sampleEvents c :=
    Market.reaches_run .start (fun _ _ _ => trivial) hc
  refine ⟨fun h => ?_, fun h => ?_⟩
  · have hnodup := h c hreaches
    rw [hlist] at hnodup
    exact absurd hnodup (by decide)
  · have hremoved := h c hreaches
    rw [hlist] at hremoved
    have hsame := hremoved _ List.mem_cons_self ⟨.visit true 0, "/queue", .unlink "1-5-0" 0⟩ (by simp) "1-5-0" 0 rfl rfl
    cases hsame

end Evobench.KeyValFs

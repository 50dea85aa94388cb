import Evobench.KeyValFs.TimeKey

/-!
# Queues

A queue is a table whose keys are the times of insertion. Its items are visited in the order of their
keys; an item can be locked, and deleted.

## The model

* `Queue.pushFront`, `Queue.getEntry`, `Queue.getItem`: as in the source.
* `QueueItem.fromEntry`: an item made from an entry, locked unless `noLock` is given.
* `Queue.mapItems`: a consumer that goes through the iterator `Queue::items` (without waiting) and stops
  at the first error, as `collect::<Result<_>>` does.
* `Queue.contents`: what a queue holds, in order: the abstract view of its directory.

## What is proved

* `Queue.safe_pushFront`: a push puts one entry under a new key, whose time is the clock's.
* `Queue.safe_mapItems`: a consumer that changes nothing sees exactly `Queue.contents`.
-/

namespace Evobench.KeyValFs

open Library IoUtils

/-- A queue of values. -/
structure Queue (V : Type) where
  /-- The underlying table. -/
  keyVal : KeyVal TimeKey V
deriving DecidableEq

/-- Options for getting an item. -/
structure QueueGetItemOptions where
  /-- Do not attempt to lock entries. -/
  noLock : Bool
  /-- Return with an error if an entry is locked, instead of waiting. -/
  errorWhenLocked : Bool
  /-- Delete the entry before returning the item. -/
  deleteFirst : Bool
deriving DecidableEq, Repr

/-- The state of an item's lock. -/
inductive PerhapsLock where
  /-- The user asked not to lock. -/
  | noLock
  /-- The entry vanished, thus the lock has been let go again. -/
  | entryGone
  /-- Locked. -/
  | lock
deriving DecidableEq, Repr

/-- `is_gone` -/
def PerhapsLock.isGone : PerhapsLock → Bool
  | noLock => false
  | entryGone => true
  | lock => false

/-- An item of a queue. -/
structure QueueItem (C V : Type) where
  /-- The entry. -/
  entry : Entry C V
  /-- Whether it is locked. -/
  perhapsLock : PerhapsLock

variable {C X : Type} {R : X → Type} {V ε α : Type}

/-! ### Items -/

namespace QueueItem

/-- `QueueItem::from_entry` -/
def fromEntry (entry : Entry C V) (opts : QueueGetItemOptions) : Tool C X R KeyValError (QueueItem C V) :=
  let lockError := KeyValError.io entry.baseDir entry.targetPath "getting lock on file"
  if opts.noLock then do
    if opts.deleteFirst then
      let _ ← entry.delete
      pure ⟨entry, .noLock⟩
    else
      pure ⟨entry, .noLock⟩
  else do
    let got ← if opts.errorWhenLocked then
        (Sys.tryFlockExclusive entry.targetPath).mapErr lockError
      else
        (Sys.flockExclusive entry.targetPath).mapErr lockError >>= fun _ => pure true
    if !got then
      .throw (.lockTaken entry.baseDir entry.targetPath)
    else if ← entry.exists_ then
      if opts.deleteFirst then
        -- an error of the deletion drops the lock
        match ← entry.delete.attempt with
        | .ok _ => pure ⟨entry, .lock⟩
        | .error e => Sys.withLock entry.targetPath (.throw e)
      else
        pure ⟨entry, .lock⟩
    else
      Sys.withLock entry.targetPath (pure ⟨entry, .entryGone⟩)

/-- `QueueItem::key` -/
def key (item : QueueItem C V) : Outcome KeyValError TimeKey := item.entry.key

/-- `QueueItem::delete` -/
def delete (item : QueueItem C V) : Tool C X R KeyValError Unit := do
  let _ ← item.entry.delete
  pure ()

/-- `QueueItem::lock_exclusive`; the guard is `Sys.withLock item.entry.targetPath`. -/
def lockExclusive (item : QueueItem C V) : Tool C X R KeyValError Unit :=
  match item.perhapsLock with
  | .noLock => (Sys.flockExclusive item.entry.targetPath).mapErr
      (.io item.entry.baseDir item.entry.targetPath "QueueItem.lock_exclusive")
  | .entryGone => .throw (.alreadyLocked item.entry.baseDir item.entry.targetPath)
  | .lock => .throw (.alreadyLocked item.entry.baseDir item.entry.targetPath)

end QueueItem

/-! ### Queues -/

namespace Queue

/-- `Queue::push_front` -/
def pushFront [Serde C V] (queue : Queue V) (val : V) : Tool C X R KeyValError Unit := do
  let key ← TimeKey.now
  queue.keyVal.insert key val true

/-- `Queue::get_entry` -/
def getEntry (queue : Queue V) (key : TimeKey) : Tool C X R KeyValError (Option (Entry C V)) :=
  queue.keyVal.entryOpt key

/-- `Queue::get_item` -/
def getItem (queue : Queue V) (key : TimeKey) (opts : QueueGetItemOptions) :
    Tool C X R KeyValError (Option (QueueItem C V)) := do
  match ← queue.keyVal.entryOpt key with
  | some entry =>
    let item ← QueueItem.fromEntry entry opts
    pure (some item)
  | none => pure none

/-- Go through the items of the given keys and collect what `f` makes of them. -/
def mapItemsOf [Serde C V] (queue : Queue V) (opts : QueueGetItemOptions) (wrap : KeyValError → ε)
    (f : QueueItem C V → V → Tool C X R ε α) : List TimeKey → Tool C X R ε (List α)
  | [] => pure []
  | key :: keys => do
    match ← (queue.getEntry key).mapErr wrap with
    | none => mapItemsOf queue opts wrap f keys
    | some entry =>
      let value ← Prog.ofExcept (entry.get.mapError wrap)
      let item ← (QueueItem.fromEntry entry opts).mapErr wrap
      if item.perhapsLock.isGone then
        mapItemsOf queue opts wrap f keys
      else
        let a ← f item value
        let as ← mapItemsOf queue opts wrap f keys
        pure (a :: as)

/-- Go through `Queue::items`, in order, without waiting, and collect what `f` makes of them. -/
def mapItems [Serde C V] (queue : Queue V) (opts : QueueGetItemOptions) (wrap : KeyValError → ε)
    (f : QueueItem C V → V → Tool C X R ε α) : Tool C X R ε (List α) := do
  let keys ← queue.keyVal.sortedKeys.mapErr wrap
  mapItemsOf queue opts wrap f keys

/-- `sorted_entries(false, None, false)` with a consumer -/
def forSortedEntries (queue : Queue V) (wrap : KeyValError → ε) (f : Entry C V → Tool C X R ε Unit) :
    Tool C X R ε Unit := do
  let keys ← queue.keyVal.sortedKeys.mapErr wrap
  Prog.forEach keys fun key => do
    match ← (queue.getEntry key).mapErr wrap with
    | none => pure ()
    | some entry => f entry

/-! ### The contents of a queue -/

/-- The value stored under a key. -/
def get? [Serde C V] (queue : Queue V) (d : Disk C) (key : TimeKey) : Option V := queue.keyVal.get? d key

/-- Where a key's file is. -/
def slot (queue : Queue V) (key : TimeKey) : String × String := queue.keyVal.slot key

/-- The item of a key, not locked. -/
def itemOf (queue : Queue V) (d : Disk C) (key : TimeKey) : QueueItem C V :=
  ⟨⟨queue.keyVal.baseDir, asFilenameStr key, (d.entries (queue.slot key)).join⟩, .noLock⟩

/-- The values under the given keys. -/
def contentsOf [Serde C V] (queue : Queue V) (d : Disk C) (keys : List TimeKey) : List (TimeKey × V) :=
  keys.filterMap fun key => (queue.get? d key).map fun value => (key, value)

/-- The values of a queue in the order of their keys; `none` if the directory holds a file with an invalid name. -/
def contents [Serde C V] (queue : Queue V) (d : Disk C) : Option (List (TimeKey × V)) :=
  match (KeyVal.keysOf queue.keyVal.baseDir (d queue.keyVal.baseDir).keys : Except KeyValError (List TimeKey)) with
  | .error _ => none
  | .ok keys => some (queue.contentsOf d (keys.insertionSort (· ≤ ·)))

theorem itemOf_key (queue : Queue V) (d : Disk C) (key : TimeKey) : (queue.itemOf d key).key = .ok key := by
  have hname : (keyFromFileName (asFilenameStr key) queue.keyVal.baseDir : Except KeyValError (Option TimeKey)) =
      .ok (some key) := by
    simp only [keyFromFileName, isTmp_asFilenameStr, tryFrom_asFilenameStr, Bool.false_eq_true, if_false]
  simp only [QueueItem.key, Entry.key, itemOf, hname]

/-- What is in the contents is stored. -/
theorem get?_of_mem_contents [Serde C V] {queue : Queue V} {d : Disk C} {kvs : List (TimeKey × V)} {kv : TimeKey × V}
    (h : queue.contents d = some kvs) (hkv : kv ∈ kvs) : queue.get? d kv.1 = some kv.2 := by
  unfold contents at h
  split at h
  · cases h
  · cases h
    simp only [contentsOf, List.mem_filterMap, Option.map_eq_some_iff] at hkv
    obtain ⟨key, -, value, hvalue, rfl⟩ := hkv
    exact hvalue

/-- What is stored is in the contents. -/
theorem mem_contents_of_get? [Serde C V] {queue : Queue V} {d : Disk C} {kvs : List (TimeKey × V)} {key : TimeKey} {v : V}
    (h : queue.contents d = some kvs) (hget : queue.get? d key = some v) : (key, v) ∈ kvs := by
  unfold contents at h
  split at h
  · cases h
  · next keys hkeys =>
    cases h
    have hsome : (d.entries (queue.slot key)).isSome = true := by
      rw [get?, KeyVal.get?] at hget
      rw [Option.isSome_iff_ne_none]
      intro hnone
      rw [show d.entries (queue.keyVal.slot key) = none from hnone] at hget
      cases hget
    have hmem : key ∈ keys := (mem_keysOf hkeys key).2 ⟨asFilenameStr key,
      (mem_keys_iff_entries (isTmp_asFilenameStr key)).2 hsome, isTmp_asFilenameStr key, tryFrom_asFilenameStr key⟩
    exact List.mem_filterMap.2 ⟨key, (List.mem_insertionSort _).2 hmem, by rw [hget]; rfl⟩

/-- The contents are in the order of the keys. -/
theorem pairwise_contents [Serde C V] {queue : Queue V} {d : Disk C} {kvs : List (TimeKey × V)}
    (h : queue.contents d = some kvs) : kvs.Pairwise fun a b => a.1 ≤ b.1 := by
  unfold contents at h
  split at h
  · cases h
  · cases h
    refine List.Pairwise.filterMap _ ?_ (List.pairwise_insertionSort _ _)
    intro a a' hle b hb b' hb'
    obtain ⟨v, -, rfl⟩ := Option.map_eq_some_iff.1 hb
    obtain ⟨v', -, rfl⟩ := Option.map_eq_some_iff.1 hb'
    exact hle

end Queue

section Rules

variable {pid : Pid} {I : World C X R → Prop} {w : World C X R}

theorem safe_timeKeyNow {Q : Outcome ε TimeKey → World C X R → Prop}
    (hsame : ∀ w', w.Leads w.disk.entries w' → I w')
    (hpanic : ∀ msg w', w.Leads w.disk.entries w' → Q (.panic msg) w')
    (hok : ∀ (key : TimeKey) w', w.Leads w.disk.entries w' → (key.nanos.val : ℤ) = w.event.now.nanos →
      Q (.ok key) w') : Safe pid I Q TimeKey.now w := by
  refine Prog.holds_bind.2 (safe_systemTime (hsame w (World.Leads.refl w)) (fun v h => hsame v h.leads)
    fun w₁ h₁ => ?_)
  have l₁ := h₁.leads
  by_cases h : 0 ≤ w.event.now.nanos
  · simp only [Prog.Then, h, dif_pos]
    refine Prog.holds_bind.2 (safe_processId (hsame _ l₁)
      (fun v h => hsame v (leads_of_goes l₁ h l₁.entries)) fun w₂ h₂ => ?_)
    have l₂ := leads_of_goes l₁ h₂ l₁.entries
    refine Prog.holds_bind.2 (safe_nextId (hsame _ l₂)
      (fun v h => hsame v (leads_of_goes l₂ h l₂.entries)) fun id w₃ h₃ => ?_)
    have l₃ := leads_of_goes l₂ h₃ l₂.entries
    exact ⟨hsame _ l₃, hok _ w₃ l₃ (Int.toNat_of_nonneg h)⟩
  · simp only [Prog.Then, h, dif_neg, not_false_iff]
    exact ⟨hsame _ l₁, hpanic _ _ l₁⟩

/-- **Pushing.** In every state passed through the visible files are as before or have the one new entry. -/
theorem Queue.safe_pushFront [Serde C V] {queue : Queue V} {val : V}
    {Q : Outcome KeyValError Unit → World C X R → Prop}
    (hsame : ∀ w', w.Leads w.disk.entries w' → I w')
    (hput : ∀ key : TimeKey, (key.nanos.val : ℤ) = w.event.now.nanos → w.disk.entries (queue.slot key) = none →
      ∀ w', w.Leads (putEntry w.disk.entries (queue.slot key) (Serde.toString val)) w' → I w')
    (hpanic : ∀ msg w', w.Leads w.disk.entries w' → Q (.panic msg) w')
    (hkeep : ∀ e w', w.Leads w.disk.entries w' → Q (.err e) w')
    (herr : ∀ key : TimeKey, (key.nanos.val : ℤ) = w.event.now.nanos → w.disk.entries (queue.slot key) = none →
      ∀ e w', w.Leads (putEntry w.disk.entries (queue.slot key) (Serde.toString val)) w' → Q (.err e) w')
    (hok : ∀ key : TimeKey, (key.nanos.val : ℤ) = w.event.now.nanos → w.disk.entries (queue.slot key) = none →
      ∀ w', w.Leads (putEntry w.disk.entries (queue.slot key) (Serde.toString val)) w' → Q (.ok ()) w') :
    Safe pid I Q (queue.pushFront val) w := by
  refine Prog.holds_bind.2 (safe_timeKeyNow hsame hpanic fun key w₁ l₁ hkey => ?_)
  refine KeyVal.safe_insert ?_ ?_ ?_ ?_ ?_
  · exact fun v h => hsame v (l₁.trans (l₁.entries ▸ h))
  · intro ha v h
    rw [l₁.entries] at ha h
    exact hput key hkey (ha rfl) v (l₁.trans h)
  · exact fun e v h => hkeep e v (l₁.trans (l₁.entries ▸ h))
  · intro ha e v h
    rw [l₁.entries] at ha h
    exact herr key hkey (ha rfl) e v (l₁.trans h)
  · intro ha v h
    rw [l₁.entries] at ha h
    exact hok key hkey (ha rfl) v (l₁.trans h)

/-- Deleting an item. -/
theorem QueueItem.safe_delete {item : QueueItem C V} {Q : Outcome KeyValError Unit → World C X R → Prop}
    (hsame : ∀ w', w.Leads w.disk.entries w' → I w')
    (hI : ∀ w', w.Leads (eraseEntry w.disk.entries (item.entry.baseDir, item.entry.fileName)) w' → I w')
    (herr : ∀ e w', w.Leads w.disk.entries w' → Q (.err e) w')
    (hok : ∀ w', w.Leads (eraseEntry w.disk.entries (item.entry.baseDir, item.entry.fileName)) w' → Q (.ok ()) w') :
    Safe pid I Q item.delete w :=
  Prog.holds_bind.2 (Entry.safe_delete hsame hI herr fun _ v h => ⟨hI v h, hok v h⟩)

/-- Locking an item. -/
theorem QueueItem.safe_lockExclusive {item : QueueItem C V} {Q : Outcome KeyValError Unit → World C X R → Prop}
    (hsame : ∀ w', w.Leads w.disk.entries w' → I w')
    (herr : ∀ e w', w.Leads w.disk.entries w' → Q (.err e) w')
    (hok : ∀ w', w.Leads w.disk.entries w' → Q (.ok ()) w') : Safe pid I Q item.lockExclusive w := by
  have l₀ := World.Leads.refl w
  unfold QueueItem.lockExclusive
  cases item.perhapsLock with
  | noLock => exact Prog.holds_mapErr.2 (safe_flockExclusive (hsame w l₀) (fun v h => hsame v h.leads)
      (fun e v h => herr _ v h.leads) fun v h => hok v h.leads)
  | entryGone => exact ⟨hsame w l₀, herr _ w l₀⟩
  | lock => exact ⟨hsame w l₀, herr _ w l₀⟩

/-- How a scan of a queue ends: it changes nothing, it returns what `g` makes of the contents in order, and it
panics only where `g` does. -/
def Queue.Scanned [Serde C V] (queue : Queue V) (g : QueueItem C V → V → Outcome ε α) (keys : List TimeKey)
    (w : World C X R) (r : Outcome ε (List α)) (w' : World C X R) : Prop :=
  w.Goes w.disk w' ∧ match r with
    | .ok as => List.Forall₂ (fun kv a => g (queue.itemOf w.disk kv.1) kv.2 = .ok a) (queue.contentsOf w.disk keys) as
    | .err _ => True
    | .panic msg => ∃ kv ∈ queue.contentsOf w.disk keys, g (queue.itemOf w.disk kv.1) kv.2 = .panic msg

/-- Items that are not locked are made without any effect. -/
theorem QueueItem.fromEntry_noLock (entry : Entry C V) (e : Bool) :
    (fromEntry entry ⟨true, e, false⟩ : Tool C X R KeyValError (QueueItem C V)) = pure ⟨entry, .noLock⟩ := rfl

theorem Queue.contentsOf_cons [Serde C V] (queue : Queue V) (d : Disk C) (key : TimeKey) (keys : List TimeKey) :
    queue.contentsOf d (key :: keys) =
      ((queue.get? d key).map fun value => (key, value)).toList ++ queue.contentsOf d keys := by
  cases h : queue.get? d key with
  | none => simp [contentsOf, h]
  | some value => simp [contentsOf, h]

/-- Going through the items of the given keys. -/
theorem Queue.safe_mapItemsOf [Serde C V] {queue : Queue V} {wrap : KeyValError → ε} {e : Bool}
    {g : QueueItem C V → V → Outcome ε α} (keys : List TimeKey) {v : World C X R} (hv : w.Goes w.disk v) :
    Safe pid (fun u => w.Goes w.disk u) (queue.Scanned g keys w)
      (queue.mapItemsOf ⟨true, e, false⟩ wrap (fun item value => Prog.ofOutcome (g item value)) keys) v := by
  induction keys generalizing v with
  | nil => exact ⟨hv, hv, List.Forall₂.nil⟩
  | cons key keys ih =>
    -- what the scan of the other keys gives, when there is nothing under this one
    have hskip : queue.get? w.disk key = none → ∀ {u}, w.Goes w.disk u →
        Safe pid (fun u => w.Goes w.disk u) (queue.Scanned g (key :: keys) w) (queue.mapItemsOf ⟨true, e, false⟩ wrap
          (fun item value => Prog.ofOutcome (g item value)) keys) u := by
      intro hnone u hu
      have hrest : queue.contentsOf w.disk (key :: keys) = queue.contentsOf w.disk keys := by
        rw [contentsOf_cons, hnone]
        rfl
      unfold Scanned
      rw [hrest]
      exact ih hu
    rw [mapItemsOf]
    refine Prog.holds_bind.2 (Prog.holds_mapErr.2 (KeyVal.goes_entryOpt (fun u hu => hv.same hu) ?_ ?_ ?_))
    · exact fun err u hu => ⟨hv.same hu, trivial⟩
    · intro hnone u hu
      rw [hv.disk] at hnone
      exact hskip (by rw [get?, KeyVal.get?, hnone]; rfl) (hv.same hu)
    · intro content hcontent u hu
      rw [hv.disk] at hcontent
      have hu' := hv.same hu
      have hitem : (⟨⟨queue.keyVal.baseDir, asFilenameStr key, content⟩, .noLock⟩ : QueueItem C V) =
          queue.itemOf w.disk key := by
        rw [itemOf, slot, hcontent]
        rfl
      cases hvalue : (content.bind Serde.fromStr : Option V) with
      | none =>
        simp only [Prog.Then, Entry.get, hvalue]
        exact ⟨hu', hu', trivial⟩
      | some value =>
        have hget : queue.get? w.disk key = some value := by
          rw [get?, KeyVal.get?, hcontent]
          exact hvalue
        simp only [Prog.Then, Entry.get, hvalue, QueueItem.fromEntry_noLock, hitem]
        change Prog.Holds _ _ _ (Prog.ofOutcome (g (queue.itemOf w.disk key) value) >>= fun a => queue.mapItemsOf
          ⟨true, e, false⟩ wrap (fun item value => Prog.ofOutcome (g item value)) keys >>= fun as => pure (a :: as)) u
        cases hg : g (queue.itemOf w.disk key) value with
        | err err => exact ⟨hu', hu', trivial⟩
        | panic msg =>
          refine ⟨hu', hu', (key, value), ?_, hg⟩
          rw [contentsOf_cons, hget]
          exact List.mem_append_left _ (List.mem_singleton_self _)
        | ok a =>
          refine Prog.holds_bind.2 ⟨hu', ?_⟩
          refine Prog.holds_bind.2 ((ih hu').imp ?_)
          rintro r t ⟨hgoes, ht⟩
          cases r with
          | err err => exact ⟨hgoes, trivial⟩
          | panic msg =>
            obtain ⟨kv, hkv, hpanic⟩ := ht
            refine ⟨hgoes, kv, ?_, hpanic⟩
            rw [contentsOf_cons]
            exact List.mem_append_right _ hkv
          | ok as =>
            refine ⟨hgoes, hgoes, ?_⟩
            rw [contentsOf_cons, hget]
            exact List.Forall₂.cons hg ht

/-- **Scanning a queue.** -/
theorem Queue.safe_mapItems [Serde C V] {queue : Queue V} {wrap : KeyValError → ε} {e : Bool}
    {g : QueueItem C V → V → Outcome ε α} :
    Safe pid (fun u => w.Goes w.disk u) (fun r v => w.Goes w.disk v ∧ match r with
      | .ok as => ∃ kvs, queue.contents w.disk = some kvs ∧
          List.Forall₂ (fun kv a => g (queue.itemOf w.disk kv.1) kv.2 = .ok a) kvs as
      | .err _ => True
      | .panic msg => ∃ kvs, queue.contents w.disk = some kvs ∧
          ∃ kv ∈ kvs, g (queue.itemOf w.disk kv.1) kv.2 = .panic msg)
      (queue.mapItems ⟨true, e, false⟩ wrap fun item value => Prog.ofOutcome (g item value)) w := by
  refine Prog.holds_bind.2 (Prog.holds_mapErr.2 (KeyVal.safe_sortedKeys (World.Goes.refl w) (fun u hu => hu)
    (fun err u hu => ⟨hu, trivial⟩) fun keys u hkeys hu => ?_))
  have hcontents : queue.contents w.disk = some (queue.contentsOf w.disk (keys.insertionSort (· ≤ ·))) := by
    rw [contents, hkeys]
  refine (queue.safe_mapItemsOf _ hu).imp fun r t ht => ⟨ht.1, ?_⟩
  cases r with
  | err err => trivial
  | panic msg => exact ⟨_, hcontents, ht.2⟩
  | ok as => exact ⟨_, hcontents, ht.2⟩

end Rules

end Evobench.KeyValFs

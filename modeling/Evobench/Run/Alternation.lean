import Evobench.Run.Choice

/-!
# Jobs take turns

A job that has to be run again goes back into a queue under a new key, without its boost. So in its queue it
comes after all jobs that were there when it was picked, and those of them with at least its priority are
picked before it is picked again. Here this is shown for runs of the daemon's loop.

* `LoopState`, `LoopStep`: the loop between its two phases, the pick and the run of the picked job. Other
  processes insert jobs at any time, also between the two phases.
* `LoopRun`: the runs, with their events.

`jobs_alternate` is the main result. It rests on the clock going forward (`ClockIncreasing`): the new key of the
job is greater than all keys in the queue (`KeysPast`, `NewSince`), entries stay where they are until they are
picked (`entry_of_loopRun`), and the choice prefers older keys (`best_of_pickNext`).

Priorities are exact numbers, as in the choice: the sums of `f64`s are not rounded here, and do not overflow.
-/

namespace Evobench.Run

open Library SerdeTypes DateAndTime KeyValFs IoUtils RunQueueWithNext

/-! ### The loop -/

/-- What the daemon is about to do. -/
inductive Phase where
  /-- Pick the next job. -/
  | idle (context : RunContext)
  /-- Run the picked job. -/
  | picked (context : RunContext) (next : RunQueuesData × SystemTime × Option Choice)

/-- The state of the loop. -/
structure LoopState where
  /-- What the daemon is about to do. -/
  phase : Phase
  /-- The rest. -/
  world : EvoWorld

/-- What happens. -/
inductive LoopEvent where
  /-- Another process inserts a job. -/
  | insert
  /-- A job is picked, if there is one to be run. -/
  | pick (job : Option Choice)
  /-- The picked job has been run. -/
  | run

/-- The steps of the loop and of other processes. -/
inductive LoopStep (tz : LocalTz) (qs : RunQueues) : LoopEvent → LoopState → LoopState → Prop where
  /-- Another process inserts a job. -/
  | insert {pid : Pid} {phase : Phase} {w w' : EvoWorld} {q : RunQueue} {job : BenchmarkingJob} {r : Outcome Error Unit}
      (hfirst : qs.first = some q) (hrun : (q.pushFront job).run (machine pid) w = some (r, w')) :
      LoopStep tz qs .insert ⟨phase, w⟩ ⟨phase, w'⟩
  /-- The first part of an iteration. -/
  | pick {pid : Pid} {context : RunContext} {w w' : EvoWorld} {data : RunQueuesData} {timestamp : SystemTime}
      {job : Option Choice} (hrun : (pickNext tz qs).run (machine pid) w = some (.ok (data, timestamp, job), w')) :
      LoopStep tz qs (.pick job) ⟨.idle context, w⟩ ⟨.picked context (data, timestamp, job), w'⟩
  /-- The rest of an iteration. -/
  | run {pid : Pid} {context context' : RunContext} {w w' : EvoWorld}
      {picked : RunQueuesData × SystemTime × Option Choice} {ran : Option (BenchmarkingJob × JobStatus)}
      (hrun : (afterPick context picked).run (machine pid) w = some (.ok (context', ran), w')) :
      LoopStep tz qs .run ⟨.picked context picked, w⟩ ⟨.idle context', w'⟩

/-- The runs of the loop, with their events in order. -/
inductive LoopRun (tz : LocalTz) (qs : RunQueues) : List LoopEvent → LoopState → LoopState → Prop where
  /-- Nothing happens. -/
  | nil (s : LoopState) : LoopRun tz qs [] s s
  /-- One step, and then the others. -/
  | cons {e : LoopEvent} {es : List LoopEvent} {s t u : LoopState} (hstep : LoopStep tz qs e s t)
      (hrun : LoopRun tz qs es t u) : LoopRun tz qs (e :: es) s u

/-- The choice is the entry under that key of that queue. -/
def Choice.Of (choice : Choice) (q : RunQueue) (key : TimeKey) : Prop :=
  choice.queue.current.runQueue = q ∧ choice.item.entry.fileName = asFilenameStr key

/-- The clock never goes backwards, and it goes forward until the given operation. -/
structure ClockIncreasing (w : EvoWorld) (until_ : ℕ) : Prop where
  /-- It does not go backwards. -/
  steady : ClockSteady w
  /-- It goes forward. -/
  forward : ∀ i j, i < j → j ≤ until_ → (w.env i).now.nanos < (w.env j).now.nanos

/-- The keys in the queue are not from the future. -/
def KeysPast (q : RunQueue) (w : EvoWorld) : Prop :=
  ∀ key : TimeKey, w.disk.entries (q.slot key) ≠ none → (key.nanos.val : ℤ) ≤ w.event.now.nanos

/-! ### What the steps keep -/

/-- The clock does not go backwards, and no key of the queue is from the future. -/
structure Punctual (q : RunQueue) (w : EvoWorld) : Prop where
  /-- The clock. -/
  steady : ClockSteady w
  /-- The keys. -/
  past : KeysPast q w

theorem Punctual.reaches {q : RunQueue} {w w' : EvoWorld} {cs : List (Σ x : Call, Answer x)} {e : Entries FileContent}
    (h : Punctual q w) (hw : w.Reaches cs e w')
    (he : ∀ key : TimeKey, e (q.slot key) ≠ none → (key.nanos.val : ℤ) ≤ w.event.now.nanos) : Punctual q w' := by
  have hsteady : ClockSteady w' := by
    unfold ClockSteady
    rw [hw.env]
    exact h.steady
  refine ⟨hsteady, fun key hkey => ?_⟩
  rw [hw.entries] at hkey
  refine (he key hkey).trans ?_
  rw [World.event, World.event, hw.env]
  exact h.steady _ _ hw.tick

theorem stable_punctual (q : RunQueue) (slot : Option (String × String)) (J : BenchmarkingJob → Prop) :
    Stable slot J (Punctual q) where
  same w w' h hw := h.reaches hw.reaches h.past
  call w w' cs h hw := h.reaches hw h.past
  push w w' q' key job _ h hkey hnew hw := by
    refine h.reaches hw.reaches fun key' hkey' => ?_
    by_cases hslot : q.slot key' = q'.slot key
    · obtain rfl : key' = key := asFilenameStr_injective (Prod.mk.inj hslot).2
      exact hkey.le
    · rw [putEntry, Function.update_of_ne hslot] at hkey'
      exact h.past key' hkey'
  erase w w' p _ h hw := by
    refine h.reaches hw.reaches fun key hkey => h.past key fun hnone => hkey ?_
    rw [eraseEntry, Function.update_apply, hnone, ite_self]

/-- What is in the queue has been there before, or it is a job in `J` under a key from the given time or later. -/
structure NewSince (q : RunQueue) (before : Entries FileContent) (time : DateTime) (J : BenchmarkingJob → Prop)
    (w : EvoWorld) : Prop where
  /-- The clock does not go backwards. -/
  steady : ClockSteady w
  /-- The time has come. -/
  passed : time ≤ w.event.now.nanos
  /-- The entries. -/
  entries : ∀ (key : TimeKey) content, w.disk.entries (q.slot key) = some content →
    before (q.slot key) = some content ∨ time ≤ (key.nanos.val : ℤ) ∧ ∃ job, content = some (.job job) ∧ J job

theorem NewSince.reaches {q : RunQueue} {before e : Entries FileContent} {time : DateTime} {J : BenchmarkingJob → Prop}
    {w w' : EvoWorld} {cs : List (Σ x : Call, Answer x)} (h : NewSince q before time J w) (hw : w.Reaches cs e w')
    (he : ∀ (key : TimeKey) content, e (q.slot key) = some content →
      before (q.slot key) = some content ∨ time ≤ (key.nanos.val : ℤ) ∧ ∃ job, content = some (.job job) ∧ J job) :
    NewSince q before time J w' := by
  refine ⟨?_, h.passed.trans ?_, by rw [hw.entries]; exact he⟩
  · unfold ClockSteady
    rw [hw.env]
    exact h.steady
  · rw [World.event, World.event, hw.env]
    exact h.steady _ _ hw.tick

theorem stable_newSince (q : RunQueue) (before : Entries FileContent) (time : DateTime) (J : BenchmarkingJob → Prop)
    (slot : Option (String × String)) : Stable slot J (NewSince q before time J) where
  same w w' h hw := h.reaches hw.reaches h.entries
  call w w' cs h hw := h.reaches hw h.entries
  push w w' q' key job hjob h hkey hnew hw := by
    refine h.reaches hw.reaches fun key' content hcontent => ?_
    by_cases hslot : q.slot key' = q'.slot key
    · obtain rfl : key' = key := asFilenameStr_injective (Prod.mk.inj hslot).2
      rw [hslot, putEntry, Function.update_self] at hcontent
      refine .inr ⟨h.passed.trans hkey.ge, job, (Option.some.inj hcontent).symm, hjob⟩
    · rw [putEntry, Function.update_of_ne hslot] at hcontent
      exact h.entries key' content hcontent
  erase w w' p _ h hw := by
    refine h.reaches hw.reaches fun key content hcontent => h.entries key content ?_
    rw [eraseEntry, Function.update_apply] at hcontent
    split_ifs at hcontent
    exact hcontent

/-- An entry that is not the one to be erased stays as it is. -/
theorem stable_entry {slot : Option (String × String)} {p : String × String} (hp : slot ≠ some p)
    (J : BenchmarkingJob → Prop) (content : Option FileContent) :
    Stable slot J fun w => w.disk.entries p = some content where
  same w w' h hw := by rw [hw.entries, h]
  call w w' cs h hw := by rw [hw.entries, h]
  push w w' q key job _ h hkey hnew hw := by
    have hne : p ≠ q.slot key := by
      rintro rfl
      rw [hnew] at h
      cases h
    rw [hw.entries, putEntry, Function.update_of_ne hne, h]
  erase w w' p' hp' h hw := by
    have hne : p ≠ p' := by
      rintro rfl
      exact hp hp'
    rw [hw.entries, eraseEntry, Function.update_of_ne hne, h]

/-! ### Steps -/

/-- The run that comes next does not erase the entry. -/
def Phase.Spares (p : String × String) : Phase → Prop
  | .idle _ => True
  | .picked _ next => pickedSlot next.2.2 ≠ some p

section Steps

variable {tz : LocalTz} {qs : RunQueues} {e : LoopEvent} {s s' : LoopState}

/-- Steps only move forward in what the outside does. -/
theorem later_of_step (hstep : LoopStep tz qs e s s') :
    s'.world.env = s.world.env ∧ s.world.tick ≤ s'.world.tick := by
  cases hstep with
  | insert hfirst hrun => exact later_of_run hrun
  | pick hrun => exact later_of_run hrun
  | run hrun => exact later_of_run hrun

theorem steady_of_step (hsteady : ClockSteady s.world) (hstep : LoopStep tz qs e s s') : ClockSteady s'.world := by
  unfold ClockSteady
  rw [(later_of_step hstep).1]
  exact hsteady

/-- A pick takes time. -/
theorem tick_lt_of_pick {job : Option Choice} (hstep : LoopStep tz qs (.pick job) s s') :
    s.world.tick < s'.world.tick := by
  cases hstep with
  | pick hrun =>
    obtain ⟨data, w₁, hdata, hrun⟩ := Prog.run_bind_eq_ok.1 hrun
    obtain ⟨timestamp, w₂, htime, hrun⟩ := Prog.run_bind_eq_ok.1 hrun
    have htick₁ := (later_of_run hdata).2
    obtain ⟨-, rfl⟩ := Prod.mk.inj (Option.some.inj htime)
    have htick₂ := (later_of_run hrun).2
    exact lt_of_le_of_lt htick₁ (lt_of_lt_of_le (Nat.lt_succ_self _) htick₂)

/-- A pick changes no files. -/
theorem goes_of_pickNext {pid : Pid} {w w' : EvoWorld} {picked : RunQueuesData × SystemTime × Option Choice}
    (hsteady : ClockSteady w) (hrun : (pickNext tz qs).run (machine pid) w = some (.ok picked, w')) : w.Goes w.disk w' :=
  (((Prog.holds_iff _).1 (safe_pickNext hsteady)).2 _ _ hrun).1

/-- What is kept by all that can happen, whatever is erased, holds after a step. -/
theorem stable_step {I : EvoWorld → Prop} (hI : ∀ slot, Stable slot (fun _ => True) I) (hsteady : ClockSteady s.world)
    (hstep : LoopStep tz qs e s s') (h : I s.world) : I s'.world := by
  cases hstep with
  | insert hfirst hrun => exact (keeps_pushFront (hI none) _ trivial).run h hrun
  | pick hrun => exact (hI none).same _ _ h (goes_of_pickNext hsteady hrun).leads
  | run hrun => exact (keeps_afterPick _ _ (hI _) fun _ _ _ => trivial).run h hrun

/-- The chosen entry is the one at the place of the item. -/
theorem of_of_pickedSlot {pid : Pid} {w w' : EvoWorld} {picked : RunQueuesData × SystemTime × Option Choice} {q : RunQueue}
    {key : TimeKey} (hrun : (pickNext tz qs).run (machine pid) w = some (.ok picked, w')) (hq : q ∈ qs.allQueues)
    (hslot : pickedSlot picked.2.2 = some (q.slot key)) : ∃ choice, picked.2.2 = some choice ∧ choice.Of q key := by
  obtain ⟨data, timestamp, job⟩ := picked
  obtain ⟨choice, rfl, hplace⟩ := Option.map_eq_some_iff.1 hslot
  obtain ⟨hload, key', hbest⟩ := best_of_pickNext hrun
  obtain ⟨hdir, hname, -⟩ := hbest.item
  have hmem : choice.queue.current.runQueue ∈ qs.pipeline := qs.current_mem hbest.next
  have he : choice.queue.current.runQueue.slot key' = q.slot key := by
    rw [← hplace, hdir, hname]
    rfl
  obtain ⟨hqueue, rfl⟩ := qs.slot_inj (mem_allQueues_of_mem_pipeline hmem) hq he
  exact ⟨choice, rfl, hqueue, hname⟩

/-- An entry stays where it is until it is picked. -/
theorem entry_of_step {q : RunQueue} {key : TimeKey} {content : Option FileContent} (hsteady : ClockSteady s.world)
    (hq : q ∈ qs.allQueues) (hstep : LoopStep tz qs e s s') (hspares : s.phase.Spares (q.slot key))
    (hnot : ∀ choice, e = .pick (some choice) → ¬ choice.Of q key)
    (hentry : s.world.disk.entries (q.slot key) = some content) :
    s'.phase.Spares (q.slot key) ∧ s'.world.disk.entries (q.slot key) = some content := by
  cases hstep with
  | insert hfirst hrun =>
    refine ⟨hspares, ?_⟩
    have hstable := stable_entry (Option.some_ne_none (q.slot key)).symm (fun _ => True) content
    exact (keeps_pushFront hstable _ trivial).run hentry hrun
  | pick hrun =>
    refine ⟨fun hslot => ?_, ?_⟩
    · obtain ⟨choice, hchoice, hof⟩ := of_of_pickedSlot hrun hq hslot
      exact hnot choice (congrArg LoopEvent.pick hchoice) hof
    · rw [(goes_of_pickNext hsteady hrun).disk]
      exact hentry
  | run hrun =>
    refine ⟨trivial, ?_⟩
    exact (keeps_afterPick _ _ (stable_entry hspares (fun _ => True) content) fun _ _ _ => trivial).run hentry hrun

end Steps

/-! ### Runs -/

section Runs

variable {tz : LocalTz} {qs : RunQueues} {es : List LoopEvent} {s s' : LoopState}

theorem later_of_loopRun (hrun : LoopRun tz qs es s s') :
    s'.world.env = s.world.env ∧ s.world.tick ≤ s'.world.tick := by
  induction hrun with
  | nil s => exact ⟨rfl, le_rfl⟩
  | cons hstep _ ih =>
    obtain ⟨henv, htick⟩ := later_of_step hstep
    exact ⟨ih.1.trans henv, htick.trans ih.2⟩

theorem steady_of_loopRun (hsteady : ClockSteady s.world) (hrun : LoopRun tz qs es s s') : ClockSteady s'.world := by
  unfold ClockSteady
  rw [(later_of_loopRun hrun).1]
  exact hsteady

theorem punctual_of_loopRun {q : RunQueue} (hrun : LoopRun tz qs es s s') (h : Punctual q s.world) :
    Punctual q s'.world := by
  induction hrun with
  | nil s => exact h
  | cons hstep _ ih => exact ih (stable_step (fun slot => stable_punctual q slot _) h.steady hstep h)

/-- **An entry stays where it is** in a run in which it is not picked. -/
theorem entry_of_loopRun {q : RunQueue} {key : TimeKey} {content : Option FileContent} (hsteady : ClockSteady s.world)
    (hq : q ∈ qs.allQueues) (hrun : LoopRun tz qs es s s') (hspares : s.phase.Spares (q.slot key))
    (hnot : ∀ choice, LoopEvent.pick (some choice) ∈ es → ¬ choice.Of q key)
    (hentry : s.world.disk.entries (q.slot key) = some content) :
    s'.phase.Spares (q.slot key) ∧ s'.world.disk.entries (q.slot key) = some content := by
  induction hrun with
  | nil s => exact ⟨hspares, hentry⟩
  | cons hstep _ ih =>
    obtain ⟨hspares', hentry'⟩ := entry_of_step hsteady hq hstep hspares
      (fun choice he => hnot choice (he ▸ List.mem_cons_self)) hentry
    exact ih (steady_of_step hsteady hstep) hspares' (fun choice he => hnot choice (List.mem_cons_of_mem _ he)) hentry'

/-- The first event of a kind in a run. -/
theorem exists_first (P : LoopEvent → Prop) (hrun : LoopRun tz qs es s s') (h : ∃ e ∈ es, P e) :
    ∃ es' e t t', LoopRun tz qs es' s t ∧ LoopStep tz qs e t t' ∧ P e ∧ (∀ e' ∈ es', e' ∈ es ∧ ¬ P e') := by
  induction hrun with
  | nil s =>
    obtain ⟨e, he, -⟩ := h
    cases he
  | @cons e es s t u hstep hrun ih =>
    by_cases hP : P e
    · exact ⟨[], e, s, t, .nil s, hstep, hP, fun e' he' => by cases he'⟩
    · obtain ⟨e', he', hP'⟩ := h
      rcases List.mem_cons.1 he' with rfl | he'
      · exact absurd hP' hP
      · obtain ⟨es', e'', t', u', hrun', hstep', hP'', hbefore⟩ := ih ⟨e', he', hP'⟩
        refine ⟨e :: es', e'', t', u', .cons hstep hrun', hstep', hP'', fun x hx => ?_⟩
        rcases List.mem_cons.1 hx with rfl | hx
        · exact ⟨List.mem_cons_self, hP⟩
        · exact ⟨List.mem_cons_of_mem _ (hbefore x hx).1, (hbefore x hx).2⟩

end Runs

/-! ### The main result -/

section Alternation

variable {tz : LocalTz} {qs : RunQueues}

/-- A stored job is in the loaded data. -/
theorem held_of_entry {data : RunQueuesData} {d : Disk FileContent} {q : RunQueue} {key : TimeKey} {job : BenchmarkingJob}
    (hload : data.LoadedFrom qs d) (hq : ∃ qd ∈ data.pipelineData, qd.runQueue = q)
    (hentry : d.entries (q.slot key) = some (some (.job job))) :
    ∃ priority, q.totalPriority job = some priority ∧
      ∃ qd ∈ data.pipelineData, qd.runQueue = q ∧ ∃ p, (key, job, p) ∈ qd.queueData := by
  obtain ⟨qd, hqd, rfl⟩ := hq
  obtain ⟨q, -, hloaded⟩ := exists_of_forall₂ hload.pipeline hqd
  obtain ⟨rfl, kvs, hkvs, hdata⟩ := id hloaded
  have hget : qd.runQueue.queue.get? d key = some job := by
    rw [Queue.get?, KeyVal.get?, show d.entries (qd.runQueue.queue.keyVal.slot key) = _ from hentry]
    rfl
  have hmem := Queue.mem_contents_of_get? hkvs hget
  obtain ⟨a, ha, hitem⟩ := exists_of_forall₂_left hdata hmem
  obtain ⟨hkey, hjob⟩ := RunQueue.eq_of_itemData hitem
  have htotal := hloaded.totalPriority ha
  obtain ⟨key', job', p⟩ := a
  obtain rfl : key' = key := hkey
  obtain rfl : job' = job := hjob
  exact ⟨p, htotal, qd, hqd, rfl, p, ha⟩

/-- What is chosen is stored. -/
theorem entry_of_best {data : RunQueuesData} {d : Disk FileContent} {t : DateTime} {choice : Choice} {key : TimeKey}
    {job : BenchmarkingJob} (hload : data.LoadedFrom qs d) (hbest : data.Best tz qs t choice key)
    (hentry : d.entries (choice.queue.current.runQueue.slot key) = some (some (.job job))) : choice.job = job := by
  obtain ⟨qd, hqd, hqueue, p, hmem⟩ := hbest.waits.held
  obtain ⟨q, -, rfl, kvs, hkvs, hdata⟩ := exists_of_forall₂ hload.pipeline hqd
  obtain ⟨kv, hkv, hitem⟩ := exists_of_forall₂ hdata hmem
  obtain ⟨hkey, hjob⟩ := RunQueue.eq_of_itemData hitem
  have hget := Queue.get?_of_mem_contents hkvs hkv
  rw [← hkey, ← hjob, Queue.get?, KeyVal.get?, hqueue,
    show d.entries (choice.queue.current.runQueue.queue.keyVal.slot key) = _ from hentry] at hget
  exact (Option.some.inj hget).symm

/-- A job is not picked while there is an older one with at least its priority in the queue. -/
theorem not_picked {data : RunQueuesData} {d : Disk FileContent} {t : DateTime} {choice : Choice} {q : RunQueue}
    {key key' old : TimeKey} {job oldJob : BenchmarkingJob} (hload : data.LoadedFrom qs d)
    (hbest : data.Best tz qs t choice key') (hof : choice.Of q key)
    (hentry : d.entries (q.slot key) = some (some (.job job)))
    (hold : d.entries (q.slot old) = some (some (.job oldJob))) (hlt : old < key)
    (hprio : ∀ p p', q.totalPriority job = some p → q.totalPriority oldJob = some p' → p ≤ p') : False := by
  obtain ⟨rfl, hname⟩ := hof
  obtain rfl : key' = key := asFilenameStr_injective (hbest.item.2.1.symm.trans hname)
  have hjob := entry_of_best hload hbest hentry
  have hqueue : ∃ qd ∈ data.pipelineData, qd.runQueue = choice.queue.current.runQueue := by
    obtain ⟨qd, hqd, hqueue, -⟩ := hbest.waits.held
    exact ⟨qd, hqd, hqueue⟩
  obtain ⟨priority, htotal, hheld⟩ := held_of_entry hload hqueue hold
  have hwaits : data.Waits tz t choice.queue.current.runQueue choice.window old oldJob priority :=
    ⟨hheld, hbest.waits.runnable, htotal⟩
  have hle : choice.priority ≤ priority := by
    refine hprio _ _ ?_ htotal
    rw [← hjob]
    exact hbest.waits.total
  have hge := hbest.highest _ _ _ _ _ hwaits
  obtain rfl : priority = choice.priority := le_antisymm hge hle
  exact (hbest.first _ _ _ _ hwaits).2 rfl hlt

/-- Insertions do not change what the daemon is about to do. -/
theorem phase_of_inserts {s s' : LoopState} {es : List LoopEvent} (hrun : LoopRun tz qs es s s')
    (h : ∀ e ∈ es, e = .insert) : s'.phase = s.phase := by
  induction hrun with
  | nil s => rfl
  | @cons e es s t u hstep hrun ih =>
    obtain rfl := h e List.mem_cons_self
    rw [ih fun e he => h e (List.mem_cons_of_mem _ he)]
    cases hstep with
    | insert hfirst hrun => rfl

/-- The first pick of an entry in a run that ends with one. -/
theorem exists_first_pick {s u u' : LoopState} {es : List LoopEvent} {choice : Choice} {q : RunQueue} {key : TimeKey}
    (hrun : LoopRun tz qs es s u) (hpick : LoopStep tz qs (.pick (some choice)) u u') (hof : choice.Of q key) :
    ∃ es' choice' v v', LoopRun tz qs es' s v ∧ LoopStep tz qs (.pick (some choice')) v v' ∧ choice'.Of q key ∧
      ∀ e ∈ es', e ∈ es ∧ ∀ c, e = .pick (some c) → ¬ c.Of q key := by
  by_cases h : ∃ e ∈ es, ∃ c, e = LoopEvent.pick (some c) ∧ c.Of q key
  · obtain ⟨es', e, v, v', hrun', hstep, ⟨c, rfl, hc⟩, hbefore⟩ :=
      exists_first (fun e => ∃ c, e = LoopEvent.pick (some c) ∧ c.Of q key) hrun h
    exact ⟨es', c, v, v', hrun', hstep, hc, fun e he => ⟨(hbefore e he).1, fun c hpick hc =>
      (hbefore e he).2 ⟨c, hpick, hc⟩⟩⟩
  · exact ⟨es, choice, u, u', hrun, hpick, hof, fun e he => ⟨he, fun c hpick hc => h ⟨e, he, c, hpick, hc⟩⟩⟩

/-- After its run, a job is in the queue under a new key, and without its boost. -/
theorem reinserted {q : RunQueue} {t₁ t₂ : LoopState} {context : RunContext}
    {next : RunQueuesData × SystemTime × Option Choice} {a : Choice} {key : TimeKey} {content : Option FileContent}
    (hsteady : ClockSteady t₁.world) (hphase : t₁.phase = .picked context next) (ha : next.2.2 = some a)
    (hrun : LoopStep tz qs .run t₁ t₂) (hnew : t₁.world.disk.entries (q.slot key) = none)
    (hback : t₂.world.disk.entries (q.slot key) = some content) :
    t₁.world.event.now.nanos ≤ (key.nanos.val : ℤ) ∧
      ∃ state, content = some (.job (a.job.cloneForQueueReinsertion state)) := by
  cases hrun with
  | run hrun =>
    obtain ⟨rfl, rfl⟩ := Phase.picked.inj hphase
    have hsince := (keeps_afterPick _ _ (stable_newSince q _ _ (fun job => ∃ state, job = a.job.cloneForQueueReinsertion state)
      _) fun choice hchoice state => ⟨state, by rw [Option.some.inj (ha.symm.trans hchoice)]⟩).run
      ⟨hsteady, le_rfl, fun key content h => .inl h⟩ hrun
    rcases hsince.entries key content hback with hbefore | ⟨htime, job, rfl, state, rfl⟩
    · rw [hbefore] at hnew
      cases hnew
    · exact ⟨htime, state, rfl⟩

/-- **Jobs take turns.** In every run of the loop with a clock that goes forward: if a job `a` is picked from a queue, goes
back into the same queue under a new key after its run, and is picked from there later, then every other job `b` that was
in the queue at the first pick, and whose total priority is at least the one that `a` has without its boost, is picked
in between. -/
theorem jobs_alternate {q : RunQueue} {s₀ s t t₁ t₂ u u' : LoopState} {es₀ es₁ es₂ : List LoopEvent} {a a' : Choice}
    {ka kb ka' : TimeKey} {b : BenchmarkingJob} {content : Option FileContent}
    (hclock : ClockIncreasing s₀.world u'.world.tick) (hpast : ∀ q ∈ qs.pipeline, KeysPast q s₀.world)
    (hbefore : LoopRun tz qs es₀ s₀ s)
    -- the first pick, and what was in the queue then
    (hpick : LoopStep tz qs (.pick (some a)) s t) (ha : a.Of q ka)
    (hb : s.world.disk.entries (q.slot kb) = some (some (.job b))) (hne : kb ≠ ka)
    (hprio : ∀ p p', q.totalPriority { a.job with currentBoost := Priority.normal } = some p →
      q.totalPriority b = some p' → p ≤ p')
    -- the run, after which the job is in the queue again
    (hinserts : LoopRun tz qs es₁ t t₁) (honly : ∀ e ∈ es₁, e = .insert) (hrun : LoopStep tz qs .run t₁ t₂)
    (hnew : t₁.world.disk.entries (q.slot ka') = none) (hback : t₂.world.disk.entries (q.slot ka') = some content)
    -- the second pick
    (hbetween : LoopRun tz qs es₂ t₂ u) (hagain : LoopStep tz qs (.pick (some a')) u u') (ha' : a'.Of q ka') :
    ∃ c : Choice, LoopEvent.pick (some c) ∈ es₂ ∧ c.Of q kb := by
  have hq : q ∈ qs.pipeline := by
    cases hpick with
    | pick hrun =>
      obtain ⟨-, key, hbest⟩ := best_of_pickNext hrun
      rw [← ha.1]
      exact qs.current_mem hbest.next
  have hq' := mem_allQueues_of_mem_pipeline hq
  have hpunctual := punctual_of_loopRun hbefore ⟨hclock.steady, hpast q hq⟩
  have hsteady : ClockSteady s.world := hpunctual.steady
  have hsteady_t := steady_of_step hsteady hpick
  have hsteady₁ := steady_of_loopRun hsteady_t hinserts
  have hsteady₂ := steady_of_step hsteady₁ hrun
  -- The new key of `a` is greater than the one of `b`.
  obtain ⟨context, next, hphase, hnext⟩ : ∃ context next, t.phase = .picked context next ∧ next.2.2 = some a := by
    cases hpick with
    | pick hrun => exact ⟨_, _, rfl, rfl⟩
  obtain ⟨htime, state, rfl⟩ := reinserted hsteady₁ ((phase_of_inserts hinserts honly).trans hphase) hnext hrun hnew hback
  have hlt : kb < ka' := by
    have hpast_b := hpunctual.past kb (by rw [hb]; simp)
    have hnow : s.world.event.now.nanos < t₁.world.event.now.nanos := by
      have hlater₀ := later_of_loopRun hbefore
      have hlater := later_of_loopRun hinserts
      have hlater₂ := later_of_step hrun
      have hlater₃ := later_of_loopRun hbetween
      have htick := tick_lt_of_pick hagain
      rw [World.event, World.event, hlater.1, (later_of_step hpick).1, hlater₀.1]
      exact hclock.forward _ _ (lt_of_lt_of_le (tick_lt_of_pick hpick) hlater.2) (by omega)
    refine TimeKey.lt_of_nanos_lt (Fin.lt_def.2 ?_)
    omega
  -- The entry of `b` is still there when the run of `a` has ended.
  have hspares : s.phase.Spares (q.slot kb) := by
    cases hpick with
    | pick hrun => exact trivial
  have hnot : ∀ choice, LoopEvent.pick (some a) = .pick (some choice) → ¬ choice.Of q kb := by
    intro choice he hof
    obtain rfl : a = choice := by simpa using he
    exact hne (asFilenameStr_injective (hof.2.symm.trans ha.2))
  obtain ⟨hspares_t, hb_t⟩ := entry_of_step hsteady hq' hpick hspares hnot hb
  obtain ⟨hspares₁, hb₁⟩ := entry_of_loopRun hsteady_t hq' hinserts hspares_t
    (fun choice he => by cases honly _ he) hb_t
  obtain ⟨hspares₂, hb₂⟩ := entry_of_step hsteady₁ hq' hrun hspares₁ (fun choice he => by cases he) hb₁
  by_contra hno
  -- So it is there at the first pick of the new entry of `a`.
  obtain ⟨es, c, v, v', hfirst, hpick', hc, hes⟩ := exists_first_pick hbetween hagain ha'
  have hspares' : t₂.phase.Spares (q.slot ka') := by
    cases hrun with
    | run hrun => exact trivial
  obtain ⟨-, hb_v⟩ := entry_of_loopRun hsteady₂ hq' hfirst hspares₂
    (fun c hpick hof => hno ⟨c, (hes _ hpick).1, hof⟩) hb₂
  obtain ⟨-, ha_v⟩ := entry_of_loopRun hsteady₂ hq' hfirst hspares' (fun c hpick => (hes _ hpick).2 c rfl) hback
  cases hpick' with
  | pick hrun =>
    obtain ⟨hload, key, hbest⟩ := best_of_pickNext hrun
    exact not_picked hload hbest hc ha_v hb_v hlt hprio

end Alternation

/-! ### Two jobs -/

/-- The name of a queue in which jobs take turns. -/
def turnsName : ProperFilename := ⟨"turns", by decide⟩

/-- A queue whose jobs are run again and again all day. -/
def turnsQueues : RunQueues where
  config := ⟨[(turnsName,
    .localNaiveTimeWindow none dayName none true false ⟨0, 0, 0⟩ ⟨23, 59, 59⟩)], none, none⟩
  basedir := "queues"
  checked := by decide +kernel

/-- The queue. -/
def turnsQueue : RunQueue :=
  makeRunQueue "queues" (turnsName,
    .localNaiveTimeWindow none dayName none true false ⟨0, 0, 0⟩ ⟨23, 59, 59⟩)

/-- Two jobs are in the queue, and the clock ticks. -/
def turnsWorld : EvoWorld where
  disk := Function.update (fun _ => ∅) "queues/turns" (nightJobs [0, 1])
  locks := fun _ => none
  env := fun i => ⟨⟨1000 + min i 1000, by omega⟩, none, sampleAnswer⟩
  tick := 0
  ids := fun _ => 0
  calls := []

/-- What the daemon does next, if it goes well, with the choice if it is a pick. -/
def turn (qs : RunQueues) (s : LoopState) : Option (Option (Option Choice) × LoopState) :=
  match s with
  | ⟨.idle context, w⟩ =>
    match (pickNext sampleTz qs).run (machine 5) w with
    | some (.ok (data, timestamp, job), w') => some (some job, ⟨.picked context (data, timestamp, job), w'⟩)
    | _ => none
  | ⟨.picked context next, w⟩ =>
    match (afterPick context next).run (machine 5) w with
    | some (.ok (context', _), w') => some (none, ⟨.idle context', w'⟩)
    | _ => none

/-- The state after a number of steps. -/
def turnsFrom (qs : RunQueues) (w : EvoWorld) : ℕ → LoopState
  | 0 => ⟨.idle .default, w⟩
  | n + 1 => ((turn qs (turnsFrom qs w n)).map Prod.snd).getD (turnsFrom qs w n)

/-- The job that is picked in a step. -/
def pickAt (qs : RunQueues) (w : EvoWorld) (n : ℕ) : Option Choice := ((turn qs (turnsFrom qs w n)).bind Prod.fst).join

/-- The states of the two jobs' turns. -/
def turns : ℕ → LoopState := turnsFrom turnsQueues turnsWorld

theorem turn_pick {qs : RunQueues} {w : EvoWorld} {n : ℕ} {c : Choice} (h : pickAt qs w n = some c) :
    LoopStep sampleTz qs (.pick (some c)) (turnsFrom qs w n) (turnsFrom qs w (n + 1)) := by
  rw [turnsFrom]
  rw [pickAt] at h
  generalize turnsFrom qs w n = s at h
  obtain ⟨context | ⟨context, next⟩, w⟩ := s
  · simp only [turn] at h ⊢
    split at h
    · next data timestamp job w' hrun =>
      obtain rfl : job = some c := h
      exact .pick hrun
    · cases h
  · simp only [turn] at h
    split at h
    · cases h
    · cases h

theorem turn_run {qs : RunQueues} {w : EvoWorld} {n : ℕ}
    (h : ((turn qs (turnsFrom qs w n)).map fun x => x.1.isNone) = some true) :
    LoopStep sampleTz qs .run (turnsFrom qs w n) (turnsFrom qs w (n + 1)) := by
  rw [turnsFrom]
  generalize turnsFrom qs w n = s at h
  obtain ⟨context | ⟨context, next⟩, w⟩ := s
  · simp only [turn] at h
    split at h
    · cases h
    · cases h
  · simp only [turn] at h ⊢
    split at h
    · next context' ran w' hrun => exact .run hrun
    · cases h

theorem pickAt_of (n : ℕ) (key : TimeKey)
    (h : ((pickAt turnsQueues turnsWorld n).map fun c => (c.queue.current.runQueue, c.item.entry.fileName, c.job.priority)) =
      some (turnsQueue, asFilenameStr key, .num 0)) :
    ∃ c, pickAt turnsQueues turnsWorld n = some c ∧ c.Of turnsQueue key ∧ c.job.priority = .num 0 := by
  obtain ⟨c, hc, he⟩ := Option.map_eq_some_iff.1 h
  simp only [Prod.mk.injEq] at he
  exact ⟨c, hc, ⟨he.1, he.2.1⟩, he.2.2⟩

theorem turnsWorld_increasing : ClockIncreasing turnsWorld 1000 := by
  refine ⟨fun i j hij => ?_, fun i j hij hj => ?_⟩
  · simp only [turnsWorld]
    omega
  · simp only [turnsWorld]
    omega

/-- The second job is picked between the first two runs of the first one. -/
theorem jobs_alternate_sample :
    ∃ es, LoopRun sampleTz turnsQueues es (turns 2) (turns 4) ∧
      ∃ c : Choice, LoopEvent.pick (some c) ∈ es ∧ c.Of turnsQueue ⟨0, 1, 1⟩ := by
  obtain ⟨a, hpick, ha, hprio⟩ := pickAt_of 0 ⟨0, 1, 0⟩ (by decide +kernel)
  obtain ⟨b, hpick_b, -, -⟩ := pickAt_of 2 ⟨0, 1, 1⟩ (by decide +kernel)
  obtain ⟨a', hpick', ha', -⟩ := pickAt_of 4 ⟨1009, 5, 0⟩ (by decide +kernel)
  have hbetween : LoopRun sampleTz turnsQueues [.pick (some b), .run] (turns 2) (turns 4) :=
    .cons (turn_pick hpick_b) (.cons (turn_run (by decide +kernel)) (.nil _))
  obtain ⟨content, hback⟩ := Option.isSome_iff_exists.1
    (show ((turns 2).world.disk.entries (turnsQueue.slot ⟨1009, 5, 0⟩)).isSome = true by decide +kernel)
  have hincreasing : ClockIncreasing turnsWorld (turns 5).world.tick :=
    ⟨turnsWorld_increasing.steady, fun i j hij hj => turnsWorld_increasing.forward i j hij (hj.trans (by decide +kernel))⟩
  have hpast : ∀ q ∈ turnsQueues.pipeline, KeysPast q turnsWorld := by
    intro q hq key hkey
    obtain rfl : q = turnsQueue := List.mem_singleton.1 (show q ∈ [turnsQueue] from hq)
    have hdisk : turnsWorld.disk turnsQueue.queue.keyVal.baseDir = nightJobs [0, 1] := by
      rw [show turnsQueue.queue.keyVal.baseDir = "queues/turns" from rfl]
      exact Function.update_self "queues/turns" (nightJobs [0, 1]) (fun _ => ∅ : String → Dir FileContent)
    have hmem : asFilenameStr key ∈ (nightJobs [0, 1]).keys := by
      rw [← AList.mem_keys, ← AList.lookup_isSome, ← hdisk]
      rw [show turnsWorld.disk.entries (turnsQueue.slot key) = _ from Disk.entries_eq_file (isTmp_asFilenameStr key)] at hkey
      exact Option.isSome_iff_ne_none.2 hkey
    have hkeys : (nightJobs [0, 1]).keys = [asFilenameStr (⟨0, 1, 0⟩ : TimeKey), asFilenameStr (⟨0, 1, 1⟩ : TimeKey)] := by
      decide +kernel
    rw [hkeys, List.mem_pair] at hmem
    rcases hmem with hname | hname
    · rw [asFilenameStr_injective hname]
      decide
    · rw [asFilenameStr_injective hname]
      decide
  have hequal : ∀ p p', turnsQueue.totalPriority { a.job with currentBoost := Priority.normal } = some p →
      turnsQueue.totalPriority sampleJob = some p' → p ≤ p' := by
    intro p p' hp hp'
    have he : turnsQueue.totalPriority { a.job with currentBoost := Priority.normal } =
        turnsQueue.totalPriority sampleJob := by
      simp only [RunQueue.totalPriority, BenchmarkingJob.totalPriority, hprio]
      rfl
    rw [he, hp'] at hp
    exact (Option.some.inj hp).ge
  have hb : (turns 0).world.disk.entries (turnsQueue.slot ⟨0, 1, 1⟩) = some (some (.job sampleJob)) := by decide +kernel
  refine ⟨_, hbetween, ?_⟩
  exact jobs_alternate hincreasing hpast (.nil (turns 0)) (turn_pick hpick) ha hb (by decide) hequal (.nil _)
    (fun e he => by cases he) (turn_run (by decide +kernel)) (by decide +kernel) hback hbetween (turn_pick hpick') ha'

end Evobench.Run

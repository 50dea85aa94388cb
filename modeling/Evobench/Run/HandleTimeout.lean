import Evobench.Library.Transfer
import Evobench.Run.Alternation

/-!
# Moving a queue on

When the time window of a queue has ended, `handleTimeout` moves its jobs to the successor: it lists the keys, and for each it
reads the job, pushes it to the successor under a new key, and deletes the old entry. Any of these steps can fail, and the
process can be killed between any two of them.

* `KeepsJobs`: no job has been lost, whatever has been done so far.
* `MovedOn`: all jobs have been moved, each once and in order.

`handle_timeout_lossless` is the main result. The loop is followed with `Underway`, which says what has been moved when some
of the keys are still to come.
-/

namespace Evobench.Run

open Library SerdeTypes KeyValFs IoUtils RunQueueWithNext

/-! ### What is to be kept -/

/-- The jobs of a queue, in the order of their keys. -/
structure RunQueue.Lists (q : RunQueue) (d : Disk FileContent) (jobs : List (TimeKey × BenchmarkingJob)) : Prop where
  /-- The order. -/
  sorted : jobs.Pairwise fun a b => a.1 < b.1
  /-- The jobs. -/
  mem : ∀ key job, (key, job) ∈ jobs ↔ q.job? d key = some job

/-- **No job is lost**: every entry of the queue is in the queue or in the successor, there under a new key of its own, and
the successor's entries are as they were. -/
def KeepsJobs (q n : RunQueue) (before after : Entries FileContent) : Prop :=
  ∃ place : TimeKey → Option TimeKey,
    (∀ key key' target, place key = some target → place key' = some target → key = key') ∧
    (∀ key content, before (q.slot key) = some content → match place key with
      | none => after (q.slot key) = some content
      | some target => before (n.slot target) = none ∧ after (n.slot target) = some content) ∧
    ∀ key content, before (n.slot key) = some content → after (n.slot key) = some content

/-- **The queue has been moved on**: these were its jobs, and under these keys they are now in the successor. -/
structure MovedOn (q n : RunQueue) (w v : EvoWorld) (jobs moved : List (TimeKey × BenchmarkingJob)) : Prop where
  /-- The jobs of the queue. -/
  listed : q.Lists w.disk jobs
  /-- They have been moved, in their order. -/
  same : moved.map Prod.snd = jobs.map Prod.snd
  /-- Nothing is left in the queue. -/
  empty : q.Empty v.disk.entries
  /-- Each has a key of its own. -/
  nodup : (moved.map Prod.fst).Nodup
  /-- The keys are new. -/
  fresh : ∀ kv ∈ moved, w.disk.entries (n.slot kv.1) = none
  /-- The successor has what it had, and the moved jobs. -/
  successor : ∀ key content, v.disk.entries (n.slot key) = some content ↔
    w.disk.entries (n.slot key) = some content ∨ ∃ job, content = some (.job job) ∧ (key, job) ∈ moved
  /-- With a clock that goes forward, the successor has them in their former order. -/
  ordered : ClockIncreasing w v.tick → moved.Pairwise fun a b => a.1 < b.1
  /-- They come after its own jobs, if these were there before. -/
  appended : ClockIncreasing w v.tick → KeysPast n w → ∀ own, n.Lists w.disk own → n.Lists v.disk (own ++ moved)

/-! ### Jobs that have been moved -/

/-- A job that has been moved. -/
structure JobMove where
  /-- Its key in the queue. -/
  source : TimeKey
  /-- Its key in the successor. -/
  target : TimeKey
  /-- The job. -/
  job : BenchmarkingJob
  /-- When it was pushed. -/
  tick : ℕ

/-- The move of the files. -/
def JobMove.move (q n : RunQueue) (m : JobMove) : Move (String × String) (Option FileContent) :=
  ⟨q.slot m.source, n.slot m.target, some (.job m.job)⟩

section Moves

variable {q n : RunQueue} {w v u t : EvoWorld} {ms : List JobMove} {m : JobMove} {key : TimeKey} {rest : List TimeKey}

theorem slot_injective (q : RunQueue) : Function.Injective q.slot := q.queue.keyVal.slot_injective

theorem mem_sources : q.slot key ∈ (ms.map (JobMove.move q n)).map Move.source ↔ ∃ m ∈ ms, m.source = key := by
  simp only [List.map_map, List.mem_map, Function.comp_apply, JobMove.move, (slot_injective q).eq_iff]

theorem mem_targets : n.slot key ∈ (ms.map (JobMove.move q n)).map Move.target ↔ ∃ m ∈ ms, m.target = key := by
  simp only [List.map_map, List.mem_map, Function.comp_apply, JobMove.move, (slot_injective n).eq_iff]

/-- Where a moved job is. -/
def placeOf (ms : List JobMove) (key : TimeKey) : Option TimeKey :=
  (ms.find? fun m => m.source = key).map JobMove.target

theorem exists_of_placeOf {target : TimeKey} (h : placeOf ms key = some target) :
    ∃ m ∈ ms, m.source = key ∧ m.target = target := by
  obtain ⟨m, hm, htarget⟩ := Option.map_eq_some_iff.1 h
  have hsource := List.find?_some hm
  exact ⟨m, List.mem_of_find?_eq_some hm, of_decide_eq_true hsource, htarget⟩

theorem placeOf_eq_none : placeOf ms key = none ↔ ¬ ∃ m ∈ ms, m.source = key := by
  rw [placeOf, Option.map_eq_none_iff, List.find?_eq_none]
  simp

/-- What has not been lost by the moves is in the queue or in its successor. -/
theorem keepsJobs_of_kept {before after : Entries FileContent} (hne : ∀ k k', q.slot k ≠ n.slot k')
    (h : Kept before (ms.map (JobMove.move q n)) after) : KeepsJobs q n before after := by
  refine ⟨placeOf ms, ?_, ?_, ?_⟩
  · intro key key' target hkey hkey'
    obtain ⟨m, hm, hsource, htarget⟩ := exists_of_placeOf hkey
    obtain ⟨m', hm', hsource', htarget'⟩ := exists_of_placeOf hkey'
    have hmoves := h.targets
    rw [List.map_map] at hmoves
    have hsame : m = m' := by
      refine List.inj_on_of_nodup_map hmoves hm hm' ?_
      show n.slot m.target = n.slot m'.target
      rw [htarget, htarget']
    rw [← hsource, ← hsource', hsame]
  · intro key content hcontent
    cases hplace : placeOf ms key with
    | none =>
      refine h.stays _ _ hcontent fun hmem => ?_
      exact placeOf_eq_none.1 hplace (mem_sources.1 hmem)
    | some target =>
      obtain ⟨m, hm, rfl, rfl⟩ := exists_of_placeOf hplace
      have hmove := List.mem_map_of_mem (f := JobMove.move q n) hm
      have hstored := (h.stored _ hmove).symm.trans hcontent
      exact ⟨h.free _ hmove, (h.arrived _ hmove).trans hstored⟩
  · intro key content hcontent
    refine h.stays _ _ hcontent fun hmem => ?_
    obtain ⟨move, hmove, hsource⟩ := List.mem_map.1 hmem
    obtain ⟨m, -, rfl⟩ := List.mem_map.1 hmove
    exact hne _ _ hsource

/-! ### The loop -/

/-- These jobs have been moved since `w`, and these keys are still to come. -/
structure Underway (q n : RunQueue) (w : EvoWorld) (ms : List JobMove) (rest : List TimeKey) (v : EvoWorld) : Prop where
  /-- The files. -/
  moved : Moved w.disk.entries (ms.map (JobMove.move q n)) v.disk.entries
  /-- What is left in the queue is still to come. -/
  remaining : ∀ key, v.disk.entries (q.slot key) ≠ none → key ∈ rest
  /-- The keys are sorted. -/
  sorted : rest.Pairwise (· ≤ ·)
  /-- The jobs have been moved in the order of their keys. -/
  sources : ms.Pairwise fun a b => a.source < b.source
  /-- The other keys come later. -/
  before_rest : ∀ m ∈ ms, ∀ key ∈ rest, m.source ≤ key
  /-- The new keys are the times of the pushes. -/
  time : ∀ m ∈ ms, (m.target.nanos.val : ℤ) = (w.env m.tick).now.nanos
  /-- One push comes after the other. -/
  ticks : ms.Pairwise fun a b => a.tick < b.tick
  /-- The pushes were made since then. -/
  since : ∀ m ∈ ms, w.tick < m.tick ∧ m.tick ≤ v.tick
  /-- The outside does what it was going to do. -/
  env : v.env = w.env
  /-- Time moves forward. -/
  later : w.tick ≤ v.tick

namespace Underway

/-- Steps that change no files. -/
theorem leads (h : Underway q n w ms rest v) (hu : v.Leads v.disk.entries u) : Underway q n w ms rest u := by
  obtain ⟨hmoved, hremaining, hsorted, hsources, hrest, htime, hticks, hsince, henv, hlater⟩ := h
  rw [← hu.entries] at hmoved hremaining
  exact ⟨hmoved, hremaining, hsorted, hsources, hrest, htime, hticks,
    fun m hm => ⟨(hsince m hm).1, (hsince m hm).2.trans hu.tick⟩, hu.env.trans henv, hlater.trans hu.tick⟩

/-- There is nothing under the key. -/
theorem skip (h : Underway q n w ms (key :: rest) v) (hnone : v.disk.entries (q.slot key) = none) :
    Underway q n w ms rest v := by
  obtain ⟨hmoved, hremaining, hsorted, hsources, hrest, htime, hticks, hsince, henv, hlater⟩ := h
  refine ⟨hmoved, fun key' hkey' => ?_, hsorted.of_cons, hsources, fun m hm k hk => hrest m hm k (List.mem_cons_of_mem _ hk),
    htime, hticks, hsince, henv, hlater⟩
  rcases List.mem_cons.1 (hremaining key' hkey') with rfl | hmem
  · exact absurd hnone hkey'
  · exact hmem

theorem keepsJobs (hne : ∀ k k', q.slot k ≠ n.slot k') (h : Underway q n w ms rest v) :
    KeepsJobs q n w.disk.entries v.disk.entries := keepsJobs_of_kept hne h.moved.kept

/-- A job is in the successor, and still in the queue. -/
theorem keepsJobs_put (hne : ∀ k k', q.slot k ≠ n.slot k') (h : Underway q n w ms rest v) {target : TimeKey}
    {job : BenchmarkingJob} (hfree : v.disk.entries (n.slot target) = none) :
    KeepsJobs q n w.disk.entries (putEntry v.disk.entries (n.slot target) (.job job)) :=
  keepsJobs_of_kept hne (h.moved.kept_copy (m := JobMove.move q n ⟨target, target, job, 0⟩) hfree)

/-- **A job is moved.** -/
theorem move (hne : ∀ k k', q.slot k ≠ n.slot k') (h : Underway q n w ms (key :: rest) v) {target : TimeKey}
    {job : BenchmarkingJob} (hjob : v.disk.entries (q.slot key) = some (some (.job job)))
    (hfree : v.disk.entries (n.slot target) = none) (hvu : v.tick < u.tick)
    (htarget : (target.nanos.val : ℤ) = (w.env u.tick).now.nanos) (hut : u.tick ≤ t.tick) (hvt : t.env = v.env)
    (he : t.disk.entries = eraseEntry (putEntry v.disk.entries (n.slot target) (.job job)) (q.slot key)) :
    Underway q n w (ms ++ [⟨key, target, job, u.tick⟩]) rest t := by
  have hsource : ∀ m ∈ ms, m.source ≠ key := by
    rintro m hm rfl
    have hleft := h.moved.left _ (List.mem_map_of_mem (f := JobMove.move q n) hm)
    rw [show (JobMove.move q n m).source = q.slot m.source from rfl, hjob] at hleft
    cases hleft
  refine ⟨?_, ?_, h.sorted.of_cons, ?_, ?_, ?_, ?_, ?_, hvt.trans h.env, ?_⟩
  · rw [he, List.map_append]
    refine h.moved.apply (m := JobMove.move q n ⟨key, target, job, u.tick⟩) hjob hfree ?_ ?_
    · intro hmem
      obtain ⟨move, hmove, heq⟩ := List.mem_map.1 hmem
      obtain ⟨m, -, rfl⟩ := List.mem_map.1 hmove
      exact hne _ _ heq.symm
    · intro hmem
      obtain ⟨move, hmove, heq⟩ := List.mem_map.1 hmem
      obtain ⟨m, -, rfl⟩ := List.mem_map.1 hmove
      exact hne _ _ heq
  · intro key' hkey'
    rw [he, eraseEntry, Function.update_apply] at hkey'
    split_ifs at hkey' with hkey
    · exact absurd rfl hkey'
    · rw [putEntry, Function.update_of_ne (hne _ _)] at hkey'
      rcases List.mem_cons.1 (h.remaining key' hkey') with rfl | hmem
      · exact absurd rfl hkey
      · exact hmem
  · refine List.pairwise_append.2 ⟨h.sources, List.pairwise_singleton _ _, fun m hm m' hm' => ?_⟩
    obtain rfl := List.mem_singleton.1 hm'
    exact lt_of_le_of_ne (h.before_rest m hm key List.mem_cons_self) (hsource m hm)
  · intro m hm k hk
    rcases List.mem_append.1 hm with hm | hm
    · exact h.before_rest m hm k (List.mem_cons_of_mem _ hk)
    · obtain rfl := List.mem_singleton.1 hm
      exact List.rel_of_pairwise_cons h.sorted hk
  · intro m hm
    rcases List.mem_append.1 hm with hm | hm
    · exact h.time m hm
    · obtain rfl := List.mem_singleton.1 hm
      exact htarget
  · refine List.pairwise_append.2 ⟨h.ticks, List.pairwise_singleton _ _, fun m hm m' hm' => ?_⟩
    obtain rfl := List.mem_singleton.1 hm'
    have := (h.since m hm).2
    show m.tick < u.tick
    omega
  · intro m hm
    rcases List.mem_append.1 hm with hm | hm
    · have := h.since m hm
      omega
    · obtain rfl := List.mem_singleton.1 hm
      have := h.later
      show w.tick < u.tick ∧ u.tick ≤ t.tick
      omega
  · have := h.later
    omega

/-- The new keys in order. -/
theorem target_lt (h : Underway q n w ms rest v) (hclock : ClockIncreasing w v.tick) {m m' : JobMove} (hm : m ∈ ms)
    (hm' : m' ∈ ms) (hlt : m.tick < m'.tick) : m.target < m'.target := by
  have hforward := hclock.forward _ _ hlt (h.since m' hm').2
  rw [← h.time m hm, ← h.time m' hm'] at hforward
  exact TimeKey.lt_of_nanos_lt (Fin.lt_def.2 (Int.ofNat_lt.1 hforward))

theorem job?_eq_some {q : RunQueue} {d : Disk FileContent} {key : TimeKey} {job : BenchmarkingJob} :
    q.job? d key = some job ↔ d.entries (q.slot key) = some (some (.job job)) := by
  show ((d.entries (q.slot key)).join.bind Serde.fromStr : Option BenchmarkingJob) = some job ↔ _
  rcases d.entries (q.slot key) with _ | _ | content
  · exact iff_of_false (fun h => by cases h) fun h => by cases h
  · exact iff_of_false (fun h => by cases h) fun h => by cases h
  · cases content with
    | job job' =>
      show some job' = some job ↔ _
      simp
    | insertion params times => exact iff_of_false (fun h => by cases h) fun h => by cases h
    | other text => exact iff_of_false (fun h => by cases h) fun h => by cases h

theorem stored (h : Underway q n w ms rest v) (hm : m ∈ ms) :
    w.disk.entries (q.slot m.source) = some (some (.job m.job)) := by
  have hmove := List.mem_map_of_mem (f := JobMove.move q n) hm
  have hstored := h.moved.stored _ hmove
  exact hstored

theorem arrived (h : Underway q n w ms rest v) (hm : m ∈ ms) :
    v.disk.entries (n.slot m.target) = some (some (.job m.job)) := by
  have hmove := List.mem_map_of_mem (f := JobMove.move q n) hm
  have harrived := h.moved.arrived _ hmove
  exact harrived

/-- What is in the successor. -/
theorem successor (hne : ∀ k k', q.slot k ≠ n.slot k') (h : Underway q n w ms rest v) (key : TimeKey)
    (content : Option FileContent) : v.disk.entries (n.slot key) = some content ↔
      w.disk.entries (n.slot key) = some content ∨
        ∃ job, content = some (.job job) ∧ (key, job) ∈ ms.map fun m => (m.target, m.job) := by
  constructor
  · intro hcontent
    by_cases hmem : ∃ m ∈ ms, m.target = key
    · obtain ⟨m, hm, rfl⟩ := hmem
      rw [h.arrived hm] at hcontent
      exact .inr ⟨m.job, (Option.some.inj hcontent).symm, List.mem_map_of_mem (f := fun m => (m.target, m.job)) hm⟩
    · left
      rw [← h.moved.rest _ _ fun hmem' => hmem (mem_targets.1 hmem'), hcontent]
      intro hmem'
      obtain ⟨move, hmove, heq⟩ := List.mem_map.1 hmem'
      obtain ⟨m, -, rfl⟩ := List.mem_map.1 hmove
      exact hne _ _ heq
  · rintro (hcontent | ⟨job, rfl, hmem⟩)
    · obtain ⟨-, -, -, hown⟩ := h.keepsJobs hne
      exact hown key content hcontent
    · obtain ⟨m, hm, heq⟩ := List.mem_map.1 hmem
      obtain ⟨rfl, rfl⟩ := Prod.mk.inj heq
      exact h.arrived hm

/-- At the end of the loop nothing is left. -/
theorem empty (h : Underway q n w ms [] v) : q.Empty v.disk.entries := by
  intro key
  by_contra hsome
  exact absurd (h.remaining key hsome) List.not_mem_nil

/-- At the end of the loop all jobs have been moved. -/
theorem listed (h : Underway q n w ms [] v) : q.Lists w.disk (ms.map fun m => (m.source, m.job)) := by
  refine ⟨List.pairwise_map.2 h.sources, fun key job => ⟨fun hmem => ?_, fun hjob => ?_⟩⟩
  · obtain ⟨m, hm, heq⟩ := List.mem_map.1 hmem
    obtain ⟨rfl, rfl⟩ := Prod.mk.inj heq
    rw [job?_eq_some]
    exact h.stored hm
  · rw [job?_eq_some] at hjob
    have hmem : ∃ m ∈ ms, m.source = key := by
      rw [← mem_sources (q := q) (n := n)]
      by_contra hnot
      have hstays := h.moved.kept.stays _ _ hjob hnot
      rw [h.empty key] at hstays
      cases hstays
    obtain ⟨m, hm, rfl⟩ := hmem
    have hsame := (h.stored hm).symm.trans hjob
    simp only [Option.some.injEq, FileContent.job.injEq] at hsame
    rw [← hsame]
    exact List.mem_map_of_mem (f := fun m => (m.source, m.job)) hm

theorem ordered (h : Underway q n w ms rest v) (hclock : ClockIncreasing w v.tick) :
    (ms.map fun m => (m.target, m.job)).Pairwise fun a b => a.1 < b.1 := by
  refine List.pairwise_map.2 (h.ticks.imp_of_mem ?_)
  intro m m' hm hm' hlt
  exact h.target_lt hclock hm hm' hlt

/-- The moved jobs come after those that have been there before. -/
theorem appended (hne : ∀ k k', q.slot k ≠ n.slot k') (h : Underway q n w ms rest v) (hclock : ClockIncreasing w v.tick)
    (hpast : KeysPast n w) {own : List (TimeKey × BenchmarkingJob)} (hown : n.Lists w.disk own) :
    n.Lists v.disk (own ++ ms.map fun m => (m.target, m.job)) := by
  refine ⟨List.pairwise_append.2 ⟨hown.sorted, h.ordered hclock, ?_⟩, fun key job => ?_⟩
  · intro kv hkv kv' hkv'
    obtain ⟨m, hm, rfl⟩ := List.mem_map.1 hkv'
    have hold := job?_eq_some.1 ((hown.mem kv.1 kv.2).1 hkv)
    have hle := hpast kv.1 (by rw [hold]; exact Option.some_ne_none _)
    have hlt := hclock.forward _ _ (h.since m hm).1 (h.since m hm).2
    rw [← h.time m hm] at hlt
    exact TimeKey.lt_of_nanos_lt (Fin.lt_def.2 (Int.ofNat_lt.1 (hle.trans_lt hlt)))
  · rw [List.mem_append, hown.mem, job?_eq_some, job?_eq_some, h.successor hne]
    simp only [Option.some.injEq, FileContent.job.injEq, exists_eq_left']

/-- **The end of the loop.** -/
theorem movedOn (hne : ∀ k k', q.slot k ≠ n.slot k') (h : Underway q n w ms [] v) :
    MovedOn q n w v (ms.map fun m => (m.source, m.job)) (ms.map fun m => (m.target, m.job)) where
  listed := h.listed
  same := by simp only [List.map_map, Function.comp_def]
  empty := h.empty
  nodup := by
    have htargets := h.moved.targets
    rw [List.map_map, show Move.target ∘ JobMove.move q n = n.slot ∘ JobMove.target from rfl, ← List.map_map] at htargets
    rw [List.map_map]
    exact htargets.of_map
  fresh kv hkv := by
    obtain ⟨m, hm, rfl⟩ := List.mem_map.1 hkv
    have hmove := List.mem_map_of_mem (f := JobMove.move q n) hm
    have hfree := h.moved.free _ hmove
    exact hfree
  successor := h.successor hne
  ordered := h.ordered
  appended hclock hpast own hown := h.appended hne hclock hpast hown

end Underway

end Moves

/-! ### The program -/

section Rules

variable {pid : Pid} {I : EvoWorld → Prop} {w : EvoWorld} {self : RunQueueWithNext} {n : RunQueue}

theorem content_of_get {entry : Entry FileContent BenchmarkingJob} {val : BenchmarkingJob} (h : entry.get = .ok val) :
    entry.content = some (.job val) := by
  obtain ⟨baseDir, fileName, content⟩ := entry
  rcases content with _ | content
  · cases h
  · cases content with
    | job job =>
      cases h
      rfl
    | insertion params times => cases h
    | other text => cases h

/-- **Moving an entry on to a successor.** The files are as before, or have a copy under a new key, or have it moved. -/
theorem safe_moveEntry_next (hnext : self.next = some n) {entry : Entry FileContent BenchmarkingJob}
    {Q : Outcome Error Unit → EvoWorld → Prop} (hfail : ∀ r u, r.isOk = false → I u → Q r u)
    (hsame : ∀ u, w.Leads w.disk.entries u → I u)
    (hcopied : ∀ val (target : TimeKey), entry.get = .ok val → w.disk.entries (n.slot target) = none →
      ∀ u, w.Leads (putEntry w.disk.entries (n.slot target) (.job val)) u → I u)
    (hmoved : ∀ val (target : TimeKey), entry.get = .ok val → (target.nanos.val : ℤ) = w.event.now.nanos →
      w.disk.entries (n.slot target) = none →
      ∀ u, w.Leads (eraseEntry (putEntry w.disk.entries (n.slot target) (.job val)) (entry.baseDir, entry.fileName)) u →
        I u ∧ Q (.ok ()) u) :
    Safe pid I Q (self.moveEntry entry) w := by
  cases hget : entry.get with
  | error err =>
    have hI := hsame w (World.Leads.refl w)
    simp only [moveEntry, hget]
    exact ⟨hI, hfail _ w rfl hI⟩
  | ok val =>
    simp only [moveEntry, hget, hnext]
    refine Prog.holds_bind.2 ⟨hsame w (World.Leads.refl w), ?_⟩
    refine Prog.holds_bind.2 (Prog.holds_mapErr.2 (Queue.safe_pushFront hsame ?_ ?_ ?_ ?_ ?_))
    · exact fun target _ hnew u hu => hcopied val target hget hnew u hu
    · exact fun msg u hu => hfail _ u rfl (hsame u hu)
    · exact fun err u hu => hfail _ u rfl (hsame u hu)
    · exact fun target _ hnew err u hu => hfail _ u rfl (hcopied val target hget hnew u hu)
    · -- the copy is there, and the old entry is deleted
      intro target htime hnew v hv
      have hcopy : ∀ {u}, v.Leads v.disk.entries u → I u :=
        fun hu => hcopied val target hget hnew _ (hv.trans (hv.entries ▸ hu))
      have hmove : ∀ {u}, v.Leads (eraseEntry v.disk.entries (entry.baseDir, entry.fileName)) u → I u ∧ Q (.ok ()) u := by
        intro u hu
        rw [hv.entries] at hu
        exact hmoved val target hget htime hnew u (hv.trans hu)
      refine Prog.holds_bind.2 (Prog.holds_mapErr.2 (Entry.safe_delete (fun u hu => hcopy hu) (fun u hu => (hmove hu).1)
        (fun err u hu => hfail _ u rfl (hcopy hu)) fun _ u hu => ?_))
      exact ⟨(hmove hu).1, (hmove hu).2⟩

/-- What looking a key up says of its entry. -/
def FoundEntry (q : RunQueue) (key : TimeKey) (e : Entries FileContent) :
    Outcome KeyValError (Option (Entry FileContent BenchmarkingJob)) → Prop
  | .ok none => e (q.slot key) = none
  | .ok (some entry) => (entry.baseDir, entry.fileName) = q.slot key ∧ e (q.slot key) = some entry.content
  | _ => True

theorem safe_getEntry {q : RunQueue} {key : TimeKey} (hI : ∀ u, w.Leads w.disk.entries u → I u) :
    Safe pid I (fun r u => (w.Leads w.disk.entries u ∧ FoundEntry q key w.disk.entries r) ∧ w.tick < u.tick)
      (q.queue.getEntry key) w :=
  KeyVal.later_entryOpt (KeyVal.safe_entryOpt hI (fun _ _ hu => ⟨hu, trivial⟩) (fun hnone _ hu => ⟨hu, hnone⟩)
    fun _ hcontent _ hu => ⟨hu, rfl, hcontent⟩)

/-- **One round of the loop.** -/
theorem safe_round (hne : ∀ k k', self.current.slot k ≠ n.slot k') (hnext : self.next = some n) {ms : List JobMove}
    {key : TimeKey} {rest : List TimeKey} {u : EvoWorld} (hu : Underway self.current n w ms (key :: rest) u)
    {f : Option (Entry FileContent BenchmarkingJob) → Evo Unit} (hnone : f none = pure ())
    (hsome : ∀ entry, f (some entry) = self.moveEntry entry) :
    Safe pid (fun v => KeepsJobs self.current n w.disk.entries v.disk.entries)
      (fun r v => r = .ok () → ∃ ms, Underway self.current n w ms rest v)
      ((self.current.queue.getEntry key).mapErr Error.keyVal >>= f) u := by
  refine Prog.holds_bind.2 (Prog.holds_mapErr.2 ((safe_getEntry fun t ht => (hu.leads ht).keepsJobs hne).imp ?_))
  rintro r v ⟨⟨hv, hfound⟩, htick⟩
  have hI := (hu.leads hv).keepsJobs hne
  cases r with
  | err err => exact fun h => by cases h
  | panic msg => exact fun h => by cases h
  | ok entry =>
    cases entry with
    | none =>
      have hfree : v.disk.entries (self.current.slot key) = none := by rwa [hv.entries]
      simp only [Prog.Then, hnone]
      exact ⟨hI, fun _ => ⟨ms, (hu.leads hv).skip hfree⟩⟩
    | some entry =>
      obtain ⟨hslot, hcontent⟩ := hfound
      simp only [Prog.Then, hsome]
      refine safe_moveEntry_next hnext ?_ ?_ ?_ ?_
      · intro r t hr _ hok
        rw [hok] at hr
        cases hr
      · exact fun t ht => ((hu.leads hv).leads ht).keepsJobs hne
      · intro val target hget hnew t ht
        rw [ht.entries]
        exact (hu.leads hv).keepsJobs_put hne hnew
      · intro val target hget htime hnew t ht
        rw [hslot] at ht
        rw [content_of_get hget] at hcontent
        rw [hv.entries] at hnew
        have htime' : (target.nanos.val : ℤ) = (w.env v.tick).now.nanos := by rw [htime, World.event, hv.env, hu.env]
        have he := ht.entries
        rw [hv.entries] at he
        have hmoved := hu.move hne hcontent hnew htick htime' ht.tick (ht.env.trans hv.env) he
        exact ⟨hmoved.keepsJobs hne, fun _ => ⟨_, hmoved⟩⟩

/-- What `handleTimeout` keeps on its way, and what it has done in the end. -/
theorem safe_handleTimeout (hne : ∀ k k', self.current.slot k ≠ n.slot k') (hnext : self.next = some n)
    (hmove : self.current.scheduleCondition.moveWhenTimeWindowEnds = true) :
    Safe pid (fun v => KeepsJobs self.current n w.disk.entries v.disk.entries)
      (fun r v => r = .ok () → ∃ ms, Underway self.current n w ms [] v) self.handleTimeout w := by
  have hkept : ∀ {u : EvoWorld}, w.Goes w.disk u → KeepsJobs self.current n w.disk.entries u.disk.entries := by
    intro u hu
    rw [hu.disk]
    have hkept : Kept w.disk.entries (([] : List JobMove).map (JobMove.move self.current n)) w.disk.entries := (Moved.nil _).kept
    exact keepsJobs_of_kept hne hkept
  rw [handleTimeout, if_pos hmove]
  refine Prog.holds_bind.2 (Prog.holds_mapErr.2 (KeyVal.safe_sortedKeys (hkept (World.Goes.refl w)) (fun u hu => hkept hu)
    (fun err u hu h => by cases h) fun keys v hkeys hv => ?_))
  -- all that is in the queue has been listed
  have hstart : Underway self.current n w [] (keys.insertionSort (· ≤ ·)) v := by
    refine ⟨?_, fun key hkey => ?_, List.pairwise_insertionSort _ _, List.Pairwise.nil, List.forall_mem_nil _,
      List.forall_mem_nil _, List.Pairwise.nil, List.forall_mem_nil _, hv.env, hv.tick⟩
    · rw [hv.disk]
      exact Moved.nil _
    · rw [hv.disk] at hkey
      rw [List.mem_insertionSort]
      refine (mem_keysOf hkeys key).2 ⟨AsKey.asFilenameStr key, ?_, isTmp_asFilenameStr key, AsKey.tryFrom_asFilenameStr key⟩
      exact (mem_keys_iff_entries (isTmp_asFilenameStr key)).2 (Option.isSome_iff_ne_none.2 hkey)
  refine Prog.holds_forEach (fun rest u => ∃ ms, Underway self.current n w ms rest u) ?_ ?_ ⟨[], hstart⟩
  · rintro key rest u ⟨ms, hu⟩
    refine (safe_round hne hnext hu rfl fun _ => rfl).imp fun r t hr => ?_
    cases r with
    | ok _ => exact hr rfl
    | err err => exact fun h => by cases h
    | panic msg => exact fun h => by cases h
  · rintro u ⟨ms, hu⟩
    exact ⟨hu.keepsJobs hne, fun _ => ⟨ms, hu⟩⟩

end Rules

/-- A queue and its successor have no files in common. -/
theorem slot_ne_next {qs : RunQueues} {q : RunQueueWithNext} {n : RunQueue} (hq : q ∈ qs.runQueueWithNexts)
    (hnext : q.next = some n) (k k' : TimeKey) : q.current.slot k ≠ n.slot k' := by
  intro heq
  have hsame := (qs.slot_inj (mem_allQueues_of_mem_pipeline (qs.current_mem hq))
    (mem_allQueues_of_mem_pipeline (qs.next_mem hq hnext)) heq).1
  obtain ⟨a, r, hp, hr⟩ := RunQueues.mem_withNexts hq
  have hnodup := qs.accepted.nodup_names
  rw [List.append_assoc, List.map_append, hp, hsame] at hnodup
  have hpipeline := hnodup.of_append_left
  rw [List.map_append, List.map_cons] at hpipeline
  refine (List.nodup_cons.1 hpipeline.of_append_right).1 (List.mem_map_of_mem ?_)
  exact List.mem_of_head? (hr ▸ hnext)

/-- A queue whose jobs are moved on in the morning, and its successor. -/
def morningQueues : RunQueues where
  config := ⟨[(turnsName, .localNaiveTimeWindow none dayName none true true ⟨0, 0, 0⟩ ⟨6, 0, 0⟩),
    (parkedName, .inactive)], none, none⟩
  basedir := "queues"
  checked := by decide +kernel

/-- The first queue. -/
def morningQueue : RunQueueWithNext :=
  ⟨makeRunQueue "queues" (turnsName, .localNaiveTimeWindow none dayName none true true ⟨0, 0, 0⟩ ⟨6, 0, 0⟩),
    some (makeRunQueue "queues" (parkedName, .inactive))⟩

end Evobench.Run

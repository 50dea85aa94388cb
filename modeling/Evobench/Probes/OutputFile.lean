import Evobench.Probes.Buffers
import Mathlib.Logic.Relation

/-!
# The file that the threads of a process write

All threads of a process write to one file. Each flushes its own buffer, under a lock, and the operating system may take as
many bytes at a time as it likes. The process may be killed at any time, and writing may fail.

## The model

* `Process`: the threads with their buffers, the file, and who holds the lock. What has been logged under an id is kept for
  the specification only.
* `Step`: what a thread may do next, in any interleaving. Ids of threads that have ended are used again.

## What is proved

* `Flows`: what has been flushed is in the file, but for the rest of the flush in progress, and what has been logged under an
  id is what has been flushed and then what is in the buffer.
* `Programs`: what has been logged under an id are whole lives of threads, one after the other, and then part of one.
* `Joined`: the header comes first, and nothing after the end of the process.

The main result is `file_of_reaches`.

## Honest scope

The main function begins when `output` has been constructed, threads are started by the main function, and all of them have
ended before `output` is destroyed. Programs with a thread that is still there at exit (detached, and blocked or running) are
not modelled: what is in the buffer of such a thread is lost, and a probe that runs then uses objects that are gone. A probe
looks at `is_enabled` without a lock: after a failure it may do what it does otherwise, or nothing.
-/

namespace Evobench.Probes

open Library Evaluator

/-! ### The process -/

/-- `BUF_MAX_SIZE` -/
def bufMaxSize : ℕ := 8192

/-- A thread. -/
structure Running where
  /-- What it is going to do. -/
  todo : List Op
  /-- The contents of its buffer. -/
  string : List UInt8

/-- A process with `output`. -/
structure Process where
  /-- The threads. -/
  threads : Pid → Option Running
  /-- The contents of the file. -/
  file : List UInt8
  /-- `is_enabled` -/
  isEnabled : Bool
  /-- Who holds `write_mutex`, and what is to be written yet. -/
  writing : Option (Pid × List UInt8)
  /-- What has been logged under each id. -/
  logged : Pid → List Line

/-- A thread in another state. -/
def Process.set (s : Process) (t : Pid) (r : Option Running) : Process := { s with threads := Function.update s.threads t r }

@[simp] theorem Process.set_threads_self (s : Process) (t : Pid) (r : Option Running) : (s.set t r).threads t = r :=
  Function.update_self ..

@[simp] theorem Process.set_threads_of_ne (s : Process) {t t' : Pid} (h : t' ≠ t) (r : Option Running) :
    (s.set t r).threads t' = s.threads t' := Function.update_of_ne h ..

section Steps

variable {ι : Type} [DecidableEq ι] (sites : ι → Site) (signed : Bool) (pid : Pid) (metadata : Metadata)

/-- A process at its beginning. Its main thread has the id of the process. -/
def Process.start (body : Body ι) : Process where
  threads := Function.update (fun _ => none) pid (some ⟨mainOps sites metadata body, []⟩)
  file := []
  isEnabled := true
  writing := none
  logged := fun _ => []

/-- The main function runs. -/
def Process.InMain (s : Process) : Prop := ∃ r, s.threads pid = some r ∧ .main ∉ r.todo ∧ .exit ∈ r.todo

/-- What may happen next. -/
inductive Step : Process → Process → Prop where
  /-- A thread is started. -/
  | threadStart {s : Process} {t : Pid} (body : Body ι) (hmain : s.InMain pid) (ht : s.threads t = none) :
      Step s (s.set t (some ⟨life sites body, []⟩))
  /-- A thread has ended. -/
  | threadEnd {s : Process} {t : Pid} {string : List UInt8} (hne : t ≠ pid) (ht : s.threads t = some ⟨[], string⟩) :
      Step s (s.set t none)
  /-- A record is appended to the buffer. -/
  | log {s : Process} {t : Pid} {call : Call} {todo : List Op} {string : List UInt8} (usage : Usage)
      (ht : s.threads t = some ⟨.log call :: todo, string⟩) :
      Step s { s.set t (some ⟨todo, string ++ text signed pid [⟨t, call, usage⟩]⟩) with
        logged := Function.update s.logged t (s.logged t ++ [⟨t, call, usage⟩]) }
  /-- `possibly_flush`: the buffer is not full. -/
  | stay {s : Process} {t : Pid} {probeName : String} {todo : List Op} {string : List UInt8}
      (ht : s.threads t = some ⟨.possiblyFlush probeName :: todo, string⟩) (hlength : string.length ≤ bufMaxSize) :
      Step s (s.set t (some ⟨todo, string⟩))
  /-- `possibly_flush`: the buffer is full. -/
  | full {s : Process} {t : Pid} {probeName : String} {todo : List Op} {string : List UInt8}
      (ht : s.threads t = some ⟨.possiblyFlush probeName :: todo, string⟩) (hlength : bufMaxSize < string.length) :
      Step s (s.set t (some ⟨.flush :: .log (tio probeName) :: todo, string⟩))
  /-- `write_all` takes the lock. What it is going to write is no longer in the buffer. -/
  | lock {s : Process} {t : Pid} {todo : List Op} {string : List UInt8}
      (ht : s.threads t = some ⟨.flush :: todo, string⟩) (hfree : s.writing = none) (henabled : s.isEnabled = true) :
      Step s { s.set t (some ⟨.flush :: todo, []⟩) with writing := some (t, string) }
  /-- `write_all`: some bytes are written. -/
  | write {s : Process} {t : Pid} {rest : List UInt8} (n : ℕ) (hwriting : s.writing = some (t, rest)) :
      Step s { s with file := s.file ++ rest.take n, writing := some (t, rest.drop n) }
  /-- `write_all` is done. -/
  | unlock {s : Process} {t : Pid} {todo : List Op} {string : List UInt8} (hwriting : s.writing = some (t, []))
      (ht : s.threads t = some ⟨.flush :: todo, string⟩) :
      Step s { s.set t (some ⟨todo, string⟩) with writing := none }
  /-- `write_all` fails. -/
  | fail {s : Process} {t : Pid} {rest : List UInt8} {todo : List Op} {string : List UInt8}
      (hwriting : s.writing = some (t, rest)) (hrest : rest ≠ []) (ht : s.threads t = some ⟨.flush :: todo, string⟩) :
      Step s { s.set t (some ⟨todo, string⟩) with writing := none, isEnabled := false }
  /-- `write_all` does nothing after a failure. -/
  | discard {s : Process} {t : Pid} {todo : List Op} {string : List UInt8}
      (ht : s.threads t = some ⟨.flush :: todo, string⟩) (hfree : s.writing = none) (hdisabled : s.isEnabled = false) :
      Step s (s.set t (some ⟨todo, []⟩))
  /-- A probe does nothing after a failure. -/
  | skip {s : Process} {t : Pid} {op : Op} {todo : List Op} {string : List UInt8}
      (ht : s.threads t = some ⟨op :: todo, string⟩) (hop : op ≠ .main ∧ op ≠ .exit) (hdisabled : s.isEnabled = false) :
      Step s (s.set t (some ⟨todo, string⟩))
  /-- `output` has been constructed. -/
  | main {s : Process} {todo : List Op} {string : List UInt8} (ht : s.threads pid = some ⟨.main :: todo, string⟩) :
      Step s (s.set pid (some ⟨todo, string⟩))
  /-- `output` is going to be destroyed. -/
  | exit {s : Process} {todo : List Op} {string : List UInt8} (ht : s.threads pid = some ⟨.exit :: todo, string⟩)
      (hothers : ∀ t, t ≠ pid → s.threads t = none) :
      Step s (s.set pid (some ⟨todo, string⟩))

/-- A process gets there. -/
def Reaches (body : Body ι) : Process → Prop :=
  Relation.ReflTransGen (Step sites signed pid) (.start sites pid metadata body)

end Steps

/-! ### Text -/

section Text

variable {signed : Bool} {pid : Pid}

theorem text_append (lines lines' : List Line) :
    text signed pid (lines ++ lines') = text signed pid lines ++ text signed pid lines' := by
  rw [text, List.map_append, unlines_append]
  rfl

theorem text_eq_nil {lines : List Line} (h : text signed pid lines = []) : lines = [] := by
  cases lines with
  | nil => rfl
  | cons line lines =>
    rw [text, List.map_cons, unlines_cons] at h
    simp at h

/-- The lines of an id. -/
def ofId (t : Pid) (lines : List Line) : List Line := lines.filter fun x => x.tid = t

theorem ofId_append (t : Pid) (lines lines' : List Line) : ofId t (lines ++ lines') = ofId t lines ++ ofId t lines' :=
  List.filter_append ..

theorem ofId_of_forall {t : Pid} {lines : List Line} (h : ∀ x ∈ lines, x.tid = t) : ofId t lines = lines :=
  List.filter_eq_self.2 fun x hx => decide_eq_true (h x hx)

theorem ofId_of_ne {t t' : Pid} {lines : List Line} (h : ∀ x ∈ lines, x.tid = t) (hne : t' ≠ t) : ofId t' lines = [] := by
  refine List.filter_eq_nil_iff.2 fun x hx he => hne ?_
  rw [← of_decide_eq_true he, h x hx]

/-- Lines of two ids can be put the other way around. -/
theorem ofId_append_comm {t a b : Pid} {lines lines' : List Line} (h : ∀ x ∈ lines, x.tid = a) (h' : ∀ x ∈ lines', x.tid = b)
    (hne : a ≠ b) : ofId t (lines ++ lines') = ofId t (lines' ++ lines) := by
  rw [ofId_append, ofId_append]
  by_cases ht : t = a
  · rw [ofId_of_ne h' (ht ▸ hne), List.append_nil, List.nil_append]
  · rw [ofId_of_ne h ht, List.append_nil, List.nil_append]

end Text

/-! ### What has been flushed -/

section Flows

variable (signed : Bool) (pid : Pid)

/-- What is in the buffer of a thread, if there is one. -/
def Holds (r : Option Running) (pending : List Line) : Prop :=
  match r with
  | none => pending = []
  | some r => r.string = text signed pid pending

/-- **What has been logged gets to the file.** -/
structure Flows (s : Process) (flushed : List Line) (pending : Pid → List Line) (unwritten : List UInt8) : Prop where
  /-- What has been flushed is written, but for the end. -/
  file : s.file ++ unwritten = text signed pid flushed
  /-- What has been logged has been flushed, or is in the buffer. -/
  logged : ∀ t, ofId t flushed ++ pending t = s.logged t
  /-- Lines are of the ids under which they have been logged. -/
  ids : ∀ t, ∀ x ∈ pending t, x.tid = t
  /-- The buffers. -/
  buffers : ∀ t, Holds signed pid (s.threads t) (pending t)
  /-- All is written if nobody writes. -/
  free : s.writing = none → unwritten = []
  /-- One thread writes what is not written yet. -/
  busy : ∀ t rest, s.writing = some (t, rest) → unwritten = rest ∧ ∃ todo, s.threads t = some ⟨.flush :: todo, []⟩

variable {signed pid} {s : Process} {flushed : List Line} {pending : Pid → List Line} {unwritten : List UInt8}

theorem Flows.not_writing (h : Flows signed pid s flushed pending unwritten) {t : Pid}
    (ht : ∀ todo, s.threads t ≠ some ⟨.flush :: todo, []⟩) (rest : List UInt8) : s.writing ≠ some (t, rest) := by
  intro hwriting
  obtain ⟨-, todo, htodo⟩ := h.busy t rest hwriting
  exact ht todo htodo

/-- A thread begins or ends, or does something that leaves its buffer as it is. -/
theorem Flows.set (h : Flows signed pid s flushed pending unwritten) {t : Pid} {r : Option Running}
    (hr : Holds signed pid r (pending t)) (hfree : ∀ rest, s.writing ≠ some (t, rest)) :
    Flows signed pid (s.set t r) flushed pending unwritten where
  file := h.file
  logged := h.logged
  ids := h.ids
  buffers := Function.forall_update_iff s.threads (fun t r => Holds signed pid r (pending t)) |>.2
    ⟨hr, fun t' _ => h.buffers t'⟩
  free := h.free
  busy t' rest hwriting := by
    have hne : t' ≠ t := by
      rintro rfl
      exact hfree rest hwriting
    rw [Process.set_threads_of_ne s hne]
    exact h.busy t' rest hwriting

theorem Flows.string (h : Flows signed pid s flushed pending unwritten) {t : Pid} {r : Running}
    (ht : s.threads t = some r) : r.string = text signed pid (pending t) := by
  have hholds := h.buffers t
  rwa [ht] at hholds

theorem Flows.gone (h : Flows signed pid s flushed pending unwritten) {t : Pid} (ht : s.threads t = none) :
    pending t = [] := by
  have hholds := h.buffers t
  rwa [ht] at hholds

/-- A record is logged. -/
theorem Flows.log (h : Flows signed pid s flushed pending unwritten) {t : Pid} {todo todo' : List Op} {string : List UInt8}
    (ht : s.threads t = some ⟨todo, string⟩) (hfree : ∀ rest, s.writing ≠ some (t, rest)) {line : Line} (hline : line.tid = t) :
    Flows signed pid { s.set t (some ⟨todo', string ++ text signed pid [line]⟩) with
        logged := Function.update s.logged t (s.logged t ++ [line]) }
      flushed (Function.update pending t (pending t ++ [line])) unwritten := by
  refine ⟨h.file, fun t' => ?_, fun t' => ?_, fun t' => ?_, h.free, fun t' rest hwriting => ?_⟩
  · by_cases hne : t' = t
    · subst hne
      simp only [Function.update_self]
      rw [← List.append_assoc, h.logged]
    · simp only [Function.update_of_ne hne]
      exact h.logged t'
  · by_cases hne : t' = t
    · subst hne
      rw [Function.update_self]
      intro x hx
      rcases List.mem_append.1 hx with hx | hx
      · exact h.ids t' x hx
      · rw [List.mem_singleton.1 hx, hline]
    · rw [Function.update_of_ne hne]
      exact h.ids t'
  · by_cases hne : t' = t
    · subst hne
      simp only [Process.set_threads_self, Function.update_self]
      show string ++ text signed pid [line] = text signed pid (pending t' ++ [line])
      rw [text_append, ← h.string ht]
    · simp only [Process.set_threads_of_ne s hne, Function.update_of_ne hne]
      exact h.buffers t'
  · have hne : t' ≠ t := by
      rintro rfl
      exact hfree rest hwriting
    simp only [Process.set_threads_of_ne s hne]
    exact h.busy t' rest hwriting

/-- A buffer is going to be written. -/
theorem Flows.lock (h : Flows signed pid s flushed pending unwritten) {t : Pid} {todo : List Op} {string : List UInt8}
    (ht : s.threads t = some ⟨.flush :: todo, string⟩) (hfree : s.writing = none) :
    Flows signed pid { s.set t (some ⟨.flush :: todo, []⟩) with writing := some (t, string) } (flushed ++ pending t)
      (Function.update pending t []) string := by
  have hunwritten := h.free hfree
  have hstring := h.string ht
  refine ⟨?_, fun t' => ?_, fun t' => ?_, fun t' => ?_, fun hnone => ?_, fun t' rest hwriting => ?_⟩
  · have hfile := h.file
    rw [hunwritten, List.append_nil] at hfile
    rw [text_append, ← hfile, ← hstring]
    rfl
  · by_cases hne : t' = t
    · subst hne
      rw [Function.update_self, List.append_nil, ofId_append, ofId_of_forall (h.ids t')]
      exact h.logged t'
    · rw [Function.update_of_ne hne, ofId_append, ofId_of_ne (h.ids t) hne, List.append_nil]
      exact h.logged t'
  · by_cases hne : t' = t
    · subst hne
      rw [Function.update_self]
      simp
    · rw [Function.update_of_ne hne]
      exact h.ids t'
  · by_cases hne : t' = t
    · subst hne
      simp only [Process.set_threads_self, Function.update_self]
      rfl
    · simp only [Process.set_threads_of_ne s hne, Function.update_of_ne hne]
      exact h.buffers t'
  · cases hnone
  · obtain ⟨rfl, rfl⟩ := Prod.mk.inj (Option.some.inj hwriting)
    exact ⟨rfl, todo, Process.set_threads_self ..⟩

/-- Some bytes are written. -/
theorem Flows.write (h : Flows signed pid s flushed pending unwritten) {t : Pid} {rest : List UInt8} (n : ℕ)
    (hwriting : s.writing = some (t, rest)) :
    Flows signed pid { s with file := s.file ++ rest.take n, writing := some (t, rest.drop n) } flushed pending
      (rest.drop n) := by
  obtain ⟨rfl, htodo⟩ := h.busy t rest hwriting
  refine ⟨?_, h.logged, h.ids, h.buffers, fun hnone => ?_, fun t' rest' hwriting' => ?_⟩
  · rw [List.append_assoc, List.take_append_drop]
    exact h.file
  · cases hnone
  · obtain ⟨rfl, rfl⟩ := Prod.mk.inj (Option.some.inj hwriting')
    exact ⟨rfl, htodo⟩

/-- All is written. -/
theorem Flows.unlock (h : Flows signed pid s flushed pending unwritten) {t : Pid} {todo todo' : List Op}
    {string : List UInt8} (hwriting : s.writing = some (t, [])) (ht : s.threads t = some ⟨todo, string⟩) :
    Flows signed pid { s.set t (some ⟨todo', string⟩) with writing := none } flushed pending [] := by
  obtain ⟨rfl, -⟩ := h.busy t [] hwriting
  have hstring : string = text signed pid (pending t) := h.string ht
  refine ⟨h.file, h.logged, h.ids, ?_, fun _ => rfl, fun t' rest' hwriting' => ?_⟩
  · exact Function.forall_update_iff s.threads (fun t r => Holds signed pid r (pending t)) |>.2
      ⟨hstring, fun t' _ => h.buffers t'⟩
  · cases hwriting'

end Flows

/-! ### Programs -/

/-- The calls of lines. -/
def calls (lines : List Line) : List Call := lines.map Line.call

section Programs

variable {ι : Type} [DecidableEq ι] (sites : ι → Site) (pid : Pid) (metadata : Metadata) (body : Body ι)

/-- What threads log that have one id, one after the other. -/
inductive Lives : List Call → Prop where
  /-- There has been none. -/
  | nil : Lives []
  /-- One more. -/
  | snoc {before now : List Call} (body : Body ι) (h : Lives before) (hnow : Logs (life sites body) now []) :
      Lives (before ++ now)

/-- What has been logged under an id. -/
def Lived (calls : List Call) (r : Option Running) : Prop :=
  match r with
  | none => Lives sites calls
  | some r => ∃ before now, ∃ body : Body ι, calls = before ++ now ∧ Lives sites before ∧ Logs (life sites body) now r.todo

/-- **What has been logged is what the programs log.** -/
structure Programs (s : Process) : Prop where
  /-- The main thread. -/
  main : ∃ r, s.threads pid = some r ∧ Logs (mainOps sites metadata body) (calls (s.logged pid)) r.todo
  /-- The other threads. -/
  others : ∀ t, t ≠ pid → Lived sites (calls (s.logged t)) (s.threads t)
  /-- Buffers are going to be flushed. -/
  flushes : ∀ t r, s.threads t = some r → Flushes (!r.string.isEmpty) r.todo

variable {sites pid metadata body} {s s' : Process} {t : Pid}

/-- A thread has done something. -/
theorem Programs.step (h : Programs sites pid metadata body s) {r : Running} (ht : s.threads t = some r) (r' : Running)
    (calls' : List Call) (hlogs : ∀ ops calls, Logs ops calls r.todo → Logs ops (calls ++ calls') r'.todo)
    (hflushes : Flushes (!r'.string.isEmpty) r'.todo) (ht' : s'.threads = (s.set t (some r')).threads)
    (hself : calls (s'.logged t) = calls (s.logged t) ++ calls') (hother : ∀ t', t' ≠ t → s'.logged t' = s.logged t') :
    Programs sites pid metadata body s' := by
  have hthread : s'.threads t = some r' := by rw [ht', Process.set_threads_self]
  have hthreads : ∀ t', t' ≠ t → s'.threads t' = s.threads t' := by
    intro t' hne
    rw [ht', Process.set_threads_of_ne s hne]
  refine ⟨?_, fun t' hne => ?_, fun t' r₁ hr₁ => ?_⟩
  · obtain ⟨m, hm, hmain⟩ := h.main
    by_cases hne : pid = t
    · subst hne
      obtain rfl := Option.some.inj (hm.symm.trans ht)
      exact ⟨r', hthread, by rw [hself]; exact hlogs _ _ hmain⟩
    · exact ⟨m, by rw [hthreads _ hne, hm], by rw [hother _ hne]; exact hmain⟩
  · by_cases he : t' = t
    · subst he
      have hlived := h.others t' hne
      rw [ht] at hlived
      obtain ⟨before, now, body, he, hbefore, hnow⟩ := hlived
      rw [hself, he, hthread]
      exact ⟨before, now ++ calls', body, List.append_assoc _ _ _, hbefore, hlogs _ _ hnow⟩
    · rw [hother _ he, hthreads _ he]
      exact h.others t' hne
  · by_cases he : t' = t
    · subst he
      obtain rfl := Option.some.inj (hr₁.symm.trans hthread)
      exact hflushes
    · rw [hthreads _ he] at hr₁
      exact h.flushes t' r₁ hr₁

theorem Programs.threadStart (h : Programs sites pid metadata body s) (ht : s.threads t = none) (body' : Body ι) :
    Programs sites pid metadata body (s.set t (some ⟨life sites body', []⟩)) := by
  obtain ⟨m, hm, hmain⟩ := h.main
  have hpid : pid ≠ t := by
    rintro rfl
    rw [ht] at hm
    cases hm
  refine ⟨⟨m, by rw [Process.set_threads_of_ne s hpid, hm], hmain⟩, fun t' hne => ?_, fun t' r hr => ?_⟩
  · by_cases he : t' = t
    · subst he
      have hlived := h.others t' hne
      rw [ht] at hlived
      rw [Process.set_threads_self]
      exact ⟨_, [], body', (List.append_nil _).symm, hlived, .refl⟩
    · rw [Process.set_threads_of_ne s he]
      exact h.others t' hne
  · by_cases he : t' = t
    · subst he
      rw [Process.set_threads_self] at hr
      obtain rfl := Option.some.inj hr
      exact flushes_life sites body'
    · rw [Process.set_threads_of_ne s he] at hr
      exact h.flushes t' r hr

theorem Programs.threadEnd (h : Programs sites pid metadata body s) (hne : t ≠ pid) {string : List UInt8}
    (ht : s.threads t = some ⟨[], string⟩) : Programs sites pid metadata body (s.set t none) := by
  obtain ⟨m, hm, hmain⟩ := h.main
  refine ⟨⟨m, by rw [Process.set_threads_of_ne s hne.symm, hm], hmain⟩, fun t' hne' => ?_, fun t' r hr => ?_⟩
  · by_cases he : t' = t
    · subst he
      have hlived := h.others t' hne'
      rw [ht] at hlived
      obtain ⟨before, now, body', hcalls, hbefore, hnow⟩ := hlived
      rw [Process.set_threads_self]
      show Lives sites (calls (s.logged t'))
      rw [hcalls]
      exact hbefore.snoc body' hnow
    · rw [Process.set_threads_of_ne s he]
      exact h.others t' hne'
  · by_cases he : t' = t
    · subst he
      rw [Process.set_threads_self] at hr
      cases hr
    · rw [Process.set_threads_of_ne s he] at hr
      exact h.flushes t' r hr

/-! ### The end of the process -/

theorem Lives.isInner {before : List Call} (h : Lives sites before) : ∀ call ∈ before, call.isInner = true := by
  induction h with
  | nil => simp
  | snoc body h hnow ih =>
    simp only [List.forall_mem_append]
    exact ⟨ih, (isLife_of_logs sites hnow).1⟩

theorem Lived.isInner {calls : List Call} {r : Option Running} (h : Lived sites calls r) :
    ∀ call ∈ calls, call.isInner = true := by
  cases r with
  | none => exact Lives.isInner h
  | some r =>
    obtain ⟨before, now, body, rfl, hbefore, hnow⟩ := h
    simp only [List.forall_mem_append]
    exact ⟨hbefore.isInner, (isLife_of_logs sites hnow).1⟩

/-- Only the main thread logs the end of the process, once and as the last thing. -/
theorem MainPhase.of_isTEnd {calls : List Call} {todo : List Op} (h : MainPhase sites metadata body calls todo)
    {call : Call} (hcall : call ∈ calls) (hend : call.isTEnd = true) :
    (todo = [.flush] ∨ todo = []) ∧ ∃ init, calls = init ++ [tEnd] ∧ ∀ call ∈ init, call.isTEnd = false := by
  have hheader : ∀ call ∈ header metadata, call.isTEnd = false := by
    simp [header, Call.isTEnd]
  cases h with
  | @constructing calls todo h =>
    rcases h.mem.1 call hcall with hmem | ⟨probeName, rfl⟩
    · simp only [constructOutput, List.mem_cons, Op.log.injEq, List.not_mem_nil, or_false, reduceCtorEq] at hmem
      rcases hmem with rfl | rfl | rfl
      · cases hend
      · cases hend
      · cases hend
    · cases hend
  | @running calls todo h =>
    rcases List.mem_append.1 hcall with hmem | hmem
    · rw [hheader call hmem] at hend
      cases hend
    · rw [Call.not_isTEnd_of_isInner ((isLife_of_logs sites h).1 call hmem)] at hend
      cases hend
  | @exiting calls calls' todo hlife h =>
    have hinit : ∀ call ∈ header metadata ++ calls, call.isTEnd = false := by
      simp only [List.forall_mem_append]
      exact ⟨hheader, fun call hcall => Call.not_isTEnd_of_isInner ((isLife_of_logs sites hlife).1 call hcall)⟩
    rcases destructOutput_cases h with ⟨rfl, rfl⟩ | ⟨rfl, htodo⟩
    · rw [List.append_nil] at hcall
      rw [hinit call hcall] at hend
      cases hend
    · exact ⟨htodo, header metadata ++ calls, (List.append_assoc _ _ _).symm, hinit⟩

/-- When the main function begins, the header has been logged. -/
theorem MainPhase.of_main {calls : List Call} {ops todo : List Op} (h : MainPhase sites metadata body calls ops)
    (hops : ops = .main :: todo) : calls = Probes.header metadata := by
  cases h with
  | @constructing _ todo₁ hlogs =>
    cases todo₁ with
    | nil => exact calls_constructOutput hlogs
    | cons op todo₁ =>
      obtain ⟨rfl, -⟩ := List.cons.inj hops
      rcases hlogs.mem.2 _ List.mem_cons_self with hmem | hmem | ⟨probeName, hmem⟩
      · simp [constructOutput] at hmem
      · cases hmem
      · cases hmem
  | @running _ todo₁ hlogs =>
    cases todo₁ with
    | nil => cases hops
    | cons op todo₁ =>
      obtain ⟨rfl, -⟩ := List.cons.inj hops
      cases (isLife_of_logs sites hlogs).2 _ List.mem_cons_self
  | exiting hlogs hdestruct =>
    rcases destructOutput_cases hdestruct with ⟨-, rfl⟩ | ⟨-, rfl | rfl⟩
    · cases hops
    · cases hops
    · cases hops

/-- The end of the process has been logged. -/
theorem Programs.of_isTEnd (h : Programs sites pid metadata body s) {x : Line} (hx : x ∈ s.logged t)
    (hend : x.call.isTEnd = true) :
    t = pid ∧ (∃ r, s.threads pid = some r ∧ (r.todo = [.flush] ∨ r.todo = [])) ∧
      ∀ y ∈ (s.logged pid).dropLast, y.call.isTEnd = false := by
  have hcall : x.call ∈ calls (s.logged t) := List.mem_map_of_mem hx
  by_cases hne : t = pid
  · subst hne
    obtain ⟨r, hr, hmain⟩ := h.main
    obtain ⟨htodo, init, hinit, hnot⟩ := (hmain.mainPhase sites).of_isTEnd hcall hend
    refine ⟨rfl, ⟨r, hr, htodo⟩, fun y hy => hnot y.call ?_⟩
    have hdrop : calls (s.logged t).dropLast = init := by
      rw [calls, List.map_dropLast]
      exact (congrArg List.dropLast hinit).trans List.dropLast_concat
    rw [← hdrop]
    exact List.mem_map_of_mem hy
  · rw [Call.not_isTEnd_of_isInner ((h.others t hne).isInner x.call hcall)] at hend
    cases hend

/-! ### What threads have to do with each other -/

variable (pid metadata) in
/-- **The header comes first**, and nothing after the end of the process. -/
structure Joined (s : Process) (flushed : List Line) : Prop where
  /-- Before the main function there are no other threads. -/
  before : ∀ r, s.threads pid = some r → .main ∈ r.todo → ∀ t, t ≠ pid → s.threads t = none ∧ s.logged t = []
  /-- Afterwards the header has been flushed. -/
  header : ∀ r, s.threads pid = some r → .main ∉ r.todo → header metadata <+: calls flushed
  /-- After the main function there are no other threads. -/
  after : ∀ r, s.threads pid = some r → .exit ∉ r.todo → ∀ t, t ≠ pid → s.threads t = none
  /-- Nothing comes after the end of the process. -/
  ends : ∀ x ∈ flushed.dropLast, x.call.isTEnd = false

/-- A thread has done something, other than to begin or end the main function. -/
theorem Joined.step {flushed : List Line} (h : Joined pid metadata s flushed) {r : Running} (ht : s.threads t = some r)
    (r' : Running) (hmain : Op.main ∈ r'.todo ↔ Op.main ∈ r.todo) (hexit : Op.exit ∈ r'.todo ↔ Op.exit ∈ r.todo)
    (ht' : s'.threads = (s.set t (some r')).threads) (hother : ∀ t', t' ≠ t → s'.logged t' = s.logged t')
    {flushed' : List Line} (hflushed : flushed <+: flushed') (hends : ∀ x ∈ flushed'.dropLast, x.call.isTEnd = false) :
    Joined pid metadata s' flushed' := by
  have hothers : ∀ t', t' ≠ t → s'.threads t' = s.threads t' := by
    intro t' hne
    rw [ht', Process.set_threads_of_ne s hne]
  -- what the main thread is going to do, before and after
  have hthen : ∀ m', s'.threads pid = some m' → ∃ m, s.threads pid = some m ∧ (Op.main ∈ m'.todo ↔ Op.main ∈ m.todo) ∧
      (Op.exit ∈ m'.todo ↔ Op.exit ∈ m.todo) := by
    intro m' hm'
    by_cases he : pid = t
    · subst he
      rw [ht', Process.set_threads_self] at hm'
      obtain rfl := Option.some.inj hm'
      exact ⟨r, ht, hmain, hexit⟩
    · exact ⟨m', by rw [← hothers pid he, hm'], .rfl, .rfl⟩
  refine ⟨fun m' hm' hmem t' hne => ?_, fun m' hm' hmem => ?_, fun m' hm' hmem t' hne => ?_, hends⟩
  · obtain ⟨m, hm, hm₁, -⟩ := hthen m' hm'
    obtain ⟨hnone, hlogged⟩ := h.before m hm (hm₁.1 hmem) t' hne
    have hne' : t' ≠ t := by
      rintro rfl
      rw [hnone] at ht
      cases ht
    exact ⟨by rw [hothers t' hne', hnone], by rw [hother t' hne', hlogged]⟩
  · obtain ⟨m, hm, hm₁, -⟩ := hthen m' hm'
    exact (h.header m hm fun hmem' => hmem (hm₁.2 hmem')).trans (hflushed.map Line.call)
  · obtain ⟨m, hm, -, hm₂⟩ := hthen m' hm'
    have hnone := h.after m hm (fun hmem' => hmem (hm₂.2 hmem')) t' hne
    have hne' : t' ≠ t := by
      rintro rfl
      rw [hnone] at ht
      cases ht
    rw [hothers t' hne', hnone]

theorem Joined.threadStart {flushed : List Line} (h : Joined pid metadata s flushed) (hmain : s.InMain pid)
    (ht : s.threads t = none) (r : Running) : Joined pid metadata (s.set t (some r)) flushed := by
  obtain ⟨m, hm, hnot, hmem⟩ := hmain
  have hpid : pid ≠ t := by
    rintro rfl
    rw [ht] at hm
    cases hm
  have hsame : ∀ m', (s.set t (some r)).threads pid = some m' → m' = m := by
    intro m' hm'
    rw [Process.set_threads_of_ne s hpid] at hm'
    exact Option.some.inj (hm'.symm.trans hm)
  refine ⟨fun m' hm' hmem' => ?_, fun m' hm' hnot' => h.header m hm hnot, fun m' hm' hnot' => ?_, h.ends⟩
  · exact absurd (hsame m' hm' ▸ hmem') hnot
  · exact absurd hmem (hsame m' hm' ▸ hnot')

theorem Joined.threadEnd {flushed : List Line} (h : Joined pid metadata s flushed) (hne : t ≠ pid) :
    Joined pid metadata (s.set t none) flushed := by
  have hsame : (s.set t none).threads pid = s.threads pid := Process.set_threads_of_ne s hne.symm none
  have hnone : ∀ t', s.threads t' = none → (s.set t none).threads t' = none := by
    intro t' ht'
    by_cases he : t' = t
    · rw [he, Process.set_threads_self]
    · rw [Process.set_threads_of_ne s he, ht']
  refine ⟨fun m hm hmem t' hne' => ?_, fun m hm => h.header m (hsame ▸ hm), fun m hm hmem t' hne' => ?_, h.ends⟩
  · obtain ⟨ht', hlogged⟩ := h.before m (hsame ▸ hm) hmem t' hne'
    exact ⟨hnone t' ht', hlogged⟩
  · exact hnone t' (h.after m (hsame ▸ hm) hmem t' hne')

end Programs

/-! ### All together -/

section Invariant

variable {ι : Type} [DecidableEq ι] (sites : ι → Site) (signed : Bool) (pid : Pid) (metadata : Metadata) (body : Body ι)

/-- All is well. -/
structure Good (s : Process) (flushed : List Line) (pending : Pid → List Line) (unwritten : List UInt8) : Prop where
  /-- What has been logged gets to the file. -/
  flows : Flows signed pid s flushed pending unwritten
  /-- It is what the programs log. -/
  programs : Programs sites pid metadata body s
  /-- There is a header and an end. -/
  joined : Joined pid metadata s flushed

/-- Writing has failed. -/
structure Failed (s : Process) (flushed : List Line) (unwritten : List UInt8) : Prop where
  /-- The file ends too early. -/
  file : s.file ++ unwritten = text signed pid flushed
  /-- Something has not been written. -/
  unwritten : unwritten ≠ []
  /-- What has been flushed had been logged. -/
  logged : ∀ t, ofId t flushed <+: s.logged t
  /-- Nothing comes after the end of the process. -/
  ends : ∀ x ∈ flushed.dropLast, x.call.isTEnd = false
  /-- Nobody writes. -/
  free : s.writing = none

/-- The states that a process gets to. -/
def Inv (s : Process) : Prop :=
  (s.isEnabled = true ∧ ∃ flushed pending unwritten, Good sites signed pid metadata body s flushed pending unwritten) ∨
    (s.isEnabled = false ∧ ∃ flushed unwritten, Failed signed pid s flushed unwritten)

variable {sites signed pid metadata body} {s s' : Process} {t : Pid} {flushed : List Line} {pending : Pid → List Line}
  {unwritten : List UInt8}

/-- Nothing is left in a buffer that has nothing to flush. -/
theorem Good.pending_eq_nil (h : Good sites signed pid metadata body s flushed pending unwritten) {r : Running}
    (ht : s.threads t = some r) (hclean : r.string.isEmpty = true) : pending t = [] := by
  refine @text_eq_nil signed pid _ ?_
  rw [← h.flows.string ht, List.isEmpty_iff.1 hclean]

/-- **When the end of the process has been flushed, all has been.** -/
theorem Good.complete (h : Good sites signed pid metadata body s flushed pending unwritten) {x : Line} (hx : x ∈ flushed)
    (hend : x.call.isTEnd = true) :
    (∀ t, pending t = []) ∧ (∀ t, t ≠ pid → s.threads t = none) ∧
      ∃ r, s.threads pid = some r ∧ (r.todo = [.flush] ∨ r.todo = []) := by
  have hmem : x ∈ ofId x.tid flushed := List.mem_filter.2 ⟨hx, decide_eq_true rfl⟩
  have hlogged : x ∈ s.logged x.tid := by
    rw [← h.flows.logged x.tid]
    exact List.mem_append_left _ hmem
  obtain ⟨hid, ⟨r, hr, htodo⟩, hlast⟩ := h.programs.of_isTEnd hlogged hend
  have hothers : ∀ t, t ≠ pid → s.threads t = none := by
    apply h.joined.after r hr
    rcases htodo with htodo | htodo
    · rw [htodo]
      decide
    · rw [htodo]
      exact List.not_mem_nil
  refine ⟨fun t => ?_, hothers, r, hr, htodo⟩
  by_cases hne : t = pid
  · subst hne
    -- the end of the process is the last thing that has been logged
    by_contra hpending
    rw [← h.flows.logged t, List.dropLast_append_of_ne_nil hpending] at hlast
    rw [hid] at hmem
    rw [hlast x (List.mem_append_left _ hmem)] at hend
    cases hend
  · exact h.flows.gone (hothers t hne)

/-- Nothing comes after the end of the process when a buffer is flushed. -/
theorem Good.ends_append (h : Good sites signed pid metadata body s flushed pending unwritten) (t : Pid) :
    ∀ x ∈ (flushed ++ pending t).dropLast, x.call.isTEnd = false := by
  intro x hx
  by_cases hnil : pending t = []
  · rw [hnil, List.append_nil] at hx
    exact h.joined.ends x hx
  rw [List.dropLast_append_of_ne_nil hnil] at hx
  by_contra hend
  rw [Bool.not_eq_false] at hend
  rcases List.mem_append.1 hx with hx | hx
  · exact hnil ((h.complete hx hend).1 t)
  · have hlogged : x ∈ s.logged t := by
      rw [← h.flows.logged t]
      exact List.mem_append_right _ (List.dropLast_subset _ hx)
    obtain ⟨rfl, -, hlast⟩ := h.programs.of_isTEnd hlogged hend
    rw [← h.flows.logged t, List.dropLast_append_of_ne_nil hnil] at hlast
    rw [hlast x (List.mem_append_right _ hx)] at hend
    cases hend

/-- When the main function begins, the header has been flushed, and nothing else. -/
theorem Good.header_of_main (h : Good sites signed pid metadata body s flushed pending unwritten) {todo : List Op}
    {string : List UInt8} (ht : s.threads pid = some ⟨.main :: todo, string⟩) : calls flushed = header metadata := by
  have hflushes := h.programs.flushes pid _ ht
  have hpending := h.pending_eq_nil ht (by simpa using hflushes.1)
  have hbefore := h.joined.before _ ht List.mem_cons_self
  have hids : ∀ x ∈ flushed, x.tid = pid := by
    intro x hx
    by_contra hne
    have hmem : x ∈ ofId x.tid flushed := List.mem_filter.2 ⟨hx, decide_eq_true rfl⟩
    have hlogged := h.flows.logged x.tid
    rw [(hbefore x.tid hne).2] at hlogged
    rw [(List.append_eq_nil_iff.1 hlogged).1] at hmem
    cases hmem
  have hlogged := h.flows.logged pid
  rw [hpending, List.append_nil, ofId_of_forall hids] at hlogged
  obtain ⟨r, hr, hmain⟩ := h.programs.main
  obtain rfl := Option.some.inj (ht.symm.trans hr)
  rw [hlogged]
  exact (hmain.mainPhase sites).of_main rfl

/-- A thread has done something that leaves its buffer as it is, other than to begin or end the main function. -/
theorem Good.set (h : Good sites signed pid metadata body s flushed pending unwritten) {op : Op} {todo inserted : List Op}
    {string : List UInt8} (ht : s.threads t = some ⟨op :: todo, string⟩) (hop : Does op [] inserted)
    (hflush : op ≠ .flush) (hmark : op ≠ .main ∧ op ≠ .exit) (hflushes : Flushes (!string.isEmpty) (inserted ++ todo)) :
    Good sites signed pid metadata body (s.set t (some ⟨inserted ++ todo, string⟩)) flushed pending unwritten where
  flows := by
    have hstring : string = text signed pid (pending t) := h.flows.string ht
    refine h.flows.set hstring (h.flows.not_writing fun todo' htodo' => ?_)
    rw [ht] at htodo'
    exact hflush (List.cons.inj (Running.mk.inj (Option.some.inj htodo')).1).1
  programs := h.programs.step ht ⟨inserted ++ todo, string⟩ [] (fun ops calls hlogs => hlogs.step hop) hflushes rfl
    (List.append_nil _).symm fun t' hne => rfl
  joined := by
    refine h.joined.step ht ⟨inserted ++ todo, string⟩ ?_ ?_ rfl (fun t' hne => rfl) (List.prefix_refl _) h.joined.ends
    · have hinserted : Op.main ∉ inserted := by
        cases hop with
        | full probeName => simp
        | _ => simp
      simp [hinserted, hmark.1.symm]
    · have hinserted : Op.exit ∉ inserted := by
        cases hop with
        | full probeName => simp
        | _ => simp
      simp [hinserted, hmark.2.symm]

theorem Good.log (h : Good sites signed pid metadata body s flushed pending unwritten) {call : Call} {todo : List Op}
    {string : List UInt8} (ht : s.threads t = some ⟨.log call :: todo, string⟩) (usage : Usage) :
    Good sites signed pid metadata body { s.set t (some ⟨todo, string ++ text signed pid [⟨t, call, usage⟩]⟩) with
        logged := Function.update s.logged t (s.logged t ++ [⟨t, call, usage⟩]) }
      flushed (Function.update pending t (pending t ++ [⟨t, call, usage⟩])) unwritten where
  flows := by
    refine h.flows.log ht (h.flows.not_writing fun todo' htodo' => ?_) rfl
    rw [ht] at htodo'
    cases (List.cons.inj (Running.mk.inj (Option.some.inj htodo')).1).1
  programs := by
    have hstring : (string ++ text signed pid [⟨t, call, usage⟩]).isEmpty = false := by
      rw [List.isEmpty_eq_false_iff, ne_eq, List.append_eq_nil_iff, not_and]
      intro _ hnil
      cases text_eq_nil hnil
    refine h.programs.step ht ⟨todo, string ++ text signed pid [⟨t, call, usage⟩]⟩ [call]
      (fun ops calls hlogs => hlogs.step (.log call)) ?_ rfl ?_ fun t' hne => ?_
    · show Flushes (!(string ++ text signed pid [⟨t, call, usage⟩]).isEmpty) todo
      rw [hstring]
      exact h.programs.flushes t _ ht
    · show calls (Function.update s.logged t (s.logged t ++ [⟨t, call, usage⟩]) t) = _
      rw [Function.update_self]
      exact List.map_append
    · exact Function.update_of_ne hne ..
  joined := by
    refine h.joined.step ht ⟨todo, string ++ text signed pid [⟨t, call, usage⟩]⟩ ?_ ?_ ?_ (fun t' hne => ?_)
      (List.prefix_refl _) h.joined.ends
    · simp
    · simp
    · rfl
    · exact Function.update_of_ne hne ..

theorem Good.lock (h : Good sites signed pid metadata body s flushed pending unwritten) {todo : List Op}
    {string : List UInt8} (ht : s.threads t = some ⟨.flush :: todo, string⟩) (hfree : s.writing = none) :
    Good sites signed pid metadata body { s.set t (some ⟨.flush :: todo, []⟩) with writing := some (t, string) }
      (flushed ++ pending t) (Function.update pending t []) string where
  flows := h.flows.lock ht hfree
  programs := by
    have hflushes := h.programs.flushes t _ ht
    exact h.programs.step ht ⟨.flush :: todo, []⟩ [] (fun ops calls hlogs => by rwa [List.append_nil]) hflushes rfl
      (List.append_nil _).symm fun t' hne => rfl
  joined := by
    refine h.joined.step ht ⟨.flush :: todo, []⟩ .rfl .rfl ?_ (fun t' hne => ?_) (List.prefix_append _ _) (h.ends_append t)
    · rfl
    · rfl

theorem Good.unlock (h : Good sites signed pid metadata body s flushed pending unwritten) {todo : List Op}
    {string : List UInt8} (hwriting : s.writing = some (t, [])) (ht : s.threads t = some ⟨.flush :: todo, string⟩) :
    Good sites signed pid metadata body { s.set t (some ⟨todo, string⟩) with writing := none } flushed pending [] where
  flows := h.flows.unlock hwriting ht
  programs := by
    refine h.programs.step ht ⟨todo, string⟩ [] (fun ops calls hlogs => hlogs.step .flush) ?_ rfl
      (List.append_nil _).symm fun t' hne => rfl
    obtain ⟨-, todo', ht'⟩ := h.flows.busy t [] hwriting
    have hstring : string = [] := (Running.mk.inj (Option.some.inj (ht.symm.trans ht'))).2
    rw [hstring]
    have hflushes := h.programs.flushes t _ ht
    exact hflushes
  joined := by
    refine h.joined.step ht ⟨todo, string⟩ ?_ ?_ ?_ (fun t' hne => ?_) (List.prefix_refl _) h.joined.ends
    · simp
    · simp
    · rfl
    · rfl

theorem Good.main (h : Good sites signed pid metadata body s flushed pending unwritten) {todo : List Op}
    {string : List UInt8} (ht : s.threads pid = some ⟨.main :: todo, string⟩) :
    Good sites signed pid metadata body (s.set pid (some ⟨todo, string⟩)) flushed pending unwritten := by
  have hflushes := h.programs.flushes pid _ ht
  have hbefore := h.joined.before _ ht List.mem_cons_self
  refine ⟨?_, ?_, ?_, ?_, ?_, h.joined.ends⟩
  · have hstring : string = text signed pid (pending pid) := h.flows.string ht
    refine h.flows.set hstring (h.flows.not_writing fun todo' htodo' => ?_)
    rw [ht] at htodo'
    cases (List.cons.inj (Running.mk.inj (Option.some.inj htodo')).1).1
  · refine h.programs.step ht ⟨todo, string⟩ [] (fun ops calls hlogs => hlogs.step .main) ?_ rfl (List.append_nil _).symm
      fun t' hne => rfl
    show Flushes (!string.isEmpty) todo
    rw [hflushes.1]
    exact hflushes.2
  · intro r hr hmem t' hne
    rw [Process.set_threads_of_ne s hne]
    exact hbefore t' hne
  · intro r hr hmem
    rw [h.header_of_main ht]
  · intro r hr hmem t' hne
    rw [Process.set_threads_of_ne s hne]
    exact (hbefore t' hne).1

theorem Good.exit (h : Good sites signed pid metadata body s flushed pending unwritten) {todo : List Op}
    {string : List UInt8} (ht : s.threads pid = some ⟨.exit :: todo, string⟩) (hothers : ∀ t, t ≠ pid → s.threads t = none) :
    Good sites signed pid metadata body (s.set pid (some ⟨todo, string⟩)) flushed pending unwritten := by
  have hflushes := h.programs.flushes pid _ ht
  have hsame : ∀ r, (s.set pid (some ⟨todo, string⟩)).threads pid = some r → r.todo = todo := by
    intro r hr
    rw [Process.set_threads_self] at hr
    rw [← Option.some.inj hr]
  refine ⟨?_, ?_, ?_, ?_, ?_, h.joined.ends⟩
  · have hstring : string = text signed pid (pending pid) := h.flows.string ht
    refine h.flows.set hstring (h.flows.not_writing fun todo' htodo' => ?_)
    rw [ht] at htodo'
    cases (List.cons.inj (Running.mk.inj (Option.some.inj htodo')).1).1
  · refine h.programs.step ht ⟨todo, string⟩ [] (fun ops calls hlogs => hlogs.step .exit) ?_ rfl (List.append_nil _).symm
      fun t' hne => rfl
    show Flushes (!string.isEmpty) todo
    rw [hflushes.1]
    exact hflushes.2
  · intro r hr hmem t' hne
    rw [Process.set_threads_of_ne s hne]
    exact h.joined.before _ ht (List.mem_cons_of_mem _ (hsame r hr ▸ hmem)) t' hne
  · intro r hr hmem
    refine h.joined.header _ ht fun hmem' => hmem ?_
    rw [hsame r hr]
    exact (List.mem_cons.1 hmem').resolve_left (by simp)
  · intro r hr hmem t' hne
    rw [Process.set_threads_of_ne s hne]
    exact hothers t' hne

/-- Writing fails. -/
theorem Good.fail (h : Good sites signed pid metadata body s flushed pending unwritten) {rest : List UInt8}
    (hwriting : s.writing = some (t, rest)) (hrest : rest ≠ []) (r : Running) :
    Failed signed pid { s.set t (some r) with writing := none, isEnabled := false } flushed rest := by
  obtain ⟨rfl, -⟩ := h.flows.busy t rest hwriting
  refine ⟨h.flows.file, hrest, fun t' => ?_, h.joined.ends, rfl⟩
  show ofId t' flushed <+: s.logged t'
  rw [← h.flows.logged t']
  exact List.prefix_append _ _

/-! ### Runs -/

theorem Good.inv_step (h : Good sites signed pid metadata body s flushed pending unwritten) (henabled : s.isEnabled = true)
    (hstep : Step sites signed pid s s') : Inv sites signed pid metadata body s' := by
  cases hstep with
  | @threadStart t body' hmain ht =>
    refine .inl ⟨henabled, flushed, pending, unwritten, ?_, h.programs.threadStart ht body', h.joined.threadStart hmain ht _⟩
    refine h.flows.set ?_ (h.flows.not_writing fun todo htodo => ?_)
    · show [] = text signed pid (pending t)
      rw [h.flows.gone ht]
      rfl
    · rw [ht] at htodo
      cases htodo
  | @threadEnd t string hne ht =>
    refine .inl ⟨henabled, flushed, pending, unwritten, ?_, h.programs.threadEnd hne ht, h.joined.threadEnd hne⟩
    refine h.flows.set ?_ (h.flows.not_writing fun todo htodo => ?_)
    · have hflushes : (!string.isEmpty) = false := h.programs.flushes t _ ht
      exact h.pending_eq_nil ht (by simpa using hflushes)
    · rw [ht] at htodo
      cases htodo
  | log usage ht => exact .inl ⟨henabled, _, _, _, h.log ht usage⟩
  | stay ht hlength =>
    have hflushes := h.programs.flushes _ _ ht
    exact .inl ⟨henabled, _, _, _, h.set ht (.stay _) (by simp) (by simp) hflushes⟩
  | @full t probeName todo string ht hlength =>
    have hflushes := h.programs.flushes _ _ ht
    have hdirty : string.isEmpty = false := by
      rw [List.isEmpty_eq_false_iff]
      rintro rfl
      cases hlength
    have hdirtyFlushes : Flushes true todo := by
      rw [hdirty] at hflushes
      exact hflushes
    exact .inl ⟨henabled, _, _, _, h.set ht (.full _) (by simp) (by simp) hdirtyFlushes⟩
  | lock ht hfree _ => exact .inl ⟨henabled, _, _, _, h.lock ht hfree⟩
  | write n hwriting =>
    exact .inl ⟨henabled, _, _, _, h.flows.write n hwriting, ⟨h.programs.main, h.programs.others, h.programs.flushes⟩,
      ⟨h.joined.before, h.joined.header, h.joined.after, h.joined.ends⟩⟩
  | unlock hwriting ht => exact .inl ⟨henabled, _, _, _, h.unlock hwriting ht⟩
  | fail hwriting hrest ht => exact .inr ⟨rfl, _, _, h.fail hwriting hrest _⟩
  | discard ht hfree hdisabled => simp [henabled] at hdisabled
  | skip ht hop hdisabled => simp [henabled] at hdisabled
  | main ht => exact .inl ⟨henabled, _, _, _, h.main ht⟩
  | exit ht hothers => exact .inl ⟨henabled, _, _, _, h.exit ht hothers⟩

/-- Nothing is written after a failure. -/
theorem Failed.of_eq (h : Failed signed pid s flushed unwritten) (hfile : s'.file = s.file)
    (hlogged : ∀ t, s.logged t <+: s'.logged t) (hfree : s'.writing = s.writing) :
    Failed signed pid s' flushed unwritten :=
  ⟨by rw [hfile, h.file], h.unwritten, fun t => (h.logged t).trans (hlogged t), h.ends, by rw [hfree, h.free]⟩

theorem Failed.inv_step (h : Failed signed pid s flushed unwritten) (hdisabled : s.isEnabled = false)
    (hstep : Step sites signed pid s s') : Inv sites signed pid metadata body s' := by
  have hrefl : ∀ t, s.logged t <+: s.logged t := fun t => List.prefix_refl _
  cases hstep with
  | threadStart body' hmain ht => exact .inr ⟨hdisabled, _, _, h.of_eq rfl hrefl rfl⟩
  | threadEnd hne ht => exact .inr ⟨hdisabled, _, _, h.of_eq rfl hrefl rfl⟩
  | @log t call todo string usage ht =>
    refine .inr ⟨hdisabled, _, _, h.of_eq rfl (fun t' => ?_) rfl⟩
    by_cases hne : t' = t
    · subst hne
      simp
    · simp [Function.update_of_ne hne]
  | stay ht hlength => exact .inr ⟨hdisabled, _, _, h.of_eq rfl hrefl rfl⟩
  | full ht hlength => exact .inr ⟨hdisabled, _, _, h.of_eq rfl hrefl rfl⟩
  | lock ht hfree henabled => simp [hdisabled] at henabled
  | write n hwriting => simp [h.free] at hwriting
  | unlock hwriting ht => simp [h.free] at hwriting
  | fail hwriting hrest ht => simp [h.free] at hwriting
  | discard ht hfree _ => exact .inr ⟨hdisabled, _, _, h.of_eq rfl hrefl rfl⟩
  | skip ht hop _ => exact .inr ⟨hdisabled, _, _, h.of_eq rfl hrefl rfl⟩
  | main ht => exact .inr ⟨hdisabled, _, _, h.of_eq rfl hrefl rfl⟩
  | exit ht hothers => exact .inr ⟨hdisabled, _, _, h.of_eq rfl hrefl rfl⟩

theorem inv_start : Inv sites signed pid metadata body (.start sites pid metadata body) := by
  have hself : (Process.start sites pid metadata body).threads pid = some ⟨mainOps sites metadata body, []⟩ := by
    simp [Process.start]
  have hpid : ∀ r, (Process.start sites pid metadata body).threads pid = some r → r = ⟨mainOps sites metadata body, []⟩ := by
    intro r hr
    exact (Option.some.inj (hself.symm.trans hr)).symm
  have hothers : ∀ t, t ≠ pid → (Process.start sites pid metadata body).threads t = none :=
    fun t hne => by simp [Process.start, hne]
  refine .inl ⟨rfl, [], fun _ => [], [], ⟨rfl, fun t => rfl, fun t x hx => ?_, fun t => ?_, fun _ => rfl, ?_⟩,
    ⟨⟨⟨mainOps sites metadata body, []⟩, ?_, .refl⟩, fun t hne => ?_, fun t r hr => ?_⟩, ?_, ?_, ?_, ?_⟩
  · cases hx
  · by_cases hne : t = pid
    · subst hne
      rw [hself]
      rfl
    · rw [hothers t hne]
      rfl
  · intro t rest hwriting
    cases hwriting
  · exact hself
  · rw [hothers t hne]
    exact .nil
  · by_cases hne : t = pid
    · subst hne
      rw [hpid r hr]
      exact flushes_mainOps sites metadata body
    · rw [hothers t hne] at hr
      cases hr
  · exact fun r hr hmem t hne => ⟨hothers t hne, rfl⟩
  · intro r hr hmem
    rw [hpid r hr] at hmem
    exact absurd (by simp [mainOps]) hmem
  · exact fun r hr hmem t hne => hothers t hne
  · simp

/-- **The invariant holds in every state that a process gets to.** -/
theorem inv_of_reaches (h : Reaches sites signed pid metadata body s) : Inv sites signed pid metadata body s := by
  induction h with
  | refl => exact inv_start
  | tail _ hstep ih =>
    rcases ih with ⟨henabled, flushed, pending, unwritten, hgood⟩ | ⟨hdisabled, flushed, unwritten, hfailed⟩
    · exact hgood.inv_step henabled hstep
    · exact hfailed.inv_step hdisabled hstep

end Invariant

/-! ### What is in the file -/

section File

variable {ι : Type} [DecidableEq ι] {sites : ι → Site} {signed : Bool} {pid : Pid} {metadata : Metadata} {body : Body ι}
  {s : Process}

/-- **What is in the file, at any time.** It is the text of records, as whole lines, but for the end of a flush in progress
or of one that has failed; the records of an id are in the order in which they have been logged. While writing has not failed,
what is missing is in the buffers of the threads, and what has been logged under an id is what its threads log, one after the
other. -/
theorem file_of_reaches (h : Reaches sites signed pid metadata body s) :
    ∃ flushed unwritten, s.file ++ unwritten = text signed pid flushed ∧ (∀ t, ofId t flushed <+: s.logged t) ∧
      (s.isEnabled = true → (s.writing = none → unwritten = []) ∧ (∀ t rest, s.writing = some (t, rest) → unwritten = rest) ∧
        (∃ pending : Pid → List Line, ∀ t, s.logged t = ofId t flushed ++ pending t ∧
          match s.threads t with
          | none => pending t = []
          | some r => r.string = text signed pid (pending t)) ∧
        (∃ r, s.threads pid = some r ∧ Logs (mainOps sites metadata body) (calls (s.logged pid)) r.todo) ∧
        ∀ t, t ≠ pid → Lived sites (calls (s.logged t)) (s.threads t)) := by
  rcases inv_of_reaches h with ⟨henabled, flushed, pending, unwritten, hgood⟩ | ⟨hdisabled, flushed, unwritten, hfailed⟩
  · refine ⟨flushed, unwritten, hgood.flows.file, fun t => ?_, fun _ => ⟨hgood.flows.free,
      fun t rest hwriting => (hgood.flows.busy t rest hwriting).1, ⟨pending, fun t => ?_⟩, hgood.programs.main,
      hgood.programs.others⟩⟩
    · rw [← hgood.flows.logged t]
      exact List.prefix_append _ _
    · have hbuffer := hgood.flows.buffers t
      exact ⟨(hgood.flows.logged t).symm, hbuffer⟩
  · refine ⟨flushed, unwritten, hfailed.file, hfailed.logged, fun henabled => ?_⟩
    rw [hdisabled] at henabled
    cases henabled

end File

/-! ### A program with two threads -/

section Sample

variable {ι : Type} [DecidableEq ι] {sites : ι → Site} {signed : Bool} {pid : Pid} {metadata : Metadata} {body : Body ι}

/-- A process in which writing has not failed, by the lines that have been logged. -/
def process (threads : Pid → Option Running) (file : List UInt8) (writing : Option (Pid × List UInt8)) (lines : List Line) :
    Process :=
  ⟨threads, file, true, writing, fun t => ofId t lines⟩

variable {threads : Pid → Option Running} {file : List UInt8} {writing : Option (Pid × List UInt8)} {lines : List Line}
  {t : Pid} {todo : List Op} {string : List UInt8}

theorem Reaches.start : Reaches sites signed pid metadata body
    (process (Function.update (fun _ => none) pid (some ⟨mainOps sites metadata body, []⟩)) [] none []) := .refl

theorem Reaches.log (h : Reaches sites signed pid metadata body (process threads file writing lines)) {call : Call}
    (ht : threads t = some ⟨.log call :: todo, string⟩) (usage : Usage) :
    Reaches sites signed pid metadata body
      (process (Function.update threads t (some ⟨todo, string ++ text signed pid [⟨t, call, usage⟩]⟩)) file writing
        (lines ++ [⟨t, call, usage⟩])) := by
  have hlogged : (fun t' => ofId t' (lines ++ [⟨t, call, usage⟩])) =
      Function.update (fun t' => ofId t' lines) t (ofId t lines ++ [⟨t, call, usage⟩]) := by
    funext t'
    by_cases hne : t' = t
    · subst hne
      have hnew : ofId t' [⟨t', call, usage⟩] = [⟨t', call, usage⟩] := ofId_of_forall (by simp)
      rw [Function.update_self, ofId_append, hnew]
    · have hnew : ofId t' [⟨t, call, usage⟩] = [] := ofId_of_ne (by simp) hne
      rw [Function.update_of_ne hne, ofId_append, hnew, List.append_nil]
  rw [process, hlogged]
  exact h.tail (.log usage ht)

theorem Reaches.stay (h : Reaches sites signed pid metadata body (process threads file writing lines)) {probeName : String}
    (ht : threads t = some ⟨.possiblyFlush probeName :: todo, string⟩) (hlength : string.length ≤ bufMaxSize) :
    Reaches sites signed pid metadata body (process (Function.update threads t (some ⟨todo, string⟩)) file writing lines) :=
  h.tail (.stay ht hlength)

theorem Reaches.lock (h : Reaches sites signed pid metadata body (process threads file none lines))
    (ht : threads t = some ⟨.flush :: todo, string⟩) :
    Reaches sites signed pid metadata body
      (process (Function.update threads t (some ⟨.flush :: todo, []⟩)) file (some (t, string)) lines) :=
  h.tail (.lock ht rfl rfl)

theorem Reaches.write {rest : List UInt8}
    (h : Reaches sites signed pid metadata body (process threads file (some (t, rest)) lines)) (n : ℕ) :
    Reaches sites signed pid metadata body (process threads (file ++ rest.take n) (some (t, rest.drop n)) lines) :=
  h.tail (.write n rfl)

/-- What is left is written at once. -/
theorem Reaches.unlock {rest : List UInt8}
    (h : Reaches sites signed pid metadata body (process threads file (some (t, rest)) lines))
    (ht : threads t = some ⟨.flush :: todo, string⟩) :
    Reaches sites signed pid metadata body
      (process (Function.update threads t (some ⟨todo, string⟩)) (file ++ rest) none lines) := by
  have hwrite := h.write rest.length
  rw [List.take_length, List.drop_length] at hwrite
  exact hwrite.tail (.unlock rfl ht)

theorem Reaches.main (h : Reaches sites signed pid metadata body (process threads file writing lines))
    (ht : threads pid = some ⟨.main :: todo, string⟩) :
    Reaches sites signed pid metadata body (process (Function.update threads pid (some ⟨todo, string⟩)) file writing lines) :=
  h.tail (.main ht)

theorem Reaches.exit (h : Reaches sites signed pid metadata body (process threads file writing lines))
    (ht : threads pid = some ⟨.exit :: todo, string⟩) (hothers : ∀ t, t ≠ pid → threads t = none) :
    Reaches sites signed pid metadata body (process (Function.update threads pid (some ⟨todo, string⟩)) file writing lines) :=
  h.tail (.exit ht hothers)

theorem Reaches.threadStart (h : Reaches sites signed pid metadata body (process threads file writing lines)) (body' : Body ι)
    {r : Running} (hmain : threads pid = some r) (hrunning : .main ∉ r.todo ∧ .exit ∈ r.todo) (ht : threads t = none) :
    Reaches sites signed pid metadata body
      (process (Function.update threads t (some ⟨life sites body', []⟩)) file writing lines) :=
  h.tail (.threadStart body' ⟨r, hmain, hrunning⟩ ht)

theorem Reaches.threadEnd (h : Reaches sites signed pid metadata body (process threads file writing lines)) (hne : t ≠ pid)
    (ht : threads t = some ⟨[], string⟩) :
    Reaches sites signed pid metadata body (process (Function.update threads t none) file writing lines) :=
  h.tail (.threadEnd hne ht)

/-- What the main thread executes: a scope that has a key-value entry. -/
def sampleBody : Body Empty := .scope "a|b" (.keyValue "k" "v" .done) .done

/-- What the other thread executes. -/
def otherBody : Body Empty := .point "c" .done

/-- About the program. -/
def sampleTarget : Metadata := ⟨"host", "user", ⟨"Linux", "host", "6.1", "1", "x86_64"⟩, "GCC 14.2.0"⟩

/-- What the operating system tells. -/
def sampleUsages : Usage := ⟨⟨1, 2⟩, ⟨3, 4⟩, ⟨5, 6⟩, 7, 8, 9, 10, 11, 12, 13⟩

/-- The id of the process. -/
def samplePid : Pid := Fin.ofNat _ 7

/-- The id of the other thread. -/
def otherTid : Pid := Fin.ofNat _ 8

/-- The records of a thread. -/
def linesOf (t : Pid) (calls : List Call) : List Line := calls.map fun call => ⟨t, call, sampleUsages⟩

/-- The header. -/
def headerLines : List Line := linesOf samplePid [.start, .metadata sampleTarget, .resourceUsage ⟨"-", .tStart, 1⟩]

/-- What the main thread flushes. -/
def mainLines : List Line :=
  linesOf samplePid [.resourceUsage ⟨"-", .tThreadStart, 1⟩, .resourceUsage ⟨"a|b", .ts, 1⟩, .keyValue "k" "v",
    .resourceUsage ⟨"a|b", .te, 0⟩, .resourceUsage ⟨"-", .tThreadEnd, 0⟩]

/-- What the other thread flushes. -/
def otherLines : List Line :=
  linesOf otherTid [.resourceUsage ⟨"-", .tThreadStart, 1⟩, .resourceUsage ⟨"c", .t, 1⟩, .resourceUsage ⟨"-", .tThreadEnd, 0⟩]

/-- The lines of the file. -/
def sampleLines : List Line := headerLines ++ otherLines ++ mainLines ++ linesOf samplePid [tEnd]

/-- Where the program begins the main function. -/
theorem reaches_header : Reaches Empty.elim true samplePid sampleTarget sampleBody
    (process (Function.update (fun _ => none) samplePid
      (some ⟨life Empty.elim sampleBody ++ .exit :: destructOutput, []⟩)) (text true samplePid headerLines) none
      headerLines) := by
  have hstart : Reaches Empty.elim true samplePid sampleTarget sampleBody _ := Reaches.start
  have hlog := ((hstart.log (t := samplePid) rfl sampleUsages).log (t := samplePid) rfl sampleUsages).log (t := samplePid) rfl
    sampleUsages
  have hflush := ((hlog.lock (t := samplePid) rfl).unlock rfl).main rfl
  simp only [Function.update_idem, List.nil_append, ← text_append] at hflush
  exact hflush

/-- In its scope, the main thread has started the other one, and this has begun to flush its buffer. -/
def interrupted : Process :=
  process
    (Function.update (Function.update (fun _ => none) samplePid
      (some ⟨(life Empty.elim sampleBody).drop 4 ++ .exit :: destructOutput, text true samplePid (mainLines.take 2)⟩)) otherTid
      (some ⟨[.flush], []⟩))
    (text true samplePid headerLines ++ (text true samplePid otherLines).take 20)
    (some (otherTid, (text true samplePid otherLines).drop 20)) (headerLines ++ mainLines.take 2 ++ otherLines)

theorem reaches_interrupted : Reaches Empty.elim true samplePid sampleTarget sampleBody interrupted := by
  have hlife := (reaches_header.log (t := samplePid) rfl sampleUsages).stay (t := samplePid) rfl (by decide +kernel)
  have hscope := (hlife.log (t := samplePid) rfl sampleUsages).stay (t := samplePid) rfl (by decide +kernel)
  have hstarted := hscope.threadStart (t := otherTid) otherBody rfl ⟨by decide +kernel, by decide +kernel⟩ rfl
  have hother := (hstarted.log (t := otherTid) rfl sampleUsages).stay (t := otherTid) rfl (by decide +kernel)
  have hpoint := (hother.log (t := otherTid) rfl sampleUsages).stay (t := otherTid) rfl (by decide +kernel)
  have hend := (hpoint.log (t := otherTid) rfl sampleUsages).stay (t := otherTid) rfl (by decide +kernel)
  have hwrite := (hend.lock (t := otherTid) rfl).write 20
  simp only [Function.update_idem, List.nil_append, ← text_append] at hwrite
  exact hwrite

/-- The end of the process. -/
def ended : Process :=
  process (Function.update (fun _ => none) samplePid (some ⟨[], []⟩)) (text true samplePid sampleLines) none sampleLines

/-- The program runs to its end: the main thread goes on while the other one is writing. -/
theorem reaches_sample : Reaches Empty.elim true samplePid sampleTarget sampleBody ended := by
  have hinside := (reaches_interrupted.log (t := samplePid) rfl sampleUsages).log (t := samplePid) rfl sampleUsages
  have hscope := hinside.stay (t := samplePid) rfl (by decide +kernel)
  have hother := (hscope.unlock rfl).threadEnd (t := otherTid) (by decide) rfl
  have hmain := (hother.log (t := samplePid) rfl sampleUsages).stay (t := samplePid) rfl (by decide +kernel)
  have hflush := (hmain.lock (t := samplePid) rfl).unlock rfl
  have hexit := hflush.exit rfl fun t hne => by
    simp only [Function.update_apply, if_neg hne]
    split_ifs
    · rfl
    · rfl
  have hended := ((hexit.log (t := samplePid) rfl sampleUsages).lock (t := samplePid) rfl).unlock rfl
  -- the same threads, file and lines
  refine Eq.subst (motive := Reaches Empty.elim true samplePid sampleTarget sampleBody) ?_ hended
  rw [ended, process, process, Process.mk.injEq]
  refine ⟨funext fun t => ?_, ?_, rfl, rfl, funext fun t => ?_⟩
  · simp only [Function.update_apply]
    split_ifs
    · rfl
    · rfl
    · rfl
  · rw [List.append_assoc _ (List.take 20 _), List.take_append_drop]
    simp only [List.nil_append, ← text_append]
    rfl
  · show ofId t (headerLines ++ (mainLines.take 2 ++ otherLines) ++ (mainLines.drop 2 ++ linesOf samplePid [tEnd])) =
      ofId t (headerLines ++ (otherLines ++ mainLines.take 2) ++ (mainLines.drop 2 ++ linesOf samplePid [tEnd]))
    have hmain : ∀ x ∈ mainLines.take 2, x.tid = samplePid := by decide +kernel
    have hother : ∀ x ∈ otherLines, x.tid = otherTid := by decide +kernel
    simp only [ofId_append _ (_ ++ _), ofId_append _ headerLines, ofId_append_comm hmain hother (by decide)]

/-- While the other thread is writing, what is missing of its records is what it is going to write. -/
theorem file_of_reaches_sample :
    ∃ flushed, text true samplePid headerLines ++ (text true samplePid otherLines).take 20 ++
        (text true samplePid otherLines).drop 20 = text true samplePid flushed ∧
      ofId otherTid flushed = otherLines := by
  obtain ⟨flushed, unwritten, hfile, hids, hgood⟩ := file_of_reaches reaches_interrupted
  obtain ⟨-, hbusy, ⟨pending, hpending⟩, -⟩ := hgood rfl
  obtain ⟨hother, hbuffer⟩ := hpending otherTid
  have hempty : pending otherTid = [] := text_eq_nil hbuffer.symm
  have hlogged : interrupted.logged otherTid = otherLines := by decide +kernel
  rw [hempty, List.append_nil, hlogged] at hother
  rw [hbusy otherTid _ rfl] at hfile
  exact ⟨flushed, hfile, hother.symm⟩

end Sample

end Evobench.Probes

import Evobench.Probes.Records

/-!
# Threads and their buffers

What a thread does with its buffer while it runs into probes. The buffer of a thread is made when the first probe gets to it,
logs a start and, when the thread ends, an end. A buffer that is overly full after a record is flushed, which is logged, too.

## The model

* `Op`: what is done with a buffer. `Body`: what a thread executes. `Body.ops`, `life`, `mainOps`: the operations of that.
* `Logs ops calls todo`: of the operations `ops` those in `todo` are left, and `calls` are what has been logged. A flush puts
  further operations in front of those that are left.

## What is proved

* `flushes_life`: a thread that has come to its end has flushed what it has logged.
* `balanced_of_life`, `balanced_of_main`: what a thread logs from its start to its end is well bracketed.
-/

namespace Evobench.Probes

open Library Evaluator StatsTables

/-! ### Operations -/

/-- What a thread does. -/
inductive Op where
  /-- A record is appended to the buffer. -/
  | log (call : Call)
  /-- `possibly_flush`, after a record of the probe -/
  | possiblyFlush (probeName : String)
  /-- `flush` -/
  | flush
  /-- The static objects have been constructed, `main` begins. -/
  | main
  /-- The destruction of the static objects begins. -/
  | exit
deriving DecidableEq

/-- The record of a flush. -/
def tio (probeName : String) : Call := .resourceUsage ⟨probeName, .tio, 1⟩

/-- `_log_any` -/
def logAnyOps (record : Record) : List Op := [.log (.resourceUsage record), .possiblyFlush record.probeName]

/-- What a thread executes: probes, with what is executed inside of them, and what comes after. -/
inductive Body (ι : Type) where
  /-- Nothing more. -/
  | done
  /-- `EVOBENCH_SCOPE` -/
  | scope (probeName : String) (body rest : Body ι)
  /-- `EVOBENCH_SCOPE_EVERY` -/
  | every (site : ι) (body rest : Body ι)
  /-- `EVOBENCH_POINT` -/
  | point (probeName : String) (rest : Body ι)
  /-- `EVOBENCH_KEY_VALUE` -/
  | keyValue (key value : String) (rest : Body ι)

section Programs

variable {ι : Type} [DecidableEq ι] (sites : ι → Site)

/-- The operations of a body, and the counters after it. -/
def Body.ops : Body ι → (ι → UInt32) → List Op × (ι → UInt32)
  | .done, skip => ([], skip)
  | .scope probeName body rest, skip =>
    let (inside, skip) := body.ops skip
    let (after, skip) := rest.ops skip
    (logAnyOps ⟨probeName, .ts, 1⟩ ++ (inside ++ (logAnyOps ⟨probeName, .te, 0⟩ ++ after)), skip)
  | .every i body rest, skip =>
    if 0 < skip i then
      let (inside, skip) := body.ops (Function.update skip i (skip i - 1))
      let (after, skip) := rest.ops skip
      (inside ++ after, skip)
    else
      let (inside, skip) := body.ops (Function.update skip i ((sites i).everyN - 1))
      let (after, skip) := rest.ops skip
      (logAnyOps ⟨(sites i).probeName, .ts, (sites i).everyN⟩ ++
        (inside ++ (logAnyOps ⟨(sites i).probeName, .te, 0⟩ ++ after)), skip)
  | .point probeName rest, skip =>
    let (after, skip) := rest.ops skip
    (logAnyOps ⟨probeName, .t, 1⟩ ++ after, skip)
  | .keyValue key value rest, skip =>
    let (after, skip) := rest.ops skip
    (.log (.keyValue key value) :: after, skip)

/-- `Buffer::Buffer`, not manual -/
def constructBuffer : List Op := logAnyOps ⟨"-", .tThreadStart, 1⟩

/-- `Buffer::~Buffer`, not manual -/
def destructBuffer : List Op := logAnyOps ⟨"-", .tThreadEnd, 0⟩ ++ [.flush]

/-- What a thread does. It has no buffer if it gets to no probe. -/
def life (body : Body ι) : List Op :=
  let ops := (body.ops sites fun _ => 0).1
  if ops.isEmpty then [] else constructBuffer ++ (ops ++ destructBuffer)

/-- `Output::Output`, which uses a buffer of its own -/
def constructOutput (metadata : Metadata) : List Op :=
  [.log .start, .log (.metadata metadata), .log (.resourceUsage ⟨"-", .tStart, 1⟩), .flush]

/-- `Output::~Output`, which uses a buffer of its own -/
def destructOutput : List Op := [.log (.resourceUsage ⟨"-", .tEnd, 1⟩), .flush]

/-- What the main thread does. -/
def mainOps (metadata : Metadata) (body : Body ι) : List Op :=
  constructOutput metadata ++ (.main :: (life sites body ++ (.exit :: destructOutput)))

end Programs

/-! ### Runs of operations -/

/-- What an operation logs, and which operations are done after it. -/
inductive Does : Op → List Call → List Op → Prop where
  /-- A record is logged. -/
  | log (call : Call) : Does (.log call) [call] []
  /-- The buffer is not full. -/
  | stay (probeName : String) : Does (.possiblyFlush probeName) [] []
  /-- The buffer is full. -/
  | full (probeName : String) : Does (.possiblyFlush probeName) [] [.flush, .log (tio probeName)]
  /-- The buffer is flushed. -/
  | flush : Does .flush [] []
  /-- The main function begins. -/
  | main : Does .main [] []
  /-- The process exits. -/
  | exit : Does .exit [] []

/-- What has been logged, and what is left. -/
inductive Logs (ops : List Op) : List Call → List Op → Prop where
  /-- Nothing has been done. -/
  | refl : Logs ops [] ops
  /-- One operation more. -/
  | step {calls calls' : List Call} {op : Op} {todo inserted : List Op} (h : Logs ops calls (op :: todo))
      (hop : Does op calls' inserted) : Logs ops (calls ++ calls') (inserted ++ todo)

namespace Logs

variable {ops ops₁ ops₂ todo : List Op} {calls : List Call}

/-- Either the first operations are not done yet, or they are done, and of the others some are left. -/
theorem append_cases (h : Logs (ops₁ ++ ops₂) calls todo) :
    (∃ todo₁, todo = todo₁ ++ ops₂ ∧ Logs ops₁ calls todo₁) ∨
      ∃ calls₁ calls₂, calls = calls₁ ++ calls₂ ∧ Logs ops₁ calls₁ [] ∧ Logs ops₂ calls₂ todo := by
  induction h with
  | refl => exact .inl ⟨ops₁, rfl, .refl⟩
  | @step calls calls' op todo inserted h hop ih =>
    rcases ih with ⟨todo₁, htodo, hran⟩ | ⟨calls₁, calls₂, rfl, hran₁, hran₂⟩
    · cases todo₁ with
      | nil =>
        -- the first of the others
        obtain rfl : op :: todo = ops₂ := htodo
        exact .inr ⟨calls, calls', rfl, hran, Logs.refl.step hop⟩
      | cons op' todo₁ =>
        obtain ⟨rfl, rfl⟩ := List.cons.inj htodo
        exact .inl ⟨inserted ++ todo₁, (List.append_assoc _ _ _).symm, hran.step hop⟩
    · exact .inr ⟨calls₁, calls₂ ++ calls', List.append_assoc _ _ _, hran₁, hran₂.step hop⟩

/-- What has been done to the end. -/
theorem append_nil (h : Logs (ops₁ ++ ops₂) calls []) :
    ∃ calls₁ calls₂, calls = calls₁ ++ calls₂ ∧ Logs ops₁ calls₁ [] ∧ Logs ops₂ calls₂ [] := by
  rcases h.append_cases with ⟨todo₁, htodo, hran⟩ | h
  · obtain ⟨rfl, rfl⟩ := List.append_eq_nil_iff.1 htodo.symm
    exact ⟨calls, [], (List.append_nil _).symm, hran, .refl⟩
  · exact h

/-- After no operations nothing has been logged. -/
theorem of_nil (h : Logs [] calls todo) : calls = [] ∧ todo = [] := by
  induction h with
  | refl => exact ⟨rfl, rfl⟩
  | step h hop ih => cases ih.2

/-- An operation that does one thing. -/
theorem cons_cases {op : Op} (h : Logs (op :: ops) calls todo) :
    (calls = [] ∧ todo = op :: ops) ∨ ∃ calls₁ calls₂ inserted, Does op calls₁ inserted ∧ calls = calls₁ ++ calls₂ ∧
      Logs (inserted ++ ops) calls₂ todo := by
  induction h with
  | refl => exact .inl ⟨rfl, rfl⟩
  | @step calls calls' op' todo inserted h hop ih =>
    rcases ih with ⟨rfl, htodo⟩ | ⟨calls₁, calls₂, inserted₁, hop₁, rfl, hran⟩
    · obtain ⟨rfl, rfl⟩ := List.cons.inj htodo
      exact .inr ⟨calls', [], inserted, hop, (List.append_nil _).symm, .refl⟩
    · exact .inr ⟨calls₁, calls₂ ++ calls', inserted₁, hop₁, List.append_assoc _ _ _, hran.step hop⟩

/-- What is logged is an operation, or is about a flush. -/
theorem mem (h : Logs ops calls todo) :
    (∀ call ∈ calls, .log call ∈ ops ∨ ∃ probeName, call = tio probeName) ∧
      ∀ op ∈ todo, op ∈ ops ∨ op = .flush ∨ ∃ probeName, op = .log (tio probeName) := by
  induction h with
  | refl => exact ⟨by simp, fun op hop => .inl hop⟩
  | @step calls calls' op todo inserted h hop ih =>
    obtain ⟨hcalls, htodo⟩ := ih
    have htail : ∀ op' ∈ todo, op' ∈ ops ∨ op' = .flush ∨ ∃ probeName, op' = .log (tio probeName) :=
      fun op' hop' => htodo op' (List.mem_cons_of_mem _ hop')
    cases hop with
    | log call =>
      refine ⟨fun call' hcall' => ?_, htail⟩
      rcases List.mem_append.1 hcall' with hcall' | hcall'
      · exact hcalls call' hcall'
      · obtain rfl := List.mem_singleton.1 hcall'
        rcases htodo _ List.mem_cons_self with hmem | hmem | ⟨probeName, hmem⟩
        · exact .inl hmem
        · cases hmem
        · exact .inr ⟨probeName, Op.log.inj hmem⟩
    | full probeName =>
      rw [List.append_nil]
      refine ⟨hcalls, fun op' hop' => ?_⟩
      rcases List.mem_cons.1 hop' with rfl | hop'
      · exact .inr (.inl rfl)
      · rcases List.mem_cons.1 hop' with rfl | hop'
        · exact .inr (.inr ⟨probeName, rfl⟩)
        · exact htail op' hop'
    | _ =>
      rw [List.append_nil]
      exact ⟨hcalls, htail⟩

end Logs

/-! ### Buffers are flushed -/

/-- A buffer, with something in it or not, is flushed before the thread ends, or the main function begins or ends. -/
def Flushes : Bool → List Op → Prop
  | dirty, [] => dirty = false
  | _, .log _ :: ops => Flushes true ops
  | dirty, .possiblyFlush _ :: ops => Flushes dirty ops
  | _, .flush :: ops => Flushes false ops
  | dirty, .main :: ops => dirty = false ∧ Flushes false ops
  | dirty, .exit :: ops => dirty = false ∧ Flushes false ops

theorem Flushes.clean {dirty : Bool} {ops : List Op} (h : Flushes dirty ops) : Flushes false ops := by
  induction ops generalizing dirty with
  | nil => rfl
  | cons op ops ih =>
    cases op with
    | log call => exact h
    | possiblyFlush probeName => exact @ih dirty h
    | flush => exact h
    | main => exact ⟨rfl, h.2⟩
    | exit => exact ⟨rfl, h.2⟩

/-- Operations of probes do no flush, other than when the buffer is full. -/
def Op.isProbing : Op → Bool
  | .log _ => true
  | .possiblyFlush _ => true
  | _ => false

/-- What is logged is flushed afterwards. -/
theorem Flushes.append {ops ops' : List Op} (hops : ∀ op ∈ ops, op.isProbing = true) (h : Flushes true ops')
    (dirty : Bool) : Flushes dirty (ops ++ ops') := by
  induction ops generalizing dirty with
  | nil =>
    cases dirty with
    | true => exact h
    | false => exact h.clean
  | cons op ops ih =>
    have htail := ih fun op hop => hops op (List.mem_cons_of_mem _ hop)
    have hop := hops op List.mem_cons_self
    cases op with
    | log call => exact htail true
    | possiblyFlush probeName => exact htail dirty
    | flush => cases hop
    | main => cases hop
    | exit => cases hop

/-! ### What is logged from start to end -/

section Programs

variable {ι : Type} [DecidableEq ι] (sites : ι → Site)

/-- Operations inside of a thread: they log scopes, points and key-value entries. -/
def Op.isInside : Op → Bool
  | .log (.resourceUsage record) => record.kind = .ts || record.kind = .te || record.kind = .t
  | .log (.keyValue _ _) => true
  | .possiblyFlush _ => true
  | _ => false

theorem Op.isProbing_of_isInside {op : Op} (h : op.isInside = true) : op.isProbing = true := by
  cases op with
  | log call => rfl
  | possiblyFlush probeName => rfl
  | flush => cases h
  | main => cases h
  | exit => cases h

theorem forall_logAnyOps {P : Op → Prop} {record : Record} :
    (∀ op ∈ logAnyOps record, P op) ↔ P (.log (.resourceUsage record)) ∧ P (.possiblyFlush record.probeName) := by
  simp [logAnyOps]

theorem isInside_ops (body : Body ι) (skip : ι → UInt32) : ∀ op ∈ (body.ops sites skip).1, op.isInside = true := by
  induction body generalizing skip with
  | done => simp [Body.ops]
  | scope probeName body rest ihbody ihrest =>
    simp only [Body.ops, List.forall_mem_append, forall_logAnyOps]
    exact ⟨⟨rfl, rfl⟩, ihbody _, ⟨rfl, rfl⟩, ihrest _⟩
  | every i body rest ihbody ihrest =>
    rw [Body.ops]
    split_ifs
    · simp only [List.forall_mem_append]
      exact ⟨ihbody _, ihrest _⟩
    · simp only [List.forall_mem_append, forall_logAnyOps]
      exact ⟨⟨rfl, rfl⟩, ihbody _, ⟨rfl, rfl⟩, ihrest _⟩
  | point probeName rest ih =>
    simp only [Body.ops, List.forall_mem_append, forall_logAnyOps]
    exact ⟨⟨rfl, rfl⟩, ih _⟩
  | keyValue key value rest ih =>
    simp only [Body.ops, List.forall_mem_cons]
    exact ⟨rfl, ih _⟩

/-- **A thread flushes its buffer** before it ends. -/
theorem flushes_life (body : Body ι) : Flushes false (life sites body) := by
  unfold life
  dsimp only
  split_ifs
  · rfl
  · have hops : ∀ op ∈ (body.ops sites fun _ => 0).1, op.isProbing = true :=
      fun op hop => Op.isProbing_of_isInside (isInside_ops sites body _ op hop)
    have hdestruct : Flushes true destructBuffer := rfl
    exact Flushes.append (forall_logAnyOps.2 ⟨rfl, rfl⟩) (hdestruct.append hops true) false

theorem Flushes.append_clean {ops ops' : List Op} {dirty : Bool} (h : Flushes dirty ops) (h' : Flushes false ops') :
    Flushes dirty (ops ++ ops') := by
  induction ops generalizing dirty with
  | nil =>
    obtain rfl : dirty = false := h
    exact h'
  | cons op ops ih =>
    cases op with
    | log call => exact @ih true h
    | possiblyFlush probeName => exact @ih dirty h
    | flush => exact @ih false h
    | main => exact ⟨h.1, ih h.2⟩
    | exit => exact ⟨h.1, ih h.2⟩

theorem flushes_mainOps (metadata : Metadata) (body : Body ι) : Flushes false (mainOps sites metadata body) := by
  have hconstruct : Flushes false (constructOutput metadata) := rfl
  have hdestruct : Flushes false (.exit :: destructOutput) := ⟨rfl, rfl⟩
  exact hconstruct.append_clean ⟨rfl, (flushes_life sites body).append_clean hdestruct⟩

/-- A record has been logged, and perhaps something about a flush. -/
theorem calls_logAnyOps {record : Record} {calls : List Call} (h : Logs (logAnyOps record) calls []) :
    ∃ tail, calls = .resourceUsage record :: tail ∧ ∀ call ∈ tail, call.token = .skip := by
  rcases h.cons_cases with ⟨-, he⟩ | ⟨calls₁, calls₂, inserted, hlog, rfl, h⟩
  · cases he
  · cases hlog
    refine ⟨calls₂, rfl, fun call hcall => ?_⟩
    rcases h.mem.1 call hcall with hmem | ⟨probeName, rfl⟩
    · cases List.mem_singleton.1 hmem
    · rfl

/-- A start, what is inside, an end, and what comes after. -/
theorem balanced_scope {b : Bool} {start end_ : Record} {key : ScopeKind × String} {inside after : List Op}
    {calls : List Call} (hstart : (Call.resourceUsage start).token = .opening key)
    (hend : (Call.resourceUsage end_).token = .closing key)
    (hinside : ∀ calls, Logs inside calls [] → Balanced Call.token true calls)
    (hafter : ∀ calls, Logs after calls [] → Balanced Call.token b calls)
    (h : Logs (logAnyOps start ++ (inside ++ (logAnyOps end_ ++ after))) calls []) : Balanced Call.token b calls := by
  obtain ⟨calls₁, _, rfl, h₁, h⟩ := h.append_nil
  obtain ⟨calls₂, _, rfl, h₂, h⟩ := h.append_nil
  obtain ⟨calls₃, calls₄, rfl, h₃, h₄⟩ := h.append_nil
  obtain ⟨tail, rfl, htail⟩ := calls_logAnyOps h₁
  obtain ⟨tail', rfl, htail'⟩ := calls_logAnyOps h₃
  have hbody : Balanced Call.token true (tail ++ calls₂) := (Balanced.of_skip htail).append (hinside calls₂ h₂)
  have hrest : Balanced Call.token b (tail' ++ calls₄) := (Balanced.of_skip htail').append (hafter calls₄ h₄)
  have hscope := Balanced.scope hstart hbody hend hrest
  simpa only [List.cons_append, List.append_assoc] using hscope

/-- **A body is balanced**, inside of the thread. -/
theorem balanced_ops (body : Body ι) (skip : ι → UInt32) {calls : List Call} (h : Logs (body.ops sites skip).1 calls []) :
    Balanced Call.token true calls := by
  induction body generalizing skip calls with
  | done =>
    rw [h.of_nil.1]
    exact .nil
  | scope probeName body rest ihbody ihrest =>
    exact balanced_scope rfl rfl (fun calls h => ihbody _ h) (fun calls h => ihrest _ h) h
  | every i body rest ihbody ihrest =>
    rw [Body.ops] at h
    split_ifs at h
    · obtain ⟨calls₁, calls₂, rfl, h₁, h₂⟩ := h.append_nil
      exact (ihbody _ h₁).append (ihrest _ h₂)
    · exact balanced_scope rfl rfl (fun calls h => ihbody _ h) (fun calls h => ihrest _ h) h
  | point probeName rest ih =>
    obtain ⟨calls₁, calls₂, rfl, h₁, h₂⟩ := h.append_nil
    obtain ⟨tail, rfl, htail⟩ := calls_logAnyOps h₁
    exact .skip rfl ((Balanced.of_skip htail).append (ih _ h₂))
  | keyValue key value rest ih =>
    rcases h.cons_cases with ⟨-, he⟩ | ⟨calls₁, calls₂, inserted, hlog, rfl, h⟩
    · cases he
    · cases hlog
      exact .mark rfl (ih _ h)

/-- **The life of a thread is balanced.** -/
theorem balanced_of_life {body : Body ι} {calls : List Call} (h : Logs (life sites body) calls []) :
    Balanced Call.token false calls := by
  unfold life at h
  dsimp only at h
  split_ifs at h
  · rw [h.of_nil.1]
    exact .nil
  · have hafter : ∀ calls, Logs [.flush] calls [] → Balanced Call.token false calls := by
      intro calls h
      rcases h.cons_cases with ⟨-, he⟩ | ⟨calls₁, calls₂, inserted, hflush, rfl, h⟩
      · cases he
      · cases hflush
        rw [h.of_nil.1]
        exact .nil
    exact balanced_scope rfl rfl (fun calls h => balanced_ops sites body _ h) hafter h

/-! ### The main thread -/

/-- The records at the beginning of a log. -/
def header (metadata : Metadata) : List Call := [.start, .metadata metadata, .resourceUsage ⟨"-", .tStart, 1⟩]

/-- The last record of a log. -/
def tEnd : Call := .resourceUsage ⟨"-", .tEnd, 1⟩

/-- How far the main thread has got. -/
inductive MainPhase (metadata : Metadata) (body : Body ι) : List Call → List Op → Prop where
  /-- Static objects are constructed. -/
  | constructing {calls : List Call} {todo : List Op} (h : Logs (constructOutput metadata) calls todo) :
      MainPhase metadata body calls (todo ++ (.main :: (life sites body ++ (.exit :: destructOutput))))
  /-- The main function runs. -/
  | running {calls : List Call} {todo : List Op} (h : Logs (life sites body) calls todo) :
      MainPhase metadata body (header metadata ++ calls) (todo ++ (.exit :: destructOutput))
  /-- Static objects are destroyed. -/
  | exiting {calls calls' : List Call} {todo : List Op} (hlife : Logs (life sites body) calls [])
      (h : Logs destructOutput calls' todo) : MainPhase metadata body (header metadata ++ (calls ++ calls')) todo

/-- There is one thing that can be logged. -/
theorem Logs.log_cons {call : Call} {ops todo : List Op} {calls : List Call} (h : Logs (.log call :: ops) calls todo) :
    (calls = [] ∧ todo = .log call :: ops) ∨ ∃ calls', calls = call :: calls' ∧ Logs ops calls' todo := by
  rcases h.cons_cases with h | ⟨calls₁, calls₂, inserted, hlog, rfl, h⟩
  · exact .inl h
  · cases hlog
    exact .inr ⟨calls₂, rfl, h⟩

/-- Operations that log nothing themselves. -/
theorem Logs.silent_cons {op : Op} (hop : op = .flush ∨ op = .main ∨ op = .exit) {ops todo : List Op} {calls : List Call}
    (h : Logs (op :: ops) calls todo) : (calls = [] ∧ todo = op :: ops) ∨ Logs ops calls todo := by
  rcases h.cons_cases with h | ⟨calls₁, calls₂, inserted, hdoes, rfl, h⟩
  · exact .inl h
  · rcases hop with rfl | rfl | rfl
    · cases hdoes
      exact .inr h
    · cases hdoes
      exact .inr h
    · cases hdoes
      exact .inr h

theorem calls_constructOutput {metadata : Metadata} {calls : List Call} (h : Logs (constructOutput metadata) calls []) :
    calls = header metadata := by
  rcases h.log_cons with ⟨-, he⟩ | ⟨calls₁, rfl, h₁⟩
  · cases he
  rcases h₁.log_cons with ⟨-, he⟩ | ⟨calls₂, rfl, h₂⟩
  · cases he
  rcases h₂.log_cons with ⟨-, he⟩ | ⟨calls₃, rfl, h₃⟩
  · cases he
  rcases h₃.silent_cons (.inl rfl) with ⟨-, he⟩ | h₄
  · cases he
  rw [h₄.of_nil.1]
  rfl

theorem Logs.mainPhase {metadata : Metadata} {body : Body ι} {calls : List Call} {todo : List Op}
    (h : Logs (mainOps sites metadata body) calls todo) : MainPhase sites metadata body calls todo := by
  rcases h.append_cases with ⟨todo₁, rfl, hconstruct⟩ | ⟨calls₁, calls₂, rfl, hconstruct, hmain⟩
  · exact .constructing hconstruct
  have hheader := calls_constructOutput hconstruct
  rcases hmain.silent_cons (.inr (.inl rfl)) with ⟨rfl, rfl⟩ | hrest
  · rw [List.append_nil]
    exact .constructing hconstruct
  rw [hheader]
  rcases hrest.append_cases with ⟨todo₁, rfl, hlife⟩ | ⟨calls₃, calls₄, rfl, hlife, hexit⟩
  · exact .running hlife
  rcases hexit.silent_cons (.inr (.inr rfl)) with ⟨rfl, rfl⟩ | hdestruct
  · rw [List.append_nil]
    exact .running hlife
  · exact .exiting hlife hdestruct

/-- What is logged to the end by `~Output`. -/
theorem destructOutput_cases {calls : List Call} {todo : List Op} (h : Logs destructOutput calls todo) :
    (calls = [] ∧ todo = destructOutput) ∨ (calls = [tEnd] ∧ (todo = [.flush] ∨ todo = [])) := by
  rcases h.log_cons with h₁ | ⟨calls₁, rfl, h₁⟩
  · exact .inl h₁
  rcases h₁.silent_cons (.inl rfl) with ⟨rfl, rfl⟩ | h₂
  · exact .inr ⟨rfl, .inl rfl⟩
  · rw [h₂.of_nil.1, h₂.of_nil.2]
    exact .inr ⟨rfl, .inr rfl⟩

/-- **What the main thread logs is balanced.** -/
theorem balanced_of_main {metadata : Metadata} {body : Body ι} {calls : List Call}
    (h : Logs (mainOps sites metadata body) calls []) : Balanced Call.token false calls := by
  generalize htodo : ([] : List Op) = todo at h
  cases h.mainPhase with
  | constructing h =>
    cases List.append_eq_nil_iff.1 htodo.symm |>.2
  | running h =>
    cases List.append_eq_nil_iff.1 htodo.symm |>.2
  | exiting hlife h =>
    rcases destructOutput_cases h with ⟨-, htodo'⟩ | ⟨rfl, -⟩
    · rw [htodo'] at htodo
      cases htodo
    · exact .skip rfl (.skip rfl (.scope rfl (balanced_of_life sites hlife).inside rfl .nil))

/-! ### The last record -/

/-- The record at the end of the process. -/
def Call.isTEnd : Call → Bool
  | .resourceUsage record => record.kind = .tEnd
  | _ => false

/-- A record of a thread, neither of the header nor of the end of the process. -/
def Call.isInner : Call → Bool
  | .resourceUsage record => record.kind ≠ .tEnd
  | .keyValue _ _ => true
  | _ => false

theorem Call.not_isTEnd_of_isInner {call : Call} (h : call.isInner = true) : call.isTEnd = false := by
  cases call with
  | resourceUsage record => simpa [Call.isInner, Call.isTEnd] using h
  | _ => rfl

/-- Operations of a thread, but not of the start or the end of the process. -/
def Op.isLife : Op → Bool
  | .log call => call.isInner
  | .possiblyFlush _ => true
  | .flush => true
  | _ => false

theorem Op.isLife_of_isInside {op : Op} (h : op.isInside = true) : op.isLife = true := by
  cases op with
  | log call =>
    cases call with
    | resourceUsage record =>
      obtain ⟨probeName, kind, numCalls⟩ := record
      cases kind with
      | tEnd => cases h
      | _ => rfl
    | keyValue key value => rfl
    | start => cases h
    | metadata m => cases h
  | possiblyFlush probeName => rfl
  | flush => rfl
  | main => cases h
  | exit => cases h

theorem isLife_life (body : Body ι) : ∀ op ∈ life sites body, op.isLife = true := by
  unfold life
  dsimp only
  split_ifs
  · simp
  · have hinside : ∀ op ∈ (body.ops sites fun _ => 0).1, op.isLife = true :=
      fun op hop => Op.isLife_of_isInside (isInside_ops sites body _ op hop)
    simp only [List.forall_mem_append]
    exact ⟨by decide, hinside, by decide⟩

/-- What is left of the life of a thread, and what has been logged, is of that kind. -/
theorem isLife_of_logs {body : Body ι} {calls : List Call} {todo : List Op} (h : Logs (life sites body) calls todo) :
    (∀ call ∈ calls, call.isInner = true) ∧ ∀ op ∈ todo, op.isLife = true := by
  obtain ⟨hcalls, htodo⟩ := h.mem
  constructor
  · intro call hcall
    rcases hcalls call hcall with hmem | ⟨probeName, rfl⟩
    · exact isLife_life sites body _ hmem
    · rfl
  · intro op hop
    rcases htodo op hop with hmem | rfl | ⟨probeName, rfl⟩
    · exact isLife_life sites body op hmem
    · rfl
    · rfl

end Programs

end Evobench.Probes

import Evobench.Library.Program
import Mathlib.Logic.Function.Basic

/-!
# Interleaved programs

Several parties run programs over one state, one operation at a time in any order.

## The model

* `Pool`: the state, what each party has still to do, and how far it has come.
* `Pool.Step`: one operation of one party. `Pool.Reaches`: the pools reached by steps that are allowed.
* `Pool.exec`: the execution of a schedule, for runs on concrete inputs.

## What is proved

Two ways to reason about one party while the others go on:

* `Prog.Respects m G Q p`: every operation that `p` can get to makes a change in `G`, whatever has been done
  to the state in between.
* `Prog.Upholds m R I Q p s`: all states of `p` from `s` on satisfy `I`, as long as the others make changes
  in `R` only (the rely condition).

Both come with rules for the ways to put programs together, and `Prog.Upholds.of_respects` leads from the
first to the second.
-/

namespace Library

/-! ### Pools -/

/-- Parties that run programs over one state. -/
structure Pool (ι Op : Type) (Ans : Op → Type) (σ ε α : Type) where
  /-- The state. -/
  state : σ
  /-- What each party has still to do. -/
  procs : ι → Prog Op Ans ε α
  /-- The number of operations that each party has performed. -/
  done : ι → ℕ

namespace Pool

variable {ι Op : Type} {Ans : Op → Type} {σ ε α : Type} [DecidableEq ι]

/-- The program of the party has ended. -/
def Ended (c : Pool ι Op Ans σ ε α) (i : ι) : Prop := ∀ o k, c.procs i ≠ .op o k

/-- One operation of the party `i`, on the machine as it sees it. -/
inductive Step (m : ι → Machine Op Ans σ) (i : ι) : Pool ι Op Ans σ ε α → Pool ι Op Ans σ ε α → Prop where
  /-- The operation that comes next. -/
  | op {c : Pool ι Op Ans σ ε α} {o : Op} {k : Ans o → Prog Op Ans ε α} {x : Ans o} {s' : σ}
      (hprog : c.procs i = .op o k) (hact : (m i).act o c.state = some (x, s')) :
      Step m i c ⟨s', Function.update c.procs i (k x), Function.update c.done i (c.done i + 1)⟩

/-- The pools reached from `c₀` by allowed steps. -/
inductive Reaches (m : ι → Machine Op Ans σ) (allowed : ι → Pool ι Op Ans σ ε α → Pool ι Op Ans σ ε α → Prop)
    (c₀ : Pool ι Op Ans σ ε α) : Pool ι Op Ans σ ε α → Prop where
  /-- The pool at the start. -/
  | start : Reaches m allowed c₀ c₀
  /-- After a step more. -/
  | step {i : ι} {c c' : Pool ι Op Ans σ ε α} (h : Reaches m allowed c₀ c) (hstep : Step m i c c')
      (hallowed : allowed i c c') : Reaches m allowed c₀ c'

/-- **Invariants**: what holds at the start and is kept by allowed steps holds in every pool reached. -/
theorem Reaches.invariant {m : ι → Machine Op Ans σ}
    {allowed : ι → Pool ι Op Ans σ ε α → Pool ι Op Ans σ ε α → Prop} {c₀ c : Pool ι Op Ans σ ε α}
    (I : Pool ι Op Ans σ ε α → Prop) (hstart : I c₀)
    (hstep : ∀ i c c', I c → Step m i c c' → allowed i c c' → I c') (h : Reaches m allowed c₀ c) : I c := by
  induction h with
  | start => exact hstart
  | step h hs ha ih => exact hstep _ _ _ ih hs ha

/-- The party `i` performs its next operation, unless it has ended or has to wait. -/
def next (m : ι → Machine Op Ans σ) (c : Pool ι Op Ans σ ε α) (i : ι) : Pool ι Op Ans σ ε α :=
  match c.procs i with
  | .op o k =>
    match (m i).act o c.state with
    | some (x, s') => ⟨s', Function.update c.procs i (k x), Function.update c.done i (c.done i + 1)⟩
    | none => c
  | _ => c

/-- The parties perform their operations in the order of the schedule. -/
def exec (m : ι → Machine Op Ans σ) (c : Pool ι Op Ans σ ε α) (schedule : List ι) : Pool ι Op Ans σ ε α :=
  schedule.foldl (next m) c

/-- Schedules whose steps are allowed, which may be shown with an invariant, lead to pools that are reached. -/
theorem reaches_exec_of {m : ι → Machine Op Ans σ} {allowed : ι → Pool ι Op Ans σ ε α → Pool ι Op Ans σ ε α → Prop}
    (I : Pool ι Op Ans σ ε α → Prop) {schedule : List ι}
    (hstep : ∀ i ∈ schedule, ∀ c c', I c → Step m i c c' → allowed i c c' ∧ I c') {c₀ c : Pool ι Op Ans σ ε α}
    (h : Reaches m allowed c₀ c) (hc : I c) : Reaches m allowed c₀ (exec m c schedule) := by
  induction schedule generalizing c with
  | nil => exact h
  | cons i rest ih =>
    have hrest := fun j hj => hstep j (List.mem_cons_of_mem _ hj)
    have hnext : Reaches m allowed c₀ (next m c i) ∧ I (next m c i) := by
      unfold next
      split
      · next o k hprog =>
        split
        · next x s' hact =>
          obtain ⟨hallowed, hc'⟩ := hstep i List.mem_cons_self _ _ hc (.op hprog hact)
          exact ⟨h.step (.op hprog hact) hallowed, hc'⟩
        · exact ⟨h, hc⟩
      · exact ⟨h, hc⟩
    exact ih hrest hnext.1 hnext.2

/-- Schedules lead to pools that are reached. -/
theorem reaches_exec {m : ι → Machine Op Ans σ} {allowed : ι → Pool ι Op Ans σ ε α → Pool ι Op Ans σ ε α → Prop}
    (hallowed : ∀ i c c', allowed i c c') {c₀ c : Pool ι Op Ans σ ε α} (h : Reaches m allowed c₀ c)
    (schedule : List ι) : Reaches m allowed c₀ (exec m c schedule) :=
  reaches_exec_of (fun _ => True) (fun _ _ _ _ _ _ => ⟨hallowed _ _ _, trivial⟩) h trivial

end Pool

/-! ### Changes that a program can make -/

namespace Prog

variable {Op : Type} {Ans : Op → Type} {σ ε ε' α β : Type}

/-- Every operation that the program can get to makes a change in `G`, whatever the states are that it meets, and it
returns values in `Q` only. -/
def Respects (m : Machine Op Ans σ) (G : σ → σ → Prop) (Q : α → Prop) : Prog Op Ans ε α → Prop
  | ret a => Q a
  | throw _ => True
  | panic _ => True
  | op o k => ∀ s x s', m.act o s = some (x, s') → G s s' ∧ Respects m G Q (k x)

variable {m : Machine Op Ans σ} {G H : σ → σ → Prop} {Q : α → Prop}

namespace Respects

theorem mono {R : α → Prop} {p : Prog Op Ans ε α} (h : Respects m G Q p) (hG : ∀ s s', G s s' → H s s')
    (hQ : ∀ a, Q a → R a) : Respects m H R p := by
  induction p with
  | ret a => exact hQ a h
  | throw e => exact h
  | panic msg => exact h
  | op o k ih =>
    intro s x s' hact
    obtain ⟨hs, hk⟩ := h s x s' hact
    exact ⟨hG s s' hs, ih x hk⟩

/-- Allow more changes. -/
theorem imp {p : Prog Op Ans ε α} (h : Respects m G Q p) (hG : ∀ s s', G s s' → H s s') : Respects m H Q p :=
  h.mono hG fun _ => id

/-- Forget what is returned. -/
theorem any {p : Prog Op Ans ε α} (h : Respects m G Q p) : Respects m G (fun _ => True) p :=
  h.mono (fun _ _ => id) fun _ _ => trivial

theorem ofExcept {r : Except ε α} (h : ∀ a, r = .ok a → Q a) :
    Respects m G Q (ofExcept r : Prog Op Ans ε α) := by
  cases r with
  | ok a => exact h a rfl
  | error e => exact trivial

theorem bind {R : β → Prop} {p : Prog Op Ans ε α} {f : α → Prog Op Ans ε β} (h : Respects m G Q p)
    (hf : ∀ a, Q a → Respects m G R (f a)) : Respects m G R (p >>= f) := by
  induction p with
  | ret a => exact hf a h
  | throw e => exact trivial
  | panic msg => exact trivial
  | op o k ih =>
    intro s x s' hact
    obtain ⟨hs, hk⟩ := h s x s' hact
    exact ⟨hs, ih x hk⟩

theorem mapErr {f : ε → ε'} {p : Prog Op Ans ε α} (h : Respects m G Q p) : Respects m G Q (p.mapErr f) := by
  induction p with
  | ret a => exact h
  | throw e => exact trivial
  | panic msg => exact trivial
  | op o k ih =>
    intro s x s' hact
    obtain ⟨hs, hk⟩ := h s x s' hact
    exact ⟨hs, ih x hk⟩

theorem attempt {p : Prog Op Ans ε α} (h : Respects m G Q p) :
    Respects m G (fun _ => True) (p.attempt : Prog Op Ans ε' (Except ε α)) := by
  induction p with
  | ret a => exact trivial
  | throw e => exact trivial
  | panic msg => exact trivial
  | op o k ih =>
    intro s x s' hact
    obtain ⟨hs, hk⟩ := h s x s' hact
    exact ⟨hs, ih x hk⟩

theorem finally_ {o : Op} {p : Prog Op Ans ε α} (h : Respects m G Q p)
    (ho : ∀ s x s', m.act o s = some (x, s') → G s s') : Respects m G Q (p.finally_ o) := by
  induction p with
  | ret a => exact fun s x s' hact => ⟨ho s x s' hact, h⟩
  | throw e => exact fun s x s' hact => ⟨ho s x s' hact, trivial⟩
  | panic msg => exact fun s x s' hact => ⟨ho s x s' hact, trivial⟩
  | op o' k ih =>
    intro s x s' hact
    obtain ⟨hs, hk⟩ := h s x s' hact
    exact ⟨hs, ih x hk⟩

end Respects

/-! ### Programs that rely on the others -/

/-- Every state of the program satisfies `I`, and at its end `Q` holds, as long as what the others do to the state
between its operations is in `R`. -/
def Upholds (m : Machine Op Ans σ) (R : σ → σ → Prop) (I : σ → Prop) (Q : Outcome ε α → σ → Prop) :
    Prog Op Ans ε α → σ → Prop
  | ret a, s => I s ∧ Q (.ok a) s
  | throw e, s => I s ∧ Q (.err e) s
  | panic msg, s => I s ∧ Q (.panic msg) s
  | op o k, s => I s ∧ ∀ t, R s t → ∀ x t', m.act o t = some (x, t') → Upholds m R I Q (k x) t'

namespace Upholds

variable {R : σ → σ → Prop} {I J : σ → Prop} {s t : σ}

theorem first {Q : Outcome ε α → σ → Prop} {p : Prog Op Ans ε α} (h : Upholds m R I Q p s) : I s := by
  cases p with
  | ret a => exact h.1
  | throw e => exact h.1
  | panic msg => exact h.1
  | op o k => exact h.1

theorem mono {Q Q' : Outcome ε α → σ → Prop} {p : Prog Op Ans ε α} (h : Upholds m R I Q p s)
    (hI : ∀ t, I t → J t) (hQ : ∀ r t, I t → Q r t → Q' r t) : Upholds m R J Q' p s := by
  induction p generalizing s with
  | ret a => exact ⟨hI _ h.1, hQ _ _ h.1 h.2⟩
  | throw e => exact ⟨hI _ h.1, hQ _ _ h.1 h.2⟩
  | panic msg => exact ⟨hI _ h.1, hQ _ _ h.1 h.2⟩
  | op o k ih => exact ⟨hI _ h.1, fun t ht x t' hact => ih x (h.2 t ht x t' hact)⟩

/-- The others may go on in the way that is relied on. -/
theorem rely {Q : Outcome ε α → σ → Prop} {p : Prog Op Ans ε α} (hR : ∀ s t u, R s t → R t u → R s u)
    (hI : ∀ s t, R s t → I s → I t) (hQ : ∀ r s t, R s t → Q r s → Q r t) (h : Upholds m R I Q p s)
    (hst : R s t) : Upholds m R I Q p t := by
  cases p with
  | ret a => exact ⟨hI s t hst h.1, hQ _ s t hst h.2⟩
  | throw e => exact ⟨hI s t hst h.1, hQ _ s t hst h.2⟩
  | panic msg => exact ⟨hI s t hst h.1, hQ _ s t hst h.2⟩
  | op o k => exact ⟨hI s t hst h.1, fun u hu => h.2 u (hR s t u hst hu)⟩

/-- One operation of the program itself. -/
theorem step {Q : Outcome ε α → σ → Prop} {o : Op} {k : Ans o → Prog Op Ans ε α} (hR : R s s)
    (h : Upholds m R I Q (op o k) s) {x : Ans o} (hact : m.act o s = some (x, t)) : Upholds m R I Q (k x) t :=
  h.2 s hR x t hact

theorem bind {Q : Outcome ε β → σ → Prop} {p : Prog Op Ans ε α} {f : α → Prog Op Ans ε β}
    (h : Upholds m R I (fun r t => match r with
      | .ok a => Upholds m R I Q (f a) t
      | .err e => Q (.err e) t
      | .panic msg => Q (.panic msg) t) p s) : Upholds m R I Q (p >>= f) s := by
  induction p generalizing s with
  | ret a => exact h.2
  | throw e => exact h
  | panic msg => exact h
  | op o k ih => exact ⟨h.1, fun t ht x t' hact => ih x (h.2 t ht x t' hact)⟩

theorem mapErr {Q : Outcome ε' α → σ → Prop} {f : ε → ε'} {p : Prog Op Ans ε α}
    (h : Upholds m R I (fun r t => match r with
      | .ok a => Q (.ok a) t
      | .err e => Q (.err (f e)) t
      | .panic msg => Q (.panic msg) t) p s) : Upholds m R I Q (p.mapErr f) s := by
  induction p generalizing s with
  | ret a => exact h
  | throw e => exact h
  | panic msg => exact h
  | op o k ih => exact ⟨h.1, fun t ht x t' hact => ih x (h.2 t ht x t' hact)⟩

theorem attempt {Q : Outcome ε' (Except ε α) → σ → Prop} {p : Prog Op Ans ε α}
    (h : Upholds m R I (fun r t => match r with
      | .ok a => Q (.ok (.ok a)) t
      | .err e => Q (.ok (.error e)) t
      | .panic msg => Q (.panic msg) t) p s) : Upholds m R I Q p.attempt s := by
  induction p generalizing s with
  | ret a => exact h
  | throw e => exact h
  | panic msg => exact h
  | op o k ih => exact ⟨h.1, fun t ht x t' hact => ih x (h.2 t ht x t' hact)⟩

theorem finally_ {Q : Outcome ε α → σ → Prop} {o : Op} {p : Prog Op Ans ε α}
    (h : Upholds m R I (fun r t => ∀ u, R t u → ∀ x u', m.act o u = some (x, u') → I u' ∧ Q r u') p s) :
    Upholds m R I Q (p.finally_ o) s := by
  induction p generalizing s with
  | ret a => exact h
  | throw e => exact h
  | panic msg => exact h
  | op o' k ih => exact ⟨h.1, fun t ht x t' hact => ih x (h.2 t ht x t' hact)⟩

/-- A program each of whose operations keeps `I` upholds it, if the others keep it, too. -/
theorem of_respects {p : Prog Op Ans ε α} (hI : ∀ s t, R s t → I s → I t)
    (h : Respects m (fun s t => I s → I t) Q p) (hs : I s) :
    Upholds m R I (fun r _ => ∀ a, r = .ok a → Q a) p s := by
  induction p generalizing s with
  | ret a =>
    refine ⟨hs, ?_⟩
    rintro _ ⟨⟩
    exact h
  | throw e => exact ⟨hs, fun _ h => nomatch h⟩
  | panic msg => exact ⟨hs, fun _ h => nomatch h⟩
  | op o k ih =>
    refine ⟨hs, fun t ht x t' hact => ?_⟩
    obtain ⟨hkeep, hk⟩ := h t x t' hact
    exact ih x hk (hkeep (hI s t ht hs))

end Upholds

end Prog

end Library

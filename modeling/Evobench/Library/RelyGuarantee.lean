import Evobench.Library.Program
import Mathlib.Logic.Relation

/-!
# Rely and guarantee

A program that runs among others is judged by the changes that it makes itself, as long as the others make
changes of a given kind only.

## The model

* `Prog.Guarantees m B G Q p s`: from `s` on, every operation of `p` makes a change in `G`, and `p` ends in
  `Q`, whatever changes in `B` the others make between its operations.
* `Prog.RunsAmong m B p s r t`: a run of `p` on its own, with changes in `B` between its operations.

## What is proved

* `Guarantees.op`: one operation, by an assertion that the others keep.
* `Guarantees.bind`, `Guarantees.mapErr`, `Guarantees.attempt`, `Guarantees.finally_`: the ways to put programs
  together.
* `Guarantees.own` and `Guarantees.env`: what is left to judge after an operation of the program, and after a
  change made by the others. With them the judgement is an invariant of any interleaving.
* `Guarantees.runsAmong`: what a run among the others ends in.
-/

namespace Library.Prog

variable {Op : Type} {Ans : Op → Type} {σ ε ε' α β : Type}

/-- Among changes in `B`, the operations of the program make changes in `G`, and at its end `Q` holds. -/
def Guarantees (m : Machine Op Ans σ) (B G : σ → σ → Prop) (Q : Outcome ε α → σ → Prop) :
    Prog Op Ans ε α → σ → Prop
  | ret a, s => Q (.ok a) s
  | throw e, s => Q (.err e) s
  | panic msg, s => Q (.panic msg) s
  | op o k, s => ∀ t, Relation.ReflTransGen B s t → ∀ x t', m.act o t = some (x, t') →
      G t t' ∧ Guarantees m B G Q (k x) t'

variable {m : Machine Op Ans σ} {B G H : σ → σ → Prop} {s t : σ}

/-- The program ends so, among changes in `B` that the others make before its operations. -/
inductive RunsAmong (m : Machine Op Ans σ) (B : σ → σ → Prop) : Prog Op Ans ε α → σ → Outcome ε α → σ → Prop where
  /-- It has ended with a value. -/
  | ret (a : α) (s : σ) : RunsAmong m B (ret a) s (.ok a) s
  /-- It has ended with an error. -/
  | throw (e : ε) (s : σ) : RunsAmong m B (throw e) s (.err e) s
  /-- It has ended in a panic. -/
  | panic (msg : String) (s : σ) : RunsAmong m B (panic msg) s (.panic msg) s
  /-- It performs an operation, after what the others have done. -/
  | op {o : Op} {k : Ans o → Prog Op Ans ε α} {s t t' u : σ} {x : Ans o} {r : Outcome ε α}
      (hothers : Relation.ReflTransGen B s t) (hact : m.act o t = some (x, t')) (hrest : RunsAmong m B (k x) t' r u) :
      RunsAmong m B (op o k) s r u

/-- What each change keeps, all of them keep. -/
theorem keeps_reflTransGen {P : σ → Prop} (hP : ∀ t t', B t t' → P t → P t') (h : Relation.ReflTransGen B s t)
    (hs : P s) : P t := by
  induction h with
  | refl => exact hs
  | tail _ hstep ih => exact hP _ _ hstep ih

namespace Guarantees

/-- **One operation**, with an assertion that the others keep. -/
theorem op {Q : Outcome ε α → σ → Prop} {o : Op} {k : Ans o → Prog Op Ans ε α} {P : σ → Prop}
    (hP : ∀ t t', B t t' → P t → P t') (hs : P s)
    (h : ∀ t x t', P t → m.act o t = some (x, t') → G t t' ∧ Guarantees m B G Q (k x) t') :
    Guarantees m B G Q (Prog.op o k) s :=
  fun t ht x t' hact => h t x t' (keeps_reflTransGen hP ht hs) hact

theorem mono {Q Q' : Outcome ε α → σ → Prop} {p : Prog Op Ans ε α} (h : Guarantees m B G Q p s)
    (hG : ∀ t t', G t t' → H t t') (hQ : ∀ r t, Q r t → Q' r t) : Guarantees m B H Q' p s := by
  induction p generalizing s with
  | ret a => exact hQ _ _ h
  | throw e => exact hQ _ _ h
  | panic msg => exact hQ _ _ h
  | op o k ih =>
    intro t ht x t' hact
    obtain ⟨hown, hrest⟩ := h t ht x t' hact
    exact ⟨hG t t' hown, ih x hrest⟩

/-- Weaken the condition at the end only. -/
theorem imp {Q Q' : Outcome ε α → σ → Prop} {p : Prog Op Ans ε α} (h : Guarantees m B G Q p s)
    (hQ : ∀ r t, Q r t → Q' r t) : Guarantees m B G Q' p s := h.mono (fun _ _ => id) hQ

theorem bind {Q : Outcome ε β → σ → Prop} {p : Prog Op Ans ε α} {f : α → Prog Op Ans ε β}
    (h : Guarantees m B G (fun r t => match r with
      | .ok a => Guarantees m B G Q (f a) t
      | .err e => Q (.err e) t
      | .panic msg => Q (.panic msg) t) p s) : Guarantees m B G Q (p >>= f) s := by
  induction p generalizing s with
  | ret a => exact h
  | throw e => exact h
  | panic msg => exact h
  | op o k ih => exact fun t ht x t' hact => ⟨(h t ht x t' hact).1, ih x (h t ht x t' hact).2⟩

theorem mapErr {Q : Outcome ε' α → σ → Prop} {f : ε → ε'} {p : Prog Op Ans ε α}
    (h : Guarantees m B G (fun r t => match r with
      | .ok a => Q (.ok a) t
      | .err e => Q (.err (f e)) t
      | .panic msg => Q (.panic msg) t) p s) : Guarantees m B G Q (p.mapErr f) s := by
  induction p generalizing s with
  | ret a => exact h
  | throw e => exact h
  | panic msg => exact h
  | op o k ih => exact fun t ht x t' hact => ⟨(h t ht x t' hact).1, ih x (h t ht x t' hact).2⟩

theorem attempt {Q : Outcome ε' (Except ε α) → σ → Prop} {p : Prog Op Ans ε α}
    (h : Guarantees m B G (fun r t => match r with
      | .ok a => Q (.ok (.ok a)) t
      | .err e => Q (.ok (.error e)) t
      | .panic msg => Q (.panic msg) t) p s) : Guarantees m B G Q p.attempt s := by
  induction p generalizing s with
  | ret a => exact h
  | throw e => exact h
  | panic msg => exact h
  | op o k ih => exact fun t ht x t' hact => ⟨(h t ht x t' hact).1, ih x (h t ht x t' hact).2⟩

/-- In the scope of a guard, when the others keep what holds at the end of the scope. -/
theorem finally_ {Q Q' : Outcome ε α → σ → Prop} {o : Op} {p : Prog Op Ans ε α}
    (hQ' : ∀ r t t', B t t' → Q' r t → Q' r t')
    (ho : ∀ r t x t', Q' r t → m.act o t = some (x, t') → G t t' ∧ Q r t')
    (h : Guarantees m B G Q' p s) : Guarantees m B G Q (p.finally_ o) s := by
  induction p generalizing s with
  | ret a => exact .op (hQ' _) h (ho _)
  | throw e => exact .op (hQ' _) h (ho _)
  | panic msg => exact .op (hQ' _) h (ho _)
  | op o' k ih => exact fun t ht x t' hact => ⟨(h t ht x t' hact).1, ih x (h t ht x t' hact).2⟩

/-- **The program's own operation**: it makes a change in `G`, and the rest is judged from there. -/
theorem own {Q : Outcome ε α → σ → Prop} {o : Op} {k : Ans o → Prog Op Ans ε α} {x : Ans o}
    (h : Guarantees m B G Q (Prog.op o k) s) (hact : m.act o s = some (x, t)) :
    G s t ∧ Guarantees m B G Q (k x) t :=
  h s .refl x t hact

/-- **A change made by the others**, when they keep what holds at the end. -/
theorem env {Q : Outcome ε α → σ → Prop} {p : Prog Op Ans ε α} (hQ : ∀ r s t, B s t → Q r s → Q r t)
    (h : Guarantees m B G Q p s) (hst : B s t) : Guarantees m B G Q p t := by
  cases p with
  | ret a => exact hQ _ s t hst h
  | throw e => exact hQ _ s t hst h
  | panic msg => exact hQ _ s t hst h
  | op o k => exact fun u hu => h u (.head hst hu)

/-- **The end of a run** among the others. -/
theorem runsAmong {Q : Outcome ε α → σ → Prop} {p : Prog Op Ans ε α} {r : Outcome ε α} (h : Guarantees m B G Q p s)
    (hrun : RunsAmong m B p s r t) : Q r t := by
  induction hrun with
  | ret a s => exact h
  | throw e s => exact h
  | panic msg s => exact h
  | op hothers hact hrest ih => exact ih (h _ hothers _ _ hact).2

end Guarantees

/-- A run in which the others do nothing. -/
theorem runsAmong_of_run {p : Prog Op Ans ε α} {r : Outcome ε α} (h : p.run m s = some (r, t)) : RunsAmong m B p s r t := by
  induction p generalizing s with
  | ret a =>
    cases h
    exact .ret a _
  | throw e =>
    cases h
    exact .throw e _
  | panic msg =>
    cases h
    exact .panic msg _
  | op o k ih =>
    obtain ⟨⟨x, u⟩, hact, hrest⟩ := Option.bind_eq_some_iff.1 h
    exact .op .refl hact (ih x hrest)

end Library.Prog

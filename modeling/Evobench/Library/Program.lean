import Mathlib.Algebra.Order.Ring.Int
import Mathlib.Logic.Basic
import Mathlib.Data.List.Basic

/-!
# Sequential programs over the operations of a machine

A program is a tree: it has ended (with a value, an error or a panic), or it performs one operation
and continues with the answer. What an operation does is said by a `Machine` over some state, so that
one program text can be run on its own here, and interleaved with others elsewhere.

## The model

* `Outcome`: how a computation ends. Errors are values that `?` passes on, a panic is not.
* `Prog`: the program tree, with its monad (`bind`), the scope guard (`finally`), and `attempt`, which
  turns an error into a value.
* `Machine.act`: the effect of an operation; `none` where the operation has to wait.
* `Prog.run`, `Prog.visited`: the result of a run, and every state the run passes through.

## What is proved

`Prog.Holds m I Q p s` says that all states that `p` passes through from `s` satisfy `I`, and that it
ends in `Q`. It is exactly that (`Prog.holds_iff`), and it is compositional: `Prog.holds_bind`,
`Prog.holds_finally`, `Prog.holds_attempt`, and `Prog.holds_forEach` for a loop with an invariant.
-/

namespace Library

/-! ### Outcomes -/

/-- How a computation ends. -/
inductive Outcome (ε α : Type) where
  /-- It returns a value. -/
  | ok (a : α)
  /-- It returns an error. -/
  | err (e : ε)
  /-- It panics. -/
  | panic (msg : String)
deriving DecidableEq, Repr

namespace Outcome

variable {ε ε' α β : Type}

/-- The computation returns a value. -/
def isOk : Outcome ε α → Bool
  | ok _ => true
  | _ => false

/-- The computation panics. -/
def isPanic : Outcome ε α → Bool
  | panic _ => true
  | _ => false

/-- Continue after a value. -/
protected def bind : Outcome ε α → (α → Outcome ε β) → Outcome ε β
  | ok a, f => f a
  | err e, _ => err e
  | panic msg, _ => panic msg

/-- A `Result` as an outcome. -/
def ofExcept : Except ε α → Outcome ε α
  | .ok a => ok a
  | .error e => err e

/-- Wrap the error. -/
def mapErr (f : ε → ε') : Outcome ε α → Outcome ε' α
  | ok a => ok a
  | err e => err (f e)
  | panic msg => panic msg

instance : Monad (Outcome ε) where
  pure := ok
  bind := Outcome.bind

@[simp] theorem pure_eq (a : α) : (pure a : Outcome ε α) = ok a := rfl
@[simp] theorem ok_bind (a : α) (f : α → Outcome ε β) : (ok a >>= f) = f a := rfl
@[simp] theorem err_bind (e : ε) (f : α → Outcome ε β) : (err e >>= f) = err e := rfl
@[simp] theorem panic_bind (msg : String) (f : α → Outcome ε β) : (panic msg >>= f) = panic msg := rfl

/-- A value at the end comes from a value before. -/
theorem bind_eq_ok {x : Outcome ε α} {f : α → Outcome ε β} {b : β} :
    (x >>= f) = ok b ↔ ∃ a, x = ok a ∧ f a = ok b := by
  cases x with
  | ok a => simp
  | err e => simp
  | panic msg => simp

/-- A panic at the end comes from one of the two parts. -/
theorem bind_eq_panic {x : Outcome ε α} {f : α → Outcome ε β} {msg : String} :
    (x >>= f) = panic msg ↔ x = panic msg ∨ ∃ a, x = ok a ∧ f a = panic msg := by
  cases x with
  | ok a => simp
  | err e => simp
  | panic msg' => simp

theorem ofExcept_ne_panic {x : Except ε α} {msg : String} : ofExcept x ≠ panic msg := by
  cases x with
  | ok a => simp [ofExcept]
  | error e => simp [ofExcept]

instance : LawfulMonad (Outcome ε) :=
  LawfulMonad.mk' _ (fun x => by cases x <;> rfl) (fun _ _ => rfl) (fun x _ _ => by cases x <;> rfl)

end Outcome

/-- A value at the end comes from a value before. -/
theorem except_bind_eq_ok {ε α β : Type} {x : Except ε α} {f : α → Except ε β} {b : β} :
    (x >>= f) = .ok b ↔ ∃ a, x = .ok a ∧ f a = .ok b := by
  cases x with
  | ok a =>
    constructor
    · intro h
      exact ⟨a, rfl, h⟩
    · rintro ⟨a', ha, h⟩
      cases ha
      exact h
  | error e =>
    constructor
    · intro h
      cases h
    · rintro ⟨a, ha, -⟩
      cases ha

theorem mapError_eq_ok {ε ε' α : Type} {x : Except ε α} {f : ε → ε'} {a : α} : x.mapError f = .ok a ↔ x = .ok a := by
  cases x with
  | ok a' => simp [Except.mapError]
  | error e => simp [Except.mapError]

/-! ### Programs -/

/-- A program over the operations `Op`, where `Ans o` is the type of the answers to `o`. -/
inductive Prog (Op : Type) (Ans : Op → Type) (ε α : Type) : Type where
  /-- End with a value. -/
  | ret (a : α)
  /-- End with an error. -/
  | throw (e : ε)
  /-- End in a panic. -/
  | panic (msg : String)
  /-- Perform an operation and continue with its answer. -/
  | op (o : Op) (k : Ans o → Prog Op Ans ε α)

namespace Prog

variable {Op : Type} {Ans : Op → Type} {ε ε' α β γ : Type}

/-- Run one program, then another with its value; errors and panics end both. -/
protected def bind : Prog Op Ans ε α → (α → Prog Op Ans ε β) → Prog Op Ans ε β
  | ret a, f => f a
  | throw e, _ => throw e
  | panic msg, _ => panic msg
  | op o k, f => op o fun x => (k x).bind f

instance : Monad (Prog Op Ans ε) where
  pure := ret
  bind := Prog.bind

@[simp] theorem pure_eq (a : α) : (pure a : Prog Op Ans ε α) = ret a := rfl
@[simp] theorem ret_bind (a : α) (f : α → Prog Op Ans ε β) : (ret a >>= f) = f a := rfl
@[simp] theorem throw_bind (e : ε) (f : α → Prog Op Ans ε β) : (throw e >>= f) = throw e := rfl
@[simp] theorem panic_bind (msg : String) (f : α → Prog Op Ans ε β) : (panic msg >>= f) = panic msg := rfl
@[simp] theorem op_bind (o : Op) (k : Ans o → Prog Op Ans ε α) (f : α → Prog Op Ans ε β) :
    (op o k >>= f) = op o fun x => k x >>= f := rfl

theorem bind_ret (p : Prog Op Ans ε α) : (p >>= ret) = p := by
  induction p with
  | ret a => rfl
  | throw e => rfl
  | panic msg => rfl
  | op o k ih => exact congrArg (op o) (funext ih)

theorem bind_bind (p : Prog Op Ans ε α) (f : α → Prog Op Ans ε β) (g : β → Prog Op Ans ε γ) :
    (p >>= f) >>= g = p >>= fun a => f a >>= g := by
  induction p with
  | ret a => rfl
  | throw e => rfl
  | panic msg => rfl
  | op o k ih => exact congrArg (op o) (funext ih)

instance : LawfulMonad (Prog Op Ans ε) := LawfulMonad.mk' _ bind_ret (fun _ _ => rfl) bind_bind

/-- The program that ends with a given outcome. -/
def ofOutcome : Outcome ε α → Prog Op Ans ε α
  | .ok a => ret a
  | .err e => throw e
  | .panic msg => panic msg

/-- End with the value of a `Result`, or with its error. -/
def ofExcept : Except ε α → Prog Op Ans ε α
  | .ok a => ret a
  | .error e => throw e

/-- Wrap the error (`map_err`, or the conversion that `?` makes). -/
def mapErr (f : ε → ε') : Prog Op Ans ε α → Prog Op Ans ε' α
  | ret a => ret a
  | throw e => throw (f e)
  | panic msg => panic msg
  | op o k => op o fun x => (k x).mapErr f

/-- Turn an error into a value, for a caller that looks at the `Result` itself. -/
def attempt : Prog Op Ans ε α → Prog Op Ans ε' (Except ε α)
  | ret a => ret (.ok a)
  | throw e => ret (.error e)
  | panic msg => panic msg
  | op o k => op o fun x => (k x).attempt

/-- Run a program in the scope of a guard: however the program ends, `o` is performed at its end. -/
def finally_ (o : Op) : Prog Op Ans ε α → Prog Op Ans ε α
  | ret a => op o fun _ => ret a
  | throw e => op o fun _ => throw e
  | panic msg => op o fun _ => panic msg
  | op o' k => op o' fun x => (k x).finally_ o

/-- Run a program for each element of a list, in order. -/
def forEach (xs : List β) (f : β → Prog Op Ans ε Unit) : Prog Op Ans ε Unit :=
  match xs with
  | [] => ret ()
  | x :: xs => f x >>= fun _ => forEach xs f

end Prog

/-! ### Machines and runs -/

/-- What the operations do to a state, and what they answer. -/
structure Machine (Op : Type) (Ans : Op → Type) (σ : Type) where
  /-- The effect of an operation in a state; `none` if it has to wait there. -/
  act : (o : Op) → σ → Option (Ans o × σ)

namespace Prog

variable {Op : Type} {Ans : Op → Type} {σ ε ε' α β : Type}

/-- The outcome of a run and its last state; `none` if the run gets to wait for ever. -/
def run (m : Machine Op Ans σ) : Prog Op Ans ε α → σ → Option (Outcome ε α × σ)
  | ret a, s => some (.ok a, s)
  | throw e, s => some (.err e, s)
  | panic msg, s => some (.panic msg, s)
  | op o k, s => (m.act o s).bind fun r => (k r.1).run m r.2

/-- The states that a run passes through, the first one included. -/
def visited (m : Machine Op Ans σ) : Prog Op Ans ε α → σ → List σ
  | ret _, s => [s]
  | throw _, s => [s]
  | panic _, s => [s]
  | op o k, s => s :: ((m.act o s).map fun r => (k r.1).visited m r.2).getD []

/-- Every state that the program passes through satisfies `I`, and if it ends then it ends in `Q`. -/
def Holds (m : Machine Op Ans σ) (I : σ → Prop) (Q : Outcome ε α → σ → Prop) : Prog Op Ans ε α → σ → Prop
  | ret a, s => I s ∧ Q (.ok a) s
  | throw e, s => I s ∧ Q (.err e) s
  | panic msg, s => I s ∧ Q (.panic msg) s
  | op o k, s => I s ∧ ∀ x s', m.act o s = some (x, s') → Holds m I Q (k x) s'

/-- What has to hold when the first part of `p >>= f` ends, for `Q` to hold at the end of `f`. -/
def Then (m : Machine Op Ans σ) (I : σ → Prop) (Q : Outcome ε β → σ → Prop) (f : α → Prog Op Ans ε β) :
    Outcome ε α → σ → Prop
  | .ok a, s => Holds m I Q (f a) s
  | .err e, s => Q (.err e) s
  | .panic msg, s => Q (.panic msg) s

variable {m : Machine Op Ans σ} {I J : σ → Prop} {s : σ}

@[simp] theorem holds_ret {Q : Outcome ε α → σ → Prop} {a : α} :
    Holds m I Q (ret a) s ↔ I s ∧ Q (.ok a) s := Iff.rfl

@[simp] theorem holds_throw {Q : Outcome ε α → σ → Prop} {e : ε} :
    Holds m I Q (throw e) s ↔ I s ∧ Q (.err e) s := Iff.rfl

@[simp] theorem holds_panic {Q : Outcome ε α → σ → Prop} {msg : String} :
    Holds m I Q (panic msg) s ↔ I s ∧ Q (.panic msg) s := Iff.rfl

theorem holds_op {Q : Outcome ε α → σ → Prop} {o : Op} {k : Ans o → Prog Op Ans ε α} :
    Holds m I Q (op o k) s ↔ I s ∧ ∀ x s', m.act o s = some (x, s') → Holds m I Q (k x) s' := Iff.rfl

/-- After an operation that does not wait. -/
theorem holds_op_of_act {Q : Outcome ε α → σ → Prop} {o : Op} {k : Ans o → Prog Op Ans ε α} {x : Ans o} {t : σ}
    (hI : I s) (hact : m.act o s = some (x, t)) (h : Holds m I Q (k x) t) : Holds m I Q (op o k) s := by
  refine ⟨hI, fun y u hy => ?_⟩
  obtain ⟨rfl, rfl⟩ := Prod.mk.inj (Option.some.inj (hact.symm.trans hy))
  exact h

theorem Holds.first {Q : Outcome ε α → σ → Prop} {p : Prog Op Ans ε α} (h : Holds m I Q p s) : I s := by
  cases p with
  | ret a => exact h.1
  | throw e => exact h.1
  | panic msg => exact h.1
  | op o k => exact h.1

/-- **`Holds` says what it should**: it speaks of all states passed, and of the end. -/
theorem holds_iff {Q : Outcome ε α → σ → Prop} (p : Prog Op Ans ε α) :
    Holds m I Q p s ↔ (∀ t ∈ p.visited m s, I t) ∧ ∀ r t, p.run m s = some (r, t) → Q r t := by
  induction p generalizing s with
  | ret a => simp [visited, run]
  | throw e => simp [visited, run]
  | panic msg => simp [visited, run]
  | op o k ih =>
    rw [holds_op]
    cases hact : m.act o s with
    | none => simp [visited, run, hact]
    | some r =>
      obtain ⟨x, s'⟩ := r
      simp only [visited, run, hact, Option.map_some, Option.getD_some, Option.bind_some, Option.some.injEq,
        Prod.mk.injEq, List.mem_cons, forall_eq_or_imp]
      constructor
      · rintro ⟨hI, h⟩
        obtain ⟨h1, h2⟩ := (ih x).1 (h x s' ⟨rfl, rfl⟩)
        exact ⟨⟨hI, h1⟩, h2⟩
      · rintro ⟨⟨hI, h1⟩, h2⟩
        refine ⟨hI, ?_⟩
        rintro _ _ ⟨rfl, rfl⟩
        exact (ih x).2 ⟨h1, h2⟩

theorem Holds.mono {Q R : Outcome ε α → σ → Prop} {p : Prog Op Ans ε α} (h : Holds m I Q p s)
    (hI : ∀ t, I t → J t) (hQ : ∀ r t, Q r t → R r t) : Holds m J R p s := by
  induction p generalizing s with
  | ret a => exact ⟨hI _ h.1, hQ _ _ h.2⟩
  | throw e => exact ⟨hI _ h.1, hQ _ _ h.2⟩
  | panic msg => exact ⟨hI _ h.1, hQ _ _ h.2⟩
  | op o k ih => exact ⟨hI _ h.1, fun x s' hx => ih x (h.2 x s' hx)⟩

/-- Weaken the condition at the end only. -/
theorem Holds.imp {Q R : Outcome ε α → σ → Prop} {p : Prog Op Ans ε α} (h : Holds m I Q p s)
    (hQ : ∀ r t, Q r t → R r t) : Holds m I R p s := h.mono (fun _ => id) hQ

theorem Holds.and {Q R : Outcome ε α → σ → Prop} {p : Prog Op Ans ε α} (h : Holds m I Q p s)
    (h' : Holds m J R p s) : Holds m (fun t => I t ∧ J t) (fun r t => Q r t ∧ R r t) p s := by
  induction p generalizing s with
  | ret a => exact ⟨⟨h.1, h'.1⟩, h.2, h'.2⟩
  | throw e => exact ⟨⟨h.1, h'.1⟩, h.2, h'.2⟩
  | panic msg => exact ⟨⟨h.1, h'.1⟩, h.2, h'.2⟩
  | op o k ih => exact ⟨⟨h.1, h'.1⟩, fun x s' hx => ih x (h.2 x s' hx) (h'.2 x s' hx)⟩

/-- What every operation preserves, every program preserves. -/
theorem holds_of_act (hstep : ∀ o t x t', m.act o t = some (x, t') → I t → I t') (p : Prog Op Ans ε α)
    (h : I s) : Holds m I (fun _ t => I t) p s := by
  induction p generalizing s with
  | ret a => exact ⟨h, h⟩
  | throw e => exact ⟨h, h⟩
  | panic msg => exact ⟨h, h⟩
  | op o k ih => exact ⟨h, fun x s' hx => ih x (hstep o s x s' hx h)⟩

/-- The rule for sequencing. -/
theorem holds_bind {Q : Outcome ε β → σ → Prop} {p : Prog Op Ans ε α} {f : α → Prog Op Ans ε β} :
    Holds m I Q (p >>= f) s ↔ Holds m I (Then m I Q f) p s := by
  induction p generalizing s with
  | ret a => exact ⟨fun h => ⟨h.first, h⟩, fun h => h.2⟩
  | throw e => exact Iff.rfl
  | panic msg => exact Iff.rfl
  | op o k ih =>
    rw [op_bind, holds_op, holds_op]
    exact and_congr_right fun _ => forall_congr' fun x => forall_congr' fun s' => imp_congr_right fun _ => ih x

theorem holds_mapErr {Q : Outcome ε' α → σ → Prop} {f : ε → ε'} {p : Prog Op Ans ε α} :
    Holds m I Q (p.mapErr f) s ↔ Holds m I (fun r t => match r with
      | .ok a => Q (.ok a) t
      | .err e => Q (.err (f e)) t
      | .panic msg => Q (.panic msg) t) p s := by
  induction p generalizing s with
  | ret a => exact Iff.rfl
  | throw e => exact Iff.rfl
  | panic msg => exact Iff.rfl
  | op o k ih =>
    exact and_congr_right fun _ => forall_congr' fun x => forall_congr' fun s' => imp_congr_right fun _ => ih x

theorem holds_attempt {Q : Outcome ε' (Except ε α) → σ → Prop} {p : Prog Op Ans ε α} :
    Holds m I Q p.attempt s ↔ Holds m I (fun r t => match r with
      | .ok a => Q (.ok (.ok a)) t
      | .err e => Q (.ok (.error e)) t
      | .panic msg => Q (.panic msg) t) p s := by
  induction p generalizing s with
  | ret a => exact Iff.rfl
  | throw e => exact Iff.rfl
  | panic msg => exact Iff.rfl
  | op o k ih =>
    exact and_congr_right fun _ => forall_congr' fun x => forall_congr' fun s' => imp_congr_right fun _ => ih x

/-- The rule for a guarded scope: the guard's operation runs before the end. -/
theorem holds_finally {Q : Outcome ε α → σ → Prop} {o : Op} {p : Prog Op Ans ε α} :
    Holds m I Q (p.finally_ o) s ↔
      Holds m I (fun r t => ∀ x t', m.act o t = some (x, t') → I t' ∧ Q r t') p s := by
  induction p generalizing s with
  | ret a => exact Iff.rfl
  | throw e => exact Iff.rfl
  | panic msg => exact Iff.rfl
  | op o k ih =>
    exact and_congr_right fun _ => forall_congr' fun x => forall_congr' fun s' => imp_congr_right fun _ => ih x

/-- The rule for a loop: `Inv rest` holds whenever the elements `rest` are still to come. -/
theorem holds_forEach {Q : Outcome ε Unit → σ → Prop} {f : β → Prog Op Ans ε Unit} (Inv : List β → σ → Prop)
    (hstep : ∀ x rest t, Inv (x :: rest) t → Holds m I (fun r u => match r with
      | .ok _ => Inv rest u
      | .err e => Q (.err e) u
      | .panic msg => Q (.panic msg) u) (f x) t)
    (hend : ∀ t, Inv [] t → I t ∧ Q (.ok ()) t) {xs : List β} (h : Inv xs s) :
    Holds m I Q (forEach xs f) s := by
  induction xs generalizing s with
  | nil => exact hend s h
  | cons x rest ih =>
    rw [forEach, holds_bind]
    refine (hstep x rest s h).imp fun r t hr => ?_
    cases r with
    | ok _ => exact ih hr
    | err e => exact hr
    | panic msg => exact hr

/-! ### Sequencing and invariants -/

/-- The run of two programs in sequence. -/
theorem run_bind (p : Prog Op Ans ε α) (f : α → Prog Op Ans ε β) :
    (p >>= f).run m s = (p.run m s).bind fun x => match x with
      | (.ok a, t) => (f a).run m t
      | (.err e, t) => some (.err e, t)
      | (.panic msg, t) => some (.panic msg, t) := by
  induction p generalizing s with
  | ret a => rfl
  | throw e => rfl
  | panic msg => rfl
  | op o k ih =>
    rw [op_bind, run, run, Option.bind_assoc]
    exact congrArg _ (funext fun r => ih r.1)

/-- Two programs in sequence return if both do. -/
theorem run_bind_eq_ok {p : Prog Op Ans ε α} {f : α → Prog Op Ans ε β} {b : β} {t : σ} :
    (p >>= f).run m s = some (.ok b, t) ↔
      ∃ a u, p.run m s = some (.ok a, u) ∧ (f a).run m u = some (.ok b, t) := by
  rw [run_bind, Option.bind_eq_some_iff]
  constructor
  · rintro ⟨⟨a | e | msg, u⟩, hp, hf⟩
    · exact ⟨a, u, hp, hf⟩
    · cases hf
    · cases hf
  · rintro ⟨a, u, hp, hf⟩
    exact ⟨_, hp, hf⟩

/-- The program keeps `I`, from its start to its end. -/
def Keeps (m : Machine Op Ans σ) (I : σ → Prop) (p : Prog Op Ans ε α) : Prop :=
  ∀ s, I s → Holds m (fun _ => True) (fun _ t => I t) p s

namespace Keeps

theorem run {p : Prog Op Ans ε α} (h : Keeps m I p) {r : Outcome ε α} {t : σ} (hs : I s)
    (hrun : p.run m s = some (r, t)) : I t := ((holds_iff p).1 (h s hs)).2 r t hrun

theorem ret (a : α) : Keeps m I (ret a : Prog Op Ans ε α) := fun _ hs => ⟨trivial, hs⟩

theorem throw (e : ε) : Keeps m I (throw e : Prog Op Ans ε α) := fun _ hs => ⟨trivial, hs⟩

theorem panic (msg : String) : Keeps m I (panic msg : Prog Op Ans ε α) := fun _ hs => ⟨trivial, hs⟩

theorem ofOutcome (r : Outcome ε α) : Keeps m I (ofOutcome r : Prog Op Ans ε α) := by
  cases r with
  | ok a => exact ret a
  | err e => exact throw e
  | panic msg => exact panic msg

theorem ofExcept (r : Except ε α) : Keeps m I (ofExcept r : Prog Op Ans ε α) := by
  cases r with
  | ok a => exact ret a
  | error e => exact throw e

theorem bind {p : Prog Op Ans ε α} {f : α → Prog Op Ans ε β} (h : Keeps m I p) (hf : ∀ a, Keeps m I (f a)) :
    Keeps m I (p >>= f) := by
  intro s hs
  refine holds_bind.2 ((h s hs).imp fun r t ht => ?_)
  cases r with
  | ok a => exact hf a t ht
  | err e => exact ht
  | panic msg => exact ht

theorem mapErr {f : ε → ε'} {p : Prog Op Ans ε α} (h : Keeps m I p) : Keeps m I (p.mapErr f) := by
  intro s hs
  refine holds_mapErr.2 ((h s hs).imp fun r t ht => ?_)
  cases r with
  | ok a => exact ht
  | err e => exact ht
  | panic msg => exact ht

theorem attempt {p : Prog Op Ans ε α} (h : Keeps m I p) :
    Keeps m I (p.attempt : Prog Op Ans ε' (Except ε α)) := by
  intro s hs
  refine holds_attempt.2 ((h s hs).imp fun r t ht => ?_)
  cases r with
  | ok a => exact ht
  | err e => exact ht
  | panic msg => exact ht

theorem finally_ {o : Op} {p : Prog Op Ans ε α} (h : Keeps m I p)
    (ho : ∀ s x t, I s → m.act o s = some (x, t) → I t) : Keeps m I (p.finally_ o) := by
  intro s hs
  refine holds_finally.2 ((h s hs).imp fun r t ht x t' hx => ?_)
  exact ⟨trivial, ho t x t' ht hx⟩

end Keeps

end Prog

/-! ### Lists that correspond -/

theorem exists_of_forall₂ {α β : Type} {R : α → β → Prop} {l : List α} {l' : List β} (h : List.Forall₂ R l l') {b : β}
    (hb : b ∈ l') : ∃ a ∈ l, R a b := by
  induction h with
  | nil => cases hb
  | cons hab _ ih =>
    rcases List.mem_cons.1 hb with rfl | hb
    · exact ⟨_, List.mem_cons_self, hab⟩
    · obtain ⟨a, ha, hR⟩ := ih hb
      exact ⟨a, List.mem_cons_of_mem _ ha, hR⟩

theorem exists_of_forall₂_left {α β : Type} {R : α → β → Prop} {l : List α} {l' : List β} (h : List.Forall₂ R l l') {a : α}
    (ha : a ∈ l) : ∃ b ∈ l', R a b := by
  induction h with
  | nil => cases ha
  | cons hab _ ih =>
    rcases List.mem_cons.1 ha with rfl | ha
    · exact ⟨_, List.mem_cons_self, hab⟩
    · obtain ⟨b, hb, hR⟩ := ih ha
      exact ⟨b, List.mem_cons_of_mem _ hb, hR⟩

end Library

import Mathlib.Data.Multiset.Fold

/-!
# Combining values

The combination of a multiset of values by an associative and commutative operation, which is `none` if there are no
values. Unlike for `Multiset.fold` the operation needs no neutral element.
-/

namespace Library

variable {α : Type*} (op : α → α → α) [Std.Commutative op] [Std.Associative op]

/-- The combination of the values, if there are any. -/
def combine (s : Multiset α) : Option α := (s.map some).fold (Option.merge op) none

@[simp] theorem combine_zero : combine op 0 = none := rfl

@[simp] theorem combine_cons (a : α) (s : Multiset α) : combine op (a ::ₘ s) = Option.merge op (some a) (combine op s) := by
  rw [combine, Multiset.map_cons, Multiset.fold_cons_left]
  rfl

@[simp] theorem combine_singleton (a : α) : combine op {a} = some a := by
  rw [← Multiset.cons_zero, combine_cons, combine_zero]
  rfl

theorem combine_add (s t : Multiset α) : combine op (s + t) = Option.merge op (combine op s) (combine op t) := by
  rw [combine, Multiset.map_add]
  exact Multiset.fold_add (Option.merge op) none none (s.map some) (t.map some)

/-- Two values may be combined first. -/
theorem combine_cons_cons (a b : α) (s : Multiset α) : combine op (a ::ₘ b ::ₘ s) = combine op (op a b ::ₘ s) := by
  have hassoc : Std.Associative (Option.merge op) := inferInstance
  rw [combine_cons, combine_cons, combine_cons, ← hassoc.assoc]
  rfl

end Library

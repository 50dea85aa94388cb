import Mathlib.Data.List.MinMax

/-!
# The last maximum of a list

`List.argmax` gives the first of the elements with the greatest value, iterators that go through a list give the last one. It
has the greatest value (`maxByKey_spec`), and the values may be computed before (`maxByKey_keyed`).
-/

namespace Library

variable {α T : Type} [LinearOrder T] {key : α → T}

/-- `Iterator::max_by_key`: the last one of the elements whose key is greatest. -/
def maxByKey (key : α → T) (xs : List α) : Option α := xs.reverse.argmax key

theorem maxByKey_eq_none {xs : List α} : maxByKey key xs = none ↔ xs = [] := by
  rw [maxByKey, List.argmax_eq_none, List.reverse_eq_nil_iff]

theorem maxByKey_spec {xs : List α} {a : α} (h : maxByKey key xs = some a) : a ∈ xs ∧ ∀ b ∈ xs, key b ≤ key a :=
  ⟨List.mem_reverse.1 (List.argmax_mem h), fun _ hb => List.le_of_mem_argmax (List.mem_reverse.2 hb) h⟩

/-- The last one is taken if no other is greater. -/
theorem maxByKey_concat {xs : List α} {a : α} (h : ∀ b ∈ xs, key b ≤ key a) : maxByKey key (xs ++ [a]) = some a := by
  rw [maxByKey, List.reverse_concat, List.argmax_cons]
  cases hmax : xs.reverse.argmax key with
  | none => rfl
  | some c =>
    have hle := h c (List.mem_reverse.1 (List.argmax_mem hmax))
    exact if_neg (not_lt.2 hle)

/-- The keys may be computed before. -/
theorem maxByKey_keyed (xs : List α) :
    (maxByKey Prod.fst (xs.map fun a => (key a, a))).map Prod.snd = maxByKey key xs := by
  have hargmax : ∀ ys : List α, (ys.map fun a => (key a, a)).argmax Prod.fst = (ys.argmax key).map fun a => (key a, a) := by
    intro ys
    induction ys with
    | nil => rfl
    | cons y ys ih =>
      rw [List.map_cons, List.argmax_cons, List.argmax_cons, ih]
      cases ys.argmax key with
      | none => rfl
      | some c =>
        show (if key y < key c then some (key c, c) else some (key y, y)) = _
        show _ = Option.map _ (if key y < key c then some c else some y)
        split
        · rfl
        · rfl
  rw [maxByKey, ← List.map_reverse, hargmax, Option.map_map]
  exact Option.map_id'

end Library

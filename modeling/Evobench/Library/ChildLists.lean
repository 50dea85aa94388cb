import Mathlib.Data.List.Nodup
import Mathlib.Logic.Function.Basic

/-!
# Child lists and parent links

A forest that is stored twice: each node has a link to its parent, and a list of its children. `Mirrors`
says that the two say the same.

* `Mirrors.link`: a node without a parent gets one, and is added to the list of it.
* `Mirrors.parent_unique`: the child lists determine the links.
-/

namespace Library

variable {α : Type} [DecidableEq α]

/-- Every node is listed by its parent and by no other one, and it is listed there once. -/
def Mirrors (children : α → List α) (parent : α → Option α) : Prop :=
  ∀ p, (children p).Nodup ∧ ∀ c, c ∈ children p ↔ parent c = some p

namespace Mirrors

variable {children : α → List α} {parent parent' : α → Option α}

omit [DecidableEq α]

/-- Nothing is linked. -/
theorem empty : Mirrors (fun _ : α => []) fun _ => none := fun p => ⟨List.nodup_nil, by simp⟩

/-- The child lists determine the links. -/
theorem parent_unique (h : Mirrors children parent) (h' : Mirrors children parent') : parent = parent' := by
  funext c
  apply Option.ext
  intro p
  rw [← (h p).2 c, ← (h' p).2 c]

variable [DecidableEq α]

/-- **A new link.** -/
theorem link (h : Mirrors children parent) {p c : α} (hc : parent c = none) :
    Mirrors (Function.update children p (children p ++ [c])) (Function.update parent c (some p)) := by
  have hfresh : c ∉ children p := by simp [(h p).2 c, hc]
  intro q
  by_cases hq : q = p
  · subst hq
    refine ⟨?_, fun d => ?_⟩
    · rw [Function.update_self]
      exact List.concat_eq_append ▸ (h q).1.concat hfresh
    · by_cases hd : d = c
      · simp [hd]
      · simp [hd, (h q).2 d]
  · refine ⟨by simpa [hq] using (h q).1, fun d => ?_⟩
    by_cases hd : d = c
    · subst hd
      simp [hq, Ne.symm hq, (h q).2 d, hc]
    · simp [hq, hd, (h q).2 d]

end Mirrors

end Library

import Mathlib

/-!
# Windows one after the other

A window for every integer, half open and possibly empty, of which each one ends before the next one starts (`Windows`). A
window is the first one that ends after some point if it does and the one before it does not (`Windows.isLeast_stop`), and
likewise with starts (`Windows.isLeast_start`).
-/

namespace Library

/-- Windows, each of which ends before the next one starts. -/
structure Windows (α : Type*) [LinearOrder α] where
  /-- Where a window starts. -/
  start : ℤ → α
  /-- Where it ends. -/
  stop : ℤ → α
  /-- It does not end before it starts. -/
  start_le_stop : ∀ d, start d ≤ stop d
  /-- The next one starts later. -/
  stop_lt_start : ∀ d, stop d < start (d + 1)

namespace Windows

variable {α : Type*} [LinearOrder α] (w : Windows α)

theorem strictMono_start : StrictMono w.start :=
  strictMono_int_of_lt_succ fun d => (w.start_le_stop d).trans_lt (w.stop_lt_start d)

theorem strictMono_stop : StrictMono w.stop :=
  strictMono_int_of_lt_succ fun d => (w.stop_lt_start d).trans_le (w.start_le_stop (d + 1))

variable {w} {d d' : ℤ} {x : α}

/-- The first window that ends after a point. -/
theorem isLeast_stop (hbefore : w.stop (d - 1) ≤ x) (hafter : x < w.stop d) : IsLeast {d | x < w.stop d} d := by
  refine ⟨hafter, fun d' hd' => ?_⟩
  have hlt : d - 1 < d' := w.strictMono_stop.lt_iff_lt.1 (hbefore.trans_lt hd')
  omega

/-- The first window that starts after a point. -/
theorem isLeast_start (hbefore : w.start (d - 1) ≤ x) (hafter : x < w.start d) : IsLeast {d | x < w.start d} d := by
  refine ⟨hafter, fun d' hd' => ?_⟩
  have hlt : d - 1 < d' := w.strictMono_start.lt_iff_lt.1 (hbefore.trans_lt hd')
  omega

end Windows

end Library

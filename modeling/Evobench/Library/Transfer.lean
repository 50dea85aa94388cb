import Mathlib.Logic.Function.Basic
import Mathlib.Data.List.Nodup

/-!
# Moving entries by copying and deleting

Entries of a store are moved one after the other: each is copied to a free place first, and then deleted where it was.

* `Moved`: the store after some entries have been moved, and nothing else.
* `Kept`: the weaker fact that no entry has been lost, which also holds between the copy and the deletion.

`Moved.apply` is the step; `Moved.kept` and `Moved.kept_copy` say that nothing is lost before it and within it.
-/

namespace Library

/-- An entry with the place that it is moved to. -/
structure Move (P C : Type) where
  /-- Where the entry is. -/
  source : P
  /-- Where it goes. -/
  target : P
  /-- What it holds. -/
  content : C

variable {P C : Type}

/-- **Nothing has been lost**: an entry is at its own new place, where there was nothing, or it is where it was. -/
structure Kept (before : P → Option C) (ms : List (Move P C)) (after : P → Option C) : Prop where
  /-- An entry has one new place. -/
  sources : (ms.map Move.source).Nodup
  /-- No two entries have the same one. -/
  targets : (ms.map Move.target).Nodup
  /-- The entries. -/
  stored : ∀ m ∈ ms, before m.source = some m.content
  /-- The new places were free. -/
  free : ∀ m ∈ ms, before m.target = none
  /-- The entries have arrived. -/
  arrived : ∀ m ∈ ms, after m.target = some m.content
  /-- The others are where they were. -/
  stays : ∀ p c, before p = some c → p ∉ ms.map Move.source → after p = some c

/-- **These entries have been moved**, and nothing else has changed. -/
structure Moved (before : P → Option C) (ms : List (Move P C)) (after : P → Option C) : Prop where
  /-- An entry has one new place. -/
  sources : (ms.map Move.source).Nodup
  /-- No two entries have the same one. -/
  targets : (ms.map Move.target).Nodup
  /-- The entries. -/
  stored : ∀ m ∈ ms, before m.source = some m.content
  /-- The new places were free. -/
  free : ∀ m ∈ ms, before m.target = none
  /-- The entries have arrived. -/
  arrived : ∀ m ∈ ms, after m.target = some m.content
  /-- They are no longer where they were. -/
  left : ∀ m ∈ ms, after m.source = none
  /-- The rest is the same. -/
  rest : ∀ p, p ∉ ms.map Move.source → p ∉ ms.map Move.target → after p = before p

namespace Moved

variable {before e : P → Option C} {ms : List (Move P C)} {m : Move P C}

theorem nil (e : P → Option C) : Moved e [] e where
  sources := List.nodup_nil
  targets := List.nodup_nil
  stored := List.forall_mem_nil _
  free := List.forall_mem_nil _
  arrived := List.forall_mem_nil _
  left := List.forall_mem_nil _
  rest _ _ _ := rfl

/-- What is stored is not at a place that has been left. -/
theorem not_mem_sources (h : Moved before ms e) {p : P} {c : C} (hp : e p = some c) : p ∉ ms.map Move.source := by
  intro hmem
  obtain ⟨m, hm, rfl⟩ := List.mem_map.1 hmem
  rw [h.left m hm] at hp
  cases hp

/-- A free place is not a new place. -/
theorem not_mem_targets (h : Moved before ms e) {p : P} (hp : e p = none) : p ∉ ms.map Move.target := by
  intro hmem
  obtain ⟨m, hm, rfl⟩ := List.mem_map.1 hmem
  rw [h.arrived m hm] at hp
  cases hp

/-- Nothing is lost by moving. -/
theorem kept (h : Moved before ms e) : Kept before ms e where
  sources := h.sources
  targets := h.targets
  stored := h.stored
  free := h.free
  arrived := h.arrived
  stays p c hp hsource := by
    rw [h.rest p hsource, hp]
    intro hmem
    obtain ⟨m, hm, rfl⟩ := List.mem_map.1 hmem
    rw [h.free m hm] at hp
    cases hp

end Moved

/-! ### Steps -/

variable [DecidableEq P]

/-- The store with a copy of the entry at its new place. -/
def Move.copy (m : Move P C) (e : P → Option C) : P → Option C := Function.update e m.target (some m.content)

/-- The store with the entry moved. -/
def Move.apply (m : Move P C) (e : P → Option C) : P → Option C := Function.update (m.copy e) m.source none

namespace Moved

variable {before e : P → Option C} {ms : List (Move P C)} {m : Move P C}

/-- Nothing is lost by a copy to a free place. -/
theorem kept_copy (h : Moved before ms e) (hfree : e m.target = none) : Kept before ms (m.copy e) := by
  -- what is stored already is not overwritten
  have hsame : ∀ {p c}, e p = some c → m.copy e p = some c := by
    intro p c hp
    have hne : p ≠ m.target := by
      rintro rfl
      rw [hfree] at hp
      cases hp
    rw [Move.copy, Function.update_of_ne hne, hp]
  obtain ⟨hsources, htargets, hstored, hfree', harrived, hstays⟩ := h.kept
  exact ⟨hsources, htargets, hstored, hfree', fun m' hm' => hsame (harrived m' hm'),
    fun p c hp hsource => hsame (hstays p c hp hsource)⟩

/-- **One more entry is moved.** -/
theorem apply (h : Moved before ms e) (hstored : e m.source = some m.content) (hfree : e m.target = none)
    (hsource : m.source ∉ ms.map Move.target) (htarget : m.target ∉ ms.map Move.source) :
    Moved before (ms ++ [m]) (m.apply e) := by
  have hsource' := h.not_mem_sources hstored
  have htarget' := h.not_mem_targets hfree
  have hne : m.target ≠ m.source := by
    intro heq
    rw [heq, hstored] at hfree
    cases hfree
  -- the step touches its own two places only
  have hother : ∀ {p}, p ≠ m.source → p ≠ m.target → m.apply e p = e p := by
    intro p hs ht
    rw [Move.apply, Function.update_of_ne hs, Move.copy, Function.update_of_ne ht]
  have hself : m.apply e m.target = some m.content := by
    rw [Move.apply, Function.update_of_ne hne, Move.copy, Function.update_self]
  have hgone : m.apply e m.source = none := by rw [Move.apply, Function.update_self]
  constructor
  · rw [List.map_append, List.map_singleton, ← List.concat_eq_append]
    exact h.sources.concat hsource'
  · rw [List.map_append, List.map_singleton, ← List.concat_eq_append]
    exact h.targets.concat htarget'
  · intro m' hm'
    rcases List.mem_append.1 hm' with hm' | hm'
    · exact h.stored m' hm'
    · obtain rfl := List.mem_singleton.1 hm'
      rw [← h.rest _ hsource' hsource, hstored]
  · intro m' hm'
    rcases List.mem_append.1 hm' with hm' | hm'
    · exact h.free m' hm'
    · obtain rfl := List.mem_singleton.1 hm'
      rw [← h.rest _ htarget htarget', hfree]
  · intro m' hm'
    rcases List.mem_append.1 hm' with hm' | hm'
    · rw [hother, h.arrived m' hm']
      · exact fun heq => hsource (heq ▸ List.mem_map_of_mem hm')
      · exact fun heq => htarget' (heq ▸ List.mem_map_of_mem hm')
    · obtain rfl := List.mem_singleton.1 hm'
      exact hself
  · intro m' hm'
    rcases List.mem_append.1 hm' with hm' | hm'
    · rw [hother, h.left m' hm']
      · exact fun heq => hsource' (heq ▸ List.mem_map_of_mem hm')
      · exact fun heq => htarget (heq ▸ List.mem_map_of_mem hm')
    · obtain rfl := List.mem_singleton.1 hm'
      exact hgone
  · intro p hp hp'
    simp only [List.map_append, List.map_singleton, List.mem_append, List.mem_singleton, not_or] at hp hp'
    rw [hother hp.2 hp'.2, h.rest p hp.1 hp'.1]

end Moved

end Library

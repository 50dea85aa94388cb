import Mathlib.Data.Finset.Card
import Mathlib.Data.Finset.SDiff
import Mathlib.Logic.Relation

/-!
# Visiting all that can be reached

From a list of nodes to follow, the first one is visited, unless it has been before, and the nodes next to it are put in front
of the list. The visit ends where the nodes are among finitely many ones (`exists_visitAll`). Then the nodes visited are those
that can be reached from the start (`mem_visitAll_iff`).
-/

namespace Library.DepthFirst

variable {α : Type} [DecidableEq α] (next : α → List α)

/-- Visit the nodes to follow and those that come up, with the nodes already visited, in at most so many steps. -/
def visitAll : ℕ → Finset α → List α → Option (Finset α)
  | _, visited, [] => some visited
  | 0, _, _ :: _ => none
  | fuel + 1, visited, a :: rest =>
    if a ∈ visited then visitAll fuel visited rest else visitAll fuel (insert a visited) (next a ++ rest)

/-- A node can be reached. -/
abbrev Reaches : α → α → Prop := Relation.ReflTransGen fun a b => b ∈ next a

/-- What holds all along a visit from a start: it has been visited or is to be followed, as are the nodes next to the visited
ones, and all these can be reached. -/
structure Sound (start : α) (visited : Finset α) (toFollow : List α) : Prop where
  /-- The start. -/
  covers_start : start ∈ visited ∨ start ∈ toFollow
  /-- The nodes next to the visited ones. -/
  covers_next : ∀ a ∈ visited, ∀ b ∈ next a, b ∈ visited ∨ b ∈ toFollow
  /-- Visited nodes can be reached. -/
  reaches_visited : ∀ a ∈ visited, Reaches next start a
  /-- Nodes to follow can be reached. -/
  reaches_toFollow : ∀ a ∈ toFollow, Reaches next start a

variable {next} {start a : α} {visited : Finset α} {toFollow rest : List α}

omit [DecidableEq α] in
theorem Sound.of_start (start : α) : Sound next start ∅ [start] where
  covers_start := .inr List.mem_cons_self
  covers_next a ha := absurd ha (Finset.notMem_empty a)
  reaches_visited a ha := absurd ha (Finset.notMem_empty a)
  reaches_toFollow a ha := by
    rw [List.mem_singleton.1 ha]

omit [DecidableEq α] in
/-- A node that has been visited before. -/
theorem Sound.skip (h : Sound next start visited (a :: rest)) (ha : a ∈ visited) : Sound next start visited rest := by
  have hstill : ∀ b, b ∈ visited ∨ b ∈ a :: rest → b ∈ visited ∨ b ∈ rest := by
    rintro b (hb | hb)
    · exact .inl hb
    · rcases List.mem_cons.1 hb with rfl | hb
      · exact .inl ha
      · exact .inr hb
  exact ⟨hstill _ h.covers_start, fun b hb c hc => hstill c (h.covers_next b hb c hc), h.reaches_visited,
    fun b hb => h.reaches_toFollow b (List.mem_cons_of_mem _ hb)⟩

/-- A node is visited. -/
theorem Sound.visit (h : Sound next start visited (a :: rest)) : Sound next start (insert a visited) (next a ++ rest) := by
  have hstill : ∀ b, b ∈ visited ∨ b ∈ a :: rest → b ∈ insert a visited ∨ b ∈ next a ++ rest := by
    rintro b (hb | hb)
    · exact .inl (Finset.mem_insert_of_mem hb)
    · rcases List.mem_cons.1 hb with rfl | hb
      · exact .inl (Finset.mem_insert_self _ _)
      · exact .inr (List.mem_append_right _ hb)
  have ha : Reaches next start a := h.reaches_toFollow a List.mem_cons_self
  refine ⟨hstill _ h.covers_start, fun b hb c hc => ?_, fun b hb => ?_, fun b hb => ?_⟩
  · rcases Finset.mem_insert.1 hb with rfl | hb
    · exact .inr (List.mem_append_left _ hc)
    · exact hstill c (h.covers_next b hb c hc)
  · rcases Finset.mem_insert.1 hb with rfl | hb
    · exact ha
    · exact h.reaches_visited b hb
  · rcases List.mem_append.1 hb with hb | hb
    · exact ha.tail hb
    · exact h.reaches_toFollow b (List.mem_cons_of_mem _ hb)

omit [DecidableEq α] in
/-- At the end exactly what can be reached has been visited. -/
theorem Sound.mem_iff (h : Sound next start visited []) : a ∈ visited ↔ Reaches next start a := by
  constructor
  · exact h.reaches_visited a
  · intro hreach
    induction hreach with
    | refl => exact h.covers_start.resolve_right List.not_mem_nil
    | tail _ hstep ih => exact (h.covers_next _ ih _ hstep).resolve_right List.not_mem_nil

/-- **What a visit visits.** -/
theorem mem_visitAll_iff {fuel : ℕ} {out : Finset α} (h : Sound next start visited toFollow)
    (hout : visitAll next fuel visited toFollow = some out) : a ∈ out ↔ Reaches next start a := by
  induction fuel generalizing visited toFollow with
  | zero =>
    cases toFollow with
    | nil =>
      cases hout
      exact h.mem_iff
    | cons b rest => cases hout
  | succ fuel ih =>
    cases toFollow with
    | nil =>
      cases hout
      exact h.mem_iff
    | cons b rest =>
      rw [visitAll] at hout
      split_ifs at hout with hb
      · exact ih (h.skip hb) hout
      · exact ih h.visit hout

/-- **A visit ends** among finitely many nodes. -/
theorem exists_visitAll {u : Finset α} (hu : ∀ a ∈ u, ∀ b ∈ next a, b ∈ u) (hfollow : ∀ a ∈ toFollow, a ∈ u) :
    ∃ n out, ∀ fuel ≥ n, visitAll next fuel visited toFollow = some out := by
  -- first by the nodes that have not been visited, then by the list of those to follow
  induction hcard : (u \ visited).card using Nat.strong_induction_on generalizing visited toFollow with
  | _ k ih =>
    induction toFollow with
    | nil => exact ⟨0, visited, fun fuel _ => by rw [visitAll]⟩
    | cons a rest ihrest =>
      have ha : a ∈ u := hfollow a List.mem_cons_self
      have hrest : ∀ b ∈ rest, b ∈ u := fun b hb => hfollow b (List.mem_cons_of_mem _ hb)
      by_cases hvisited : a ∈ visited
      · obtain ⟨n, out, hout⟩ := ihrest hrest
        refine ⟨n + 1, out, fun fuel hfuel => ?_⟩
        obtain ⟨fuel, rfl⟩ := Nat.exists_eq_add_of_le' (Nat.le_trans (Nat.le_add_left 1 n) hfuel)
        rw [visitAll, if_pos hvisited, hout fuel (Nat.le_of_succ_le_succ hfuel)]
      · have hlt : (u \ insert a visited).card < k := by
          rw [← hcard]
          refine Finset.card_lt_card (Finset.ssubset_iff_of_subset ?_ |>.2 ⟨a, ?_, ?_⟩)
          · exact Finset.sdiff_subset_sdiff (Finset.Subset.refl _) (Finset.subset_insert _ _)
          · exact Finset.mem_sdiff.2 ⟨ha, hvisited⟩
          · exact fun hmem => (Finset.mem_sdiff.1 hmem).2 (Finset.mem_insert_self _ _)
        have hnext : ∀ b ∈ next a ++ rest, b ∈ u := by
          intro b hb
          rcases List.mem_append.1 hb with hb | hb
          · exact hu a ha b hb
          · exact hrest b hb
        obtain ⟨n, out, hout⟩ := ih _ hlt hnext rfl
        refine ⟨n + 1, out, fun fuel hfuel => ?_⟩
        obtain ⟨fuel, rfl⟩ := Nat.exists_eq_add_of_le' (Nat.le_trans (Nat.le_add_left 1 n) hfuel)
        rw [visitAll, if_neg hvisited, hout fuel (Nat.le_of_succ_le_succ hfuel)]

end Library.DepthFirst

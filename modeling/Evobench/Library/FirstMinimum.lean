import Mathlib.Data.List.MinMax

/-!
# The first minimum of a list

`List.argmin` gives the first of the elements with the least value. Here it is seen as a place in the list
(`argmin_eq_some_iff_append`), so that the order of the list says which one of several is taken
(`rel_of_argmin`), and it is computed block by block (`argmin_flatten`): the first minimum of the first
minima of the blocks is the first minimum of all elements.
-/

namespace Library

variable {α β γ : Type} [LinearOrder β] {f : α → β}

theorem argmin_cons_none {a : α} {l : List α} (h : l.argmin f = none) : (a :: l).argmin f = some a := by
  rw [List.argmin_cons, h]

/-- A new first element is taken unless there is a smaller one. -/
theorem argmin_cons_some {a m : α} {l : List α} (h : l.argmin f = some m) :
    (a :: l).argmin f = if f m < f a then some m else some a := by
  rw [List.argmin_cons, h]

/-- **The first minimum**: everything before it is greater, and nothing after it is smaller. -/
theorem argmin_eq_some_iff_append {l : List α} {m : α} :
    l.argmin f = some m ↔ ∃ l₁ l₂, l = l₁ ++ m :: l₂ ∧ (∀ a ∈ l₁, f m < f a) ∧ ∀ a ∈ l₂, f m ≤ f a := by
  induction l generalizing m with
  | nil => simp
  | cons x rest ih =>
    constructor
    · intro h
      cases hrest : rest.argmin f with
      | none =>
        rw [argmin_cons_none hrest, Option.some.injEq] at h
        rw [List.argmin_eq_none] at hrest
        exact ⟨[], rest, by rw [h]; rfl, by simp, by simp [hrest]⟩
      | some c =>
        rw [argmin_cons_some hrest] at h
        obtain ⟨l₁, l₂, rfl, hbefore, hafter⟩ := ih.1 hrest
        split_ifs at h with hlt
        · obtain rfl := Option.some.inj h
          refine ⟨x :: l₁, l₂, rfl, fun a ha => ?_, hafter⟩
          rcases List.mem_cons.1 ha with rfl | ha
          · exact hlt
          · exact hbefore a ha
        · obtain rfl := Option.some.inj h
          have hle : f x ≤ f c := not_lt.1 hlt
          refine ⟨[], l₁ ++ c :: l₂, rfl, by simp, fun a ha => ?_⟩
          rcases List.mem_append.1 ha with ha | ha
          · exact hle.trans (hbefore a ha).le
          · rcases List.mem_cons.1 ha with rfl | ha
            · exact hle
            · exact hle.trans (hafter a ha)
    · rintro ⟨_ | ⟨y, l₁⟩, l₂, he, hbefore, hafter⟩
      · obtain ⟨rfl, rfl⟩ := List.cons.inj he
        cases hrest : rest.argmin f with
        | none => exact argmin_cons_none hrest
        | some c =>
          rw [argmin_cons_some hrest, if_neg (not_lt.2 (hafter c (List.argmin_mem hrest)))]
      · obtain ⟨rfl, rfl⟩ := List.cons.inj he
        have hrest := ih.2 ⟨l₁, l₂, rfl, fun a ha => hbefore a (List.mem_cons_of_mem _ ha), hafter⟩
        rw [argmin_cons_some hrest, if_pos (hbefore x List.mem_cons_self)]

/-- In an ordered list the first minimum comes before all others with its value. -/
theorem rel_of_argmin {R : α → α → Prop} {l : List α} {m a : α} (hl : l.Pairwise R) (hm : l.argmin f = some m)
    (ha : a ∈ l) (he : f a = f m) : a = m ∨ R m a := by
  obtain ⟨l₁, l₂, rfl, hbefore, -⟩ := argmin_eq_some_iff_append.1 hm
  rcases List.mem_append.1 ha with ha | ha
  · exact absurd he (hbefore a ha).ne'
  · rcases List.mem_cons.1 ha with rfl | ha
    · exact .inl rfl
    · right
      rw [List.pairwise_append, List.pairwise_cons] at hl
      exact hl.2.1.1 a ha

/-- The first minimum is found in the images. -/
theorem argmin_map (g : γ → α) (l : List γ) : (l.map g).argmin f = (l.argmin fun c => f (g c)).map g := by
  induction l with
  | nil => rfl
  | cons c rest ih =>
    cases hrest : rest.argmin fun c => f (g c) with
    | none =>
      rw [hrest] at ih
      rw [List.map_cons, argmin_cons_none ih, argmin_cons_none hrest]
      rfl
    | some d =>
      rw [hrest] at ih
      rw [List.map_cons, argmin_cons_some ih, argmin_cons_some hrest, apply_ite (Option.map g)]
      rfl

/-- The first minimum of two parts. -/
theorem argmin_append (l l' : List α) :
    (l ++ l').argmin f = match l.argmin f, l'.argmin f with
      | none, m' => m'
      | some m, none => some m
      | some m, some m' => if f m' < f m then some m' else some m := by
  cases hl : l.argmin f with
  | none =>
    rw [List.argmin_eq_none] at hl
    rw [hl, List.nil_append]
  | some m =>
    obtain ⟨l₁, l₂, rfl, hbefore, hafter⟩ := argmin_eq_some_iff_append.1 hl
    cases hl' : l'.argmin f with
    | none =>
      rw [List.argmin_eq_none] at hl'
      rw [hl', List.append_nil]
      exact hl
    | some m' =>
      obtain ⟨k₁, k₂, rfl, hbefore', hafter'⟩ := argmin_eq_some_iff_append.1 hl'
      dsimp only
      split_ifs with hlt
      · refine argmin_eq_some_iff_append.2 ⟨l₁ ++ m :: l₂ ++ k₁, k₂, by simp, fun a ha => ?_, hafter'⟩
        rcases List.mem_append.1 ha with ha | ha
        · rcases List.mem_append.1 ha with ha | ha
          · exact hlt.trans (hbefore a ha)
          · rcases List.mem_cons.1 ha with rfl | ha
            · exact hlt
            · exact hlt.trans_le (hafter a ha)
        · exact hbefore' a ha
      · have hle : f m ≤ f m' := not_lt.1 hlt
        refine argmin_eq_some_iff_append.2 ⟨l₁, l₂ ++ (k₁ ++ m' :: k₂), by simp, hbefore, fun a ha => ?_⟩
        rcases List.mem_append.1 ha with ha | ha
        · exact hafter a ha
        · rcases List.mem_append.1 ha with ha | ha
          · exact hle.trans (hbefore' a ha).le
          · rcases List.mem_cons.1 ha with rfl | ha
            · exact hle
            · exact hle.trans (hafter' a ha)

/-- **Block by block.** -/
theorem argmin_flatten (ls : List (List α)) :
    (ls.filterMap fun l => l.argmin f).argmin f = ls.flatten.argmin f := by
  induction ls with
  | nil => rfl
  | cons l rest ih =>
    rw [List.flatten_cons, argmin_append, ← ih]
    cases hl : l.argmin f with
    | none => rw [List.filterMap_cons_none hl]
    | some m =>
      rw [List.filterMap_cons_some hl]
      cases hrest : (rest.filterMap fun l => l.argmin f).argmin f with
      | none => exact argmin_cons_none hrest
      | some m' => exact argmin_cons_some hrest

end Library

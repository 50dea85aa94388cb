import Mathlib.Algebra.Order.Ring.Int
import Mathlib.Data.List.Basic
import Mathlib.Data.List.DropRight
import Mathlib.Data.List.Infix

/-!
# Lines, and runs of lines of a bounded size

A text is a list of lines with a separator after each (`unlines`) and a rest without a separator (`exists_unlines`).

`Packed size n items runs` cuts a list into runs, from its start: each run takes as many of the items as have a total size
of at most `n`. Where that is possible, there is one way to do it (`Packed.unique`, `exists_packed`).
-/

namespace Library

variable {α β : Type*}

/-! ### Lines -/

/-- The lines, each with the separator after it. -/
def unlines (sep : α) (ls : List (List α)) : List α := ls.flatMap fun l => l ++ [sep]

@[simp] theorem unlines_nil (sep : α) : unlines sep [] = [] := rfl

@[simp] theorem unlines_cons (sep : α) (l : List α) (ls : List (List α)) :
    unlines sep (l :: ls) = l ++ sep :: unlines sep ls := by
  show l ++ [sep] ++ unlines sep ls = l ++ sep :: unlines sep ls
  rw [List.append_assoc, List.singleton_append]

@[simp] theorem unlines_append (sep : α) (ls ls' : List (List α)) :
    unlines sep (ls ++ ls') = unlines sep ls ++ unlines sep ls' := List.flatMap_append

/-- The lines of a text and what is after the last separator. -/
theorem exists_unlines (sep : α) (xs : List α) :
    ∃ ls tail, xs = unlines sep ls ++ tail ∧ (∀ l ∈ ls, sep ∉ l) ∧ sep ∉ tail := by
  classical
  induction xs with
  | nil => exact ⟨[], [], rfl, by simp, by simp⟩
  | cons x xs ih =>
    obtain ⟨ls, tail, rfl, hls, htail⟩ := ih
    by_cases hx : x = sep
    · subst hx
      refine ⟨[] :: ls, tail, rfl, ?_, htail⟩
      intro l hl
      rcases List.mem_cons.1 hl with rfl | hl
      · exact List.not_mem_nil
      · exact hls l hl
    · cases ls with
      | nil =>
        refine ⟨[], x :: tail, rfl, by simp, ?_⟩
        intro hmem
        rcases List.mem_cons.1 hmem with he | hmem
        · exact hx he.symm
        · exact htail hmem
      | cons l ls =>
        refine ⟨(x :: l) :: ls, tail, by simp, ?_, htail⟩
        intro l' hl'
        rcases List.mem_cons.1 hl' with rfl | hl'
        · intro hmem
          rcases List.mem_cons.1 hmem with he | hmem
          · exact hx he.symm
          · exact hls l List.mem_cons_self hmem
        · exact hls l' (List.mem_cons_of_mem _ hl')

/-- The lines are what is between the separators. -/
theorem splitOn_unlines [BEq α] [LawfulBEq α] {sep : α} {ls : List (List α)} (hls : ∀ l ∈ ls, sep ∉ l) {tail : List α}
    (htail : sep ∉ tail) : (unlines sep ls ++ tail).splitOn sep = ls ++ [tail] := by
  induction ls with
  | nil => exact List.splitOn_eq_singleton htail
  | cons l ls ih =>
    rw [unlines_cons, List.append_assoc, List.cons_append,
      List.splitOn_append_cons_self_of_not_mem (hls l List.mem_cons_self),
      ih fun l' hl' => hls l' (List.mem_cons_of_mem _ hl'), List.cons_append]

/-- A text of lines that begins with lines is these lines and others. -/
theorem exists_of_unlines_append [BEq α] [LawfulBEq α] {sep : α} {ls ls' : List (List α)} {rest : List α}
    (hls : ∀ l ∈ ls, sep ∉ l) (hls' : ∀ l ∈ ls', sep ∉ l) (h : unlines sep ls ++ rest = unlines sep ls') :
    ∃ ls'', ls' = ls ++ ls'' ∧ rest = unlines sep ls'' := by
  obtain ⟨ls'', tail, rfl, hls'', htail⟩ := exists_unlines sep rest
  have hall : ∀ l ∈ ls ++ ls'', sep ∉ l := by
    simp only [List.forall_mem_append]
    exact ⟨hls, hls''⟩
  have hsplit := splitOn_unlines hls' List.not_mem_nil
  rw [List.append_nil, ← h, ← List.append_assoc, ← unlines_append, splitOn_unlines hall htail] at hsplit
  obtain ⟨hlines, htail'⟩ := List.append_inj' hsplit rfl
  refine ⟨ls'', hlines.symm, ?_⟩
  rw [List.singleton_inj.1 htail', List.append_nil]

/-- The end of a text with lines is a separator. -/
theorem exists_unlines_eq_append (sep : α) {ls : List (List α)} (hne : ls ≠ []) : ∃ xs, unlines sep ls = xs ++ [sep] := by
  obtain ⟨ls, l, rfl⟩ := List.eq_nil_or_concat ls |>.resolve_left hne
  refine ⟨unlines sep ls ++ l, ?_⟩
  rw [List.concat_eq_append, unlines_append, unlines_cons, unlines_nil, List.append_assoc]

/-! ### Runs -/

/-- The total size of some items. -/
def total (size : β → ℕ) (items : List β) : ℕ := (items.map size).sum

@[simp] theorem total_nil (size : β → ℕ) : total size [] = 0 := rfl

@[simp] theorem total_cons (size : β → ℕ) (x : β) (items : List β) : total size (x :: items) = size x + total size items := by
  simp [total]

@[simp] theorem total_append (size : β → ℕ) (items items' : List β) :
    total size (items ++ items') = total size items + total size items' := by
  simp [total]

theorem size_le_total {size : β → ℕ} {items : List β} {x : β} (hx : x ∈ items) : size x ≤ total size items := by
  obtain ⟨before, after, rfl⟩ := List.append_of_mem hx
  rw [total_append, total_cons]
  omega

theorem length_unlines (sep : α) (ls : List (List α)) : (unlines sep ls).length = total (fun l => l.length + 1) ls := by
  induction ls with
  | nil => rfl
  | cons l ls ih =>
    rw [unlines_cons, List.length_append, List.length_cons, ih, total_cons]
    omega

/-- A list is cut into runs, each as long as its size allows. -/
inductive Packed (size : β → ℕ) (n : ℕ) : List β → List (List β) → Prop
  /-- There are no items. -/
  | nil : Packed size n [] []
  /-- A run ends where the next item would be too much. -/
  | cons {run rest : List β} {runs : List (List β)} (hne : run ≠ []) (hle : total size run ≤ n)
      (hmax : ∀ x ∈ rest.head?, n < total size run + size x) (hrest : Packed size n rest runs) :
      Packed size n (run ++ rest) (run :: runs)

section Packed

variable {size : β → ℕ} {n : ℕ} {items : List β} {runs : List (List β)}

/-- The longest run at the start. -/
theorem exists_run (size : β → ℕ) (n : ℕ) (items : List β) :
    ∃ run rest, items = run ++ rest ∧ total size run ≤ n ∧ ∀ x ∈ rest.head?, n < total size run + size x := by
  induction items generalizing n with
  | nil => exact ⟨[], [], rfl, Nat.zero_le n, by simp⟩
  | cons x items ih =>
    by_cases hx : size x ≤ n
    · obtain ⟨run, rest, rfl, hle, hmax⟩ := ih (n - size x)
      refine ⟨x :: run, rest, rfl, ?_, ?_⟩
      · rw [total_cons]
        omega
      · intro y hy
        have := hmax y hy
        rw [total_cons]
        omega
    · refine ⟨[], x :: items, rfl, Nat.zero_le n, ?_⟩
      intro y hy
      obtain rfl := Option.some.inj hy
      rw [total_nil]
      omega

/-- The longest run is one item or more if the first item is small enough. -/
theorem ne_nil_of_run {x : β} {run rest : List β} (hitems : x :: items = run ++ rest)
    (hmax : ∀ x ∈ rest.head?, n < total size run + size x) (hx : size x ≤ n) : run ≠ [] := by
  rintro rfl
  obtain rfl : x :: items = rest := hitems
  have := hmax x rfl
  rw [total_nil] at this
  omega

/-- There is one longest run. -/
theorem run_unique {run rest run' rest' : List β} (h : run ++ rest = run' ++ rest') (hle : total size run ≤ n)
    (hmax : ∀ x ∈ rest.head?, n < total size run + size x) (hle' : total size run' ≤ n)
    (hmax' : ∀ x ∈ rest'.head?, n < total size run' + size x) : run = run' ∧ rest = rest' := by
  rcases List.append_eq_append_iff.1 h with ⟨c, rfl, rfl⟩ | ⟨c, rfl, rfl⟩
  · cases c with
    | nil => simp
    | cons x c =>
      have := hmax x rfl
      rw [total_append, total_cons] at hle'
      omega
  · cases c with
    | nil => simp
    | cons x c =>
      have := hmax' x rfl
      rw [total_append, total_cons] at hle
      omega

namespace Packed

theorem flatten (h : Packed size n items runs) : runs.flatten = items := by
  induction h with
  | nil => rfl
  | cons hne hle hmax hrest ih => rw [List.flatten_cons, ih]

theorem ne_nil_of_mem (h : Packed size n items runs) {run : List β} (hrun : run ∈ runs) : run ≠ [] := by
  induction h with
  | nil => cases hrun
  | cons hne hle hmax hrest ih =>
    rcases List.mem_cons.1 hrun with rfl | hrun
    · exact hne
    · exact ih hrun

/-- No item is too large. -/
theorem size_le (h : Packed size n items runs) {x : β} (hx : x ∈ items) : size x ≤ n := by
  induction h with
  | nil => cases hx
  | cons hne hle hmax hrest ih =>
    rcases List.mem_append.1 hx with hx | hx
    · exact (size_le_total hx).trans hle
    · exact ih hx

/-- There is one way to cut a list into runs. -/
theorem unique {runs' : List (List β)} (h : Packed size n items runs) (h' : Packed size n items runs') : runs = runs' := by
  induction h generalizing runs' with
  | nil =>
    generalize hitems : ([] : List β) = items' at h'
    cases h' with
    | nil => rfl
    | cons hne' hle' hmax' hrest' => exact absurd (List.append_eq_nil_iff.1 hitems.symm).1 hne'
  | @cons run rest runs hne hle hmax hrest ih =>
    generalize hitems : run ++ rest = items' at h'
    cases h' with
    | nil => exact absurd (List.append_eq_nil_iff.1 hitems).1 hne
    | cons hne' hle' hmax' hrest' =>
      obtain ⟨rfl, rfl⟩ := run_unique hitems hle hmax hle' hmax'
      rw [ih hrest']

/-- Items that fit together are one run. -/
theorem singleton (hne : items ≠ []) (hle : total size items ≤ n) : Packed size n items [items] := by
  have h : Packed size n (items ++ []) [items] := .cons hne hle (by simp) .nil
  rwa [List.append_nil] at h

end Packed

/-- Items of which none is too large can be cut into runs. -/
theorem exists_packed (hfits : ∀ x ∈ items, size x ≤ n) : ∃ runs, Packed size n items runs := by
  induction hlength : items.length using Nat.strong_induction_on generalizing items with
  | _ m ih =>
    subst hlength
    obtain ⟨run, rest, hitems, hle, hmax⟩ := exists_run size n items
    cases items with
    | nil => exact ⟨[], .nil⟩
    | cons x items =>
      have hne := ne_nil_of_run hitems hmax (hfits x List.mem_cons_self)
      have hlt : rest.length < (x :: items).length := by
        have hpos := List.length_pos_iff.2 hne
        rw [hitems, List.length_append]
        omega
      have hrest : ∀ y ∈ rest, size y ≤ n := by
        intro y hy
        apply hfits y
        rw [hitems]
        exact List.mem_append_right _ hy
      obtain ⟨runs, hruns⟩ := ih rest.length hlt hrest rfl
      rw [hitems]
      exact ⟨run :: runs, .cons hne hle hmax hruns⟩

end Packed

end Library

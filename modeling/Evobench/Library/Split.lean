import Mathlib.Data.List.Basic

/-!
# Splitting at a separator

A list is split at all places where the separator occurs, from the left, and places do not overlap. The empty separator
occurs before and after every element.

What comes out of that, with the separator put between, is the list again (`intercalate_split`). So different lists are
split differently. The other way round, if the separator has a character that the parts do not have, then the parts are known
from what comes out of putting them together (`intercalate_inj`).
-/

namespace Library

variable {α : Type} [DecidableEq α]

/-- The parts from here on: `skip` elements of a separator are passed by, `part` (from its end) is there already. -/
def splitFrom (sep : List α) : ℕ → List α → List α → List (List α)
  | _, part, [] => [part.reverse]
  | skip + 1, part, _ :: rest => splitFrom sep skip part rest
  | 0, part, c :: rest =>
    if sep <+: c :: rest then part.reverse :: splitFrom sep (sep.length - 1) [] rest
    else splitFrom sep 0 (c :: part) rest

/-- The parts of a list between the separators. -/
def split (sep l : List α) : List (List α) :=
  if sep = [] then [] :: (l.map (fun c => [c]) ++ [[]]) else splitFrom sep 0 [] l

theorem splitFrom_ne_nil (sep : List α) (skip : ℕ) (part l : List α) : splitFrom sep skip part l ≠ [] := by
  induction l generalizing skip part with
  | nil => simp [splitFrom]
  | cons c rest ih =>
    cases skip with
    | zero =>
      rw [splitFrom]
      split_ifs
      · exact List.cons_ne_nil _ _
      · exact ih 0 (c :: part)
    | succ skip => exact ih skip part

theorem intercalate_splitFrom {sep : List α} (hsep : sep ≠ []) (skip : ℕ) (part l : List α) :
    sep.intercalate (splitFrom sep skip part l) = part.reverse ++ l.drop skip := by
  induction l generalizing skip part with
  | nil => simp [splitFrom]
  | cons c rest ih =>
    cases skip with
    | zero =>
      rw [splitFrom]
      split_ifs with hpre
      · obtain ⟨after, hafter⟩ := hpre
        obtain ⟨s, sep', rfl⟩ := List.exists_cons_of_ne_nil hsep
        rw [List.cons_append, List.cons.injEq] at hafter
        obtain ⟨rfl, rfl⟩ := hafter
        rw [List.intercalate_cons_of_ne_nil (splitFrom_ne_nil _ _ _ _), ih]
        simp
      · rw [ih]
        simp
    | succ skip => exact ih skip part

omit [DecidableEq α] in
theorem intercalate_nil_sep (l : List (List α)) : ([] : List α).intercalate l = l.flatten := by
  induction l with
  | nil => rfl
  | cons a l ih =>
    cases l with
    | nil => simp
    | cons b l =>
      rw [List.intercalate_cons_cons, ih]
      simp

/-- **Splitting keeps everything.** -/
theorem intercalate_split (sep l : List α) : sep.intercalate (split sep l) = l := by
  rw [split]
  split_ifs with hsep
  · rw [hsep, intercalate_nil_sep, List.flatten_cons, List.flatten_append, List.nil_append]
    induction l with
    | nil => rfl
    | cons c l ih => rw [List.map_cons, List.flatten_cons, List.append_assoc, ih, List.singleton_append]
  · rw [intercalate_splitFrom hsep]
    rfl

omit [DecidableEq α] in
theorem intercalate_concat (sep : List α) {l : List (List α)} (hl : l ≠ []) (x : List α) :
    sep.intercalate (l ++ [x]) = sep.intercalate l ++ (sep ++ x) := by
  induction l with
  | nil => exact absurd rfl hl
  | cons a l ih =>
    cases l with
    | nil => simp
    | cons b l =>
      rw [List.cons_append, List.intercalate_cons_of_ne_nil (by simp), ih (List.cons_ne_nil _ _), List.intercalate_cons_cons]
      simp

omit [DecidableEq α] in
/-- What is before and after the first place of an element. -/
theorem first_place_inj {c : α} {a a' b b' : List α} (ha : c ∉ a) (ha' : c ∉ a') (h : a ++ c :: b = a' ++ c :: b') :
    a = a' ∧ b = b' := by
  obtain ⟨between, rfl, hbetween⟩ | ⟨between, rfl, hbetween⟩ := List.append_eq_append_iff.1 h
  · cases between with
    | nil =>
      rw [List.nil_append, List.cons.injEq] at hbetween
      exact ⟨(List.append_nil a).symm, hbetween.2⟩
    | cons x between =>
      rw [List.cons_append, List.cons.injEq] at hbetween
      obtain ⟨rfl, -⟩ := hbetween
      exact absurd (List.mem_append_right a List.mem_cons_self) ha'
  · cases between with
    | nil =>
      rw [List.nil_append, List.cons.injEq] at hbetween
      exact ⟨List.append_nil a', hbetween.2.symm⟩
    | cons x between =>
      rw [List.cons_append, List.cons.injEq] at hbetween
      obtain ⟨rfl, -⟩ := hbetween
      exact absurd (List.mem_append_right a' List.mem_cons_self) ha

omit [DecidableEq α] in
/-- **Parts can be told apart**, if the separator has an element that is not in them, and not before in the separator. -/
theorem intercalate_inj {before after : List α} {c : α} (hbefore : c ∉ before) {ps qs : List (List α)} (hps : ps ≠ [])
    (hqs : qs ≠ []) (hp : ∀ p ∈ ps, c ∉ p) (hq : ∀ q ∈ qs, c ∉ q)
    (h : (before ++ c :: after).intercalate ps = (before ++ c :: after).intercalate qs) : ps = qs := by
  have hnot {l : List α} (hl : c ∉ l) : c ∉ l ++ before := fun hmem => (List.mem_append.1 hmem).elim hl hbefore
  induction ps generalizing qs with
  | nil => exact absurd rfl hps
  | cons p ps ih =>
    obtain ⟨q, qs, rfl⟩ := List.exists_cons_of_ne_nil hqs
    have hpc : c ∉ p := hp p List.mem_cons_self
    have hqc : c ∉ q := hq q List.mem_cons_self
    cases ps with
    | nil =>
      cases qs with
      | nil => rwa [List.intercalate_singleton, List.intercalate_singleton, ← List.singleton_inj] at h
      | cons q' qs =>
        rw [List.intercalate_singleton, List.intercalate_cons_cons] at h
        refine absurd ?_ hpc
        rw [h]
        simp
    | cons p' ps =>
      cases qs with
      | nil =>
        rw [List.intercalate_singleton, List.intercalate_cons_cons] at h
        refine absurd ?_ hqc
        rw [← h]
        simp
      | cons q' qs =>
        rw [List.intercalate_cons_cons, List.intercalate_cons_cons] at h
        -- The first place of `c` on both sides is in the first separator.
        have hsplit : (p ++ before) ++ c :: (after ++ (before ++ c :: after).intercalate (p' :: ps)) =
            (q ++ before) ++ c :: (after ++ (before ++ c :: after).intercalate (q' :: qs)) := by
          simpa using h
        obtain ⟨hfirst, hrest⟩ := first_place_inj (hnot hpc) (hnot hqc) hsplit
        rw [List.append_cancel_right_eq] at hfirst
        rw [List.append_cancel_left_eq] at hrest
        rw [hfirst, ih (List.cons_ne_nil _ _) (List.cons_ne_nil _ _) (fun r hr => hp r (List.mem_cons_of_mem _ hr))
          (fun r hr => hq r (List.mem_cons_of_mem _ hr)) hrest]

end Library

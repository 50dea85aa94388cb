import Mathlib.Data.List.Basic
import Mathlib.Data.List.Infix

/-!
# Prefix codes

A prefix code writes values as texts so that one can tell where each text ends: no matter what follows it, the text of a value
is not the start of the text of another value. The codes here are put together from codes of the parts.
-/

namespace Library

variable {α β σ : Type*}

/-- From a text and what follows it, the value is known. -/
def PrefixCode (enc : α → List σ) : Prop := ∀ ⦃a b : α⦄ ⦃x y : List σ⦄, enc a ++ x = enc b ++ y → a = b ∧ x = y

namespace PrefixCode

variable {enc : α → List σ} {enc' : β → List σ}

/-- Values that can be read back, one after the other. -/
theorem of_decoder {dec : List σ → Option (α × List σ)} (h : ∀ a x, dec (enc a ++ x) = some (a, x)) : PrefixCode enc := by
  intro a b x y heq
  have hread := h a x
  rw [heq, h b y] at hread
  cases hread
  exact ⟨rfl, rfl⟩

theorem injective (h : PrefixCode enc) : Function.Injective enc := by
  intro a b heq
  exact (h (congrArg (· ++ []) heq)).1

/-- No text is the start of another one. -/
theorem eq_of_isPrefix (h : PrefixCode enc) {a b : α} (hpre : enc a <+: enc b) : a = b := by
  obtain ⟨rest, hrest⟩ := hpre
  have heq : enc a ++ rest = enc b ++ [] := by rw [hrest, List.append_nil]
  exact (h heq).1

/-- The value is part of another one. -/
theorem comp (h : PrefixCode enc) {f : β → α} (hf : Function.Injective f) : PrefixCode fun b => enc (f b) := by
  intro a b x y heq
  obtain ⟨hab, hxy⟩ := h heq
  exact ⟨hf hab, hxy⟩

/-- With the same text before. -/
theorem before (h : PrefixCode enc) (pre : List σ) : PrefixCode fun a => pre ++ enc a := by
  intro a b x y heq
  rw [List.append_assoc, List.append_assoc] at heq
  exact h (List.append_cancel_left heq)

/-- With the same text after. -/
theorem after (h : PrefixCode enc) (post : List σ) : PrefixCode fun a => enc a ++ post := by
  intro a b x y heq
  rw [List.append_assoc, List.append_assoc] at heq
  obtain ⟨rfl, hrest⟩ := h heq
  exact ⟨rfl, List.append_cancel_left hrest⟩

/-- One after the other. -/
theorem pair (h : PrefixCode enc) (h' : PrefixCode enc') : PrefixCode fun p : α × β => enc p.1 ++ enc' p.2 := by
  rintro ⟨a, a'⟩ ⟨b, b'⟩ x y heq
  rw [List.append_assoc, List.append_assoc] at heq
  obtain ⟨hab, heq⟩ := h heq
  obtain ⟨hab', hxy⟩ := h' heq
  exact ⟨Prod.ext hab hab', hxy⟩

/-- Many, with a stop after the last one. -/
theorem flatMap_stop (h : PrefixCode enc) {stop : σ} (hstop : ∀ a x y, enc a ++ x ≠ stop :: y) :
    PrefixCode fun as : List α => as.flatMap enc ++ [stop] := by
  intro as
  induction as with
  | nil =>
    intro bs x y heq
    cases bs with
    | nil => exact ⟨rfl, (List.cons_inj_right stop).1 heq⟩
    | cons b bs =>
      simp only [List.flatMap_cons, List.append_assoc] at heq
      exact absurd heq.symm (hstop b _ _)
  | cons a as ih =>
    intro bs x y heq
    cases bs with
    | nil =>
      simp only [List.flatMap_cons, List.append_assoc] at heq
      exact absurd heq (hstop a _ _)
    | cons b bs =>
      simp only [List.flatMap_cons, List.append_assoc] at heq
      obtain ⟨rfl, htail⟩ := h heq
      have hrest : as.flatMap enc ++ [stop] ++ x = bs.flatMap enc ++ [stop] ++ y := by
        rw [List.append_assoc, List.append_assoc]
        exact htail
      obtain ⟨rfl, hxy⟩ := ih hrest
      exact ⟨rfl, hxy⟩

end PrefixCode

end Library

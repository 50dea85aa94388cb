import Evobench.Library.Program
import Mathlib.Order.WithBot
import Mathlib.Data.Rat.Defs
import Mathlib.Algebra.Order.Ring.Rat

/-!
# Priorities

A priority is an `f64` that is not NaN. The number is read exactly here: a rational, or one of the two
infinities; sums are exact, and the sum of opposite infinities is the one that is not a number.

`Priority` is linearly ordered (the source's `Ord`), and negation reverses the order (`neg_le_neg_iff`).
-/

namespace Evobench.SerdeTypes

open Library

/-- A priority level. -/
inductive Priority where
  /-- `-inf` -/
  | negInf
  /-- A finite number. -/
  | num (q : ℚ)
  /-- `inf` -/
  | posInf
deriving DecidableEq, Repr

/-- "not a comparable number: {0}" -/
inductive NonComparableNumber where
  /-- The number is NaN. -/
  | nan
deriving DecidableEq, Repr

namespace Priority

/-- The priority among the extended rationals. -/
def level : Priority → WithBot (WithTop ℚ)
  | negInf => ⊥
  | num q => ((q : WithTop ℚ) : WithBot (WithTop ℚ))
  | posInf => ((⊤ : WithTop ℚ) : WithBot (WithTop ℚ))

theorem level_injective : Function.Injective level := by
  intro a b h
  cases a with
  | negInf => cases b with
    | negInf => rfl
    | num q => cases h
    | posInf => cases h
  | num p => cases b with
    | negInf => cases h
    | num q =>
      simp only [level, WithBot.coe_inj, WithTop.coe_inj] at h
      rw [h]
    | posInf =>
      simp only [level, WithBot.coe_inj] at h
      cases h
  | posInf => cases b with
    | negInf => cases h
    | num q =>
      simp only [level, WithBot.coe_inj] at h
      cases h
    | posInf => rfl

instance : LinearOrder Priority := LinearOrder.lift' level level_injective

theorem le_def {a b : Priority} : a ≤ b ↔ a.level ≤ b.level := Iff.rfl

@[simp] theorem num_le_num {p q : ℚ} : num p ≤ num q ↔ p ≤ q := by
  simp [le_def, level, WithBot.coe_le_coe, WithTop.coe_le_coe]

@[simp] theorem negInf_le (a : Priority) : negInf ≤ a := bot_le (a := a.level)

@[simp] theorem le_posInf (a : Priority) : a ≤ posInf := by
  rw [le_def]
  cases a with
  | negInf => exact bot_le
  | num q => exact WithBot.coe_le_coe.2 le_top
  | posInf => exact le_rfl

/-- 0. -/
def normal : Priority := num 0

/-- The default priority. -/
def default : Priority := num 0

/-- Negation. -/
def neg : Priority → Priority
  | negInf => posInf
  | num q => num (-q)
  | posInf => negInf

@[simp] theorem not_posInf_le_num {q : ℚ} : ¬ posInf ≤ num q := by
  rw [le_def, level, level, WithBot.coe_le_coe, top_le_iff]
  exact WithTop.coe_ne_top

@[simp] theorem not_num_le_negInf {q : ℚ} : ¬ num q ≤ negInf := by
  rw [le_def, level, level, le_bot_iff]
  exact WithBot.coe_ne_bot

@[simp] theorem not_posInf_le_negInf : ¬ posInf ≤ negInf := by
  rw [le_def, level, level, le_bot_iff]
  exact WithBot.coe_ne_bot

/-- Negation reverses the order. -/
@[simp] theorem neg_le_neg_iff {a b : Priority} : a.neg ≤ b.neg ↔ b ≤ a := by
  cases a with
  | negInf => cases b <;> simp [neg]
  | num p => cases b <;> simp [neg]
  | posInf => cases b <;> simp [neg]

@[simp] theorem neg_inj {a b : Priority} : a.neg = b.neg ↔ a = b := by
  rw [le_antisymm_iff, neg_le_neg_iff, neg_le_neg_iff, and_comm, ← le_antisymm_iff]

/-- Addition, which gives an error if the sum is NaN. -/
def add : Priority → Priority → Except NonComparableNumber Priority
  | num p, num q => .ok (num (p + q))
  | negInf, posInf => .error .nan
  | posInf, negInf => .error .nan
  | negInf, _ => .ok negInf
  | _, negInf => .ok negInf
  | posInf, _ => .ok posInf
  | _, posInf => .ok posInf

end Priority

end Evobench.SerdeTypes

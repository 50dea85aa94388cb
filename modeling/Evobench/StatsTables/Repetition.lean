import Evobench.StatsTables.FromValues

/-!
# Weights mean repetition

A value with a weight counts like as many values with weight one. The code multiplies, and looks places up in the cumulated
weights; here this is compared with values that are written out one after the other.

## The model

* `plainStats`: the statistics of values in order, without weights. Nothing is compressed, and no number is bounded.
* `NoOverflow`: the count, the sum and the squared errors of weighted values fit the numbers of the code.

## What is proved

Where nothing overflows, `Stats.fromValuesAt` is `plainStats` of the values written out in order (`fromValuesAt_eq_plainStats`).
So **weights mean repetition, and the order does not matter** (`fromValues_repeated`).
-/

namespace Evobench.StatsTables

open Library

/-! ### Plain values -/

/-- The sum. -/
def sumOf (s : List UInt64) : ℕ := (s.map UInt64.toNat).sum

/-- The bits of the squared difference of a value to the average. -/
def squareBits (average : ℕ) (value : UInt64) : ℕ :=
  absdiff (value.toNat * 2 ^ 32) average * absdiff (value.toNat * 2 ^ 32) average / 2 ^ 32

/-- The sum of these. -/
def errorsOf (average : ℕ) (s : List UInt64) : ℕ := (s.map (squareBits average)).sum

/-- The statistics of values in order. -/
def plainStats (place : ℕ → ℕ → ℕ → ℕ) (tileCount : ℕ) (s : List UInt64) : Outcome StatsError Stats :=
  if s = [] then .err .noInputs
  else if sumOf s < 2 ^ 96 then do
    let average := sumOf s * 2 ^ 32 / s.length
    let (median, tiles) ← medianAndTilesOf s (place tileCount s.length) tileCount
    pure ⟨s.length, sumOf s, average, median, errorsOf average s / s.length, tiles⟩
  else .err .virtualSumDoesNotFitU96

/-! ### Written out -/

/-- A sum over the values written out. -/
theorem sum_map_expanded (f : UInt64 → ℕ) (vals : List WeightedValue) :
    ((expanded vals).map f).sum = (vals.map fun v => f v.value * v.weight.toNat).sum := by
  induction vals with
  | nil => rfl
  | cons v vals ih =>
    rw [show expanded (v :: vals) = List.replicate v.weight.toNat v.value ++ expanded vals from rfl, List.map_append,
      List.sum_append, ih, List.map_replicate, List.sum_replicate_nat, List.map_cons, List.sum_cons, Nat.mul_comm]

theorem sumOf_expanded (vals : List WeightedValue) : sumOf (expanded vals) = totalSum vals :=
  sum_map_expanded UInt64.toNat vals

theorem expanded_perm {vals vals' : List WeightedValue} (h : vals.Perm vals') : (expanded vals).Perm (expanded vals') :=
  h.flatMap_right _

theorem expanded_sorted_perm (vals : List WeightedValue) : (expanded (sorted vals)).Perm (expanded vals) :=
  expanded_perm (List.perm_insertionSort _ vals)

theorem sumOf_perm {s s' : List UInt64} (h : s.Perm s') : sumOf s = sumOf s' := (h.map _).sum_eq

theorem errorsOf_perm {s s' : List UInt64} (average : ℕ) (h : s.Perm s') : errorsOf average s = errorsOf average s' :=
  (h.map _).sum_eq

/-- The values written out in order are in order. -/
theorem pairwise_expanded {vals : List WeightedValue} (h : vals.Pairwise WeightedValue.le) :
    (expanded vals).Pairwise fun a b => a.toNat ≤ b.toNat := by
  induction h with
  | nil => exact List.Pairwise.nil
  | @cons v vals hle hvals ih =>
    refine List.pairwise_append.2 ⟨List.pairwise_replicate.2 (Or.inr (Nat.le_refl _)), ih, ?_⟩
    intro a ha b hb
    obtain ⟨w, hw, hb⟩ := List.mem_flatMap.1 hb
    rw [(List.mem_replicate.1 ha).2, (List.mem_replicate.1 hb).2]
    have hvw : WeightedValue.le v w := hle w hw
    unfold WeightedValue.le at hvw
    omega

theorem pairwise_expanded_sorted (vals : List WeightedValue) :
    (expanded (sorted vals)).Pairwise fun a b => a.toNat ≤ b.toNat :=
  pairwise_expanded (List.pairwise_insertionSort _ vals)

/-- The values written out in order only depend on the values written out. -/
theorem expanded_sorted_eq {vals vals' : List WeightedValue} (h : (expanded vals).Perm (expanded vals')) :
    expanded (sorted vals) = expanded (sorted vals') :=
  ((expanded_sorted_perm vals).trans (h.trans (expanded_sorted_perm vals').symm)).eq_of_pairwise
    (fun _ _ _ _ hab hba => UInt64.toNat_inj.1 (Nat.le_antisymm hab hba))
    (pairwise_expanded_sorted vals) (pairwise_expanded_sorted vals')

/-! ### Without overflow -/

/-- The sum of the weighted squared errors, without bounds. -/
def exactSquaredErrors (average : ℕ) (vals : List WeightedValue) : ℕ :=
  (vals.map fun v => squareBits average v.value * v.weight.toNat).sum

/-- **No number overflows**: the count, the sum, and, if there is an average, the squared errors fit. -/
structure NoOverflow (vals : List WeightedValue) : Prop where
  /-- The count fits 64 bits. -/
  count : totalWeight vals < 2 ^ 64
  /-- The sum fits 128 bits. -/
  sum : totalSum vals < 2 ^ 128
  /-- The squared errors fit the fixed-point numbers. -/
  errors : totalSum vals < 2 ^ 96 → exactSquaredErrors (totalSum vals * 2 ^ 32 / totalWeight vals) vals < 2 ^ 128

theorem errorsOf_expanded (average : ℕ) (vals : List WeightedValue) :
    errorsOf average (expanded vals) = exactSquaredErrors average vals := sum_map_expanded (squareBits average) vals

theorem squaredErrorBits_false (average : ℕ) (v : WeightedValue) : squaredErrorBits false average v =
    squareBits average v.value % 2 ^ 128 * v.weight.toNat % 2 ^ 128 := by
  rw [squaredErrorBits, squareBits]
  exact if_neg Bool.false_ne_true

/-- Errors that fit are calculated exactly. -/
theorem totalSquaredError_eq (debugAssertions : Bool) {average : ℕ} {vals : List WeightedValue}
    (h : exactSquaredErrors average vals < 2 ^ 128) :
    totalSquaredError debugAssertions average vals = exactSquaredErrors average vals := by
  refine congrArg List.sum (List.map_congr_left fun v hv => ?_)
  have hmem : squareBits average v.value * v.weight.toNat ∈
      vals.map fun v => squareBits average v.value * v.weight.toNat := List.mem_map.2 ⟨v, hv, rfl⟩
  have hle : squareBits average v.value * v.weight.toNat ≤ exactSquaredErrors average vals := List.le_sum_of_mem hmem
  have hsquare : squareBits average v.value ≤ squareBits average v.value * v.weight.toNat :=
    Nat.le_mul_of_pos_right _ v.pos
  cases debugAssertions with
  | true => rfl
  | false =>
    rw [squaredErrorBits_false, Nat.mod_eq_of_lt (show squareBits average v.value < 2 ^ 128 by omega),
      Nat.mod_eq_of_lt (by omega)]

/-- The numbers fit, whichever way the values are written. -/
theorem NoOverflow.of_perm {vals vals' : List WeightedValue} (hfits : NoOverflow vals)
    (h : (expanded vals).Perm (expanded vals')) : NoOverflow vals' := by
  have hcount : totalWeight vals = totalWeight vals' := by rw [← length_expanded, ← length_expanded, h.length_eq]
  have hsum : totalSum vals = totalSum vals' := by rw [← sumOf_expanded, ← sumOf_expanded, sumOf_perm h]
  obtain ⟨hcount', hsum', herrors⟩ := hfits
  rw [hcount] at hcount' herrors
  rw [hsum] at hsum' herrors
  refine ⟨hcount', hsum', fun hlt => ?_⟩
  rw [← errorsOf_expanded, ← errorsOf_perm _ h, errorsOf_expanded]
  exact herrors hlt

/-- **Without overflow, the statistics are those of the values written out in order.** -/
theorem fromValuesAt_eq_plainStats (place : ℕ → ℕ → ℕ → ℕ) (fixed : FixedArithmetic) (tileCount : ℕ)
    {vals : List WeightedValue} (hfits : NoOverflow vals) :
    Stats.fromValuesAt place fixed tileCount vals = plainStats place tileCount (expanded (sorted vals)) := by
  by_cases hne : vals = []
  · subst hne
    rfl
  have hsumOf : sumOf (expanded (sorted vals)) = totalSum vals := by
    rw [sumOf_perm (expanded_sorted_perm vals), sumOf_expanded]
  rw [plainStats, if_neg (expanded_sorted_ne_nil hne), hsumOf]
  simp only [length_expanded_sorted]
  by_cases hsum : totalSum vals < 2 ^ 96
  · have herrors := hfits.errors hsum
    have heq := totalSquaredError_eq fixed.debugAssertions herrors
    obtain ⟨herrorsFit, -⟩ := sumSquaredError_spec fixed (totalSum vals * 2 ^ 32 / totalWeight vals)
      (show 0 < 2 ^ 128 by decide) vals
    rw [Nat.zero_add, heq] at herrorsFit
    rw [fromValuesAt_eq place fixed tileCount hne hfits.count hsum, if_pos hsum, herrorsFit herrors, Outcome.ok_bind,
      div_count fixed herrors (totalWeight_pos hne), Outcome.ok_bind, errorsOf_perm _ (expanded_sorted_perm vals),
      errorsOf_expanded]
  · rw [Stats.fromValuesAt, if_neg hne, countAndSum_eq (by decide) (by decide), Nat.zero_add, Nat.zero_add,
      if_pos ⟨hfits.count, hfits.sum⟩, Outcome.ok_bind, if_neg hsum]
    exact if_neg hsum

/-! ### Repeated values -/

/-- A value that counts once. -/
def WeightedValue.once (value : UInt64) : WeightedValue := ⟨value, weightOne, by decide⟩

/-- Each value repeated as often as it counts, with weight one. -/
def repeated (vals : List WeightedValue) : List WeightedValue := (expanded vals).map WeightedValue.once

theorem expanded_repeated (vals : List WeightedValue) : expanded (repeated vals) = expanded vals := by
  rw [expanded, repeated, List.flatMap_map]
  exact List.flatMap_singleton' (expanded vals)

/-- **Weights mean repetition**, and the order does not matter. -/
theorem fromValues_repeated (fixed : FixedArithmetic) (tileCount : ℕ) {vals : List WeightedValue} (hfits : NoOverflow vals) :
    Stats.fromValues fixed tileCount (repeated vals) = Stats.fromValues fixed tileCount vals ∧
      ∀ vals' : List WeightedValue, vals'.Perm vals →
        Stats.fromValues fixed tileCount vals' = Stats.fromValues fixed tileCount vals := by
  have hsame : ∀ vals' : List WeightedValue, (expanded vals').Perm (expanded vals) →
      Stats.fromValues fixed tileCount vals' = Stats.fromValues fixed tileCount vals := by
    intro vals' hperm
    rw [Stats.fromValues_eq_fromValuesAt, Stats.fromValues_eq_fromValuesAt,
      fromValuesAt_eq_plainStats tileIndex fixed tileCount (hfits.of_perm hperm.symm),
      fromValuesAt_eq_plainStats tileIndex fixed tileCount hfits, expanded_sorted_eq hperm]
  constructor
  · exact hsame (repeated vals) (List.Perm.of_eq (expanded_repeated vals))
  · intro vals' hperm
    exact hsame vals' (expanded_perm hperm)

/-- Some values, one of them with a weight. -/
def sampleValues : List WeightedValue := [.once 23, .once 4, .once 9, .once 7, ⟨4, 2, by decide⟩]

theorem sampleValues_noOverflow : NoOverflow sampleValues :=
  ⟨by decide +kernel, by decide +kernel, fun _ => by decide +kernel⟩

/-- The statistics of the sample are those of `23, 4, 9, 7, 4, 4`. -/
theorem fromValues_repeated_sample :
    repeated sampleValues = [23, 4, 9, 7, 4, 4].map WeightedValue.once ∧
      Stats.fromValues (.documented false) 4 ([23, 4, 9, 7, 4, 4].map WeightedValue.once) =
        Stats.fromValues (.documented false) 4 sampleValues := by
  have hrepeated : repeated sampleValues = [23, 4, 9, 7, 4, 4].map WeightedValue.once := by decide +kernel
  refine ⟨hrepeated, ?_⟩
  rw [← hrepeated]
  exact (fromValues_repeated (.documented false) 4 sampleValues_noOverflow).1

end Evobench.StatsTables

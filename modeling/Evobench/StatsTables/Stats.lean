import Evobench.Library.Program
import Mathlib.Data.List.Sort
import Mathlib.Algebra.BigOperators.Group.List.Lemmas
import Mathlib.Algebra.Order.BigOperators.Group.List
import Mathlib.Tactic.Ring

/-!
# Descriptive statistics

`Stats.fromValues` calculates count, sum, average, variance, median and tiles of weighted values. It returns an error if
there are no values, or if their sum is too large for the fixed-point numbers that are used for the average; and it panics if
some number on the way does not fit.

## The model

* `WeightedValue`: a value, and how many times it counts.
* `FixedArithmetic`: what is documented about the fixed-point numbers `FixedU128<U32>`, on their bits: 96 bits are before
  the point and 32 behind it. A product that does not fit is a panic if the crate was built with debug assertions, and wraps
  around otherwise.
* `IndexedNumbers`: the values one after the other, to be looked up by index.
* `tileIndex`: the place of a tile, with floating-point numbers as in the source.

Numbers are unbounded here, with the checks for overflow written out; `usize` has 64 bits.
-/

namespace Evobench.StatsTables

open Library

/-! ### Values -/

/-- `StatsError` -/
inductive StatsError where
  /-- No inputs given. -/
  | noInputs
  /-- u128 saturated. -/
  | saturatedU128
  /-- The virtual count does not fit the usize range. -/
  | virtualCountDoesNotFitUSize
  /-- The virtual sum does not fit the U96 range. -/
  | virtualSumDoesNotFitU96
deriving DecidableEq

/-- Representation of statistical probes: their value with the count of skipped runs that need to be compensated for. -/
structure WeightedValue where
  /-- The original measured value. -/
  value : UInt64
  /-- How many times this should be counted. -/
  weight : UInt32
  /-- At least once. -/
  pos : 0 < weight.toNat
deriving DecidableEq

/-- `WEIGHT_ONE` -/
def weightOne : UInt32 := 1

namespace WeightedValue

/-- The sorting order: by the value, then by the weight. -/
def le (a b : WeightedValue) : Prop :=
  a.value.toNat < b.value.toNat ∨ a.value.toNat = b.value.toNat ∧ a.weight.toNat ≤ b.weight.toNat

instance : DecidableRel le := fun a b => by
  unfold le
  infer_instance

/-- The value, as often as it counts. -/
def product (v : WeightedValue) : ℕ := v.value.toNat * v.weight.toNat

instance : Std.Total le := ⟨fun a b => by
  unfold le
  omega⟩

instance : IsTrans WeightedValue le := ⟨fun a b c hab hbc => by
  unfold le at *
  omega⟩

instance : Std.Antisymm le := ⟨fun a b hab hba => by
  obtain ⟨av, aw, ha⟩ := a
  obtain ⟨bv, bw, hb⟩ := b
  unfold le at hab hba
  simp only at hab hba
  have hv : av = bv := UInt64.toNat_inj.1 (by omega)
  have hw : aw = bw := UInt32.toNat_inj.1 (by omega)
  subst hv hw
  rfl⟩

end WeightedValue

/-- The values one after the other, each as often as it counts: the index of the first one of each, and the value. -/
structure IndexedNumbers where
  /-- Index to value. -/
  indexToValue : List (ℕ × UInt64)
  /-- Index to position after the "end" of the last value. -/
  virtualLen : ℕ

namespace IndexedNumbers

/-- The indices of sorted values, from the given index on. -/
def fill : ℕ → List WeightedValue → Outcome StatsError IndexedNumbers
  | virtualLen, [] => .ok ⟨[], virtualLen⟩
  | virtualLen, v :: vs =>
    if virtualLen + v.weight.toNat < 2 ^ 64 then do
      let rest ← fill (virtualLen + v.weight.toNat) vs
      pure ⟨(virtualLen, v.value) :: rest.indexToValue, rest.virtualLen⟩
    else .panic "virtual_count is limited to u64 range above"

/-- `from_unsorted_weighted_value_vec` -/
def fromUnsortedWeightedValueVec (vals : List WeightedValue) : Outcome StatsError IndexedNumbers :=
  fill 0 (vals.insertionSort WeightedValue.le)

/-- The value at the index, or at the next-lower one. -/
def lookup (numbers : IndexedNumbers) (index : ℕ) : Option UInt64 :=
  ((numbers.indexToValue.filter fun entry => entry.1 ≤ index).getLast?).map Prod.snd

/-- `index` -/
def index (numbers : IndexedNumbers) (index : ℕ) : Outcome StatsError UInt64 :=
  if index < numbers.virtualLen then
    match numbers.lookup index with
    | some value => .ok value
    | none => .panic "we fill in index 0 thus will always find a value"
  else .panic "index must be smaller than the virtual_len, and IndexedNumbers must not be empty"

end IndexedNumbers

/-! ### Fixed-point numbers -/

/-- What is documented about the operations on `FixedU128<U32>`, on the bits of the numbers. Checks for overflow are on for
the primitive operations. -/
structure FixedArithmetic where
  /-- The crate was built with debug assertions. -/
  debugAssertions : Bool
  /-- The product. -/
  mul : ℕ → ℕ → Outcome StatsError ℕ
  /-- The quotient. -/
  div : ℕ → ℕ → Outcome StatsError ℕ
  /-- The sum. -/
  add : ℕ → ℕ → Outcome StatsError ℕ
  /-- A product that fits. -/
  mul_fits : ∀ a b, a * b / 2 ^ 32 < 2 ^ 128 → mul a b = .ok (a * b / 2 ^ 32)
  /-- A product that does not fit, with debug assertions. -/
  mul_panics : ∀ a b, debugAssertions = true → 2 ^ 128 ≤ a * b / 2 ^ 32 → ∃ msg, mul a b = .panic msg
  /-- A product that does not fit, without debug assertions. -/
  mul_wraps : ∀ a b, debugAssertions = false → mul a b = .ok (a * b / 2 ^ 32 % 2 ^ 128)
  /-- A quotient that fits. -/
  div_fits : ∀ a b, 0 < b → a * 2 ^ 32 / b < 2 ^ 128 → div a b = .ok (a * 2 ^ 32 / b)
  /-- A sum that fits. -/
  add_fits : ∀ a b, a + b < 2 ^ 128 → add a b = .ok (a + b)
  /-- A sum that does not fit. -/
  add_panics : ∀ a b, 2 ^ 128 ≤ a + b → ∃ msg, add a b = .panic msg

/-- The arithmetic as it is documented. -/
def FixedArithmetic.documented (debugAssertions : Bool) : FixedArithmetic where
  debugAssertions := debugAssertions
  mul a b := if a * b / 2 ^ 32 < 2 ^ 128 then .ok (a * b / 2 ^ 32)
    else if debugAssertions then .panic "overflow" else .ok (a * b / 2 ^ 32 % 2 ^ 128)
  div a b := if b = 0 then .panic "division by zero" else .ok (a * 2 ^ 32 / b)
  add a b := if a + b < 2 ^ 128 then .ok (a + b) else .panic "attempt to add with overflow"
  mul_fits a b h := if_pos h
  mul_panics a b hdebug h := ⟨"overflow", by rw [if_neg (Nat.not_lt.2 h), if_pos hdebug]⟩
  mul_wraps a b hdebug := by
    split
    · next h => rw [Nat.mod_eq_of_lt h]
    · rw [if_neg (by simp [hdebug])]
  div_fits a b hpos h := if_neg (by omega)
  add_fits a b h := if_pos h
  add_panics a b h := ⟨"attempt to add with overflow", if_neg (Nat.not_lt.2 h)⟩

/-- The difference. -/
def absdiff (a b : ℕ) : ℕ := if b < a then a - b else b - a

/-- The weighted squared difference of a value to the average, on the bits. -/
def squaredError (fixed : FixedArithmetic) (average : ℕ) (v : WeightedValue) : Outcome StatsError ℕ := do
  let square ← fixed.mul (absdiff (v.value.toNat * 2 ^ 32) average) (absdiff (v.value.toNat * 2 ^ 32) average)
  fixed.mul square (v.weight.toNat * 2 ^ 32)

/-- The sum of these. -/
def sumSquaredError (fixed : FixedArithmetic) (average : ℕ) : ℕ → List WeightedValue → Outcome StatsError ℕ
  | sum, [] => .ok sum
  | sum, v :: vs => do
    let error ← squaredError fixed average v
    let sum ← fixed.add sum error
    sumSquaredError fixed average sum vs

/-! ### The statistics -/

/-- The statistics of some values. -/
structure Stats where
  /-- How many they are. -/
  numValues : ℕ
  /-- Their sum. -/
  sum : ℕ
  /-- The bits of the average. -/
  average : ℕ
  /-- Interpolated and rounded up for even numbers of input values. -/
  median : UInt64
  /-- The bits of the mean squared difference from the mean. -/
  variance : ℕ
  /-- Percentiles. -/
  tiles : List UInt64
deriving DecidableEq

/-- `average` of two values: rounding up. -/
def averageOfTwo (a b : UInt64) : UInt64 := UInt64.ofNat ((a.toNat + b.toNat + 1) / 2)

/-- The count and the sum of the values. -/
def countAndSum : ℕ × ℕ → List WeightedValue → Outcome StatsError (ℕ × ℕ)
  | total, [] => .ok total
  | (count, sum), v :: vs =>
    if count + v.weight.toNat < 2 ^ 64 ∧ sum + v.product < 2 ^ 128 then
      countAndSum (count + v.weight.toNat, sum + v.product) vs
    else .panic "attempt to add with overflow"

/-- The place of a tile: `i as f64 / tiles_distances * vals_distances + 0.5`. -/
def tileIndex (tileCount virtualCount i : ℕ) : ℕ :=
  let valsDistances := (UInt64.ofNat (virtualCount - 1)).toFloat
  let tilesDistances := (UInt64.ofNat (tileCount - 1)).toFloat
  ((UInt64.ofNat i).toFloat / tilesDistances * valsDistances + 0.5).toUInt64.toNat

namespace IndexedNumbers

/-- The median. -/
def median (numbers : IndexedNumbers) : Outcome StatsError UInt64 :=
  let mid := numbers.virtualLen / 2
  if numbers.virtualLen % 2 = 0 then do
    let a ← numbers.index (mid - 1)
    let b ← numbers.index mid
    pure (averageOfTwo a b)
  else numbers.index mid

/-- The tiles with the given numbers. -/
def tiles (numbers : IndexedNumbers) (tileCount virtualCount : ℕ) : List ℕ → Outcome StatsError (List UInt64)
  | [] => .ok []
  | i :: is => do
    let val ← numbers.index (tileIndex tileCount virtualCount i)
    let vals ← numbers.tiles tileCount virtualCount is
    pure (val :: vals)

end IndexedNumbers

/-- `from_values` -/
def Stats.fromValues (fixed : FixedArithmetic) (tileCount : ℕ) (vals : List WeightedValue) :
    Outcome StatsError Stats :=
  if vals = [] then .err .noInputs
  else do
    let (virtualCount, virtualSum) ← countAndSum (0, 0) vals
    if virtualSum < 2 ^ 96 then do
      let average ← fixed.div (virtualSum * 2 ^ 32) (virtualCount * 2 ^ 32)
      let sumSquaredError ← sumSquaredError fixed average 0 vals
      let variance ← fixed.div sumSquaredError (virtualCount * 2 ^ 32)
      let indexedVals ← IndexedNumbers.fromUnsortedWeightedValueVec vals
      if indexedVals.virtualLen = virtualCount then do
        let median ← indexedVals.median
        let tiles ← indexedVals.tiles tileCount virtualCount (List.range tileCount)
        if (indexedVals.indexToValue.head?.map Prod.snd = tiles.head?) ∧
            (indexedVals.indexToValue.getLast?.map Prod.snd = tiles.getLast?) then
          pure ⟨virtualCount, virtualSum, average, median, variance, tiles⟩
        else .panic "assertion `left == right` failed"
      else .panic "assertion `left == right` failed"
    else .err .virtualSumDoesNotFitU96

/-! ### With other places -/

/-- The tiles with the given numbers, at the given places. -/
def IndexedNumbers.tilesAt (numbers : IndexedNumbers) (place : ℕ → ℕ) : List ℕ → Outcome StatsError (List UInt64)
  | [] => .ok []
  | i :: is => do
    let val ← numbers.index (place i)
    let vals ← numbers.tilesAt place is
    pure (val :: vals)

/-- The median, the tiles, and the checks of these. -/
def IndexedNumbers.medianAndTiles (numbers : IndexedNumbers) (place : ℕ → ℕ) (tileCount : ℕ) :
    Outcome StatsError (UInt64 × List UInt64) := do
  let median ← numbers.median
  let tiles ← numbers.tilesAt place (List.range tileCount)
  if (numbers.indexToValue.head?.map Prod.snd = tiles.head?) ∧
      (numbers.indexToValue.getLast?.map Prod.snd = tiles.getLast?) then
    pure (median, tiles)
  else .panic "assertion `left == right` failed"

/-- `from_values`, with a function for the places of the tiles: it is given the number of tiles and of values, and the number
of the tile. -/
def Stats.fromValuesAt (place : ℕ → ℕ → ℕ → ℕ) (fixed : FixedArithmetic) (tileCount : ℕ) (vals : List WeightedValue) :
    Outcome StatsError Stats :=
  if vals = [] then .err .noInputs
  else do
    let (virtualCount, virtualSum) ← countAndSum (0, 0) vals
    if virtualSum < 2 ^ 96 then do
      let average ← fixed.div (virtualSum * 2 ^ 32) (virtualCount * 2 ^ 32)
      let sumSquaredError ← sumSquaredError fixed average 0 vals
      let variance ← fixed.div sumSquaredError (virtualCount * 2 ^ 32)
      let indexedVals ← IndexedNumbers.fromUnsortedWeightedValueVec vals
      if indexedVals.virtualLen = virtualCount then do
        let (median, tiles) ← indexedVals.medianAndTiles (place tileCount virtualCount) tileCount
        pure ⟨virtualCount, virtualSum, average, median, variance, tiles⟩
      else .panic "assertion `left == right` failed"
    else .err .virtualSumDoesNotFitU96

theorem IndexedNumbers.tiles_eq_tilesAt (numbers : IndexedNumbers) (tileCount virtualCount : ℕ) (is : List ℕ) :
    numbers.tiles tileCount virtualCount is = numbers.tilesAt (tileIndex tileCount virtualCount) is := by
  induction is with
  | nil => rfl
  | cons i is ih => rw [IndexedNumbers.tiles, IndexedNumbers.tilesAt, ih]

/-- The source has its places. -/
theorem Stats.fromValues_eq_fromValuesAt (fixed : FixedArithmetic) (tileCount : ℕ) (vals : List WeightedValue) :
    Stats.fromValues fixed tileCount vals = Stats.fromValuesAt tileIndex fixed tileCount vals := by
  rw [Stats.fromValues, Stats.fromValuesAt]
  split
  · rfl
  · refine congrArg _ (funext fun total => ?_)
    obtain ⟨virtualCount, virtualSum⟩ := total
    simp only
    split
    · refine congrArg _ (funext fun average => ?_)
      refine congrArg _ (funext fun sumSquaredError => ?_)
      refine congrArg _ (funext fun variance => ?_)
      refine congrArg _ (funext fun indexedVals => ?_)
      split
      · rw [IndexedNumbers.medianAndTiles]
        cases indexedVals.median with
        | err e => rfl
        | panic msg => rfl
        | ok median =>
          simp only [Outcome.ok_bind, IndexedNumbers.tiles_eq_tilesAt]
          cases indexedVals.tilesAt (tileIndex tileCount virtualCount) (List.range tileCount) with
          | err e => rfl
          | panic msg => rfl
          | ok tiles =>
            simp only [Outcome.ok_bind]
            split
            · rfl
            · rfl
      · rfl
    · rfl
end Evobench.StatsTables

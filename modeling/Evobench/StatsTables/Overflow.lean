import Evobench.StatsTables.Repetition
import Evobench.StatsTables.TilePlaces

/-!
# Statistics that overflow

The formulas of `Stats.fromValues`, in fixed-point numbers with 32 fractional bits whose integer part has no bound
(`exactAverage`, `exactVariance`). `NeverOverflows` says that the code returns an error, or what these formulas give.

It does not always: a squared difference needs twice the bits, and nothing checks it. Without debug assertions, the variance
of `0` and `2 ^ 63` is `0` (`silent_overflow`). **`neverOverflows_iff`** says for which values all is well.
-/

namespace Evobench.StatsTables

open Library

/-! ### Without bounds -/

/-- A product, with the bits after the 32nd fractional one cut off. -/
def exactMul (a b : ℕ) : ℕ := a * b / 2 ^ 32

/-- A quotient, likewise. -/
def exactDiv (a b : ℕ) : ℕ := a * 2 ^ 32 / b

/-- The bits of the average. -/
def exactAverage (vals : List WeightedValue) : ℕ := exactDiv (totalSum vals * 2 ^ 32) (totalWeight vals * 2 ^ 32)

/-- The bits of the squared difference of a value to the average. -/
def exactSquare (average : ℕ) (v : WeightedValue) : ℕ :=
  exactMul (absdiff (v.value.toNat * 2 ^ 32) average) (absdiff (v.value.toNat * 2 ^ 32) average)

/-- The bits of the squared difference, as often as the value counts. -/
def exactError (average : ℕ) (v : WeightedValue) : ℕ := exactMul (exactSquare average v) (v.weight.toNat * 2 ^ 32)

/-- The bits of the sum of these. -/
def exactTotal (vals : List WeightedValue) : ℕ := (vals.map (exactError (exactAverage vals))).sum

/-- The bits of the variance. -/
def exactVariance (vals : List WeightedValue) : ℕ := exactDiv (exactTotal vals) (totalWeight vals * 2 ^ 32)

/-- The statistics are exact, and no product on the way is too large for 96 bits before the point. -/
def Exact (vals : List WeightedValue) (stats : Stats) : Prop :=
  stats.numValues = totalWeight vals ∧ stats.sum = totalSum vals ∧ stats.average = exactAverage vals ∧
    stats.variance = exactVariance vals ∧
      ∀ v ∈ vals, exactSquare (exactAverage vals) v < 2 ^ 128 ∧ exactError (exactAverage vals) v < 2 ^ 128

instance (vals : List WeightedValue) (stats : Stats) : Decidable (Exact vals stats) := by
  unfold Exact
  infer_instance

/-- **Nothing overflows**: there is an error, or the statistics are exact. The other operations panic if they overflow. -/
def NeverOverflows (fixed : FixedArithmetic) (tileCount : ℕ) (vals : List WeightedValue) : Prop :=
  match Stats.fromValues fixed tileCount vals with
  | .ok stats => Exact vals stats
  | .err _ => True
  | .panic _ => False

instance (fixed : FixedArithmetic) (tileCount : ℕ) (vals : List WeightedValue) :
    Decidable (NeverOverflows fixed tileCount vals) := by
  unfold NeverOverflows
  split
  · infer_instance
  · infer_instance
  · infer_instance

/-! ### The same numbers -/

section Same

variable {vals : List WeightedValue}

theorem exactAverage_eq (vals : List WeightedValue) : exactAverage vals = totalSum vals * 2 ^ 32 / totalWeight vals :=
  Nat.mul_div_mul_right _ _ (by decide)

theorem exactSquare_eq (average : ℕ) (v : WeightedValue) : exactSquare average v = squareBits average v.value := rfl

theorem exactError_eq (average : ℕ) (v : WeightedValue) :
    exactError average v = squareBits average v.value * v.weight.toNat := by
  rw [exactError, exactMul, mul_shift_div, exactSquare_eq]

theorem exactTotal_eq (vals : List WeightedValue) : exactTotal vals = exactSquaredErrors (exactAverage vals) vals := by
  exact congrArg List.sum (List.map_congr_left fun v _ => exactError_eq (exactAverage vals) v)

theorem exactVariance_eq (vals : List WeightedValue) :
    exactVariance vals = exactSquaredErrors (exactAverage vals) vals / totalWeight vals := by
  rw [exactVariance, exactDiv, Nat.mul_div_mul_right _ _ (by decide), exactTotal_eq]

/-- A part is not larger than the sum. -/
theorem exactError_le (average : ℕ) {v : WeightedValue} (hv : v ∈ vals) :
    exactSquare average v ≤ exactSquaredErrors average vals ∧ exactError average v ≤ exactSquaredErrors average vals := by
  have herror : exactError average v ≤ exactSquaredErrors average vals := by
    rw [exactError_eq]
    exact List.le_sum_of_mem (List.mem_map.2 ⟨v, hv, rfl⟩)
  have hsquare : exactSquare average v ≤ exactError average v := by
    rw [exactError_eq]
    exact Nat.le_mul_of_pos_right _ v.pos
  exact ⟨hsquare.trans herror, herror⟩

/-- Products that fit are calculated exactly. -/
theorem totalSquaredError_of_fits (debugAssertions : Bool) {average : ℕ}
    (h : ∀ v ∈ vals, exactSquare average v < 2 ^ 128 ∧ exactError average v < 2 ^ 128) :
    totalSquaredError debugAssertions average vals = exactSquaredErrors average vals := by
  refine congrArg List.sum (List.map_congr_left fun v hv => ?_)
  obtain ⟨hsquare, herror⟩ := h v hv
  rw [exactSquare_eq] at hsquare
  rw [exactError_eq] at herror
  cases debugAssertions with
  | true => rfl
  | false => rw [squaredErrorBits_false, Nat.mod_eq_of_lt hsquare, Nat.mod_eq_of_lt herror]

end Same

/-! ### When nothing overflows -/

/-- **When nothing overflows.** -/
theorem neverOverflows_iff (fixed : FixedArithmetic) {tileCount : ℕ} (htiles : 2 ≤ tileCount) (htiles64 : tileCount < 2 ^ 64)
    {vals : List WeightedValue} (hne : vals ≠ []) :
    NeverOverflows fixed tileCount vals ↔
      totalWeight vals < 2 ^ 64 ∧ totalSum vals < 2 ^ 128 ∧
        (totalSum vals < 2 ^ 96 → exactTotal vals < 2 ^ 128 ∧ LastTileFits (expanded (sorted vals))) := by
  rw [exactTotal_eq, exactAverage_eq]
  unfold NeverOverflows
  rcases fromValues_cases fixed tileCount hne with ⟨hfit, hsum, he⟩ | ⟨hfit, hsum, median, tiles, he⟩ | ⟨hfit, msg, he⟩
  · rw [he]
    exact iff_of_true trivial ⟨hfit.count, hfit.sum, fun h => absurd hsum (Nat.not_le.2 h)⟩
  · rw [he]
    simp only
    constructor
    · rintro ⟨-, -, -, -, hproducts⟩
      rw [exactAverage_eq] at hproducts
      refine ⟨hfit.count, hfit.sum, fun _ => ⟨?_, (tilesFit_iff htiles htiles64 hne hfit.count).1 (hfit.tiles hsum)⟩⟩
      rw [← totalSquaredError_of_fits fixed.debugAssertions hproducts]
      exact hfit.errors hsum
    · rintro ⟨-, -, h⟩
      obtain ⟨herrors, -⟩ := h hsum
      refine ⟨rfl, rfl, (exactAverage_eq vals).symm, ?_, fun v hv => ?_⟩
      · rw [exactVariance_eq, exactAverage_eq, totalSquaredError_eq fixed.debugAssertions herrors]
      · rw [exactAverage_eq]
        obtain ⟨hsquare, herror⟩ := exactError_le (totalSum vals * 2 ^ 32 / totalWeight vals) hv
        exact ⟨hsquare.trans_lt herrors, herror.trans_lt herrors⟩
  · rw [he]
    refine iff_of_false not_false ?_
    rintro ⟨hcount, hsum, h⟩
    refine hfit ⟨hcount, hsum, fun hlt => ?_, fun hlt => (tilesFit_iff htiles htiles64 hne hcount).2 (h hlt).2⟩
    rw [totalSquaredError_eq fixed.debugAssertions (h hlt).1]
    exact (h hlt).1

/-- The statistics of the sample do not overflow. -/
theorem neverOverflows_iff_sample : NeverOverflows (.documented false) 101 sampleValues := by
  have hcount : totalWeight sampleValues < 2 ^ 64 := by decide +kernel
  have hsum : totalSum sampleValues < 2 ^ 128 := by decide +kernel
  have herrors : exactTotal sampleValues < 2 ^ 128 := by decide +kernel
  have hlength : (expanded (sorted sampleValues)).length ≤ 2 ^ 52 := by decide +kernel
  have hne : sampleValues ≠ [] := List.cons_ne_nil _ _
  have hiff := neverOverflows_iff (.documented false) (show 2 ≤ 101 by norm_num) (show 101 < 2 ^ 64 by norm_num) hne
  rw [hiff]
  exact ⟨hcount, hsum, fun _ => ⟨herrors, .inl hlength⟩⟩

/-- Two values that are far from each other: `0` and `2 ^ 63`. -/
def farValues : List WeightedValue := [.once 0, .once 9223372036854775808]

/-- Without debug assertions, their variance is `0`, and nobody is told; with these, there is a panic. -/
theorem silent_overflow :
    (¬ NeverOverflows (.documented false) 101 farValues ∧
      ∃ stats, Stats.fromValues (.documented false) 101 farValues = .ok stats ∧ stats.variance = 0) ∧
    ¬ NeverOverflows (.documented true) 101 farValues := by
  have hvariance : (Stats.fromValues (.documented false) 101 farValues >>= fun stats => .ok stats.variance) = .ok 0 := by
    decide +kernel
  refine ⟨?_, by decide +kernel⟩
  obtain ⟨stats, hrun, hstats⟩ := Outcome.bind_eq_ok.1 hvariance
  have hzero : stats.variance = 0 := Outcome.ok.inj hstats
  unfold NeverOverflows
  rw [hrun]
  refine ⟨fun hexact => ?_, stats, rfl, hzero⟩
  obtain ⟨-, -, -, hexact, -⟩ := hexact
  rw [hzero] at hexact
  exact absurd hexact (by decide +kernel)

end Evobench.StatsTables

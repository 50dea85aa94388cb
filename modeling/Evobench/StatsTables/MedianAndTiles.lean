import Evobench.StatsTables.Repetition
import Mathlib.Algebra.Order.Field.Basic
import Mathlib.Algebra.Order.Floor.Semifield
import Mathlib.Data.Rat.Floor
import Mathlib.Tactic.GCongr

/-!
# Median and tiles

`Stats.fromValues` calculates the places of the tiles with floating-point numbers. Here these numbers are exact
(`exactTileIndex`), and median and tiles are compared with what they should be (`MedianAndTiles`): the value in the middle, or
the rounded average of the two in the middle, and the values at places that are spread evenly from the first to the last one.

**`medianAndTiles_right`**: for any values that do not overflow, and at least two tiles, that is what is calculated.
-/

namespace Evobench.StatsTables

open Library

/-! ### Rounding -/

/-- Rounded to the nearest number, and up in the middle. -/
def roundHalfUp (x : ℚ) : ℕ := ⌊x + 1 / 2⌋₊

theorem roundHalfUp_mono {x y : ℚ} (h : x ≤ y) : roundHalfUp x ≤ roundHalfUp y :=
  Nat.floor_mono (add_le_add_left h _)

@[simp] theorem roundHalfUp_natCast (n : ℕ) : roundHalfUp n = n := by
  rw [roundHalfUp, add_comm, Nat.floor_add_natCast (by norm_num), show ⌊(1 / 2 : ℚ)⌋₊ = 0 by norm_num, Nat.zero_add]

theorem roundHalfUp_half (n : ℕ) : roundHalfUp ((n : ℚ) / 2) = (n + 1) / 2 := by
  rw [roundHalfUp, ← add_div, show ((n : ℚ) + 1) / 2 = ((n + 1 : ℕ) : ℚ) / (2 : ℕ) by push_cast; rfl,
    Nat.floor_div_eq_div]

theorem toNat_averageOfTwo (a b : UInt64) :
    (averageOfTwo a b).toNat = roundHalfUp (((a.toNat : ℚ) + b.toNat) / 2) := by
  have ha := a.toNat_lt
  have hb := b.toNat_lt
  rw [averageOfTwo, UInt64.toNat_ofNat_of_lt' (by rw [UInt64.size]; omega), ← Nat.cast_add, roundHalfUp_half]

/-! ### Places -/

/-- The place of a tile, with exact numbers: `i / tiles_distances * vals_distances + 0.5`. -/
def exactTileIndex (tileCount virtualCount i : ℕ) : ℕ :=
  let valsDistances : ℚ := ((virtualCount - 1 : ℕ) : ℚ)
  let tilesDistances : ℚ := ((tileCount - 1 : ℕ) : ℚ)
  ⌊(i : ℚ) / tilesDistances * valsDistances + 1 / 2⌋₊

section Places

variable {tileCount virtualCount i j : ℕ}

theorem exactTileIndex_eq (tileCount virtualCount i : ℕ) : exactTileIndex tileCount virtualCount i =
    roundHalfUp ((i : ℚ) * ((virtualCount - 1 : ℕ) : ℚ) / ((tileCount - 1 : ℕ) : ℚ)) := by
  rw [roundHalfUp, ← div_mul_eq_mul_div]
  rfl

theorem exactTileIndex_mono (h : i ≤ j) :
    exactTileIndex tileCount virtualCount i ≤ exactTileIndex tileCount virtualCount j := by
  rw [exactTileIndex_eq, exactTileIndex_eq]
  refine roundHalfUp_mono ?_
  gcongr

@[simp] theorem exactTileIndex_zero : exactTileIndex tileCount virtualCount 0 = 0 := by
  rw [exactTileIndex_eq, Nat.cast_zero, zero_mul, zero_div]
  exact roundHalfUp_natCast 0

theorem exactTileIndex_last (htiles : 2 ≤ tileCount) :
    exactTileIndex tileCount virtualCount (tileCount - 1) = virtualCount - 1 := by
  have hpos : ((tileCount - 1 : ℕ) : ℚ) ≠ 0 := Nat.cast_ne_zero.2 (by omega)
  rw [exactTileIndex_eq, mul_div_cancel_left₀ _ hpos, roundHalfUp_natCast]

theorem exactTileIndex_le (htiles : 2 ≤ tileCount) (hi : i < tileCount) :
    exactTileIndex tileCount virtualCount i ≤ virtualCount - 1 := by
  have hlast : exactTileIndex tileCount virtualCount (tileCount - 1) = virtualCount - 1 := exactTileIndex_last htiles
  rw [← hlast]
  exact exactTileIndex_mono (by omega)

/-- Exact places fit. -/
theorem placesFit_exactTileIndex {s : List UInt64} (hne : s ≠ []) (htiles : 2 ≤ tileCount) :
    PlacesFit s (exactTileIndex tileCount s.length) tileCount := by
  have hpos := List.length_pos_iff.2 hne
  refine ⟨fun i hi => ?_, by omega, ?_, ?_⟩
  · have hle : exactTileIndex tileCount s.length i ≤ s.length - 1 := exactTileIndex_le htiles hi
    omega
  · rw [exactTileIndex_zero, List.head?_eq_getElem?]
  · rw [exactTileIndex_last htiles, List.getLast?_eq_getElem?]

end Places

/-! ### What median and tiles are -/

/-- The values one after the other, in order. -/
def sortedExpansion (vals : List WeightedValue) : List UInt64 :=
  (expanded vals).mergeSort fun a b => decide (a.toNat ≤ b.toNat)

theorem expanded_sorted_eq_sortedExpansion (vals : List WeightedValue) :
    expanded (sorted vals) = sortedExpansion vals := by
  have hpairwise : (sortedExpansion vals).Pairwise fun a b => a.toNat ≤ b.toNat := by
    have h : (sortedExpansion vals).Pairwise fun a b => decide (a.toNat ≤ b.toNat) = true :=
      List.pairwise_mergeSort (fun a b c hab hbc => by simp only [decide_eq_true_eq] at *; omega)
        (fun a b => by simp only [Bool.or_eq_true, decide_eq_true_eq]; omega) (expanded vals)
    exact h.imp fun hab => of_decide_eq_true hab
  exact ((expanded_sorted_perm vals).trans (List.mergeSort_perm _ _).symm).eq_of_pairwise
    (fun _ _ _ _ hab hba => UInt64.toNat_inj.1 (Nat.le_antisymm hab hba)) (pairwise_expanded_sorted vals) hpairwise

/-- What median and tiles of values in order should be. -/
structure MedianAndTiles (s : List UInt64) (tileCount : ℕ) (median : UInt64) (tiles : List UInt64) : Prop where
  /-- The value in the middle. -/
  median_odd : s.length % 2 = 1 → s[s.length / 2]? = some median
  /-- The average of the two in the middle, rounded up. -/
  median_even : s.length % 2 = 0 → ∃ a b, s[s.length / 2 - 1]? = some a ∧ s[s.length / 2]? = some b ∧
    median.toNat = roundHalfUp (((a.toNat : ℚ) + b.toNat) / 2)
  /-- So many tiles. -/
  length : tiles.length = tileCount
  /-- The places are in range. -/
  place_lt : ∀ i < tileCount, roundHalfUp ((i : ℚ) * ((s.length : ℚ) - 1) / ((tileCount : ℚ) - 1)) < s.length
  /-- The tiles are the values at these places. -/
  tile : ∀ i < tileCount, tiles[i]? = s[roundHalfUp ((i : ℚ) * ((s.length : ℚ) - 1) / ((tileCount : ℚ) - 1))]?
  /-- They do not decrease. -/
  nondecreasing : tiles.Pairwise fun a b => a.toNat ≤ b.toNat
  /-- The first one is the minimum. -/
  first : ∃ value ∈ s, tiles.head? = some value ∧ ∀ other ∈ s, value.toNat ≤ other.toNat
  /-- The last one is the maximum. -/
  last : ∃ value ∈ s, tiles.getLast? = some value ∧ ∀ other ∈ s, other.toNat ≤ value.toNat

section Right

variable {s : List UInt64} {tileCount : ℕ} {median : UInt64} {tiles : List UInt64}

theorem medianOf_odd (hodd : s.length % 2 = 1) (h : medianOf s = .ok median) : s[s.length / 2]? = some median := by
  rw [medianOf, if_neg (by omega)] at h
  obtain ⟨value, hvalue, hok⟩ := valueAt_of_lt (show s.length / 2 < s.length by omega)
  rw [hok] at h
  rw [hvalue, Outcome.ok.inj h]

theorem medianOf_even (heven : s.length % 2 = 0) (hne : s ≠ []) (h : medianOf s = .ok median) :
    ∃ a b, s[s.length / 2 - 1]? = some a ∧ s[s.length / 2]? = some b ∧ median = averageOfTwo a b := by
  have hpos := List.length_pos_iff.2 hne
  obtain ⟨a, ha, haok⟩ := valueAt_of_lt (show s.length / 2 - 1 < s.length by omega)
  obtain ⟨b, hb, hbok⟩ := valueAt_of_lt (show s.length / 2 < s.length by omega)
  rw [medianOf, if_pos heven, haok, Outcome.ok_bind, hbok, Outcome.ok_bind] at h
  exact ⟨a, b, ha, hb, (Outcome.ok.inj h).symm⟩

/-- A list in order, by places. -/
theorem le_of_places (hsorted : s.Pairwise fun a b => a.toNat ≤ b.toNat) {i j : ℕ} (hij : i ≤ j) {a b : UInt64}
    (ha : s[i]? = some a) (hb : s[j]? = some b) : a.toNat ≤ b.toNat := by
  obtain ⟨hi, rfl⟩ := List.getElem?_eq_some_iff.1 ha
  obtain ⟨hj, rfl⟩ := List.getElem?_eq_some_iff.1 hb
  rcases Nat.eq_or_lt_of_le hij with rfl | hlt
  · exact Nat.le_refl _
  · exact List.pairwise_iff_getElem.1 hsorted i j hi hj hlt

/-- Values at places that do not decrease. -/
theorem pairwise_of_places (hsorted : s.Pairwise fun a b => a.toNat ≤ b.toNat) {place : ℕ → ℕ}
    (hmono : ∀ i j, i ≤ j → place i ≤ place j) (htiles : ∀ i < tiles.length, tiles[i]? = s[place i]?) :
    tiles.Pairwise fun a b => a.toNat ≤ b.toNat := by
  refine List.pairwise_iff_getElem.2 fun i j hi hj hij => ?_
  have ha := (htiles i hi).symm.trans (List.getElem?_eq_getElem hi)
  have hb := (htiles j hj).symm.trans (List.getElem?_eq_getElem hj)
  exact le_of_places hsorted (hmono i j (Nat.le_of_lt hij)) ha hb

/-- Median and tiles at exact places. -/
theorem medianAndTilesOf_right (hsorted : s.Pairwise fun a b => a.toNat ≤ b.toNat) (hne : s ≠ []) (htiles : 2 ≤ tileCount) :
    ∃ median tiles, medianAndTilesOf s (exactTileIndex tileCount s.length) tileCount = .ok (median, tiles) ∧
      MedianAndTiles s tileCount median tiles := by
  have hpos := List.length_pos_iff.2 hne
  have hfits := placesFit_exactTileIndex hne htiles
  rcases medianAndTilesOf_spec (exactTileIndex tileCount s.length) tileCount hne with
    ⟨-, median, tiles, heq, hmedian, hmap⟩ | ⟨hnot, -⟩
  swap
  · exact absurd hfits hnot
  have hlength : tiles.length = tileCount := by simpa using congrArg List.length hmap
  have hplace : ∀ i : ℕ, roundHalfUp ((i : ℚ) * ((s.length : ℚ) - 1) / ((tileCount : ℚ) - 1)) =
      exactTileIndex tileCount s.length i := by
    intro i
    rw [exactTileIndex_eq, Nat.cast_sub (by omega), Nat.cast_sub (by omega), Nat.cast_one]
  obtain ⟨hhead, hlast⟩ := head?_of_map_some hmap (by omega)
  refine ⟨median, tiles, heq, ⟨fun hodd => medianOf_odd hodd hmedian, fun heven => ?_, hlength, fun i hi => ?_,
    fun i hi => ?_, ?_, ?_, ?_⟩⟩
  · obtain ⟨a, b, ha, hb, rfl⟩ := medianOf_even heven hne hmedian
    exact ⟨a, b, ha, hb, toNat_averageOfTwo a b⟩
  · rw [hplace]
    exact hfits.lt i hi
  · rw [hplace]
    exact getElem?_of_map_some hmap hi
  · refine pairwise_of_places hsorted (fun i j => exactTileIndex_mono) fun i hi => getElem?_of_map_some hmap ?_
    rwa [hlength] at hi
  · have hfirst : s[0]? = some s[0] := List.getElem?_eq_getElem hpos
    refine ⟨s[0], List.getElem_mem hpos, ?_, fun other hother => ?_⟩
    · rw [hhead, exactTileIndex_zero, hfirst]
    · obtain ⟨i, hi⟩ := List.mem_iff_getElem?.1 hother
      exact le_of_places hsorted (Nat.zero_le i) hfirst hi
  · have hend : s[s.length - 1]? = some (s[s.length - 1]) := List.getElem?_eq_getElem (by omega)
    refine ⟨s[s.length - 1], List.getElem_mem (by omega), ?_, fun other hother => ?_⟩
    · rw [hlast, exactTileIndex_last htiles, hend]
    · obtain ⟨i, hi, rfl⟩ := List.getElem_of_mem hother
      exact le_of_places hsorted (by omega) (List.getElem?_eq_getElem hi) hend

end Right

/-- **Median and tiles are right**, and no place is out of range, for all values that do not overflow. -/
theorem medianAndTiles_right (fixed : FixedArithmetic) {tileCount : ℕ} (htiles : 2 ≤ tileCount) {vals : List WeightedValue}
    (hne : vals ≠ []) (hfits : NoOverflow vals) (hsum : totalSum vals < 2 ^ 96) :
    ∃ stats, Stats.fromValuesAt exactTileIndex fixed tileCount vals = .ok stats ∧
      MedianAndTiles (sortedExpansion vals) tileCount stats.median stats.tiles := by
  have hsumOf : sumOf (expanded (sorted vals)) = totalSum vals := by
    rw [sumOf_perm (expanded_sorted_perm vals), sumOf_expanded]
  obtain ⟨median, tiles, heq, hright⟩ :=
    medianAndTilesOf_right (pairwise_expanded_sorted vals) (expanded_sorted_ne_nil hne) htiles
  rw [fromValuesAt_eq_plainStats exactTileIndex fixed tileCount hfits, plainStats, if_neg (expanded_sorted_ne_nil hne),
    hsumOf, if_pos hsum]
  simp only [heq, Outcome.ok_bind]
  rw [← expanded_sorted_eq_sortedExpansion]
  exact ⟨_, rfl, hright⟩

/-- The median of `4, 4, 4, 7, 9, 23` is `6`, and four tiles are `4, 4, 7, 23`. -/
theorem medianAndTiles_right_sample :
    MedianAndTiles (sortedExpansion sampleValues) 4 6 [4, 4, 7, 23] := by
  obtain ⟨stats, hstats, hright⟩ := medianAndTiles_right (.documented false) (show 2 ≤ 4 by decide)
    (show sampleValues ≠ [] from List.cons_ne_nil _ _) sampleValues_noOverflow (by decide +kernel)
  have hrun : Stats.fromValuesAt exactTileIndex (.documented false) 4 sampleValues =
      .ok ⟨6, 51, 36507222016, 6, 195778925909, [4, 4, 7, 23]⟩ := by decide +kernel
  rw [hrun] at hstats
  rw [← Outcome.ok.inj hstats] at hright
  exact hright

end Evobench.StatsTables

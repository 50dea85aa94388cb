import Evobench.Library.FloatText
import Evobench.Library.HalfUp
import Evobench.StatsTables.TilePlaces

/-!
# Selecting a field of the statistics

`StatsField.fromStr` reads the name of a field, or a fraction that selects a tile. The tile with the number `i` is the one
whose column has the heading `i / (tileCount - 1)`, but the fraction is multiplied by `tileCount`: so the tile that is selected
is the nearest one only if `InReach` holds (`selectsNearest_iff`), and for the fraction 1 it does not exist
(`maximum_not_selected`).

## The model

* `StatsField`, `StatsField.fromStr`: with floating-point numbers as in the source.
* `Stats.get`: the value of a field.
* `Reaches`: where the products begin that give at least some tile, after rounding.
-/

namespace Evobench.StatsTables

open Library Library.Binary64

/-! ### The source -/

/-- Selects a field of `Stats`, e.g. to calculate the stats for one of the Stats fields. -/
inductive StatsField where
  /-- The number of values. -/
  | n
  /-- Their sum. -/
  | sum
  /-- Their average. -/
  | average
  /-- Their median. -/
  | median
  /-- Their standard deviation. -/
  | sd
  /-- A tile. -/
  | tile (i : UInt32)
deriving DecidableEq

/-- Why a text is refused. -/
inductive StatsFieldError where
  /-- expecting one of n|sum|average|median|sd or a floating point number between 0 and 1, got: {x} -/
  | notBetween (x : Float)
  /-- expecting one of n|sum|average|median|sd or a floating point number between 0 and 1, floating point parse error for
  {s:?} -/
  | parseError (s : String)
deriving DecidableEq

/-- `from_str`: what is cut off of a number that is not negative is what `floor` takes away. -/
def StatsField.fromStr (tileCount : ℕ) (s : String) : Except StatsFieldError StatsField :=
  match s with
  | "n" | "N" => .ok .n
  | "sum" | "Sum" | "total" | "Total" => .ok .sum
  | "average" | "Average" | "avg" | "mean" => .ok .average
  | "median" | "Median" => .ok .median
  | "sd" | "SD" | "stdev" => .ok .sd
  | _ =>
    match f64FromStr s with
    | some x =>
      if 0.0 ≤ x ∧ x ≤ 1.00000000001 then .ok (.tile ((UInt64.ofNat tileCount).toFloat * x + 0.5).toUInt32)
      else .error (.notBetween x)
    | none => .error (.parseError s)

/-- `f64_from_fixed` -/
def f64FromFixed (bits : ℕ) : Float :=
  .ofModel (Float.Model.pack (Float.Model.UnpackedFloat.normalize .binary64 bits (-32) .positive))

/-- `u64_from_fixed`: rounding up beyond the last number is a panic if the crate was built with debug assertions, and wraps
around otherwise. -/
def u64FromFixed (debugAssertions : Bool) (bits : ℕ) : Outcome Empty (Option UInt64) :=
  if bits + 2 ^ 31 < 2 ^ 128 then
    .ok (if (bits + 2 ^ 31) / 2 ^ 32 < 2 ^ 64 then some (UInt64.ofNat ((bits + 2 ^ 31) / 2 ^ 32)) else none)
  else if debugAssertions then .panic "overflow"
  else .ok (some 0)

namespace Stats

/-- `average_u64` -/
def averageU64 (debugAssertions : Bool) (stats : Stats) : Outcome Empty UInt64 := do
  match ← u64FromFixed debugAssertions stats.average with
  | some n => pure n
  | none => .panic "average always fits its original number range"

/-- `standard_deviation_u64` -/
def standardDeviationU64 (stats : Stats) : UInt64 := ((f64FromFixed stats.variance).sqrt + 0.5).toUInt64

/-- `get` -/
def get (debugAssertions : Bool) (stats : Stats) : StatsField → Outcome Empty UInt64
  | .n =>
    if stats.numValues < 2 ^ 64 then .ok (UInt64.ofNat stats.numValues)
    else .panic "hopefully in range -- realistically it should be"
  | .sum =>
    if stats.sum < 2 ^ 64 then .ok (UInt64.ofNat stats.sum) else .panic "hopefully in range -- realistically it should be"
  | .average => stats.averageU64 debugAssertions
  | .median => .ok stats.median
  | .sd => .ok stats.standardDeviationU64
  | .tile i =>
    match stats.tiles[i.toNat]? with
    | some tile => .ok tile
    | none => .panic "index out of bounds"

theorem get_tile_of_lt (debugAssertions : Bool) {stats : Stats} {i : UInt32} (h : i.toNat < stats.tiles.length) :
    ∃ tile, stats.get debugAssertions (.tile i) = .ok tile ∧ stats.tiles[i.toNat]? = some tile := by
  refine ⟨stats.tiles[i.toNat], ?_, List.getElem?_eq_getElem h⟩
  simp only [get, List.getElem?_eq_getElem h]

end Stats

/-- **The fraction selects the nearest tile**, of those with the headings `i / (tileCount - 1)`. -/
structure SelectsNearest (tileCount : ℕ) (s : String) (x : ℚ) (i : UInt32) : Prop where
  /-- This tile is selected. -/
  fromStr : StatsField.fromStr tileCount s = .ok (.tile i)
  /-- There is such a tile. -/
  lt : i.toNat < tileCount
  /-- It can be looked up. -/
  get : ∀ debugAssertions (stats : Stats), stats.tiles.length = tileCount →
    ∃ tile, stats.get debugAssertions (.tile i) = .ok tile ∧ stats.tiles[i.toNat]? = some tile
  /-- No other one is nearer. -/
  nearest : ∀ j < tileCount, |x - i.toNat / (tileCount - 1 : ℕ)| ≤ |x - j / (tileCount - 1 : ℕ)|

/-! ### What is selected -/

/-- The products that give at least the tile `k`, after rounding: from half a tile before it, less half a unit in the last
place. -/
def Reaches : ℕ → ℚ → Prop
  | 0, _ => True
  | 1, v => 1 / 2 - 3 / 2 ^ 55 < v
  | k + 2, v => (k + 2 : ℕ) - 1 / 2 - 2 ^ ((Nat.log 2 (k + 1) : ℤ) - 53) ≤ v

/-- **A tile that is half a tile away at most has the product in its reach.** The last number of an `u32` has everything from
there on. -/
def InReach (tileCount : ℕ) (x : ℚ) : Prop :=
  ∃ k : ℕ, |((tileCount - 1 : ℕ) : ℚ) * x - k| ≤ 1 / 2 ∧ k < 2 ^ 32 ∧ Reaches k (nearest 53 tileCount * x) ∧
    (k + 1 < 2 ^ 32 → ¬ Reaches (k + 1) (nearest 53 tileCount * x))

/-- Half a unit in the last place is little. -/
theorem two_zpow_log_le (k : ℕ) : (2 : ℚ) ^ ((Nat.log 2 (k + 1) : ℤ) - 53) ≤ (k + 1) / 4 := by
  have hlog : ((2 ^ Nat.log 2 (k + 1) : ℕ) : ℚ) ≤ ((k + 1 : ℕ) : ℚ) := Nat.cast_le.2 (Nat.pow_log_le_self 2 (by omega))
  push_cast at hlog
  rw [zpow_sub₀ (by norm_num), zpow_natCast]
  refine div_le_div₀ (by positivity) hlog (by norm_num) ?_
  norm_num

theorem not_reaches_of_lt {k : ℕ} {v : ℚ} (hk : 0 < k) (hv : v < 1 / 4) : ¬ Reaches k v := by
  match k, hk with
  | 1, _ =>
    rw [Reaches, not_lt]
    norm_num
    linarith
  | k + 2, _ =>
    have hk : (0 : ℚ) ≤ k := Nat.cast_nonneg k
    have hlast := two_zpow_log_le k
    rw [Reaches, not_le]
    push_cast
    linarith

/-- Half a tile before it is enough. -/
theorem reaches_of_le {k : ℕ} {v : ℚ} (h : (k : ℚ) - 1 / 2 ≤ v) : Reaches k v := by
  match k with
  | 0 => trivial
  | 1 =>
    have hpos : (0 : ℚ) < 3 / 2 ^ 55 := by norm_num
    rw [Reaches]
    push_cast at h
    linarith
  | k + 2 =>
    rw [Reaches]
    linarith [two_zpow_pos ((Nat.log 2 (k + 1) : ℤ) - 53)]

theorem reaches_iff {k : ℕ} (hk : k ≤ 2 ^ 51) {v : ℚ} (hv : 0 < v) : k ≤ halfUp 53 v ↔ Reaches k v := by
  match k with
  | 0 => exact iff_of_true (Nat.zero_le _) trivial
  | 1 => exact one_le_halfUp_iff (by norm_num) hv
  | k + 2 =>
    rw [le_halfUp_iff (by omega) hk hv, Reaches]
    rfl

/-- A number below one is cut off. -/
theorem toUInt32_of_lt {a : Float} {y : ℚ} (h : IsNormal a y) (hy : y < 1) : a.toUInt32.toNat = 0 := by
  rw [h.toNat_toUInt32, Nat.floor_eq_zero.2 hy]
  rfl

variable {tileCount : ℕ} {a : Float} {x : ℚ}

/-- **The tile that is selected.** -/
theorem exists_tile (htiles : 2 ≤ tileCount) (htiles64 : tileCount < 2 ^ 64) (hx : value a = some x) (h0 : 0 ≤ x) (h1 : x ≤ 1) :
    ∃ n, ((UInt64.ofNat tileCount).toFloat * a + 0.5).toUInt32.toNat = min n (2 ^ 32 - 1) ∧
      ∀ k ≤ 2 ^ 32, k ≤ n ↔ Reaches k (nearest 53 tileCount * x) := by
  have hcount := isNormal_ofNat (show 0 < tileCount by omega) htiles64
  have hle := one_le_nearest (show 0 < tileCount by omega)
  have hge := nearest_le_pow (show 0 < tileCount by omega) htiles64
  -- Where the product is too small to matter, nothing is reached.
  have hsmall (h : IsSmall ((UInt64.ofNat tileCount).toFloat * a)) (hv : nearest 53 tileCount * x < 1 / 4) :
      ∃ n, ((UInt64.ofNat tileCount).toFloat * a + 0.5).toUInt32.toNat = min n (2 ^ 32 - 1) ∧
        ∀ k ≤ 2 ^ 32, k ≤ n ↔ Reaches k (nearest 53 tileCount * x) := by
    obtain ⟨y, hy, hlt⟩ := h.exists_add_half
    refine ⟨0, by rw [toUInt32_of_lt hy hlt]; rfl, fun k _ => ?_⟩
    rcases Nat.eq_zero_or_pos k with rfl | hk
    · exact iff_of_true (Nat.le_refl 0) trivial
    · exact iff_of_false (by omega) (not_reaches_of_lt hk hv)
  rcases cases_of_value hx h0 with ⟨⟨sign, ha⟩, rfl⟩ | hfinite
  · refine hsmall (hcount.isSmall_mul_zero ha) ?_
    rw [mul_zero]
    norm_num
  · have hpos : 0 < nearest 53 tileCount * x := mul_pos (by linarith) hfinite.pos
    rcases lt_or_ge (nearest 53 tileCount * x) (2 ^ (-1000 : ℤ)) with htiny | hmoderate
    · refine hsmall (hcount.isSmall_mul hfinite htiny) (htiny.trans ?_)
      rw [show (1 / 4 : ℚ) = 2 ^ (-2 : ℤ) by norm_num]
      exact zpow_lt_zpow_right₀ (by norm_num) (by norm_num)
    · have hupper : nearest 53 tileCount * x ≤ 2 ^ (64 : ℤ) :=
        calc nearest 53 tileCount * x ≤ nearest 53 tileCount * 1 := mul_le_mul_of_nonneg_left h1 (by linarith)
          _ ≤ 2 ^ (64 : ℤ) := by rwa [mul_one]
      have hproduct := hcount.mul_isFinite hfinite
        ⟨hmoderate, hupper.trans (zpow_le_zpow_right₀ (by norm_num) (by norm_num))⟩
      have hround : nearest 53 (nearest 53 tileCount * x) ≤ 2 ^ (64 : ℤ) := by
        rw [← nearest_two_zpow (p := 53) (by norm_num) 64]
        exact nearest_mono (by norm_num) hpos hupper
      have hsum : Moderate (nearest 53 (nearest 53 tileCount * x) + 1 / 2) := by
        refine moderate_of_le ?_ ?_
        · linarith [hproduct.pos, show (2 : ℚ) ^ (-64 : ℤ) ≤ 1 / 2 by norm_num]
        · linarith [show (2 : ℚ) ^ (64 : ℤ) + 1 / 2 ≤ 2 ^ (65 : ℤ) by norm_num]
      refine ⟨halfUp 53 (nearest 53 tileCount * x), (hproduct.add isNormal_half hsum).toNat_toUInt32, fun k hk => ?_⟩
      exact reaches_iff (hk.trans (by norm_num)) hpos

/-- The bound that is checked. -/
theorem isNormal_bound : IsNormal 1.00000000001 (4503599627415532 * 2 ^ (-52 : ℤ)) := by
  have hbound : (1.00000000001 : Float) =
      .ofModel (Float.Model.pack (.finite .positive 4503599627415532 (-52) (by norm_num))) := by
    decide +kernel
  have hnormal : Normal 4503599627415532 (-52) := ⟨by decide +kernel, by norm_num, by norm_num⟩
  refine ⟨4503599627415532, -52, by norm_num, hnormal, ?_, by norm_num⟩
  rw [hbound]
  exact unpack_pack _ hnormal

/-- The names of the other fields are not numbers. -/
theorem f64FromStr_names : ∀ name ∈ ["n", "N", "sum", "Sum", "total", "Total", "average", "Average", "avg", "mean", "median",
    "Median", "sd", "SD", "stdev"], f64FromStr name = none := by
  decide +kernel

theorem fromStr_of_value {s : String} (hs : f64FromStr s = some a) (hx : value a = some x) (h0 : 0 ≤ x) (h1 : x ≤ 1) :
    StatsField.fromStr tileCount s = .ok (.tile ((UInt64.ofNat tileCount).toFloat * a + 0.5).toUInt32) := by
  have hnames : ∀ name ∈ ["n", "N", "sum", "Sum", "total", "Total", "average", "Average", "avg", "mean", "median",
      "Median", "sd", "SD", "stdev"], s ≠ name := by
    rintro name hname rfl
    rw [f64FromStr_names s hname] at hs
    cases hs
  have hbound : x ≤ 4503599627415532 * 2 ^ (-52 : ℤ) := h1.trans (by norm_num)
  simp only [List.forall_mem_cons, List.not_mem_nil, false_imp_iff, implies_true, and_true] at hnames
  obtain ⟨h₁, h₂, h₃, h₄, h₅, h₆, h₇, h₈, h₉, h₁₀, h₁₁, h₁₂, h₁₃, h₁₄, h₁₅⟩ := hnames
  rw [StatsField.fromStr.eq_def]
  simp only [hs, zero_le_of_value hx h0, le_of_value hx h0 isNormal_bound hbound, and_self, if_true]

/-! ### What is nearest -/

theorem abs_sub_div (htiles : 2 ≤ tileCount) (x : ℚ) (k : ℕ) :
    |x - k / (tileCount - 1 : ℕ)| = |((tileCount - 1 : ℕ) : ℚ) * x - k| / (tileCount - 1 : ℕ) := by
  have hpos : (0 : ℚ) < (tileCount - 1 : ℕ) := Nat.cast_pos.2 (by omega)
  rw [← abs_of_pos hpos, ← abs_div, abs_of_pos hpos, sub_div, mul_div_cancel_left₀ _ hpos.ne']

/-- The whole number that is half a unit away at most. -/
theorem abs_sub_floor_le {y : ℚ} (hy : 0 ≤ y) : |y - ⌊y + 1 / 2⌋₊| ≤ 1 / 2 := by
  have hle := Nat.floor_le (show 0 ≤ y + 1 / 2 by linarith)
  have hlt := Nat.lt_floor_add_one (y + 1 / 2)
  rw [abs_le]
  constructor
  · linarith
  · linarith

/-- **The tiles that are nearest** are those that are half a tile away at most. -/
theorem nearest_tile_iff (htiles : 2 ≤ tileCount) (h0 : 0 ≤ x) (h1 : x ≤ 1) (k : ℕ) :
    (k < tileCount ∧ ∀ j < tileCount, |x - k / (tileCount - 1 : ℕ)| ≤ |x - j / (tileCount - 1 : ℕ)|) ↔
      |((tileCount - 1 : ℕ) : ℚ) * x - k| ≤ 1 / 2 := by
  have hpos : (0 : ℚ) < (tileCount - 1 : ℕ) := Nat.cast_pos.2 (by omega)
  have hle : ((tileCount - 1 : ℕ) : ℚ) * x ≤ (tileCount - 1 : ℕ) := mul_le_of_le_one_right hpos.le h1
  have hge : 0 ≤ ((tileCount - 1 : ℕ) : ℚ) * x := mul_nonneg hpos.le h0
  simp only [abs_sub_div htiles, div_le_div_iff_of_pos_right hpos]
  generalize ((tileCount - 1 : ℕ) : ℚ) * x = y at hle hge ⊢
  constructor
  · rintro ⟨-, hnearest⟩
    have hfloor : ⌊y + 1 / 2⌋₊ < tileCount := by
      have hlt : y + 1 / 2 < ((tileCount - 1 : ℕ) : ℚ) + 1 := by linarith
      rw [Nat.floor_lt (by linarith)]
      refine hlt.trans_le ?_
      exact_mod_cast (by omega : tileCount - 1 + 1 ≤ tileCount)
    exact (hnearest _ hfloor).trans (abs_sub_floor_le hge)
  · intro hk
    obtain ⟨hlo, hhi⟩ := abs_le.1 hk
    refine ⟨?_, fun j hj => ?_⟩
    · have hlt : (k : ℚ) < ((tileCount - 1 : ℕ) : ℚ) + 1 := by linarith
      have hlt' : k < tileCount - 1 + 1 := by exact_mod_cast hlt
      omega
    · rcases lt_trichotomy j k with hjk | rfl | hjk
      · have hcast : (j : ℚ) + 1 ≤ k := by exact_mod_cast hjk
        rw [abs_of_nonneg (show 0 ≤ y - j by linarith)]
        linarith
      · exact le_refl _
      · have hcast : (k : ℚ) + 1 ≤ j := by exact_mod_cast hjk
        rw [abs_of_nonpos (show y - j ≤ 0 by linarith)]
        linarith

/-- **When a fraction selects the nearest tile**: if the product is in the reach of one that is half a tile away at most. -/
theorem selectsNearest_iff (tileCount : ℕ) (htiles : 2 ≤ tileCount) (htiles64 : tileCount < 2 ^ 64) (s : String) (a : Float)
    (hs : f64FromStr s = some a) (x : ℚ) (hx : value a = some x) (h0 : 0 ≤ x) (h1 : x ≤ 1) :
    (∃ i, SelectsNearest tileCount s x i) ↔ InReach tileCount x := by
  obtain ⟨n, hn, hreaches⟩ := exists_tile htiles htiles64 hx h0 h1
  have hfromStr : StatsField.fromStr tileCount s = .ok (.tile ((UInt64.ofNat tileCount).toFloat * a + 0.5).toUInt32) :=
    fromStr_of_value hs hx h0 h1
  generalize ((UInt64.ofNat tileCount).toFloat * a + 0.5).toUInt32 = selected at hn hfromStr
  constructor
  · rintro ⟨i, hselected, hlt, -, hnearest⟩
    rw [hfromStr] at hselected
    obtain rfl := StatsField.tile.inj (Except.ok.inj hselected)
    refine ⟨selected.toNat, (nearest_tile_iff htiles h0 h1 _).1 ⟨hlt, hnearest⟩, selected.toNat_lt, ?_, fun hk => ?_⟩
    · exact (hreaches _ (by omega)).1 (by omega)
    · rw [← hreaches _ (by omega)]
      omega
  · rintro ⟨k, hk, hk32, hreach, hnot⟩
    have hselected : selected.toNat = k := by
      have hle := (hreaches k (by omega)).2 hreach
      by_cases hlast : k + 1 < 2 ^ 32
      · have hgt := (not_congr (hreaches (k + 1) (by omega))).2 (hnot hlast)
        omega
      · omega
    obtain ⟨hlt, hnearest⟩ := (nearest_tile_iff htiles h0 h1 k).2 hk
    subst hselected
    refine ⟨selected, hfromStr, hlt, fun debugAssertions stats hlength => ?_, hnearest⟩
    exact Stats.get_tile_of_lt debugAssertions (by omega)

/-- A quarter. -/
theorem selectsNearest_sample : InReach 101 (1 / 4) ∧ ∃ i, SelectsNearest 101 "0.25" (1 / 4) i := by
  have hreach : InReach 101 (1 / 4) := by
    have hcount : nearest 53 (101 : ℕ) = 101 := by
      have h := nearest_of_lt (p := 53) (m := 101) (by norm_num) (by norm_num) 0
      rwa [zpow_zero, mul_one] at h
    refine ⟨25, by norm_num, by norm_num, ?_, fun _ => ?_⟩
    · refine reaches_of_le ?_
      rw [hcount]
      norm_num
    · rw [hcount, Reaches, not_le]
      norm_num [Nat.log]
  have hread : f64FromStr "0.25" = some 0.25 := by decide +kernel
  have hvalue : value 0.25 = some (1 / 4) := by decide +kernel
  exact ⟨hreach, (selectsNearest_iff 101 (by norm_num) (by norm_num) "0.25" 0.25 hread (1 / 4) hvalue (by norm_num)
    (by norm_num)).2 hreach⟩

/-- The maximum is not selected, but a tile that does not exist. -/
theorem maximum_not_selected :
    f64FromStr "1" = some 1.0 ∧ value 1.0 = some 1 ∧ StatsField.fromStr 101 "1" = .ok (.tile 101) ∧
      (∀ debugAssertions (stats : Stats), stats.tiles.length = 101 →
        stats.get debugAssertions (.tile 101) = .panic "index out of bounds") ∧
      ¬ ∃ i, SelectsNearest 101 "1" 1 i := by
  have hselected : StatsField.fromStr 101 "1" = .ok (.tile 101) := by decide +kernel
  refine ⟨by decide +kernel, by decide +kernel, hselected, fun debugAssertions stats hlength => ?_, ?_⟩
  · have hnone : stats.tiles[(101 : UInt32).toNat]? = none := List.getElem?_eq_none hlength.le
    simp only [Stats.get, hnone]
  · rintro ⟨i, hi, hlt, -, -⟩
    rw [hselected] at hi
    obtain rfl := StatsField.tile.inj (Except.ok.inj hi)
    exact absurd hlt (by decide)

/-! ### Where the count of tiles fits an `u32` -/

/-- There the product must not reach the tile after the one that is nearest. -/
theorem inReach_iff_of_lt (htiles : 2 ≤ tileCount) (htiles32 : tileCount < 2 ^ 32) (h0 : 0 ≤ x) (h1 : x ≤ 1) :
    InReach tileCount x ↔ ¬ Reaches (⌊((tileCount - 1 : ℕ) : ℚ) * x + 1 / 2⌋₊ + 1) (tileCount * x) := by
  have hcount : nearest 53 tileCount = tileCount := by
    have h := nearest_of_lt (p := 53) (m := tileCount) (by omega) (by omega) 0
    rwa [zpow_zero, mul_one] at h
  have hpos : (0 : ℚ) ≤ (tileCount - 1 : ℕ) := Nat.cast_nonneg _
  have hy : 0 ≤ ((tileCount - 1 : ℕ) : ℚ) * x := mul_nonneg hpos h0
  have hle : ((tileCount - 1 : ℕ) : ℚ) * x ≤ tileCount * x :=
    mul_le_mul_of_nonneg_right (Nat.cast_le.2 (Nat.sub_le _ _)) h0
  have hnear := abs_sub_floor_le hy
  have hlt := ((nearest_tile_iff htiles h0 h1 _).2 hnear).1
  rw [InReach, hcount]
  constructor
  · rintro ⟨k, hk, hk32, -, hnot⟩
    obtain ⟨hlo, hhi⟩ := abs_le.1 hk
    have hklt := ((nearest_tile_iff htiles h0 h1 k).2 hk).1
    have hnext := hnot (by omega)
    -- In the middle between two tiles the second one is reached.
    have hfloor : ⌊((tileCount - 1 : ℕ) : ℚ) * x + 1 / 2⌋₊ = k := by
      rw [Nat.floor_eq_iff (by linarith)]
      refine ⟨by linarith, ?_⟩
      by_contra hge
      refine hnext (reaches_of_le ?_)
      push_cast
      linarith
    rwa [hfloor]
  · intro hnot
    refine ⟨_, hnear, by omega, reaches_of_le ?_, fun _ => hnot⟩
    obtain ⟨hlo, -⟩ := abs_le.1 hnear
    linarith

/-- The maximum is never selected. -/
theorem not_inReach_one (htiles : 2 ≤ tileCount) (htiles32 : tileCount < 2 ^ 32) : ¬ InReach tileCount 1 := by
  rw [inReach_iff_of_lt htiles htiles32 zero_le_one le_rfl, not_not]
  have hfloor : ⌊((tileCount - 1 : ℕ) : ℚ) * 1 + 1 / 2⌋₊ = tileCount - 1 := by
    rw [mul_one, Nat.floor_eq_iff (by positivity)]
    constructor
    · linarith
    · linarith
  rw [hfloor, Nat.sub_add_cancel (by omega), mul_one]
  exact reaches_of_le (by linarith)

/-- The minimum always is. -/
theorem inReach_zero (htiles : 2 ≤ tileCount) (htiles32 : tileCount < 2 ^ 32) : InReach tileCount 0 := by
  rw [inReach_iff_of_lt htiles htiles32 le_rfl zero_le_one]
  exact not_reaches_of_lt (Nat.succ_pos _) (by rw [mul_zero]; norm_num)

end Evobench.StatsTables

import Evobench.Library.Binary64
import Evobench.StatsTables.FromValues

/-!
# The places of the tiles

`tileIndex` calculates the place of a tile with floating-point numbers. The last tile is the one that is checked against the
greatest value: its place is found by rounding twice (`tileIndex_last`), and no other tile has a greater place
(`tileIndex_le_last`). So whether the tiles fit depends on the last one only, and it does for all counts up to `2 ^ 52`
(`tilesFit_iff`).
-/

namespace Evobench.StatsTables

open Library Library.Binary64

/-! ### Numbers that are converted -/

section Converted

variable {n : ℕ}

theorem toNat_ofNat64 (hlt : n < 2 ^ 64) : (UInt64.ofNat n).toNat = n := UInt64.toNat_ofNat_of_lt' hlt

theorem isNormal_ofNat (hpos : 0 < n) (hlt : n < 2 ^ 64) : IsNormal (UInt64.ofNat n).toFloat (nearest 53 n) := by
  have h := isNormal_toFloat (n := UInt64.ofNat n) (by rwa [toNat_ofNat64 hlt])
  rwa [toNat_ofNat64 hlt] at h

theorem one_le_nearest (hpos : 0 < n) : 1 ≤ nearest 53 n := by
  have hone := nearest_two_zpow (p := 53) (by norm_num) 0
  rw [zpow_zero] at hone
  rw [← hone]
  exact nearest_mono (by norm_num) one_pos (by exact_mod_cast hpos)

theorem nearest_le_pow (hpos : 0 < n) (hlt : n < 2 ^ 64) : nearest 53 n ≤ 2 ^ (64 : ℤ) := by
  rw [← nearest_two_zpow (p := 53) (by norm_num) 64]
  exact nearest_mono (by norm_num) (Nat.cast_pos.2 hpos) (by exact_mod_cast hlt.le)

end Converted

/-- Between these, everything is moderate. -/
theorem moderate_of_le {x : ℚ} (hle : 2 ^ (-64 : ℤ) ≤ x) (hge : x ≤ 2 ^ (65 : ℤ)) : Moderate x :=
  ⟨(zpow_le_zpow_right₀ (by norm_num) (by norm_num)).trans hle,
    hge.trans (zpow_le_zpow_right₀ (by norm_num) (by norm_num))⟩

/-! ### The last place -/

/-- The place of the last tile: the distance between the first and the last value, rounded, and rounded again with a half
added. -/
def lastPlace (virtualCount : ℕ) : ℕ :=
  min ⌊nearest 53 (nearest 53 (virtualCount - 1 : ℕ) + 1 / 2)⌋₊ (2 ^ 64 - 1)

section Places

variable {tileCount virtualCount i : ℕ}

theorem tileIndex_eq (tileCount virtualCount i : ℕ) : tileIndex tileCount virtualCount i =
    ((UInt64.ofNat i).toFloat / (UInt64.ofNat (tileCount - 1)).toFloat * (UInt64.ofNat (virtualCount - 1)).toFloat +
      0.5).toUInt64.toNat := rfl

/-- Nothing and a half. -/
theorem toNat_zero_add_half {a : Float} (ha : IsZero a) : (a + 0.5).toUInt64.toNat = 0 := by
  rw [(ha.add isNormal_half).toNat_toUInt64]
  norm_num

theorem tileIndex_zero (htiles : 2 ≤ tileCount) (htiles64 : tileCount < 2 ^ 64) (hcount64 : virtualCount < 2 ^ 64) :
    tileIndex tileCount virtualCount 0 = 0 := by
  have htile := isNormal_ofNat (show 0 < tileCount - 1 by omega) (by omega)
  rw [tileIndex_eq]
  refine toNat_zero_add_half ?_
  rcases Nat.eq_zero_or_pos (virtualCount - 1) with hzero | hpos
  · rw [hzero]
    exact (isZero_toFloat.div htile).mul (y := 0) (.inl isZero_toFloat)
  · exact (isZero_toFloat.div htile).mul (.inr (isNormal_ofNat hpos (by omega)))

/-- How far a tile is. -/
theorem isNormal_quotient (hpos : 0 < i) (hi : i < tileCount) (htiles64 : tileCount < 2 ^ 64) :
    ∃ q : ℚ, IsNormal ((UInt64.ofNat i).toFloat / (UInt64.ofNat (tileCount - 1)).toFloat) q ∧ 2 ^ (-64 : ℤ) ≤ q ∧ q ≤ 1 ∧
      (i = tileCount - 1 → q = 1) := by
  have hx := one_le_nearest hpos
  have hy := one_le_nearest (show 0 < tileCount - 1 by omega)
  have hylt := nearest_le_pow (show 0 < tileCount - 1 by omega) (by omega)
  have hxy : nearest 53 i ≤ nearest 53 (tileCount - 1 : ℕ) :=
    nearest_mono (by norm_num) (Nat.cast_pos.2 hpos) (Nat.cast_le.2 (by omega))
  have hle : (2 : ℚ) ^ (-64 : ℤ) ≤ nearest 53 i / nearest 53 (tileCount - 1 : ℕ) := by
    rw [le_div_iff₀ (by linarith)]
    calc (2 : ℚ) ^ (-64 : ℤ) * nearest 53 (tileCount - 1 : ℕ) ≤ 2 ^ (-64 : ℤ) * 2 ^ (64 : ℤ) := by gcongr
      _ = 1 := by rw [← zpow_add₀ (by norm_num)]; rfl
      _ ≤ nearest 53 i := hx
  have hge : nearest 53 i / nearest 53 (tileCount - 1 : ℕ) ≤ 1 := (div_le_one (by linarith)).2 hxy
  have hone : nearest 53 1 = 1 := by
    have h := nearest_two_zpow (p := 53) (by norm_num) 0
    rwa [zpow_zero] at h
  have hmoderate := moderate_of_le hle (hge.trans (by norm_num))
  refine ⟨_, (isNormal_ofNat hpos (by omega)).div (isNormal_ofNat (by omega) (by omega)) hmoderate, ?_, ?_, ?_⟩
  · rw [← nearest_two_zpow (p := 53) (by norm_num) (-64)]
    exact nearest_mono (by norm_num) (two_zpow_pos _) hle
  · rw [← hone]
    exact nearest_mono (by norm_num) hmoderate.pos hge
  · rintro rfl
    rw [div_self (by linarith), hone]

/-- One value. -/
theorem tileIndex_one (htiles : 2 ≤ tileCount) (htiles64 : tileCount < 2 ^ 64) (hi : i < tileCount) :
    tileIndex tileCount 1 i = 0 := by
  rcases Nat.eq_zero_or_pos i with rfl | hpos
  · exact tileIndex_zero htiles htiles64 (by norm_num)
  · obtain ⟨q, hq, -, -, -⟩ := isNormal_quotient hpos hi htiles64
    exact toNat_zero_add_half (hq.mul_zero isZero_toFloat)

/-- The place of a tile, from how far it is. -/
theorem toNat_place {a b : Float} {q v : ℚ} (ha : IsNormal a q) (hb : IsNormal b v) (hq : 2 ^ (-64 : ℤ) ≤ q) (hq1 : q ≤ 1)
    (hv : 1 ≤ v) (hv64 : v ≤ 2 ^ (64 : ℤ)) :
    (a * b + 0.5).toUInt64.toNat = min ⌊nearest 53 (nearest 53 (q * v) + 1 / 2)⌋₊ (2 ^ 64 - 1) ∧
      nearest 53 (q * v) ≤ v := by
  have hproduct : q * v ≤ v := by
    calc q * v ≤ 1 * v := by gcongr
      _ = v := one_mul v
  have hproduct' : (2 : ℚ) ^ (-64 : ℤ) ≤ q * v := by
    calc (2 : ℚ) ^ (-64 : ℤ) = 2 ^ (-64 : ℤ) * 1 := (mul_one _).symm
      _ ≤ q * v := by gcongr
  have hmoderate := moderate_of_le hproduct' ((hproduct.trans hv64).trans (by norm_num))
  have hle : nearest 53 (q * v) ≤ v :=
    calc nearest 53 (q * v) ≤ nearest 53 v := nearest_mono (by norm_num) hmoderate.pos hproduct
      _ = v := hb.nearest_eq
  have hpos : 0 < nearest 53 (q * v) := nearest_pos (by norm_num) hmoderate.pos
  have hsum : Moderate (nearest 53 (q * v) + 1 / 2) := by
    refine moderate_of_le ?_ ?_
    · linarith [show (2 : ℚ) ^ (-64 : ℤ) ≤ 1 / 2 by norm_num]
    · linarith [show (2 : ℚ) ^ (64 : ℤ) + 1 / 2 ≤ 2 ^ (65 : ℤ) by norm_num]
  exact ⟨((ha.mul hb hmoderate).add isNormal_half hsum).toNat_toUInt64, hle⟩

/-- **The place of the last tile.** -/
theorem tileIndex_last (htiles : 2 ≤ tileCount) (htiles64 : tileCount < 2 ^ 64) (hcount : 2 ≤ virtualCount)
    (hcount64 : virtualCount < 2 ^ 64) : tileIndex tileCount virtualCount (tileCount - 1) = lastPlace virtualCount := by
  obtain ⟨q, hq, hqle, hqge, hlast⟩ := isNormal_quotient (show 0 < tileCount - 1 by omega) (by omega) htiles64
  have hv := isNormal_ofNat (show 0 < virtualCount - 1 by omega) (by omega)
  have hplace := toNat_place hq hv hqle hqge (one_le_nearest (by omega)) (nearest_le_pow (by omega) (by omega))
  rw [tileIndex_eq, hplace.1, hlast rfl, one_mul, hv.nearest_eq]
  rfl

/-- **No other tile is after the last one.** -/
theorem tileIndex_le_last (htiles64 : tileCount < 2 ^ 64) (hcount : 2 ≤ virtualCount)
    (hcount64 : virtualCount < 2 ^ 64) (hi : i < tileCount) (hpos : 0 < i) :
    tileIndex tileCount virtualCount i ≤ lastPlace virtualCount := by
  obtain ⟨q, hq, hqle, hqge, -⟩ := isNormal_quotient hpos hi htiles64
  have hv := isNormal_ofNat (show 0 < virtualCount - 1 by omega) (by omega)
  have hplace := toNat_place hq hv hqle hqge (one_le_nearest (by omega)) (nearest_le_pow (by omega) (by omega))
  have hproduct : 0 < nearest 53 (q * nearest 53 (virtualCount - 1 : ℕ)) := by
    refine nearest_pos (by norm_num) (mul_pos hq.pos ?_)
    exact hv.pos
  rw [tileIndex_eq, hplace.1, lastPlace]
  refine min_le_min_right _ (Nat.floor_mono (nearest_mono (by norm_num) (by linarith) ?_))
  linarith [hplace.2]

end Places

/-! ### When it is the place of the last value -/

theorem lastPlace_of_lt {n : ℕ} (hn : 2 ≤ n) (hlt : n ≤ 2 ^ 52) : lastPlace n = n - 1 := by
  obtain ⟨w, rfl⟩ : ∃ w, n = w + 1 := ⟨n - 1, by omega⟩
  have hexact : nearest 53 ((w : ℚ) * 2 ^ (0 : ℤ)) = (w : ℚ) * 2 ^ (0 : ℤ) := nearest_of_lt (by omega) (by omega) 0
  rw [zpow_zero, mul_one] at hexact
  have hhalf : nearest 53 (((2 * w + 1 : ℕ) : ℚ) * 2 ^ (-1 : ℤ)) = ((2 * w + 1 : ℕ) : ℚ) * 2 ^ (-1 : ℤ) :=
    nearest_of_lt (by omega) (by omega) (-1)
  have hvalue : ((2 * w + 1 : ℕ) : ℚ) * 2 ^ (-1 : ℤ) = w + 1 / 2 := by
    push_cast
    ring
  rw [hvalue] at hhalf
  have hfloor : ⌊(w : ℚ) + 1 / 2⌋₊ = w := (Nat.floor_eq_iff (by positivity)).2 ⟨by linarith, by linarith⟩
  rw [lastPlace, Nat.add_sub_cancel, hexact, hhalf, hfloor]
  omega

theorem lastPlace_of_lt' {n : ℕ} (hn : 2 ^ 52 < n) (hlt : n ≤ 2 ^ 53) : lastPlace n = n - 1 + (n - 1) % 2 := by
  obtain ⟨w, rfl⟩ : ∃ w, n = w + 1 := ⟨n - 1, by omega⟩
  have hexact : nearest 53 ((w : ℚ) * 2 ^ (0 : ℤ)) = (w : ℚ) * 2 ^ (0 : ℤ) := nearest_of_lt (by omega) (by omega) 0
  rw [zpow_zero, mul_one] at hexact
  rw [lastPlace, Nat.add_sub_cancel, hexact, nearest_add_half_even (by norm_num) (by omega) (by omega), Nat.floor_natCast]
  omega

theorem lastPlace_of_gt {n : ℕ} (hn : 2 ^ 53 < n) (hlt : n < 2 ^ 64) :
    ∃ m : ℕ, nearest 53 (n - 1 : ℕ) = m ∧ lastPlace n = min m (2 ^ 64 - 1) := by
  obtain ⟨m, hm⟩ := exists_nearest_natCast (p := 53) (n := n - 1) (by omega)
  refine ⟨m, hm, ?_⟩
  have hpow : ((2 ^ 53 : ℕ) : ℚ) = 2 ^ (53 : ℤ) := by norm_num
  have hge : 2 ^ 53 ≤ m := by
    have hmono : nearest 53 ((2 ^ 53 : ℕ) : ℚ) ≤ nearest 53 ((n - 1 : ℕ) : ℚ) :=
      nearest_mono (by norm_num) (by norm_num) (Nat.cast_le.2 (by omega))
    rw [hpow, nearest_two_zpow (by norm_num), ← hpow, hm] at hmono
    exact Nat.cast_le.1 hmono
  have hfixed : nearest 53 (m : ℚ) = m := by
    rw [← hm]
    exact (isNormal_ofNat (by omega) (by omega)).nearest_eq
  rw [lastPlace, hm, nearest_add_half hge hfixed, Nat.floor_natCast]

/-- **The last tile fits**: it is at the place of the last value, or at one before it with the same value. -/
def LastTileFits (s : List UInt64) : Prop :=
  s.length ≤ 2 ^ 52 ∨ (s.length ≤ 2 ^ 53 ∧ s.length % 2 = 1) ∨
    (2 ^ 53 < s.length ∧ nearest 53 (s.length - 1 : ℕ) ≤ (s.length - 1 : ℕ) ∧
      s[⌊nearest 53 (s.length - 1 : ℕ)⌋₊]? = s.getLast?)

theorem lastPlace_fits {s : List UInt64} (hn : 2 ≤ s.length) (hlt : s.length < 2 ^ 64) :
    (lastPlace s.length < s.length ∧ s[lastPlace s.length]? = s.getLast?) ↔ LastTileFits s := by
  rw [LastTileFits]
  rcases Nat.lt_or_ge (2 ^ 52) s.length with hgt | hle
  · rcases Nat.lt_or_ge (2 ^ 53) s.length with hgt' | hle'
    · obtain ⟨m, hm, hplace⟩ := lastPlace_of_gt hgt' hlt
      rw [hplace, hm, Nat.floor_natCast, Nat.cast_le]
      constructor
      · rintro ⟨hm', hvalue⟩
        rw [Nat.min_eq_left (by omega)] at hm' hvalue
        exact .inr (.inr ⟨hgt', by omega, hvalue⟩)
      · rintro (h | ⟨h, -⟩ | ⟨-, hm', hvalue⟩)
        · omega
        · omega
        · rw [Nat.min_eq_left (by omega)]
          exact ⟨by omega, hvalue⟩
    · rw [lastPlace_of_lt' hgt hle', List.getLast?_eq_getElem?]
      constructor
      · rintro ⟨h, -⟩
        exact .inr (.inl ⟨hle', by omega⟩)
      · rintro (h | ⟨-, hodd⟩ | ⟨h, -⟩)
        · omega
        · rw [show s.length - 1 + (s.length - 1) % 2 = s.length - 1 by omega]
          exact ⟨by omega, rfl⟩
        · omega
  · rw [lastPlace_of_lt hn hle, List.getLast?_eq_getElem?]
    exact iff_of_true ⟨by omega, rfl⟩ (.inl hle)

/-- **When the tiles fit.** -/
theorem tilesFit_iff {tileCount : ℕ} (htiles : 2 ≤ tileCount) (htiles64 : tileCount < 2 ^ 64) {vals : List WeightedValue}
    (hne : vals ≠ []) (hcount : totalWeight vals < 2 ^ 64) :
    TilesFit tileCount vals ↔ LastTileFits (expanded (sorted vals)) := by
  have hlength := length_expanded_sorted vals
  have hpos := totalWeight_pos hne
  rcases Nat.eq_or_lt_of_le (Nat.succ_le_of_lt hpos) with hone | hmany
  · refine iff_of_true ⟨fun i hi => ?_, by omega, ?_, ?_⟩ (.inl (by omega))
    · rw [← hone, tileIndex_one htiles htiles64 hi]
      exact Nat.one_pos
    · rw [← hone, tileIndex_one htiles htiles64 (by omega), List.head?_eq_getElem?]
    · rw [← hone, tileIndex_one htiles htiles64 (by omega), List.getLast?_eq_getElem?, hlength, ← hone]
  · have hmany' : 2 ≤ totalWeight vals := hmany
    have hlast := tileIndex_last htiles htiles64 hmany' hcount
    have hfits := lastPlace_fits (s := expanded (sorted vals)) (by omega) (by omega)
    rw [hlength] at hfits
    rw [← hfits]
    constructor
    · rintro ⟨hlt, -, -, hvalue⟩
      have hplace := hlt (tileCount - 1) (by omega)
      rw [hlast] at hplace hvalue
      exact ⟨hplace, hvalue⟩
    · rintro ⟨hplace, hvalue⟩
      refine ⟨fun i hi => ?_, by omega, ?_, by rw [hlast, hvalue]⟩
      · rcases Nat.eq_zero_or_pos i with rfl | hi'
        · rwa [tileIndex_zero htiles htiles64 hcount]
        · exact (tileIndex_le_last htiles64 hmany' hcount hi hi').trans_lt hplace
      · rw [tileIndex_zero htiles htiles64 hcount, List.head?_eq_getElem?]

end Evobench.StatsTables

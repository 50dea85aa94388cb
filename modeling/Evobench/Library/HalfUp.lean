import Evobench.Library.Rounding
import Mathlib.Tactic.NormNum
import Mathlib.Tactic.FieldSimp

/-!
# Adding a half and cutting off

`halfUp p x` is what comes out of rounding `x` to the nearest whole number by adding a half and cutting off the fraction, where
`x` and the sum are rounded to `p` binary digits. It is not quite the nearest whole number to `x`: `le_halfUp_iff` and
`one_le_halfUp_iff` say from where on it is at least some number.
-/

namespace Library

/-- A half added, and the fraction cut off. -/
def halfUp (p : ℕ) (x : ℚ) : ℕ := ⌊nearest p (nearest p x + 1 / 2)⌋₊

variable {p : ℕ} {x : ℚ}

/-- Rounding a half more to a whole number or above. -/
theorem le_halfUp_iff_le (hp : 0 < p) (hx : 0 < x) (k : ℕ) : k ≤ halfUp p x ↔ (k : ℚ) ≤ nearest p (nearest p x + 1 / 2) := by
  have hpos : 0 < nearest p (nearest p x + 1 / 2) := nearest_pos hp (by linarith [nearest_pos hp hx])
  rw [halfUp, Nat.le_floor_iff hpos.le]

/-- **From where on the result is at least `k`**: half a unit in the last place before `k - 1 / 2`. -/
theorem le_halfUp_iff {k : ℕ} (hk : 2 ≤ k) (hkp : k ≤ 2 ^ (p - 2)) (hx : 0 < x) :
    k ≤ halfUp p x ↔ (k : ℚ) - 1 / 2 - 2 ^ ((Nat.log 2 (k - 1) : ℤ) - p) ≤ x := by
  obtain ⟨hlo, hhi⟩ : 2 ^ Nat.log 2 (k - 1) ≤ k - 1 ∧ k - 1 < 2 ^ (Nat.log 2 (k - 1) + 1) :=
    ⟨Nat.pow_log_le_self 2 (by omega), Nat.lt_pow_succ_log_self (by norm_num) _⟩
  have hl : Nat.log 2 (k - 1) < p - 2 := Nat.log_lt_of_lt_pow (by omega) (by omega)
  generalize Nat.log 2 (k - 1) = l at hlo hhi hl ⊢
  obtain ⟨d, hd⟩ : ∃ d, p = l + d + 3 := ⟨p - 3 - l, by omega⟩
  subst hd
  have hp : 0 < l + d + 3 := by omega
  -- The digits of `k - 1 / 2`, and those of `k`.
  obtain ⟨e, he⟩ : ∃ e : ℤ, e = -(d + 2 : ℕ) := ⟨_, rfl⟩
  have hunit : (2 : ℚ) ^ (d + 1) * 2 ^ e = 1 / 2 := by
    rw [he, zpow_neg, zpow_natCast, pow_succ, pow_succ, pow_succ]
    field_simp
  have hm : (((2 * k - 1) * 2 ^ (d + 1) : ℕ) : ℚ) * 2 ^ e = k - 1 / 2 := by
    have hodd : ((2 * k - 1 : ℕ) : ℚ) = 2 * k - 1 := by
      rw [Nat.cast_sub (by omega)]
      push_cast
      rfl
    rw [Nat.cast_mul, hodd, mul_assoc, Nat.cast_pow, Nat.cast_ofNat, hunit]
    ring
  have hbounds : 2 ^ (l + d + 3 - 1) < (2 * k - 1) * 2 ^ (d + 1) ∧ (2 * k - 1) * 2 ^ (d + 1) < 2 ^ (l + d + 3) := by
    rw [show l + d + 3 - 1 = (l + 1) + (d + 1) by omega, show l + d + 3 = (l + 2) + (d + 1) by omega, pow_add, pow_add _ (l + 2)]
    constructor
    · exact Nat.mul_lt_mul_of_pos_right (by rw [pow_succ]; omega) (Nat.two_pow_pos _)
    · exact Nat.mul_lt_mul_of_pos_right (by rw [pow_succ, pow_succ]; rw [pow_succ] at hhi; omega) (Nat.two_pow_pos _)
  have hpos : 0 < (2 * k - 1) * 2 ^ (d + 1) := Nat.mul_pos (by omega) (Nat.two_pow_pos _)
  have heven : (2 * k - 1) * 2 ^ (d + 1) % 2 = 0 := by
    rw [pow_succ, ← Nat.mul_assoc]
    exact Nat.mul_mod_left _ _
  -- Rounding `x`.
  have hfirst : (k : ℚ) - 1 / 2 ≤ nearest (l + d + 3) x ↔ (k : ℚ) - 1 / 2 - 2 ^ ((l : ℤ) - (l + d + 3 : ℕ)) ≤ x := by
    have hlast : (2 : ℚ) ^ ((l : ℤ) - (l + d + 3 : ℕ)) = 1 / 2 * 2 ^ e := by
      rw [show (l : ℤ) - (l + d + 3 : ℕ) = e - 1 by rw [he]; push_cast; ring, zpow_sub₀ (by norm_num)]
      norm_num
      ring
    have hsplit : (k : ℚ) - 1 / 2 - 1 / 2 * 2 ^ e = ((((2 * k - 1) * 2 ^ (d + 1) : ℕ) : ℚ) - 1 / 2) * 2 ^ e := by
      rw [sub_mul, hm]
    rw [← hm, le_nearest_iff hp hx hbounds.1 hbounds.2, le_roundEven_iff hpos, hm, hlast, hsplit,
      ← le_div_iff₀ (two_zpow_pos e), le_iff_lt_or_eq]
    refine or_congr_right ⟨fun h => h.2, fun h => ⟨heven, h⟩⟩
  -- Rounding the sum.
  rw [← hfirst, le_halfUp_iff_le hp hx]
  constructor
  · intro hle
    by_contra hlt
    rw [not_le, ← hm] at hlt
    have hpred := nearest_le_of_lt hp hx hbounds.1 hbounds.2 e hlt
    have hsum : nearest (l + d + 3) x + 1 / 2 ≤ ((k * 2 ^ (d + 2) - 1 : ℕ) : ℚ) * 2 ^ e := by
      have hpos' : 0 < k * 2 ^ (d + 2) := Nat.mul_pos (by omega) (Nat.two_pow_pos _)
      rw [Nat.cast_sub hpos, sub_mul, hm] at hpred
      rw [Nat.cast_sub hpos', sub_mul, Nat.cast_mul, Nat.cast_pow, Nat.cast_ofNat, pow_succ, mul_assoc, mul_assoc,
        mul_comm (2 : ℚ) (2 ^ e), ← mul_assoc (2 ^ (d + 1) : ℚ), hunit]
      linarith
    have hdigits : k * 2 ^ (d + 2) - 1 < 2 ^ (l + d + 3) := by
      have hle : k * 2 ^ (d + 2) ≤ 2 ^ (l + 1) * 2 ^ (d + 2) := Nat.mul_le_mul_right _ (by omega)
      rw [← pow_add, show l + 1 + (d + 2) = l + d + 3 by omega] at hle
      have := Nat.two_pow_pos (l + d + 3)
      omega
    have hpos : 0 < k * 2 ^ (d + 2) - 1 := by
      have : 2 * 1 ≤ k * 2 ^ (d + 2) := Nat.mul_le_mul hk (Nat.two_pow_pos _)
      omega
    have hmono := nearest_mono hp (by linarith [nearest_pos hp hx]) hsum
    rw [nearest_of_lt hpos hdigits] at hmono
    have hbelow : ((k * 2 ^ (d + 2) - 1 : ℕ) : ℚ) * 2 ^ e < k := by
      rw [Nat.cast_sub (by omega), sub_mul, Nat.cast_mul, Nat.cast_pow, Nat.cast_ofNat, pow_succ, mul_assoc, mul_assoc,
        mul_comm (2 : ℚ) (2 ^ e), ← mul_assoc (2 ^ (d + 1) : ℚ), hunit, Nat.cast_one, one_mul]
      linarith [two_zpow_pos e]
    linarith
  · intro hle
    have hkp' : k < 2 ^ (l + d + 3) := hkp.trans_lt (Nat.pow_lt_pow_right (by norm_num) (by omega))
    have hexact := nearest_of_lt (p := l + d + 3) (m := k) (by omega) hkp' 0
    rw [zpow_zero, mul_one] at hexact
    rw [← hexact]
    exact nearest_mono hp (Nat.cast_pos.2 (by omega)) (by linarith)

/-- **From where on the result is at least one**: below a half the numbers are closer to each other. -/
theorem one_le_halfUp_iff (hp : 2 ≤ p) (hx : 0 < x) : 1 ≤ halfUp p x ↔ 1 / 2 - 3 / 2 ^ (p + 2) < x := by
  have hpos : 0 < p := by omega
  obtain ⟨e, he⟩ : ∃ e : ℤ, e = -(p + 1 : ℕ) := ⟨_, rfl⟩
  have hunit : (2 : ℚ) ^ p * 2 ^ e = 1 / 2 := by
    rw [he, zpow_neg, zpow_natCast, pow_succ]
    field_simp
  have hsmall : (1 : ℚ) / 2 ^ (p + 2) = 1 / 2 * 2 ^ e := by
    rw [he, zpow_neg, zpow_natCast, pow_succ, pow_succ]
    field_simp
  have hfour : 2 ^ (p - 1) * 2 = 2 ^ p := by
    rw [← pow_succ, Nat.sub_add_cancel hpos]
  have htwo : 2 ^ 1 ≤ 2 ^ (p - 1) := Nat.pow_le_pow_right (by norm_num) (by omega)
  -- The last number before a half.
  have hm : ((2 ^ p - 1 : ℕ) : ℚ) * 2 ^ e = 1 / 2 - 2 ^ e := by
    rw [Nat.cast_sub (Nat.two_pow_pos p), sub_mul]
    push_cast
    rw [hunit, one_mul]
  have hodd : ¬ (2 ^ p - 1) % 2 = 0 := by omega
  have hfirst : 1 / 2 - 2 ^ e ≤ nearest p x ↔ 1 / 2 - 3 / 2 ^ (p + 2) < x := by
    have hsplit : (1 : ℚ) / 2 - 3 / 2 ^ (p + 2) = (((2 ^ p - 1 : ℕ) : ℚ) - 1 / 2) * 2 ^ e := by
      rw [sub_mul, hm, ← mul_one_div (3 : ℚ), hsmall]
      ring
    rw [← hm, le_nearest_iff hpos hx (by omega) (by omega), le_roundEven_iff (by omega), or_iff_left fun h => hodd h.1, hsplit,
      lt_div_iff₀ (two_zpow_pos e)]
  -- Half a unit before one, one is the even number.
  have hone : (1 : ℚ) ≤ nearest p (1 - 2 ^ e) := by
    have hlast : (1 - (2 : ℚ) ^ e) / 2 ^ (e + 1) = ((2 ^ p : ℕ) : ℚ) - 1 / 2 := by
      rw [div_eq_iff (two_zpow_pos _).ne', zpow_add₀ (by norm_num), zpow_one, sub_mul]
      push_cast
      rw [← mul_assoc, hunit]
      ring
    have hwhole : ((2 ^ p : ℕ) : ℚ) * 2 ^ (e + 1) = 1 := by
      rw [zpow_add₀ (by norm_num)]
      push_cast
      rw [← mul_assoc, hunit]
      norm_num
    have hlt : (2 : ℚ) ^ e < 1 := zpow_lt_one_of_neg₀ (by norm_num) (by omega)
    have hsub : (0 : ℚ) < 1 - 2 ^ e := by linarith
    rcases nearest_cases hpos hsub (e + 1) with h | ⟨-, h⟩ | ⟨h, -⟩
    · have hround : 2 ^ p ≤ roundEven ((1 - (2 : ℚ) ^ e) / 2 ^ (e + 1)) := by
        rw [hlast]
        exact (le_roundEven_iff (Nat.two_pow_pos p) _).2 (.inr ⟨by omega, rfl⟩)
      rw [h]
      exact hwhole.ge.trans (mul_le_mul_of_nonneg_right (Nat.cast_le.2 hround) (two_zpow_pos _).le)
    · push_cast at hwhole
      exact hwhole.ge.trans h
    · rw [hlast] at h
      have hnat : ((2 ^ (p - 1) : ℕ) : ℚ) * 2 = ((2 ^ p : ℕ) : ℚ) := by
        exact_mod_cast hfour
      have hge : ((2 ^ 1 : ℕ) : ℚ) ≤ ((2 ^ (p - 1) : ℕ) : ℚ) := Nat.cast_le.2 htwo
      push_cast at hnat hge h
      linarith
  rw [← hfirst, le_halfUp_iff_le hpos hx, Nat.cast_one]
  constructor
  · intro hle
    by_contra hlt
    rw [not_le, ← hm] at hlt
    have hpred := nearest_le_of_lt hpos hx (by omega) (by omega) e hlt
    have hsum : nearest p x + 1 / 2 ≤ ((2 ^ p - 1 : ℕ) : ℚ) * 2 ^ (e + 1) := by
      rw [Nat.cast_sub (by omega), sub_mul, hm] at hpred
      rw [zpow_add₀ (by norm_num), zpow_one, ← mul_assoc, hm]
      push_cast at hpred
      linarith
    have hmono := nearest_mono hpos (by linarith [nearest_pos hpos hx]) hsum
    rw [nearest_of_lt (by omega) (by omega), zpow_add₀ (by norm_num), zpow_one, ← mul_assoc, hm] at hmono
    linarith [two_zpow_pos e]
  · intro hle
    have hlt : (2 : ℚ) ^ e < 1 := zpow_lt_one_of_neg₀ (by norm_num) (by omega)
    exact hone.trans (nearest_mono hpos (by linarith) (by linarith))

end Library

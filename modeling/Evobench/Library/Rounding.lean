import Mathlib.Algebra.Order.Field.Basic
import Mathlib.Algebra.Order.Floor.Semifield
import Mathlib.Data.Int.Log
import Mathlib.Data.Rat.Floor
import Mathlib.Tactic.GCongr
import Mathlib.Tactic.Linarith
import Mathlib.Tactic.Positivity
import Mathlib.Tactic.Ring

/-!
# Rounding to a number of binary digits

`nearest p x` is the number with `p` binary digits that is nearest to `x`, and the even one if `x` is in the middle of two.
Rounding keeps the order (`nearest_mono`), and numbers with that many digits are not changed (`nearest_of_lt`).
-/

namespace Library

/-! ### To a whole number -/

/-- The nearest whole number, and the even one in the middle of two. -/
def roundEven (y : ℚ) : ℕ :=
  if y - ⌊y⌋₊ < 1 / 2 then ⌊y⌋₊
  else if y - ⌊y⌋₊ = 1 / 2 then ⌊y⌋₊ + ⌊y⌋₊ % 2
  else ⌊y⌋₊ + 1

theorem floor_le_roundEven (y : ℚ) : ⌊y⌋₊ ≤ roundEven y := by
  rw [roundEven]
  split_ifs
  · exact Nat.le_refl _
  · exact Nat.le_add_right _ _
  · exact Nat.le_add_right _ _

theorem roundEven_le (y : ℚ) : roundEven y ≤ ⌊y⌋₊ + 1 := by
  rw [roundEven]
  split_ifs
  · omega
  · omega
  · exact Nat.le_refl _

@[simp] theorem roundEven_natCast (n : ℕ) : roundEven n = n := by
  rw [roundEven, Nat.floor_natCast, sub_self, if_pos (by norm_num)]

theorem roundEven_mono {x y : ℚ} (h : x ≤ y) : roundEven x ≤ roundEven y := by
  rcases Nat.eq_or_lt_of_le (Nat.floor_mono h) with heq | hlt
  · rw [roundEven, roundEven, heq]
    have hsub : x - ⌊y⌋₊ ≤ y - ⌊y⌋₊ := sub_le_sub_right h _
    split_ifs with hx hy hy' hx' hy hy' hy hy'
    · exact Nat.le_refl _
    · exact Nat.le_add_right _ _
    · exact Nat.le_add_right _ _
    · linarith
    · exact Nat.le_refl _
    · omega
    · linarith
    · exact absurd (le_antisymm (hsub.trans hy'.le) (not_lt.1 hx)) hx'
    · exact Nat.le_refl _
  · exact (roundEven_le x).trans ((Nat.succ_le_of_lt hlt).trans (floor_le_roundEven y))

/-- What is rounded to a whole number or above: half a unit less is enough for an even one, and not enough for an odd one. -/
theorem le_roundEven_iff {n : ℕ} (hn : 0 < n) (y : ℚ) :
    n ≤ roundEven y ↔ (n : ℚ) - 1 / 2 < y ∨ (n % 2 = 0 ∧ (n : ℚ) - 1 / 2 = y) := by
  obtain ⟨m, rfl⟩ : ∃ m, n = m + 1 := ⟨n - 1, by omega⟩
  have hhalf : roundEven ((m : ℚ) + 1 / 2) = m + m % 2 := by
    have hfloor : ⌊(m : ℚ) + 1 / 2⌋₊ = m := (Nat.floor_eq_iff (by positivity)).2 ⟨by linarith, by linarith⟩
    rw [roundEven, hfloor, add_sub_cancel_left, if_neg (lt_irrefl _), if_pos rfl]
  rw [show ((m + 1 : ℕ) : ℚ) - 1 / 2 = m + 1 / 2 by push_cast; ring]
  rcases lt_trichotomy y (m + 1 / 2) with hlt | heq | hgt
  · refine iff_of_false (fun hle => ?_) (fun h => ?_)
    · -- Its fraction is less than a half, or it is less than `m`.
      rcases lt_or_ge y m with hless | hge
      · have hmono := roundEven_mono hless.le
        rw [roundEven_natCast] at hmono
        omega
      · have hfloor : ⌊y⌋₊ = m := (Nat.floor_eq_iff (le_trans (Nat.cast_nonneg m) hge)).2 ⟨hge, by linarith⟩
        rw [roundEven, hfloor, if_pos (by linarith)] at hle
        omega
    · rcases h with h | ⟨-, h⟩
      · linarith
      · linarith
  · rw [heq, hhalf]
    constructor
    · intro hle
      exact .inr ⟨by omega, rfl⟩
    · rintro (h | ⟨heven, -⟩)
      · exact absurd h (lt_irrefl _)
      · omega
  · refine iff_of_true ?_ (.inl hgt)
    rcases lt_or_ge y ((m + 1 : ℕ) : ℚ) with hless | hge
    · have hm : (m : ℚ) ≤ y := by linarith
      have hfloor : ⌊y⌋₊ = m := by
        refine (Nat.floor_eq_iff (le_trans (Nat.cast_nonneg m) hm)).2 ⟨hm, ?_⟩
        push_cast at hless
        exact hless
      rw [roundEven, hfloor, if_neg (by linarith), if_neg (by intro h; linarith)]
    · have hmono := roundEven_mono hge
      rwa [roundEven_natCast] at hmono

/-! ### To a number of digits -/

variable {p : ℕ} {x y : ℚ}

/-- The exponent of the last digit. -/
def lastExp (p : ℕ) (x : ℚ) : ℤ := Int.log 2 x + 1 - p

/-- The nearest number with so many digits. -/
def nearest (p : ℕ) (x : ℚ) : ℚ := roundEven (x / 2 ^ lastExp p x) * 2 ^ lastExp p x

theorem two_zpow_pos (e : ℤ) : (0 : ℚ) < 2 ^ e := zpow_pos (by norm_num) e

/-- The digits before the last one. -/
theorem le_div_lastExp (hp : 0 < p) (hx : 0 < x) : (2 : ℚ) ^ (p - 1) ≤ x / 2 ^ lastExp p x := by
  rw [le_div_iff₀ (two_zpow_pos _), ← zpow_natCast, ← zpow_add₀ (by norm_num)]
  have hlog := Int.zpow_log_le_self (b := 2) (by norm_num) hx
  rwa [show ((p - 1 : ℕ) : ℤ) + lastExp p x = Int.log 2 x by rw [lastExp]; omega]

theorem div_lastExp_lt (p : ℕ) (x : ℚ) : x / 2 ^ lastExp p x < (2 : ℚ) ^ p := by
  rw [div_lt_iff₀ (two_zpow_pos _), ← zpow_natCast, ← zpow_add₀ (by norm_num)]
  have hlog := Int.lt_zpow_succ_log_self (b := 2) (by norm_num) x
  rwa [show (p : ℤ) + lastExp p x = Int.log 2 x + 1 by rw [lastExp]; omega]

/-- The digits of the nearest number. -/
theorem pow_le_roundEven (hp : 0 < p) (hx : 0 < x) : 2 ^ (p - 1) ≤ roundEven (x / 2 ^ lastExp p x) := by
  have hle := roundEven_mono (le_div_lastExp hp hx)
  rwa [show (2 : ℚ) ^ (p - 1) = ((2 ^ (p - 1) : ℕ) : ℚ) by push_cast; rfl, roundEven_natCast] at hle

theorem roundEven_le_pow (p : ℕ) (x : ℚ) : roundEven (x / 2 ^ lastExp p x) ≤ 2 ^ p := by
  have hle := roundEven_mono (div_lastExp_lt p x).le
  rwa [show (2 : ℚ) ^ p = ((2 ^ p : ℕ) : ℚ) by push_cast; rfl, roundEven_natCast] at hle

theorem nearest_pos (hp : 0 < p) (hx : 0 < x) : 0 < nearest p x := by
  have hdigits := (Nat.two_pow_pos (p - 1)).trans_le (pow_le_roundEven hp hx)
  exact mul_pos (Nat.cast_pos.2 hdigits) (two_zpow_pos _)

theorem lastExp_mono (hx : 0 < x) (h : x ≤ y) : lastExp p x ≤ lastExp p y := by
  have hlog := Int.log_mono_right (b := 2) hx h
  rw [lastExp, lastExp]
  omega

/-- **Rounding keeps the order.** -/
theorem nearest_mono (hp : 0 < p) (hx : 0 < x) (h : x ≤ y) : nearest p x ≤ nearest p y := by
  rcases (lastExp_mono (p := p) hx h).eq_or_lt with heq | hlt
  · rw [nearest, nearest, heq]
    refine mul_le_mul_of_nonneg_right (Nat.cast_le.2 (roundEven_mono ?_)) (two_zpow_pos _).le
    exact div_le_div_of_nonneg_right h (two_zpow_pos _).le
  · -- A power of two is between them.
    have hpow : (roundEven (x / 2 ^ lastExp p x) : ℚ) ≤ 2 ^ p := by
      exact_mod_cast roundEven_le_pow p x
    have hpow' : (2 : ℚ) ^ (p - 1) ≤ roundEven (y / 2 ^ lastExp p y) := by
      exact_mod_cast pow_le_roundEven hp (hx.trans_le h)
    calc nearest p x ≤ 2 ^ p * 2 ^ lastExp p x := mul_le_mul_of_nonneg_right hpow (two_zpow_pos _).le
      _ = 2 ^ ((p : ℤ) + lastExp p x) := by rw [zpow_add₀ (by norm_num), zpow_natCast]
      _ ≤ 2 ^ (((p - 1 : ℕ) : ℤ) + lastExp p y) := zpow_le_zpow_right₀ (by norm_num) (by omega)
      _ = 2 ^ (p - 1) * 2 ^ lastExp p y := by rw [zpow_add₀ (by norm_num), zpow_natCast]
      _ ≤ nearest p y := mul_le_mul_of_nonneg_right hpow' (two_zpow_pos _).le

/-- The exponent of the first digit. -/
theorem log_mul_zpow {m : ℕ} (hm : 0 < m) (e : ℤ) : Int.log 2 ((m : ℚ) * 2 ^ e) = Nat.log 2 m + e := by
  have hpos : (0 : ℚ) < (m : ℚ) * 2 ^ e := mul_pos (Nat.cast_pos.2 hm) (two_zpow_pos e)
  refine le_antisymm ?_ ?_
  · refine Int.lt_add_one_iff.1 ((Int.lt_zpow_iff_log_lt (by norm_num) hpos).1 ?_)
    rw [show (Nat.log 2 m : ℤ) + e + 1 = ((Nat.log 2 m + 1 : ℕ) : ℤ) + e by push_cast; ring, zpow_add₀ (by norm_num),
      zpow_natCast]
    refine mul_lt_mul_of_pos_right ?_ (two_zpow_pos e)
    exact_mod_cast Nat.lt_pow_succ_log_self (by norm_num) m
  · refine (Int.zpow_le_iff_le_log (by norm_num) hpos).1 ?_
    rw [zpow_add₀ (by norm_num), zpow_natCast]
    refine mul_le_mul_of_nonneg_right ?_ (two_zpow_pos e).le
    exact_mod_cast Nat.pow_log_le_self 2 hm.ne'

/-- **Numbers with so many digits are not changed.** -/
theorem nearest_of_lt {m : ℕ} (hm : 0 < m) (hlt : m < 2 ^ p) (e : ℤ) : nearest p ((m : ℚ) * 2 ^ e) = (m : ℚ) * 2 ^ e := by
  have hlog := (Nat.log_lt_iff_lt_pow (by norm_num) hm.ne').2 hlt
  obtain ⟨k, hk⟩ := Int.le.dest (show lastExp p ((m : ℚ) * 2 ^ e) ≤ e by rw [lastExp, log_mul_zpow hm]; omega)
  have hdiv : (m : ℚ) * 2 ^ e / 2 ^ lastExp p ((m : ℚ) * 2 ^ e) = ((m * 2 ^ k : ℕ) : ℚ) := by
    rw [div_eq_iff (two_zpow_pos _).ne']
    push_cast
    rw [mul_assoc, ← zpow_natCast (2 : ℚ) k, ← zpow_add₀ (by norm_num), show (k : ℤ) + lastExp p ((m : ℚ) * 2 ^ e) = e by omega]
  rw [nearest, hdiv, roundEven_natCast, ← hdiv, div_mul_cancel₀ _ (two_zpow_pos _).ne']

theorem nearest_two_zpow (hp : 0 < p) (e : ℤ) : nearest p (2 ^ e) = (2 : ℚ) ^ e := by
  have hone := nearest_of_lt (p := p) Nat.one_pos (Nat.one_lt_two_pow hp.ne') e
  rwa [Nat.cast_one, one_mul] at hone

/-! ### What is rounded to a number or above -/

/-- The last digit is at the given place, or the number is above or below all numbers with the first digit at the same place. -/
theorem nearest_cases (hp : 0 < p) (hx : 0 < x) (e : ℤ) :
    (nearest p x = roundEven (x / 2 ^ e) * 2 ^ e) ∨
      ((2 : ℚ) ^ p ≤ x / 2 ^ e ∧ 2 ^ p * 2 ^ e ≤ nearest p x) ∨
      (x / 2 ^ e ≤ (2 : ℚ) ^ (p - 1) ∧ nearest p x ≤ 2 ^ (p - 1) * 2 ^ e) := by
  have hshift {k : ℕ} {a b : ℤ} (hab : (k : ℤ) + a = b) : (2 : ℚ) ^ k * 2 ^ a = 2 ^ b := by
    rw [← hab, zpow_add₀ (by norm_num), zpow_natCast]
  rcases lt_trichotomy (lastExp p x) e with hlt | heq | hgt
  · -- All digits are before those of the number.
    have hpow : (2 : ℚ) ^ p * 2 ^ lastExp p x ≤ 2 ^ (p - 1) * 2 ^ e := by
      rw [hshift rfl, hshift rfl]
      exact zpow_le_zpow_right₀ (by norm_num) (by omega)
    have hround : (roundEven (x / 2 ^ lastExp p x) : ℚ) ≤ 2 ^ p := by
      exact_mod_cast roundEven_le_pow p x
    refine .inr (.inr ⟨?_, ?_⟩)
    · rw [div_le_iff₀ (two_zpow_pos e)]
      have hx' := div_lastExp_lt p x
      rw [div_lt_iff₀ (two_zpow_pos _)] at hx'
      exact hx'.le.trans hpow
    · exact (mul_le_mul_of_nonneg_right hround (two_zpow_pos _).le).trans hpow
  · left
    rw [nearest, heq]
  · have hpow : (2 : ℚ) ^ p * 2 ^ e ≤ 2 ^ (p - 1) * 2 ^ lastExp p x := by
      rw [hshift rfl, hshift rfl]
      exact zpow_le_zpow_right₀ (by norm_num) (by omega)
    have hround : (2 : ℚ) ^ (p - 1) ≤ roundEven (x / 2 ^ lastExp p x) := by
      exact_mod_cast pow_le_roundEven hp hx
    refine .inr (.inl ⟨?_, ?_⟩)
    · rw [le_div_iff₀ (two_zpow_pos e)]
      have hx' := le_div_lastExp hp hx
      rw [le_div_iff₀ (two_zpow_pos _)] at hx'
      exact hpow.trans hx'
    · exact hpow.trans (mul_le_mul_of_nonneg_right hround (two_zpow_pos _).le)

section Digits

variable {m : ℕ}

/-- **Which numbers are rounded to a number with all digits, or above.** -/
theorem le_nearest_iff (hp : 0 < p) (hx : 0 < x) (hlo : 2 ^ (p - 1) < m) (hhi : m < 2 ^ p) (e : ℤ) :
    (m : ℚ) * 2 ^ e ≤ nearest p x ↔ m ≤ roundEven (x / 2 ^ e) := by
  have hlo' : (2 : ℚ) ^ (p - 1) < m := by exact_mod_cast hlo
  have hhi' : (m : ℚ) < 2 ^ p := by exact_mod_cast hhi
  rcases nearest_cases hp hx e with h | ⟨hx', hnearest⟩ | ⟨hx', hnearest⟩
  · rw [h, mul_le_mul_iff_left₀ (two_zpow_pos e), Nat.cast_le]
  · refine iff_of_true ((mul_le_mul_of_nonneg_right hhi'.le (two_zpow_pos e).le).trans hnearest) ?_
    have hmono := roundEven_mono (hhi'.le.trans hx')
    rwa [roundEven_natCast] at hmono
  · refine iff_of_false (fun hle => ?_) (fun hle => ?_)
    · exact absurd (hle.trans hnearest) (not_le.2 (mul_lt_mul_of_pos_right hlo' (two_zpow_pos e)))
    · have hmono := roundEven_mono hx'
      rw [show (2 : ℚ) ^ (p - 1) = ((2 ^ (p - 1) : ℕ) : ℚ) by push_cast; rfl, roundEven_natCast] at hmono
      omega

/-- Otherwise they are rounded to the number before it, or below. -/
theorem nearest_le_of_lt (hp : 0 < p) (hx : 0 < x) (hlo : 2 ^ (p - 1) < m) (hhi : m < 2 ^ p) (e : ℤ)
    (h : nearest p x < m * 2 ^ e) : nearest p x ≤ ((m - 1 : ℕ) : ℚ) * 2 ^ e := by
  have hlo' : (2 : ℚ) ^ (p - 1) ≤ ((m - 1 : ℕ) : ℚ) := by exact_mod_cast (by omega : 2 ^ (p - 1) ≤ m - 1)
  have hhi' : (m : ℚ) < 2 ^ p := by exact_mod_cast hhi
  rcases nearest_cases hp hx e with heq | ⟨-, hnearest⟩ | ⟨-, hnearest⟩
  · rw [heq, mul_lt_mul_iff_left₀ (two_zpow_pos e), Nat.cast_lt] at h
    rw [heq]
    exact mul_le_mul_of_nonneg_right (Nat.cast_le.2 (by omega)) (two_zpow_pos e).le
  · exact absurd (hnearest.trans_lt h) (not_lt.2 (mul_le_mul_of_nonneg_right hhi'.le (two_zpow_pos e).le))
  · exact hnearest.trans (mul_le_mul_of_nonneg_right hlo' (two_zpow_pos e).le)

end Digits

/-! ### Whole numbers -/

theorem log_natCast_add {n : ℕ} (hn : 0 < n) {f : ℚ} (hf : 0 ≤ f) (hlt : f < 1) : Int.log 2 ((n : ℚ) + f) = Nat.log 2 n := by
  have hone : (1 : ℚ) ≤ n := by exact_mod_cast hn
  rw [Int.log_of_one_le_right _ (by linarith), (Nat.floor_eq_iff (by linarith)).2 ⟨by linarith, by linarith⟩]

theorem lastExp_natCast_add {n : ℕ} (hn : 0 < n) {f : ℚ} (hf : 0 ≤ f) (hlt : f < 1) :
    lastExp p ((n : ℚ) + f) = lastExp p n := by
  have hzero := log_natCast_add hn (le_refl (0 : ℚ)) one_pos
  rw [add_zero] at hzero
  rw [lastExp, lastExp, log_natCast_add hn hf hlt, hzero]

theorem lastExp_natCast {n : ℕ} (hn : 0 < n) : lastExp p n = Nat.log 2 n + 1 - p := by
  have hzero := log_natCast_add hn (le_refl (0 : ℚ)) one_pos
  rw [add_zero] at hzero
  rw [lastExp, hzero]

/-- The nearest number to a large whole number is one, too. -/
theorem exists_nearest_natCast {n : ℕ} (hn : 2 ^ (p - 1) ≤ n) : ∃ m : ℕ, nearest p n = m := by
  have hpos : 0 < n := (Nat.two_pow_pos (p - 1)).trans_le hn
  have hlog := Nat.le_log_of_pow_le (by norm_num) hn
  obtain ⟨k, hk⟩ := Int.eq_ofNat_of_zero_le (show 0 ≤ lastExp p n by rw [lastExp_natCast hpos]; omega)
  refine ⟨roundEven ((n : ℚ) / 2 ^ lastExp p n) * 2 ^ k, ?_⟩
  rw [nearest, hk]
  push_cast
  rfl

/-- A half more than a number with all the digits before the point is in the middle. -/
theorem nearest_add_half_even {n : ℕ} (hp : 0 < p) (hn : 2 ^ (p - 1) ≤ n) (hlt : n < 2 ^ p) :
    nearest p ((n : ℚ) + 1 / 2) = ((n + n % 2 : ℕ) : ℚ) := by
  have hpos : 0 < n := (Nat.two_pow_pos (p - 1)).trans_le hn
  have hlog : Nat.log 2 n = p - 1 := by
    rw [Nat.log_eq_iff (.inr ⟨by norm_num, hpos.ne'⟩), Nat.sub_add_cancel hp]
    exact ⟨hn, hlt⟩
  have hexp : lastExp p ((n : ℚ) + 1 / 2) = 0 := by
    rw [lastExp_natCast_add hpos (by norm_num) (by norm_num), lastExp_natCast hpos, hlog]
    omega
  have hfloor : ⌊(n : ℚ) + 1 / 2⌋₊ = n := (Nat.floor_eq_iff (by positivity)).2 ⟨by linarith, by linarith⟩
  rw [nearest, hexp, zpow_zero, div_one, mul_one, roundEven, hfloor, add_sub_cancel_left, if_neg (lt_irrefl _), if_pos rfl]

/-- Half a unit does not matter where the last digit is before the point. -/
theorem nearest_add_half {n : ℕ} (hn : 2 ^ p ≤ n) (h : nearest p n = n) : nearest p ((n : ℚ) + 1 / 2) = n := by
  have hpos : 0 < n := (Nat.two_pow_pos p).trans_le hn
  have hexp : lastExp p ((n : ℚ) + 1 / 2) = lastExp p n := lastExp_natCast_add hpos (by norm_num) (by norm_num)
  have hlog := Nat.le_log_of_pow_le (by norm_num) hn
  have hone : (2 : ℚ) ^ (1 : ℤ) ≤ 2 ^ lastExp p n := by
    refine zpow_le_zpow_right₀ (by norm_num) ?_
    rw [lastExp_natCast hpos]
    omega
  rw [zpow_one] at hone
  have hdigits : (n : ℚ) / 2 ^ lastExp p n = roundEven ((n : ℚ) / 2 ^ lastExp p n) := by
    rw [div_eq_iff (two_zpow_pos _).ne']
    exact h.symm
  generalize roundEven ((n : ℚ) / 2 ^ lastExp p n) = k at hdigits
  have hround : roundEven (((n : ℚ) + 1 / 2) / 2 ^ lastExp p n) = k := by
    have hhalf : (0 : ℚ) < 1 / 2 / 2 ^ lastExp p n := div_pos (by norm_num) (two_zpow_pos _)
    have hfraction : (1 : ℚ) / 2 / 2 ^ lastExp p n < 1 / 2 := by
      rw [div_lt_iff₀ (two_zpow_pos _)]
      linarith
    have hk : (0 : ℚ) ≤ k := Nat.cast_nonneg k
    have hfloor : ⌊(k : ℚ) + 1 / 2 / 2 ^ lastExp p n⌋₊ = k := (Nat.floor_eq_iff (by linarith)).2 ⟨by linarith, by linarith⟩
    rw [add_div, hdigits, roundEven, hfloor, add_sub_cancel_left, if_pos hfraction]
  rw [nearest, hexp, hround, ← hdigits, div_mul_cancel₀ _ (two_zpow_pos _).ne']

end Library

import Evobench.Library.Rounding
import Mathlib

/-!
# Floating-point numbers

What the operations on `Float` do to positive normal numbers, in terms of rational numbers: the result is the exact one,
rounded to 53 binary digits.

`IsNormal a x` says that `a` is a positive normal number, with the value `x`. The results here are for values between
`2 ^ -1000` and `2 ^ 1000`, where nothing overflows and nothing is subnormal.
-/

namespace Library.Binary64

open Float.Model Float.Model.UnpackedFloat

/-! ### Rounding -/

/-- The mantissa and the two bits behind it are what is known of a number: whether its fraction is at least a half, and whether
it is neither a half nor nothing. -/
def Holds (em : ExtendedMantissa) (x : ℚ) : Prop :=
  ∃ f : ℚ, 0 ≤ f ∧ f < 1 ∧ x = em.mantissa + f ∧ (em.roundBit = true ↔ 1 / 2 ≤ f) ∧
    (em.stickyBit = true ↔ f ≠ 0 ∧ f ≠ 1 / 2)

theorem Holds.floor {em : ExtendedMantissa} {x : ℚ} (h : Holds em x) : ⌊x⌋₊ = em.mantissa := by
  obtain ⟨f, hpos, hlt, rfl, -, -⟩ := h
  have hm : (0 : ℚ) ≤ em.mantissa := Nat.cast_nonneg _
  exact (Nat.floor_eq_iff (by linarith)).2 ⟨by linarith, by linarith⟩

theorem Holds.roundedMantissa {em : ExtendedMantissa} {x : ℚ} (h : Holds em x) : em.roundedMantissa = roundEven x := by
  rw [roundEven, h.floor]
  obtain ⟨f, hpos, hlt, rfl, hround, hsticky⟩ := h
  obtain ⟨m, r, s⟩ := em
  simp only [add_sub_cancel_left] at *
  cases r with
  | false =>
    have hhalf : f < 1 / 2 := not_le.1 fun hle => by cases hround.2 hle
    rw [if_pos hhalf]
    cases s with
    | false => rfl
    | true => rfl
  | true =>
    rw [if_neg (not_lt.2 (hround.1 rfl))]
    cases s with
    | false =>
      have heq : f = 1 / 2 := by
        by_contra hne
        have hne' : f ≠ 0 := fun hzero => by linarith [hround.1 rfl]
        cases hsticky.2 ⟨hne', hne⟩
      rw [if_pos heq]
      rfl
    | true =>
      rw [if_neg (hsticky.1 rfl).2]
      rfl

/-- A bit is shifted out. -/
theorem Holds.shiftRightOne {em : ExtendedMantissa} {x : ℚ} (h : Holds em x) : Holds em.shiftRightOne (x / 2) := by
  obtain ⟨f, hpos, hlt, rfl, hround, hsticky⟩ := h
  have hm : (em.mantissa : ℚ) = 2 * (em.mantissa / 2 : ℕ) + (em.mantissa % 2 : ℕ) := by
    exact_mod_cast (Nat.div_add_mod em.mantissa 2).symm
  have hbits : (em.roundBit || em.stickyBit) = true ↔ f ≠ 0 := by
    rw [Bool.or_eq_true, hround, hsticky]
    constructor
    · rintro (hle | ⟨hne, -⟩)
      · exact fun hzero => by linarith
      · exact hne
    · intro hne
      by_cases hle : 1 / 2 ≤ f
      · exact .inl hle
      · exact .inr ⟨hne, fun heq => hle heq.ge⟩
  refine ⟨((em.mantissa % 2 : ℕ) + f) / 2, ?_, ?_, ?_, ?_, hbits.trans ?_⟩
  · positivity
  · have hbit : ((em.mantissa % 2 : ℕ) : ℚ) ≤ 1 := by exact_mod_cast Nat.le_of_lt_succ (Nat.mod_lt _ (by norm_num))
    linarith
  · show _ = ((em.mantissa / 2 : ℕ) : ℚ) + _
    linarith
  · show (em.mantissa % 2 != 0) = true ↔ _
    rcases Nat.mod_two_eq_zero_or_one em.mantissa with hmod | hmod
    · rw [hmod, Nat.cast_zero]
      exact iff_of_false (by decide) (by linarith)
    · rw [hmod, Nat.cast_one]
      exact iff_of_true rfl (by linarith)
  · rcases Nat.mod_two_eq_zero_or_one em.mantissa with hmod | hmod
    · rw [hmod, Nat.cast_zero]
      exact ⟨fun hne => ⟨fun heq => hne (by linarith), fun heq => by linarith⟩, fun h heq => h.1 (by rw [heq]; norm_num)⟩
    · rw [hmod, Nat.cast_one]
      exact ⟨fun hne => ⟨fun heq => by linarith, fun heq => hne (by linarith)⟩, fun h heq => h.2 (by rw [heq]; norm_num)⟩

/-- Some bits are shifted out. -/
theorem Holds.shiftRight {em : ExtendedMantissa} {x : ℚ} (h : Holds em x) (k : ℕ) : Holds (em >>> k) (x / 2 ^ k) := by
  induction k with
  | zero => rwa [pow_zero, div_one]
  | succ k ih =>
    rw [pow_succ, ← div_div]
    exact ih.shiftRightOne

theorem holds_exact (m : ℕ) : Holds (.ofMantissaAndAccuracy m .exact) m :=
  ⟨0, le_refl _, one_pos, (add_zero _).symm, iff_of_false Bool.false_ne_true (by norm_num),
    iff_of_false Bool.false_ne_true fun h => h.1 rfl⟩

/-- The quotient with its remainder. -/
theorem holds_accuracyOfFraction (m : ℕ) {num den : ℕ} (hlt : num < den) :
    Holds (.ofMantissaAndAccuracy m (accuracyOfFraction num den)) (m + (num : ℚ) / den) := by
  have hden : (0 : ℚ) < den := Nat.cast_pos.2 (by omega)
  rw [accuracyOfFraction]
  by_cases hzero : num = 0
  · rw [if_pos hzero, hzero, Nat.cast_zero, zero_div, add_zero]
    exact holds_exact m
  have hnum : (0 : ℚ) < num := Nat.cast_pos.2 (by omega)
  have hpos : (0 : ℚ) < num / den := div_pos hnum hden
  have hone : (num : ℚ) / den < 1 := (div_lt_one hden).2 (Nat.cast_lt.2 hlt)
  rw [if_neg hzero]
  rcases Nat.lt_trichotomy (2 * num) den with hcmp | hcmp | hcmp
  · have hhalf : (num : ℚ) / den < 1 / 2 := by
      rw [div_lt_div_iff₀ hden (by norm_num)]
      exact_mod_cast (by omega : num * 2 < 1 * den)
    rw [Nat.compare_eq_lt.2 hcmp]
    exact ⟨_, hpos.le, hone, rfl, iff_of_false Bool.false_ne_true (not_le.2 hhalf), iff_of_true rfl ⟨hpos.ne', hhalf.ne⟩⟩
  · have hhalf : (num : ℚ) / den = 1 / 2 := by
      rw [div_eq_div_iff hden.ne' (by norm_num)]
      exact_mod_cast (by omega : num * 2 = 1 * den)
    rw [Nat.compare_eq_eq.2 hcmp]
    exact ⟨_, hpos.le, hone, rfl, iff_of_true rfl hhalf.ge, iff_of_false Bool.false_ne_true fun h => h.2 hhalf⟩
  · have hhalf : (1 : ℚ) / 2 < num / den := by
      rw [div_lt_div_iff₀ (by norm_num) hden]
      exact_mod_cast (by omega : 1 * den < num * 2)
    rw [Nat.compare_eq_gt.2 hcmp]
    exact ⟨_, hpos.le, hone, rfl, iff_of_true rfl hhalf.le, iff_of_true rfl ⟨hpos.ne', hhalf.ne'⟩⟩

/-- The format. -/
theorem targetExponent_eq (m : ℕ) (e : ℤ) :
    Format.binary64.targetExponent (totalExponent m e) = max (m.log2 + e - 52) (-1074) := by
  simp only [Format.targetExponent, totalExponent, Format.mantissaBits, Format.minExponent]
  norm_num
  omega

theorem shiftToTargetExponent_eq {m : ℕ} {e : ℤ} (acc : Accuracy) {k : ℕ} (hk : m.log2 = 52 + k) (he : -1074 ≤ e + k) :
    shiftToTargetExponent Format.binary64 m e acc = (ExtendedMantissa.ofMantissaAndAccuracy m acc >>> k, e + k) := by
  rw [shiftToTargetExponent, targetExponent_eq, hk]
  simp only [shiftToExponent, show (max (((52 + k : ℕ) : ℤ) + e - 52) (-1074) - e).toNat = k by omega]

/-- A number with 53 digits, or with one more. -/
theorem shiftToTargetExponent_exact {r : ℕ} {e : ℤ} (hlo : 2 ^ 52 ≤ r) (hhi : r ≤ 2 ^ 53) (he : -1074 ≤ e) :
    ∃ M E b b', shiftToTargetExponent Format.binary64 r e .exact = (⟨M, b, b'⟩, E) ∧ M.log2 = 52 ∧ e ≤ E ∧ E ≤ e + 1 ∧
      (M : ℚ) * 2 ^ E = r * 2 ^ e := by
  have hr : r ≠ 0 := by omega
  rcases Nat.lt_or_eq_of_le hhi with hlt | rfl
  · have hlog : r.log2 = 52 := (Nat.log2_eq_iff hr).2 ⟨hlo, hlt⟩
    refine ⟨r, e, false, false, ?_, hlog, le_refl _, by omega, rfl⟩
    rw [shiftToTargetExponent_eq (k := 0) .exact hlog (by omega), Nat.cast_zero, add_zero]
    rfl
  · refine ⟨2 ^ 52, e + 1, false, false, ?_, Nat.log2_two_pow, by omega, le_refl _, ?_⟩
    · rw [shiftToTargetExponent_eq (k := 1) .exact Nat.log2_two_pow (by omega)]
      rfl
    · rw [zpow_add₀ (by norm_num)]
      push_cast
      ring

/-- The digits of a normal number. -/
structure Normal (m : ℕ) (e : ℤ) : Prop where
  /-- There are 53 digits. -/
  log : m.log2 = 52
  /-- The exponent is not too small. -/
  le : -1074 ≤ e
  /-- The exponent is not too large. -/
  ge : e ≤ 971

/-- Between these, everything is normal. -/
def Moderate (x : ℚ) : Prop := 2 ^ (-1000 : ℤ) ≤ x ∧ x ≤ 2 ^ (1000 : ℤ)

theorem Moderate.pos {x : ℚ} (h : Moderate x) : 0 < x := (two_zpow_pos _).trans_le h.1

theorem Moderate.log {x : ℚ} (h : Moderate x) : -1000 ≤ Int.log 2 x ∧ Int.log 2 x ≤ 1000 := by
  constructor
  · exact (Int.zpow_le_iff_le_log (by norm_num) h.pos).1 h.1
  · have hle := Int.log_mono_right (b := 2) h.pos h.2
    rwa [show ((2 : ℚ) ^ (1000 : ℤ)) = ((2 : ℕ) : ℚ) ^ (1000 : ℤ) by norm_num, Int.log_zpow (by norm_num)] at hle

/-- The first digit, from what is known of a number. -/
theorem Holds.log {m : ℕ} {e : ℤ} {acc : Accuracy} {x : ℚ} (h : Holds (.ofMantissaAndAccuracy m acc) (x / 2 ^ e))
    (hm : 0 < m) (hx : 0 < x) : Int.log 2 x = m.log2 + e := by
  have hfloor : ⌊x / 2 ^ e⌋₊ = m := by
    rw [h.floor]
    cases acc with
    | exact => rfl
    | inexact o =>
      cases o with
      | lt => rfl
      | eq => rfl
      | gt => rfl
  obtain ⟨hle, hlt⟩ := (Nat.floor_eq_iff (div_pos hx (two_zpow_pos e)).le).1 hfloor
  rw [le_div_iff₀ (two_zpow_pos e)] at hle
  rw [div_lt_iff₀ (two_zpow_pos e)] at hlt
  rw [Nat.log2_eq_log_two]
  refine le_antisymm ?_ ?_
  · refine Int.lt_add_one_iff.1 ((Int.lt_zpow_iff_log_lt (by norm_num) hx).1 (hlt.trans_le ?_))
    rw [show (Nat.log 2 m : ℤ) + e + 1 = ((Nat.log 2 m + 1 : ℕ) : ℤ) + e by push_cast; ring, zpow_add₀ (by norm_num),
      zpow_natCast]
    refine mul_le_mul_of_nonneg_right ?_ (two_zpow_pos e).le
    exact_mod_cast Nat.lt_pow_succ_log_self (by norm_num) m
  · rw [← log_mul_zpow hm e]
    exact Int.log_mono_right (mul_pos (Nat.cast_pos.2 hm) (two_zpow_pos e)) hle

/-- **What is known of a number is enough to round it.** -/
theorem roundWithAccuracy_eq {m : ℕ} {e : ℤ} {acc : Accuracy} {x : ℚ} (hm : 52 ≤ m.log2)
    (h : Holds (.ofMantissaAndAccuracy m acc) (x / 2 ^ e)) (hx : Moderate x) :
    ∃ M E hpos, roundWithAccuracy Format.binary64 .positive m e acc = .finite .positive M E hpos ∧ Normal M E ∧
      nearest 53 x = M * 2 ^ E := by
  have hm' : 0 < m := by
    rcases Nat.eq_zero_or_pos m with rfl | hm'
    · rw [Nat.log2_zero] at hm
      omega
    · exact hm'
  obtain ⟨k, hk⟩ := Nat.exists_eq_add_of_le hm
  have hlog := h.log hm' hx.pos
  have hbounds := hx.log
  have hlast : lastExp 53 x = e + k := by
    rw [lastExp, hlog, hk]
    push_cast
    ring
  have hshift := h.shiftRight k
  rw [div_div, ← zpow_natCast, ← zpow_add₀ (by norm_num), ← hlast] at hshift
  have hround := hshift.roundedMantissa
  have hlo : 2 ^ 52 ≤ roundEven (x / 2 ^ lastExp 53 x) := pow_le_roundEven (p := 53) (by norm_num) hx.pos
  obtain ⟨M, E, b, b', hsecond, hM, hE, hE', hvalue⟩ :=
    shiftToTargetExponent_exact (e := e + k) hlo (roundEven_le_pow 53 x) (by omega)
  have hpos : 0 < M := by
    rcases Nat.eq_zero_or_pos M with rfl | hpos
    · rw [Nat.log2_zero] at hM
      omega
    · exact hpos
  refine ⟨M, E, hpos, ?_, ⟨hM, by omega, by omega⟩, ?_⟩
  · rw [roundWithAccuracy, shiftToTargetExponent_eq acc hk (by omega)]
    simp only [hround, hsecond]
    rw [dif_neg hpos.ne']
  · rw [nearest, hvalue, hlast]

/-! ### The bits -/

theorem unpackSign_packComponents (s : Sign) (e : BitVec 11) (m : BitVec 52) :
    unpackSign (packComponents Format.binary64 s e m) = s.toBitVec := by
  ext i hi
  obtain rfl : i = 0 := by omega
  have htop : ((s.toBitVec ++ e : BitVec 12) ++ m).getLsbD 63 = s.toBitVec.getLsbD 0 := by
    rw [BitVec.getLsbD_append, if_neg (by decide), BitVec.getLsbD_append, if_neg (by decide)]
  simp [unpackSign, packComponents]
  exact htop

theorem toNat_implicit (m : BitVec 52) : (1#1 ++ m).toNat = 2 ^ 52 + m.toNat := by
  rw [BitVec.toNat_append, ← Nat.shiftLeft_add_eq_or_of_lt m.isLt]
  rfl

/-- A normal number is kept in its bits. -/
theorem unpack_pack {m : ℕ} {e : ℤ} (hpos : 0 < m) (h : Normal m e) :
    (Float.Model.pack (.finite .positive m e hpos)).unpack = .finite .positive m e hpos := by
  obtain ⟨hlog, hlo, hhi⟩ := h
  obtain ⟨hge, hlt⟩ := (Nat.log2_eq_iff hpos.ne').1 hlog
  obtain ⟨b, hb⟩ := Int.eq_ofNat_of_zero_le (show 0 ≤ e + 1075 by omega)
  have hexp : (BitVec.ofNat 11 b).toNat = b := by
    rw [BitVec.toNat_ofNat, Nat.mod_eq_of_lt (by omega)]
  have hzero : BitVec.ofNat 11 b ≠ 0#11 := by
    intro heq
    have hnat := congrArg BitVec.toNat heq
    rw [hexp, BitVec.toNat_zero] at hnat
    omega
  have hones : BitVec.ofNat 11 b ≠ -1#11 := by
    intro heq
    have hnat := congrArg BitVec.toNat heq
    rw [hexp, show (-1#11).toNat = 2047 from rfl] at hnat
    omega
  have hmantissa : (1#1 ++ BitVec.ofNat 52 m).toNat = m := by
    rw [toNat_implicit, BitVec.toNat_ofNat]
    omega
  have hpack : UnpackedFloat.pack Format.binary64 (.finite .positive m e hpos) =
      packComponents Format.binary64 .positive (BitVec.ofNat 11 b) (BitVec.ofNat 52 m) := by
    have hbiased : (e + (Format.binary64.exponentBias : ℕ) + (52 : ℕ)).toNat = b := by
      rw [show (Format.binary64.exponentBias : ℕ) = 1023 from rfl]
      omega
    rw [UnpackedFloat.pack]
    simp only [hbiased, hlog]
    rw [if_neg (by omega), if_pos (show 52 + 1 = Format.binary64.mantissaBits from rfl)]
  show UnpackedFloat.unpack Format.binary64 (UnpackedFloat.pack Format.binary64 (.finite .positive m e hpos)) = _
  rw [hpack, UnpackedFloat.unpack]
  simp only [unpackExponent_packComponents, unpackMantissa_packComponents, unpackSign_packComponents]
  rw [if_neg hones, if_neg hzero]
  simp only [hmantissa, hexp]
  congr 1
  rw [show (Format.binary64.exponentBias : ℕ) = 1023 from rfl]
  omega

/-! ### Exact numbers to be rounded -/

theorem log2_shiftLeft {m : ℕ} (hm : m ≠ 0) (k : ℕ) : (m <<< k).log2 = m.log2 + k := by
  obtain ⟨hlo, hhi⟩ := (Nat.log2_eq_iff hm).1 rfl
  rw [Nat.shiftLeft_eq, Nat.log2_eq_iff (Nat.mul_ne_zero hm (Nat.two_pow_pos k).ne'), Nat.pow_add, Nat.add_right_comm,
    Nat.pow_add 2 (m.log2 + 1)]
  exact ⟨Nat.mul_le_mul_right _ hlo, Nat.mul_lt_mul_of_pos_right hhi (Nat.two_pow_pos k)⟩

theorem shiftLeft_mul_zpow (m k : ℕ) (e : ℤ) : ((m <<< k : ℕ) : ℚ) * 2 ^ (e - k) = m * 2 ^ e := by
  rw [Nat.shiftLeft_eq, zpow_sub₀ (by norm_num), zpow_natCast]
  push_cast
  field_simp

/-- A whole number times a power of two. -/
theorem round_eq {m : ℕ} {e : ℤ} (hm : 0 < m) (hx : Moderate ((m : ℚ) * 2 ^ e)) :
    ∃ M E hpos, UnpackedFloat.round Format.binary64 .positive m e = .finite .positive M E hpos ∧ Normal M E ∧
      nearest 53 ((m : ℚ) * 2 ^ e) = M * 2 ^ E := by
  have hlog := hx.log
  rw [log_mul_zpow hm, ← Nat.log2_eq_log_two] at hlog
  rw [UnpackedFloat.round, targetExponent_eq, decreaseExponent]
  simp only
  generalize hk : (e - max ((m.log2 : ℤ) + e - 52) (-1074)).toNat = k
  refine roundWithAccuracy_eq ?_ ?_ hx
  · rw [log2_shiftLeft hm.ne']
    omega
  · rw [← shiftLeft_mul_zpow m k e, mul_div_cancel_right₀ _ (two_zpow_pos _).ne']
    exact holds_exact _

/-! ### The operations -/

/-- A positive normal number with a value. -/
def IsNormal (a : Float) (x : ℚ) : Prop :=
  ∃ m e hpos, Normal m e ∧ a.toModel.unpack = .finite .positive m e hpos ∧ x = m * 2 ^ e

theorem IsNormal.of_round {u : UnpackedFloat} {x : ℚ}
    (h : ∃ M E hpos, u = .finite .positive M E hpos ∧ Normal M E ∧ nearest 53 x = M * 2 ^ E) :
    IsNormal (.ofModel (Float.Model.pack u)) (nearest 53 x) := by
  obtain ⟨M, E, hpos, rfl, hnormal, hvalue⟩ := h
  exact ⟨M, E, hpos, hnormal, unpack_pack hpos hnormal, hvalue⟩

/-- A positive number with a value, normal or not. -/
def IsFinite (a : Float) (x : ℚ) : Prop :=
  ∃ m e hpos, a.toModel.unpack = .finite .positive m e hpos ∧ x = m * 2 ^ e

theorem IsFinite.pos {a : Float} {x : ℚ} (h : IsFinite a x) : 0 < x := by
  obtain ⟨m, e, hpos, -, rfl⟩ := h
  exact mul_pos (Nat.cast_pos.2 hpos) (two_zpow_pos e)

theorem IsNormal.isFinite {a : Float} {x : ℚ} (h : IsNormal a x) : IsFinite a x := by
  obtain ⟨m, e, hpos, -, ha, hx⟩ := h
  exact ⟨m, e, hpos, ha, hx⟩

theorem IsNormal.pos {a : Float} {x : ℚ} (h : IsNormal a x) : 0 < x := h.isFinite.pos

/-- A normal number is not rounded. -/
theorem IsNormal.nearest_eq {a : Float} {x : ℚ} (h : IsNormal a x) : nearest 53 x = x := by
  obtain ⟨m, e, hpos, hnormal, -, rfl⟩ := h
  exact nearest_of_lt hpos ((Nat.log2_eq_iff hpos.ne').1 hnormal.log).2 e

theorem moderate_natCast {n : ℕ} (hpos : 0 < n) (hlt : n < 2 ^ 64) : Moderate n := by
  constructor
  · calc (2 : ℚ) ^ (-1000 : ℤ) ≤ 2 ^ (0 : ℤ) := zpow_le_zpow_right₀ (by norm_num) (by norm_num)
      _ = ((1 : ℕ) : ℚ) := by norm_num
      _ ≤ n := Nat.cast_le.2 hpos
  · calc (n : ℚ) ≤ 2 ^ (64 : ℤ) := by exact_mod_cast hlt.le
      _ ≤ 2 ^ (1000 : ℤ) := zpow_le_zpow_right₀ (by norm_num) (by norm_num)

/-- `as f64` -/
theorem isNormal_toFloat {n : UInt64} (hpos : 0 < n.toNat) : IsNormal n.toFloat (nearest 53 n.toNat) := by
  have hmoderate : Moderate ((n.toNat : ℚ) * 2 ^ (0 : ℤ)) := by
    rw [zpow_zero, mul_one]
    exact moderate_natCast hpos n.toNat_lt
  have hround := round_eq hpos hmoderate
  rw [zpow_zero, mul_one] at hround
  have hmodel : UnpackedFloat.ofUInt64 Format.binary64 n = UnpackedFloat.round Format.binary64 .positive n.toNat 0 := by
    show UnpackedFloat.normalize Format.binary64 (n.toNat : ℤ) 0 .positive = _
    rw [UnpackedFloat.normalize, Int.compare_eq_gt.2 (by omega)]
    rfl
  rw [← hmodel] at hround
  exact IsNormal.of_round hround

section Operations

variable {a b : Float} {x y : ℚ}

/-- The product with a number that may be subnormal. -/
theorem IsNormal.mul_isFinite (ha : IsNormal a x) (hb : IsFinite b y) (hxy : Moderate (x * y)) :
    IsNormal (a * b) (nearest 53 (x * y)) := by
  obtain ⟨m₁, e₁, hpos₁, hnormal₁, ha, rfl⟩ := ha
  obtain ⟨m₂, e₂, hpos₂, hb, rfl⟩ := hb
  have hge₁ := ((Nat.log2_eq_iff hpos₁.ne').1 hnormal₁.log).1
  have hmul : (a * b).toModel = Float.Model.pack (UnpackedFloat.mul Format.binary64 a.toModel.unpack b.toModel.unpack) := rfl
  rw [show a * b = .ofModel (a * b).toModel from rfl, hmul, ha, hb]
  refine IsNormal.of_round (roundWithAccuracy_eq ?_ ?_ hxy)
  · rw [Nat.le_log2 (Nat.mul_pos hpos₁ hpos₂).ne']
    calc 2 ^ 52 ≤ 2 ^ 52 * 1 := by norm_num
      _ ≤ m₁ * m₂ := Nat.mul_le_mul hge₁ hpos₂
  · have hvalue : (m₁ : ℚ) * 2 ^ e₁ * (m₂ * 2 ^ e₂) / 2 ^ (e₁ + e₂) = ((m₁ * m₂ : ℕ) : ℚ) := by
      rw [zpow_add₀ (by norm_num)]
      push_cast
      field_simp
    rw [hvalue]
    exact holds_exact _

/-- The product. -/
theorem IsNormal.mul (ha : IsNormal a x) (hb : IsNormal b y) (hxy : Moderate (x * y)) : IsNormal (a * b) (nearest 53 (x * y)) :=
  ha.mul_isFinite hb.isFinite hxy

/-- The quotient. -/
theorem IsNormal.div (ha : IsNormal a x) (hb : IsNormal b y) (hxy : Moderate (x / y)) :
    IsNormal (a / b) (nearest 53 (x / y)) := by
  obtain ⟨m₁, e₁, hpos₁, hnormal₁, ha, rfl⟩ := ha
  obtain ⟨m₂, e₂, hpos₂, hnormal₂, hb, rfl⟩ := hb
  obtain ⟨hge₁, hlt₁⟩ := (Nat.log2_eq_iff hpos₁.ne').1 hnormal₁.log
  obtain ⟨hge₂, hlt₂⟩ := (Nat.log2_eq_iff hpos₂.ne').1 hnormal₂.log
  have hvalue : (m₁ : ℚ) * (2 : ℚ) ^ e₁ / (m₂ * (2 : ℚ) ^ e₂) / (2 : ℚ) ^ (e₁ - e₂ - 53) = ((m₁ <<< 53 : ℕ) : ℚ) / m₂ := by
    rw [zpow_sub₀ (by norm_num), zpow_sub₀ (by norm_num), Nat.shiftLeft_eq]
    push_cast
    field_simp
  have hexp : -1074 ≤ e₁ - e₂ - 53 := by
    have hlt : (m₁ : ℚ) * 2 ^ e₁ / (m₂ * 2 ^ e₂) < 2 ^ (e₁ - e₂ + 1) := by
      have hm : (m₁ : ℚ) < 2 * m₂ := by exact_mod_cast (by omega : m₁ < 2 * m₂)
      rw [div_lt_iff₀ (mul_pos (Nat.cast_pos.2 hpos₂) (two_zpow_pos e₂)), zpow_add₀ (by norm_num), zpow_sub₀ (by norm_num),
        show (2 : ℚ) ^ e₁ / 2 ^ e₂ * 2 ^ (1 : ℤ) * (m₂ * 2 ^ e₂) = 2 * m₂ * 2 ^ e₁ by field_simp]
      exact mul_lt_mul_of_pos_right hm (two_zpow_pos e₁)
    have hlog := (Int.lt_zpow_iff_log_lt (b := 2) (by norm_num) hxy.pos).1 hlt
    have hmoderate := hxy.log
    omega
  have hcore : divCore Format.binary64 m₁ e₁ m₂ e₂ =
      ((m₁ <<< 53) / m₂, e₁ - e₂ - 53, accuracyOfFraction ((m₁ <<< 53) % m₂) m₂) := by
    have htarget : Format.binary64.targetExponent (totalExponent m₁ e₁ - totalExponent m₂ e₂) = e₁ - e₂ - 53 := by
      simp only [Format.targetExponent, totalExponent, Format.mantissaBits, Format.minExponent, hnormal₁.log, hnormal₂.log]
      norm_num
      omega
    rw [divCore, htarget]
    simp only [show min (e₁ - e₂) (e₁ - e₂ - 53) = e₁ - e₂ - 53 by omega, show (e₁ - e₂ - (e₁ - e₂ - 53)).toNat = 53 by omega]
  have hdiv : (a / b).toModel = Float.Model.pack (UnpackedFloat.div Format.binary64 a.toModel.unpack b.toModel.unpack) := rfl
  rw [show a / b = .ofModel (a / b).toModel from rfl, hdiv, ha, hb]
  have hround : UnpackedFloat.div Format.binary64 (.finite .positive m₁ e₁ hpos₁) (.finite .positive m₂ e₂ hpos₂) =
      roundWithAccuracy Format.binary64 .positive ((m₁ <<< 53) / m₂) (e₁ - e₂ - 53)
        (accuracyOfFraction ((m₁ <<< 53) % m₂) m₂) := by
    rw [UnpackedFloat.div, hcore]
    rfl
  rw [hround]
  refine IsNormal.of_round (roundWithAccuracy_eq ?_ ?_ hxy)
  · have hquotient : 2 ^ 52 ≤ (m₁ <<< 53) / m₂ := by
      rw [Nat.le_div_iff_mul_le hpos₂, Nat.shiftLeft_eq]
      exact Nat.mul_le_mul hge₁ hlt₂.le
    rw [Nat.le_log2 (by omega)]
    exact hquotient
  · rw [hvalue]
    have hsplit : ((m₁ <<< 53 : ℕ) : ℚ) / m₂ = ((m₁ <<< 53) / m₂ : ℕ) + (((m₁ <<< 53) % m₂ : ℕ) : ℚ) / m₂ := by
      have hne : (m₂ : ℚ) ≠ 0 := (Nat.cast_pos.2 hpos₂).ne'
      have hcast : ((m₁ <<< 53 : ℕ) : ℚ) = m₂ * ((m₁ <<< 53) / m₂ : ℕ) + ((m₁ <<< 53) % m₂ : ℕ) := by
        exact_mod_cast (Nat.div_add_mod (m₁ <<< 53) m₂).symm
      rw [div_eq_iff hne, add_mul, div_mul_cancel₀ _ hne, hcast, mul_comm]
    rw [hsplit]
    exact holds_accuracyOfFraction _ (Nat.mod_lt _ hpos₂)

/-- The sum, of numbers that may be subnormal. -/
theorem IsFinite.add (ha : IsFinite a x) (hb : IsFinite b y) (hxy : Moderate (x + y)) :
    IsNormal (a + b) (nearest 53 (x + y)) := by
  obtain ⟨m₁, e₁, hpos₁, ha, rfl⟩ := ha
  obtain ⟨m₂, e₂, hpos₂, hb, rfl⟩ := hb
  have hadd : (a + b).toModel = Float.Model.pack (UnpackedFloat.add Format.binary64 a.toModel.unpack b.toModel.unpack) := rfl
  rw [show a + b = .ofModel (a + b).toModel from rfl, hadd, ha, hb]
  generalize hk₁ : (e₁ - min e₁ e₂).toNat = k₁
  generalize hk₂ : (e₂ - min e₁ e₂).toNat = k₂
  have hpos : 0 < (m₁ <<< k₁) + (m₂ <<< k₂) := by
    have hleft : 0 < m₁ <<< k₁ := Nat.shiftLeft_pos_iff.2 hpos₁
    exact Nat.add_pos_left hleft _
  have hvalue : (m₁ : ℚ) * 2 ^ e₁ + m₂ * 2 ^ e₂ = (((m₁ <<< k₁) + (m₂ <<< k₂) : ℕ) : ℚ) * 2 ^ min e₁ e₂ := by
    rw [← shiftLeft_mul_zpow m₁ k₁, ← shiftLeft_mul_zpow m₂ k₂, show e₁ - k₁ = min e₁ e₂ by omega,
      show e₂ - k₂ = min e₁ e₂ by omega, ← add_mul]
    push_cast
    rfl
  have hround : UnpackedFloat.add Format.binary64 (.finite .positive m₁ e₁ hpos₁) (.finite .positive m₂ e₂ hpos₂) =
      UnpackedFloat.round Format.binary64 .positive ((m₁ <<< k₁) + (m₂ <<< k₂)) (min e₁ e₂) := by
    rw [UnpackedFloat.add]
    simp only [decreaseExponent, hk₁, hk₂]
    rw [UnpackedFloat.normalize]
    have hsum : Sign.positive.apply ((m₁ <<< k₁ : ℕ) : ℤ) + Sign.positive.apply ((m₂ <<< k₂ : ℕ) : ℤ) =
        (((m₁ <<< k₁) + (m₂ <<< k₂) : ℕ) : ℤ) := by
      push_cast
      rfl
    rw [hsum, Int.compare_eq_gt.2 (by omega)]
    rfl
  rw [hround, hvalue]
  rw [hvalue] at hxy
  exact IsNormal.of_round (round_eq hpos hxy)

/-- The sum. -/
theorem IsNormal.add (ha : IsNormal a x) (hb : IsNormal b y) (hxy : Moderate (x + y)) : IsNormal (a + b) (nearest 53 (x + y)) :=
  ha.isFinite.add hb.isFinite hxy

end Operations

/-- A half. -/
theorem isNormal_half : IsNormal 0.5 (1 / 2) := by
  have hhalf : (0.5 : Float) = .ofModel (Float.Model.pack (.finite .positive (2 ^ 52) (-53) (Nat.two_pow_pos 52))) := by
    decide +kernel
  have hnormal : Normal (2 ^ 52) (-53) := ⟨Nat.log2_two_pow, by norm_num, by norm_num⟩
  refine ⟨2 ^ 52, -53, Nat.two_pow_pos 52, hnormal, ?_, by norm_num⟩
  rw [hhalf]
  exact unpack_pack _ hnormal

/-- The fraction is cut off. -/
theorem roundToInt_eq (m : ℕ) (e : ℤ) : roundToInt .positive m e = ⌊(m : ℚ) * 2 ^ e⌋₊ := by
  rw [roundToInt]
  simp only [decreaseExponent, shiftToExponent, Sign.apply]
  generalize hs : (e - 0).toNat = s
  generalize hk : (0 - (e - (s : ℤ))).toNat = k
  rw [← ((holds_exact (m <<< s)).shiftRight k).floor, ← shiftLeft_mul_zpow m s e, show e - (s : ℤ) = -(k : ℤ) by omega,
    zpow_neg, zpow_natCast, div_eq_mul_inv]

/-- `as u64`: the fraction is cut off, and what is too large becomes the largest number. -/
theorem IsNormal.toNat_toUInt64 {a : Float} {x : ℚ} (h : IsNormal a x) : a.toUInt64.toNat = min ⌊x⌋₊ (2 ^ 64 - 1) := by
  obtain ⟨m, e, hpos, hnormal, ha, rfl⟩ := h
  have hmodel : a.toUInt64 = UInt64.ofNatClamp ((a.toModel.unpack.toInt 0 (UInt64.size - 1)).toNat) := rfl
  rw [hmodel, ha, UnpackedFloat.toInt, roundToInt_eq, Int.toNat_natCast, UInt64.ofNatClamp]
  split_ifs with hlt
  · rw [UInt64.size] at hlt
    rw [UInt64.toNat_ofNatLT]
    omega
  · rw [UInt64.size] at hlt
    rw [Nat.min_eq_right (by omega)]
    rfl

/-- `as u32` -/
theorem IsNormal.toNat_toUInt32 {a : Float} {x : ℚ} (h : IsNormal a x) : a.toUInt32.toNat = min ⌊x⌋₊ (2 ^ 32 - 1) := by
  obtain ⟨m, e, hpos, hnormal, ha, rfl⟩ := h
  have hmodel : a.toUInt32 = UInt32.ofNatClamp ((a.toModel.unpack.toInt 0 (UInt32.size - 1)).toNat) := rfl
  rw [hmodel, ha, UnpackedFloat.toInt, roundToInt_eq, Int.toNat_natCast, UInt32.ofNatClamp]
  split_ifs with hlt
  · rw [UInt32.size] at hlt
    rw [UInt32.toNat_ofNatLT]
    omega
  · rw [UInt32.size] at hlt
    rw [Nat.min_eq_right (by omega)]
    rfl

/-! ### Nothing -/

/-- The number is zero. -/
def IsZero (a : Float) : Prop := a.toModel.unpack = .zero .positive

theorem unpack_pack_zero : (Float.Model.pack (.zero .positive)).unpack = .zero .positive := rfl

theorem isZero_toFloat : IsZero (UInt64.toFloat 0) := unpack_pack_zero

section Zero

variable {a b : Float} {y : ℚ}

theorem IsZero.div (ha : IsZero a) (hb : IsNormal b y) : IsZero (a / b) := by
  obtain ⟨m, e, hpos, -, hb, -⟩ := hb
  show (Float.Model.pack (UnpackedFloat.div Format.binary64 a.toModel.unpack b.toModel.unpack)).unpack = _
  rw [show a.toModel.unpack = .zero .positive from ha, hb]
  exact unpack_pack_zero

theorem IsZero.mul (ha : IsZero a) (hb : IsZero b ∨ IsNormal b y) : IsZero (a * b) := by
  show (Float.Model.pack (UnpackedFloat.mul Format.binary64 a.toModel.unpack b.toModel.unpack)).unpack = _
  rw [show a.toModel.unpack = .zero .positive from ha]
  rcases hb with hb | ⟨m, e, hpos, -, hb, -⟩
  · rw [show b.toModel.unpack = .zero .positive from hb]
    exact unpack_pack_zero
  · rw [hb]
    exact unpack_pack_zero

theorem IsNormal.mul_zero (ha : IsNormal a y) (hb : IsZero b) : IsZero (a * b) := by
  obtain ⟨m, e, hpos, -, ha, -⟩ := ha
  show (Float.Model.pack (UnpackedFloat.mul Format.binary64 a.toModel.unpack b.toModel.unpack)).unpack = _
  rw [show b.toModel.unpack = .zero .positive from hb, ha]
  exact unpack_pack_zero

theorem IsZero.add (ha : IsZero a) (hb : IsNormal b y) : IsNormal (a + b) y := by
  obtain ⟨m, e, hpos, hnormal, hb, hy⟩ := hb
  refine ⟨m, e, hpos, hnormal, ?_, hy⟩
  show (Float.Model.pack (UnpackedFloat.add Format.binary64 a.toModel.unpack b.toModel.unpack)).unpack = _
  rw [show a.toModel.unpack = .zero .positive from ha, hb]
  exact unpack_pack hpos hnormal

end Zero

end Library.Binary64

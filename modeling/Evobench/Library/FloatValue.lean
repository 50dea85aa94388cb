import Evobench.Library.Binary64

/-!
# Values of floating-point numbers

`value a` is the exact value of `a`, if it has one. Between zero and a normal number, numbers are compared like their values
(`zero_le_of_value`, `le_of_value`). A product may be too small for a normal number, but then it does not matter any more
once a half is added (`exists_add_half`).
-/

namespace Library.Binary64

open Float.Model Float.Model.UnpackedFloat

/-- The exact value of a number; there is none for infinities and for what is not a number. -/
def value (a : Float) : Option ℚ :=
  match a.toModel.unpack with
  | .infinity _ => none
  | .notANumber => none
  | .zero _ => some 0
  | .finite sign m e _ => some ((sign.apply m : ℤ) * 2 ^ e)

variable {a b : Float} {x y : ℚ}

/-- A number with a value that is not negative is a zero, with any sign, or positive. -/
theorem cases_of_value (h : value a = some x) (hx : 0 ≤ x) :
    ((∃ sign, a.toModel.unpack = .zero sign) ∧ x = 0) ∨ IsFinite a x := by
  rw [value] at h
  cases hunpack : a.toModel.unpack with
  | infinity sign =>
    rw [hunpack] at h
    cases h
  | notANumber =>
    rw [hunpack] at h
    cases h
  | zero sign =>
    rw [hunpack] at h
    exact .inl ⟨⟨sign, rfl⟩, (Option.some.inj h).symm⟩
  | finite sign m e hpos =>
    rw [hunpack] at h
    have hvalue := Option.some.inj h
    have hm : (0 : ℚ) < m * 2 ^ e := mul_pos (Nat.cast_pos.2 hpos) (two_zpow_pos e)
    cases sign with
    | negative =>
      rw [Sign.apply] at hvalue
      push_cast at hvalue
      linarith
    | positive =>
      refine .inr ⟨m, e, hpos, hunpack, ?_⟩
      rw [← hvalue, Sign.apply, Int.cast_natCast]

/-! ### Comparison -/

/-- Bits stand for a mantissa with all digits, or for the least exponent. -/
theorem unpack_finite {sign : Sign} {m : ℕ} {e : ℤ} {hpos : 0 < m} (h : a.toModel.unpack = .finite sign m e hpos) :
    2 ^ 52 ≤ m ∨ e = -1074 := by
  rw [Float.Model.unpack, UnpackedFloat.unpack] at h
  simp only at h
  split at h
  · split at h
    · cases h
    · cases h
  · split at h
    · next hzero =>
      split at h
      · cases h
      · obtain ⟨-, -, rfl⟩ := UnpackedFloat.finite.inj h
        right
        rw [hzero]
        rfl
    · obtain ⟨-, rfl, -⟩ := UnpackedFloat.finite.inj h
      left
      rw [toNat_implicit]
      exact Nat.le_add_right _ _

theorem le_iff : a ≤ b ↔ (a.toModel.unpack.compare b.toModel.unpack).any (·.isLE) = true := by
  show decide (a.toModel ≤ b.toModel) = true ↔ _
  rw [decide_eq_true_iff]
  rfl

/-- Numbers are compared like their values. -/
theorem IsFinite.le_of_isNormal (ha : IsFinite a x) (hb : IsNormal b y) (h : x ≤ y) : a ≤ b := by
  obtain ⟨m₁, e₁, hpos₁, ha, rfl⟩ := ha
  obtain ⟨m₂, e₂, hpos₂, hnormal, hb, rfl⟩ := hb
  obtain ⟨hge, hlt⟩ := (Nat.log2_eq_iff hpos₂.ne').1 hnormal.log
  have hcompare : ((compare e₁ e₂).then (compare m₁ m₂)).isLE = true := by
    rcases lt_trichotomy e₁ e₂ with he | rfl | he
    · rw [Int.compare_eq_lt.2 he]
      rfl
    · rw [mul_le_mul_iff_left₀ (two_zpow_pos e₁), Nat.cast_le] at h
      rw [Int.compare_eq_eq.2 rfl]
      exact Nat.isLE_compare.2 h
    · have hle := hnormal.le
      have hm₁ : 2 ^ 52 ≤ m₁ := (unpack_finite ha).resolve_right (by omega)
      have hbelow : (m₂ : ℚ) * 2 ^ e₂ < m₁ * 2 ^ e₁ :=
        calc (m₂ : ℚ) * 2 ^ e₂ < 2 ^ 53 * 2 ^ e₂ := mul_lt_mul_of_pos_right (by exact_mod_cast hlt) (two_zpow_pos e₂)
          _ = 2 ^ 52 * 2 ^ (e₂ + 1) := by
            rw [zpow_add₀ (by norm_num)]
            ring
          _ ≤ 2 ^ 52 * 2 ^ e₁ := by
            refine mul_le_mul_of_nonneg_left ?_ (by norm_num)
            exact zpow_le_zpow_right₀ (by norm_num) (by omega)
          _ ≤ m₁ * 2 ^ e₁ := mul_le_mul_of_nonneg_right (by exact_mod_cast hm₁) (two_zpow_pos e₁).le
      linarith
  rw [le_iff, ha, hb]
  exact hcompare

theorem unpack_zero : (0.0 : Float).toModel.unpack = .zero .positive := by
  have hzero : (0.0 : Float) = .ofModel (Float.Model.pack (.zero .positive)) := by
    decide +kernel
  rw [hzero]
  exact unpack_pack_zero

/-- What is not negative is not below zero, also if it is the negative zero. -/
theorem zero_le_of_value (h : value a = some x) (hx : 0 ≤ x) : 0.0 ≤ a := by
  rw [le_iff, unpack_zero]
  rcases cases_of_value h hx with ⟨⟨sign, ha⟩, -⟩ | ⟨m, e, hpos, ha, -⟩
  · rw [ha]
    rfl
  · rw [ha]
    rfl

theorem le_of_value (h : value a = some x) (hx : 0 ≤ x) (hb : IsNormal b y) (hxy : x ≤ y) : a ≤ b := by
  rcases cases_of_value h hx with ⟨⟨sign, ha⟩, -⟩ | hfinite
  · obtain ⟨m, e, hpos, -, hb, -⟩ := hb
    rw [le_iff, ha, hb]
    rfl
  · exact hfinite.le_of_isNormal hb hxy

/-! ### Small numbers -/

/-- A subnormal number is kept in its bits. -/
theorem unpack_pack_subnormal {m : ℕ} (hpos : 0 < m) (hlt : m < 2 ^ 52) :
    (Float.Model.pack (.finite .positive m (-1074) hpos)).unpack = .finite .positive m (-1074) hpos := by
  have hlog : m.log2 < 52 := (Nat.log2_lt hpos.ne').2 hlt
  have hmantissa : (BitVec.ofNat 52 m).toNat = m := by
    rw [BitVec.toNat_ofNat, Nat.mod_eq_of_lt hlt]
  have hne : BitVec.ofNat 52 m ≠ 0#52 := by
    intro heq
    have hnat := congrArg BitVec.toNat heq
    rw [hmantissa, BitVec.toNat_zero] at hnat
    omega
  have hpack : UnpackedFloat.pack Format.binary64 (.finite .positive m (-1074) hpos) =
      packComponents Format.binary64 .positive 0#11 (BitVec.ofNat 52 m) := by
    have hbiased : ((-1074 : ℤ) + (Format.binary64.exponentBias : ℕ) + (52 : ℕ)).toNat = 1 := rfl
    rw [UnpackedFloat.pack]
    simp only [hbiased]
    rw [if_neg (by decide), if_neg (by rw [show Format.binary64.mantissaBits = 53 from rfl]; omega)]
  show UnpackedFloat.unpack Format.binary64 (UnpackedFloat.pack Format.binary64 (.finite .positive m (-1074) hpos)) = _
  rw [hpack, UnpackedFloat.unpack]
  simp only [unpackExponent_packComponents, unpackMantissa_packComponents, unpackSign_packComponents]
  rw [if_neg (by decide), if_pos trivial, dif_neg hne]
  simp only [hmantissa]
  rfl

/-- A zero, or a number that is much too small to matter. -/
def IsSmall (a : Float) : Prop :=
  (∃ sign, a.toModel.unpack = .zero sign) ∨ ∃ x, IsFinite a x ∧ x ≤ 2 ^ (-900 : ℤ)

/-- The mantissa that is left. -/
theorem mantissa_shiftRight (m k : ℕ) : (ExtendedMantissa.ofMantissaAndAccuracy m .exact >>> k).mantissa = m / 2 ^ k := by
  rw [← ((holds_exact m).shiftRight k).floor]
  exact_mod_cast Nat.floor_div_eq_div (K := ℚ) m (2 ^ k)

theorem shiftToTargetExponent_mantissa (m : ℕ) (e : ℤ) {k : ℕ} (hk : (max ((m.log2 : ℤ) + e - 52) (-1074) - e).toNat = k) :
    shiftToTargetExponent Format.binary64 m e .exact = (ExtendedMantissa.ofMantissaAndAccuracy m .exact >>> k, e + k) := by
  rw [shiftToTargetExponent, targetExponent_eq]
  simp only [shiftToExponent, hk]

/-- Rounding a small number. -/
theorem isSmall_roundWithAccuracy {m : ℕ} {e : ℤ} (hm : 52 ≤ m.log2) (hsmall : (m : ℚ) * 2 ^ e < 2 ^ (-1000 : ℤ)) :
    IsSmall (.ofModel (Float.Model.pack (roundWithAccuracy Format.binary64 .positive m e .exact))) := by
  have hm' : 0 < m := by
    rcases Nat.eq_zero_or_pos m with rfl | hm'
    · rw [Nat.log2_zero] at hm
      omega
    · exact hm'
  have hlog : (m.log2 : ℤ) + e < -1000 := by
    have h := (Int.lt_zpow_iff_log_lt (b := 2) (by norm_num) (mul_pos (Nat.cast_pos.2 hm') (two_zpow_pos e))).1 hsmall
    rwa [log_mul_zpow hm', ← Nat.log2_eq_log_two] at h
  obtain ⟨k, hk⟩ : ∃ k, (max ((m.log2 : ℤ) + e - 52) (-1074) - e).toNat = k := ⟨_, rfl⟩
  have hexp : e + k = max ((m.log2 : ℤ) + e - 52) (-1074) := by omega
  have hround := ((holds_exact m).shiftRight k).roundedMantissa
  obtain ⟨hge, hlt⟩ := (Nat.log2_eq_iff hm'.ne').1 rfl
  -- The rounded mantissa, and its value.
  generalize hr : roundEven ((m : ℚ) / 2 ^ k) = r at hround
  have hr53 : r ≤ 2 ^ 53 := by
    have hle : (m : ℚ) / 2 ^ k ≤ ((2 ^ 53 : ℕ) : ℚ) := by
      rw [div_le_iff₀ (by positivity)]
      have hpow : m ≤ 2 ^ 53 * 2 ^ k := by
        rw [← pow_add]
        exact hlt.le.trans (Nat.pow_le_pow_right (by norm_num) (by omega))
      exact_mod_cast hpow
    have hmono := roundEven_mono hle
    rwa [roundEven_natCast, hr] at hmono
  have hvalue : (r : ℚ) * 2 ^ (e + k) ≤ 2 ^ (-900 : ℤ) := by
    have hceil : (r : ℚ) ≤ (m : ℚ) / 2 ^ k + 1 := by
      have hfloor := Nat.floor_le (show 0 ≤ (m : ℚ) / 2 ^ k by positivity)
      have hle : (r : ℚ) ≤ ((⌊(m : ℚ) / 2 ^ k⌋₊ + 1 : ℕ) : ℚ) := by
        rw [← hr]
        exact Nat.cast_le.2 (roundEven_le _)
      push_cast at hle
      linarith
    calc (r : ℚ) * 2 ^ (e + k) ≤ ((m : ℚ) / 2 ^ k + 1) * 2 ^ (e + k) := mul_le_mul_of_nonneg_right hceil (two_zpow_pos _).le
      _ = m * 2 ^ e + 2 ^ (e + k) := by
        rw [zpow_add₀ (by norm_num), zpow_natCast]
        field_simp
      _ ≤ 2 ^ (-1000 : ℤ) + 2 ^ (-1000 : ℤ) :=
        add_le_add hsmall.le (zpow_le_zpow_right₀ (by norm_num) (by omega))
      _ = 2 ^ (-999 : ℤ) := by
        rw [show (-999 : ℤ) = -1000 + 1 by norm_num, zpow_add₀ (by norm_num)]
        ring
      _ ≤ 2 ^ (-900 : ℤ) := zpow_le_zpow_right₀ (by norm_num) (by norm_num)
  have hfirst := shiftToTargetExponent_mantissa m e hk
  rw [roundWithAccuracy]
  rcases Nat.eq_zero_or_pos r with rfl | hrpos
  · -- Nothing is left.
    have hsecond := shiftToTargetExponent_mantissa 0 (e + k) rfl
    simp only [hfirst, hround, hsecond, mantissa_shiftRight, Nat.zero_div]
    exact .inl ⟨.positive, unpack_pack_zero⟩
  · right
    rcases Nat.lt_or_ge r (2 ^ 52) with hsub | hnormal
    · -- A subnormal number.
      have hlast : e + k = -1074 := by
        by_contra hne
        have hmin : e + k = (m.log2 : ℤ) + e - 52 := by omega
        have hle : ((2 ^ 52 : ℕ) : ℚ) ≤ (m : ℚ) / 2 ^ k := by
          rw [le_div_iff₀ (by positivity)]
          have hpow : 2 ^ 52 * 2 ^ k ≤ m := by
            rw [← pow_add, show 52 + k = m.log2 by omega]
            exact hge
          exact_mod_cast hpow
        have hmono := roundEven_mono hle
        rw [roundEven_natCast, hr] at hmono
        omega
      have hrlog : r.log2 < 52 := (Nat.log2_lt hrpos.ne').2 hsub
      have hsecond : shiftToTargetExponent Format.binary64 r (e + k) .exact = (.ofMantissaAndAccuracy r .exact, -1074) := by
        rw [shiftToTargetExponent_mantissa r (e + k) (show _ = 0 by omega), Nat.cast_zero, add_zero, hlast]
        rfl
      simp only [hfirst, hround, hsecond]
      rw [dif_neg (show (ExtendedMantissa.ofMantissaAndAccuracy r .exact).mantissa ≠ 0 from hrpos.ne')]
      rw [hlast] at hvalue
      exact ⟨_, ⟨r, -1074, hrpos, unpack_pack_subnormal hrpos hsub, rfl⟩, hvalue⟩
    · obtain ⟨M, E, b, b', hsecond, hM, hE, hE', hsame⟩ := shiftToTargetExponent_exact hnormal hr53 (show -1074 ≤ e + k by omega)
      have hMpos : 0 < M := by
        rcases Nat.eq_zero_or_pos M with rfl | hpos
        · rw [Nat.log2_zero] at hM
          omega
        · exact hpos
      simp only [hfirst, hround, hsecond]
      rw [dif_neg hMpos.ne']
      rw [← hsame] at hvalue
      exact ⟨_, ⟨M, E, hMpos, unpack_pack hMpos ⟨hM, by omega, by omega⟩, rfl⟩, hvalue⟩

/-- A product that is too small. -/
theorem IsNormal.isSmall_mul (ha : IsNormal a x) (hb : IsFinite b y) (hxy : x * y < 2 ^ (-1000 : ℤ)) : IsSmall (a * b) := by
  obtain ⟨m₁, e₁, hpos₁, hnormal₁, ha, rfl⟩ := ha
  obtain ⟨m₂, e₂, hpos₂, hb, rfl⟩ := hb
  have hge₁ := ((Nat.log2_eq_iff hpos₁.ne').1 hnormal₁.log).1
  have hmul : (a * b).toModel = Float.Model.pack (UnpackedFloat.mul Format.binary64 a.toModel.unpack b.toModel.unpack) := rfl
  rw [show a * b = .ofModel (a * b).toModel from rfl, hmul, ha, hb]
  refine isSmall_roundWithAccuracy ?_ ?_
  · rw [Nat.le_log2 (Nat.mul_pos hpos₁ hpos₂).ne']
    calc 2 ^ 52 ≤ 2 ^ 52 * 1 := by norm_num
      _ ≤ m₁ * m₂ := Nat.mul_le_mul hge₁ hpos₂
  · refine lt_of_eq_of_lt ?_ hxy
    rw [zpow_add₀ (by norm_num)]
    push_cast
    ring

theorem unpack_pack_negative_zero : (Float.Model.pack (.zero .negative)).unpack = .zero .negative := rfl

/-- A product with nothing. -/
theorem IsNormal.isSmall_mul_zero (ha : IsNormal a x) {sign : Sign} (hb : b.toModel.unpack = .zero sign) : IsSmall (a * b) := by
  obtain ⟨m, e, hpos, -, ha, -⟩ := ha
  refine .inl ⟨sign, ?_⟩
  show (Float.Model.pack (UnpackedFloat.mul Format.binary64 a.toModel.unpack b.toModel.unpack)).unpack = _
  rw [ha, hb]
  cases sign with
  | positive => exact unpack_pack_zero
  | negative => exact unpack_pack_negative_zero

/-- **Small numbers do not matter** once a half is added. -/
theorem IsSmall.exists_add_half (h : IsSmall a) : ∃ y, IsNormal (a + 0.5) y ∧ y < 1 := by
  rcases h with ⟨sign, ha⟩ | ⟨x, ha, hx⟩
  · obtain ⟨m, e, hpos, hnormal, hhalf, hvalue⟩ := isNormal_half
    refine ⟨1 / 2, ⟨m, e, hpos, hnormal, ?_, hvalue⟩, by norm_num⟩
    show (Float.Model.pack (UnpackedFloat.add Format.binary64 a.toModel.unpack (0.5 : Float).toModel.unpack)).unpack = _
    rw [ha, hhalf]
    exact unpack_pack hpos hnormal
  · have hx' : x ≤ 1 / 4 := hx.trans (by
      rw [show (1 / 4 : ℚ) = 2 ^ (-2 : ℤ) by norm_num]
      exact zpow_le_zpow_right₀ (by norm_num) (by norm_num))
    have hxpos := ha.pos
    have hmoderate : Moderate (x + 1 / 2) := by
      constructor
      · have hhalf : (2 : ℚ) ^ (-1 : ℤ) ≤ x + 1 / 2 := by
          rw [zpow_neg_one]
          linarith
        calc (2 : ℚ) ^ (-1000 : ℤ) ≤ 2 ^ (-1 : ℤ) := zpow_le_zpow_right₀ (by norm_num) (by norm_num)
          _ ≤ x + 1 / 2 := hhalf
      · have hone : x + 1 / 2 ≤ 2 ^ (0 : ℤ) := by
          rw [zpow_zero]
          linarith
        calc x + 1 / 2 ≤ 2 ^ (0 : ℤ) := hone
          _ ≤ 2 ^ (1000 : ℤ) := zpow_le_zpow_right₀ (by norm_num) (by norm_num)
    refine ⟨_, ha.add isNormal_half.isFinite hmoderate, ?_⟩
    have hexact := nearest_of_lt (p := 53) (m := 3) (by norm_num) (by norm_num) (-2)
    have hthree : ((3 : ℕ) : ℚ) * 2 ^ (-2 : ℤ) = 3 / 4 := by norm_num
    rw [hthree] at hexact
    have hmono : nearest 53 (x + 1 / 2) ≤ nearest 53 (3 / 4) := nearest_mono (by norm_num) (by linarith) (by linarith)
    rw [hexact] at hmono
    linarith

end Library.Binary64

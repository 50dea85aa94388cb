import Evobench.Library.Program
import Evobench.Evaluator.LogMessage

/-!
# Time arithmetic

`MicroTime` and `NanoTime` are defined by one macro: seconds, and parts of a second. Here the macro is a class
(`DefineTime`), and what it defines are functions for any type of that class.

`ExactArithmetic` says that adding and subtracting is what it is for the counts of increments. Adding always is; subtracting
panics for two times in the same second, if the second one is later (`exactArithmetic_iff`).

Overflow checks are on, in release builds too.
-/

namespace Evobench.Evaluator

/-- `to_nsec` -/
def NanoTime.toNsec (t : NanoTime) : ℕ := t.sec.toNat * 1000000000 + t.nsec.toNat

/-- `to_usec` -/
def MicroTime.toUsec (t : MicroTime) : ℕ := t.sec.toNat * 1000000 + t.usec.toNat

/-- `to_nsec` -/
def MicroTime.toNsec (t : MicroTime) : ℕ := t.sec.toNat * 1000000000 + t.usec.toNat * 1000

end Evobench.Evaluator

namespace Evobench.Times

open Library Evaluator

/-! ### Numbers of 32 bits -/

section Checked

variable {ε : Type}

/-- `+` -/
def addU32 (a b : UInt32) : Outcome ε UInt32 :=
  if a.toNat + b.toNat < UInt32.size then .ok (a + b) else .panic "attempt to add with overflow"

/-- `-` -/
def subU32 (a b : UInt32) : Outcome ε UInt32 :=
  if b.toNat ≤ a.toNat then .ok (a - b) else .panic "attempt to subtract with overflow"

/-- `*` -/
def mulU32 (a b : UInt32) : Outcome ε UInt32 :=
  if a.toNat * b.toNat < UInt32.size then .ok (a * b) else .panic "attempt to multiply with overflow"

/-- `checked_sub` -/
def checkedSubU32 (a b : UInt32) : Option UInt32 := if b.toNat ≤ a.toNat then some (a - b) else none

theorem addU32_ok {a b : UInt32} (h : a.toNat + b.toNat < UInt32.size) :
    ∃ c, (addU32 a b : Outcome ε UInt32) = .ok c ∧ c.toNat = a.toNat + b.toNat :=
  ⟨a + b, if_pos h, by rw [UInt32.toNat_add, Nat.mod_eq_of_lt h]⟩

theorem subU32_ok {a b : UInt32} (h : b.toNat ≤ a.toNat) :
    ∃ c, (subU32 a b : Outcome ε UInt32) = .ok c ∧ c.toNat = a.toNat - b.toNat :=
  ⟨a - b, if_pos h, UInt32.toNat_sub_of_le _ _ (UInt32.le_iff_toNat_le.2 h)⟩

theorem mulU32_ok {a b : UInt32} (h : a.toNat * b.toNat < UInt32.size) :
    ∃ c, (mulU32 a b : Outcome ε UInt32) = .ok c ∧ c.toNat = a.toNat * b.toNat :=
  ⟨a * b, if_pos h, by rw [UInt32.toNat_mul, Nat.mod_eq_of_lt h]⟩

theorem checkedSubU32_some {a b : UInt32} (h : b.toNat ≤ a.toNat) :
    ∃ c, checkedSubU32 a b = some c ∧ c.toNat = a.toNat - b.toNat :=
  ⟨a - b, if_pos h, UInt32.toNat_sub_of_le _ _ (UInt32.le_iff_toNat_le.2 h)⟩

theorem checkedSubU32_none {a b : UInt32} (h : a.toNat < b.toNat) : checkedSubU32 a b = none := if_neg (Nat.not_le.2 h)

end Checked

/-! ### Times -/

/-- `define_time`: a type of times. -/
class DefineTime (τ : Type) where
  /-- `$max__sec`: how many parts a second has -/
  maxSec : UInt32
  /-- `sec` -/
  sec : τ → UInt32
  /-- `$_sec` -/
  subSec : τ → UInt32
  /-- With these fields. -/
  make : UInt32 → UInt32 → τ
  sec_make : ∀ s p, sec (make s p) = s
  subSec_make : ∀ s p, subSec (make s p) = p
  maxSec_pos : 0 < maxSec.toNat
  /-- Two parts of a second can be added. -/
  maxSec_le : 2 * maxSec.toNat ≤ UInt32.size

/-- `define_time!(MicroTime, usec, 1_000_000)` -/
instance : DefineTime MicroTime where
  maxSec := 1000000
  sec := MicroTime.sec
  subSec := MicroTime.usec
  make := MicroTime.mk
  sec_make _ _ := rfl
  subSec_make _ _ := rfl
  maxSec_pos := by decide
  maxSec_le := by decide

/-- `define_time!(NanoTime, nsec, 1_000_000_000)` -/
instance : DefineTime NanoTime where
  maxSec := 1000000000
  sec := NanoTime.sec
  subSec := NanoTime.nsec
  make := NanoTime.mk
  sec_make _ _ := rfl
  subSec_make _ _ := rfl
  maxSec_pos := by decide
  maxSec_le := by decide

open DefineTime

section Time

variable {τ : Type} [DefineTime τ] {ε : Type}

/-- `is_valid` -/
def isValid (t : τ) : Bool := subSec t < maxSec τ

/-- `new` -/
def new (s p : UInt32) : Option τ := if isValid (make s p : τ) then some (make s p) else none

/-- `to_increments`: in 64 bits, where it always fits -/
def toIncrements (t : τ) : ℕ := (sec t).toNat * (maxSec τ).toNat + (subSec t).toNat

/-- `add` -/
def add (self rhs : τ) : Outcome ε τ := do
  let p ← addU32 (subSec self) (subSec rhs)
  if maxSec τ ≤ p then
    let s ← addU32 (sec self) (sec rhs)
    let s ← addU32 s 1
    let p ← subU32 p (maxSec τ)
    pure (make s p)
  else
    let s ← addU32 (sec self) (sec rhs)
    pure (make s p)

/-- `checked_sub` -/
def checkedSub (self rhs : τ) : Outcome ε (Option τ) :=
  match checkedSubU32 (sec self) (sec rhs) with
  | none => .ok none
  | some s =>
    match checkedSubU32 (subSec self) (subSec rhs) with
    | some p => .ok (some (make s p))
    | none => do
      let s ← subU32 s 1
      let p ← addU32 (subSec self) (maxSec τ)
      let p ← subU32 p (subSec rhs)
      pure (some (make s p))

/-- `sub` -/
def sub (self rhs : τ) : Outcome ε τ := do
  match ← checkedSub self rhs with
  | some t => pure t
  | none => .panic "number overflow"

/-! ### Exact numbers -/

theorem isValid_iff {t : τ} : isValid t = true ↔ (subSec t).toNat < (maxSec τ).toNat := by
  rw [isValid, decide_eq_true_iff, UInt32.lt_iff_toNat_lt]

theorem toIncrements_make (s p : UInt32) :
    toIncrements (make s p : τ) = s.toNat * (maxSec τ).toNat + p.toNat := by
  rw [toIncrements, sec_make, subSec_make]

theorem isValid_make {s p : UInt32} (h : p.toNat < (maxSec τ).toNat) : isValid (make s p : τ) = true := by
  rwa [isValid_iff, subSec_make]

/-- The increments of valid times. -/
theorem toIncrements_lt_of_isValid {t : τ} (h : isValid t = true) : toIncrements t < UInt32.size * (maxSec τ).toNat := by
  have hsub := isValid_iff.1 h
  have hsec : (sec t).toNat + 1 ≤ UInt32.size := (sec t).toNat_lt
  calc toIncrements t < (sec t).toNat * (maxSec τ).toNat + (maxSec τ).toNat := Nat.add_lt_add_left hsub _
    _ = ((sec t).toNat + 1) * (maxSec τ).toNat := (Nat.succ_mul _ _).symm
    _ ≤ UInt32.size * (maxSec τ).toNat := Nat.mul_le_mul_right _ hsec

/-- The order of times: by the seconds, and then by the parts. -/
theorem toIncrements_lt_iff {a b : τ} (ha : isValid a = true) (hb : isValid b = true) :
    toIncrements a < toIncrements b ↔
      (sec a).toNat < (sec b).toNat ∨ (sec a).toNat = (sec b).toNat ∧ (subSec a).toNat < (subSec b).toNat := by
  have ha := isValid_iff.1 ha
  have hb := isValid_iff.1 hb
  rw [toIncrements, toIncrements]
  rcases Nat.lt_trichotomy (sec a).toNat (sec b).toNat with hlt | heq | hgt
  · refine iff_of_true ?_ (.inl hlt)
    have hmul := Nat.mul_le_mul_right (maxSec τ).toNat (Nat.succ_le_of_lt hlt)
    rw [Nat.succ_mul] at hmul
    omega
  · rw [heq]
    omega
  · refine iff_of_false ?_ (by omega)
    have hmul := Nat.mul_le_mul_right (maxSec τ).toNat (Nat.succ_le_of_lt hgt)
    rw [Nat.succ_mul] at hmul
    omega

section Operations

variable {a b : τ} (ha : isValid a = true) (hb : isValid b = true)

include ha hb

/-- **Adding is exact**, where the sum can be represented. -/
theorem add_ok (h : toIncrements a + toIncrements b < UInt32.size * (maxSec τ).toNat) :
    ∃ d : τ, (add a b : Outcome ε τ) = .ok d ∧ isValid d = true ∧ toIncrements d = toIncrements a + toIncrements b := by
  have ha := isValid_iff.1 ha
  have hb := isValid_iff.1 hb
  have hmax := maxSec_le (τ := τ)
  rw [toIncrements, toIncrements] at h ⊢
  obtain ⟨p, hp, hpval⟩ := addU32_ok (ε := ε) (a := subSec a) (b := subSec b) (by omega)
  rw [add, hp, Outcome.ok_bind]
  by_cases hcarry : maxSec τ ≤ p
  · have hcarry' := UInt32.le_iff_toNat_le.1 hcarry
    have hsum : ((sec a).toNat + (sec b).toNat + 1) * (maxSec τ).toNat < UInt32.size * (maxSec τ).toNat := by
      rw [Nat.add_mul, Nat.add_mul, Nat.one_mul]
      omega
    have hlt := Nat.lt_of_mul_lt_mul_right hsum
    obtain ⟨s, hs, hsval⟩ := addU32_ok (ε := ε) (a := sec a) (b := sec b) (by omega)
    obtain ⟨s', hs', hsval'⟩ := addU32_ok (ε := ε) (a := s) (b := 1) (by rw [hsval]; exact hlt)
    obtain ⟨p', hp', hpval'⟩ := subU32_ok (ε := ε) (a := p) (b := maxSec τ) hcarry'
    rw [if_pos hcarry, hs, Outcome.ok_bind, hs', Outcome.ok_bind, hp', Outcome.ok_bind]
    refine ⟨make s' p', rfl, isValid_make (by omega), ?_⟩
    have hone : (1 : UInt32).toNat = 1 := rfl
    rw [toIncrements_make, hsval', hsval, hpval', hpval, hone, Nat.add_mul, Nat.add_mul, Nat.one_mul]
    omega
  · have hcarry' := Nat.not_le.1 fun hle => hcarry (UInt32.le_iff_toNat_le.2 hle)
    have hsum : ((sec a).toNat + (sec b).toNat) * (maxSec τ).toNat < UInt32.size * (maxSec τ).toNat := by
      rw [Nat.add_mul]
      omega
    have hlt := Nat.lt_of_mul_lt_mul_right hsum
    obtain ⟨s, hs, hsval⟩ := addU32_ok (ε := ε) (a := sec a) (b := sec b) hlt
    rw [if_neg hcarry, hs, Outcome.ok_bind]
    refine ⟨make s p, rfl, isValid_make hcarry', ?_⟩
    rw [toIncrements_make, hsval, hpval, Nat.add_mul]
    omega

/-- **Subtracting is exact**, where the difference is not negative. -/
theorem checkedSub_some (h : toIncrements b ≤ toIncrements a) :
    ∃ d : τ, (checkedSub a b : Outcome ε (Option τ)) = .ok (some d) ∧ isValid d = true ∧
      toIncrements d = toIncrements a - toIncrements b := by
  have horder : ¬ ((sec a).toNat < (sec b).toNat ∨ (sec a).toNat = (sec b).toNat ∧ (subSec a).toNat < (subSec b).toNat) :=
    fun hlt => Nat.not_lt.2 h ((toIncrements_lt_iff ha hb).2 hlt)
  have ha := isValid_iff.1 ha
  have hb := isValid_iff.1 hb
  have hmax := maxSec_le (τ := τ)
  have hsec : (sec b).toNat ≤ (sec a).toNat := Nat.not_lt.1 fun hlt => horder (.inl hlt)
  obtain ⟨s, hs, hsval⟩ := checkedSubU32_some hsec
  rw [checkedSub, hs]
  simp only
  by_cases hsub : (subSec b).toNat ≤ (subSec a).toNat
  · obtain ⟨p, hp, hpval⟩ := checkedSubU32_some hsub
    rw [hp]
    refine ⟨make s p, rfl, isValid_make (by omega), ?_⟩
    rw [toIncrements_make, hsval, hpval, toIncrements, toIncrements, Nat.sub_mul]
    have hmul := Nat.mul_le_mul_right (maxSec τ).toNat hsec
    omega
  · have hlt : (sec b).toNat < (sec a).toNat := by
      rcases Nat.eq_or_lt_of_le hsec with heq | hlt
      · exact absurd (.inr ⟨heq.symm, Nat.not_le.1 hsub⟩) horder
      · exact hlt
    obtain ⟨s', hs', hsval'⟩ := subU32_ok (ε := ε) (a := s) (b := 1) (by rw [hsval]; exact Nat.sub_pos_of_lt hlt)
    obtain ⟨p, hp, hpval⟩ := addU32_ok (ε := ε) (a := subSec a) (b := maxSec τ) (by omega)
    obtain ⟨p', hp', hpval'⟩ := subU32_ok (ε := ε) (a := p) (b := subSec b) (by omega)
    rw [checkedSubU32_none (Nat.not_le.1 hsub), hs', Outcome.ok_bind, hp, Outcome.ok_bind, hp', Outcome.ok_bind]
    refine ⟨make s' p', rfl, isValid_make (by omega), ?_⟩
    obtain ⟨k, hk⟩ := Nat.exists_eq_add_of_lt hlt
    have hone : (1 : UInt32).toNat = 1 := rfl
    have hs'k : s'.toNat = k := by omega
    rw [toIncrements_make, hs'k, hpval', hpval, toIncrements, toIncrements, hk, Nat.add_mul, Nat.add_mul, Nat.one_mul]
    omega

omit ha hb in
theorem checkedSub_none (h : (sec a).toNat < (sec b).toNat) : (checkedSub a b : Outcome ε (Option τ)) = .ok none := by
  rw [checkedSub, checkedSubU32_none h]

omit ha hb in
/-- A later time in the same second. -/
theorem checkedSub_panics (hsec : sec a = sec b) (hsub : subSec a < subSec b) :
    ∃ msg, (checkedSub a b : Outcome ε (Option τ)) = .panic msg := by
  obtain ⟨s, hs, hsval⟩ := checkedSubU32_some (a := sec a) (b := sec b) (by rw [hsec])
  rw [checkedSub, hs, checkedSubU32_none (UInt32.lt_iff_toNat_lt.1 hsub)]
  simp only
  rw [subU32, if_neg (by rw [hsval, hsec, Nat.sub_self]; decide)]
  exact ⟨_, rfl⟩

end Operations

/-- **Adding and subtracting is exact** for two times. -/
structure ExactArithmetic (a b : τ) : Prop where
  /-- The sum, if it can be represented. -/
  add : ∀ t : τ, isValid t = true → toIncrements t = toIncrements a + toIncrements b →
    ∃ d : τ, (add a b : Outcome Empty τ) = .ok d ∧ isValid d = true ∧ toIncrements d = toIncrements a + toIncrements b
  /-- The difference, if it is not negative. -/
  sub : toIncrements b ≤ toIncrements a → ∃ d : τ, (checkedSub a b : Outcome Empty (Option τ)) = .ok (some d) ∧
    isValid d = true ∧ toIncrements d = toIncrements a - toIncrements b
  /-- No difference otherwise. -/
  less : toIncrements a < toIncrements b → (checkedSub a b : Outcome Empty (Option τ)) = .ok none

/-- **When it is exact**: unless the second time is later in the same second. -/
theorem exactArithmetic_iff {a b : τ} (ha : isValid a = true) (hb : isValid b = true) :
    ExactArithmetic a b ↔ ¬ (sec a = sec b ∧ subSec a < subSec b) := by
  constructor
  · rintro ⟨-, -, hless⟩ ⟨hsec, hsub⟩
    have hlt : toIncrements a < toIncrements b :=
      (toIncrements_lt_iff ha hb).2 (.inr ⟨congrArg UInt32.toNat hsec, UInt32.lt_iff_toNat_lt.1 hsub⟩)
    obtain ⟨msg, hmsg⟩ := checkedSub_panics (ε := Empty) hsec hsub
    rw [hless hlt] at hmsg
    cases hmsg
  · intro hnot
    refine ⟨fun t ht hsum => add_ok ha hb ?_, checkedSub_some ha hb, fun hlt => ?_⟩
    · rw [← hsum]
      exact toIncrements_lt_of_isValid ht
    · rcases (toIncrements_lt_iff ha hb).1 hlt with hsec | ⟨hsec, hsub⟩
      · exact checkedSub_none hsec
      · exact absurd ⟨UInt32.toNat_inj.1 hsec, UInt32.lt_iff_toNat_lt.2 hsub⟩ hnot

end Time

/-- Microseconds and nanoseconds, with a carry and a borrow. -/
theorem exactArithmetic_iff_sample :
    ExactArithmetic (⟨4, 999998⟩ : MicroTime) ⟨3, 999999⟩ ∧ ExactArithmetic (⟨4, 999999998⟩ : NanoTime) ⟨3, 999999999⟩ :=
  ⟨(exactArithmetic_iff (by decide) (by decide)).2 (by decide), (exactArithmetic_iff (by decide) (by decide)).2 (by decide)⟩

/-- One microsecond less: a panic instead of `None`. -/
theorem checkedSub_same_second :
    ¬ ExactArithmetic (⟨10, 2⟩ : MicroTime) ⟨10, 3⟩ ∧ ¬ ExactArithmetic (⟨10, 2⟩ : NanoTime) ⟨10, 3⟩ := by
  constructor
  · intro h
    exact absurd (h.less (by decide)) (by decide)
  · intro h
    exact absurd (h.less (by decide)) (by decide)

end Evobench.Times

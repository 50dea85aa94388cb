import Evobench.Library.Decimal
import Evobench.Times.Arithmetic

/-!
# How times are shown

Times are shown in milliseconds, in seconds, or (`Display`) in a unit that depends on their magnitude. `RendersExactly` says
that all of these can be read back, as the same count of nanoseconds.

In milliseconds the seconds are multiplied in 32 bits. **`renders_exactly_iff`**: all is well for the times whose milliseconds
fit these; that is about 49 days.
-/

namespace Evobench.Times

open Library Evaluator

/-! ### Rendering -/

/-- `print_milli_micro` -/
def printMilliMicro (milli micro : ℕ) : List Char := Nat.toDigits 10 milli ++ '.' :: padded 3 micro ++ [' ', 'm', 's']

/-- `print_milli_micro_nano` -/
def printMilliMicroNano (milli micro nano : ℕ) : List Char :=
  Nat.toDigits 10 milli ++ '.' :: (padded 3 micro ++ '_' :: padded 3 nano) ++ [' ', 'm', 's']

/-- `print_micro_nano` -/
def printMicroNano (micro nano : ℕ) : List Char := Nat.toDigits 10 micro ++ '.' :: padded 3 nano ++ [' ', 'u', 's']

/-- `milli_micro` -/
def milliMicro (usec : ℕ) : ℕ × ℕ := (usec / 1000, usec % 1000)

/-- `milli_micro_nano` -/
def milliMicroNano (nsec : ℕ) : ℕ × ℕ × ℕ :=
  let usec := nsec / 1000
  let nano := nsec % 1000
  let (milli, micro) := milliMicro usec
  (milli, micro, nano)

/-- `format_integer_with_undercores` -/
def formatIntegerWithUndercores (digits : List Char) : List Char := underscored digits

/-- `to_string_ms`, for a type with so many digits below a millisecond -/
def toStringMs (width : ℕ) (perMilli sec sub : UInt32) : Outcome Empty (List Char) := do
  let ms ← mulU32 sec 1000
  let ms ← addU32 ms (sub / perMilli)
  let rest := sub % perMilli
  pure (Nat.toDigits 10 ms.toNat ++ '.' :: padded width rest.toNat)

/-- `to_string_seconds`, for a type with so many digits below a second -/
def toStringSeconds (width : ℕ) (sec sub : UInt32) : List Char :=
  Nat.toDigits 10 sec.toNat ++ '.' :: padded width sub.toNat

end Evobench.Times

namespace Evobench.Evaluator

open Library Times

/-- `to_string_ms` -/
def MicroTime.toStringMs (t : MicroTime) : Outcome Empty (List Char) := Times.toStringMs 3 1000 t.sec t.usec

/-- `to_string_ms` -/
def NanoTime.toStringMs (t : NanoTime) : Outcome Empty (List Char) := Times.toStringMs 6 1000000 t.sec t.nsec

/-- `to_string_seconds` -/
def MicroTime.toStringSeconds (t : MicroTime) : List Char := Times.toStringSeconds 6 t.sec t.usec

/-- `to_string_seconds` -/
def NanoTime.toStringSeconds (t : NanoTime) : List Char := Times.toStringSeconds 9 t.sec t.nsec

/-- `fmt` -/
def MicroTime.display (t : MicroTime) : List Char :=
  let sec := t.sec.toNat
  let usec := t.usec.toNat
  if 1 ≤ sec then
    let (milli, micro) := milliMicro usec
    let secStr := formatIntegerWithUndercores (Nat.toDigits 10 sec)
    secStr ++ '.' :: (padded 3 milli ++ '_' :: padded 3 micro) ++ [' ', 's']
  else if 1000 ≤ usec then
    let (milli, micro) := milliMicro usec
    printMilliMicro milli micro
  else
    let usecStr := formatIntegerWithUndercores (Nat.toDigits 10 usec)
    usecStr ++ [' ', 'u', 's']

/-- `fmt` -/
def NanoTime.display (t : NanoTime) : List Char :=
  let sec := t.sec.toNat
  let nsec := t.nsec.toNat
  let (milli, micro, nano) := milliMicroNano nsec
  if 1 ≤ sec then
    let secStr := formatIntegerWithUndercores (Nat.toDigits 10 sec)
    secStr ++ '.' :: (padded 3 milli ++ '_' :: (padded 3 micro ++ '_' :: padded 3 nano)) ++ [' ', 's']
  else if 0 < milli then printMilliMicroNano milli micro nano
  else if 0 < micro then printMicroNano micro nano
  else
    let nsecStr := formatIntegerWithUndercores (Nat.toDigits 10 nsec)
    nsecStr ++ [' ', 'n', 's']

end Evobench.Evaluator

namespace Evobench.Times

open Library Evaluator

/-! ### Reading -/

/-- The nanoseconds of a unit. -/
def unitNanoseconds (unit : List Char) : Option ℚ :=
  if unit = ['s'] then some 1000000000
  else if unit = ['m', 's'] then some 1000000
  else if unit = ['u', 's'] then some 1000
  else if unit = ['n', 's'] then some 1
  else none

/-- The nanoseconds that a number means, without its underscores, in a unit. -/
def readNumber (unit : ℚ) (number : List Char) : Option ℚ := (decimalValue (number.filter (· ≠ '_'))).map (· * unit)

/-- The nanoseconds that a number with its unit means. -/
def readDisplay (text : List Char) : Option ℚ :=
  match text.splitOn ' ' with
  | [number, unit] => (unitNanoseconds unit).bind fun nanoseconds => readNumber nanoseconds number
  | _ => none

/-- **What is shown is the time**: in milliseconds, in seconds, and with its unit. -/
structure RendersExactly (ms : Outcome Empty (List Char)) (seconds display : List Char) (nsec : ℕ) : Prop where
  /-- In milliseconds. -/
  ms : ∃ text, ms = .ok text ∧ readNumber 1000000 text = some (nsec : ℚ)
  /-- In seconds. -/
  seconds : readNumber 1000000000 seconds = some (nsec : ℚ)
  /-- With the unit. -/
  display : readDisplay display = some (nsec : ℚ)

/-! ### What is read back -/

/-- Digits, possibly with underscores between them. -/
def Strips (text digits : List Char) : Prop := text.filter (· ≠ '_') = digits ∧ IsDigits digits

section Strips

variable {text text' digits digits' unit : List Char} {n : ℚ}

theorem strips_digits (h : IsDigits digits) : Strips digits digits := by
  refine ⟨List.filter_eq_self.2 fun c hc => decide_eq_true ?_, h⟩
  rintro rfl
  exact h.not_mem rfl hc

theorem strips_underscored (n : ℕ) : Strips (formatIntegerWithUndercores (Nat.toDigits 10 n)) (Nat.toDigits 10 n) :=
  ⟨filter_underscored ((isDigits_toDigits n).not_mem rfl), isDigits_toDigits n⟩

theorem Strips.append (h : Strips text digits) (h' : Strips text' digits') :
    Strips (text ++ '_' :: text') (digits ++ digits') := by
  refine ⟨?_, h.2.append h'.2⟩
  rw [List.filter_append, List.filter_cons, if_neg (by decide), h.1, h'.1]

/-- Other characters are not in it, either. -/
theorem Strips.not_mem (h : Strips text digits) {c : Char} (hc : c.isDigit = false) (hne : c ≠ '_') : c ∉ text := by
  intro hmem
  have hfilter : c ∈ text.filter (· ≠ '_') := List.mem_filter.2 ⟨hmem, decide_eq_true hne⟩
  rw [h.1] at hfilter
  exact h.2.not_mem hc hfilter

theorem Strips.readNumber (h : Strips text digits) (unit : ℚ) :
    readNumber unit text = some ((digitsValue digits : ℚ) * unit) := by
  rw [Times.readNumber, h.1, decimalValue_digits h.2]
  rfl

theorem Strips.readNumber_point (h : Strips text digits) (h' : Strips text' digits') (unit : ℚ) :
    Times.readNumber unit (text ++ '.' :: text') =
      some (((digitsValue digits : ℚ) + (digitsValue digits' : ℚ) / 10 ^ digits'.length) * unit) := by
  rw [Times.readNumber, List.filter_append, List.filter_cons, if_pos (by decide), h.1, h'.1, decimalValue_point h.2 h'.2]
  rfl

/-- A number and a unit. -/
theorem readDisplay_unit (htext : ' ' ∉ text) (hunit : ' ' ∉ unit) (hn : unitNanoseconds unit = some n) :
    readDisplay (text ++ ' ' :: unit) = Times.readNumber n text := by
  rw [readDisplay, List.splitOn_append_cons_self_of_not_mem htext, List.splitOn_eq_singleton hunit]
  simp only
  rw [hn, Option.bind_some]

theorem Strips.readDisplay (h : Strips text digits) (hunit : ' ' ∉ unit) (hn : unitNanoseconds unit = some n) :
    readDisplay (text ++ ' ' :: unit) = some ((digitsValue digits : ℚ) * n) := by
  rw [readDisplay_unit (h.not_mem rfl (by decide)) hunit hn, h.readNumber]

theorem Strips.readDisplay_point (h : Strips text digits) (h' : Strips text' digits') (hunit : ' ' ∉ unit)
    (hn : unitNanoseconds unit = some n) :
    Times.readDisplay (text ++ '.' :: text' ++ ' ' :: unit) =
      some (((digitsValue digits : ℚ) + (digitsValue digits' : ℚ) / 10 ^ digits'.length) * n) := by
  rw [readDisplay_unit ?_ hunit hn, h.readNumber_point h']
  intro hmem
  rcases List.mem_append.1 hmem with hmem | hmem
  · exact h.not_mem rfl (by decide) hmem
  · rcases List.mem_cons.1 hmem with heq | hmem
    · cases heq
    · exact h'.not_mem rfl (by decide) hmem

end Strips

/-! ### The values -/

theorem strips_toDigits (n : ℕ) : Strips (Nat.toDigits 10 n) (Nat.toDigits 10 n) := strips_digits (isDigits_toDigits n)

theorem strips_padded (width n : ℕ) : Strips (padded width n) (padded width n) := strips_digits (isDigits_padded width n)

/-- Some seconds, and a part of one. -/
theorem value_point {width n m : ℕ} (hwidth : 0 < width) (hm : m < 10 ^ width) (unit : ℚ) :
    ((digitsValue (Nat.toDigits 10 n) : ℚ) + (digitsValue (padded width m) : ℚ) / 10 ^ (padded width m).length) * unit =
      (n + (m : ℚ) / 10 ^ width) * unit := by
  rw [digitsValue_toDigits, digitsValue_padded, length_padded hwidth hm]

/-- Two groups of digits. -/
theorem groups_two (n : ℕ) (h : n < 1000000) :
    digitsValue (padded 3 (n / 1000) ++ padded 3 (n % 1000)) = n ∧
      (padded 3 (n / 1000) ++ padded 3 (n % 1000)).length = 6 := by
  have hfirst : (padded 3 (n / 1000)).length = 3 := length_padded (by decide) (by omega)
  have hsecond : (padded 3 (n % 1000)).length = 3 := length_padded (by decide) (by omega)
  rw [digitsValue_append, digitsValue_padded, digitsValue_padded, List.length_append, hfirst, hsecond]
  omega

/-- Three groups of digits. -/
theorem groups_three (n : ℕ) (h : n < 1000000000) :
    digitsValue (padded 3 (n / 1000 / 1000) ++ (padded 3 (n / 1000 % 1000) ++ padded 3 (n % 1000))) = n ∧
      (padded 3 (n / 1000 / 1000) ++ (padded 3 (n / 1000 % 1000) ++ padded 3 (n % 1000))).length = 9 := by
  obtain ⟨hvalue, hlength⟩ := groups_two (n % 1000000) (Nat.mod_lt _ (by decide))
  rw [show n % 1000000 / 1000 = n / 1000 % 1000 by omega, show n % 1000000 % 1000 = n % 1000 by omega] at hvalue hlength
  have hfirst : (padded 3 (n / 1000 / 1000)).length = 3 := length_padded (by decide) (by omega)
  rw [digitsValue_append, hvalue, hlength, digitsValue_padded, List.length_append, hfirst, hlength]
  omega

/-- In milliseconds. -/
theorem toStringMs_spec {width : ℕ} {perMilli : UInt32} (hper : perMilli.toNat = 10 ^ width) (hwidth : 0 < width)
    (sec sub : UInt32) :
    (sec.toNat * 1000 + sub.toNat / perMilli.toNat < UInt32.size →
      ∃ text, toStringMs width perMilli sec sub = .ok text ∧ ∀ unit : ℚ, readNumber unit text =
        some ((((sec.toNat * 1000 + sub.toNat / perMilli.toNat : ℕ) : ℚ) +
          ((sub.toNat % perMilli.toNat : ℕ) : ℚ) / 10 ^ width) * unit)) ∧
    (UInt32.size ≤ sec.toNat * 1000 + sub.toNat / perMilli.toNat → ∃ msg, toStringMs width perMilli sec sub = .panic msg) := by
  obtain ⟨c, hc, hthousand⟩ : ∃ c : UInt32, c = 1000 ∧ c.toNat = 1000 := ⟨1000, rfl, rfl⟩
  rw [toStringMs, ← hc]
  constructor
  · intro hlt
    have hmul : sec.toNat * c.toNat < UInt32.size := by
      rw [hthousand]
      exact (Nat.le_add_right _ _).trans_lt hlt
    obtain ⟨ms, hms, hmsval⟩ := mulU32_ok (ε := Empty) hmul
    obtain ⟨ms', hms', hmsval'⟩ := addU32_ok (ε := Empty) (a := ms) (b := sub / perMilli)
      (by rwa [hmsval, hthousand, UInt32.toNat_div])
    rw [hms, Outcome.ok_bind, hms', Outcome.ok_bind]
    refine ⟨_, rfl, fun unit => ?_⟩
    have hrest : (sub % perMilli).toNat < 10 ^ width := by
      rw [UInt32.toNat_mod, hper]
      exact Nat.mod_lt _ (Nat.pow_pos (by decide))
    rw [(strips_toDigits _).readNumber_point (strips_padded _ _), value_point hwidth hrest, hmsval', hmsval, hthousand,
      UInt32.toNat_div, UInt32.toNat_mod]
  · intro hge
    by_cases hmul : sec.toNat * c.toNat < UInt32.size
    · obtain ⟨ms, hms, hmsval⟩ := mulU32_ok (ε := Empty) hmul
      have hadd : ¬ ms.toNat + (sub / perMilli).toNat < UInt32.size := by
        rw [hmsval, hthousand, UInt32.toNat_div]
        exact Nat.not_lt.2 hge
      rw [hms, Outcome.ok_bind, addU32, if_neg hadd]
      exact ⟨_, rfl⟩
    · rw [mulU32, if_neg hmul]
      exact ⟨_, rfl⟩

/-- A quotient with its remainder. -/
theorem div_add_mod_div (n : ℕ) {d : ℕ} (hd : 0 < d) : ((n / d : ℕ) : ℚ) + ((n % d : ℕ) : ℚ) / d = n / d := by
  have hne : (d : ℚ) ≠ 0 := Nat.cast_ne_zero.2 hd.ne'
  have hcast : (n : ℚ) = d * (n / d : ℕ) + (n % d : ℕ) := by exact_mod_cast (Nat.div_add_mod n d).symm
  rw [eq_div_iff hne, add_mul, div_mul_cancel₀ _ hne, mul_comm, ← hcast]

theorem microTime_display {t : MicroTime} (h : t.usec.toNat < 1000000) :
    readDisplay t.display = some (MicroTime.toNsec t : ℚ) := by
  rw [MicroTime.display, MicroTime.toNsec]
  simp only [milliMicro]
  generalize t.sec.toNat = sec
  generalize t.usec.toNat = usec at h
  split_ifs with hsec husec
  · obtain ⟨hvalue, hlength⟩ := groups_two usec h
    rw [(strips_underscored sec).readDisplay_point ((strips_padded 3 _).append (strips_padded 3 _)) (by decide) rfl, hvalue,
      hlength, digitsValue_toDigits]
    push_cast
    ring_nf
  · obtain rfl : sec = 0 := by omega
    have hmod : usec % 1000 < 10 ^ 3 := Nat.mod_lt _ (by decide)
    have hvalue := div_add_mod_div usec (d := 1000) (by decide)
    rw [printMilliMicro, (strips_toDigits _).readDisplay_point (strips_padded 3 _) (by decide) rfl, value_point (by decide) hmod,
      show (10 : ℚ) ^ 3 = (1000 : ℕ) by norm_num, hvalue]
    push_cast
    ring_nf
  · obtain rfl : sec = 0 := by omega
    rw [(strips_underscored usec).readDisplay (by decide) rfl, digitsValue_toDigits]
    push_cast
    ring_nf

theorem displayNanoTime_eq (t : NanoTime) : NanoTime.display t =
    if 1 ≤ t.sec.toNat then
      formatIntegerWithUndercores (Nat.toDigits 10 t.sec.toNat) ++ '.' :: (padded 3 (t.nsec.toNat / 1000 / 1000) ++
        '_' :: (padded 3 (t.nsec.toNat / 1000 % 1000) ++ '_' :: padded 3 (t.nsec.toNat % 1000))) ++ [' ', 's']
    else if 0 < t.nsec.toNat / 1000 / 1000 then
      printMilliMicroNano (t.nsec.toNat / 1000 / 1000) (t.nsec.toNat / 1000 % 1000) (t.nsec.toNat % 1000)
    else if 0 < t.nsec.toNat / 1000 % 1000 then printMicroNano (t.nsec.toNat / 1000 % 1000) (t.nsec.toNat % 1000)
    else formatIntegerWithUndercores (Nat.toDigits 10 t.nsec.toNat) ++ [' ', 'n', 's'] := rfl

theorem nanoTime_display {t : NanoTime} (h : t.nsec.toNat < 1000000000) :
    readDisplay t.display = some (NanoTime.toNsec t : ℚ) := by
  rw [displayNanoTime_eq, NanoTime.toNsec]
  generalize t.sec.toNat = sec
  generalize t.nsec.toNat = nsec at h
  split_ifs with hsec hmilli hmicro
  · obtain ⟨hvalue, hlength⟩ := groups_three nsec h
    rw [(strips_underscored sec).readDisplay_point
      ((strips_padded 3 _).append ((strips_padded 3 _).append (strips_padded 3 _))) (by decide) rfl, hvalue, hlength,
      digitsValue_toDigits]
    push_cast
    ring_nf
  · obtain rfl : sec = 0 := by omega
    obtain ⟨hvalue, hlength⟩ := groups_two (nsec % 1000000) (Nat.mod_lt _ (by decide))
    have hdiv : nsec % 1000000 / 1000 = nsec / 1000 % 1000 := by omega
    have hmod : nsec % 1000000 % 1000 = nsec % 1000 := by omega
    rw [hdiv, hmod] at hvalue hlength
    have hquotient := div_add_mod_div nsec (d := 1000000) (by decide)
    rw [printMilliMicroNano,
      (strips_toDigits _).readDisplay_point ((strips_padded 3 _).append (strips_padded 3 _)) (by decide) rfl, hvalue, hlength,
      digitsValue_toDigits, Nat.div_div_eq_div_mul, show (10 : ℚ) ^ 6 = (1000000 : ℕ) by norm_num, hquotient]
    push_cast
    ring_nf
  · obtain rfl : sec = 0 := by omega
    have hmod : nsec % 1000 < 10 ^ 3 := Nat.mod_lt _ (by decide)
    have hvalue := div_add_mod_div nsec (d := 1000) (by decide)
    have hsmall : nsec / 1000 % 1000 = nsec / 1000 := by omega
    rw [printMicroNano, hsmall, (strips_toDigits _).readDisplay_point (strips_padded 3 _) (by decide) rfl,
      value_point (by decide) hmod, show (10 : ℚ) ^ 3 = (1000 : ℕ) by norm_num, hvalue]
    push_cast
    ring_nf
  · obtain rfl : sec = 0 := by omega
    rw [(strips_underscored nsec).readDisplay (by decide) rfl, digitsValue_toDigits]
    push_cast
    ring_nf

/-- In seconds. -/
theorem toStringSeconds_spec {width : ℕ} (hwidth : 0 < width) (sec : UInt32) {sub : UInt32} (h : sub.toNat < 10 ^ width)
    (unit : ℚ) : readNumber unit (toStringSeconds width sec sub) =
      some (((sec.toNat : ℚ) + (sub.toNat : ℚ) / 10 ^ width) * unit) := by
  rw [toStringSeconds, (strips_toDigits _).readNumber_point (strips_padded _ _), value_point hwidth h]

/-! ### When all is well -/

/-- The times whose milliseconds fit. -/
theorem microTime_renders_iff {t : MicroTime} (h : isValid t = true) :
    RendersExactly t.toStringMs t.toStringSeconds t.display t.toNsec ↔
      t.sec.toNat * 1000 + t.usec.toNat / 1000 < UInt32.size := by
  have husec : t.usec.toNat < 1000000 := isValid_iff.1 h
  obtain ⟨hfits, hpanics⟩ := toStringMs_spec (show (1000 : UInt32).toNat = 10 ^ 3 from rfl) (by decide) t.sec t.usec
  rw [show (1000 : UInt32).toNat = 1000 from rfl] at hfits hpanics
  constructor
  · rintro ⟨⟨text, htext, -⟩, -, -⟩
    by_contra hnot
    obtain ⟨msg, hmsg⟩ := hpanics (Nat.not_lt.1 hnot)
    rw [MicroTime.toStringMs, hmsg] at htext
    cases htext
  · intro hlt
    obtain ⟨text, htext, hread⟩ := hfits hlt
    have hquotient := div_add_mod_div t.usec.toNat (d := 1000) (by decide)
    refine ⟨⟨text, htext, ?_⟩, ?_, microTime_display husec⟩
    · rw [hread, show (10 : ℚ) ^ 3 = (1000 : ℕ) by norm_num, Nat.cast_add, add_assoc, hquotient, MicroTime.toNsec]
      push_cast
      ring_nf
    · rw [MicroTime.toStringSeconds, toStringSeconds_spec (by decide) t.sec (by omega), MicroTime.toNsec]
      push_cast
      ring_nf

theorem nanoTime_renders_iff {t : NanoTime} (h : isValid t = true) :
    RendersExactly t.toStringMs t.toStringSeconds t.display t.toNsec ↔
      t.sec.toNat * 1000 + t.nsec.toNat / 1000000 < UInt32.size := by
  have hnsec : t.nsec.toNat < 1000000000 := isValid_iff.1 h
  obtain ⟨hfits, hpanics⟩ := toStringMs_spec (show (1000000 : UInt32).toNat = 10 ^ 6 from rfl) (by decide) t.sec t.nsec
  rw [show (1000000 : UInt32).toNat = 1000000 from rfl] at hfits hpanics
  constructor
  · rintro ⟨⟨text, htext, -⟩, -, -⟩
    by_contra hnot
    obtain ⟨msg, hmsg⟩ := hpanics (Nat.not_lt.1 hnot)
    rw [NanoTime.toStringMs, hmsg] at htext
    cases htext
  · intro hlt
    obtain ⟨text, htext, hread⟩ := hfits hlt
    have hquotient := div_add_mod_div t.nsec.toNat (d := 1000000) (by decide)
    refine ⟨⟨text, htext, ?_⟩, ?_, nanoTime_display hnsec⟩
    · rw [hread, show (10 : ℚ) ^ 6 = (1000000 : ℕ) by norm_num, Nat.cast_add, add_assoc, hquotient, NanoTime.toNsec]
      push_cast
      ring_nf
    · rw [NanoTime.toStringSeconds, toStringSeconds_spec (by decide) t.sec (by omega), NanoTime.toNsec]
      push_cast
      ring_nf

/-- **When what is shown is the time**, in microseconds and in nanoseconds. -/
theorem renders_exactly_iff {m : MicroTime} {n : NanoTime} (hm : isValid m = true) (hn : isValid n = true) :
    (RendersExactly m.toStringMs m.toStringSeconds m.display m.toNsec ↔
      m.sec.toNat * 1000 + m.usec.toNat / 1000 < UInt32.size) ∧
    (RendersExactly n.toStringMs n.toStringSeconds n.display n.toNsec ↔
      n.sec.toNat * 1000 + n.nsec.toNat / 1000000 < UInt32.size) :=
  ⟨microTime_renders_iff hm, nanoTime_renders_iff hn⟩

/-- `1_234.567_890 s`, and some nanoseconds more. -/
theorem renders_exactly_iff_sample :
    RendersExactly (MicroTime.toStringMs ⟨1234, 567890⟩) (MicroTime.toStringSeconds ⟨1234, 567890⟩)
      (MicroTime.display ⟨1234, 567890⟩) 1234567890000 ∧
    RendersExactly (NanoTime.toStringMs ⟨1234, 567890123⟩) (NanoTime.toStringSeconds ⟨1234, 567890123⟩)
      (NanoTime.display ⟨1234, 567890123⟩) 1234567890123 := by
  have hiff := renders_exactly_iff (m := ⟨1234, 567890⟩) (n := ⟨1234, 567890123⟩) (by decide) (by decide)
  exact ⟨hiff.1.2 (by decide), hiff.2.2 (by decide)⟩

/-- Fifty days in milliseconds are too much. -/
theorem to_string_ms_panics :
    ¬ RendersExactly (MicroTime.toStringMs ⟨4320000, 0⟩) (MicroTime.toStringSeconds ⟨4320000, 0⟩)
      (MicroTime.display ⟨4320000, 0⟩) (MicroTime.toNsec ⟨4320000, 0⟩) := by
  rintro ⟨⟨text, htext, -⟩, -, -⟩
  have hpanic : MicroTime.toStringMs ⟨4320000, 0⟩ = .panic "attempt to multiply with overflow" := by decide
  rw [hpanic] at htext
  cases htext

end Evobench.Times

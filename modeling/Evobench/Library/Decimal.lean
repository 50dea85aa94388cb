import Mathlib

/-!
# Decimal numbers as texts

`decimalValue` reads digits, with a point between them or without. `padded` writes a number with zeros before it, so that it
fills a width; what is read back is in `digitsValue_toDigits` and `decimalValue_point`. `underscored` separates groups of
digits by underscores; taking these away gives the digits (`filter_underscored`).
-/

namespace Library

/-! ### Digits -/

/-- Only digits, and at least one. -/
def IsDigits (cs : List Char) : Prop := cs ≠ [] ∧ ∀ c ∈ cs, c.isDigit = true

instance : DecidablePred IsDigits := fun cs =>
  decidable_of_iff (cs ≠ [] ∧ cs.all Char.isDigit = true) (and_congr_right fun _ => List.all_eq_true)

theorem isDigits_toDigits (n : ℕ) : IsDigits (Nat.toDigits 10 n) :=
  ⟨Nat.toDigits_ne_nil, fun _ hc => Nat.isDigit_of_mem_toDigits (by decide) (by decide) hc⟩

theorem IsDigits.append {cs ds : List Char} (hcs : IsDigits cs) (hds : IsDigits ds) : IsDigits (cs ++ ds) := by
  refine ⟨fun h => hcs.1 (List.append_eq_nil_iff.1 h).1, fun c hc => ?_⟩
  rcases List.mem_append.1 hc with hc | hc
  · exact hcs.2 c hc
  · exact hds.2 c hc

theorem IsDigits.not_mem {cs : List Char} (h : IsDigits cs) {c : Char} (hc : c.isDigit = false) : c ∉ cs := by
  intro hmem
  rw [h.2 c hmem] at hc
  cases hc

/-- The number that is written with digits. -/
def digitsValue (cs : List Char) : ℕ := Nat.ofDigitChars 10 cs 0

@[simp] theorem digitsValue_toDigits (n : ℕ) : digitsValue (Nat.toDigits 10 n) = n := Nat.ofDigitChars_ten_toDigits

theorem digitsValue_append (cs ds : List Char) :
    digitsValue (cs ++ ds) = digitsValue cs * 10 ^ ds.length + digitsValue ds := by
  rw [digitsValue, Nat.ofDigitChars_append, Nat.ofDigitChars_eq_ofDigitChars_zero, Nat.mul_comm]
  rfl

/-- The shortest way to write a number: no zero comes before other digits. -/
def IsNumeral (cs : List Char) : Prop := IsDigits cs ∧ (cs.head? = some '0' → cs = ['0'])

instance : DecidablePred IsNumeral := fun _ => instDecidableAnd

theorem digitChar_of_isDigit {c : Char} (h : c.isDigit = true) :
    (c.toNat - '0'.toNat).digitChar = c ∧ c.toNat - '0'.toNat < 10 := by
  obtain ⟨hge, hle⟩ := Char.isDigit_iff_toNat.1 h
  have h0 : '0'.toNat = 48 := rfl
  have h9 : '9'.toNat = 57 := rfl
  have hlt : c.toNat - '0'.toNat < 10 := by omega
  refine ⟨Char.toNat_inj.1 ?_, hlt⟩
  rw [Nat.toNat_digitChar_of_lt_ten hlt]
  omega

/-- Digits that do not begin with a zero are those of their value. -/
theorem toDigits_digitsValue_of_head {cs : List Char} (h : IsDigits cs) (hhead : cs.head? ≠ some '0') :
    0 < digitsValue cs ∧ Nat.toDigits 10 (digitsValue cs) = cs := by
  induction cs using List.reverseRecOn with
  | nil => exact absurd rfl h.1
  | append_singleton cs c ih =>
    obtain ⟨hchar, hlt⟩ := digitChar_of_isDigit (h.2 c (by simp))
    have hvalue : digitsValue (cs ++ [c]) = 10 * digitsValue cs + (c.toNat - '0'.toNat) := by
      rw [digitsValue, Nat.ofDigitChars_append, Nat.ofDigitChars_cons, Nat.ofDigitChars_nil]
      rfl
    by_cases hnil : cs = []
    · subst hnil
      have hne : c.toNat - '0'.toNat ≠ 0 := by
        intro h0
        rw [h0] at hchar
        exact hhead (by rw [← hchar]; rfl)
      have hzero : digitsValue [] = 0 := Nat.ofDigitChars_nil
      rw [hvalue, hzero, Nat.mul_zero, Nat.zero_add, Nat.toDigits_of_lt_base hlt, hchar]
      exact ⟨Nat.pos_of_ne_zero hne, rfl⟩
    · -- the last digit is put after the others
      obtain ⟨hpos, hdigits⟩ := ih ⟨hnil, fun d hd => h.2 d (by simp [hd])⟩ (by
        rwa [List.head?_append_of_ne_nil _ hnil] at hhead)
      rw [hvalue, ← Nat.toDigits_append_toDigits (by decide) hpos hlt, hdigits, Nat.toDigits_of_lt_base hlt, hchar]
      exact ⟨by omega, rfl⟩

theorem isNumeral_toDigits (n : ℕ) : IsNumeral (Nat.toDigits 10 n) := by
  refine ⟨isDigits_toDigits n, ?_⟩
  induction n using Nat.base_induction 10 (by decide) with
  | single m hm =>
    intro hhead
    rw [Nat.toDigits_of_lt_base hm] at hhead ⊢
    rw [Option.some.inj hhead]
  | digit m k hk hm ih =>
    intro hhead
    rw [← Nat.toDigits_append_toDigits (by decide) hm hk, List.head?_append_of_ne_nil _ Nat.toDigits_ne_nil] at hhead
    -- then the digits before the last one are those of zero
    have hzero : digitsValue (Nat.toDigits 10 m) = digitsValue ['0'] := by rw [ih hhead]
    rw [digitsValue_toDigits] at hzero
    exact absurd hzero (Nat.ne_of_gt hm)

/-- Digits are those that their value is written with iff they are a numeral. -/
theorem toDigits_digitsValue_iff {cs : List Char} (h : IsDigits cs) :
    Nat.toDigits 10 (digitsValue cs) = cs ↔ IsNumeral cs := by
  constructor
  · intro hcs
    rw [← hcs]
    exact isNumeral_toDigits _
  · intro hnumeral
    by_cases hhead : cs.head? = some '0'
    · rw [hnumeral.2 hhead]
      rfl
    · exact (toDigits_digitsValue_of_head h hhead).2

/-- A number with zeros before it. -/
def padded (width n : ℕ) : List Char :=
  List.replicate (width - (Nat.toDigits 10 n).length) '0' ++ Nat.toDigits 10 n

theorem length_padded {width n : ℕ} (hwidth : 0 < width) (hn : n < 10 ^ width) : (padded width n).length = width := by
  have hle := (Nat.length_toDigits_le_iff (b := 10) (by decide) hwidth).2 hn
  rw [padded, List.length_append, List.length_replicate]
  omega

@[simp] theorem digitsValue_padded (width n : ℕ) : digitsValue (padded width n) = n := by
  rw [padded, digitsValue_append, digitsValue_toDigits, digitsValue, Nat.ofDigitChars_replicate_zero, Nat.mul_zero,
    Nat.zero_mul, Nat.zero_add]

theorem isDigits_padded (width n : ℕ) : IsDigits (padded width n) := by
  refine ⟨fun h => Nat.toDigits_ne_nil (List.append_eq_nil_iff.1 h).2, fun c hc => ?_⟩
  rcases List.mem_append.1 hc with hc | hc
  · rw [List.eq_of_mem_replicate hc]
    rfl
  · exact (isDigits_toDigits n).2 c hc

/-! ### The point -/

/-- The value of a decimal number. -/
def decimalValue (cs : List Char) : Option ℚ :=
  match cs.splitOn '.' with
  | [whole] => if IsDigits whole then some (digitsValue whole) else none
  | [whole, fraction] =>
    if IsDigits whole ∧ IsDigits fraction then
      some ((digitsValue whole : ℚ) + (digitsValue fraction : ℚ) / 10 ^ fraction.length)
    else none
  | _ => none

theorem decimalValue_digits {whole : List Char} (h : IsDigits whole) :
    decimalValue whole = some (digitsValue whole : ℚ) := by
  rw [decimalValue, List.splitOn_eq_singleton (h.not_mem rfl)]
  exact if_pos h

theorem decimalValue_point {whole fraction : List Char} (hwhole : IsDigits whole) (hfraction : IsDigits fraction) :
    decimalValue (whole ++ '.' :: fraction) =
      some ((digitsValue whole : ℚ) + (digitsValue fraction : ℚ) / 10 ^ fraction.length) := by
  rw [decimalValue, List.splitOn_append_cons_self_of_not_mem (hwhole.not_mem rfl),
    List.splitOn_eq_singleton (hfraction.not_mem rfl)]
  exact if_pos ⟨hwhole, hfraction⟩

/-! ### Underscores -/

/-- The groups of so many elements, from the end. -/
def rchunksWith {α : Type} (size : ℕ) : ℕ → List α → List (List α)
  | 0, _ => []
  | fuel + 1, l => if l = [] then [] else l.drop (l.length - size) :: rchunksWith size fuel (l.take (l.length - size))

/-- `rchunks` -/
def rchunks {α : Type} (size : ℕ) (l : List α) : List (List α) := rchunksWith size l.length l

theorem flatten_rchunksWith {α : Type} {size : ℕ} (hsize : 0 < size) {fuel : ℕ} {l : List α} (h : l.length ≤ fuel) :
    (rchunksWith size fuel l).reverse.flatten = l := by
  induction fuel generalizing l with
  | zero =>
    rw [List.length_eq_zero_iff.1 (Nat.le_zero.1 h)]
    rfl
  | succ fuel ih =>
    rw [rchunksWith]
    by_cases hnil : l = []
    · rw [if_pos hnil, hnil]
      rfl
    · have hpos := List.length_pos_iff.2 hnil
      rw [if_neg hnil, List.reverse_cons, List.flatten_append, ih (by rw [List.length_take]; omega), List.flatten_singleton,
        List.take_append_drop]

/-- All groups put together. -/
theorem flatten_rchunks {α : Type} {size : ℕ} (hsize : 0 < size) (l : List α) : (rchunks size l).reverse.flatten = l :=
  flatten_rchunksWith hsize (Nat.le_refl _)

/-- Digits with an underscore between each three of them. -/
def underscored (digits : List Char) : List Char := ['_'].intercalate (rchunks 3 digits).reverse

/-- Without what it is separated by. -/
theorem filter_intercalate {x : Char} {ls : List (List Char)} (h : ∀ l ∈ ls, x ∉ l) :
    ([x].intercalate ls).filter (· ≠ x) = ls.flatten := by
  induction ls with
  | nil => rfl
  | cons l ls ih =>
    have hl : l.filter (· ≠ x) = l := by
      refine List.filter_eq_self.2 fun c hc => decide_eq_true ?_
      rintro rfl
      exact h l List.mem_cons_self hc
    have hrest := ih fun l hl => h l (List.mem_cons_of_mem _ hl)
    cases ls with
    | nil =>
      rw [List.intercalate, List.intersperse_singleton, List.flatten_singleton, hl]
    | cons l' ls =>
      have hx : [x].filter (· ≠ x) = [] := by simp
      rw [List.intercalate] at hrest
      rw [List.intercalate, List.intersperse_cons_cons, List.flatten_cons, List.flatten_cons, List.filter_append,
        List.filter_append, hl, hx, hrest, List.nil_append]
      rfl

theorem filter_underscored {digits : List Char} (h : '_' ∉ digits) : (underscored digits).filter (· ≠ '_') = digits := by
  have hflatten : (rchunks 3 digits).reverse.flatten = digits := flatten_rchunks (by decide) digits
  rw [underscored, filter_intercalate, hflatten]
  intro l hl hmem
  rw [← hflatten] at h
  exact h (List.mem_flatten_of_mem hl hmem)

end Library

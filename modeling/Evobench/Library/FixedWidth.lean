import Mathlib

/-!
# Fields of a fixed width

Texts are compared character by character. If all fields but the last one have a fixed width, and each of them is ordered like
the values that it stands for, then texts are ordered like the tuples of these values (`FixedWidth.append`,
`FixedWidth.append_lt_iff`). Decimal numbers with a fixed count of digits are such a field (`fixedWidth_digits`). Where zeros
at the end of a field are left out, and what follows starts with a character before zero, the order is that of the full fields
(`trimmed_lt_iff`).
-/

namespace Library

section Append

variable {α : Type*} [LinearOrder α]

/-- Texts that begin with fields of the same width. -/
theorem append_lt_append_iff {x x' y y' : List α} (h : x.length = x'.length) :
    x ++ y < x' ++ y' ↔ x < x' ∨ x = x' ∧ y < y' := by
  induction x generalizing x' with
  | nil =>
    obtain rfl := List.length_eq_zero_iff.1 h.symm
    simp
  | cons a x ih =>
    cases x' with
    | nil => cases h
    | cons a' x' =>
      rw [List.cons_append, List.cons_append, List.cons_lt_cons_iff, List.cons_lt_cons_iff, ih (Nat.succ.inj h),
        List.cons.injEq]
      tauto

theorem replicate_le {z : α} {v : List α} (hv : ∀ c ∈ v, z ≤ c) : List.replicate v.length z ≤ v := by
  induction v with
  | nil => exact le_refl _
  | cons c v ih =>
    rw [List.length_cons, List.replicate_succ]
    rcases (hv c List.mem_cons_self).lt_or_eq with hlt | rfl
    · exact (List.cons_lt_cons_iff.2 (.inl hlt)).le
    · rcases (ih fun d hd => hv d (List.mem_cons_of_mem _ hd)).lt_or_eq with hlt | heq
      · exact (List.cons_lt_cons_iff.2 (.inr ⟨rfl, hlt⟩)).le
      · exact (congrArg _ heq).le

/-- Fields in which zeros at the end have been left out, before something that starts with a character before zero. -/
theorem trimmed_lt_iff {z s s' : α} {u v : List α} {a b : ℕ} (hlength : u.length + a = v.length + b)
    (hu : ∀ c ∈ u, z ≤ c) (hv : ∀ c ∈ v, z ≤ c) (hs : s < z) (hs' : s' < z) (rest rest' : List α)
    (hne : u ++ List.replicate a z ≠ v ++ List.replicate b z) :
    u ++ s :: rest < v ++ s' :: rest' ↔ u ++ List.replicate a z < v ++ List.replicate b z := by
  induction u generalizing v with
  | nil =>
    cases v with
    | nil =>
      obtain rfl : a = b := by simpa using hlength
      exact absurd rfl hne
    | cons c v =>
      -- Zeros on the one side, and all zeros have been left out there.
      refine iff_of_true (List.cons_lt_cons_iff.2 (.inl (hs.trans_le (hv c List.mem_cons_self)))) ?_
      have hle := replicate_le (z := z) (v := c :: v ++ List.replicate b z) fun d hd => by
        rcases List.mem_append.1 hd with hd | hd
        · exact hv d hd
        · exact (List.eq_of_mem_replicate hd).ge
      have ha : a = (c :: v ++ List.replicate b z).length := by
        rw [List.length_append, List.length_replicate, ← hlength, List.length_nil, Nat.zero_add]
      rw [List.nil_append] at hne ⊢
      rw [← ha] at hle
      exact lt_of_le_of_ne hle hne
  | cons d u ih =>
    cases v with
    | nil =>
      refine iff_of_false ?_ ?_
      · rw [List.cons_append, List.nil_append, List.cons_lt_cons_iff]
        have hlt := hs'.trans_le (hu d List.mem_cons_self)
        rintro (h | ⟨h, -⟩)
        · exact absurd h (not_lt.2 hlt.le)
        · exact hlt.ne' h
      · have hle := replicate_le (z := z) (v := d :: u ++ List.replicate a z) fun c hc => by
          rcases List.mem_append.1 hc with hc | hc
          · exact hu c hc
          · exact (List.eq_of_mem_replicate hc).ge
        have hb : (d :: u ++ List.replicate a z).length = b := by
          rw [List.length_append, List.length_replicate, hlength, List.length_nil, Nat.zero_add]
        rw [hb] at hle
        exact not_lt.2 hle
    | cons c v =>
      have htail : u.length + a = v.length + b := by
        simp only [List.length_cons] at hlength
        omega
      simp only [List.cons_append, List.cons_lt_cons_iff]
      by_cases hdc : d = c
      · subst hdc
        have hrest := ih htail (fun x hx => hu x (List.mem_cons_of_mem _ hx)) (fun x hx => hv x (List.mem_cons_of_mem _ hx))
          fun heq => hne (by rw [List.cons_append, List.cons_append, heq])
        simp [hrest]
      · simp [hdc]

end Append

/-- The values that are meant are written with the same count of characters, and the texts are in the order of the values. -/
structure FixedWidth {β α : Type*} [LinearOrder β] [LinearOrder α] (meant : β → Prop) (text : β → List α) : Prop where
  /-- The texts have the same length. -/
  length_eq : ∀ b b', meant b → meant b' → (text b).length = (text b').length
  /-- They are in the order of the values. -/
  lt_iff : ∀ b b', meant b → meant b' → (text b < text b' ↔ b < b')

namespace FixedWidth

variable {α β γ : Type*} [LinearOrder α] [LinearOrder β] [LinearOrder γ] {P : β → Prop} {f : β → List α} {Q : γ → Prop}
  {g : γ → List α}

theorem eq_iff (h : FixedWidth P f) {b b' : β} (hb : P b) (hb' : P b') : f b = f b' ↔ b = b' := by
  refine ⟨fun heq => ?_, fun heq => by rw [heq]⟩
  have hlt := h.lt_iff b b' hb hb'
  have hgt := h.lt_iff b' b hb' hb
  rw [heq] at hlt hgt
  exact le_antisymm (not_lt.1 fun hc => lt_irrefl _ (hgt.2 hc)) (not_lt.1 fun hc => lt_irrefl _ (hlt.2 hc))

/-- What follows decides only between equal values. -/
theorem append_lt_iff (h : FixedWidth P f) {b b' : β} (hb : P b) (hb' : P b') (rest rest' : List α) :
    f b ++ rest < f b' ++ rest' ↔ b < b' ∨ b = b' ∧ rest < rest' := by
  rw [append_lt_append_iff (h.length_eq b b' hb hb'), h.lt_iff b b' hb hb', h.eq_iff hb hb']

/-- Two fields. -/
theorem append (h : FixedWidth P f) (h' : FixedWidth Q g) :
    FixedWidth (fun p : β ×ₗ γ => P (ofLex p).1 ∧ Q (ofLex p).2) fun p => f (ofLex p).1 ++ g (ofLex p).2 where
  length_eq p p' hp hp' := by
    rw [List.length_append, List.length_append, h.length_eq _ _ hp.1 hp'.1, h'.length_eq _ _ hp.2 hp'.2]
  lt_iff p p' hp hp' := by
    rw [h.append_lt_iff hp.1 hp'.1, h'.lt_iff _ _ hp.2 hp'.2, Prod.Lex.lt_iff]

/-- A separator before a field. -/
theorem cons (c : α) (h : FixedWidth P f) : FixedWidth P fun b => c :: f b where
  length_eq b b' hb hb' := by
    rw [List.length_cons, List.length_cons, h.length_eq b b' hb hb']
  lt_iff b b' hb hb' := by
    rw [List.cons_lt_cons_iff, h.lt_iff b b' hb hb']
    simp

end FixedWidth

/-! ### Decimal numbers -/

/-- A decimal number with a fixed count of digits. -/
def digits : ℕ → ℕ → List Char
  | 0, _ => []
  | k + 1, n => digits k (n / 10) ++ [Nat.digitChar (n % 10)]

@[simp] theorem length_digits (k n : ℕ) : (digits k n).length = k := by
  induction k generalizing n with
  | zero => rfl
  | succ k ih => rw [digits, List.length_append, ih, List.length_singleton]

theorem digitChar_lt_iff : ∀ m < 10, ∀ n < 10, (Nat.digitChar m < Nat.digitChar n ↔ m < n) := by decide

/-- Only digits are written. -/
theorem exists_of_mem_digits {k n : ℕ} {c : Char} (h : c ∈ digits k n) : ∃ m < 10, c = Nat.digitChar m := by
  induction k generalizing n with
  | zero => cases h
  | succ k ih =>
    rw [digits, List.mem_append, List.mem_singleton] at h
    rcases h with h | rfl
    · exact ih h
    · exact ⟨n % 10, Nat.mod_lt n (by decide), rfl⟩

/-- The first digits of a number, and the other ones. -/
theorem digits_add (j k n : ℕ) : digits (j + k) n = digits j (n / 10 ^ k) ++ digits k (n % 10 ^ k) := by
  induction k generalizing n with
  | zero => simp [digits]
  | succ k ih =>
    have hlast : n % 10 ^ (k + 1) % 10 = n % 10 := Nat.mod_mod_of_dvd n ⟨10 ^ k, Nat.pow_succ'⟩
    have hfront : n % 10 ^ (k + 1) / 10 = n / 10 % 10 ^ k := by
      rw [Nat.pow_succ, Nat.mul_comm, Nat.mod_mul_right_div_self]
    have hdiv : n / 10 ^ (k + 1) = n / 10 / 10 ^ k := by
      rw [Nat.pow_succ, Nat.mul_comm, Nat.div_div_eq_div_mul]
    rw [← Nat.add_assoc, digits, ih, digits, hlast, hfront, hdiv, List.append_assoc]

theorem digits_zero (k : ℕ) : digits k 0 = List.replicate k '0' := by
  induction k with
  | zero => rfl
  | succ k ih =>
    rw [digits, Nat.zero_div, ih, List.replicate_succ']
    rfl

/-- Numbers with the same count of digits. -/
theorem fixedWidth_digits (k : ℕ) : FixedWidth (fun n => n < 10 ^ k) (digits k) where
  length_eq b b' _ _ := by rw [length_digits, length_digits]
  lt_iff := by
    induction k with
    | zero =>
      intro m n hm hn
      simp only [Nat.pow_zero, Nat.lt_one_iff] at hm hn
      subst hm hn
      simp [digits]
    | succ k ih =>
      intro m n hm hn
      have hfront : FixedWidth (fun n => n < 10 ^ k) (digits k) :=
        ⟨fun b b' _ _ => by rw [length_digits, length_digits], ih⟩
      rw [Nat.pow_succ] at hm hn
      rw [digits, digits, hfront.append_lt_iff (by omega) (by omega), List.cons_lt_cons_iff,
        digitChar_lt_iff _ (Nat.mod_lt m (by decide)) _ (Nat.mod_lt n (by decide))]
      simp only [List.not_lt_nil, and_false, or_false]
      omega

end Library

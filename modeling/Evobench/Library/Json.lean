import Evobench.Library.CompactJson
import Evobench.Library.Decimal

/-!
# JSON values

Values of strings, integers and objects, and their compact JSON text. A value is known from its text (`Json.write_injective`),
and the text has no line break. The members of an object are kept in their order, with repetitions.
-/

namespace Library

open CompactJson

mutual

/-- A value. -/
inductive Json where
  /-- A string. -/
  | string (s : String)
  /-- An integer. -/
  | number (n : ℤ)
  /-- An object. -/
  | object (members : Members)

/-- The members of an object. -/
inductive Members where
  /-- There are no more. -/
  | nil
  /-- A member, and those after it. -/
  | cons (key : String) (value : Json) (rest : Members)

end

namespace Members

/-- The keys. -/
def keys : Members → List String
  | nil => []
  | cons key _ rest => key :: rest.keys

/-- The value of the first member with a key. -/
def get? (key : String) : Members → Option Json
  | nil => none
  | cons key' value rest => if key' = key then some value else rest.get? key

end Members

/-- The digits of an integer, with a sign if it is negative. -/
def decimal (n : ℤ) : List Char :=
  if n < 0 then '-' :: Nat.toDigits 10 n.natAbs else Nat.toDigits 10 n.natAbs

mutual

/-- The text of a value. -/
def Json.write : Json → List Char
  | .string s => quote s.toList
  | .number n => decimal n
  | .object members => '{' :: members.write true

/-- The text of members, with a comma before each but the first one. -/
def Members.write : Bool → Members → List Char
  | _, .nil => ['}']
  | first, .cons key value rest =>
    (if first then [] else [',']) ++ (quote key.toList ++ (':' :: (value.write ++ rest.write false)))

end

/-! ### A value is known from its text -/

/-- A number ends before the text. -/
def EndsNumber (cs : List Char) : Prop := ∀ c ∈ cs.head?, c.isDigit = false

theorem EndsNumber.cons {c : Char} (h : c.isDigit = false) (cs : List Char) : EndsNumber (c :: cs) := by
  intro d hd
  rwa [← Option.some.inj hd]

/-- Digits end where something else comes. -/
theorem takeWhile_digits {ds cs : List Char} (hds : IsDigits ds) (hcs : EndsNumber cs) :
    (ds ++ cs).takeWhile Char.isDigit = ds := by
  rw [List.takeWhile_append_of_pos hds.2]
  cases cs with
  | nil => rw [List.takeWhile_nil, List.append_nil]
  | cons c cs =>
    have hc := hcs c rfl
    rw [List.takeWhile_cons_of_neg (by simp [hc]), List.append_nil]

theorem toDigits_append_inj {n m : ℕ} {x y : List Char} (hx : EndsNumber x) (hy : EndsNumber y)
    (h : Nat.toDigits 10 n ++ x = Nat.toDigits 10 m ++ y) : n = m ∧ x = y := by
  have hdigits : Nat.toDigits 10 n = Nat.toDigits 10 m := by
    rw [← takeWhile_digits (isDigits_toDigits n) hx, h, takeWhile_digits (isDigits_toDigits m) hy]
  refine ⟨?_, ?_⟩
  · rw [← digitsValue_toDigits n, hdigits, digitsValue_toDigits]
  · rw [hdigits] at h
    exact List.append_cancel_left h

theorem head_toDigits_ne {c : Char} (hc : c.isDigit = false) (n : ℕ) (x y : List Char) :
    Nat.toDigits 10 n ++ x ≠ c :: y := by
  intro h
  obtain ⟨hne, hdigits⟩ := isDigits_toDigits n
  obtain ⟨d, ds, hds⟩ := List.exists_cons_of_ne_nil hne
  rw [hds] at h hdigits
  have hd := hdigits d List.mem_cons_self
  rw [(List.cons.inj h).1, hc] at hd
  cases hd

theorem decimal_append_inj {n m : ℤ} {x y : List Char} (hx : EndsNumber x) (hy : EndsNumber y)
    (h : decimal n ++ x = decimal m ++ y) : n = m ∧ x = y := by
  unfold decimal at h
  split_ifs at h with hn hm hm
  · obtain ⟨habs, hxy⟩ := toDigits_append_inj hx hy (List.cons.inj h).2
    exact ⟨by omega, hxy⟩
  · exact absurd h.symm (head_toDigits_ne rfl _ _ _)
  · exact absurd h (head_toDigits_ne rfl _ _ _)
  · obtain ⟨habs, hxy⟩ := toDigits_append_inj hx hy h
    exact ⟨by omega, hxy⟩

/-- The text of a number begins with a digit or a sign. -/
theorem decimal_ne_cons {c : Char} (hdigit : c.isDigit = false) (hsign : c ≠ '-') (n : ℤ) (x y : List Char) :
    decimal n ++ x ≠ c :: y := by
  intro h
  unfold decimal at h
  split_ifs at h
  · exact hsign (List.cons.inj h).1.symm
  · exact head_toDigits_ne hdigit _ _ _ h

theorem Members.endsNumber_write (ms : Members) (x : List Char) : EndsNumber (ms.write false ++ x) := by
  cases ms with
  | nil => exact .cons rfl x
  | cons key value rest => exact .cons rfl _

mutual

theorem Json.write_append_inj (a b : Json) {x y : List Char} (hx : EndsNumber x) (hy : EndsNumber y)
    (h : a.write ++ x = b.write ++ y) : a = b ∧ x = y := by
  match a, b with
  | .string s, .string s' =>
    obtain ⟨hs, hxy⟩ := prefixCode_quote h
    obtain rfl := String.toList_inj.1 hs
    exact ⟨rfl, hxy⟩
  | .number n, .number m =>
    obtain ⟨rfl, hxy⟩ := decimal_append_inj hx hy h
    exact ⟨rfl, hxy⟩
  | .object ms, .object ms' =>
    obtain ⟨rfl, hxy⟩ := Members.write_append_inj true ms ms' (List.cons.inj h).2
    exact ⟨rfl, hxy⟩
  | .string s, .number m => exact absurd h.symm (decimal_ne_cons rfl (by decide) m _ _)
  | .number n, .string s => exact absurd h (decimal_ne_cons rfl (by decide) n _ _)
  | .object ms, .number m => exact absurd h.symm (decimal_ne_cons rfl (by decide) m _ _)
  | .number n, .object ms => exact absurd h (decimal_ne_cons rfl (by decide) n _ _)
  | .string s, .object ms => cases (List.cons.inj h).1
  | .object ms, .string s => cases (List.cons.inj h).1

theorem Members.write_append_inj (first : Bool) (ms ms' : Members) {x y : List Char}
    (h : ms.write first ++ x = ms'.write first ++ y) : ms = ms' ∧ x = y := by
  match ms, ms' with
  | .nil, .nil => exact ⟨rfl, (List.cons.inj h).2⟩
  | .nil, .cons key value rest =>
    cases first with
    | true => cases (List.cons.inj h).1
    | false => cases (List.cons.inj h).1
  | .cons key value rest, .nil =>
    cases first with
    | true => cases (List.cons.inj h).1
    | false => cases (List.cons.inj h).1
  | .cons key value rest, .cons key' value' rest' =>
    simp only [Members.write, List.append_assoc, List.cons_append] at h
    obtain ⟨hkey, htail⟩ := prefixCode_quote (List.append_cancel_left h)
    obtain rfl := String.toList_inj.1 hkey
    obtain ⟨rfl, hrest⟩ := Json.write_append_inj value value' (rest.endsNumber_write x) (rest'.endsNumber_write y)
      (List.cons.inj htail).2
    obtain ⟨rfl, hxy⟩ := Members.write_append_inj false rest rest' hrest
    exact ⟨rfl, hxy⟩

end

/-- **A value is known from its text.** -/
theorem Json.write_injective : Function.Injective Json.write := by
  intro a b h
  refine (Json.write_append_inj a b (x := []) (y := []) ?_ ?_ ?_).1
  · intro c hc
    cases hc
  · intro c hc
    cases hc
  · rw [List.append_nil, List.append_nil, h]

/-! ### Characters -/

theorem mem_decimal {n : ℤ} {c : Char} (h : c ∈ decimal n) : c = '-' ∨ c.isDigit = true := by
  unfold decimal at h
  split_ifs at h
  · rcases List.mem_cons.1 h with rfl | h
    · exact .inl rfl
    · exact .inr ((isDigits_toDigits _).2 c h)
  · exact .inr ((isDigits_toDigits _).2 c h)

theorem newline_notMem_decimal (n : ℤ) : '\n' ∉ decimal n := by
  intro h
  rcases mem_decimal h with h | h
  · cases h
  · cases h

mutual

/-- There is no line break in the text of a value. -/
theorem Json.newline_notMem_write (a : Json) : '\n' ∉ a.write := by
  match a with
  | .string s => exact newline_notMem_quote s.toList
  | .number n => exact newline_notMem_decimal n
  | .object ms =>
    rw [Json.write, List.mem_cons, not_or]
    exact ⟨by decide, Members.newline_notMem_write true ms⟩

theorem Members.newline_notMem_write (first : Bool) (ms : Members) : '\n' ∉ ms.write first := by
  match ms with
  | .nil =>
    rw [Members.write]
    decide
  | .cons key value rest =>
    have hfirst : '\n' ∉ (if first then [] else [',']) := by
      cases first with
      | true => decide
      | false => decide
    simp only [Members.write, List.mem_append, List.mem_cons, not_or]
    exact ⟨hfirst, newline_notMem_quote key.toList, by decide, Json.newline_notMem_write value,
      Members.newline_notMem_write false rest⟩

end

end Library

import Mathlib.Data.List.Basic

/-!
# JSON string literals

The string literals of RFC 8259 and what they stand for. `decode` takes the characters after the opening quotation mark:
each is an unescaped character, an escape, or a `\u` escape of a UTF-16 code unit, where a character beyond the basic
plane takes a pair of surrogates; the closing quotation mark is the last one. An unpaired surrogate stands for nothing.
-/

namespace Library.JsonString

/-- The character that a short escape stands for. -/
def unescape : Char → Option Char
  | '"' => some '"'
  | '\\' => some '\\'
  | '/' => some '/'
  | 'b' => some '\x08'
  | 'f' => some '\x0c'
  | 'n' => some '\n'
  | 'r' => some '\r'
  | 't' => some '\t'
  | _ => none

/-- The value of a hexadecimal digit. -/
def hexDigit (c : Char) : Option ℕ :=
  if '0' ≤ c ∧ c ≤ '9' then some (c.toNat - '0'.toNat)
  else if 'a' ≤ c ∧ c ≤ 'f' then some (c.toNat - 'a'.toNat + 10)
  else if 'A' ≤ c ∧ c ≤ 'F' then some (c.toNat - 'A'.toNat + 10)
  else none

/-- The value of four hexadecimal digits. -/
def codeUnit (a b c d : Char) : Option ℕ := do
  let a ← hexDigit a
  let b ← hexDigit b
  let c ← hexDigit c
  let d ← hexDigit d
  pure (((a * 16 + b) * 16 + c) * 16 + d)

/-- What the rest of a literal stands for, after the opening quotation mark. -/
def decodeRest : List Char → Option (List Char)
  | [] => none
  | '"' :: rest => if rest = [] then some [] else none
  | '\\' :: 'u' :: a :: b :: c :: d :: rest => do
    let unit ← codeUnit a b c d
    if unit < 0xD800 ∨ 0xE000 ≤ unit then do
      let cs ← decodeRest rest
      pure (Char.ofNat unit :: cs)
    else
      match rest with
      | '\\' :: 'u' :: a' :: b' :: c' :: d' :: rest => do
        let low ← codeUnit a' b' c' d'
        if unit < 0xDC00 ∧ 0xDC00 ≤ low ∧ low < 0xE000 then do
          let cs ← decodeRest rest
          pure (Char.ofNat (0x10000 + (unit - 0xD800) * 0x400 + (low - 0xDC00)) :: cs)
        else none
      | _ => none
  | '\\' :: c :: rest => do
    let c ← unescape c
    let cs ← decodeRest rest
    pure (c :: cs)
  | c :: rest =>
    if c.toNat < 0x20 ∨ c = '\\' then none
    else do
      let cs ← decodeRest rest
      pure (c :: cs)

/-- What a literal stands for, if it is one. -/
def decode : List Char → Option (List Char)
  | '"' :: rest => decodeRest rest
  | _ => none

/-! ### One character after the other -/

/-- A character that needs no escape. -/
theorem decodeRest_unescaped {c : Char} (hquote : c ≠ '"') (hslash : c ≠ '\\') (hcontrol : 0x20 ≤ c.toNat)
    (rest : List Char) : decodeRest (c :: rest) = (decodeRest rest).map (c :: ·) := by
  rw [decodeRest.eq_def]
  split
  · next h => cases h
  · next h =>
    cases h
    exact absurd rfl hquote
  · next h =>
    cases h
    exact absurd rfl hslash
  · next h =>
    cases h
    exact absurd rfl hslash
  · next h =>
    cases h
    rw [if_neg]
    · cases decodeRest rest with
      | none => rfl
      | some cs => rfl
    · rintro (hlt | rfl)
      · omega
      · exact hslash rfl

/-- A short escape. -/
theorem decodeRest_escape {c c' : Char} (h : unescape c = some c') (rest : List Char) :
    decodeRest ('\\' :: c :: rest) = (decodeRest rest).map (c' :: ·) := by
  have hu : c ≠ 'u' := by
    rintro rfl
    cases h
  rw [decodeRest.eq_def]
  split
  · next he => cases he
  · next he => cases he
  · next he =>
    cases he
    exact absurd rfl hu
  · next he =>
    cases he
    rw [h]
    cases decodeRest rest with
    | none => rfl
    | some cs => rfl
  · next hnot he =>
    cases he
    exact absurd rfl (hnot _ _ rfl)

/-- A code unit that is a character. -/
theorem decodeRest_codeUnit {a b c d : Char} {unit : ℕ} (h : codeUnit a b c d = some unit) (hlt : unit < 0xD800)
    (rest : List Char) : decodeRest ('\\' :: 'u' :: a :: b :: c :: d :: rest) =
      (decodeRest rest).map (Char.ofNat unit :: ·) := by
  rw [decodeRest, h, Option.bind_eq_bind, Option.bind_some, if_pos (.inl hlt)]
  cases decodeRest rest with
  | none => rfl
  | some cs => rfl

end Library.JsonString

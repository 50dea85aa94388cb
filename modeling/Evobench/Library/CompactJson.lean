import Evobench.Library.JsonString
import Evobench.Library.PrefixCode

/-!
# Compact JSON

JSON as it is written without spaces between its parts: string literals with the shortest escapes (`quote`), objects with one
member (`object`), and arrays of strings (`array`). No text has a line break, and each way to write is a prefix code.
-/

namespace Library.CompactJson

/-! ### String literals -/

/-- A hexadecimal digit. -/
def hexChar (n : ℕ) : Char := if n < 10 then Char.ofNat (48 + n) else Char.ofNat (87 + n)

/-- A character inside of a literal. -/
def escape (c : Char) : List Char :=
  if c = '"' then ['\\', '"']
  else if c = '\\' then ['\\', '\\']
  else if c = '\x08' then ['\\', 'b']
  else if c = '\x0c' then ['\\', 'f']
  else if c = '\n' then ['\\', 'n']
  else if c = '\r' then ['\\', 'r']
  else if c = '\t' then ['\\', 't']
  else if c.toNat < 0x20 then ['\\', 'u', '0', '0', hexChar (c.toNat / 16), hexChar (c.toNat % 16)]
  else [c]

/-- A string literal. -/
def quote (cs : List Char) : List Char := '"' :: (cs.flatMap escape ++ ['"'])

/-- The first character inside of a literal. -/
def unescapeHead : List Char → Option (Char × List Char)
  | '\\' :: 'u' :: a :: b :: c :: d :: rest => (JsonString.codeUnit a b c d).map fun unit => (Char.ofNat unit, rest)
  | '\\' :: c :: rest => (JsonString.unescape c).map fun c => (c, rest)
  | c :: rest => some (c, rest)
  | [] => none

theorem codeUnit_hexChar {n : ℕ} (h : n < 0x20) :
    JsonString.codeUnit '0' '0' (hexChar (n / 16)) (hexChar (n % 16)) = some n := by
  have hall : ∀ m < 0x20, JsonString.codeUnit '0' '0' (hexChar (m / 16)) (hexChar (m % 16)) = some m := by decide
  exact hall n h

theorem unescapeHead_escape (c : Char) (rest : List Char) : unescapeHead (escape c ++ rest) = some (c, rest) := by
  rw [escape]
  split_ifs with hquote hslash hb hf hn hr ht hcontrol
  · rw [hquote]
    rfl
  · rw [hslash]
    rfl
  · rw [hb]
    rfl
  · rw [hf]
    rfl
  · rw [hn]
    rfl
  · rw [hr]
    rfl
  · rw [ht]
    rfl
  · show (JsonString.codeUnit '0' '0' _ _).map (fun unit => (Char.ofNat unit, rest)) = some (c, rest)
    rw [codeUnit_hexChar hcontrol, Option.map_some, Char.ofNat_toNat]
  · show unescapeHead (c :: rest) = some (c, rest)
    rw [unescapeHead.eq_def]
    split
    · next heq => exact absurd (List.cons.inj heq).1 hslash
    · next heq => exact absurd (List.cons.inj heq).1 hslash
    · next heq => rw [(List.cons.inj heq).1, (List.cons.inj heq).2]
    · next heq => cases heq

theorem prefixCode_escape : PrefixCode escape := PrefixCode.of_decoder unescapeHead_escape

theorem escape_ne_quote (c : Char) (x y : List Char) : escape c ++ x ≠ '"' :: y := by
  rw [escape]
  split_ifs with hquote hslash hb hf hn hr ht hcontrol
  case neg =>
    intro heq
    exact hquote (List.cons.inj heq).1
  all_goals
    intro heq
    cases (List.cons.inj heq).1

theorem prefixCode_quote : PrefixCode quote :=
  (prefixCode_escape.flatMap_stop escape_ne_quote).before ['"']

/-- A literal is longer than what it stands for. -/
theorem length_le_length_quote (cs : List Char) : cs.length ≤ (quote cs).length := by
  have hescape : ∀ c, 1 ≤ (escape c).length := by
    intro c
    rw [Nat.one_le_iff_ne_zero, ne_eq, List.length_eq_zero_iff]
    intro hnil
    have hread := unescapeHead_escape c []
    rw [hnil] at hread
    cases hread
  have hbody : cs.length ≤ (cs.flatMap escape).length := by
    induction cs with
    | nil => exact Nat.le_refl 0
    | cons c cs ih =>
      have hone := hescape c
      rw [List.flatMap_cons, List.length_append, List.length_cons]
      omega
  rw [quote, List.length_cons, List.length_append]
  omega

/-! ### Objects and arrays -/

/-- An object with one member. -/
def object (key value : List Char) : List Char := '{' :: (quote key ++ (':' :: (value ++ ['}'])))

/-- Objects are the same if the members are. -/
theorem object_append_inj {key key' value value' x y : List Char} (h : object key value ++ x = object key' value' ++ y) :
    key = key' ∧ value ++ '}' :: x = value' ++ '}' :: y := by
  simp only [object, List.cons_append, List.append_assoc, List.nil_append, List.cons.injEq, true_and] at h
  obtain ⟨hkey, hrest⟩ := prefixCode_quote h
  exact ⟨hkey, (List.cons.inj hrest).2⟩

/-- The other strings of an array. -/
def elements (css : List (List Char)) : List Char := css.flatMap (fun cs => ',' :: quote cs) ++ [']']

/-- An array of strings. -/
def array : List (List Char) → List Char
  | [] => ['[', ']']
  | cs :: css => '[' :: (quote cs ++ elements css)

theorem prefixCode_elements : PrefixCode elements :=
  (prefixCode_quote.before [',']).flatMap_stop fun cs x y heq => by cases (List.cons.inj heq).1

theorem prefixCode_array : PrefixCode array := by
  intro css css' x y heq
  cases css with
  | nil =>
    cases css' with
    | nil => exact ⟨rfl, (List.cons.inj (List.cons.inj heq).2).2⟩
    | cons cs' css' => cases (List.cons.inj (List.cons.inj heq).2).1
  | cons cs css =>
    cases css' with
    | nil => cases (List.cons.inj (List.cons.inj heq).2).1
    | cons cs' css' =>
      have htail : quote cs ++ elements css ++ x = quote cs' ++ elements css' ++ y := (List.cons.inj heq).2
      obtain ⟨hpair, hxy⟩ := (prefixCode_quote.pair prefixCode_elements) (a := (cs, css)) (b := (cs', css')) htail
      cases hpair
      exact ⟨rfl, hxy⟩

/-- A string, or `null`. -/
def optional : Option (List Char) → List Char
  | some cs => quote cs
  | none => ['n', 'u', 'l', 'l']

theorem prefixCode_optional : PrefixCode optional := by
  intro cs cs' x y heq
  cases cs with
  | none =>
    cases cs' with
    | none => exact ⟨rfl, List.append_cancel_left heq⟩
    | some cs' => cases (List.cons.inj heq).1
  | some cs =>
    cases cs' with
    | none => cases (List.cons.inj heq).1
    | some cs' =>
      obtain ⟨rfl, hxy⟩ := prefixCode_quote heq
      exact ⟨rfl, hxy⟩

/-! ### Lines -/

theorem newline_notMem_escape (c : Char) : '\n' ∉ escape c := by
  rw [escape]
  split_ifs with hquote hslash hb hf hn hr ht hcontrol
  · decide
  · decide
  · decide
  · decide
  · decide
  · decide
  · decide
  · have hall : ∀ n < 0x20, '\n' ∉ ['\\', 'u', '0', '0', hexChar (n / 16), hexChar (n % 16)] := by decide
    exact hall c.toNat hcontrol
  · intro hmem
    exact hn (List.mem_singleton.1 hmem).symm

theorem newline_notMem_quote (cs : List Char) : '\n' ∉ quote cs := by
  rw [quote, List.mem_cons, List.mem_append, List.mem_flatMap]
  rintro (heq | ⟨c, -, hmem⟩ | hmem)
  · cases heq
  · exact newline_notMem_escape c hmem
  · exact absurd hmem (by decide)

theorem newline_notMem_object {key value : List Char} (h : '\n' ∉ value) : '\n' ∉ object key value := by
  rw [object, List.mem_cons, List.mem_append, List.mem_cons, List.mem_append]
  rintro (heq | hmem | heq | hmem | hmem)
  · cases heq
  · exact newline_notMem_quote key hmem
  · cases heq
  · exact h hmem
  · exact absurd hmem (by decide)

theorem newline_notMem_elements (css : List (List Char)) : '\n' ∉ elements css := by
  rw [elements, List.mem_append, List.mem_flatMap]
  rintro (⟨cs, -, hmem⟩ | hmem)
  · rcases List.mem_cons.1 hmem with heq | hmem
    · cases heq
    · exact newline_notMem_quote cs hmem
  · exact absurd hmem (by decide)

theorem newline_notMem_array (css : List (List Char)) : '\n' ∉ array css := by
  cases css with
  | nil => decide
  | cons cs css =>
    rw [array, List.mem_cons, List.mem_append]
    rintro (heq | hmem | hmem)
    · cases heq
    · exact newline_notMem_quote cs hmem
    · exact newline_notMem_elements css hmem

theorem newline_notMem_optional (cs : Option (List Char)) : '\n' ∉ optional cs := by
  cases cs with
  | none => decide
  | some cs => exact newline_notMem_quote cs

end Library.CompactJson

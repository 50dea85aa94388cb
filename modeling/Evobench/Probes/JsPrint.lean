import Evobench.Library.Utf8
import Evobench.Library.JsonString
import Mathlib.Data.Fintype.Basic

/-!
# The probes' JSON strings

The probes print strings into the log byte by byte: quotation marks, backslashes and control characters are escaped, and
the bytes of other characters are to be printed as they are.

Which bytes are control characters is decided by `ch < 32` on a `char`. Where `char` is signed, the bytes of characters
beyond ASCII are negative, and are escaped each by itself. So a string is read back exactly if `char` is unsigned or the
string is ASCII (`jsPrint_decodes_iff`).
-/

namespace Evobench.Probes

open Library

/-- The value of a `char`. -/
def charValue (signed : Bool) (ch : UInt8) : ℤ :=
  if signed && decide (128 ≤ ch.toNat) then (ch.toNat : ℤ) - 256 else ch.toNat

/-- The bytes of a piece of ASCII. -/
def ascii (s : List Char) : List UInt8 := s.map fun c => UInt8.ofNat c.toNat

/-- `std::hex << std::setw(4) << std::setfill('0')` -/
def hex4 (n : ℕ) : List Char :=
  let digits := Nat.toDigits 16 n
  List.replicate (4 - digits.length) '0' ++ digits

/-- What `js_print` does with one `char`. -/
def printChar (signed : Bool) (ch : UInt8) : List UInt8 :=
  if ch = 0x22 then ascii ['\\', '"']
  else if ch = 0x5c then ascii ['\\', '\\']
  else if ch = 0x08 then ascii ['\\', 'b']
  else if ch = 0x0c then ascii ['\\', 'f']
  else if ch = 0x0a then ascii ['\\', 'n']
  else if ch = 0x0d then ascii ['\\', 'r']
  else if ch = 0x09 then ascii ['\\', 't']
  else if charValue signed ch < 32 then ascii ('\\' :: 'u' :: hex4 ch.toNat)
  else [ch]

/-- `js_print` on a string: the bytes that it appends -/
def jsPrint (signed : Bool) (input : List UInt8) : List UInt8 :=
  ascii ['"'] ++ input.flatMap (printChar signed) ++ ascii ['"']

/-! ### What is printed, as text -/

/-- The text for a byte that is escaped, or is ASCII. -/
def escaped (ch : UInt8) : List Char :=
  if ch = 0x22 then ['\\', '"']
  else if ch = 0x5c then ['\\', '\\']
  else if ch = 0x08 then ['\\', 'b']
  else if ch = 0x0c then ['\\', 'f']
  else if ch = 0x0a then ['\\', 'n']
  else if ch = 0x0d then ['\\', 'r']
  else if ch = 0x09 then ['\\', 't']
  else if ch.toNat < 32 ∨ 128 ≤ ch.toNat then '\\' :: 'u' :: hex4 ch.toNat
  else [latin1 ch]

theorem utf8_ascii {s : List Char} (h : ∀ c ∈ s, c.toNat < 128) : utf8 s = ascii s := by
  induction s with
  | nil => rfl
  | cons c s ih =>
    rw [utf8_cons, utf8EncodeChar_of_lt (h c List.mem_cons_self), ih fun c hc => h c (List.mem_cons_of_mem _ hc)]
    rfl

/-- What holds of all 256 bytes. -/
theorem forall_uint8 {P : UInt8 → Prop} (h : ∀ i < 16, ∀ j < 16, P (UInt8.ofNat (16 * i + j))) (ch : UInt8) :
    P ch := by
  have hlt := ch.toNat_lt
  rw [← UInt8.ofNat_toNat (x := ch), ← Nat.div_add_mod ch.toNat 16]
  exact h (ch.toNat / 16) (by omega) (ch.toNat % 16) (by omega)

theorem utf8_escaped (ch : UInt8) : utf8 (escaped ch) = ascii (escaped ch) := by
  have h : ∀ i < 16, ∀ j < 16, (escaped (UInt8.ofNat (16 * i + j))).all (·.toNat < 128) = true := by decide +kernel
  have hall := forall_uint8 (P := fun ch => (escaped ch).all (·.toNat < 128) = true) h ch
  exact utf8_ascii (by simpa only [List.all_eq_true, decide_eq_true_eq] using hall)

/-- The text of a byte is printed where `char` is signed, and for ASCII. -/
theorem printChar_eq_escaped {signed : Bool} {ch : UInt8} (h : signed = true ∨ ch.toNat < 128) :
    printChar signed ch = utf8 (escaped ch) := by
  have hbytes : ∀ signed : Bool, ∀ i < 16, ∀ j < 16, signed = true ∨ (UInt8.ofNat (16 * i + j)).toNat < 128 →
      printChar signed (UInt8.ofNat (16 * i + j)) = ascii (escaped (UInt8.ofNat (16 * i + j))) := by
    decide +kernel
  rw [utf8_escaped]
  exact forall_uint8 (P := fun ch => signed = true ∨ ch.toNat < 128 → printChar signed ch = ascii (escaped ch))
    (hbytes signed) ch h

/-- Where `char` is unsigned, the other bytes are printed as they are. -/
theorem printChar_eq_self {ch : UInt8} (h : 128 ≤ ch.toNat) : printChar false ch = [ch] := by
  have hbytes : ∀ i < 16, ∀ j < 16, 128 ≤ (UInt8.ofNat (16 * i + j)).toNat →
      printChar false (UInt8.ofNat (16 * i + j)) = [UInt8.ofNat (16 * i + j)] := by
    decide +kernel
  exact forall_uint8 (P := fun ch => 128 ≤ ch.toNat → printChar false ch = [ch]) hbytes ch h

/-! ### What it is read as -/

/-- One of the three forms in which a literal may hold the character of a byte. -/
def WellFormed (ch : UInt8) : List Char → Prop
  | [c] => c = latin1 ch ∧ c ≠ '"' ∧ c ≠ '\\' ∧ 0x20 ≤ c.toNat
  | ['\\', c] => JsonString.unescape c = some (latin1 ch)
  | ['\\', 'u', a, b, c, d] => JsonString.codeUnit a b c d = some ch.toNat
  | _ => False

instance (ch : UInt8) (s : List Char) : Decidable (WellFormed ch s) := by
  unfold WellFormed
  split
  · infer_instance
  · infer_instance
  · infer_instance
  · infer_instance

theorem wellFormed_escaped (ch : UInt8) : WellFormed ch (escaped ch) := by
  have h : ∀ i < 16, ∀ j < 16, WellFormed (UInt8.ofNat (16 * i + j)) (escaped (UInt8.ofNat (16 * i + j))) := by
    decide +kernel
  exact forall_uint8 (P := fun ch => WellFormed ch (escaped ch)) h ch

/-- The text of a byte is read as the character with its code. -/
theorem WellFormed.decodeRest {ch : UInt8} {s : List Char} (h : WellFormed ch s) (rest : List Char) :
    JsonString.decodeRest (s ++ rest) = (JsonString.decodeRest rest).map (latin1 ch :: ·) := by
  unfold WellFormed at h
  split at h
  · obtain ⟨rfl, hquote, hslash, hcontrol⟩ := h
    exact JsonString.decodeRest_unescaped hquote hslash hcontrol rest
  · exact JsonString.decodeRest_escape h rest
  · have hlt := ch.toNat_lt
    exact JsonString.decodeRest_codeUnit h (by omega) rest
  · exact h.elim

theorem decodeRest_escaped (ch : UInt8) (rest : List Char) :
    JsonString.decodeRest (escaped ch ++ rest) = (JsonString.decodeRest rest).map (latin1 ch :: ·) :=
  (wellFormed_escaped ch).decodeRest rest

theorem decodeRest_flatMap_escaped (bytes : List UInt8) :
    JsonString.decodeRest (bytes.flatMap escaped ++ ['"']) = some (bytes.map latin1) := by
  induction bytes with
  | nil => rfl
  | cons ch bytes ih => rw [List.flatMap_cons, List.append_assoc, decodeRest_escaped, ih, Option.map_some, List.map_cons]

/-- The text that is printed where `char` is unsigned. -/
def printed (c : Char) : List Char := if c.toNat < 128 then escaped (UInt8.ofNat c.toNat) else [c]

theorem decodeRest_printed (c : Char) (rest : List Char) :
    JsonString.decodeRest (printed c ++ rest) = (JsonString.decodeRest rest).map (c :: ·) := by
  unfold printed
  split_ifs with hlt
  · have hlatin : latin1 (UInt8.ofNat c.toNat) = c := by
      rw [latin1, UInt8.toNat_ofNat', Nat.mod_eq_of_lt (by omega), Char.ofNat_toNat]
    rw [decodeRest_escaped, hlatin]
  · have hne : ∀ d : Char, d.toNat < 128 → c ≠ d := by
      rintro d hd rfl
      exact hlt hd
    exact JsonString.decodeRest_unescaped (hne _ (by decide)) (hne _ (by decide)) (by omega) rest

theorem decodeRest_flatMap_printed (s : List Char) :
    JsonString.decodeRest (s.flatMap printed ++ ['"']) = some s := by
  induction s with
  | nil => rfl
  | cons c s ih => rw [List.flatMap_cons, List.append_assoc, decodeRest_printed, ih, Option.map_some]

theorem flatMap_printChar_false (s : List Char) : (utf8 s).flatMap (printChar false) = utf8 (s.flatMap printed) := by
  induction s with
  | nil => rfl
  | cons c s ih =>
    rw [utf8_cons, List.flatMap_append, ih, List.flatMap_cons, utf8_append]
    congr 1
    unfold printed
    split_ifs with hlt
    · rw [utf8EncodeChar_of_lt hlt, List.flatMap_singleton]
      refine printChar_eq_escaped (.inr ?_)
      rw [UInt8.toNat_ofNat', Nat.mod_eq_of_lt (by omega)]
      exact hlt
    · have hself : ∀ b ∈ String.utf8EncodeChar c, printChar false b = [b] := fun b hb =>
        printChar_eq_self (le_of_mem_utf8EncodeChar (by omega) hb)
      rw [List.flatMap_congr hself, List.flatMap_singleton', utf8_cons, utf8_nil, List.append_nil]

theorem flatMap_printChar_true (bytes : List UInt8) :
    bytes.flatMap (printChar true) = utf8 (bytes.flatMap escaped) := by
  rw [utf8_flatMap]
  exact List.flatMap_congr fun ch _ => printChar_eq_escaped (.inl rfl)

/-- ASCII is its own encoding. -/
theorem map_latin1_utf8_eq_iff (s : List Char) : (utf8 s).map latin1 = s ↔ ∀ c ∈ s, c.toNat < 128 := by
  constructor
  · intro h c hc
    by_contra hge
    -- A character beyond ASCII has more than one byte.
    obtain ⟨before, after, rfl⟩ := List.append_of_mem hc
    have hlength := congrArg List.length h
    have hone := one_lt_length_utf8EncodeChar (c := c) (by omega)
    have hbefore := length_le_length_utf8 before
    have hafter := length_le_length_utf8 after
    simp only [utf8_append, utf8_cons, List.length_map, List.length_append, List.length_cons] at hlength
    omega
  · intro h
    rw [utf8_ascii h, ascii, List.map_map]
    have hself : ∀ c ∈ s, (latin1 ∘ fun c => UInt8.ofNat c.toNat) c = id c := by
      intro c hc
      have hlt := h c hc
      show Char.ofNat (UInt8.ofNat c.toNat).toNat = c
      rw [UInt8.toNat_ofNat', Nat.mod_eq_of_lt (by omega), Char.ofNat_toNat]
    rw [List.map_congr_left hself, List.map_id]

/-- **Strings are read back** exactly if `char` is unsigned or the string is ASCII. -/
theorem jsPrint_decodes_iff (signed : Bool) (s : List Char) :
    (∃ text, utf8 text = jsPrint signed (utf8 s) ∧ JsonString.decode text = some s) ↔
      signed = false ∨ ∀ c ∈ s, c.toNat < 128 := by
  have hquote : ascii ['"'] = utf8 ['"'] := rfl
  cases signed with
  | false =>
    refine ⟨fun _ => .inl rfl, fun _ => ⟨'"' :: (s.flatMap printed ++ ['"']), ?_, decodeRest_flatMap_printed s⟩⟩
    rw [jsPrint, flatMap_printChar_false, hquote, ← utf8_append, ← utf8_append]
    rfl
  | true =>
    have hprint : utf8 ('"' :: ((utf8 s).flatMap escaped ++ ['"'])) = jsPrint true (utf8 s) := by
      rw [jsPrint, flatMap_printChar_true, hquote, ← utf8_append, ← utf8_append]
      rfl
    have hdecode : JsonString.decode ('"' :: ((utf8 s).flatMap escaped ++ ['"'])) = some ((utf8 s).map latin1) :=
      decodeRest_flatMap_escaped (utf8 s)
    rw [← map_latin1_utf8_eq_iff]
    constructor
    · rintro ⟨text, htext, hs⟩
      obtain rfl := utf8_injective (htext.trans hprint.symm)
      exact .inr (Option.some.inj (hdecode.symm.trans hs))
    · rintro (h | h)
      · cases h
      · exact ⟨_, hprint, by rw [hdecode, h]⟩

/-- Where `char` is signed, `é` is printed as two escapes. -/
theorem jsPrint_signed :
    ¬ ∃ text, utf8 text = jsPrint true (utf8 ['é']) ∧ JsonString.decode text = some ['é'] := by
  intro h
  have hprint : utf8 ('"' :: ((utf8 ['é']).flatMap escaped ++ ['"'])) = jsPrint true (utf8 ['é']) := by decide +kernel
  obtain ⟨text, htext, hs⟩ := h
  obtain rfl := utf8_injective (htext.trans hprint.symm)
  revert hs
  decide +kernel

end Evobench.Probes

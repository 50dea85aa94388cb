import Mathlib.Data.List.Basic
import Mathlib.Data.List.Flatten
import Mathlib.Tactic.SplitIfs

/-!
# Text as bytes

The UTF-8 encoding of a text as a list of bytes, for programs that go through a text byte by byte. A byte below 128 is an
ASCII character by itself (`utf8EncodeChar_of_lt`), and no character beyond ASCII has such a byte
(`le_of_mem_utf8EncodeChar`).
-/

namespace Library

/-- The UTF-8 encoding of a text. -/
def utf8 (cs : List Char) : List UInt8 := cs.flatMap String.utf8EncodeChar

@[simp] theorem utf8_nil : utf8 [] = [] := rfl

@[simp] theorem utf8_cons (c : Char) (cs : List Char) : utf8 (c :: cs) = String.utf8EncodeChar c ++ utf8 cs := rfl

@[simp] theorem utf8_append (cs cs' : List Char) : utf8 (cs ++ cs') = utf8 cs ++ utf8 cs' := List.flatMap_append

theorem utf8_flatMap {α : Type*} (l : List α) (f : α → List Char) : utf8 (l.flatMap f) = l.flatMap fun a => utf8 (f a) := by
  induction l with
  | nil => rfl
  | cons a l ih => rw [List.flatMap_cons, utf8_append, ih, List.flatMap_cons]

/-- A text is determined by its bytes. -/
theorem utf8_injective : Function.Injective utf8 := by
  intro cs cs' h
  have hdecode : cs.utf8Encode.utf8Decode? = cs'.utf8Encode.utf8Decode? := by
    rw [List.utf8Encode, List.utf8Encode, show cs.flatMap String.utf8EncodeChar = cs'.flatMap String.utf8EncodeChar from h]
  rw [List.utf8Decode?_utf8Encode, List.utf8Decode?_utf8Encode] at hdecode
  simpa using hdecode

/-- The text of some bytes, if they are the encoding of one. -/
def decodeUtf8 (bytes : List UInt8) : Option (List Char) := bytes.toByteArray.utf8Decode?.map Array.toList

@[simp] theorem decodeUtf8_utf8 (cs : List Char) : decodeUtf8 (utf8 cs) = some cs := by
  rw [decodeUtf8, show (utf8 cs).toByteArray = cs.utf8Encode from rfl, List.utf8Decode?_utf8Encode]
  rfl

theorem utf8_of_decodeUtf8 {bytes : List UInt8} {cs : List Char} (h : decodeUtf8 bytes = some cs) : utf8 cs = bytes := by
  obtain ⟨array, harray, rfl⟩ := Option.map_eq_some_iff.1 h
  have hencode : array.toList.utf8Encode = bytes.toByteArray := by
    have hget := ByteArray.utf8Encode_get_utf8Decode? (b := bytes.toByteArray) (h := by rw [harray]; rfl)
    simpa only [harray, Option.get_some] using hget
  have hdata := congrArg (fun b : ByteArray => b.data.toList) hencode
  simpa only [utf8, List.utf8Encode, List.toList_data_toByteArray] using hdata

/-- Where one encoding starts with another one, so does the text. -/
theorem isPrefix_of_utf8 {cs cs' : List Char} (h : utf8 cs <+: utf8 cs') : cs <+: cs' := by
  obtain ⟨rest, hrest⟩ := h
  refine List.isPrefix_of_utf8Encode_append_eq_utf8Encode rest.toByteArray ?_
  rw [List.utf8Encode, List.utf8Encode, ← List.toByteArray_append]
  exact congrArg List.toByteArray hrest

/-- The character with the code of a byte. -/
def latin1 (b : UInt8) : Char := Char.ofNat b.toNat

/-- ASCII characters are encoded by themselves. -/
theorem utf8EncodeChar_of_lt {c : Char} (h : c.toNat < 128) : String.utf8EncodeChar c = [UInt8.ofNat c.toNat] := by
  have hle : c.val.toNat ≤ 127 := Nat.le_of_lt_succ h
  rw [String.utf8EncodeChar, if_pos hle]
  rfl

theorem le_toNat_ofNat {n : ℕ} (h : 128 ≤ n) (hlt : n < 256) : 128 ≤ (UInt8.ofNat n).toNat := by
  rw [UInt8.toNat_ofNat', Nat.mod_eq_of_lt hlt]
  exact h

/-- Other characters are encoded by bytes that are not ASCII. -/
theorem le_of_mem_utf8EncodeChar {c : Char} (h : 128 ≤ c.toNat) {b : UInt8} (hb : b ∈ String.utf8EncodeChar c) :
    128 ≤ b.toNat := by
  have hnot : ¬ c.val.toNat ≤ 127 := Nat.not_le.2 h
  rw [String.utf8EncodeChar, if_neg hnot] at hb
  -- The leading byte, and up to three others.
  split_ifs at hb with htwo hthree
  · rcases List.mem_pair.1 hb with rfl | rfl
    · exact le_toNat_ofNat (by omega) (by omega)
    · exact le_toNat_ofNat (by omega) (by omega)
  · rcases List.mem_cons.1 hb with rfl | hb
    · exact le_toNat_ofNat (by omega) (by omega)
    · rcases List.mem_pair.1 hb with rfl | rfl
      · exact le_toNat_ofNat (by omega) (by omega)
      · exact le_toNat_ofNat (by omega) (by omega)
  · rcases List.mem_cons.1 hb with rfl | hb
    · exact le_toNat_ofNat (by omega) (by omega)
    · rcases List.mem_cons.1 hb with rfl | hb
      · exact le_toNat_ofNat (by omega) (by omega)
      · rcases List.mem_pair.1 hb with rfl | rfl
        · exact le_toNat_ofNat (by omega) (by omega)
        · exact le_toNat_ofNat (by omega) (by omega)

/-- An ASCII character is only there where the text has it. -/
theorem mem_of_mem_utf8 {c : Char} (hc : c.toNat < 128) {cs : List Char} (h : UInt8.ofNat c.toNat ∈ utf8 cs) : c ∈ cs := by
  obtain ⟨d, hd, hmem⟩ := List.mem_flatMap.1 h
  have hbyte : (UInt8.ofNat c.toNat).toNat = c.toNat := UInt8.toNat_ofNat_of_lt' (by rw [UInt8.size]; omega)
  by_cases hascii : d.toNat < 128
  · rw [utf8EncodeChar_of_lt hascii, List.mem_singleton] at hmem
    have hsame := congrArg UInt8.toNat hmem
    rw [hbyte, UInt8.toNat_ofNat_of_lt' (by rw [UInt8.size]; omega)] at hsame
    rwa [show c = d from Char.toNat_inj.1 hsame]
  · have hge := le_of_mem_utf8EncodeChar (Nat.not_lt.1 hascii) hmem
    omega

/-- And by more than one of them. -/
theorem one_lt_length_utf8EncodeChar {c : Char} (h : 128 ≤ c.toNat) : 1 < (String.utf8EncodeChar c).length := by
  have hnot : ¬ c.val.toNat ≤ 127 := Nat.not_le.2 h
  rw [String.utf8EncodeChar, if_neg hnot]
  split_ifs
  · simp
  · simp
  · simp

/-- A text has at least as many bytes as characters. -/
theorem length_le_length_utf8 (cs : List Char) : cs.length ≤ (utf8 cs).length := by
  induction cs with
  | nil => exact Nat.le_refl 0
  | cons c cs ih =>
    have hpos : 0 < (String.utf8EncodeChar c).length := List.length_pos_iff.2 String.utf8EncodeChar_ne_nil
    rw [utf8_cons, List.length_append, List.length_cons]
    omega

end Library

import Evobench.Library.PrefixCode
import Evobench.Library.Utf8

/-!
# Messages over a pipe

A message is sent as a line of JSON. The reader takes line after line, up to the end of the pipe, and ends with an error at the
first line that is no message. What is in the pipe when the sender dies may end in the middle of a line.

## The model

* `JsonText`: what is documented about `serde_json` for a type of messages. The reader accepts spaces around a value, but not a
  part of one.
* `messageLine`: the bytes that are sent. `readLines`: the lines of what arrives, each with its line break.
* `readMessage`: the message of a line.

## What is proved

A line that was sent is read as its message (`readMessage_line`), also if the line break is missing (`readMessage_text`). Of a
line that was not sent completely, nothing is read (`readMessage_cut`).
-/

namespace Evobench.Utillib

open Library

/-- What is documented about `serde_json` for a type of messages. -/
structure JsonText (T : Type) where
  /-- `serde_json::to_string`, where it gives a text. -/
  toString : T → Option (List Char)
  /-- `serde_json::from_str`, where it gives a message. -/
  fromStr : List Char → Option T
  /-- A text is one line. -/
  one_line : ∀ {message text}, toString message = some text → '\n' ∉ text
  /-- A text is read as its message. -/
  fromStr_text : ∀ {message text}, toString message = some text → fromStr text = some message
  /-- Also with a line break behind it. -/
  fromStr_line : ∀ {message text}, toString message = some text → fromStr (text ++ ['\n']) = some message
  /-- A part of a text is not read. -/
  fromStr_cut : ∀ {message text part}, toString message = some text → part <+: text → part ≠ text → fromStr part = none

section Inverse

variable {T : Type} {print : T → Option (List Char)}

/-- The text of a message, or a line with it. -/
def IsTextOf (print : T → Option (List Char)) (message : T) (part : List Char) : Prop :=
  ∃ text, print message = some text ∧ (part = text ∨ part = text ++ ['\n'])

open Classical in
/-- Reading as the inverse of writing. -/
noncomputable def readBack (print : T → Option (List Char)) (part : List Char) : Option T :=
  if h : ∃ message, IsTextOf print message part then some h.choose else none

/-- No text has a line break, and none is the start of the text of another message. -/
structure PrintsPrefixFree (print : T → Option (List Char)) : Prop where
  /-- A text is one line. -/
  one_line : ∀ {message text}, print message = some text → '\n' ∉ text
  /-- The text is known from its start. -/
  prefix_free : ∀ {message message' text text'}, print message = some text → print message' = some text' →
    text' <+: text → message' = message

variable (hprint : PrintsPrefixFree print) {message message' : T} {text part : List Char}
include hprint

/-- What is read from the start of a line. -/
theorem PrintsPrefixFree.eq_of_isTextOf (htext : print message = some text) (hpart : part <+: text ++ ['\n'])
    (h : IsTextOf print message' part) : message' = message ∧ text <+: part := by
  obtain ⟨text', htext', hread⟩ := h
  have hstart : text' <+: part := by
    rcases hread with rfl | rfl
    · exact List.prefix_rfl
    · exact List.prefix_append _ _
  have hline : text' <+: text := by
    rcases List.prefix_concat_iff.1 (hstart.trans hpart) with rfl | hline
    · exact absurd (List.mem_append_right text (List.mem_singleton_self '\n')) (hprint.one_line htext')
    · exact hline
  obtain rfl := hprint.prefix_free htext htext' hline
  obtain rfl := Option.some.inj (htext.symm.trans htext')
  exact ⟨rfl, hstart⟩

theorem PrintsPrefixFree.readBack_eq (htext : print message = some text) (hpart : part <+: text ++ ['\n'])
    (h : IsTextOf print message part) : readBack print part = some message := by
  have hex : ∃ message, IsTextOf print message part := ⟨message, h⟩
  rw [readBack, dif_pos hex, (hprint.eq_of_isTextOf htext hpart hex.choose_spec).1]

/-- A printer, with reading as its inverse. -/
noncomputable def JsonText.ofPrinter : JsonText T where
  toString := print
  fromStr := readBack print
  one_line := hprint.one_line
  fromStr_text htext := hprint.readBack_eq htext (List.prefix_append _ _) ⟨_, htext, .inl rfl⟩
  fromStr_line htext := hprint.readBack_eq htext List.prefix_rfl ⟨_, htext, .inr rfl⟩
  fromStr_cut := by
    intro message text part htext hpart hne
    refine dif_neg ?_
    rintro ⟨message', h⟩
    have hfull := (hprint.eq_of_isTextOf htext (hpart.trans (List.prefix_append _ _)) h).2
    exact hne (hpart.eq_of_length (Nat.le_antisymm hpart.length_le hfull.length_le))

end Inverse

/-- The byte of a line break. -/
def newline : UInt8 := UInt8.ofNat '\n'.toNat

/-! ### Reading -/

/-- `read_line`, again and again: the lines, the last one without a line break if there is none. -/
def readLines : List UInt8 → List (List UInt8)
  | [] => []
  | b :: bytes =>
    if b = newline then [b] :: readLines bytes
    else match readLines bytes with
      | [] => [[b]]
      | line :: lines => (b :: line) :: lines

/-- A line, and others behind it. -/
theorem readLines_line {line : List UInt8} (h : newline ∉ line) (rest : List UInt8) :
    readLines (line ++ newline :: rest) = (line ++ [newline]) :: readLines rest := by
  induction line with
  | nil => exact if_pos rfl
  | cons b line ih =>
    rw [List.mem_cons, not_or] at h
    rw [List.cons_append, readLines, if_neg (Ne.symm h.1), ih h.2]
    rfl

/-- The last line, without a line break. -/
theorem readLines_rest {line : List UInt8} (h : newline ∉ line) (hne : line ≠ []) : readLines line = [line] := by
  induction line with
  | nil => exact absurd rfl hne
  | cons b line ih =>
    rw [List.mem_cons, not_or] at h
    rw [readLines, if_neg (Ne.symm h.1)]
    cases line with
    | nil => rfl
    | cons b' line => rw [ih h.2 (List.cons_ne_nil _ _)]

section Messages

variable {T : Type} (serde : JsonText T)

/-- The message of a line; an error if the line is no text, or not a message. -/
def readMessage (line : List UInt8) : Option T := (decodeUtf8 line).bind serde.fromStr

/-- The bytes of a text that is sent. -/
def messageLine (text : List Char) : List UInt8 := utf8 text ++ [newline]

theorem utf8_newline (text : List Char) : messageLine text = utf8 (text ++ ['\n']) := by
  rw [messageLine, utf8_append]
  rfl

variable {serde} {message : T} {text : List Char}

theorem newline_notMem_utf8 (h : serde.toString message = some text) : newline ∉ utf8 text :=
  fun hmem => serde.one_line h (mem_of_mem_utf8 (by decide) hmem)

/-- A line is read as its message. -/
theorem readMessage_line (h : serde.toString message = some text) : readMessage serde (messageLine text) = some message := by
  rw [readMessage, utf8_newline, decodeUtf8_utf8]
  exact serde.fromStr_line h

/-- So it is if the line break is missing. -/
theorem readMessage_text (h : serde.toString message = some text) : readMessage serde (utf8 text) = some message := by
  rw [readMessage, decodeUtf8_utf8]
  exact serde.fromStr_text h

/-- A part of the text is an error. -/
theorem readMessage_cut (h : serde.toString message = some text) {part : List UInt8} (hpart : part <+: utf8 text)
    (hne : part ≠ utf8 text) : readMessage serde part = none := by
  rw [readMessage]
  cases hdecode : decodeUtf8 part with
  | none => rfl
  | some cs =>
    obtain rfl := utf8_of_decodeUtf8 hdecode
    exact serde.fromStr_cut h (isPrefix_of_utf8 hpart) fun heq => hne (congrArg utf8 heq)

end Messages

end Evobench.Utillib

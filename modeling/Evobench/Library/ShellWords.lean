import Mathlib

/-!
# Words of a shell

A command line of a shell is split into words at the blanks that are not quoted, and the quotes are removed then. A backslash
quotes the next character; between single quotes everything is quoted; between double quotes a backslash quotes some
characters only. A word may consist of nothing but quotes.

Operators, comments, and all expansions are left out: with one of these there are no words here. Pathnames are not expanded.

## The model

* `words`: the words of a text, where a word may have begun already. `splitWords`: those of a whole text.
* `Bare`: characters that need not be quoted.

## What is proved

* `words_bare_append`: what becomes of a text that is not quoted.
* `words_escape`: a text in which the quotes are replaced stands for itself in single quotes.
-/

namespace Library.ShellWords

/-! ### Splitting -/

/-- How a character is quoted. -/
inductive Quoting where
  /-- It is not. -/
  | bare
  /-- Between single quotes. -/
  | single
  /-- Between double quotes. -/
  | double
  /-- By a backslash. -/
  | backslash
  /-- By a backslash between double quotes. -/
  | doubleBackslash

/-- The characters that separate words. -/
def isBlank (c : Char) : Bool := c = ' ' || c = '\t'

/-- The characters that are operators, or begin an expansion, where they are not quoted. -/
def operators : List Char := ['\n', '|', '&', ';', '(', ')', '<', '>', '$', '`', '{', '~', '!']

/-- The words of a text, after `word` if one has begun. -/
def words : Quoting → Option (List Char) → List Char → Option (List (List Char))
  | .bare, word, [] => some word.toList
  | .backslash, word, [] => some [word.getD [] ++ ['\\']]
  | .single, _, [] => none
  | .double, _, [] => none
  | .doubleBackslash, _, [] => none
  | .bare, word, c :: cs =>
    if c = '\x00' then none
    else if isBlank c then (words .bare none cs).map (word.toList ++ ·)
    else if c = '\'' then words .single (some (word.getD [])) cs
    else if c = '"' then words .double (some (word.getD [])) cs
    else if c = '\\' then words .backslash word cs
    else if c ∈ operators ∨ c = '#' ∧ word = none then none
    else words .bare (some (word.getD [] ++ [c])) cs
  | .backslash, word, c :: cs =>
    if c = '\x00' then none
    else if c = '\n' then words .bare word cs
    else words .bare (some (word.getD [] ++ [c])) cs
  | .single, word, c :: cs =>
    if c = '\x00' then none
    else if c = '\'' then words .bare word cs
    else words .single (some (word.getD [] ++ [c])) cs
  | .double, word, c :: cs =>
    if c = '\x00' ∨ c = '$' ∨ c = '`' then none
    else if c = '"' then words .bare word cs
    else if c = '\\' then words .doubleBackslash word cs
    else words .double (some (word.getD [] ++ [c])) cs
  | .doubleBackslash, word, c :: cs =>
    if c = '\x00' then none
    else if c = '\n' then words .double word cs
    else if c = '$' ∨ c = '`' ∨ c = '"' ∨ c = '\\' then words .double (some (word.getD [] ++ [c])) cs
    else words .double (some (word.getD [] ++ ['\\', c])) cs

/-- **The words of a text**, without their quotes. -/
def splitWords (s : String) : Option (List String) := (words .bare none s.toList).map (List.map String.ofList)

/-! ### What stands for itself -/

/-- A character that need not be quoted. -/
structure Bare (c : Char) : Prop where
  /-- It is not NUL. -/
  nul : c ≠ '\x00'
  /-- It does not separate words. -/
  blank : isBlank c = false
  /-- It does not quote. -/
  quote : c ≠ '\'' ∧ c ≠ '"' ∧ c ≠ '\\'
  /-- It is no operator, and begins no comment. -/
  operator : c ∉ operators ∧ c ≠ '#'

variable {c : Char} {s rest : List Char}

theorem words_bare_cons (h : Bare c) (word : Option (List Char)) (rest : List Char) :
    words .bare word (c :: rest) = words .bare (some (word.getD [] ++ [c])) rest := by
  obtain ⟨hnul, hblank, ⟨hsingle, hdouble, hback⟩, hoperator, hcomment⟩ := h
  rw [words, if_neg hnul, hblank, if_neg Bool.false_ne_true, if_neg hsingle, if_neg hdouble, if_neg hback, if_neg]
  rintro (h | h)
  · exact hoperator h
  · exact hcomment h.1

/-- A text that need not be quoted. -/
theorem words_bare_append (h : ∀ c ∈ s, Bare c) (word : List Char) (rest : List Char) :
    words .bare (some word) (s ++ rest) = words .bare (some (word ++ s)) rest := by
  induction s generalizing word with
  | nil => simp
  | cons c s ih =>
    obtain ⟨hc, hs⟩ := List.forall_mem_cons.1 h
    rw [List.cons_append, words_bare_cons hc, ih hs]
    simp

/-- At the beginning of a word. -/
theorem words_bare_append_of_ne_nil (h : ∀ c ∈ s, Bare c) (hne : s ≠ []) (rest : List Char) :
    words .bare none (s ++ rest) = words .bare (some s) rest := by
  cases s with
  | nil => exact absurd rfl hne
  | cons c s =>
    obtain ⟨hc, hs⟩ := List.forall_mem_cons.1 h
    rw [List.cons_append, words_bare_cons hc, words_bare_append hs]
    simp

/-- A blank ends a word. -/
theorem words_bare_space (word : Option (List Char)) (rest : List Char) :
    words .bare word (' ' :: rest) = (words .bare none rest).map (word.toList ++ ·) := by
  rw [words, if_neg (by simp), if_pos (by simp [isBlank])]

/-! ### Single quotes -/

/-- A single quote, written between single quotes: they end, there is a quoted one, and they begin again. -/
def escape (c : Char) : List Char := if c = '\'' then ['\'', '\\', '\'', '\''] else [c]

theorem words_escape_cons (hc : c ≠ '\x00') (word rest : List Char) :
    words .single (some word) (escape c ++ rest) = words .single (some (word ++ [c])) rest := by
  rw [escape]
  by_cases hquote : c = '\''
  · subst hquote
    -- the quotes end, a quoted one follows, and the quotes begin again
    rw [if_pos rfl, List.cons_append, words, if_neg hc, if_pos rfl, List.cons_append, words, if_neg (by simp),
      if_neg (by simp [isBlank]), if_neg (by simp), if_neg (by simp), if_pos rfl]
    rw [List.cons_append, words, if_neg hc, if_neg (by simp), List.cons_append, words, if_neg hc, if_neg (by simp [isBlank]),
      if_pos rfl]
    rfl
  · rw [if_neg hquote, List.singleton_append, words, if_neg hc, if_neg hquote]
    simp

/-- **A text in single quotes.** -/
theorem words_escape (h : '\x00' ∉ s) (word rest : List Char) :
    words .single (some word) (s.flatMap escape ++ '\'' :: rest) = words .bare (some (word ++ s)) rest := by
  induction s generalizing word with
  | nil => simp [words]
  | cons c s ih =>
    rw [List.mem_cons, not_or] at h
    rw [List.flatMap_cons, List.append_assoc, words_escape_cons (Ne.symm h.1), ih h.2]
    simp

end Library.ShellWords

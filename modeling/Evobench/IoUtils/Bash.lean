import Evobench.Library.ShellWords

/-!
# Command lines for bash

`bash_string_from_cmd` writes the words of a command one after the other, with those in single quotes that bash would not
read as they are.

## What is proved

* `words_bashStringFromCmd`: bash reads the words that are not empty.
* `splitWords_bashStringFromCmd_iff`: it reads the words of the command if and only if none of them is empty.
* `empty_word_is_lost`: a command with an empty word.
-/

namespace Evobench.IoUtils

open Library ShellWords

/-! ### The source -/

/-- `CHARS_NOT_NEEDING_QUOTING` -/
def charsNotNeedingQuoting : String := "_:.-+,/=@[]^"

/-- A character that is written as it is. -/
def needsNoQuoting (c : Char) : Bool := c.isAlphanum || charsNotNeedingQuoting.toList.contains c

/-- What is written for a character between single quotes. -/
def pushQuoted (c : Char) : List Char := if c = '\'' then ['\'', '\\', '\'', '\''] else [c]

/-- `bash_string_literal` -/
def bashStringLiteral (s : String) : String :=
  if s.toList.all needsNoQuoting then s else String.ofList ('\'' :: (s.toList.flatMap pushQuoted ++ ['\'']))

/-- `bash_string_from_cmd` -/
def bashStringFromCmd (cmd : List String) : String := " ".intercalate (cmd.map bashStringLiteral)

/-- `bash_string_from_program_string_and_args` -/
def bashStringFromProgramStringAndArgs (cmd : String) (args : List String) : String :=
  args.foldl (fun out arg => out ++ " " ++ bashStringLiteral arg) (bashStringLiteral cmd)

/-- `bash_string_from_program_path_and_args` -/
def bashStringFromProgramPathAndArgs (commandPath : String) (args : List String) : String :=
  args.foldl (fun out arg => out ++ " " ++ bashStringLiteral arg) (bashStringLiteral commandPath)

/-! ### Words -/

/-- What is written as it is has no meaning for bash. -/
theorem bare_of_needsNoQuoting {c : Char} (h : needsNoQuoting c = true) : Bare c := by
  have hspecial : (('\x00' :: ' ' :: '\t' :: '\'' :: '"' :: '\\' :: '#' :: operators).all fun c => !needsNoQuoting c) = true := by
    decide
  have hne : ∀ c' ∈ '\x00' :: ' ' :: '\t' :: '\'' :: '"' :: '\\' :: '#' :: operators, c ≠ c' := by
    rintro c' hc' rfl
    have hnot := List.all_eq_true.1 hspecial c hc'
    rw [h] at hnot
    cases hnot
  simp only [List.forall_mem_cons] at hne
  obtain ⟨hnul, hspace, htab, hsingle, hdouble, hback, hcomment, hoperators⟩ := hne
  refine ⟨hnul, ?_, ⟨hsingle, hdouble, hback⟩, fun hmem => hoperators c hmem rfl, hcomment⟩
  simp [isBlank, hspace, htab]

theorem toList_bashStringLiteral_of_quoted {s : String} (h : s.toList.all needsNoQuoting = false) :
    (bashStringLiteral s).toList = '\'' :: (s.toList.flatMap escape ++ ['\'']) := by
  rw [bashStringLiteral, h, if_neg Bool.false_ne_true, String.toList_ofList]
  rfl

/-- **A literal** is read as one word, unless it is empty. -/
theorem words_literal {s : String} (hnul : '\x00' ∉ s.toList) (rest : List Char) :
    words .bare none ((bashStringLiteral s).toList ++ rest) =
      words .bare (if s = "" then none else some s.toList) rest := by
  cases hall : s.toList.all needsNoQuoting with
  | true =>
    rw [bashStringLiteral, if_pos hall]
    by_cases hempty : s = ""
    · subst hempty
      rfl
    · rw [if_neg hempty, words_bare_append_of_ne_nil fun c hc => bare_of_needsNoQuoting (List.all_eq_true.1 hall c hc)]
      intro hnil
      exact hempty (String.toList_eq_nil_iff.1 hnil)
  | false =>
    have hempty : s ≠ "" := by
      rintro rfl
      cases hall
    rw [toList_bashStringLiteral_of_quoted hall, if_neg hempty, List.cons_append, words, if_neg (by simp),
      if_neg (by simp [isBlank]), if_pos rfl, List.append_assoc, List.singleton_append]
    exact words_escape hnul [] rest

/-- **What bash reads**: the words that are not empty. -/
theorem words_bashStringFromCmd {cmd : List String} (hnul : ∀ s ∈ cmd, '\x00' ∉ s.toList) :
    words .bare none (bashStringFromCmd cmd).toList = some ((cmd.filter (· ≠ "")).map String.toList) := by
  rw [bashStringFromCmd, String.toList_intercalate, List.map_map, show " ".toList = [' '] from rfl]
  induction cmd with
  | nil => rfl
  | cons s cmd ih =>
    obtain ⟨hs, hcmd⟩ := List.forall_mem_cons.1 hnul
    cases cmd with
    | nil =>
      rw [List.map_singleton, List.intercalate_singleton, Function.comp_apply, ← List.append_nil (bashStringLiteral s).toList,
        words_literal hs]
      by_cases hempty : s = ""
      · simp [hempty, words]
      · simp [hempty, words]
    | cons s' cmd =>
      rw [List.map_cons, List.map_cons, List.intercalate_cons_cons, ← List.map_cons (f := String.toList ∘ bashStringLiteral),
        Function.comp_apply, List.append_assoc, words_literal hs, List.singleton_append, words_bare_space, ih hcmd]
      by_cases hempty : s = ""
      · simp [hempty]
      · simp [hempty]

theorem foldl_bashStringLiteral (args : List String) (out : String) :
    (args.foldl (fun out arg => out ++ " " ++ bashStringLiteral arg) out).toList =
      [' '].intercalate (out.toList :: args.map (String.toList ∘ bashStringLiteral)) := by
  induction args generalizing out with
  | nil => simp
  | cons arg args ih =>
    rw [List.foldl_cons, ih, List.map_cons, List.intercalate_cons_cons, String.toList_append, String.toList_append,
      show " ".toList = [' '] from rfl, Function.comp_apply]
    cases args with
    | nil => simp
    | cons arg' args => simp [List.intercalate_cons_cons]

/-- **A program with its arguments** is a command whose first word is the program. -/
theorem bashStringFromProgramStringAndArgs_eq (cmd : String) (args : List String) :
    bashStringFromProgramStringAndArgs cmd args = bashStringFromCmd (cmd :: args) ∧
      bashStringFromProgramPathAndArgs cmd args = bashStringFromCmd (cmd :: args) := by
  have heq : args.foldl (fun out arg => out ++ " " ++ bashStringLiteral arg) (bashStringLiteral cmd) =
      bashStringFromCmd (cmd :: args) := by
    rw [← String.toList_inj, foldl_bashStringLiteral, bashStringFromCmd, String.toList_intercalate, List.map_map, List.map_cons]
    rfl
  exact ⟨heq, heq⟩

/-- **When bash reads the command**: if none of its words is empty. -/
theorem splitWords_bashStringFromCmd_iff (cmd : List String) (hnul : ∀ s ∈ cmd, '\x00' ∉ s.toList) :
    splitWords (bashStringFromCmd cmd) = some cmd ↔ ∀ s ∈ cmd, s ≠ "" := by
  have hread : splitWords (bashStringFromCmd cmd) = some (cmd.filter (· ≠ "")) := by
    rw [splitWords, words_bashStringFromCmd hnul, Option.map_some, List.map_map]
    congr 1
    exact (List.map_congr_left fun s _ => String.ofList_toList).trans (List.map_id _)
  rw [hread, Option.some_inj, List.filter_eq_self]
  simp

/-- A command with a quote, a blank, and nothing that is empty. -/
theorem splitWords_sample :
    (∀ s ∈ ["echo", "it's", "a b"], s ≠ "") ∧
      splitWords (bashStringFromCmd ["echo", "it's", "a b"]) = some ["echo", "it's", "a b"] := by
  have hempty : ∀ s ∈ ["echo", "it's", "a b"], s ≠ "" := by simp
  exact ⟨hempty, (splitWords_bashStringFromCmd_iff _ (by simp)).2 hempty⟩

/-- **An empty word is lost.** -/
theorem empty_word_is_lost :
    bashStringFromCmd ["echo", ""] = "echo " ∧ splitWords (bashStringFromCmd ["echo", ""]) = some ["echo"] ∧
      ¬ ∀ cmd : List String, (∀ s ∈ cmd, '\x00' ∉ s.toList) → splitWords (bashStringFromCmd cmd) = some cmd := by
  have hwritten : bashStringFromCmd ["echo", ""] = "echo " := by decide +kernel
  have hread : splitWords (bashStringFromCmd ["echo", ""]) = some ["echo"] := by decide +kernel
  refine ⟨hwritten, hread, fun h => ?_⟩
  have hall := h ["echo", ""] (by simp)
  rw [hread] at hall
  cases hall

end Evobench.IoUtils

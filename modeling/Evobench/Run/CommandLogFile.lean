import Evobench.KeyValFs.TimeKey
import Evobench.Library.Lines

/-!
# Command log files

The log file of a benchmarking command has a head with the serialized parameters, then the output with a timestamp and a tab
in front of each line. There is no separator in older files: the head is what comes before the first timestamp.

## The model

* `splitOffLogFileParams`: the loop over the starts of the lines. Positions are counted in characters; the source counts bytes.
* `timestampOf`: the timestamp of a line and what comes after the tab.

## What is proved

`splitOffLogFileParams_eq`: the first line with a timestamp is found, unless it is the first line of the file. Head and rest are
the lines before it and the lines from there on, and the line number is the one of that line.
-/

namespace Evobench.Run

open Library KeyValFs

/-- What is documented about `DateTime::parse_from_rfc3339`: the texts that are parsed have the RFC 3339 format, which is on one
line. -/
structure Rfc3339Parser (τ : Type) where
  /-- The timestamp. -/
  parseFromRfc3339 : List Char → Option τ
  /-- It is on one line. -/
  noNewline_of_parse : ∀ t timestamp, parseFromRfc3339 t = some timestamp → '\n' ∉ t

/-- The lines of a text. -/
def linesOf (s : List Char) : List (List Char) := s.splitOn '\n'

section Splitting

variable {τ : Type} (chrono : Rfc3339Parser τ)

/-- The timestamp of a line, and the text after the tab. -/
def timestampOf (line : List Char) : Option (τ × List Char) := do
  let (t, rest) ← splitOnce '\t' line
  let timestamp ← chrono.parseFromRfc3339 t
  pure (timestamp, rest)

/-- The positions of the line ends, counted from `i`. -/
def lineEndings : ℕ → List Char → List ℕ
  | _, [] => []
  | i, c :: cs => if c = '\n' then i :: lineEndings (i + 1) cs else lineEndings (i + 1) cs

/-- The loop of `split_off_log_file_params`; `i` is the start of the next line. -/
def splitOffLoop (s : List Char) : ℕ → ℕ → List ℕ → Option (List Char × List Char × ℕ)
  | i, lineno, endings =>
    let rest := s.drop i
    if (timestampOf chrono rest).isSome then
      if i = 0 then none else some (s.take (i - 1), rest, lineno)
    else
      match endings with
      | i2 :: endings => splitOffLoop s (i2 + 1) (lineno + 1) endings
      | [] => none

/-- `split_off_log_file_params`: `(head, rest, rest_lineno)`, where `rest_lineno` is the 1-based line number where `rest`
starts. -/
def splitOffLogFileParams (s : List Char) : Option (List Char × List Char × ℕ) :=
  splitOffLoop chrono s 0 1 (lineEndings 0 s)

/-- `log_contents_rest`: the part of the file contents after the head, together with the 1-based line number where it starts.
If there was no head detected, just give the whole file contents. -/
def logContentsRest (contents : List Char) : List Char × ℕ :=
  match splitOffLogFileParams chrono contents with
  | some (_, rest, lineno) => (rest, lineno)
  | none => (contents, 1)

end Splitting

/-! ### Lines -/

theorem lineEndings_eq_nil {i : ℕ} {cs : List Char} (h : '\n' ∉ cs) : lineEndings i cs = [] := by
  induction cs generalizing i with
  | nil => rfl
  | cons c cs ih =>
    rw [List.mem_cons, not_or] at h
    rw [lineEndings, if_neg (Ne.symm h.1), ih h.2]

theorem lineEndings_line {i : ℕ} {line cs : List Char} (h : '\n' ∉ line) :
    lineEndings i (line ++ '\n' :: cs) = (i + line.length) :: lineEndings (i + line.length + 1) cs := by
  induction line generalizing i with
  | nil => simp [lineEndings]
  | cons c line ih =>
    rw [List.mem_cons, not_or] at h
    rw [List.cons_append, lineEndings, if_neg (Ne.symm h.1), ih h.2]
    simp [Nat.add_assoc, Nat.add_comm 1]

section Splitting

variable {τ : Type} {chrono : Rfc3339Parser τ}

/-- A timestamp that is found in a text is the one of its first line. -/
theorem isSome_timestampOf_line {line cs : List Char} :
    (timestampOf chrono (line ++ '\n' :: cs)).isSome = (timestampOf chrono line).isSome := by
  by_cases htab : '\t' ∈ line
  · obtain ⟨a, b, rfl, ha⟩ := List.eq_append_cons_of_mem htab
    have hline : (a ++ '\t' :: b) ++ '\n' :: cs = a ++ '\t' :: (b ++ '\n' :: cs) := by simp
    rw [hline, timestampOf, timestampOf, splitOnce_append ha, splitOnce_append ha]
    cases hparse : chrono.parseFromRfc3339 a with
    | none => simp [hparse]
    | some timestamp => simp [hparse]
  · have hnone : timestampOf chrono line = none := by
      rw [timestampOf, splitOnce_eq_none htab]
      rfl
    rw [hnone, timestampOf]
    -- the text before a tab would have the end of the line in it
    cases hsplit : splitOnce '\t' (line ++ '\n' :: cs) with
    | none => rfl
    | some parts =>
      obtain ⟨t, rest⟩ := parts
      obtain ⟨heq, ht⟩ := eq_of_splitOnce hsplit
      cases hparse : chrono.parseFromRfc3339 t with
      | none => simp [hparse]
      | some timestamp =>
        have hnewline := chrono.noNewline_of_parse t timestamp hparse
        have hplace := List.append_eq_append_iff.1 heq
        rcases hplace with ⟨c, rfl, hc⟩ | ⟨c, rfl, hc⟩
        · rcases c with _ | ⟨z, c⟩
          · cases hc
          · obtain ⟨rfl, -⟩ := List.cons.inj hc
            simp at hnewline
        · rcases c with _ | ⟨z, c⟩
          · cases hc
          · obtain ⟨rfl, -⟩ := List.cons.inj hc
            simp at htab

/-- The loop at a line: after the lines `done`, with the lines `ls` and a last one to come. -/
def splitOffAt (chrono : Rfc3339Parser τ) (done ls : List (List Char)) (tail : List Char) :
    Option (List Char × List Char × ℕ) :=
  splitOffLoop chrono (unlines '\n' done ++ (unlines '\n' ls ++ tail)) (unlines '\n' done).length (done.length + 1)
    (lineEndings (unlines '\n' done).length (unlines '\n' ls ++ tail))

variable {done ls : List (List Char)} {tail : List Char}

/-- A line with a timestamp is where the rest starts. -/
theorem splitOffAt_found (done : List (List Char)) (hls : ∀ l ∈ ls, '\n' ∉ l) (htail : '\n' ∉ tail)
    (hsome : (timestampOf chrono (unlines '\n' ls ++ tail)).isSome = true) :
    (done = [] → splitOffAt chrono done ls tail = none) ∧
      (done ≠ [] → ∃ head rest, splitOffAt chrono done ls tail = some (head, rest, done.length + 1) ∧
        unlines '\n' done ++ (unlines '\n' ls ++ tail) = head ++ '\n' :: rest ∧ linesOf rest = ls ++ [tail]) := by
  unfold splitOffAt splitOffLoop
  simp only [List.drop_left, hsome, if_true]
  constructor
  · rintro rfl
    rfl
  · intro hdone
    obtain ⟨head, hhead⟩ := exists_unlines_eq_append '\n' hdone
    have hlength : (unlines '\n' done).length = head.length + 1 := by simp [hhead]
    refine ⟨head, unlines '\n' ls ++ tail, ?_, by simp [hhead], splitOn_unlines hls htail⟩
    rw [if_neg (by omega), hlength, Nat.add_sub_cancel, hhead, List.append_assoc, List.take_left]

/-- A line without one is gone past. -/
theorem splitOffAt_next {l : List Char} (hl : '\n' ∉ l) (hnone : timestampOf chrono l = none) :
    splitOffAt chrono done (l :: ls) tail = splitOffAt chrono (done ++ [l]) ls tail := by
  have htext : unlines '\n' (done ++ [l]) ++ (unlines '\n' ls ++ tail) =
      unlines '\n' done ++ (unlines '\n' (l :: ls) ++ tail) := by simp
  have hlength : (unlines '\n' (done ++ [l])).length = (unlines '\n' done).length + l.length + 1 := by simp [Nat.add_assoc]
  have hline : unlines '\n' (l :: ls) ++ tail = l ++ '\n' :: (unlines '\n' ls ++ tail) := by simp
  have hfirst : (timestampOf chrono (unlines '\n' (l :: ls) ++ tail)).isSome = false := by
    rw [hline, isSome_timestampOf_line, hnone]
    rfl
  have hendings : lineEndings (unlines '\n' done).length (unlines '\n' (l :: ls) ++ tail) =
      ((unlines '\n' done).length + l.length) ::
        lineEndings ((unlines '\n' done).length + l.length + 1) (unlines '\n' ls ++ tail) := by
    rw [hline, lineEndings_line hl]
  rw [splitOffAt, splitOffAt, htext, hlength, List.length_append, List.length_singleton, hendings]
  conv_lhs => unfold splitOffLoop
  simp only [List.drop_left, hfirst, Bool.false_eq_true, if_false]

/-- After the last line there are no more. -/
theorem splitOffAt_last (htail : '\n' ∉ tail) (hnone : timestampOf chrono tail = none) :
    splitOffAt chrono done [] tail = none := by
  rw [splitOffAt, unlines_nil, List.nil_append, lineEndings_eq_nil htail]
  unfold splitOffLoop
  simp [hnone]

/-- There is no line with a timestamp. -/
theorem splitOffAt_eq_none (hls : ∀ l ∈ ls, '\n' ∉ l) (htail : '\n' ∉ tail)
    (h : ∀ l ∈ ls ++ [tail], timestampOf chrono l = none) : splitOffAt chrono done ls tail = none := by
  induction ls generalizing done with
  | nil => exact splitOffAt_last htail (h tail (by simp))
  | cons l ls ih =>
    rw [splitOffAt_next (hls l List.mem_cons_self) (h l (by simp))]
    exact ih (fun l' hl' => hls l' (List.mem_cons_of_mem _ hl')) fun l' hl' => h l' (List.mem_cons_of_mem _ hl')

/-- **The first line with a timestamp**, after the lines `pre`, is where the rest starts. -/
theorem splitOffAt_eq (done : List (List Char)) (hls : ∀ l ∈ ls, '\n' ∉ l) (htail : '\n' ∉ tail)
    {pre post : List (List Char)} {l : List Char} (hlines : ls ++ [tail] = pre ++ l :: post)
    (hpre : ∀ l' ∈ pre, timestampOf chrono l' = none)
    (hl : timestampOf chrono l ≠ none) :
    (done ++ pre = [] → splitOffAt chrono done ls tail = none) ∧
      (done ++ pre ≠ [] → ∃ head rest,
        splitOffAt chrono done ls tail = some (head, rest, (done ++ pre).length + 1) ∧
        unlines '\n' done ++ (unlines '\n' ls ++ tail) = head ++ '\n' :: rest ∧ linesOf rest = l :: post) := by
  induction ls generalizing done pre with
  | nil =>
    obtain ⟨rfl, rfl, rfl⟩ : pre = [] ∧ tail = l ∧ post = [] := by
      rcases pre with _ | ⟨z, pre⟩
      · simpa using hlines
      · simp at hlines
    rw [List.append_nil]
    exact splitOffAt_found done hls htail (Option.isSome_iff_ne_none.2 hl)
  | cons l₀ ls ih =>
    have hnewline : '\n' ∉ l₀ := hls l₀ List.mem_cons_self
    rcases pre with _ | ⟨z, pre⟩
    · obtain ⟨rfl, hpost⟩ := List.cons.inj hlines
      have hsome : (timestampOf chrono (unlines '\n' (l₀ :: ls) ++ tail)).isSome = true := by
        rw [show unlines '\n' (l₀ :: ls) ++ tail = l₀ ++ '\n' :: (unlines '\n' ls ++ tail) by simp, isSome_timestampOf_line]
        exact Option.isSome_iff_ne_none.2 hl
      have hfound := splitOffAt_found done hls htail hsome
      rw [hlines] at hfound
      rw [List.append_nil]
      exact hfound
    · obtain ⟨rfl, hrest⟩ := List.cons.inj hlines
      rw [splitOffAt_next hnewline (hpre l₀ List.mem_cons_self)]
      have hstep := @ih (done ++ [l₀]) (fun l' hl' => hls l' (List.mem_cons_of_mem _ hl')) pre hrest
        (fun l' hl' => hpre l' (List.mem_cons_of_mem _ hl'))
      simpa using hstep

/-- A log file without a timestamp has no head. -/
theorem splitOffLogFileParams_eq_none {s : List Char} (h : ∀ l ∈ linesOf s, timestampOf chrono l = none) :
    splitOffLogFileParams chrono s = none := by
  obtain ⟨ls, tail, rfl, hls, htail⟩ := exists_unlines '\n' s
  rw [linesOf, splitOn_unlines hls htail] at h
  have hnone : splitOffAt chrono [] ls tail = none := splitOffAt_eq_none hls htail h
  simpa [splitOffAt, splitOffLogFileParams] using hnone

/-- **Head and rest**, if the lines `pre` come before the first one with a timestamp. -/
theorem splitOffLogFileParams_eq {s l : List Char} {pre post : List (List Char)} (hlines : linesOf s = pre ++ l :: post)
    (hpre : ∀ l' ∈ pre, timestampOf chrono l' = none) (hl : timestampOf chrono l ≠ none) :
    (pre = [] → splitOffLogFileParams chrono s = none) ∧
      (pre ≠ [] → ∃ head rest, splitOffLogFileParams chrono s = some (head, rest, pre.length + 1) ∧
        s = head ++ '\n' :: rest ∧ linesOf rest = l :: post) := by
  obtain ⟨ls, tail, rfl, hls, htail⟩ := exists_unlines '\n' s
  rw [linesOf, splitOn_unlines hls htail] at hlines
  have hspec := splitOffAt_eq [] hls htail hlines hpre hl
  simpa [splitOffAt, splitOffLogFileParams] using hspec

end Splitting

end Evobench.Run

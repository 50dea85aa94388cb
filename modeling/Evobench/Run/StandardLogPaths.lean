import Evobench.Library.Program
import Evobench.Run.OsString
import Evobench.SerdeTypes.Rfc3339
import Mathlib.Data.List.Sort

/-!
# The logs of a working directory

The output of the benchmarking command is logged to a file next to the working directory; its name is that of the directory, a
fixed text, and the time. `standard_log_paths` (src/run/working_directory.rs) lists these files sorted by the time as a text,
and `last_standard_log_path` is the last one of the list. `logs_chronological_iff` says when that is the order in which they
were written.
-/

namespace Evobench.Run

open Library SerdeTypes

/-- What can go wrong. -/
inductive LogError where
  /-- working directory path doesn't have parent path -/
  | noParentPath
  /-- working directory path doesn't have file_name -/
  | noFileName
  /-- working directory path does not have a file name in unicode -/
  | notUnicode
  /-- opening working directory parent dir for reading -/
  | opening (parentPath : Path (Char ⊕ UInt8)) (e : String)

/-- `STANDARD_LOG_EXTENSION_BASE` -/
def standardLogExtensionBase : List Char := "output_of_benchmarking_command_at_".toList

/-- `parent_path_and_id` -/
def parentPathAndId (p : Path (Char ⊕ UInt8)) : Except LogError (Path (Char ⊕ UInt8) × List Char) :=
  match p.parent with
  | none => .error .noParentPath
  | some parent =>
    match p.fileName with
    | none => .error .noFileName
    | some fileName =>
      match OsString.toStr fileName.text with
      | none => .error .notUnicode
      | some fileName => .ok (parent, fileName)

/-- What the start of the name of a log file is for. -/
def logNameStart (idStr : List Char) : List Char := idStr ++ '.' :: standardLogExtensionBase

/-- `strip_prefix` -/
def stripStart (start cs : List Char) : Option (List Char) := if start <+: cs then some (cs.drop start.length) else none

/-- The entries of a directory that are log files, with their timestamps. -/
def logEntries (parent : Path (Char ⊕ UInt8)) (start : List Char) :
    List (Except String (FileName (Char ⊕ UInt8))) → Except String (List (Path (Char ⊕ UInt8) × List Char))
  | [] => .ok []
  | item :: items => do
    let name ← item
    let paths ← logEntries parent start items
    match (OsString.toStr name.text).bind (stripStart start) with
    | some timestamp => pure ((parent.child name, timestamp) :: paths)
    | none => pure paths

/-- How directories are read: the entries in some order, unless there is an error. -/
abbrev ReadDir := Path (Char ⊕ UInt8) → Except String (List (Except String (FileName (Char ⊕ UInt8))))

/-- `standard_log_paths` -/
def standardLogPaths (readDir : ReadDir) (p : Path (Char ⊕ UInt8)) :
    Except LogError (List (Path (Char ⊕ UInt8) × List Char)) := do
  let (parent, idStr) ← parentPathAndId p
  let paths ← (readDir parent >>= logEntries parent (logNameStart idStr)).mapError (.opening parent)
  pure (paths.insertionSort fun a b => a.2 ≤ b.2)

/-- `last_standard_log_path` -/
def lastStandardLogPath (readDir : ReadDir) (p : Path (Char ⊕ UInt8)) :
    Except LogError (Option (Path (Char ⊕ UInt8) × List Char)) := do
  let paths ← standardLogPaths readDir p
  pure paths.getLast?

/-! ### Sorted lists -/

section Sorted

variable {α : Type} {before le : α → α → Prop}

/-- A list without a later element before an earlier one is in another order if that is the order of all its elements that do
not come after each other. -/
theorem pairwise_iff_of_sorted {l : List α} (hsorted : l.Pairwise fun a b => ¬ before b a) (hrefl : ∀ a, le a a)
    (heq : ∀ a ∈ l, ∀ b ∈ l, ¬ before a b → ¬ before b a → a = b) :
    l.Pairwise le ↔ ∀ a ∈ l, ∀ b ∈ l, ¬ before b a → le a b := by
  constructor
  · intro hpairwise a ha b hb hnot
    obtain ⟨i, hi, rfl⟩ := List.getElem_of_mem ha
    obtain ⟨j, hj, rfl⟩ := List.getElem_of_mem hb
    rcases lt_trichotomy i j with hlt | rfl | hgt
    · exact List.pairwise_iff_getElem.1 hpairwise i j hi hj hlt
    · exact hrefl _
    · -- The other way round: then the two are the same.
      have hnot' := List.pairwise_iff_getElem.1 hsorted j i hj hi hgt
      rw [heq _ ha _ hb hnot' hnot]
      exact hrefl _
  · intro hall
    exact hsorted.imp_of_mem fun ha hb hnot => hall _ ha _ hb hnot

/-- The last element does not come before any other. -/
theorem not_before_of_getLast {l : List α} (hsorted : l.Pairwise fun a b => ¬ before b a) (hirrefl : ∀ a, ¬ before a a)
    {last a : α} (hlast : l.getLast? = some last) (ha : a ∈ l) : ¬ before last a := by
  obtain ⟨front, rfl⟩ := List.getLast?_eq_some_iff.1 hlast
  rcases List.mem_append.1 ha with ha | ha
  · exact (List.pairwise_append.1 hsorted).2.2 a ha last (List.mem_singleton.2 rfl)
  · rw [List.mem_singleton.1 ha]
    exact hirrefl last

end Sorted

/-! ### The order of the logs -/

section Chronological

variable {chrono : Chrono} (form : Rfc3339Form chrono)

theorem sorted_of_standardLogPaths {readDir : ReadDir} {p : Path (Char ⊕ UInt8)}
    {paths : List (Path (Char ⊕ UInt8) × List Char)} (h : standardLogPaths readDir p = .ok paths) :
    paths.Pairwise fun a b => a.2 ≤ b.2 := by
  obtain ⟨parent, -, h⟩ := except_bind_eq_ok.1 h
  obtain ⟨entries, -, h⟩ := except_bind_eq_ok.1 h
  obtain rfl := Except.ok.inj h
  exact List.pairwise_insertionSort _ entries

/-- The instant that a point in time denotes. -/
def instantOf (a : DateTimeWithOffset chrono) : ℤ ×ₗ ℕ := (a.fields form).instant

/-- The points in time that the timestamps are the texts of are listed in the order of the texts. -/
theorem sorted_stamps {readDir : ReadDir} {p : Path (Char ⊕ UInt8)} {paths : List (Path (Char ⊕ UInt8) × List Char)}
    (h : standardLogPaths readDir p = .ok paths) {stamps : List (DateTimeWithOffset chrono)}
    (hstamps : paths.map Prod.snd = stamps.map fun a => a.text.toList) : stamps.Pairwise fun a b => ¬ b < a := by
  have hsorted : (paths.map Prod.snd).Pairwise (· ≤ ·) := List.pairwise_map.2 (sorted_of_standardLogPaths h)
  rw [hstamps, List.pairwise_map] at hsorted
  refine hsorted.imp fun {a b} hle hlt => ?_
  have hlt : b.text < a.text := hlt
  rw [String.lt_iff_toList_lt] at hlt
  exact absurd hle (not_le.2 hlt)

/-- Texts that are not in order are the same. -/
theorem eq_of_not_lt {a b : DateTimeWithOffset chrono} (hab : ¬ a < b) (hba : ¬ b < a) : a = b := by
  refine DateTimeWithOffset.ext (String.toList_inj.1 (le_antisymm (not_lt.1 fun h => hba ?_) (not_lt.1 fun h => hab ?_)))
  · exact String.lt_iff_toList_lt.2 h
  · exact String.lt_iff_toList_lt.2 h

/-- The logs of a set of points in time agree with the clocks exactly if later texts are not those of earlier instants. -/
theorem forall_clockAgrees_iff {stamps : List (DateTimeWithOffset chrono)} :
    (∀ a ∈ stamps, ∀ b ∈ stamps, (a.fields form).ClockAgrees (b.fields form)) ↔
      ∀ a ∈ stamps, ∀ b ∈ stamps, ¬ b < a → instantOf form a ≤ instantOf form b := by
  constructor
  · intro hall a ha b hb hnot
    rw [DateTimeWithOffset.lt_iff form] at hnot
    exact (Rfc3339.le_of_text_lt_iff hnot).2 (hall a ha b hb)
  · intro hall a ha b hb
    by_cases hnot : b < a
    · -- Then the other way round, and the offsets at one time on the clock are symmetric.
      have hle := hall b hb a ha (fun hlt => (lt_asymm (String.lt_iff_toList_lt.1 hlt) (String.lt_iff_toList_lt.1 hnot)))
      have hnot' : ¬ (a.fields form).text < (b.fields form).text := by
        rw [DateTimeWithOffset.lt_iff form] at hnot
        exact lt_asymm hnot
      have hagrees := (Rfc3339.le_of_text_lt_iff hnot').1 hle
      rw [DateTimeWithOffset.lt_iff form, Rfc3339.text_lt_iff] at hnot
      refine ⟨fun hreading => ?_, fun hreading => ?_⟩
      · rcases hnot with hlt | ⟨heq, -⟩
        · exact absurd hreading hlt.not_gt
        · exact absurd hreading heq.not_gt
      · rcases hagrees.2 hreading.symm with h | h | h
        · exact .inl h.symm
        · exact .inr (.inr h)
        · exact .inr (.inl h)
    · have hle := hall a ha b hb hnot
      rw [DateTimeWithOffset.lt_iff form] at hnot
      exact (Rfc3339.le_of_text_lt_iff hnot).1 hle

/-- **When points in time are in chronological order**: two of them exactly if what is read on the clock, and at one time on
the clock the offset, are in the order of the instants; the list of the logs of a working directory if that holds between all of
them; and its last entry is the newest one if that holds between it and all others. -/
theorem logs_chronological_iff (chrono : Chrono) (form : Rfc3339Form chrono) :
    (∀ a b : DateTimeWithOffset chrono,
        (a < b ↔ instantOf form a < instantOf form b) ↔ (a.fields form).OrderAgrees (b.fields form)) ∧
      ∀ (readDir : ReadDir) (p : Path (Char ⊕ UInt8)) (paths : List (Path (Char ⊕ UInt8) × List Char))
        (stamps : List (DateTimeWithOffset chrono)), standardLogPaths readDir p = .ok paths →
        (paths.map Prod.snd = stamps.map fun a => a.text.toList) →
        (stamps.Pairwise (fun a b => instantOf form a ≤ instantOf form b) ↔
            ∀ a ∈ stamps, ∀ b ∈ stamps, (a.fields form).ClockAgrees (b.fields form)) ∧
          lastStandardLogPath readDir p = .ok paths.getLast? ∧
          ∀ newest, stamps.getLast? = some newest →
            ((∀ a ∈ stamps, instantOf form a ≤ instantOf form newest) ↔
              ∀ a ∈ stamps, (a.fields form).ClockAgrees (newest.fields form)) := by
  refine ⟨fun a b => ?_, fun readDir p paths stamps h hstamps => ⟨?_, ?_, fun newest hlast => ?_⟩⟩
  · rw [DateTimeWithOffset.lt_iff form]
    exact Rfc3339.order_agrees_iff _ _
  · rw [forall_clockAgrees_iff]
    exact pairwise_iff_of_sorted (sorted_stamps h hstamps) (fun a => le_refl _)
      fun a _ b _ hab hba => eq_of_not_lt hab hba
  · rw [lastStandardLogPath, h]
    rfl
  · have hbefore : ∀ a ∈ stamps, ¬ (newest.fields form).text < (a.fields form).text := by
      intro a ha
      rw [← DateTimeWithOffset.lt_iff form]
      exact not_before_of_getLast (sorted_stamps h hstamps) (fun a => String.lt_irrefl _) hlast ha
    exact forall₂_congr fun a ha => Rfc3339.le_of_text_lt_iff (hbefore a ha)

end Chronological

/-! ### The night in which the clocks go back -/

/-- Ten to three on 25 October 2026, before the clocks go back from three to two. -/
def summerTime : Rfc3339 :=
  ⟨2026, 10, 25, 2, 50, 0, 0, 120, by decide, by decide, by decide, by decide⟩

/-- Ten past two in the same night, twenty minutes later. -/
def winterTime : Rfc3339 :=
  ⟨2026, 10, 25, 2, 10, 0, 0, 60, by decide, by decide, by decide, by decide⟩

/-- Noon of the same day. -/
def noonTime : Rfc3339 :=
  ⟨2026, 10, 25, 12, 0, 0, 0, 60, by decide, by decide, by decide, by decide⟩

/-- A library that knows these three points in time. -/
def nightChrono : Chrono where
  DateTime := Rfc3339
  parseFromRfc3339 s := [summerTime, winterTime, noonTime].find? fun t => String.ofList t.text == s
  toRfc3339 t := String.ofList t.text
  parse_toRfc3339 s t h := by
    have heq := List.find?_some h
    rwa [show String.ofList t.text = s from by simpa using heq]
  colon_of_parse s t h := by
    have hall : ∀ t ∈ [summerTime, winterTime, noonTime], ':' ∈ t.text := by decide +kernel
    have heq := List.find?_some h
    rw [← show String.ofList t.text = s from by simpa using heq, String.toList_ofList]
    exact hall t (List.mem_of_find?_eq_some h)
  noSlash_of_parse s t h := by
    have hall : ∀ t ∈ [summerTime, winterTime, noonTime], '/' ∉ t.text := by decide +kernel
    have heq := List.find?_some h
    rw [← show String.ofList t.text = s from by simpa using heq, String.toList_ofList]
    exact hall t (List.mem_of_find?_eq_some h)
  noEquals_of_parse s t h := by
    have hall : ∀ t ∈ [summerTime, winterTime, noonTime], '=' ∉ t.text := by decide +kernel
    have heq := List.find?_some h
    rw [← show String.ofList t.text = s from by simpa using heq, String.toList_ofList]
    exact hall t (List.mem_of_find?_eq_some h)

instance : DecidableEq nightChrono.DateTime := inferInstanceAs (DecidableEq Rfc3339)

/-- It writes the fields. -/
def nightForm : Rfc3339Form nightChrono := ⟨fun t => t, fun _ _ _ => rfl⟩

/-- The point in time before the clocks go back. -/
def summerStamp : DateTimeWithOffset nightChrono :=
  ⟨"2026-10-25T02:50:00+02:00", summerTime, by decide +kernel, by decide +kernel⟩

/-- The one after that. -/
def winterStamp : DateTimeWithOffset nightChrono :=
  ⟨"2026-10-25T02:10:00+01:00", winterTime, by decide +kernel, by decide +kernel⟩

/-- The one at noon. -/
def noonStamp : DateTimeWithOffset nightChrono := ⟨"2026-10-25T12:00:00+01:00", noonTime, by decide +kernel, by decide +kernel⟩

/-- The name of a file. -/
def logFileName (timestamp : List Char) : List Char := logNameStart "5".toList ++ timestamp

/-- The working directory 5. -/
def wdPath : Path (Char ⊕ UInt8) :=
  ⟨.root, [.normal ⟨OsString.ofChars "pool".toList, by decide⟩, .normal ⟨OsString.ofChars "5".toList, by decide⟩]⟩

/-- The log from before the clocks go back. -/
def summerLog : FileName (Char ⊕ UInt8) := ⟨OsString.ofChars (logFileName summerStamp.text.toList), by decide +kernel⟩

/-- The log from after that. -/
def winterLog : FileName (Char ⊕ UInt8) := ⟨OsString.ofChars (logFileName winterStamp.text.toList), by decide +kernel⟩

/-- The log from noon. -/
def noonLog : FileName (Char ⊕ UInt8) := ⟨OsString.ofChars (logFileName noonStamp.text.toList), by decide +kernel⟩

/-- The pool directory, with two logs and the status file. -/
def readNight (log log' : FileName (Char ⊕ UInt8)) : ReadDir := fun _ =>
  .ok [.ok log, .ok ⟨OsString.ofChars "5.status".toList, by decide⟩, .ok log']

/-- The path to a file in the pool directory. -/
def inPool (log : FileName (Char ⊕ UInt8)) : Path (Char ⊕ UInt8) :=
  (⟨.root, [.normal ⟨OsString.ofChars "pool".toList, by decide⟩]⟩ : Path (Char ⊕ UInt8)).child log

theorem fields_stamps : summerStamp.fields nightForm = summerTime ∧ winterStamp.fields nightForm = winterTime ∧
    noonStamp.fields nightForm = noonTime := by decide +kernel

/-- Two logs with the same offset. -/
theorem logs_chronological_sample :
    [winterStamp, noonStamp].Pairwise fun a b => instantOf nightForm a ≤ instantOf nightForm b := by
  have hpaths : standardLogPaths (readNight noonLog winterLog) wdPath =
      .ok [(inPool winterLog, winterStamp.text.toList), (inPool noonLog, noonStamp.text.toList)] := by
    rfl
  refine ((logs_chronological_iff nightChrono nightForm).2 _ _ _ [winterStamp, noonStamp] hpaths rfl).1.2 ?_
  have hoffset : ∀ a ∈ [winterStamp, noonStamp], (a.fields nightForm).offset = 60 := by decide +kernel
  intro a ha b hb
  exact Rfc3339.clockAgrees_of_offset_eq ((hoffset a ha).trans (hoffset b hb).symm)

/-- The log from before the clocks go back is the older one, but it is listed last. -/
theorem logs_not_chronological :
    instantOf nightForm summerStamp < instantOf nightForm winterStamp ∧ ¬ summerStamp < winterStamp ∧
      lastStandardLogPath (readNight summerLog winterLog) wdPath = .ok (some (inPool summerLog, summerStamp.text.toList)) := by
  refine ⟨?_, ?_, rfl⟩
  · rw [instantOf, instantOf, fields_stamps.1, fields_stamps.2.1, Rfc3339.instant, Rfc3339.instant,
      Prod.Lex.toLex_lt_toLex]
    left
    simp only [Rfc3339.clockSeconds, summerTime, winterTime]
    omega
  · show ¬ "2026-10-25T02:50:00+02:00" < "2026-10-25T02:10:00+01:00"
    decide

end Evobench.Run

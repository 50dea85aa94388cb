import Evobench.Library.Paths
import Mathlib.Data.Sum.Basic

/-!
# Names of files

The names of files and the segments of paths, as the system has them: a name may contain bytes that are no part of a character,
and then it is no text (`toStr`).
-/

namespace Evobench.Run

open Library

/-- The name of a file: characters, and bytes that are no part of a character. -/
abbrev OsString := List (Char ⊕ UInt8)

instance : PathChar (Char ⊕ UInt8) := ⟨.inl '/', .inl '.'⟩

namespace OsString

/-- The name that consists of these characters. -/
def ofChars (cs : List Char) : OsString := cs.map Sum.inl

/-- `to_str` -/
def toStr (name : OsString) : Option (List Char) := name.mapM Sum.getLeft?

theorem toStr_ofChars (cs : List Char) : toStr (ofChars cs) = some cs := by
  induction cs with
  | nil => rfl
  | cons c cs ih =>
    rw [toStr, ofChars] at ih
    rw [toStr, ofChars, List.map_cons, List.mapM_cons, ih]
    rfl

theorem eq_ofChars_of_toStr {name : OsString} {cs : List Char} (h : name.toStr = some cs) : name = ofChars cs := by
  induction name generalizing cs with
  | nil =>
    obtain rfl := Option.some.inj h
    rfl
  | cons x name ih =>
    rw [toStr, List.mapM_cons] at h
    obtain ⟨c, hc, h⟩ := Option.bind_eq_some_iff.1 h
    obtain ⟨cs', hcs, h⟩ := Option.bind_eq_some_iff.1 h
    obtain rfl := Option.some.inj h
    cases x with
    | inl c' =>
      obtain rfl := Option.some.inj hc
      rw [ih hcs]
      rfl
    | inr b => cases hc

theorem toStr_eq_some_iff {name : OsString} {cs : List Char} : name.toStr = some cs ↔ name = ofChars cs := by
  refine ⟨eq_ofChars_of_toStr, ?_⟩
  rintro rfl
  exact toStr_ofChars cs

theorem ofChars_injective : Function.Injective ofChars := List.map_injective_iff.2 Sum.inl_injective

/-- Which texts can be the name of a file. -/
theorem isFileName_ofChars {cs : List Char} :
    IsFileName (ofChars cs) ↔ cs ≠ [] ∧ cs ≠ ['.'] ∧ cs ≠ ['.', '.'] ∧ '/' ∉ cs := by
  have hdot : ofChars cs ≠ [PathChar.dot] ↔ cs ≠ ['.'] := ofChars_injective.ne_iff (y := ['.'])
  have hdots : ofChars cs ≠ [PathChar.dot, PathChar.dot] ↔ cs ≠ ['.', '.'] := ofChars_injective.ne_iff (y := ['.', '.'])
  have hslash : PathChar.slash ∉ ofChars cs ↔ '/' ∉ cs := by
    rw [ofChars, show (PathChar.slash : Char ⊕ UInt8) = Sum.inl '/' from rfl, List.mem_map_of_injective Sum.inl_injective]
  rw [IsFileName, hdot, hdots, hslash, ofChars, ne_eq, List.map_eq_nil_iff]

theorem isFileName_of_mem {cs : List Char} {c : Char} (hc : c ∈ cs) (hdot : c ≠ '.') (hslash : '/' ∉ cs) :
    IsFileName (ofChars cs) := by
  rw [isFileName_ofChars]
  refine ⟨List.ne_nil_of_mem hc, ?_, ?_, hslash⟩
  · rintro rfl
    exact hdot (List.mem_singleton.1 hc)
  · rintro rfl
    simp [hdot] at hc

end OsString

end Evobench.Run

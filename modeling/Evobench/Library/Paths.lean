import Mathlib.Data.List.Basic
import Mathlib.Data.List.TakeDrop

/-!
# Paths

Paths of a Unix system, over any alphabet that has a slash and a dot: where a path starts, and the steps from there. That is
how paths are compared: several slashes in a row, slashes at the end and single dots inside make no difference.

The operations are those on the end of a path: `push`, `fileName`, `parent`, `isTop`. A path that ends with the name of a file
is `p.child name`; `push_eq_child` says when pushing a text is adding one name.
-/

namespace Library

/-- The characters that have a meaning in paths. -/
class PathChar (α : Type) where
  /-- Between the steps. -/
  slash : α
  /-- One of them is the same directory, two of them are the parent directory. -/
  dot : α

open PathChar

variable {α : Type} [PathChar α]

/-- What can be the name of a file. -/
def IsFileName (text : List α) : Prop := text ≠ [] ∧ text ≠ [dot] ∧ text ≠ [dot, dot] ∧ slash ∉ text

instance [DecidableEq α] : DecidablePred (IsFileName (α := α)) := fun text => by
  unfold IsFileName
  infer_instance

variable (α) in
/-- The name of a file. -/
structure FileName where
  /-- The characters. -/
  text : List α
  /-- It can be the name of a file. -/
  valid : IsFileName text
deriving DecidableEq

theorem FileName.ext {a b : FileName α} (h : a.text = b.text) : a = b := by
  cases a
  cases b
  cases h
  rfl

variable (α) in
/-- A step of a path. -/
inductive Step where
  /-- `..` -/
  | parentDir
  /-- To a file in the directory. -/
  | normal (name : FileName α)
deriving DecidableEq

/-- Where a path starts. -/
inductive PathStart where
  /-- At the root. -/
  | root
  /-- At the current directory, which is written down as `.`. -/
  | curDir
  /-- At the current directory. -/
  | relative
deriving DecidableEq

variable (α) in
/-- A path. -/
@[ext] structure Path where
  /-- Where it starts. -/
  start : PathStart
  /-- The steps from there. -/
  steps : List (Step α)
deriving DecidableEq

namespace Path

/-- The path to a file in this directory. -/
def child (p : Path α) (name : FileName α) : Path α := { p with steps := p.steps ++ [.normal name] }

/-- `file_name` -/
def fileName (p : Path α) : Option (FileName α) :=
  match p.steps.getLast? with
  | some (.normal name) => some name
  | _ => none

/-- `parent` -/
def parent (p : Path α) : Option (Path α) :=
  if p.steps.isEmpty then
    match p.start with
    | .curDir => some ⟨.relative, []⟩
    | _ => none
  else some { p with steps := p.steps.dropLast }

/-- The path is the root or empty. -/
def isTop (p : Path α) : Bool := p.steps.isEmpty && p.start ≠ .curDir

@[simp] theorem fileName_child (p : Path α) (name : FileName α) : (p.child name).fileName = some name := by
  simp [fileName, child]

@[simp] theorem parent_child (p : Path α) (name : FileName α) : (p.child name).parent = some p := by
  simp [parent, child]

@[simp] theorem isTop_child (p : Path α) (name : FileName α) : (p.child name).isTop = false := by
  simp [isTop, child]

theorem child_injective {p q : Path α} {name name' : FileName α} (h : p.child name = q.child name') : p = q ∧ name = name' := by
  have hparent := congrArg parent h
  have hname := congrArg fileName h
  simp only [parent_child, fileName_child, Option.some.injEq] at hparent hname
  exact ⟨hparent, hname⟩

/-- A path with a file name ends with it. -/
theorem eq_child {p : Path α} {name : FileName α} (h : p.fileName = some name) : ∃ q : Path α, p = q.child name := by
  rw [fileName] at h
  split at h
  · next name' hlast =>
    obtain rfl := Option.some.inj h
    obtain ⟨steps, hsteps⟩ := List.getLast?_eq_some_iff.1 hlast
    exact ⟨⟨p.start, steps⟩, Path.ext rfl hsteps⟩
  · cases h

/-- Where the parent of a path with a file name is. -/
theorem length_parent_lt {p q : Path α} {name : FileName α} (hname : p.fileName = some name) (hparent : p.parent = some q) :
    q.steps.length < p.steps.length := by
  obtain ⟨q', rfl⟩ := eq_child hname
  obtain rfl := Option.some.inj ((parent_child q' name).symm.trans hparent)
  simp [child]

/-- **Going up a path**: to paths without a file name from the others. -/
@[elab_as_elim]
theorem upwards {P : Path α → Prop} (other : ∀ p, fileName p = none → P p) (child : ∀ p name, P p → P (p.child name))
    (p : Path α) : P p := by
  generalize hn : p.steps.length = n
  induction n using Nat.strongRecOn generalizing p with
  | ind n ih =>
    cases hname : p.fileName with
    | none => exact other p hname
    | some name =>
      obtain ⟨q, rfl⟩ := eq_child hname
      apply child
      subst hn
      exact ih q.steps.length (length_parent_lt hname (parent_child q name)) q rfl

/-! ### Texts -/

section Text

variable [DecidableEq α]

/-- The step for what is between two slashes, if there is one. -/
def step? (piece : List α) : Option (Step α) :=
  if piece = [dot, dot] then some .parentDir
  else if h : IsFileName piece then some (.normal ⟨piece, h⟩)
  else none

/-- The path that is written so. -/
def ofText (text : List α) : Path α where
  start :=
    if text.head? = some slash then .root
    else if (text.splitOn slash).head? = some [dot] then .curDir
    else .relative
  steps := (text.splitOn slash).filterMap step?

/-- `push`: a path that starts at the root replaces the old one -/
def push (p : Path α) (text : List α) : Path α :=
  let q := ofText text
  if q.start = .root ∨ p.start = .relative ∧ p.steps.isEmpty then q else { p with steps := p.steps ++ q.steps }

/-- `extension`: what is after the last dot of the file name, if there is something before it -/
def extension (p : Path α) : Option (List α) := do
  let name ← p.fileName
  match name.text.reverse.span (· ≠ dot) with
  | (_, []) => none
  | (after, _ :: before) => if before.isEmpty then none else some after.reverse

theorem ofText_of_isFileName {text : List α} (h : IsFileName text) : ofText text = ⟨.relative, [.normal ⟨text, h⟩]⟩ := by
  obtain ⟨hne, hdot, hdots, hslash⟩ := id h
  have hsplit : text.splitOn slash = [text] := List.splitOn_eq_singleton hslash
  have hhead : text.head? ≠ some slash := fun hhead => hslash (List.mem_of_head? hhead)
  have hcur : [text].head? ≠ some [dot] := by
    simpa using hdot
  have hstep : step? text = some (.normal ⟨text, h⟩) := by
    rw [step?, if_neg hdots, dif_pos h]
  rw [ofText, hsplit, if_neg hhead, if_neg hcur, List.filterMap_cons_some hstep, List.filterMap_nil]

/-- Pushing what can be the name of a file adds that name. -/
theorem push_eq_child (p : Path α) {text : List α} (h : IsFileName text) : p.push text = p.child ⟨text, h⟩ := by
  rw [push, ofText_of_isFileName h]
  split
  · next hstart =>
    obtain hroot | ⟨hrelative, hempty⟩ := hstart
    · cases hroot
    · rw [child, List.isEmpty_iff.1 hempty, hrelative, List.nil_append]
  · rfl

/-- The extension is what is after the last dot. -/
theorem extension_child {p : Path α} {name : FileName α} {before after : List α} (htext : name.text = before ++ dot :: after)
    (hbefore : before ≠ []) (hafter : dot ∉ after) : (p.child name).extension = some after := by
  have hne : ∀ x ∈ after.reverse, decide (x ≠ dot) = true := by
    intro x hx
    rw [decide_eq_true_eq]
    rintro rfl
    exact hafter (List.mem_reverse.1 hx)
  have hspan : name.text.reverse.span (fun x => decide (x ≠ dot)) = (after.reverse, dot :: before.reverse) := by
    rw [htext, List.reverse_append, List.reverse_cons, List.append_assoc, List.span_eq_takeWhile_dropWhile,
      List.takeWhile_append_of_pos hne, List.dropWhile_append_of_pos hne]
    simp
  rw [extension, fileName_child]
  show (match name.text.reverse.span (fun x => decide (x ≠ dot)) with
    | (_, []) => none
    | (after, _ :: before) => if before.isEmpty then none else some after.reverse) = some after
  rw [hspan]
  simp [hbefore]

end Text

end Path

end Library

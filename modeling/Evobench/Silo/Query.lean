import Mathlib

/-!
# Filter expressions of queries

`FilterExpression::optimize` drops nodes with a single child, merges an `Or` into an `Or` and an `And` into an `And` that it
is directly in, and cancels double negations.

## The model

* `FilterExpression`, `optimize`: as in the source. `optimizeAll` is for the children of a node.
* `eval`: the meaning of an expression, by the meaning of its leafs.
* `Junction`: what is said of `Or` and of `And` is said once, of a `node` of either kind.

## What is proved

* `eval_optimize`: the meaning stays.
-/

namespace Evobench.Silo

/-! ### The source -/

/-- `DayDate` -/
structure DayDate where
  /-- The text. -/
  day : String
deriving DecidableEq

/-- `Column` -/
structure Column where
  /-- The name. -/
  name : String
deriving DecidableEq

/-- A floating point number that is not NaN. -/
structure N64 where
  /-- The number. -/
  val : Float
  /-- It is a number. -/
  not_nan : val.isNaN = false

/-- `FilterExpression` -/
inductive FilterExpression where
  /-- One of the children is true. -/
  | or (children : List FilterExpression)
  /-- All children are true. -/
  | and (children : List FilterExpression)
  /-- The child is not true. -/
  | not (child : FilterExpression)
  /-- Some number of the children are true. -/
  | nOf (children : List FilterExpression) (matchExactly : Bool) (numberOfMatchers : ℕ)
  /-- A date is in a range. -/
  | dateBetween (dateFrom dateTo : Option DayDate) (column : Column)
  /-- It is of a lineage. -/
  | lineage (column : Column) (includeSublineages : Bool) (value : String)
  /-- A column has a value. -/
  | stringEquals (column : Column) (value : String)
  /-- Always. -/
  | true_
  /-- A nucleotide at a position. -/
  | nucleotideEquals (symbol : String) (position : ℕ)
  /-- A mutation of a nucleotide at a position. -/
  | hasNucleotideMutation (position : ℕ)
  /-- A mutation of an amino acid at a position. -/
  | hasAminoAcidMutation (position : ℕ) (sequenceName : String)
  /-- A number is in a range. -/
  | floatBetween (column : Column) (numberFrom numberTo : N64)
  /-- An insertion of amino acids contains a value. -/
  | aminoAcidInsertionContains (position : ℕ) (sequenceName value : String)
  /-- An amino acid at a position. -/
  | aminoAcidEquals (position : ℕ) (sequenceName symbol : String)

namespace FilterExpression

/-- `is_not` -/
def isNot : FilterExpression → Option FilterExpression
  | not child => some child
  | _ => none

/-- `is_or` -/
def isOr : FilterExpression → Option (List FilterExpression)
  | or children => some children
  | _ => none

/-- `is_and` -/
def isAnd : FilterExpression → Option (List FilterExpression)
  | and children => some children
  | _ => none

/-- The children of an optimized child, if it is a node of the same kind, or the child itself. -/
def subchildren (isNode : FilterExpression → Option (List FilterExpression)) (child : FilterExpression) :
    List FilterExpression :=
  (isNode child).getD [child]

mutual

/-- `optimize` -/
def optimize : FilterExpression → FilterExpression
  | or [child] => child.optimize
  | or children => or ((optimizeAll children).flatMap (subchildren isOr))
  | and [child] => child.optimize
  | and children => and ((optimizeAll children).flatMap (subchildren isAnd))
  | not child => (isNot child.optimize).getD (not child.optimize)
  | nOf children matchExactly numberOfMatchers => nOf (optimizeAll children) matchExactly numberOfMatchers
  | e => e

/-- All children are optimized. -/
def optimizeAll : List FilterExpression → List FilterExpression
  | [] => []
  | child :: children => child.optimize :: optimizeAll children

end

/-! ### Meaning -/

mutual

/-- What an expression says of a record, if `interp` is what the leafs say. -/
def eval (interp : FilterExpression → Bool) : FilterExpression → Bool
  | or children => (evalAll interp children).any id
  | and children => (evalAll interp children).all id
  | not child => !child.eval interp
  | nOf children matchExactly numberOfMatchers =>
    if matchExactly then (evalAll interp children).count true == numberOfMatchers
    else decide (numberOfMatchers ≤ (evalAll interp children).count true)
  | e => interp e

/-- What the children say. -/
def evalAll (interp : FilterExpression → Bool) : List FilterExpression → List Bool
  | [] => []
  | child :: children => child.eval interp :: evalAll interp children

end

/-! ### Induction -/

/-- The expressions without children. -/
def IsLeaf : FilterExpression → Prop
  | or _ | and _ | not _ | nOf _ _ _ => False
  | _ => True

/-- The two kinds of nodes that are merged. -/
inductive Junction where
  /-- `Or` -/
  | or
  /-- `And` -/
  | and
deriving DecidableEq

/-- A node of some kind. -/
def node : Junction → List FilterExpression → FilterExpression
  | .or => or
  | .and => and

/-- The children of a node of some kind. -/
def isNode : Junction → FilterExpression → Option (List FilterExpression)
  | .or => isOr
  | .and => isAnd

/-- **Induction** on an expression. -/
theorem induction {P : FilterExpression → Prop} (hnode : ∀ op children, (∀ child ∈ children, P child) → P (node op children))
    (hnot : ∀ child, P child → P (not child)) (hnOf : ∀ children matchExactly numberOfMatchers, (∀ child ∈ children, P child) →
      P (nOf children matchExactly numberOfMatchers)) (hleaf : ∀ e, IsLeaf e → P e) : ∀ e, P e
  | or children => hnode .or children fun child _ => induction hnode hnot hnOf hleaf child
  | and children => hnode .and children fun child _ => induction hnode hnot hnOf hleaf child
  | not child => hnot child (induction hnode hnot hnOf hleaf child)
  | nOf children matchExactly numberOfMatchers =>
    hnOf children matchExactly numberOfMatchers fun child _ => induction hnode hnot hnOf hleaf child
  | dateBetween _ _ _ | lineage _ _ _ | stringEquals _ _ | true_ | nucleotideEquals _ _ | hasNucleotideMutation _
  | hasAminoAcidMutation _ _ | floatBetween _ _ _ | aminoAcidInsertionContains _ _ _ | aminoAcidEquals _ _ _ => hleaf _ trivial

theorem optimizeAll_eq (children : List FilterExpression) : optimizeAll children = children.map optimize := by
  induction children with
  | nil => rfl
  | cons child children ih => rw [optimizeAll, ih, List.map_cons]

theorem evalAll_eq (interp : FilterExpression → Bool) (children : List FilterExpression) :
    evalAll interp children = children.map (eval interp) := by
  induction children with
  | nil => rfl
  | cons child children ih => rw [evalAll, ih, List.map_cons]

section Equations

variable {op : Junction} {e child : FilterExpression} {children : List FilterExpression} {interp : FilterExpression → Bool}

@[simp] theorem isNode_node : isNode op (node op children) = some children := by
  cases op with
  | or => rfl
  | and => rfl

theorem eq_node_of_isNode (h : isNode op e = some children) : e = node op children := by
  cases op with
  | or => cases e <;> first | (cases h; rfl) | cases h
  | and => cases e <;> first | (cases h; rfl) | cases h

theorem optimize_node_singleton (op : Junction) (child : FilterExpression) : (node op [child]).optimize = child.optimize := by
  cases op with
  | or => rfl
  | and => rfl

/-- A node with no or with several children. -/
theorem optimize_node (h : children.length ≠ 1) :
    (node op children).optimize = node op ((children.map optimize).flatMap (subchildren (isNode op))) := by
  rcases children with _ | ⟨child, _ | ⟨child', rest⟩⟩
  · cases op with
    | or => rfl
    | and => rfl
  · exact absurd rfl h
  · rw [← optimizeAll_eq]
    cases op with
    | or => rfl
    | and => rfl

theorem optimize_nOf (matchExactly : Bool) (numberOfMatchers : ℕ) :
    (nOf children matchExactly numberOfMatchers).optimize = nOf (children.map optimize) matchExactly numberOfMatchers := by
  rw [← optimizeAll_eq]
  rfl

theorem optimize_of_isLeaf (h : IsLeaf e) : e.optimize = e := by
  cases e <;> first | rfl | cases h

end Equations

/-! ### The meaning stays -/

section Eval

variable {interp : FilterExpression → Bool}

/-- What a node says, by what its children say. -/
def combine : Junction → List Bool → Bool
  | .or, bs => bs.any id
  | .and, bs => bs.all id

theorem eval_node (interp : FilterExpression → Bool) (op : Junction) (children : List FilterExpression) :
    (node op children).eval interp = combine op (children.map (eval interp)) := by
  rw [← evalAll_eq]
  cases op with
  | or => rfl
  | and => rfl

@[simp] theorem combine_singleton (op : Junction) (b : Bool) : combine op [b] = b := by
  cases op with
  | or => simp [combine]
  | and => simp [combine]

/-- What is merged may be said by itself. -/
theorem combine_append (op : Junction) (bs bs' : List Bool) :
    combine op (bs ++ bs') = combine op [combine op bs, combine op bs'] := by
  cases op with
  | or => simp [combine]
  | and => simp [combine]

theorem combine_subchildren (interp : FilterExpression → Bool) (op : Junction) (child : FilterExpression) :
    combine op ((subchildren (isNode op) child).map (eval interp)) = child.eval interp := by
  rw [subchildren]
  cases h : isNode op child with
  | none => simp
  | some children =>
    rw [eq_node_of_isNode h, eval_node]
    rfl

theorem combine_flatMap_subchildren (interp : FilterExpression → Bool) (op : Junction) (children : List FilterExpression) :
    combine op ((children.flatMap (subchildren (isNode op))).map (eval interp)) = combine op (children.map (eval interp)) := by
  induction children with
  | nil => rfl
  | cons child children ih =>
    have hcons (bs : List Bool) : combine op (child.eval interp :: bs) = combine op [child.eval interp, combine op bs] := by
      rw [← List.singleton_append, combine_append, combine_singleton]
    rw [List.flatMap_cons, List.map_append, combine_append, combine_subchildren, ih, List.map_cons,
      hcons (children.map (eval interp))]

/-- An optimized child, without its negation if it is one. -/
theorem eval_optimize_not (child : FilterExpression) :
    (optimize (not child)).eval interp = !child.optimize.eval interp := by
  rw [optimize]
  cases h : child.optimize with
  | not child' => simp [isNot, eval]
  | _ => rfl

/-- **The meaning stays**, for every interpretation of the leafs. -/
theorem eval_optimize (interp : FilterExpression → Bool) (e : FilterExpression) : e.optimize.eval interp = e.eval interp := by
  induction e using induction with
  | hnode op children ih =>
    have hmap : (children.map optimize).map (eval interp) = children.map (eval interp) := by
      rw [List.map_map]
      exact List.map_congr_left ih
    by_cases hone : children.length = 1
    · obtain ⟨child, rfl⟩ := List.length_eq_one_iff.1 hone
      rw [optimize_node_singleton, ih child List.mem_cons_self, eval_node]
      simp
    · rw [optimize_node hone, eval_node, combine_flatMap_subchildren, hmap, eval_node]
  | hnot child ih => rw [eval_optimize_not, ih, eval]
  | hnOf children matchExactly numberOfMatchers ih =>
    have hmap : evalAll interp (children.map optimize) = evalAll interp children := by
      rw [evalAll_eq, evalAll_eq, List.map_map]
      exact List.map_congr_left ih
    rw [optimize_nOf, eval, eval, hmap]
  | hleaf e h => rw [optimize_of_isLeaf h]

end Eval

end FilterExpression

end Evobench.Silo

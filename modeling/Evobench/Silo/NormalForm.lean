import Evobench.Silo.Query

/-!
# Normal forms of filter expressions

In a normal form there is no node with a single child, no `Or` directly in an `Or`, no `And` directly in an `And`, and no
`Not` directly in a `Not`. `optimize` looks for single children before it merges what is nested; if what is nested is empty,
there may be a single child afterwards.

## The model

* `Normal`: the normal form.
* `width`: how many children an expression becomes in a node of some kind.
* `Settled`: no node that stays is left with a single child.

## What is proved

* `optimize_normal_iff`: `optimize` reaches the normal form, and changes nothing when it is used again, if and only if the
  expression is settled.
* `not_settled`: an `Or` in which a single child is left.
-/

namespace Evobench.Silo

namespace FilterExpression

/-! ### The normal form -/

/-- No two nodes of the same kind, and no two negations, are directly in each other. -/
inductive Merged : FilterExpression → Prop where
  /-- A node. -/
  | node (op : Junction) (children : List FilterExpression) (hop : ∀ child ∈ children, isNode op child = none)
      (h : ∀ child ∈ children, Merged child) : Merged (node op children)
  /-- A negation. -/
  | not (child : FilterExpression) (hnot : isNot child = none) (h : Merged child) : Merged (not child)
  /-- Some number of the children. -/
  | nOf (children : List FilterExpression) (matchExactly : Bool) (numberOfMatchers : ℕ) (h : ∀ child ∈ children, Merged child) :
      Merged (nOf children matchExactly numberOfMatchers)
  /-- A leaf. -/
  | leaf (e : FilterExpression) (h : IsLeaf e) : Merged e

/-- **The normal form.** -/
inductive Normal : FilterExpression → Prop where
  /-- A node with no or with several children, none of which is of the same kind. -/
  | node (op : Junction) (children : List FilterExpression) (hlength : children.length ≠ 1)
      (hop : ∀ child ∈ children, isNode op child = none) (h : ∀ child ∈ children, Normal child) : Normal (node op children)
  /-- A negation of something that is none. -/
  | not (child : FilterExpression) (hnot : isNot child = none) (h : Normal child) : Normal (not child)
  /-- Some number of the children. -/
  | nOf (children : List FilterExpression) (matchExactly : Bool) (numberOfMatchers : ℕ) (h : ∀ child ∈ children, Normal child) :
      Normal (nOf children matchExactly numberOfMatchers)
  /-- A leaf. -/
  | leaf (e : FilterExpression) (h : IsLeaf e) : Normal e

mutual

/-- How many children an expression becomes in a node of the given kind, or its negation if `negated`. -/
def width (op : Junction) : Bool → FilterExpression → ℕ
  | negated, or [child] => child.width op negated
  | negated, and [child] => child.width op negated
  | false, or children => if op = .or then widths op children else 1
  | false, and children => if op = .and then widths op children else 1
  | negated, not child => child.width op (!negated)
  | _, _ => 1

/-- How many these are altogether. -/
def widths (op : Junction) : List FilterExpression → ℕ
  | [] => 0
  | child :: children => child.width op false + widths op children

end

mutual

/-- **No node is left with a single child**: where an expression is a child of a node of kind `inside`, or its negation is if
`negated`, a node of that kind goes away. -/
def Settled (inside : Option Junction) : Bool → FilterExpression → Prop
  | negated, or [child] => child.Settled inside negated
  | negated, and [child] => child.Settled inside negated
  | negated, or children => (widths .or children ≠ 1 ∨ negated = false ∧ inside = some .or) ∧ AllSettled (some .or) children
  | negated, and children => (widths .and children ≠ 1 ∨ negated = false ∧ inside = some .and) ∧ AllSettled (some .and) children
  | negated, not child => child.Settled inside (!negated)
  | _, nOf children _ _ => AllSettled none children
  | _, _ => True

/-- None of the children is left with one. -/
def AllSettled (inside : Option Junction) : List FilterExpression → Prop
  | [] => True
  | child :: children => child.Settled inside false ∧ AllSettled inside children

end

/-! ### Nodes -/

section Nodes

variable {op op' : Junction} {e child : FilterExpression} {children children' : List FilterExpression} {inside : Option Junction}
  {negated : Bool}

theorem node_inj (h : node op children = node op' children') : op = op' ∧ children = children' := by
  cases op <;> cases op' <;> cases h <;> exact ⟨rfl, rfl⟩

@[simp] theorem isNot_node : isNot (node op children) = none := by
  cases op with
  | or => rfl
  | and => rfl

theorem isNode_node_of_ne (h : op' ≠ op) : isNode op' (node op children) = none := by
  cases op <;> cases op' <;> first | rfl | exact absurd rfl h

@[simp] theorem isNode_not : isNode op (not child) = none := by
  cases op with
  | or => rfl
  | and => rfl

@[simp] theorem isNode_nOf {matchExactly : Bool} {numberOfMatchers : ℕ} :
    isNode op (nOf children matchExactly numberOfMatchers) = none := by
  cases op with
  | or => rfl
  | and => rfl

theorem isNode_of_isLeaf (h : IsLeaf e) : isNode op e = none := by
  cases op <;> cases e <;> first | rfl | cases h

theorem isNot_of_isLeaf (h : IsLeaf e) : isNot e = none := by
  cases e <;> first | rfl | cases h

theorem eq_not_of_isNot (h : isNot e = some child) : e = not child := by
  cases e <;> first | (cases h; rfl) | cases h

theorem not_isLeaf_node : ¬ IsLeaf (node op children) := by
  cases op with
  | or => exact id
  | and => exact id

theorem merged_node_iff :
    Merged (node op children) ↔ (∀ child ∈ children, isNode op child = none) ∧ ∀ child ∈ children, Merged child := by
  constructor
  · intro h
    generalize he : node op children = e at h
    cases h with
    | node op' children' hop h =>
      obtain ⟨rfl, rfl⟩ := node_inj he
      exact ⟨hop, h⟩
    | not child hnot h => cases op <;> cases he
    | nOf children' b n h => cases op <;> cases he
    | leaf e h => exact absurd (he ▸ h) not_isLeaf_node
  · rintro ⟨hop, h⟩
    exact .node op children hop h

theorem normal_node_iff : Normal (node op children) ↔
    children.length ≠ 1 ∧ (∀ child ∈ children, isNode op child = none) ∧ ∀ child ∈ children, Normal child := by
  constructor
  · intro h
    generalize he : node op children = e at h
    cases h with
    | node op' children' hlength hop h =>
      obtain ⟨rfl, rfl⟩ := node_inj he
      exact ⟨hlength, hop, h⟩
    | not child hnot h => cases op <;> cases he
    | nOf children' b n h => cases op <;> cases he
    | leaf e h => exact absurd (he ▸ h) not_isLeaf_node
  · rintro ⟨hlength, hop, h⟩
    exact .node op children hlength hop h

theorem merged_not (h : Merged (not child)) : isNot child = none ∧ Merged child := by
  generalize he : not child = e at h
  cases h with
  | node op children hop h => cases op <;> cases he
  | not child' hnot h =>
    cases he
    exact ⟨hnot, h⟩
  | nOf children b n h => cases he
  | leaf e h => exact absurd (he ▸ h : IsLeaf (not child)) id

theorem normal_not_iff (hnot : isNot child = none) : Normal (not child) ↔ Normal child := by
  constructor
  · intro h
    generalize he : not child = e at h
    cases h with
    | node op children hlength hop h => cases op <;> cases he
    | not child' hnot h =>
      cases he
      exact h
    | nOf children b n h => cases he
    | leaf e h => exact absurd (he ▸ h : IsLeaf (not child)) id
  · exact .not child hnot

theorem normal_nOf_iff {matchExactly : Bool} {numberOfMatchers : ℕ} :
    Normal (nOf children matchExactly numberOfMatchers) ↔ ∀ child ∈ children, Normal child := by
  constructor
  · intro h
    generalize he : nOf children matchExactly numberOfMatchers = e at h
    cases h with
    | node op children hlength hop h => cases op <;> cases he
    | not child hnot h => cases he
    | nOf children' b n h =>
      cases he
      exact h
    | leaf e h => exact absurd (he ▸ h : IsLeaf (nOf children matchExactly numberOfMatchers)) id
  · exact .nOf children matchExactly numberOfMatchers

end Nodes

/-! ### What is merged -/

section Subchildren

variable {op : Junction} {e child : FilterExpression}

theorem subchildren_of_none (h : isNode op e = none) : subchildren (isNode op) e = [e] := by rw [subchildren, h]; rfl

theorem subchildren_node (op : Junction) (children : List FilterExpression) :
    subchildren (isNode op) (node op children) = children := by rw [subchildren, isNode_node]; rfl

theorem Merged.subchildren (h : Merged e) (hchild : child ∈ subchildren (isNode op) e) :
    isNode op child = none ∧ Merged child := by
  cases hnode : isNode op e with
  | none =>
    rw [subchildren_of_none hnode, List.mem_singleton] at hchild
    subst hchild
    exact ⟨hnode, h⟩
  | some children =>
    obtain rfl := eq_node_of_isNode hnode
    rw [subchildren_node] at hchild
    obtain ⟨hop, h⟩ := merged_node_iff.1 h
    exact ⟨hop child hchild, h child hchild⟩

/-- Nodes and negations are always merged. -/
theorem merged_optimize (e : FilterExpression) : Merged e.optimize := by
  induction e using induction with
  | hnode op children ih =>
    by_cases hone : children.length = 1
    · obtain ⟨child, rfl⟩ := List.length_eq_one_iff.1 hone
      rw [optimize_node_singleton]
      exact ih child List.mem_cons_self
    · have hsub : ∀ child ∈ (children.map optimize).flatMap (FilterExpression.subchildren (isNode op)),
          isNode op child = none ∧ Merged child := by
        intro child hchild
        obtain ⟨parent, hparent, hchild⟩ := List.mem_flatMap.1 hchild
        obtain ⟨original, horiginal, rfl⟩ := List.mem_map.1 hparent
        exact (ih original horiginal).subchildren hchild
      rw [optimize_node hone, merged_node_iff]
      exact ⟨fun child hchild => (hsub child hchild).1, fun child hchild => (hsub child hchild).2⟩
  | hnot child ih =>
    rw [optimize]
    cases hnot : isNot child.optimize with
    | none => exact .not _ hnot ih
    | some child' =>
      rw [eq_not_of_isNot hnot] at ih
      exact (merged_not ih).2
  | hnOf children b n ih =>
    rw [optimize_nOf]
    refine .nOf _ b n ?_
    rw [List.forall_mem_map]
    exact ih
  | hleaf e h =>
    rw [optimize_of_isLeaf h]
    exact .leaf e h

/-- A normal form is not changed. -/
theorem Normal.optimize_eq (h : Normal e) : e.optimize = e := by
  induction h with
  | node op children hlength hop h ih =>
    have hmap : children.map optimize = children := (List.map_congr_left ih).trans (List.map_id' children)
    have hsub : children.flatMap (FilterExpression.subchildren (isNode op)) = children := by
      rw [List.flatMap_congr fun child hchild => subchildren_of_none (hop child hchild)]
      exact List.flatMap_singleton' children
    rw [optimize_node hlength, hmap, hsub]
  | not child hnot h ih =>
    rw [optimize, ih, hnot]
    rfl
  | nOf children b n h ih => rw [optimize_nOf, (List.map_congr_left ih).trans (List.map_id' children)]
  | leaf e h => exact optimize_of_isLeaf h

end Subchildren

/-! ### Double negations -/

/-- The expression, or its negation. -/
def signed : Bool → FilterExpression → FilterExpression
  | false, e => e
  | true, e => not e

section Signed

variable {e e' : FilterExpression}

theorem optimize_signed_congr (negated : Bool) (h : e.optimize = e'.optimize) :
    (signed negated e).optimize = (signed negated e').optimize := by
  cases negated with
  | false => exact h
  | true => rw [signed, signed, optimize, optimize, h]

/-- Two negations cancel each other. -/
theorem optimize_not_not (e : FilterExpression) : (not (not e)).optimize = e.optimize := by
  rw [optimize]
  cases hnot : isNot e.optimize with
  | none =>
    have hopt : (not e).optimize = not e.optimize := by
      rw [optimize, hnot]
      rfl
    rw [hopt]
    rfl
  | some child =>
    have hopt : (not e).optimize = child := by
      rw [optimize, hnot]
      rfl
    have hmerged := merged_optimize e
    rw [eq_not_of_isNot hnot] at hmerged ⊢
    rw [hopt, (merged_not hmerged).1]
    rfl

theorem optimize_signed_not (negated : Bool) (e : FilterExpression) :
    (signed negated (not e)).optimize = (signed (!negated) e).optimize := by
  cases negated with
  | false => rfl
  | true => exact optimize_not_not e

/-- What is not a negation stays one level below it. -/
theorem optimize_signed_true (h : isNot e.optimize = none) : (signed true e).optimize = not e.optimize := by
  rw [signed, optimize, h]
  rfl

end Signed

/-! ### Widths -/

section Widths

variable {op op' : Junction} {children : List FilterExpression} {negated : Bool}

theorem widths_eq (op : Junction) (children : List FilterExpression) :
    widths op children = (children.map (width op false)).sum := by
  induction children with
  | nil => rfl
  | cons child children ih => rw [widths, ih, List.map_cons, List.sum_cons]

theorem width_node_singleton (op op' : Junction) (negated : Bool) (child : FilterExpression) :
    (node op [child]).width op' negated = child.width op' negated := by
  cases op <;> cases negated <;> rfl

theorem width_node (h : children.length ≠ 1) (negated : Bool) : (node op children).width op' negated =
    if negated = false ∧ op' = op then (children.map (width op false)).sum else 1 := by
  rw [← widths_eq]
  rcases children with _ | ⟨child, _ | ⟨child', rest⟩⟩
  · cases op <;> cases op' <;> cases negated <;> rfl
  · exact absurd rfl h
  · cases op <;> cases op' <;> cases negated <;> rfl

theorem width_of_isLeaf {e : FilterExpression} (h : IsLeaf e) (op : Junction) (negated : Bool) : e.width op negated = 1 := by
  cases e <;> first | (cases negated <;> rfl) | cases h

theorem length_flatMap_subchildren (op : Junction) (children : List FilterExpression)
    (h : ∀ child ∈ children, (subchildren (isNode op) child.optimize).length = child.width op false) :
    ((children.map optimize).flatMap (subchildren (isNode op))).length = (children.map (width op false)).sum := by
  rw [List.length_flatMap, List.map_map]
  exact congrArg _ (List.map_congr_left h)

/-- **What the width is**: the number of children in an optimized node. -/
theorem length_subchildren (e : FilterExpression) (op : Junction) (negated : Bool) :
    (subchildren (isNode op) (signed negated e).optimize).length = e.width op negated := by
  induction e using induction generalizing op negated with
  | hnode op' children ih =>
    by_cases hone : children.length = 1
    · obtain ⟨child, rfl⟩ := List.length_eq_one_iff.1 hone
      rw [optimize_signed_congr negated (optimize_node_singleton op' child), ih child List.mem_cons_self, width_node_singleton]
    · rw [width_node hone]
      cases negated with
      | true =>
        rw [optimize_signed_true (by rw [optimize_node hone, isNot_node]), subchildren_of_none isNode_not]
        simp
      | false =>
        rw [signed, optimize_node hone]
        by_cases hop : op = op'
        · subst hop
          rw [subchildren_node, length_flatMap_subchildren op children fun child hchild => ih child hchild op false]
          simp
        · rw [subchildren_of_none (isNode_node_of_ne hop)]
          simp [hop]
  | hnot child ih =>
    rw [optimize_signed_not, ih]
    cases negated <;> rfl
  | hnOf children b n ih =>
    have hopt : isNot (nOf children b n).optimize = none := by
      rw [optimize_nOf]
      rfl
    cases negated with
    | true =>
      rw [optimize_signed_true hopt, subchildren_of_none isNode_not]
      rfl
    | false =>
      rw [signed, optimize_nOf, subchildren_of_none isNode_nOf]
      rfl
  | hleaf e h =>
    rw [width_of_isLeaf h]
    cases negated with
    | true =>
      rw [optimize_signed_true (by rw [optimize_of_isLeaf h, isNot_of_isLeaf h]), subchildren_of_none isNode_not]
      rfl
    | false =>
      rw [signed, optimize_of_isLeaf h, subchildren_of_none (isNode_of_isLeaf h)]
      rfl

end Widths

/-! ### Settled expressions -/

/-- What an optimized expression becomes in a node is in normal form. -/
def NormalIn : Option Junction → FilterExpression → Prop
  | none, e => Normal e
  | some op, e => ∀ child ∈ subchildren (isNode op) e, Normal child

section Settled

variable {op : Junction} {inside : Option Junction} {children : List FilterExpression} {e : FilterExpression}

theorem allSettled_iff : AllSettled inside children ↔ ∀ child ∈ children, child.Settled inside false := by
  induction children with
  | nil => simp [AllSettled]
  | cons child children ih => rw [AllSettled, ih, List.forall_mem_cons]

theorem settled_node_singleton (op : Junction) (inside : Option Junction) (negated : Bool) (child : FilterExpression) :
    (node op [child]).Settled inside negated ↔ child.Settled inside negated := by
  cases op <;> cases negated <;> rfl

theorem settled_node (h : children.length ≠ 1) (negated : Bool) : (node op children).Settled inside negated ↔
    ((children.map (width op false)).sum ≠ 1 ∨ negated = false ∧ inside = some op) ∧
      ∀ child ∈ children, child.Settled (some op) false := by
  rw [← widths_eq, ← allSettled_iff]
  rcases children with _ | ⟨child, _ | ⟨child', rest⟩⟩
  · cases op <;> cases negated <;> rfl
  · exact absurd rfl h
  · cases op <;> cases negated <;> rfl

theorem settled_of_isLeaf (h : IsLeaf e) (inside : Option Junction) (negated : Bool) : e.Settled inside negated := by
  cases e <;> cases negated <;> trivial

/-- What is not a node becomes itself. -/
theorem normalIn_iff (h : ∀ op, isNode op e = none) : NormalIn inside e ↔ Normal e := by
  cases inside with
  | none => exact Iff.rfl
  | some op => rw [NormalIn, subchildren_of_none (h op), List.forall_mem_singleton]

/-- **Which expressions become normal forms.** -/
theorem normalIn_optimize_iff (e : FilterExpression) (inside : Option Junction) (negated : Bool) :
    NormalIn inside (signed negated e).optimize ↔ e.Settled inside negated := by
  induction e using induction generalizing inside negated with
  | hnode op children ih =>
    by_cases hone : children.length = 1
    · obtain ⟨child, rfl⟩ := List.length_eq_one_iff.1 hone
      rw [optimize_signed_congr negated (optimize_node_singleton op child), ih child List.mem_cons_self, settled_node_singleton]
    · have hlength := length_flatMap_subchildren op children fun child _ => length_subchildren child op false
      have hchildren : (∀ child ∈ (children.map optimize).flatMap (subchildren (isNode op)), Normal child) ↔
          ∀ child ∈ children, child.Settled (some op) false := by
        rw [List.forall_mem_flatMap, List.forall_mem_map]
        exact forall₂_congr fun child hchild => ih child hchild (some op) false
      have hmerged : Merged (node op children).optimize := merged_optimize _
      rw [optimize_node hone, merged_node_iff] at hmerged
      -- the node itself
      have hnode : Normal (node op ((children.map optimize).flatMap (subchildren (isNode op)))) ↔
          (children.map (width op false)).sum ≠ 1 ∧ ∀ child ∈ children, child.Settled (some op) false := by
        rw [normal_node_iff, hlength, hchildren]
        exact and_congr_right fun _ => and_iff_right hmerged.1
      rw [settled_node hone]
      cases negated with
      | true =>
        rw [optimize_signed_true (by rw [optimize_node hone, isNot_node]), normalIn_iff fun _ => isNode_not, optimize_node hone,
          normal_not_iff isNot_node, hnode]
        simp
      | false =>
        rw [signed, optimize_node hone]
        by_cases hinside : inside = some op
        · subst hinside
          rw [NormalIn, subchildren_node, hchildren]
          simp
        · have hnone : NormalIn inside (node op ((children.map optimize).flatMap (subchildren (isNode op)))) ↔
              Normal (node op ((children.map optimize).flatMap (subchildren (isNode op)))) := by
            cases inside with
            | none => exact Iff.rfl
            | some op' =>
              have hop : op' ≠ op := fun he => hinside (congrArg some he)
              rw [NormalIn, subchildren_of_none (isNode_node_of_ne hop), List.forall_mem_singleton]
          rw [hnone, hnode]
          simp [hinside]
  | hnot child ih =>
    rw [optimize_signed_not, ih]
    cases negated <;> rfl
  | hnOf children b n ih =>
    have hopt : isNot (nOf children b n).optimize = none := by
      rw [optimize_nOf]
      rfl
    have hchildren : Normal (nOf children b n).optimize ↔ ∀ child ∈ children, child.Settled none false := by
      rw [optimize_nOf, normal_nOf_iff, List.forall_mem_map]
      exact forall₂_congr fun child hchild => ih child hchild none false
    have hsettled : (nOf children b n).Settled inside negated ↔ ∀ child ∈ children, child.Settled none false := by
      rw [← allSettled_iff]
      cases negated <;> rfl
    rw [hsettled, ← hchildren]
    cases negated with
    | true => rw [optimize_signed_true hopt, normalIn_iff fun _ => isNode_not, normal_not_iff hopt]
    | false =>
      rw [signed, normalIn_iff fun op => ?_]
      rw [optimize_nOf, isNode_nOf]
  | hleaf e h =>
    refine iff_of_true ?_ (settled_of_isLeaf h inside negated)
    cases negated with
    | true =>
      have hopt : isNot e.optimize = none := by rw [optimize_of_isLeaf h, isNot_of_isLeaf h]
      rw [optimize_signed_true hopt, normalIn_iff fun _ => isNode_not, normal_not_iff hopt, optimize_of_isLeaf h]
      exact .leaf e h
    | false =>
      rw [signed, optimize_of_isLeaf h, normalIn_iff fun _ => isNode_of_isLeaf h]
      exact .leaf e h

/-- **When the normal form is reached**: `optimize` gives a normal form, and changes nothing when it is used again, if and only if
no node is left with a single child. -/
theorem optimize_normal_iff (e : FilterExpression) :
    (e.optimize.optimize = e.optimize ∧ Normal e.optimize) ↔ e.Settled none false := by
  rw [← normalIn_optimize_iff]
  exact and_iff_right_of_imp Normal.optimize_eq

/-- An `Or` is left with a single child, because the other one is empty. -/
theorem not_settled : (or [or [], true_]).optimize = or [true_] ∧ (or [true_]).optimize = true_ ∧
    ¬ ((or [or [], true_]).optimize.optimize = (or [or [], true_]).optimize ∧ Normal (or [or [], true_]).optimize) := by
  have hopt : (or [or [], true_]).optimize = or [true_] := rfl
  have hagain : (or [true_]).optimize = true_ := rfl
  refine ⟨hopt, hagain, fun h => ?_⟩
  rw [hopt, hagain] at h
  cases h.1

end Settled

end FilterExpression

end Evobench.Silo

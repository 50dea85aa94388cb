import Evobench.Library.Program
import Evobench.Util.Tree
import Mathlib.Algebra.BigOperators.Group.List.Basic
import Mathlib.Data.List.Forall2

/-!
# Flame graphs

The values of a tree are times, and the time of a node has those of its children in it. For a flame graph `fix_tree` leaves
at every node what remains of its value without the values below it; nodes that have no value are looked through.

`conserves_fixTree`: where no value is less than the sum of those below, the values below a node and its own one make up what
it had at first, and so all values together are those of the topmost nodes that have one.
-/

namespace Evobench.Evaluator

open Library Util

/-! ### The tree of values -/

/-- `+` -/
def addU64 (a b : UInt64) : Outcome Empty UInt64 :=
  if a.toNat + b.toNat < UInt64.size then .ok (a + b) else .panic "attempt to add with overflow"

mutual

/-- `node_children_sum` -/
def nodeChildrenSum : Util.Tree UInt64 → Outcome Empty UInt64
  | .node _ children => childrenSum children 0

/-- The sum over the children: the value of a child, or the sum of its children if it has none. -/
def childrenSum : Branches String UInt64 → UInt64 → Outcome Empty UInt64
  | .nil, sum => .ok sum
  | .cons _ child rest, sum => do
    let v ← match child.value with
      | some v => .ok v
      | none => nodeChildrenSum child
    let sum ← addU64 sum v
    childrenSum rest sum

end

mutual

/-- `fix_tree`: a message is shown if a value is less than the sum. -/
def fixTree : Util.Tree UInt64 → Outcome Empty (Util.Tree UInt64)
  | .node value children => do
    let fixedValue ← match value with
      | some origValue => do
        let origChildrenTotal ← nodeChildrenSum (.node value children)
        pure (some (if origChildrenTotal ≤ origValue then origValue - origChildrenTotal else 0))
      | none => pure none
    let fixedChildren ← fixChildren children
    pure (.node fixedValue fixedChildren)

/-- The children, each one fixed. -/
def fixChildren : Branches String UInt64 → Outcome Empty (Branches String UInt64)
  | .nil => pure .nil
  | .cons key child rest => do
    let child ← fixTree child
    let rest ← fixChildren rest
    pure (.cons key child rest)

end

/-! ### Nodes and sums -/

mutual

/-- All nodes, with their paths. -/
def nodes : Util.Tree UInt64 → List (List String × Util.Tree UInt64)
  | .node value children => ([], .node value children) :: nodesBelow children

/-- All nodes below. -/
def nodesBelow : Branches String UInt64 → List (List String × Util.Tree UInt64)
  | .nil => []
  | .cons key child rest => (nodes child).map (fun e => (key :: e.1, e.2)) ++ nodesBelow rest

end

mutual

/-- The sum of all values. -/
def total : Util.Tree UInt64 → ℕ
  | .node value children => (value.elim 0 UInt64.toNat) + totalBelow children

/-- The sum of all values below. -/
def totalBelow : Branches String UInt64 → ℕ
  | .nil => 0
  | .cons _ child rest => total child + totalBelow rest

end

mutual

/-- The values of the topmost nodes that have one. -/
def topmost : Util.Tree UInt64 → List UInt64
  | .node (some v) _ => [v]
  | .node none children => topmostBelow children

/-- The same, below a node. -/
def topmostBelow : Branches String UInt64 → List UInt64
  | .nil => []
  | .cons _ child rest => topmost child ++ topmostBelow rest

end

/-- The sum of values. -/
def sumOf (values : List UInt64) : ℕ := (values.map UInt64.toNat).sum

theorem sumOf_append (a b : List UInt64) : sumOf (a ++ b) = sumOf a + sumOf b := by
  rw [sumOf, List.map_append, List.sum_append]
  rfl

theorem addU64_eq_ok {a b c : UInt64} (h : addU64 a b = .ok c) : c.toNat = a.toNat + b.toNat := by
  rw [addU64] at h
  split_ifs at h with hlt
  cases h
  rw [UInt64.toNat_add, Nat.mod_eq_of_lt hlt]

mutual

/-- The sum, if it fits, is that of the topmost values below. -/
theorem nodeChildrenSum_eq_ok : ∀ (tree : Util.Tree UInt64) {s : UInt64}, nodeChildrenSum tree = .ok s →
    s.toNat = sumOf (topmostBelow tree.children)
  | .node value children, s, h => by
    rw [nodeChildrenSum] at h
    rw [childrenSum_eq_ok children h]
    exact Nat.zero_add _

theorem childrenSum_eq_ok : ∀ (children : Branches String UInt64) {sum s : UInt64}, childrenSum children sum = .ok s →
    s.toNat = sum.toNat + sumOf (topmostBelow children)
  | .nil, sum, s, h => by
    rw [childrenSum] at h
    cases h
    rfl
  | .cons key (.node none children) rest, sum, s, h => by
    rw [childrenSum] at h
    obtain ⟨v, hv, h⟩ := Outcome.bind_eq_ok.1 h
    obtain ⟨sum', hsum', h⟩ := Outcome.bind_eq_ok.1 h
    rw [childrenSum_eq_ok rest h, addU64_eq_ok hsum', nodeChildrenSum_eq_ok _ hv, topmostBelow, sumOf_append, topmost,
      Nat.add_assoc]
    rfl
  | .cons key (.node (some v) children) rest, sum, s, h => by
    rw [childrenSum] at h
    have h : (addU64 sum v >>= childrenSum rest) = .ok s := h
    obtain ⟨sum', hsum', h⟩ := Outcome.bind_eq_ok.1 h
    rw [childrenSum_eq_ok rest h, addU64_eq_ok hsum', topmostBelow, sumOf_append, topmost, Nat.add_assoc]
    rfl

end

/-! ### Conservation -/

/-- The node has no value, or one that is not less than the sum of its children, which fits. -/
def notSmaller (tree : Util.Tree UInt64) : Bool :=
  match tree.value with
  | none => true
  | some v =>
    match nodeChildrenSum tree with
    | .ok s => s ≤ v
    | _ => false

theorem exists_of_notSmaller {v : UInt64} {children : Branches String UInt64}
    (h : notSmaller (.node (some v) children) = true) : ∃ s, nodeChildrenSum (.node (some v) children) = .ok s ∧ s ≤ v := by
  rw [notSmaller] at h
  cases hs : nodeChildrenSum (.node (some v) children) with
  | ok s =>
    rw [hs] at h
    exact ⟨s, rfl, of_decide_eq_true h⟩
  | err e => cases e
  | panic msg =>
    rw [hs] at h
    cases h

/-- Two nodes at the same path, of which the second one has all that the first one had. -/
structure Keeps (e e' : List String × Util.Tree UInt64) : Prop where
  /-- It is the same path. -/
  path : e'.1 = e.1
  /-- They both have a value, or none. -/
  valued : e'.2.value.isSome = e.2.value.isSome
  /-- All values there are the topmost values. -/
  total : total e'.2 = sumOf (topmost e.2)

mutual

theorem exists_fixTree : ∀ tree : Util.Tree UInt64, (∀ e ∈ nodes tree, notSmaller e.2 = true) →
    ∃ out, fixTree tree = .ok out ∧ List.Forall₂ Keeps (nodes tree) (nodes out) ∧ total out = sumOf (topmost tree)
  | .node none children, h => by
    rw [nodes, List.forall_mem_cons] at h
    obtain ⟨children', hchildren, hnodes, htotal⟩ := exists_fixChildren children h.2
    have hall : total (.node none children') = sumOf (topmost (.node none children)) := by
      rw [total, topmost, htotal]
      exact Nat.zero_add _
    refine ⟨.node none children', ?_, ?_, hall⟩
    · rw [fixTree, hchildren]
      rfl
    · rw [nodes, nodes]
      exact .cons ⟨rfl, rfl, hall⟩ hnodes
  | .node (some v) children, h => by
    rw [nodes, List.forall_mem_cons] at h
    obtain ⟨hself, hbelow⟩ := h
    obtain ⟨children', hchildren, hnodes, htotal⟩ := exists_fixChildren children hbelow
    obtain ⟨s, hs, hle⟩ := exists_of_notSmaller hself
    have hall : total (.node (some (v - s)) children') = sumOf (topmost (.node (some v) children)) := by
      have hsum : s.toNat = sumOf (topmostBelow children) := nodeChildrenSum_eq_ok _ hs
      have hle' := UInt64.le_iff_toNat_le.1 hle
      rw [total, htotal, ← hsum, topmost, Option.elim_some, UInt64.toNat_sub_of_le _ _ hle, Nat.sub_add_cancel hle']
      exact (Nat.add_zero _).symm
    refine ⟨.node (some (v - s)) children', ?_, ?_, hall⟩
    · rw [fixTree, hs, hchildren]
      show Outcome.ok (PathTree.node (some (if s ≤ v then v - s else 0)) children') = _
      rw [if_pos hle]
    · rw [nodes, nodes]
      exact .cons ⟨rfl, rfl, hall⟩ hnodes

theorem exists_fixChildren : ∀ children : Branches String UInt64, (∀ e ∈ nodesBelow children, notSmaller e.2 = true) →
    ∃ out, fixChildren children = .ok out ∧ List.Forall₂ Keeps (nodesBelow children) (nodesBelow out) ∧
      totalBelow out = sumOf (topmostBelow children)
  | .nil, _ => ⟨.nil, rfl, .nil, rfl⟩
  | .cons key child rest, h => by
    rw [nodesBelow, List.forall_mem_append] at h
    obtain ⟨hchild, hrest⟩ := h
    obtain ⟨child', hc, hcnodes, hctotal⟩ := exists_fixTree child fun e he =>
      hchild (key :: e.1, e.2) (List.mem_map_of_mem he)
    obtain ⟨rest', hr, hrnodes, hrtotal⟩ := exists_fixChildren rest hrest
    refine ⟨.cons key child' rest', ?_, ?_, ?_⟩
    · rw [fixChildren, hc, hr]
      rfl
    · rw [nodesBelow, nodesBelow]
      refine List.rel_append ?_ hrnodes
      refine List.forall₂_map_left_iff.2 (List.forall₂_map_right_iff.2 (hcnodes.imp fun e e' hkeeps => ?_))
      exact ⟨congrArg (key :: ·) hkeeps.path, hkeeps.valued, hkeeps.total⟩
    · rw [totalBelow, topmostBelow, sumOf_append, hctotal, hrtotal]

end

mutual

/-- The values that come out of a tree. -/
theorem sumOf_entries : ∀ tree : Util.Tree UInt64, sumOf (tree.entries.map Prod.snd) = total tree
  | .node value children => by
    rw [PathTree.entries, List.map_append, sumOf_append, sumOf_entriesBelow, total]
    congr 1
    cases value with
    | none => rfl
    | some v => rfl

theorem sumOf_entriesBelow : ∀ children : Branches String UInt64,
    sumOf (children.entries.map Prod.snd) = totalBelow children
  | .nil => rfl
  | .cons key child rest => by
    rw [Branches.entries, List.map_append, sumOf_append, sumOf_entriesBelow, List.map_map, totalBelow,
      ← sumOf_entries child]
    rfl

end

/-- **What is kept at a node** by fixing the tree. -/
structure ConservesNode (e e' : List String × Util.Tree UInt64) : Prop where
  /-- It is the same node. -/
  path : e'.1 = e.1
  /-- It has a value if it had one. -/
  valued : e'.2.value.isSome = e.2.value.isSome
  /-- All values there make up the value that it had. -/
  of_value : ∀ v, e.2.value = some v → total e'.2 = v.toNat
  /-- Without a value, they make up the sum of its children. -/
  of_gap : e.2.value = none → ∀ s, nodeChildrenSum e.2 = .ok s → total e'.2 = s.toNat

/-- **What is kept** by fixing a tree. -/
structure Conserves (tree out : Util.Tree UInt64) : Prop where
  /-- There are the same nodes. -/
  nodes : List.Forall₂ ConservesNode (nodes tree) (nodes out)
  /-- The values of a flame graph make up those of the topmost nodes that have one. -/
  graph : ∀ separator, sumOf ((intoJoinedKeyVal out separator).map Prod.snd) = sumOf (topmost tree)

theorem Keeps.conservesNode {e e' : List String × Util.Tree UInt64} (h : Keeps e e') : ConservesNode e e' := by
  obtain ⟨path, value, children⟩ := e
  refine ⟨h.path, h.valued, fun v hv => ?_, fun hnone s hs => ?_⟩
  · cases hv
    exact h.total
  · cases hnone
    rw [h.total, nodeChildrenSum_eq_ok _ hs]
    rfl

/-- **Fixing a tree conserves the values**, where no value is less than the sum of the children. -/
theorem conserves_fixTree {tree : Util.Tree UInt64} (h : ∀ e ∈ nodes tree, notSmaller e.2 = true) :
    ∃ out, fixTree tree = .ok out ∧ Conserves tree out := by
  obtain ⟨out, hfix, hnodes, htotal⟩ := exists_fixTree tree h
  refine ⟨out, hfix, hnodes.imp fun _ _ => Keeps.conservesNode, fun separator => ?_⟩
  rw [intoJoinedKeyVal_eq, List.map_map, ← htotal, ← sumOf_entries]
  rfl

/-- `t_fix_tree` -/
theorem conserves_fixTree_sample :
    let tree := fromKeyVal [(["a"], 2), (["a", "b"], 1), (["a", "b", "c"], 1), (["c", "d"], 3), (["d", "e", "f"], 4), (["d"], 5)]
    ∃ out, fixTree tree = .ok out ∧ Conserves tree out :=
  conserves_fixTree (by decide +kernel)

end Evobench.Evaluator

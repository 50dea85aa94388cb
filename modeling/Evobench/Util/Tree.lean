import Evobench.Library.PathTree
import Evobench.Library.Split
import Mathlib.Data.String.Basic

/-!
# Trees with string keys

A simple tree representation: values at paths of strings. It is made from pairs of a path and a value (`from_key_val`), and
all values come out again with their paths (`into_joined_key_val`), the strings of which are joined with a separator.

With strings split at the separator as paths, a tree is a finite map (`tree_is_map`).
-/

namespace Evobench.Util

open Library

/-- `Tree`: a node has `value` and `children`, in the order of their keys. -/
abbrev Tree (T : Type) := PathTree String T

variable {T : Type}

/-- `from_key_val` -/
def fromKeyVal (data : List (List String × T)) : Tree T := data.foldl (fun top kv => top.insert kv.1 kv.2) .new

/-- `split` of the standard library. -/
def splitStr (s separator : String) : List String := (split separator.toList s.toList).map String.ofList

mutual

/-- `into_joined_key_val`: the values of a tree at a path are put behind `out`. -/
def intoJoinedKeyValFrom (separator : String) : Tree T → List String → List (String × T) → List (String × T)
  | .node value children, path, out =>
    childrenIntoJoinedKeyVal separator children path
      (match value with
      | some v => out ++ [(separator.intercalate path, v)]
      | none => out)

/-- The loop over the children: their keys are pushed to the path. -/
def childrenIntoJoinedKeyVal (separator : String) : Branches String T → List String → List (String × T) → List (String × T)
  | .nil, _, out => out
  | .cons key child rest, path, out =>
    childrenIntoJoinedKeyVal separator rest path (intoJoinedKeyValFrom separator child (path ++ [key]) out)

end

/-- `Tree::into_joined_key_val` -/
def intoJoinedKeyVal (tree : Tree T) (separator : String) : List (String × T) := intoJoinedKeyValFrom separator tree [] []

/-! ### Joined paths -/

/-- An entry with its joined path, below a path. -/
def joinedEntry (separator : String) (path : List String) (e : List String × T) : String × T :=
  (separator.intercalate (path ++ e.1), e.2)

mutual

theorem intoJoinedKeyValFrom_eq (separator : String) : ∀ (tree : Tree T) (path : List String) (out : List (String × T)),
    intoJoinedKeyValFrom separator tree path out = out ++ tree.entries.map (joinedEntry separator path)
  | .node none children, path, out => by
    rw [intoJoinedKeyValFrom, childrenIntoJoinedKeyVal_eq, PathTree.entries]
    rfl
  | .node (some v) children, path, out => by
    have hself : (separator.intercalate path, v) = joinedEntry separator path ([], v) := by
      rw [joinedEntry, List.append_nil]
    rw [intoJoinedKeyValFrom, childrenIntoJoinedKeyVal_eq, PathTree.entries, List.append_assoc, hself]
    rfl

theorem childrenIntoJoinedKeyVal_eq (separator : String) : ∀ (children : Branches String T) (path : List String)
    (out : List (String × T)),
    childrenIntoJoinedKeyVal separator children path out = out ++ children.entries.map (joinedEntry separator path)
  | .nil, _, out => (List.append_nil out).symm
  | .cons key child rest, path, out => by
    have hchild : child.entries.map (joinedEntry separator (path ++ [key])) =
        (child.entries.map fun e => (key :: e.1, e.2)).map (joinedEntry separator path) := by
      rw [List.map_map]
      refine List.map_congr_left fun e _ => ?_
      rw [Function.comp_apply, joinedEntry, joinedEntry, List.append_assoc, List.singleton_append]
    rw [childrenIntoJoinedKeyVal, childrenIntoJoinedKeyVal_eq, intoJoinedKeyValFrom_eq, Branches.entries, List.map_append,
      hchild, List.append_assoc]

end

/-- All values come out, with the joined paths. -/
theorem intoJoinedKeyVal_eq (tree : Tree T) (separator : String) :
    intoJoinedKeyVal tree separator = tree.entries.map fun e => (separator.intercalate e.1, e.2) := by
  rw [intoJoinedKeyVal, intoJoinedKeyValFrom_eq, List.nil_append]
  rfl

/-- Joining what has been split. -/
theorem intercalate_splitStr (s separator : String) : separator.intercalate (splitStr s separator) = s := by
  have hparts : (splitStr s separator).map String.toList = split separator.toList s.toList := by
    rw [splitStr, List.map_map]
    exact (List.map_congr_left fun l _ => String.toList_ofList).trans (List.map_id _)
  rw [← String.toList_inj, String.toList_intercalate, hparts, intercalate_split]

theorem splitStr_inj (separator : String) (a b : String) (h : splitStr a separator = splitStr b separator) : a = b := by
  rw [← intercalate_splitStr a separator, h, intercalate_splitStr]

/-! ### A finite map -/

theorem get_fromKeyVal (data : List (List String × T)) (path : List String) :
    (fromKeyVal data).get path = lastValue data path := by
  have h := PathTree.get_insertAll PathTree.ordered_new data path
  rwa [PathTree.get_new, Option.or_none] at h

theorem ordered_fromKeyVal (data : List (List String × T)) : (fromKeyVal data).Ordered :=
  PathTree.ordered_new.insertAll data

/-- **What comes out** of a tree made from strings that are split at a separator. -/
structure IsJoinedMap (data : List (String × T)) (separator : String) (out : List (String × T)) : Prop where
  /-- Every string comes with its last value. -/
  last : ∀ s v, (s, v) ∈ out ↔ lastValue data s = some v
  /-- It comes once. -/
  once : (out.map Prod.fst).Nodup
  /-- The order is the lexicographic order of the lists of segments. -/
  order : (out.map Prod.fst).Pairwise fun a b => List.Lex (· < ·) (splitStr a separator) (splitStr b separator)

/-- The tree from strings. -/
theorem isJoinedMap_intoJoinedKeyVal (data : List (String × T)) (separator : String) :
    IsJoinedMap data separator
      (intoJoinedKeyVal (fromKeyVal (data.map fun kv => (splitStr kv.1 separator, kv.2))) separator) := by
  let paths := data.map fun kv => (splitStr kv.1 separator, kv.2)
  have hordered : (fromKeyVal paths).Ordered := ordered_fromKeyVal paths
  -- every path comes from a string
  have hsplit : ∀ e ∈ (fromKeyVal paths).entries, splitStr (separator.intercalate e.1) separator = e.1 := by
    intro e he
    rw [PathTree.mem_entries_iff hordered, get_fromKeyVal] at he
    obtain ⟨kv, -, hkv⟩ := List.mem_map.1 (mem_of_lastValue he)
    rw [← (Prod.mk.inj hkv).1, intercalate_splitStr]
  have horder : ((intoJoinedKeyVal (fromKeyVal paths) separator).map Prod.fst).Pairwise
      fun a b => List.Lex (· < ·) (splitStr a separator) (splitStr b separator) := by
    rw [intoJoinedKeyVal_eq, List.map_map, List.pairwise_map]
    refine (PathTree.entries_sorted _ hordered).imp_of_mem fun {a b} ha hb hlex => ?_
    show List.Lex (· < ·) (splitStr (separator.intercalate a.1) separator) (splitStr (separator.intercalate b.1) separator)
    rw [hsplit a ha, hsplit b hb]
    exact hlex
  refine ⟨fun s v => ?_, ?_, horder⟩
  · rw [intoJoinedKeyVal_eq, List.mem_map]
    constructor
    · rintro ⟨e, he, heq⟩
      obtain ⟨hs, hv⟩ := Prod.mk.inj heq
      have hpath := hsplit e he
      rw [hs] at hpath
      rw [PathTree.mem_entries_iff hordered, get_fromKeyVal, ← hpath, lastValue_map (splitStr_inj separator), hv] at he
      exact he
    · intro hlast
      refine ⟨(splitStr s separator, v), ?_, by rw [intercalate_splitStr]⟩
      rw [PathTree.mem_entries_iff hordered, get_fromKeyVal, lastValue_map (splitStr_inj separator)]
      exact hlast
  · refine horder.imp fun {a b} hlex heq => ?_
    rw [heq] at hlex
    exact List.lex_irrefl (fun c => lt_irrefl c) _ hlex

/-- **A tree is a finite map.** -/
theorem tree_is_map (T : Type) :
    (∀ (data : List (List String × T)) (path : List String), (fromKeyVal data).get path = lastValue data path) ∧
    ∀ (data : List (String × T)) (separator : String), IsJoinedMap data separator
      (intoJoinedKeyVal (fromKeyVal (data.map fun kv => (splitStr kv.1 separator, kv.2))) separator) :=
  ⟨get_fromKeyVal, isJoinedMap_intoJoinedKeyVal⟩

/-- `t_forth_and_back` -/
example : intoJoinedKeyVal (fromKeyVal ([("a", 2), ("a:b", 1), ("c:d", 3), ("d:e:f", 4), ("d", 5)].map
      fun kv => (splitStr kv.1 ":", kv.2))) "--" =
    [("a", 2), ("a--b", 1), ("c--d", 3), ("d", 5), ("d--e--f", 4)] := by decide +kernel

end Evobench.Util

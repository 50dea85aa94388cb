import Mathlib

/-!
# Trees of maps

In a tree every node may have a value, and has its children under keys, in the order of the keys. Its nodes are reached by
paths, which are lists of keys, so a tree is a map from paths.

## The model

* `PathTree`: the trees. `Ordered`: at every node the keys are in order, each of them once.
* `get`, `insert`: of the value at a path. `entries`: all values with their paths, from the top and from the left.

## What is proved

* `get_insert`, `get_insertAll`: a tree is a map; the last value that is inserted at a path is the one that is found.
* `mem_entries_iff`, `entries_sorted`: the entries are what is found at the paths, in the lexicographic order of the paths.
-/

namespace Library

mutual

/-- A tree: a node with its value, if it has one, and its children. -/
inductive PathTree (K T : Type) where
  /-- The node at the top. -/
  | node (value : Option T) (children : Branches K T)

/-- Children under their keys. -/
inductive Branches (K T : Type) where
  /-- No more children. -/
  | nil
  /-- A child, and more of them. -/
  | cons (key : K) (child : PathTree K T) (rest : Branches K T)

end

variable {K T : Type}

/-- Induction along the children of one node. -/
@[elab_as_elim]
theorem Branches.induction {motive : Branches K T → Prop} (nil : motive .nil)
    (cons : ∀ key child rest, motive rest → motive (.cons key child rest)) : ∀ children, motive children
  | .nil => nil
  | .cons key child rest => cons key child rest (Branches.induction nil cons rest)

/-! ### Nodes -/

namespace PathTree

/-- The value of the node at the top. -/
def value : PathTree K T → Option T
  | node value _ => value

/-- The children of the node at the top. -/
def children : PathTree K T → Branches K T
  | node _ children => children

/-- A node without a value and without children. -/
def new : PathTree K T := node none .nil

end PathTree

namespace Branches

/-- All keys. -/
def keys : Branches K T → List K
  | nil => []
  | cons key _ rest => key :: rest.keys

variable [LinearOrder K]

/-- The child under a key. -/
def find? (key : K) : Branches K T → Option (PathTree K T)
  | nil => none
  | cons k child rest => if key = k then some child else rest.find? key

/-- Change the child under a key, or a new one that is put there. -/
def alter (key : K) (f : PathTree K T → PathTree K T) : Branches K T → Branches K T
  | nil => cons key (f .new) nil
  | cons k child rest =>
    match compare key k with
    | .lt => cons key (f .new) (cons k child rest)
    | .eq => cons k (f child) rest
    | .gt => cons k child (rest.alter key f)

end Branches

namespace PathTree

variable [LinearOrder K]

/-- The value at a path. -/
def get : List K → PathTree K T → Option T
  | [], tree => tree.value
  | key :: path, tree =>
    match tree.children.find? key with
    | some child => get path child
    | none => none

/-- Set the value at a path. -/
def insert : List K → T → PathTree K T → PathTree K T
  | [], v, tree => node (some v) tree.children
  | key :: path, v, tree => node tree.value (tree.children.alter key (insert path v))

end PathTree

mutual

/-- At all nodes the keys are in order. -/
def PathTree.Ordered [LinearOrder K] : PathTree K T → Prop
  | .node _ children => children.Ordered

/-- The keys are in order, at these nodes and below. -/
def Branches.Ordered [LinearOrder K] : Branches K T → Prop
  | .nil => True
  | .cons key child rest => child.Ordered ∧ (∀ k ∈ rest.keys, key < k) ∧ rest.Ordered

end

mutual

/-- All values with their paths. -/
def PathTree.entries : PathTree K T → List (List K × T)
  | .node value children => value.toList.map (fun v => ([], v)) ++ children.entries

/-- All values below, with their paths. -/
def Branches.entries : Branches K T → List (List K × T)
  | .nil => []
  | .cons key child rest => child.entries.map (fun e => (key :: e.1, e.2)) ++ rest.entries

end

/-! ### Children -/

namespace Branches

variable [LinearOrder K] {key k : K} {f : PathTree K T → PathTree K T} {child : PathTree K T} {rest : Branches K T}

theorem find?_eq_none : ∀ {children : Branches K T}, key ∉ children.keys → children.find? key = none
  | nil, _ => rfl
  | cons k child rest, h => by
    have hne : k ≠ key := fun he => h (he ▸ List.mem_cons_self)
    rw [find?, if_neg hne.symm, find?_eq_none fun hmem => h (List.mem_cons_of_mem _ hmem)]

theorem alter_of_lt (h : key < k) : (cons k child rest).alter key f = cons key (f .new) (cons k child rest) := by
  rw [alter, compare_lt_iff_lt.2 h]

theorem alter_of_gt (h : k < key) : (cons k child rest).alter key f = cons k child (rest.alter key f) := by
  rw [alter, compare_gt_iff_gt.2 h]

theorem alter_self : (cons key child rest).alter key f = cons key (f child) rest := by
  rw [alter, compare_eq_iff_eq.2 rfl]

theorem mem_keys_alter {children : Branches K T} : k ∈ (children.alter key f).keys ↔ k = key ∨ k ∈ children.keys := by
  induction children using Branches.induction with
  | nil => exact List.mem_cons
  | cons k' child rest ih =>
    rcases lt_trichotomy key k' with hlt | rfl | hgt
    · rw [alter_of_lt hlt]
      exact List.mem_cons
    · rw [alter_self]
      show k ∈ key :: rest.keys ↔ k = key ∨ k ∈ key :: rest.keys
      rw [List.mem_cons, or_self_left]
    · rw [alter_of_gt hgt]
      show k ∈ k' :: (rest.alter key f).keys ↔ k = key ∨ k ∈ k' :: rest.keys
      rw [List.mem_cons, List.mem_cons, ih, or_left_comm]

/-- The keys stay in order. -/
theorem Ordered.alter {children : Branches K T} (h : children.Ordered) (hf : ∀ tree, tree.Ordered → (f tree).Ordered) :
    (children.alter key f).Ordered := by
  have hnew : (f .new).Ordered := hf _ (by rw [PathTree.new, PathTree.Ordered, Branches.Ordered]; trivial)
  induction children using Branches.induction with
  | nil =>
    rw [Branches.alter, Branches.Ordered]
    exact ⟨hnew, List.forall_mem_nil _, h⟩
  | cons k child rest ih =>
    have hall := h
    rw [Branches.Ordered] at h
    obtain ⟨hchild, hkeys, hrest⟩ := h
    rcases lt_trichotomy key k with hlt | rfl | hgt
    · rw [alter_of_lt hlt, Branches.Ordered]
      refine ⟨hnew, List.forall_mem_cons.2 ⟨hlt, fun k' hk' => hlt.trans (hkeys k' hk')⟩, hall⟩
    · rw [alter_self, Branches.Ordered]
      exact ⟨hf _ hchild, hkeys, hrest⟩
    · rw [alter_of_gt hgt, Branches.Ordered]
      refine ⟨hchild, fun k' hk' => ?_, ih hrest⟩
      rcases mem_keys_alter.1 hk' with rfl | hk'
      · exact hgt
      · exact hkeys k' hk'

theorem Ordered.find? {children : Branches K T} (h : children.Ordered) (hfind : children.find? key = some child) :
    child.Ordered := by
  induction children using Branches.induction with
  | nil => cases hfind
  | cons k child' rest ih =>
    rw [Ordered] at h
    rw [Branches.find?] at hfind
    split_ifs at hfind with hk
    · cases hfind
      exact h.1
    · exact ih h.2.2 hfind

/-- Only the child under the key is changed. -/
theorem find?_alter {children : Branches K T} (h : children.Ordered) :
    (children.alter key f).find? k = if k = key then some (f ((children.find? key).getD .new)) else children.find? k := by
  induction children using Branches.induction with
  | nil => rfl
  | cons k' child rest ih =>
    rw [Ordered] at h
    obtain ⟨-, hkeys, hrest⟩ := h
    rcases lt_trichotomy key k' with hlt | rfl | hgt
    · -- the key is less than all keys
      have hnot : key ∉ (cons k' child rest).keys := by
        intro hmem
        rcases List.mem_cons.1 hmem with rfl | hmem
        · exact lt_irrefl _ hlt
        · exact lt_asymm hlt (hkeys key hmem)
      rw [alter_of_lt hlt, find?_eq_none hnot]
      rfl
    · rw [alter_self, find?, find?, find?, if_pos rfl]
      split_ifs
      · rfl
      · rfl
    · rw [alter_of_gt hgt, find?, ih hrest, find?, find?, if_neg hgt.ne']
      by_cases hk : k = k'
      · rw [if_pos hk, if_neg (hk.trans_ne hgt.ne), if_pos hk]
      · rw [if_neg hk, if_neg hk]

end Branches

/-! ### Values -/

section LastValue

variable {P : Type} [DecidableEq P]

/-- The value of the last pair of a list that has the key. -/
def lastValue (data : List (P × T)) (key : P) : Option T := (data.reverse.find? fun kv => kv.1 = key).map Prod.snd

theorem lastValue_cons (kv : P × T) (data : List (P × T)) (key : P) :
    lastValue (kv :: data) key = (lastValue data key).or (if key = kv.1 then some kv.2 else none) := by
  rw [lastValue, List.reverse_cons, List.find?_append, lastValue]
  cases data.reverse.find? fun kv => kv.1 = key with
  | some found => rfl
  | none =>
    by_cases hkey : key = kv.1
    · rw [if_pos hkey, List.find?_singleton, if_pos (decide_eq_true hkey.symm)]
      rfl
    · rw [if_neg hkey, List.find?_singleton, if_neg (by simpa using Ne.symm hkey)]
      rfl

theorem mem_of_lastValue {data : List (P × T)} {key : P} {v : T} (h : lastValue data key = some v) : (key, v) ∈ data := by
  obtain ⟨kv, hfind, rfl⟩ := Option.map_eq_some_iff.1 h
  have hkey : kv.1 = key := by simpa using List.find?_some hfind
  rw [← hkey]
  exact List.mem_reverse.1 (List.mem_of_find?_eq_some hfind)

/-- The keys may be written differently. -/
theorem lastValue_map {P' : Type} [DecidableEq P'] {f : P → P'} (hf : ∀ a b, f a = f b → a = b) (data : List (P × T))
    (key : P) : lastValue (data.map fun kv => (f kv.1, kv.2)) (f key) = lastValue data key := by
  induction data with
  | nil => rfl
  | cons kv data ih =>
    have hsame : (f key = f kv.1) = (key = kv.1) := propext ⟨hf _ _, congrArg f⟩
    rw [List.map_cons, lastValue_cons, lastValue_cons, ih, if_congr (Iff.of_eq hsame) rfl rfl]

end LastValue

namespace PathTree

variable [LinearOrder K]

theorem ordered_new : (new : PathTree K T).Ordered := by
  rw [new, Ordered, Branches.Ordered]
  trivial

theorem Ordered.children {tree : PathTree K T} (h : tree.Ordered) : tree.children.Ordered := by
  cases tree with
  | node value children => rwa [Ordered] at h

theorem Ordered.insert {tree : PathTree K T} (h : tree.Ordered) (path : List K) (v : T) : (tree.insert path v).Ordered := by
  induction path generalizing tree with
  | nil =>
    rw [PathTree.insert, Ordered]
    exact h.children
  | cons key path ih =>
    rw [PathTree.insert, Ordered]
    exact h.children.alter fun _ => ih

theorem get_new (path : List K) : (new : PathTree K T).get path = none := by
  cases path with
  | nil => rfl
  | cons key path => rfl

/-- **A tree is a map**: only the value at the path is set. -/
theorem get_insert {tree : PathTree K T} (h : tree.Ordered) (path q : List K) (v : T) :
    (tree.insert path v).get q = if q = path then some v else tree.get q := by
  induction path generalizing tree q with
  | nil =>
    cases q with
    | nil => rfl
    | cons key q => rfl
  | cons key path ih =>
    cases q with
    | nil => rfl
    | cons k q =>
      rw [insert, get, children, Branches.find?_alter h.children, get]
      by_cases hk : k = key
      · subst hk
        have hsame : (k :: q = k :: path) = (q = path) := by rw [List.cons.injEq, eq_self, true_and]
        rw [if_pos rfl, if_congr (Iff.of_eq hsame) rfl rfl]
        cases hfind : tree.children.find? k with
        | none =>
          show (insert path v new).get q = _
          rw [ih ordered_new, get_new]
        | some child => exact ih (h.children.find? hfind) q
      · have hne : k :: q ≠ key :: path := fun he => hk (List.cons.inj he).1
        rw [if_neg hk, if_neg hne]

/-- Set the values of a list, one after the other. -/
def insertAll (tree : PathTree K T) (data : List (List K × T)) : PathTree K T :=
  data.foldl (fun tree kv => tree.insert kv.1 kv.2) tree

theorem Ordered.insertAll {tree : PathTree K T} (h : tree.Ordered) (data : List (List K × T)) :
    (tree.insertAll data).Ordered := by
  induction data generalizing tree with
  | nil => exact h
  | cons kv data ih => exact ih (h.insert kv.1 kv.2)

/-- **The last one wins**: at every path, what has been set last is found. -/
theorem get_insertAll {tree : PathTree K T} (h : tree.Ordered) (data : List (List K × T)) (path : List K) :
    (tree.insertAll data).get path = (lastValue data path).or (tree.get path) := by
  induction data generalizing tree with
  | nil => rfl
  | cons kv data ih =>
    show ((tree.insert kv.1 kv.2).insertAll data).get path = _
    rw [ih (h.insert kv.1 kv.2), get_insert h, lastValue_cons, Option.or_assoc]
    congr 1
    split_ifs
    · rfl
    · rfl

end PathTree

/-! ### Entries -/

section Entries

/-- The paths below a node begin with one of its keys. -/
theorem Branches.exists_key_of_mem_entries {children : Branches K T} {e : List K × T} (h : e ∈ children.entries) :
    ∃ key ∈ children.keys, ∃ q, e.1 = key :: q := by
  induction children using Branches.induction with
  | nil => cases h
  | cons key child rest ih =>
    rw [entries, List.mem_append, List.mem_map] at h
    rcases h with ⟨e', -, rfl⟩ | h
    · exact ⟨key, List.mem_cons_self, e'.1, rfl⟩
    · obtain ⟨key', hkey', hq⟩ := ih h
      exact ⟨key', List.mem_cons_of_mem _ hkey', hq⟩

variable [LinearOrder K]

/-- The entries below a node. -/
theorem Branches.mem_entries_iff {children : Branches K T} (h : children.Ordered) {path : List K} {v : T} :
    (path, v) ∈ children.entries ↔
      ∃ key q child, path = key :: q ∧ children.find? key = some child ∧ (q, v) ∈ child.entries := by
  induction children using Branches.induction with
  | nil =>
    constructor
    · intro hmem
      cases hmem
    · rintro ⟨key, q, child, -, hfind, -⟩
      cases hfind
  | cons k child rest ih =>
    rw [Ordered] at h
    obtain ⟨-, hkeys, hrest⟩ := h
    rw [entries, List.mem_append, List.mem_map, ih hrest]
    constructor
    · rintro (⟨⟨q, v'⟩, hmem, heq⟩ | ⟨key, q, child', hpath, hfind, hmem⟩)
      · cases heq
        exact ⟨k, q, child, rfl, if_pos rfl, hmem⟩
      · have hkey : key ∈ rest.keys := by
          by_contra hnot
          rw [find?_eq_none hnot] at hfind
          cases hfind
        exact ⟨key, q, child', hpath, by rw [find?, if_neg (hkeys key hkey).ne', hfind], hmem⟩
    · rintro ⟨key, q, child', hpath, hfind, hmem⟩
      rw [find?] at hfind
      split_ifs at hfind with hk
      · cases hfind
        exact .inl ⟨(q, v), hmem, by rw [hpath, hk]⟩
      · exact .inr ⟨key, q, child', hpath, hfind, hmem⟩

/-- **The entries are what is found.** -/
theorem PathTree.mem_entries_iff {tree : PathTree K T} (h : tree.Ordered) {path : List K} {v : T} :
    (path, v) ∈ tree.entries ↔ tree.get path = some v := by
  induction path generalizing tree with
  | nil =>
    cases tree with
    | node value children =>
      have hchildren : children.Ordered := h.children
      rw [entries, List.mem_append, List.mem_map, Branches.mem_entries_iff hchildren]
      constructor
      · rintro (⟨v', hv', heq⟩ | ⟨key, q, child, hpath, -⟩)
        · cases heq
          exact Option.mem_toList.1 hv'
        · cases hpath
      · intro hget
        exact .inl ⟨v, Option.mem_toList.2 hget, rfl⟩
  | cons key path ih =>
    cases tree with
    | node value children =>
      have hchildren : children.Ordered := h.children
      rw [entries, List.mem_append, List.mem_map, Branches.mem_entries_iff hchildren, get]
      constructor
      · rintro (⟨v', -, heq⟩ | ⟨key', q, child, hpath, hfind, hmem⟩)
        · cases heq
        · cases hpath
          show (match children.find? key with | some child => child.get path | none => none) = some v
          rw [hfind]
          exact (ih (hchildren.find? hfind)).1 hmem
      · intro hget
        cases hfind : children.find? key with
        | none =>
          rw [PathTree.children, hfind] at hget
          cases hget
        | some child =>
          rw [PathTree.children, hfind] at hget
          exact .inr ⟨key, path, child, rfl, hfind, (ih (hchildren.find? hfind)).2 hget⟩

/-- Before in the lexicographic order of the paths. -/
def Before (a b : List K × T) : Prop := List.Lex (· < ·) a.1 b.1

mutual

/-- **The entries are in the order of the paths.** -/
theorem PathTree.entries_sorted : ∀ tree : PathTree K T, tree.Ordered → tree.entries.Pairwise Before
  | .node value children, h => by
    rw [PathTree.Ordered] at h
    rw [PathTree.entries, List.pairwise_append]
    refine ⟨?_, children.entries_sorted h, fun e he e' he' => ?_⟩
    · cases value with
      | none => exact .nil
      | some v => exact List.pairwise_singleton _ _
    · obtain ⟨v, -, rfl⟩ := List.mem_map.1 he
      obtain ⟨key, -, q, hq⟩ := Branches.exists_key_of_mem_entries he'
      rw [Before, hq]
      exact .nil

theorem Branches.entries_sorted : ∀ children : Branches K T, children.Ordered → children.entries.Pairwise Before
  | .nil, _ => .nil
  | .cons key child rest, h => by
    rw [Branches.Ordered] at h
    obtain ⟨hchild, hkeys, hrest⟩ := h
    rw [Branches.entries, List.pairwise_append, List.pairwise_map]
    refine ⟨(child.entries_sorted hchild).imp fun hlex => .cons hlex, rest.entries_sorted hrest, fun e he e' he' => ?_⟩
    obtain ⟨e, -, rfl⟩ := List.mem_map.1 he
    obtain ⟨key', hkey', q, hq⟩ := Branches.exists_key_of_mem_entries he'
    rw [Before, hq]
    exact .rel (hkeys key' hkey')

end

end Entries

end Library

import Evobench.Library.MergeJoin
import Evobench.Library.Program
import Mathlib.Data.List.Forall2

/-!
# Joins of sequences

Sequences of keys with values are joined by their keys: what all of them have is kept, with the values of all of them. One
and two sequences are joined directly, more of them by halves.

The merge of two sequences (`merge_join_by`) comes from a library; here it is any function that does what a merge does
(`Library.Merging`).
-/

namespace Evobench.Join

open Library

/-- `KeyVal` -/
structure KeyVal (K V : Type) where
  /-- `key` -/
  key : K
  /-- `val` -/
  val : V
deriving DecidableEq, Repr

/-- `expect` -/
def expect {ε α : Type} (msg : String) : Option α → Outcome ε α
  | some a => .ok a
  | none => .panic msg

section Join

variable {K V V₁ V₂ : Type} [LinearOrder K]

section Model

variable (mergeJoinBy : ∀ {α β : Type}, (α → β → Ordering) → List α → List β → List (EitherOrBoth α β))

/-- `keyval_inner_join_2` -/
def keyvalInnerJoin2 (a : List (KeyVal K V₁)) (b : List (KeyVal K V₂)) : List (KeyVal K (V₁ × V₂)) :=
  (mergeJoinBy (fun a b => compare a.key b.key) a b).filterMap fun eob =>
    match eob with
    | .both a b => some ⟨a.key, (a.val, b.val)⟩
    | .left _ => none
    | .right _ => none

/-- `keyval_inner_join`: every sequence is taken out of its place. -/
def keyvalInnerJoin (sequences : List (Option (List (KeyVal K V)))) : Outcome Empty (Option (List (KeyVal K (List V)))) :=
  match sequences with
  | [] => pure none
  | [s] => do
    let s ← expect "checked" s
    pure (some (s.map fun kv => ⟨kv.key, [kv.val]⟩))
  | [s₁, s₂] => do
    let s₁ ← expect "checked" s₁
    let s₂ ← expect "checked" s₂
    pure (some ((keyvalInnerJoin2 mergeJoinBy s₁ s₂).map fun kv => ⟨kv.key, [kv.val.1, kv.val.2]⟩))
  | s₁ :: s₂ :: s₃ :: rest => do
    let n := (s₁ :: s₂ :: s₃ :: rest).length
    let ar ← keyvalInnerJoin ((s₁ :: s₂ :: s₃ :: rest).take (n / 2))
    let ar ← expect "at least 1 out of 3+" ar
    let br ← keyvalInnerJoin ((s₁ :: s₂ :: s₃ :: rest).drop (n / 2))
    let br ← expect "at least 1 out of 3+" br
    pure (some ((keyvalInnerJoin2 mergeJoinBy ar br).map fun kv => ⟨kv.key, kv.val.1 ++ kv.val.2⟩))
termination_by sequences.length
decreasing_by
  · simp only [List.length_take, List.length_cons]
    omega
  · simp only [List.length_drop, List.length_cons]
    omega

end Model

/-- In the order of the keys, each of them once. -/
def StrictlySorted (s : List (KeyVal K V)) : Prop := s.Pairwise fun a b => a.key < b.key

/-- **The inner join** of sequences. -/
structure IsInnerJoin (sequences : List (List (KeyVal K V))) (out : List (KeyVal K (List V))) : Prop where
  /-- It is in the order of the keys. -/
  sorted : StrictlySorted out
  /-- It has the keys that all sequences have. -/
  keys : ∀ k, k ∈ out.map KeyVal.key ↔ ∀ s ∈ sequences, k ∈ s.map KeyVal.key
  /-- The values are those of the sequences, in the order of the sequences. -/
  values : ∀ kv ∈ out, List.Forall₂ (fun s v => ⟨kv.key, v⟩ ∈ s) sequences kv.val

/-! ### Two sequences -/

/-- The values are changed. -/
def KeyVal.mapVal (u : V₁ → V₂) (kv : KeyVal K V₁) : KeyVal K V₂ := ⟨kv.key, u kv.val⟩

omit [LinearOrder K] in
theorem mem_map_key {s : List (KeyVal K V)} {k : K} : k ∈ s.map KeyVal.key ↔ ∃ v, ⟨k, v⟩ ∈ s := by
  rw [List.mem_map]
  constructor
  · rintro ⟨kv, hkv, rfl⟩
    exact ⟨kv.val, hkv⟩
  · rintro ⟨v, hv⟩
    exact ⟨_, hv, rfl⟩

omit [LinearOrder K] in
theorem map_key_mapVal (u : V₁ → V₂) (s : List (KeyVal K V₁)) :
    (s.map (KeyVal.mapVal u)).map KeyVal.key = s.map KeyVal.key := by
  rw [List.map_map]
  rfl

theorem strictlySorted_map {u : V₁ → V₂} {s : List (KeyVal K V₁)} :
    StrictlySorted (s.map (KeyVal.mapVal u)) ↔ StrictlySorted s := List.pairwise_map

variable {mergeJoinBy : ∀ {α β : Type}, (α → β → Ordering) → List α → List β → List (EitherOrBoth α β)}

/-- What has come together, with both values. -/
theorem keyvalInnerJoin2_eq (a : List (KeyVal K V₁)) (b : List (KeyVal K V₂)) :
    keyvalInnerJoin2 mergeJoinBy a b =
      (joined mergeJoinBy KeyVal.key KeyVal.key a b).map fun t => ⟨t.1.key, (t.1.val, t.2.val)⟩ := by
  rw [keyvalInnerJoin2, joined, List.map_filterMap]
  congr 1
  funext eob
  cases eob with
  | left a => rfl
  | right b => rfl
  | both a b => rfl

section Join2

variable {a : List (KeyVal K V₁)} {b : List (KeyVal K V₂)} (hmerge : Merging mergeJoinBy) (ha : StrictlySorted a)
  (hb : StrictlySorted b)

include hmerge ha

theorem strictlySorted_keyvalInnerJoin2 : StrictlySorted (keyvalInnerJoin2 mergeJoinBy a b) := by
  have hsorted := List.pairwise_map.1 (ha.sublist (joined_sublist (g := KeyVal.key) (f := KeyVal.key) hmerge a b))
  rw [keyvalInnerJoin2_eq, StrictlySorted, List.pairwise_map]
  exact hsorted

include hb

theorem mem_keyvalInnerJoin2 {k : K} {v₁ : V₁} {v₂ : V₂} :
    ⟨k, (v₁, v₂)⟩ ∈ keyvalInnerJoin2 mergeJoinBy a b ↔ ⟨k, v₁⟩ ∈ a ∧ ⟨k, v₂⟩ ∈ b := by
  rw [keyvalInnerJoin2_eq, List.mem_map]
  constructor
  · rintro ⟨⟨⟨k₁, v₁'⟩, ⟨k₂, v₂'⟩⟩, hmem, heq⟩
    obtain ⟨h₁, h₂, hkey⟩ := mem_of_mem_joined hmerge hmem
    have hkey : k₁ = k₂ := hkey
    cases hkey
    cases heq
    exact ⟨h₁, h₂⟩
  · rintro ⟨h₁, h₂⟩
    exact ⟨(⟨k, v₁⟩, ⟨k, v₂⟩), mem_joined_of_mem hmerge ha hb h₁ h₂ rfl, rfl⟩

omit ha hb in
/-- **Joins of joins**: the values of the two are put together. -/
theorem IsInnerJoin.join {l r : List (List (KeyVal K V))} {u : V₁ → List V} {w : V₂ → List V}
    (hl : IsInnerJoin l (a.map (KeyVal.mapVal u))) (hr : IsInnerJoin r (b.map (KeyVal.mapVal w))) :
    IsInnerJoin (l ++ r)
      ((keyvalInnerJoin2 mergeJoinBy a b).map fun kv => ⟨kv.key, u kv.val.1 ++ w kv.val.2⟩) := by
  have ha : StrictlySorted a := strictlySorted_map.1 hl.sorted
  have hb : StrictlySorted b := strictlySorted_map.1 hr.sorted
  refine ⟨?_, fun k => ?_, fun kv hkv => ?_⟩
  · rw [StrictlySorted, List.pairwise_map]
    exact strictlySorted_keyvalInnerJoin2 hmerge ha
  · have hleft := hl.keys k
    have hright := hr.keys k
    rw [map_key_mapVal, mem_map_key] at hleft hright
    rw [List.forall_mem_append, ← hleft, ← hright, List.map_map]
    constructor
    · intro h
      obtain ⟨⟨k', v₁, v₂⟩, hmem, rfl⟩ := List.mem_map.1 h
      obtain ⟨h₁, h₂⟩ := (mem_keyvalInnerJoin2 hmerge ha hb).1 hmem
      exact ⟨⟨v₁, h₁⟩, ⟨v₂, h₂⟩⟩
    · rintro ⟨⟨v₁, h₁⟩, ⟨v₂, h₂⟩⟩
      exact List.mem_map.2 ⟨⟨k, (v₁, v₂)⟩, (mem_keyvalInnerJoin2 hmerge ha hb).2 ⟨h₁, h₂⟩, rfl⟩
  · obtain ⟨⟨k, v₁, v₂⟩, hmem, rfl⟩ := List.mem_map.1 hkv
    obtain ⟨h₁, h₂⟩ := (mem_keyvalInnerJoin2 hmerge ha hb).1 hmem
    exact List.rel_append (hl.values _ (List.mem_map_of_mem h₁)) (hr.values _ (List.mem_map_of_mem h₂))

end Join2

/-! ### Any number of sequences -/

theorem IsInnerJoin.singleton {s : List (KeyVal K V)} (hs : StrictlySorted s) :
    IsInnerJoin [s] (s.map (KeyVal.mapVal fun v => [v])) := by
  refine ⟨strictlySorted_map.2 hs, fun k => ?_, fun kv hkv => ?_⟩
  · rw [map_key_mapVal, List.forall_mem_singleton]
  · obtain ⟨kv', hkv', rfl⟩ := List.mem_map.1 hkv
    exact .cons hkv' .nil

omit [LinearOrder K] in
theorem map_mapVal_id (s : List (KeyVal K V)) : s.map (KeyVal.mapVal id) = s := List.map_id' s

theorem keyvalInnerJoin_of_three_le {sequences : List (Option (List (KeyVal K V)))} (h : 3 ≤ sequences.length) :
    keyvalInnerJoin mergeJoinBy sequences = (do
      let ar ← keyvalInnerJoin mergeJoinBy (sequences.take (sequences.length / 2))
      let ar ← expect "at least 1 out of 3+" ar
      let br ← keyvalInnerJoin mergeJoinBy (sequences.drop (sequences.length / 2))
      let br ← expect "at least 1 out of 3+" br
      pure (some ((keyvalInnerJoin2 mergeJoinBy ar br).map fun kv => ⟨kv.key, kv.val.1 ++ kv.val.2⟩))) := by
  rcases sequences with _ | ⟨s₁, _ | ⟨s₂, _ | ⟨s₃, rest⟩⟩⟩
  · cases h
  · exact absurd h (Nat.not_le.2 (Nat.lt_succ_of_le (Nat.le_succ 1)))
  · exact absurd h (Nat.not_le.2 (Nat.lt_succ_self 2))
  · rw [keyvalInnerJoin]

/-- **Induction along the halves**: what holds of one sequence, and of a join if it holds of both halves. -/
theorem keyvalInnerJoin_induction {P : List (List (KeyVal K V)) → List (KeyVal K (List V)) → Prop}
    (one : ∀ s, P [s] (s.map (KeyVal.mapVal fun v => [v])))
    (join : ∀ {V₁ V₂ : Type} (l r : List (List (KeyVal K V))) (a : List (KeyVal K V₁)) (b : List (KeyVal K V₂)) (u : V₁ → List V)
      (w : V₂ → List V), l ≠ [] → r ≠ [] → l.length = (l ++ r).length / 2 → P l (a.map (KeyVal.mapVal u)) →
        P r (b.map (KeyVal.mapVal w)) →
          P (l ++ r) ((keyvalInnerJoin2 mergeJoinBy a b).map fun kv => ⟨kv.key, u kv.val.1 ++ w kv.val.2⟩))
    {sequences : List (List (KeyVal K V))} (hne : 1 ≤ sequences.length) :
    ∃ out, keyvalInnerJoin mergeJoinBy (sequences.map some) = .ok (some out) ∧ P sequences out := by
  induction hn : sequences.length using Nat.strong_induction_on generalizing sequences with
  | _ n ih =>
    rcases sequences with _ | ⟨s₁, _ | ⟨s₂, _ | ⟨s₃, rest⟩⟩⟩
    · cases hne
    · refine ⟨_, ?_, one s₁⟩
      rw [List.map_cons, List.map_nil, keyvalInnerJoin]
      rfl
    · refine ⟨_, ?_, join [s₁] [s₂] s₁ s₂ _ _ (List.cons_ne_nil _ _) (List.cons_ne_nil _ _) (by simp) (one s₁) (one s₂)⟩
      rw [List.map_cons, List.map_cons, List.map_nil, keyvalInnerJoin]
      rfl
    · generalize hs : s₁ :: s₂ :: s₃ :: rest = sequences at hne hn ⊢
      have hlen : 3 ≤ sequences.length := by
        rw [← hs]
        exact Nat.le_add_left _ _
      have htake : (sequences.take (sequences.length / 2)).length = sequences.length / 2 := by
        rw [List.length_take]
        omega
      have hdrop : (sequences.drop (sequences.length / 2)).length = sequences.length - sequences.length / 2 :=
        List.length_drop
      -- both halves are joined
      obtain ⟨ar, har, hl⟩ := ih (sequences.take (sequences.length / 2)).length (by omega) (by omega) rfl
      obtain ⟨br, hbr, hr⟩ := ih (sequences.drop (sequences.length / 2)).length (by omega) (by omega) rfl
      rw [← map_mapVal_id ar] at hl
      rw [← map_mapVal_id br] at hr
      have hjoin := join _ _ ar br id id (List.length_pos_iff.1 (by omega)) (List.length_pos_iff.1 (by omega))
        (by rwa [List.take_append_drop]) hl hr
      rw [List.take_append_drop] at hjoin
      refine ⟨_, ?_, hjoin⟩
      rw [keyvalInnerJoin_of_three_le (by rwa [List.length_map]), List.length_map, ← List.map_take, ← List.map_drop, har,
        hbr]
      rfl

/-- **The join of sequences** in the order of their keys. -/
theorem isInnerJoin_keyvalInnerJoin (hmerge : Merging mergeJoinBy) {sequences : List (List (KeyVal K V))}
    (hne : 1 ≤ sequences.length) (hsorted : ∀ s ∈ sequences, StrictlySorted s) :
    ∃ out, keyvalInnerJoin mergeJoinBy (sequences.map some) = .ok (some out) ∧ IsInnerJoin sequences out := by
  obtain ⟨out, hout, hjoin⟩ := keyvalInnerJoin_induction
    (P := fun sequences out => (∀ s ∈ sequences, StrictlySorted s) → IsInnerJoin sequences out)
    (fun s hs => IsInnerJoin.singleton (hs s List.mem_cons_self))
    (fun l r a b u w _ _ _ hl hr hs => IsInnerJoin.join hmerge (hl fun s h => hs s (List.mem_append_left _ h))
      (hr fun s h => hs s (List.mem_append_right _ h))) hne
  exact ⟨out, hout, hjoin hsorted⟩

end Join

/-- Three sequences, with one common key. -/
theorem isInnerJoin_keyvalInnerJoin_sample :
    let sequences : List (List (KeyVal ℕ ℕ)) := [[⟨1, 10⟩, ⟨3, 11⟩], [⟨3, 20⟩, ⟨4, 21⟩], [⟨2, 30⟩, ⟨3, 31⟩]]
    ∃ out, keyvalInnerJoin mergeJoinBy (sequences.map some) = .ok (some out) ∧ IsInnerJoin sequences out := by
  intro sequences
  have hsorted : ∀ s ∈ sequences, StrictlySorted s := by simp [sequences, StrictlySorted]
  exact isInnerJoin_keyvalInnerJoin merging_mergeJoinBy (Nat.le_add_left 1 2) hsorted

end Evobench.Join

import Evobench.Join
import Evobench.Library.TwoAscents

/-!
# Joins of sequences out of order

The sequences that are joined may consist of two parts, each of which is in order. Then a key that all of them have may be
missing in the join: it depends on the halves in which they are joined.

## The model

* `Meets`: a key is not passed by in any of the halves.
* `IsPartialJoin`: what is found, with which values, and what stands ahead of it.

## What is proved

* `isPartialJoin_keyvalInnerJoin`: the join of sequences of two ascents.
-/

namespace Evobench.Join

open Library

variable {K V V₁ V₂ : Type} [LinearOrder K]

/-! ### What is found -/

/-- What stands ahead of a key in all sequences. -/
def aheadInAll (q : K) (kss : List (List K)) : List K := (ahead q (kss.headD [])).filter fun k => ∀ ks ∈ kss, k ∈ ahead q ks

/-- **A key is not passed by**: in all halves, what stands ahead of it reaches as far as in the other half. -/
inductive Meets (q : K) : List (List K) → Prop where
  /-- One sequence. -/
  | one (ks : List K) : Meets q [ks]
  /-- More of them are joined by halves. -/
  | halves {kss : List (List K)} (h : 2 ≤ kss.length) (left : Meets q (kss.take (kss.length / 2)))
      (right : Meets q (kss.drop (kss.length / 2)))
      (same : SameGreatest (aheadInAll q (kss.take (kss.length / 2))) (aheadInAll q (kss.drop (kss.length / 2)))) :
      Meets q kss

/-- **The join** of sequences of two ascents. -/
structure IsPartialJoin (sequences : List (List (KeyVal K V))) (out : List (KeyVal K (List V))) : Prop where
  /-- Its keys come from all sequences, in the order in which they are there. -/
  sublist : ∀ s ∈ sequences, (out.map KeyVal.key).Sublist (s.map KeyVal.key)
  /-- The values are those of the sequences, in the order of the sequences. -/
  values : ∀ kv ∈ out, List.Forall₂ (fun s v => ⟨kv.key, v⟩ ∈ s) sequences kv.val
  /-- The keys that are found, of those that are once in each sequence. -/
  keys : ∀ q, (∀ s ∈ sequences, (s.map KeyVal.key).count q = 1) →
    (q ∈ out.map KeyVal.key ↔ Meets q (sequences.map (List.map KeyVal.key)))
  /-- What stands ahead of them. -/
  ahead : ∀ q, (∀ s ∈ sequences, (s.map KeyVal.key).count q = 1) → q ∈ out.map KeyVal.key →
    ∀ k, k ∈ Library.ahead q (out.map KeyVal.key) ↔ ∀ s ∈ sequences, k ∈ Library.ahead q (s.map KeyVal.key)

theorem mem_aheadInAll {q k : K} {kss : List (List K)} (hne : kss ≠ []) :
    k ∈ aheadInAll q kss ↔ ∀ ks ∈ kss, k ∈ ahead q ks := by
  rw [aheadInAll, List.mem_filter, decide_eq_true_iff]
  refine and_iff_right_of_imp fun h => ?_
  cases kss with
  | nil => exact absurd rfl hne
  | cons ks kss => exact h ks List.mem_cons_self

/-- Two halves. -/
theorem meets_append_iff {q : K} {l r : List (List K)} (hl : l ≠ []) (hr : r ≠ []) (hhalf : l.length = (l ++ r).length / 2) :
    Meets q (l ++ r) ↔ Meets q l ∧ Meets q r ∧ SameGreatest (aheadInAll q l) (aheadInAll q r) := by
  have htake : (l ++ r).take ((l ++ r).length / 2) = l := by rw [← hhalf, List.take_left]
  have hdrop : (l ++ r).drop ((l ++ r).length / 2) = r := by rw [← hhalf, List.drop_left]
  have htwo : 2 ≤ (l ++ r).length := by
    have hlpos := List.length_pos_iff.2 hl
    have hrpos := List.length_pos_iff.2 hr
    rw [List.length_append]
    omega
  constructor
  · intro h
    generalize hkss : l ++ r = kss at h htake hdrop htwo
    cases h with
    | one ks => exact absurd htwo (by simp)
    | halves _ left right same =>
      rw [htake] at left same
      rw [hdrop] at right same
      exact ⟨left, right, same⟩
  · rintro ⟨left, right, same⟩
    refine .halves htwo ?_ ?_ ?_
    · rwa [htake]
    · rwa [hdrop]
    · rwa [htake, hdrop]

/-- Two sequences. -/
theorem meets_pair_iff {q : K} {ks ks' : List K} : Meets q [ks, ks'] ↔ SameGreatest (ahead q ks) (ahead q ks') := by
  have hone : ∀ (ks : List K) (k : K), k ∈ aheadInAll q [ks] ↔ k ∈ ahead q ks := by
    intro ks k
    rw [mem_aheadInAll (List.cons_ne_nil _ _), List.forall_mem_singleton]
  have hpair := meets_append_iff (q := q) (List.cons_ne_nil ks []) (List.cons_ne_nil ks' []) (by simp)
  rw [List.singleton_append] at hpair
  rw [hpair]
  constructor
  · rintro ⟨-, -, same⟩
    exact same.congr (hone ks) (hone ks')
  · intro same
    exact ⟨.one ks, .one ks', same.congr (fun k => (hone ks k).symm) fun k => (hone ks' k).symm⟩

/-! ### Two halves -/

section Join2

variable {mergeJoinBy : ∀ {α β : Type}, (α → β → Ordering) → List α → List β → List (EitherOrBoth α β)}
  {a : List (KeyVal K V₁)} {b : List (KeyVal K V₂)} {u : V₁ → List V} {w : V₂ → List V} {l r : List (List (KeyVal K V))}

theorem map_key_keyvalInnerJoin2 (a : List (KeyVal K V₁)) (b : List (KeyVal K V₂)) :
    ((keyvalInnerJoin2 mergeJoinBy a b).map fun kv => (⟨kv.key, u kv.val.1 ++ w kv.val.2⟩ : KeyVal K (List V))).map
        KeyVal.key = joinedKeys mergeJoinBy KeyVal.key KeyVal.key a b := by
  rw [keyvalInnerJoin2_eq, List.map_map, List.map_map]
  rfl

theorem IsPartialJoin.sublist' (h : IsPartialJoin l (a.map (KeyVal.mapVal u))) :
    ∀ s ∈ l, (a.map KeyVal.key).Sublist (s.map KeyVal.key) := by
  have hsub := h.sublist
  rwa [map_key_mapVal] at hsub

/-- A key that is once in each sequence is once in their join. -/
theorem IsPartialJoin.count_eq_one (h : IsPartialJoin l (a.map (KeyVal.mapVal u))) (hne : l ≠ []) {q : K}
    (hq : ∀ s ∈ l, (s.map KeyVal.key).count q = 1) (hmem : q ∈ a.map KeyVal.key) : (a.map KeyVal.key).count q = 1 := by
  obtain ⟨s, hs⟩ := List.exists_mem_of_ne_nil l hne
  have hle := (h.sublist' s hs).count_le q
  have hpos := List.count_pos_iff.2 hmem
  have hone := hq s hs
  omega

theorem IsPartialJoin.mem_ahead_iff (h : IsPartialJoin l (a.map (KeyVal.mapVal u))) (hne : l ≠ []) {q : K}
    (hq : ∀ s ∈ l, (s.map KeyVal.key).count q = 1) (hmem : q ∈ a.map KeyVal.key) (k : K) :
    k ∈ Library.ahead q (a.map KeyVal.key) ↔ k ∈ aheadInAll q (l.map (List.map KeyVal.key)) := by
  have hahead := h.ahead q hq
  rw [map_key_mapVal] at hahead
  rw [hahead hmem k, mem_aheadInAll (fun he => hne (List.map_eq_nil_iff.1 he)), List.forall_mem_map]

/-- **Joins of joins**: the values of the two are put together. -/
theorem IsPartialJoin.join (hmerge : Merging mergeJoinBy) (hl : IsPartialJoin l (a.map (KeyVal.mapVal u)))
    (hr : IsPartialJoin r (b.map (KeyVal.mapVal w))) (hlne : l ≠ []) (hrne : r ≠ [])
    (hhalf : l.length = (l ++ r).length / 2) (hascents : ∀ s ∈ l ++ r, TwoAscents (s.map KeyVal.key)) :
    IsPartialJoin (l ++ r)
      ((keyvalInnerJoin2 mergeJoinBy a b).map fun kv => ⟨kv.key, u kv.val.1 ++ w kv.val.2⟩) := by
  have hsubl : (joinedKeys mergeJoinBy KeyVal.key KeyVal.key a b).Sublist (a.map KeyVal.key) :=
    joinedKeys_sublist_left hmerge a b
  have hsubr : (joinedKeys mergeJoinBy KeyVal.key KeyVal.key a b).Sublist (b.map KeyVal.key) :=
    joinedKeys_sublist_right hmerge a b
  have ha : TwoAscents (a.map KeyVal.key) := by
    obtain ⟨s, hs⟩ := List.exists_mem_of_ne_nil l hlne
    exact (hascents s (List.mem_append_left _ hs)).sublist (hl.sublist' s hs)
  have hb : TwoAscents (b.map KeyVal.key) := by
    obtain ⟨s, hs⟩ := List.exists_mem_of_ne_nil r hrne
    exact (hascents s (List.mem_append_right _ hs)).sublist (hr.sublist' s hs)
  refine ⟨?_, ?_, ?_, ?_⟩
  · rw [map_key_keyvalInnerJoin2, List.forall_mem_append]
    exact ⟨fun s hs => hsubl.trans (hl.sublist' s hs), fun s hs => hsubr.trans (hr.sublist' s hs)⟩
  · intro kv hkv
    obtain ⟨⟨k, v₁, v₂⟩, hmem, rfl⟩ := List.mem_map.1 hkv
    rw [keyvalInnerJoin2_eq] at hmem
    obtain ⟨⟨⟨k₁, v₁'⟩, ⟨k₂, v₂'⟩⟩, ht, he⟩ := List.mem_map.1 hmem
    obtain ⟨h₁, h₂, hkey⟩ := mem_of_mem_joined hmerge ht
    have hkey : k₁ = k₂ := hkey
    cases hkey
    cases he
    exact List.rel_append (hl.values _ (List.mem_map_of_mem h₁)) (hr.values _ (List.mem_map_of_mem h₂))
  · intro q hq
    obtain ⟨hql, hqr⟩ := List.forall_mem_append.1 hq
    have hleft := hl.keys q hql
    have hright := hr.keys q hqr
    rw [map_key_mapVal] at hleft hright
    rw [map_key_keyvalInnerJoin2, List.map_append,
      meets_append_iff (fun he => hlne (List.map_eq_nil_iff.1 he)) (fun he => hrne (List.map_eq_nil_iff.1 he))
        (by rwa [← List.map_append, List.length_map, List.length_map]), ← hleft, ← hright]
    constructor
    · intro hmem
      have hqa := hsubl.subset hmem
      have hqb := hsubr.subset hmem
      have hsame := sameGreatest_of_mem_joinedKeys hmerge (hl.count_eq_one hlne hql hqa) (hr.count_eq_one hrne hqr hqb) hmem
      exact ⟨hqa, hqb, hsame.congr (hl.mem_ahead_iff hlne hql hqa) (hr.mem_ahead_iff hrne hqr hqb)⟩
    · rintro ⟨hqa, hqb, hsame⟩
      refine mem_joinedKeys_of_sameGreatest hmerge ha hb (hl.count_eq_one hlne hql hqa) (hr.count_eq_one hrne hqr hqb) ?_
      exact hsame.congr (fun k => (hl.mem_ahead_iff hlne hql hqa k).symm) fun k => (hr.mem_ahead_iff hrne hqr hqb k).symm
  · intro q hq hmem k
    obtain ⟨hql, hqr⟩ := List.forall_mem_append.1 hq
    rw [map_key_keyvalInnerJoin2] at hmem ⊢
    have hqa := hsubl.subset hmem
    have hqb := hsubr.subset hmem
    have hleft := hl.ahead q hql
    have hright := hr.ahead q hqr
    rw [map_key_mapVal] at hleft hright
    rw [mem_ahead_joinedKeys_iff hmerge ha hb (hl.count_eq_one hlne hql hqa) (hr.count_eq_one hrne hqr hqb) hmem,
      hleft hqa, hright hqb, List.forall_mem_append]

end Join2

/-! ### Any number of sequences -/

theorem IsPartialJoin.singleton (s : List (KeyVal K V)) : IsPartialJoin [s] (s.map (KeyVal.mapVal fun v => [v])) := by
  refine ⟨?_, ?_, ?_, ?_⟩
  · rw [map_key_mapVal, List.forall_mem_singleton]
  · intro kv hkv
    obtain ⟨kv', hkv', rfl⟩ := List.mem_map.1 hkv
    exact .cons hkv' .nil
  · intro q hq
    have hcount := hq s List.mem_cons_self
    rw [map_key_mapVal]
    refine iff_of_true (List.count_pos_iff.1 ?_) (.one _)
    omega
  · intro q _ _ k
    rw [map_key_mapVal, List.forall_mem_singleton]

/-- **The join of sequences** of two ascents. -/
theorem isPartialJoin_keyvalInnerJoin
    {mergeJoinBy : ∀ {α β : Type}, (α → β → Ordering) → List α → List β → List (EitherOrBoth α β)} (hmerge : Merging mergeJoinBy)
    {sequences : List (List (KeyVal K V))} (hne : 1 ≤ sequences.length)
    (hascents : ∀ s ∈ sequences, TwoAscents (s.map KeyVal.key)) :
    ∃ out, keyvalInnerJoin mergeJoinBy (sequences.map some) = .ok (some out) ∧ IsPartialJoin sequences out := by
  obtain ⟨out, hout, hjoin⟩ := keyvalInnerJoin_induction
    (P := fun sequences out => (∀ s ∈ sequences, TwoAscents (s.map KeyVal.key)) → IsPartialJoin sequences out)
    (fun s _ => IsPartialJoin.singleton s)
    (fun l r a b u w hlne hrne hhalf hl hr hs => IsPartialJoin.join hmerge (hl fun s h => hs s (List.mem_append_left _ h))
      (hr fun s h => hs s (List.mem_append_right _ h)) hlne hrne hhalf hs) hne
  exact ⟨out, hout, hjoin hascents⟩

end Evobench.Join

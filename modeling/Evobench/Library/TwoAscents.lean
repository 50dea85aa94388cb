import Evobench.Library.MergeJoin

/-!
# Joins of sequences of two ascents

Sequences that consist of two parts, each of which is in the order of the keys while the whole need not be. When two of them
are joined, a key of the second parts may be passed by: this happens if what stands ahead of it, although it is greater, does
not reach as far in one of the sequences as in the other.

## The model

* `TwoAscents`: the two parts.
* `ahead`: the greater keys that stand ahead of a key.
* `SameGreatest`: two sets of keys that reach as far as each other.

## What is proved

* `sameGreatest_of_mem_joinedKeys`, `mem_joinedKeys_of_sameGreatest`: which keys come together.
* `mem_ahead_joinedKeys_iff`: what stands ahead of them then.
-/

namespace Library

variable {α β K : Type} [LinearOrder K] {q k : K} {ks ks' : List K}

/-! ### Two ascents -/

/-- Two parts, each of which is in order. -/
def TwoAscents (ks : List K) : Prop :=
  ∃ ks₁ ks₂, ks = ks₁ ++ ks₂ ∧ ks₁.Pairwise (· < ·) ∧ ks₂.Pairwise (· < ·)

/-- The greater keys that stand ahead of the first `q`. -/
def ahead (q : K) (ks : List K) : List K := (ks.takeWhile (· ≠ q)).filter (q < ·)

/-- They reach as far as each other. -/
structure SameGreatest (A B : List K) : Prop where
  /-- The second set reaches as far as the first one. -/
  left : ∀ k ∈ A, ∃ k' ∈ B, k ≤ k'
  /-- The first set reaches as far as the second one. -/
  right : ∀ k ∈ B, ∃ k' ∈ A, k ≤ k'

theorem SameGreatest.congr {A A' B B' : List K} (h : SameGreatest A B) (hA : ∀ k, k ∈ A ↔ k ∈ A') (hB : ∀ k, k ∈ B ↔ k ∈ B') :
    SameGreatest A' B' := by
  constructor
  · intro k hk
    obtain ⟨k', hk', hle⟩ := h.left k ((hA k).2 hk)
    exact ⟨k', (hB k').1 hk', hle⟩
  · intro k hk
    obtain ⟨k', hk', hle⟩ := h.right k ((hB k).2 hk)
    exact ⟨k', (hA k').1 hk', hle⟩

namespace TwoAscents

theorem sublist (h : TwoAscents ks) (hsub : ks'.Sublist ks) : TwoAscents ks' := by
  obtain ⟨ks₁, ks₂, rfl, h₁, h₂⟩ := h
  obtain ⟨ks₁', ks₂', rfl, hsub₁, hsub₂⟩ := List.sublist_append_iff.1 hsub
  exact ⟨ks₁', ks₂', rfl, h₁.sublist hsub₁, h₂.sublist hsub₂⟩

/-- Of three keys two neighbours are in the same part. -/
theorem lt_or_lt {a b c : K} (h : TwoAscents [a, b, c]) : a < b ∨ b < c := by
  obtain ⟨ks₁, ks₂, hks, h₁, h₂⟩ := h
  rcases ks₁ with _ | ⟨a', _ | ⟨b', ks₁⟩⟩
  · rw [List.nil_append] at hks
    rw [← hks] at h₂
    exact Or.inl ((List.pairwise_cons.1 h₂).1 b List.mem_cons_self)
  · obtain ⟨-, rfl⟩ := List.cons_eq_cons.1 hks
    exact Or.inr ((List.pairwise_cons.1 h₂).1 c List.mem_cons_self)
  · obtain ⟨rfl, htail⟩ := List.cons_eq_cons.1 hks
    obtain ⟨rfl, -⟩ := List.cons_eq_cons.1 htail
    exact Or.inl ((List.pairwise_cons.1 h₁).1 b List.mem_cons_self)

/-- Around a key that stands ahead of a smaller one. -/
theorem around {l₁ l₂ l₃ : List K} (h : TwoAscents (l₁ ++ k :: (l₂ ++ q :: l₃))) (hlt : q < k) :
    (∀ w ∈ l₁, w < k) ∧ ((∀ w ∈ l₂, w ≤ k) → ∀ w ∈ l₂, w < q) := by
  constructor
  · intro w hw
    have hsub : [w, k, q].Sublist (l₁ ++ k :: (l₂ ++ q :: l₃)) :=
      (List.singleton_sublist.2 hw).append (((List.nil_sublist l₂).append ((List.nil_sublist l₃).cons_cons q)).cons_cons k)
    exact (h.sublist hsub).lt_or_lt.resolve_right (lt_asymm hlt)
  · intro hle w hw
    have hsub : [k, w, q].Sublist (l₁ ++ k :: (l₂ ++ q :: l₃)) :=
      (List.nil_sublist l₁).append
        (((List.singleton_sublist.2 hw).append ((List.nil_sublist l₃).cons_cons q)).cons_cons k)
    exact (h.sublist hsub).lt_or_lt.resolve_left (not_lt.2 (hle w hw))

end TwoAscents

/-! ### What stands ahead -/

section Ahead

variable {l₁ l₂ : List K}

theorem mem_ahead_iff (hq : q ∉ l₁) : k ∈ ahead q (l₁ ++ q :: l₂) ↔ k ∈ l₁ ∧ q < k := by
  have htake : (l₁ ++ q :: l₂).takeWhile (· ≠ q) = l₁ := by
    rw [List.takeWhile_append_of_pos]
    · rw [List.takeWhile_cons_of_neg (by simp), List.append_nil]
    · rintro a ha
      exact decide_eq_true fun he => hq (he ▸ ha)
  rw [ahead, htake, List.mem_filter, decide_eq_true_iff]

theorem not_mem_of_count (h : (l₁ ++ q :: l₂).count q = 1) : q ∉ l₁ := by
  rw [List.count_append, List.count_cons_self] at h
  exact List.count_eq_zero.1 (by omega)

/-- Where a key stands that is there once. -/
theorem exists_split_of_count (h : ks.count q = 1) : ∃ l₁ l₂, ks = l₁ ++ q :: l₂ ∧ q ∉ l₁ := by
  obtain ⟨l₁, l₂, rfl⟩ := List.append_of_mem (List.count_pos_iff.1 (by omega : 0 < ks.count q))
  exact ⟨l₁, l₂, rfl, not_mem_of_count h⟩

/-- What stands ahead after some keys have been left out. -/
theorem mem_ahead_of_sublist (hsub : ks'.Sublist ks) (hq : q ∈ ks') (hcount : ks.count q = 1) (hk : k ∈ ahead q ks') :
    k ∈ ahead q ks := by
  have hcount' : ks'.count q = 1 := by
    have hle := hsub.count_le q
    have hpos := List.count_pos_iff.2 hq
    omega
  obtain ⟨m₁, m₂, rfl, hm⟩ := exists_split_of_count hcount'
  obtain ⟨l, l', rfl, hsub₁, hsub₂⟩ := List.append_sublist_iff.1 hsub
  obtain ⟨hkm, hlt⟩ := (mem_ahead_iff hm).1 hk
  -- the key itself is in what the rest has come from
  obtain ⟨r₁, r₂, rfl⟩ := List.append_of_mem (hsub₂.subset List.mem_cons_self)
  rw [← List.append_assoc] at hcount ⊢
  exact (mem_ahead_iff (not_mem_of_count hcount)).2 ⟨List.mem_append_left _ (hsub₁.subset hkm), hlt⟩

/-- The greatest of the keys ahead. -/
theorem exists_greatest (h : ∃ k ∈ l₁, q < k) : ∃ m ∈ l₁, q < m ∧ ∀ k ∈ l₁, k ≤ m := by
  obtain ⟨k, hk, hlt⟩ := h
  obtain ⟨m, hm, hmax⟩ := l₁.toFinset.exists_max_image id ⟨k, List.mem_toFinset.2 hk⟩
  refine ⟨m, List.mem_toFinset.1 hm, hlt.trans_le (hmax k (List.mem_toFinset.2 hk)), fun k' hk' => ?_⟩
  exact hmax k' (List.mem_toFinset.2 hk')

end Ahead

/-! ### What comes together -/

variable {merge : ∀ {α β : Type}, (α → β → Ordering) → List α → List β → List (EitherOrBoth α β)}

/-- The keys that come out. -/
def joinedKeys (merge : ∀ {α β : Type}, (α → β → Ordering) → List α → List β → List (EitherOrBoth α β)) (f : α → K) (g : β → K)
    (as : List α) (bs : List β) : List K :=
  (joined merge f g as bs).map fun t => f t.1

section JoinedKeys

variable {f : α → K} {g : β → K} {as : List α} {bs : List β}

omit [LinearOrder K] in
/-- A sequence around a key. -/
theorem exists_split_of_map {l₁ l₂ : List K} (h : as.map f = l₁ ++ q :: l₂) :
    ∃ u x u', as = u ++ x :: u' ∧ u.map f = l₁ ∧ f x = q ∧ u'.map f = l₂ := by
  obtain ⟨u, rest, rfl, hu, hrest⟩ := List.map_eq_append_iff.1 h
  obtain ⟨x, u', rfl, hx, hu'⟩ := List.map_eq_cons_iff.1 hrest
  exact ⟨u, x, u', rfl, hu, hx, hu'⟩

variable (hmerge : Merging merge)

include hmerge

theorem joinedKeys_sublist_left (as : List α) (bs : List β) : (joinedKeys merge f g as bs).Sublist (as.map f) := by
  have h := (joined_sublist (f := f) (g := g) hmerge as bs).map f
  rwa [List.map_map] at h

theorem joinedKeys_sublist_right (as : List α) (bs : List β) : (joinedKeys merge f g as bs).Sublist (bs.map g) := by
  have h := (joined_sublist_right (f := f) (g := g) hmerge as bs).map g
  rw [List.map_map] at h
  have hsame : joinedKeys merge f g as bs = (joined merge f g as bs).map (g ∘ Prod.snd) :=
    List.map_congr_left fun t ht => (mem_of_mem_joined hmerge ht).2.2
  rwa [hsame]

/-- Around a common key that is greater than all keys before it. -/
theorem joinedKeys_append {as₁ as₂ : List α} {bs₁ bs₂ : List β} {x : α} {y : β} (hx : f x = q) (hy : g y = q)
    (ha : ∀ k ∈ as₁.map f, k < q) (hb : ∀ k ∈ bs₁.map g, k < q) :
    joinedKeys merge f g (as₁ ++ x :: as₂) (bs₁ ++ y :: bs₂) =
      joinedKeys merge f g as₁ bs₁ ++ q :: joinedKeys merge f g as₂ bs₂ := by
  rw [List.forall_mem_map] at ha hb
  subst hx
  rw [joinedKeys, joined_append hmerge hy.symm ha hb, List.map_append, List.map_cons]
  rfl

/-- **Where a key is not passed by**: what stands ahead of it in the two sequences reaches as far. -/
theorem mem_joinedKeys_of_sameGreatest (ha : TwoAscents (as.map f)) (hb : TwoAscents (bs.map g)) (hqa : (as.map f).count q = 1)
    (hqb : (bs.map g).count q = 1) (h : SameGreatest (ahead q (as.map f)) (ahead q (bs.map g))) :
    q ∈ joinedKeys merge f g as bs := by
  obtain ⟨l₁, l₂, hl, hql⟩ := exists_split_of_count hqa
  obtain ⟨m₁, m₂, hm, hqm⟩ := exists_split_of_count hqb
  rw [hl] at ha
  rw [hm] at hb
  rw [hl, hm] at h
  obtain ⟨as₁, x, as₂, rfl, rfl, hx, rfl⟩ := exists_split_of_map hl
  obtain ⟨bs₁, y, bs₂, rfl, rfl, hy, rfl⟩ := exists_split_of_map hm
  by_cases hgreater : ∃ k ∈ as₁.map f, q < k
  · -- the greatest keys ahead are the same, and come together
    obtain ⟨k, hk, hlt, hmax⟩ := exists_greatest hgreater
    obtain ⟨k', hk', hle⟩ := h.left k ((mem_ahead_iff hql).2 ⟨hk, hlt⟩)
    obtain ⟨hk', hlt'⟩ := (mem_ahead_iff hqm).1 hk'
    obtain ⟨m, hm', hltm, hmaxm⟩ := exists_greatest ⟨k', hk', hlt'⟩
    obtain ⟨k'', hk'', hle''⟩ := h.right m ((mem_ahead_iff hqm).2 ⟨hm', hltm⟩)
    have hsame : m = k :=
      le_antisymm (hle''.trans (hmax k'' ((mem_ahead_iff hql).1 hk'').1)) (hle.trans (hmaxm k' hk'))
    subst hsame
    obtain ⟨n₁, n₂, hn⟩ := List.append_of_mem hk
    obtain ⟨p₁, p₂, hp⟩ := List.append_of_mem hm'
    rw [hn, List.append_assoc, List.cons_append] at ha
    rw [hp, List.append_assoc, List.cons_append] at hb
    rw [hn] at hmax
    rw [hp] at hmaxm
    obtain ⟨u, z, u', rfl, rfl, hz, rfl⟩ := exists_split_of_map hn
    obtain ⟨v, z', v', rfl, rfl, hz', rfl⟩ := exists_split_of_map hp
    obtain ⟨hu, hu'⟩ := ha.around hlt
    obtain ⟨hv, hv'⟩ := hb.around hlt
    rw [List.append_assoc, List.append_assoc, List.cons_append, List.cons_append, joinedKeys_append hmerge hz hz' hu hv,
      joinedKeys_append hmerge hx hy]
    · exact List.mem_append_right _ (List.mem_cons_of_mem _ (List.mem_append_right _ List.mem_cons_self))
    · exact hu' fun w hw => hmax w (List.mem_append_right _ (List.mem_cons_of_mem _ hw))
    · exact hv' fun w hw => hmaxm w (List.mem_append_right _ (List.mem_cons_of_mem _ hw))
  · -- all keys ahead are smaller
    have hgreater' : ¬ ∃ k ∈ bs₁.map g, q < k := by
      rintro ⟨k, hk, hlt⟩
      obtain ⟨k', hk', -⟩ := h.right k ((mem_ahead_iff hqm).2 ⟨hk, hlt⟩)
      exact hgreater ⟨k', (mem_ahead_iff hql).1 hk'⟩
    rw [joinedKeys_append hmerge hx hy]
    · exact List.mem_append_right _ List.mem_cons_self
    · intro k hk
      exact lt_of_le_of_ne (not_lt.1 fun hlt => hgreater ⟨k, hk, hlt⟩) fun he => hql (he ▸ hk)
    · intro k hk
      exact lt_of_le_of_ne (not_lt.1 fun hlt => hgreater' ⟨k, hk, hlt⟩) fun he => hqm (he ▸ hk)

theorem sameGreatest_of_mem_joinedKeys (hqa : (as.map f).count q = 1) (hqb : (bs.map g).count q = 1)
    (h : q ∈ joinedKeys merge f g as bs) : SameGreatest (ahead q (as.map f)) (ahead q (bs.map g)) := by
  obtain ⟨t, ht, rfl⟩ := List.mem_map.1 h
  have hkey : f t.1 = g t.2 := (mem_of_mem_joined hmerge ht).2.2
  obtain ⟨as₁, as₂, bs₁, bs₂, rfl, rfl, hcover, hcover'⟩ := exists_of_mem_joined hmerge ht
  simp only [List.map_append, List.map_cons, ← hkey] at hqa hqb ⊢
  constructor
  · intro k hk
    obtain ⟨hmem, hlt⟩ := (mem_ahead_iff (not_mem_of_count hqa)).1 hk
    obtain ⟨z, hz, rfl⟩ := List.mem_map.1 hmem
    obtain ⟨z', hz', hle⟩ := hcover z hz hlt
    exact ⟨g z', (mem_ahead_iff (not_mem_of_count hqb)).2 ⟨List.mem_map_of_mem hz', hlt.trans_le hle⟩, hle⟩
  · intro k hk
    obtain ⟨hmem, hlt⟩ := (mem_ahead_iff (not_mem_of_count hqb)).1 hk
    obtain ⟨z, hz, rfl⟩ := List.mem_map.1 hmem
    obtain ⟨z', hz', hle⟩ := hcover' z hz hlt
    exact ⟨f z', (mem_ahead_iff (not_mem_of_count hqa)).2 ⟨List.mem_map_of_mem hz', hlt.trans_le hle⟩, hle⟩

/-- **What stands ahead of them** is what stands ahead in both sequences. -/
theorem mem_ahead_joinedKeys_iff (ha : TwoAscents (as.map f)) (hb : TwoAscents (bs.map g)) (hqa : (as.map f).count q = 1)
    (hqb : (bs.map g).count q = 1) (h : q ∈ joinedKeys merge f g as bs) :
    k ∈ ahead q (joinedKeys merge f g as bs) ↔ k ∈ ahead q (as.map f) ∧ k ∈ ahead q (bs.map g) := by
  have hsub : (joinedKeys merge f g as bs).Sublist (as.map f) := joinedKeys_sublist_left hmerge as bs
  constructor
  · intro hk
    exact ⟨mem_ahead_of_sublist hsub h hqa hk,
      mem_ahead_of_sublist (joinedKeys_sublist_right hmerge as bs) h hqb hk⟩
  · rintro ⟨hka, hkb⟩
    obtain ⟨l₁, l₂, hl, hql⟩ := exists_split_of_count hqa
    obtain ⟨m₁, m₂, hm, hqm⟩ := exists_split_of_count hqb
    have hcount : (joinedKeys merge f g as bs).count q = 1 := by
      have hle := hsub.count_le q
      have hpos := List.count_pos_iff.2 h
      omega
    rw [hl] at ha hka
    rw [hm] at hb hkb
    obtain ⟨hka, hlt⟩ := (mem_ahead_iff hql).1 hka
    obtain ⟨hkb, -⟩ := (mem_ahead_iff hqm).1 hkb
    obtain ⟨n₁, n₂, rfl⟩ := List.append_of_mem hka
    obtain ⟨p₁, p₂, rfl⟩ := List.append_of_mem hkb
    rw [List.append_assoc, List.cons_append] at ha hb hl hm
    obtain ⟨u, z, u', rfl, rfl, hz, -⟩ := exists_split_of_map hl
    obtain ⟨v, z', v', rfl, rfl, hz', -⟩ := exists_split_of_map hm
    rw [joinedKeys_append hmerge hz hz' (ha.around hlt).1 (hb.around hlt).1] at h hcount ⊢
    -- the key comes out behind, because it does not stand before
    have hbefore : q ∉ joinedKeys merge f g u v := fun hmem =>
      hql (List.mem_append_left _ ((joinedKeys_sublist_left hmerge u v).subset hmem))
    have hbehind : q ∈ joinedKeys merge f g u' v' := by
      rcases List.mem_append.1 h with hmem | hmem
      · exact absurd hmem hbefore
      · exact (List.mem_cons.1 hmem).resolve_left hlt.ne
    obtain ⟨j₁, j₂, hj⟩ := List.append_of_mem hbehind
    rw [hj, ← List.cons_append, ← List.append_assoc] at hcount ⊢
    exact (mem_ahead_iff (not_mem_of_count hcount)).2 ⟨List.mem_append_right _ List.mem_cons_self, hlt⟩

end JoinedKeys

end Library

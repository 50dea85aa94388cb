import Mathlib

/-!
# Joins of sequences by their keys

Two sequences are merged by looking at their heads only: the smaller one comes first, and equal ones come together. The
inner join keeps what comes together.

## The model

* `Merging`: what a merge of two sequences does. `mergeJoinBy` is one.
* `joined`: what comes together in the merged sequence.

## What is proved

* `mem_of_mem_joined`, `joined_sublist`: for any sequences, what comes together is in both, in the order of the first one.
* `mem_joined_of_mem`: for sequences in the order of their keys, all that has a common key comes together.
* `joined_append`: what comes together in any sequences, around a common key that is greater than all before it.
* `exists_of_mem_joined`: where in any sequences a common key comes together.
-/

namespace Library

variable {α β K : Type}

/-! ### Merging -/

/-- An element of one or the other sequence, or one of both. -/
inductive EitherOrBoth (α β : Type) where
  /-- Of the first one. -/
  | left (a : α)
  /-- Of the second one. -/
  | right (b : β)
  /-- Of both. -/
  | both (a : α) (b : β)

/-- **A merge**: at any point the two heads are compared, and what comes first is taken from its sequence. -/
structure Merging (merge : ∀ {α β : Type}, (α → β → Ordering) → List α → List β → List (EitherOrBoth α β)) : Prop where
  /-- The first sequence has come to its end. -/
  nil_left : ∀ {α β : Type} (cmp : α → β → Ordering) (bs : List β), merge cmp [] bs = bs.map .right
  /-- The second sequence has come to its end. -/
  nil_right : ∀ {α β : Type} (cmp : α → β → Ordering) (as : List α), merge cmp as [] = as.map .left
  /-- The head of the first sequence is less. -/
  lt : ∀ {α β : Type} (cmp : α → β → Ordering) (a : α) (as : List α) (b : β) (bs : List β), cmp a b = .lt →
    merge cmp (a :: as) (b :: bs) = .left a :: merge cmp as (b :: bs)
  /-- The head of the first sequence is greater. -/
  gt : ∀ {α β : Type} (cmp : α → β → Ordering) (a : α) (as : List α) (b : β) (bs : List β), cmp a b = .gt →
    merge cmp (a :: as) (b :: bs) = .right b :: merge cmp (a :: as) bs
  /-- Both heads come together. -/
  eq : ∀ {α β : Type} (cmp : α → β → Ordering) (a : α) (as : List α) (b : β) (bs : List β), cmp a b = .eq →
    merge cmp (a :: as) (b :: bs) = .both a b :: merge cmp as bs

/-- Go on with `rest` behind the head `x` of the first sequence, when it has come out. -/
def mergeHead (cmp : α → β → Ordering) (x : α) (rest : List β → List (EitherOrBoth α β)) :
    List β → List (EitherOrBoth α β)
  | [] => .left x :: rest []
  | y :: bs =>
    match cmp x y with
    | .lt => .left x :: rest (y :: bs)
    | .eq => .both x y :: rest bs
    | .gt => .right y :: mergeHead cmp x rest bs

/-- The merged sequence. -/
def mergeJoinBy (cmp : α → β → Ordering) : List α → List β → List (EitherOrBoth α β)
  | [] => fun bs => bs.map .right
  | x :: as => mergeHead cmp x (mergeJoinBy cmp as)

theorem merging_mergeJoinBy : Merging mergeJoinBy where
  nil_left _ _ := rfl
  nil_right cmp as := by
    induction as with
    | nil => rfl
    | cons a as ih => rw [mergeJoinBy, mergeHead, ih, List.map_cons]
  lt cmp a as b bs h := by rw [mergeJoinBy, mergeHead, h]
  gt cmp a as b bs h := by rw [mergeJoinBy, mergeHead, h]
  eq cmp a as b bs h := by rw [mergeJoinBy, mergeHead, h]

/-! ### What comes together -/

variable (merge : ∀ {α β : Type}, (α → β → Ordering) → List α → List β → List (EitherOrBoth α β))

/-- The two elements that have come together. -/
def EitherOrBoth.both? : EitherOrBoth α β → Option (α × β)
  | both a b => some (a, b)
  | _ => none

variable [LinearOrder K]

/-- What comes together by the keys. -/
def joined (f : α → K) (g : β → K) (as : List α) (bs : List β) : List (α × β) :=
  (merge (fun x y => compare (f x) (g y)) as bs).filterMap EitherOrBoth.both?

variable {merge} {f : α → K} {g : β → K} {as : List α} {bs : List β} {x : α} {y : β}

theorem filterMap_both?_left (as : List α) : (as.map EitherOrBoth.left).filterMap (EitherOrBoth.both? (β := β)) = [] := by
  rw [List.filterMap_map]
  exact List.filterMap_eq_nil_iff.2 fun _ _ => rfl

theorem filterMap_both?_right (bs : List β) :
    (bs.map EitherOrBoth.right).filterMap (EitherOrBoth.both? (α := α)) = [] := by
  rw [List.filterMap_map]
  exact List.filterMap_eq_nil_iff.2 fun _ _ => rfl

section Joined

variable (hmerge : Merging merge)

include hmerge

theorem joined_nil_left (bs : List β) : joined merge f g [] bs = [] := by
  rw [joined, hmerge.nil_left, filterMap_both?_right]

theorem joined_nil_right (as : List α) : joined merge f g as [] = [] := by
  rw [joined, hmerge.nil_right, filterMap_both?_left]

theorem joined_of_lt (h : f x < g y) : joined merge f g (x :: as) (y :: bs) = joined merge f g as (y :: bs) := by
  rw [joined, hmerge.lt (fun x y => compare (f x) (g y)) x as y bs (compare_lt_iff_lt.2 h), List.filterMap_cons]
  rfl

theorem joined_of_gt (h : g y < f x) : joined merge f g (x :: as) (y :: bs) = joined merge f g (x :: as) bs := by
  rw [joined, hmerge.gt (fun x y => compare (f x) (g y)) x as y bs (compare_gt_iff_gt.2 h), List.filterMap_cons]
  rfl

theorem joined_of_eq (h : f x = g y) : joined merge f g (x :: as) (y :: bs) = (x, y) :: joined merge f g as bs := by
  rw [joined, hmerge.eq (fun x y => compare (f x) (g y)) x as y bs (compare_eq_iff_eq.2 h), List.filterMap_cons]
  rfl

omit hmerge in
/-- Induction along a join. -/
theorem joined_induction {P : List α → List β → Prop} (nil_left : ∀ bs, P [] bs) (nil_right : ∀ as, P as [])
    (lt : ∀ x as y bs, f x < g y → P as (y :: bs) → P (x :: as) (y :: bs))
    (gt : ∀ x as y bs, g y < f x → P (x :: as) bs → P (x :: as) (y :: bs))
    (eq : ∀ x as y bs, f x = g y → P as bs → P (x :: as) (y :: bs)) (as : List α) (bs : List β) : P as bs := by
  induction as generalizing bs with
  | nil => exact nil_left bs
  | cons x as iha =>
    induction bs with
    | nil => exact nil_right _
    | cons y bs ihb =>
      rcases lt_trichotomy (f x) (g y) with h | h | h
      · exact lt x as y bs h (iha _)
      · exact eq x as y bs h (iha bs)
      · exact gt x as y bs h ihb

/-- **Soundness**: what comes together is in both sequences, with the same key. -/
theorem mem_of_mem_joined {t : α × β} : t ∈ joined merge f g as bs → t.1 ∈ as ∧ t.2 ∈ bs ∧ f t.1 = g t.2 := by
  refine joined_induction (f := f) (g := g)
    (P := fun as bs => t ∈ joined merge f g as bs → t.1 ∈ as ∧ t.2 ∈ bs ∧ f t.1 = g t.2) ?_ ?_ ?_ ?_ ?_ as bs
  · intro bs h
    rw [joined_nil_left hmerge] at h
    cases h
  · intro as h
    rw [joined_nil_right hmerge] at h
    cases h
  · intro x as y bs hlt ih h
    rw [joined_of_lt hmerge hlt] at h
    obtain ⟨ha, hb⟩ := ih h
    exact ⟨List.mem_cons_of_mem _ ha, hb⟩
  · intro x as y bs hgt ih h
    rw [joined_of_gt hmerge hgt] at h
    obtain ⟨ha, hb, heq⟩ := ih h
    exact ⟨ha, List.mem_cons_of_mem _ hb, heq⟩
  · intro x as y bs heq ih h
    rw [joined_of_eq hmerge heq] at h
    rcases List.mem_cons.1 h with rfl | h
    · exact ⟨List.mem_cons_self, List.mem_cons_self, heq⟩
    · obtain ⟨ha, hb, hsame⟩ := ih h
      exact ⟨List.mem_cons_of_mem _ ha, List.mem_cons_of_mem _ hb, hsame⟩

/-- They come out in the order of the first sequence. -/
theorem joined_sublist (as : List α) (bs : List β) : ((joined merge f g as bs).map Prod.fst).Sublist as := by
  refine joined_induction (f := f) (g := g) (P := fun as bs => ((joined merge f g as bs).map Prod.fst).Sublist as)
    ?_ ?_ ?_ ?_ ?_ as bs
  · intro bs
    rw [joined_nil_left hmerge]
    exact List.nil_sublist _
  · intro as
    rw [joined_nil_right hmerge]
    exact List.nil_sublist _
  · intro x as y bs hlt ih
    rw [joined_of_lt hmerge hlt]
    exact ih.cons _
  · intro x as y bs hgt ih
    rwa [joined_of_gt hmerge hgt]
  · intro x as y bs heq ih
    rw [joined_of_eq hmerge heq]
    exact ih.cons_cons _

/-- And in the order of the second one. -/
theorem joined_sublist_right (as : List α) (bs : List β) : ((joined merge f g as bs).map Prod.snd).Sublist bs := by
  refine joined_induction (f := f) (g := g) (P := fun as bs => ((joined merge f g as bs).map Prod.snd).Sublist bs)
    ?_ ?_ ?_ ?_ ?_ as bs
  · intro bs
    rw [joined_nil_left hmerge]
    exact List.nil_sublist _
  · intro as
    rw [joined_nil_right hmerge]
    exact List.nil_sublist _
  · intro x as y bs hlt ih
    rwa [joined_of_lt hmerge hlt]
  · intro x as y bs hgt ih
    rw [joined_of_gt hmerge hgt]
    exact ih.cons _
  · intro x as y bs heq ih
    rw [joined_of_eq hmerge heq]
    exact ih.cons_cons _

/-- **Completeness**: in two sequences in the order of their keys, what has the same key comes together. -/
theorem mem_joined_of_mem (ha : as.Pairwise fun x x' => f x < f x') (hb : bs.Pairwise fun y y' => g y < g y')
    (hx : x ∈ as) (hy : y ∈ bs) (h : f x = g y) : (x, y) ∈ joined merge f g as bs := by
  revert ha hb hx hy
  refine joined_induction (f := f) (g := g) (P := fun as bs => as.Pairwise (fun x x' => f x < f x') →
    bs.Pairwise (fun y y' => g y < g y') → x ∈ as → y ∈ bs → (x, y) ∈ joined merge f g as bs) ?_ ?_ ?_ ?_ ?_ as bs
  · intro bs _ _ hx
    cases hx
  · intro as _ _ _ hy
    cases hy
  · intro z as w bs hlt ih ha hb hx hy
    rw [joined_of_lt hmerge hlt]
    refine ih (List.pairwise_cons.1 ha).2 hb ?_ hy
    -- all of the second sequence is greater than the head
    have hge : g w ≤ g y := by
      rcases List.mem_cons.1 hy with rfl | hy
      · exact le_rfl
      · exact ((List.pairwise_cons.1 hb).1 y hy).le
    refine (List.mem_cons.1 hx).resolve_left ?_
    rintro rfl
    exact (hlt.trans_le hge).ne h
  · intro z as w bs hgt ih ha hb hx hy
    rw [joined_of_gt hmerge hgt]
    refine ih ha (List.pairwise_cons.1 hb).2 hx ?_
    have hge : f z ≤ f x := by
      rcases List.mem_cons.1 hx with rfl | hx
      · exact le_rfl
      · exact ((List.pairwise_cons.1 ha).1 x hx).le
    refine (List.mem_cons.1 hy).resolve_left ?_
    rintro rfl
    exact (hgt.trans_le hge).ne' h
  · intro z as w bs heq ih ha hb hx hy
    rw [joined_of_eq hmerge heq]
    obtain ⟨hz, ha⟩ := List.pairwise_cons.1 ha
    obtain ⟨hw, hb⟩ := List.pairwise_cons.1 hb
    rcases List.mem_cons.1 hx with rfl | hx'
    · rcases List.mem_cons.1 hy with rfl | hy'
      · exact List.mem_cons_self
      · exact absurd (heq.symm.trans h) (hw y hy').ne
    · rcases List.mem_cons.1 hy with rfl | hy'
      · exact absurd (heq.trans h.symm) (hz x hx').ne
      · exact List.mem_cons_of_mem _ (ih ha hb hx' hy')

/-! ### Around a common key -/

/-- **Around a common key** that is greater than all before it, the parts are joined by themselves. -/
theorem joined_append {as₁ as₂ : List α} {bs₁ bs₂ : List β} (hxy : f x = g y) (ha : ∀ z ∈ as₁, f z < f x)
    (hb : ∀ z ∈ bs₁, g z < f x) :
    joined merge f g (as₁ ++ x :: as₂) (bs₁ ++ y :: bs₂) =
      joined merge f g as₁ bs₁ ++ (x, y) :: joined merge f g as₂ bs₂ := by
  revert ha hb
  refine joined_induction (f := f) (g := g) (P := fun as₁ bs₁ => (∀ z ∈ as₁, f z < f x) → (∀ z ∈ bs₁, g z < f x) →
    joined merge f g (as₁ ++ x :: as₂) (bs₁ ++ y :: bs₂) =
      joined merge f g as₁ bs₁ ++ (x, y) :: joined merge f g as₂ bs₂) ?_ ?_ ?_ ?_ ?_ as₁ bs₁
  · intro bs₁ _ hb
    rw [joined_nil_left hmerge]
    induction bs₁ with
    | nil => exact joined_of_eq hmerge hxy
    | cons z bs₁ ih =>
      obtain ⟨hz, hb⟩ := List.forall_mem_cons.1 hb
      rw [List.nil_append, List.cons_append, joined_of_gt hmerge hz]
      exact ih hb
  · intro as₁ ha _
    rw [joined_nil_right hmerge]
    induction as₁ with
    | nil => exact joined_of_eq hmerge hxy
    | cons z as₁ ih =>
      obtain ⟨hz, ha⟩ := List.forall_mem_cons.1 ha
      rw [List.nil_append, List.cons_append, joined_of_lt hmerge (hz.trans_eq hxy)]
      exact ih ha
  · intro z as₁ z' bs₁ hlt ih ha hb
    rw [List.cons_append, List.cons_append, joined_of_lt hmerge hlt, joined_of_lt hmerge hlt]
    exact ih (List.forall_mem_cons.1 ha).2 hb
  · intro z as₁ z' bs₁ hgt ih ha hb
    rw [List.cons_append, List.cons_append, joined_of_gt hmerge hgt, joined_of_gt hmerge hgt]
    exact ih ha (List.forall_mem_cons.1 hb).2
  · intro z as₁ z' bs₁ heq ih ha hb
    rw [List.cons_append, List.cons_append, joined_of_eq hmerge heq, joined_of_eq hmerge heq, List.cons_append]
    exact congrArg _ (ih (List.forall_mem_cons.1 ha).2 (List.forall_mem_cons.1 hb).2)

/-- **Where a common key comes together**: a greater one before it in one of the sequences has let it pass only if there is one
at least as great before it in the other. -/
theorem exists_of_mem_joined {t : α × β} : t ∈ joined merge f g as bs → ∃ as₁ as₂ bs₁ bs₂, as = as₁ ++ t.1 :: as₂ ∧
    bs = bs₁ ++ t.2 :: bs₂ ∧ (∀ z ∈ as₁, f t.1 < f z → ∃ z' ∈ bs₁, f z ≤ g z') ∧
      ∀ z ∈ bs₁, f t.1 < g z → ∃ z' ∈ as₁, g z ≤ f z' := by
  refine joined_induction (f := f) (g := g) (P := fun as bs => t ∈ joined merge f g as bs →
    ∃ as₁ as₂ bs₁ bs₂, as = as₁ ++ t.1 :: as₂ ∧ bs = bs₁ ++ t.2 :: bs₂ ∧
      (∀ z ∈ as₁, f t.1 < f z → ∃ z' ∈ bs₁, f z ≤ g z') ∧
        ∀ z ∈ bs₁, f t.1 < g z → ∃ z' ∈ as₁, g z ≤ f z') ?_ ?_ ?_ ?_ ?_ as bs
  · intro bs h
    rw [joined_nil_left hmerge] at h
    cases h
  · intro as h
    rw [joined_nil_right hmerge] at h
    cases h
  · intro x as y bs hlt ih h
    rw [joined_of_lt hmerge hlt] at h
    have hkey : f t.1 = g t.2 := (mem_of_mem_joined hmerge h).2.2
    obtain ⟨as₁, as₂, bs₁, bs₂, rfl, hbs, hcover, hcover'⟩ := ih h
    refine ⟨x :: as₁, as₂, bs₁, bs₂, rfl, hbs, List.forall_mem_cons.2 ⟨fun hq => ?_, hcover⟩, ?_⟩
    · -- the head of the second sequence is greater, so it is not the key itself
      cases bs₁ with
      | nil =>
        obtain rfl := (List.cons_eq_cons.1 hbs).1
        exact absurd (hlt.trans_eq hkey.symm) (lt_asymm hq)
      | cons z bs₁ =>
        obtain rfl := (List.cons_eq_cons.1 hbs).1
        exact ⟨_, List.mem_cons_self, hlt.le⟩
    · intro z hz hq
      obtain ⟨z', hz', hle⟩ := hcover' z hz hq
      exact ⟨z', List.mem_cons_of_mem _ hz', hle⟩
  · intro x as y bs hgt ih h
    rw [joined_of_gt hmerge hgt] at h
    obtain ⟨as₁, as₂, bs₁, bs₂, has, rfl, hcover, hcover'⟩ := ih h
    refine ⟨as₁, as₂, y :: bs₁, bs₂, has, rfl, ?_, List.forall_mem_cons.2 ⟨fun hq => ?_, hcover'⟩⟩
    · intro z hz hq
      obtain ⟨z', hz', hle⟩ := hcover z hz hq
      exact ⟨z', List.mem_cons_of_mem _ hz', hle⟩
    · cases as₁ with
      | nil =>
        obtain rfl := (List.cons_eq_cons.1 has).1
        exact absurd hgt (lt_asymm hq)
      | cons z as₁ =>
        obtain rfl := (List.cons_eq_cons.1 has).1
        exact ⟨_, List.mem_cons_self, hgt.le⟩
  · intro x as y bs heq ih h
    rw [joined_of_eq hmerge heq] at h
    rcases List.mem_cons.1 h with rfl | h
    · exact ⟨[], as, [], bs, rfl, rfl, fun z hz => absurd hz List.not_mem_nil, fun z hz => absurd hz List.not_mem_nil⟩
    · obtain ⟨as₁, as₂, bs₁, bs₂, rfl, rfl, hcover, hcover'⟩ := ih h
      refine ⟨x :: as₁, as₂, y :: bs₁, bs₂, rfl, rfl, ?_, ?_⟩
      · refine List.forall_mem_cons.2 ⟨fun _ => ⟨y, List.mem_cons_self, heq.le⟩, fun z hz hq => ?_⟩
        obtain ⟨z', hz', hle⟩ := hcover z hz hq
        exact ⟨z', List.mem_cons_of_mem _ hz', hle⟩
      · refine List.forall_mem_cons.2 ⟨fun _ => ⟨x, List.mem_cons_self, heq.ge⟩, fun z hz hq => ?_⟩
        obtain ⟨z', hz', hle⟩ := hcover' z hz hq
        exact ⟨z', List.mem_cons_of_mem _ hz', hle⟩

end Joined

end Library

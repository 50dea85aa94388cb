import Mathlib.Data.Finset.Card
import Mathlib.Data.Finset.Max
import Mathlib.Data.Finset.SDiff
import Mathlib.Logic.Relation
import Mathlib.Order.Defs.LinearOrder

/-!
# Search from newer to older

A graph whose nodes have parents and a time is searched for a node that hits, from a start back along the parents. The state of
the search is the set of nodes seen and the set of current nodes. A round returns a newest of the current nodes that hit; if
none does, then it replaces a newest current node by those of its parents that were not seen before. Among equally new nodes
any may be taken.

## What is proved

* `measure_follow`: every round has less left to search than the one before.
* `Finds.sound`, `Finds.complete`: it finds a node that hits exactly if one can be reached.
* `finds_start_iff`: where parents are older than their children, which nodes it finds.
-/

namespace Library.NewestFirst

variable {α T : Type} [DecidableEq α] [LinearOrder T]

/-- `a` is one of the newest of `s`. -/
def IsNewest (time : α → T) (s : Set α) (a : α) : Prop := a ∈ s ∧ ∀ b ∈ s, time b ≤ time a

/-- The state of a search. -/
structure State (α : Type) where
  /-- The nodes seen. -/
  seen : Finset α
  /-- The current nodes. -/
  current : Finset α

namespace State

/-- The search starts at a node. -/
def start (a : α) : State α := ⟨{a}, {a}⟩

/-- Replace a current node by its new parents. -/
def follow (parents : α → Finset α) (s : State α) (a : α) : State α :=
  ⟨s.seen ∪ parents a, s.current.erase a ∪ (parents a \ s.seen)⟩

end State

variable (parents : α → Finset α) (time : α → T) (hit : α → Prop)

/-- What a search can find from a state. -/
inductive Finds : State α → Option α → Prop where
  /-- There are no current nodes. -/
  | exhausted {s : State α} (h : s.current = ∅) : Finds s none
  /-- A newest of the current nodes that hit. -/
  | found {s : State α} {a : α} (h : IsNewest time {b | b ∈ s.current ∧ hit b} a) : Finds s (some a)
  /-- No current node hits, and a newest one is followed. -/
  | follow {s : State α} {a : α} {r : Option α} (hnone : ∀ b ∈ s.current, ¬ hit b)
    (hnewest : IsNewest time {b | b ∈ s.current} a) (hrest : Finds (s.follow parents a) r) : Finds s r

/-- A node that can be reached over parents. -/
abbrev Reaches : α → α → Prop := Relation.ReflTransGen fun a b => b ∈ parents a

/-- What holds of the states of a search: the current nodes are seen, what is seen can be reached, and what is seen and no
longer current does not hit and its parents are seen. -/
structure Sound (a : α) (s : State α) : Prop where
  /-- The start is seen. -/
  start : a ∈ s.seen
  /-- Current nodes are seen. -/
  current : s.current ⊆ s.seen
  /-- Seen nodes can be reached. -/
  reaches : ∀ b ∈ s.seen, Reaches parents a b
  /-- What was followed does not hit. -/
  misses : ∀ b ∈ s.seen, b ∉ s.current → ¬ hit b
  /-- The parents of what was followed are seen. -/
  followed : ∀ b ∈ s.seen, b ∉ s.current → parents b ⊆ s.seen

variable {parents time hit} {a b : α} {s : State α} {r : Option α}

omit [DecidableEq α] in
theorem IsNewest.mono {s t : Set α} (h : IsNewest time s a) (ha : a ∈ t) (ht : ∀ b ∈ t, ∃ c ∈ s, time b ≤ time c) :
    IsNewest time t a := by
  refine ⟨ha, fun b hb => ?_⟩
  obtain ⟨c, hc, hle⟩ := ht b hb
  exact hle.trans (h.2 c hc)

omit [DecidableEq α] in
/-- A set that is finite and not empty has a newest element. -/
theorem exists_isNewest {s : Finset α} (h : ∃ a ∈ s, hit a) (time : α → T) :
    ∃ a, IsNewest time {b | b ∈ s ∧ hit b} a := by
  classical
  obtain ⟨a, ha, hhit⟩ := h
  have hne : (s.filter hit).Nonempty := ⟨a, Finset.mem_filter.2 ⟨ha, hhit⟩⟩
  obtain ⟨b, hb, hmax⟩ := Finset.exists_max_image (s.filter hit) time hne
  refine ⟨b, (Finset.mem_filter.1 hb), fun c hc => hmax c (Finset.mem_filter.2 hc)⟩

/-! ### The search ends -/

/-- **The measure**: the nodes not yet seen, and the current ones. -/
theorem measure_follow {u : Finset α} (hcurrent : s.current ⊆ s.seen) (ha : a ∈ s.current) (hu : parents a ⊆ u) :
    (u \ (s.follow parents a).seen).card + (s.follow parents a).current.card + 1 =
      (u \ s.seen).card + s.current.card := by
  have hdisjoint : Disjoint (s.current.erase a) (parents a \ s.seen) := by
    rw [Finset.disjoint_left]
    intro b hb hnew
    exact (Finset.mem_sdiff.1 hnew).2 (hcurrent (Finset.mem_of_mem_erase hb))
  have hcard : (s.follow parents a).current.card = s.current.card - 1 + (parents a \ s.seen).card := by
    rw [State.follow, Finset.card_union_of_disjoint hdisjoint, Finset.card_erase_of_mem ha]
  have hseen : u \ (s.follow parents a).seen = (u \ s.seen) \ (parents a \ s.seen) := by
    ext b
    simp only [State.follow, Finset.mem_sdiff, Finset.mem_union]
    tauto
  have hsub : parents a \ s.seen ⊆ u \ s.seen := Finset.sdiff_subset_sdiff hu (Finset.Subset.refl _)
  have hpos := Finset.card_pos.2 ⟨a, ha⟩
  have hle := Finset.card_le_card hsub
  rw [hcard, hseen, Finset.card_sdiff_of_subset hsub]
  omega

omit [DecidableEq α] in
theorem Sound.of_start : Sound parents hit a (.start a) := by
  refine ⟨Finset.mem_singleton_self a, Finset.Subset.refl _, fun b hb => ?_, fun b hb hb' => absurd hb hb',
    fun b hb hb' => absurd hb hb'⟩
  rw [Finset.mem_singleton.1 hb]

/-- **One round.** -/
theorem Sound.follow (h : Sound parents hit a s) (hb : b ∈ s.current) (hmisses : ¬ hit b) :
    Sound parents hit a (s.follow parents b) := by
  have hcases : ∀ c ∈ s.seen ∪ parents b, c ∉ s.current.erase b ∪ (parents b \ s.seen) →
      c = b ∨ (c ∈ s.seen ∧ c ∉ s.current) := by
    intro c hc hc'
    simp only [Finset.mem_union, Finset.mem_erase, Finset.mem_sdiff, not_or, not_and, not_not] at hc hc'
    have hseen : c ∈ s.seen := hc.elim id hc'.2
    by_cases hcb : c = b
    · exact .inl hcb
    · exact .inr ⟨hseen, hc'.1 hcb⟩
  refine ⟨Finset.mem_union_left _ h.start, ?_, ?_, ?_, ?_⟩
  · intro c hc
    rcases Finset.mem_union.1 hc with hc | hc
    · exact Finset.mem_union_left _ (h.current (Finset.mem_of_mem_erase hc))
    · exact Finset.mem_union_right _ (Finset.mem_sdiff.1 hc).1
  · intro c hc
    rcases Finset.mem_union.1 hc with hc | hc
    · exact h.reaches c hc
    · exact (h.reaches b (h.current hb)).tail hc
  · intro c hc hc'
    rcases hcases c hc hc' with rfl | ⟨hseen, hcurrent⟩
    · exact hmisses
    · exact h.misses c hseen hcurrent
  · intro c hc hc'
    rcases hcases c hc hc' with rfl | ⟨hseen, hcurrent⟩
    · exact Finset.subset_union_right
    · exact (h.followed c hseen hcurrent).trans Finset.subset_union_left

/-- What can be reached has been followed, or it can be reached from a current node. -/
theorem Sound.followed_or_reaches (h : Sound parents hit a s) (hb : Reaches parents a b) :
    (b ∈ s.seen ∧ b ∉ s.current) ∨ ∃ c ∈ s.current, Reaches parents c b := by
  have hseen : ∀ c ∈ s.seen, (c ∈ s.seen ∧ c ∉ s.current) ∨ ∃ c' ∈ s.current, Reaches parents c' c := by
    intro c hc
    by_cases hcurrent : c ∈ s.current
    · exact .inr ⟨c, hcurrent, .refl⟩
    · exact .inl ⟨hc, hcurrent⟩
  induction hb with
  | refl => exact hseen a h.start
  | @tail c d hc hd ih =>
    rcases ih with ⟨hc, hcurrent⟩ | ⟨c', hc', hreaches⟩
    · exact hseen d (h.followed c hc hcurrent hd)
    · exact .inr ⟨c', hc', hreaches.tail hd⟩

omit [DecidableEq α] in
/-- What is reached stays in a closed set. -/
theorem mem_of_reaches {u : Finset α} (hclosed : ∀ b ∈ u, parents b ⊆ u) (ha : a ∈ u) (hb : Reaches parents a b) :
    b ∈ u := by
  induction hb with
  | refl => exact ha
  | @tail c d _ hd ih => exact hclosed c ih hd

/-! ### What is found -/

/-- What is found hits, and can be reached. -/
theorem Finds.sound (hfinds : Finds parents time hit s r) (h : Sound parents hit a s) :
    ∀ b, r = some b → Reaches parents a b ∧ hit b := by
  induction hfinds with
  | exhausted hempty => exact nofun
  | found hnewest =>
    rintro b ⟨⟩
    exact ⟨h.reaches _ (h.current hnewest.1.1), hnewest.1.2⟩
  | follow hnone hnewest _ ih => exact ih (h.follow hnewest.1 (hnone _ hnewest.1))

/-- If nothing is found, then nothing that hits can be reached. -/
theorem Finds.complete (hfinds : Finds parents time hit s r) (h : Sound parents hit a s) (hr : r = none) :
    ∀ b, Reaches parents a b → ¬ hit b := by
  induction hfinds with
  | exhausted hempty =>
    intro b hb
    rcases h.followed_or_reaches hb with ⟨hseen, hcurrent⟩ | ⟨c, hc, -⟩
    · exact h.misses b hseen hcurrent
    · rw [hempty] at hc
      cases hc
  | found hnewest => cases hr
  | follow hnone hnewest _ ih => exact ih (h.follow hnewest.1 (hnone _ hnewest.1)) hr

/-! ### Parents are older -/

omit [DecidableEq α] in
theorem le_of_reaches (hold : ∀ a, ∀ b ∈ parents a, time b < time a) (hb : Reaches parents a b) : time b ≤ time a := by
  induction hb with
  | refl => exact le_refl _
  | tail _ hd ih => exact (hold _ _ hd).le.trans ih

omit [DecidableEq α] in
theorem lt_of_reaches (hold : ∀ a, ∀ b ∈ parents a, time b < time a) (hb : Reaches parents a b) (hne : b ≠ a) :
    time b < time a := by
  rcases Relation.ReflTransGen.cases_head hb with heq | ⟨c, hc, hcb⟩
  · exact absurd heq.symm hne
  · exact (le_of_reaches hold hcb).trans_lt (hold a c hc)

/-- The nodes that can be reached and have a parent that hits. -/
def Children (parents : α → Finset α) (hit : α → Prop) (a : α) : Set α :=
  {b | Reaches parents a b ∧ ∃ c ∈ parents b, hit c}

/-- The parents that hit. -/
def HitParents (parents : α → Finset α) (hit : α → Prop) (b : α) : Set α := {c | c ∈ parents b ∧ hit c}

/-- While no current node hits, nothing seen does. -/
theorem Sound.quiet (h : Sound parents hit a s) (hquiet : ∀ b ∈ s.current, ¬ hit b) : ∀ b ∈ s.seen, ¬ hit b := by
  intro b hb
  by_cases hcurrent : b ∈ s.current
  · exact hquiet b hcurrent
  · exact h.misses b hb hcurrent

/-- Then the current nodes that hit after following a node are its parents that hit. -/
theorem Sound.hits_follow (h : Sound parents hit a s) (hquiet : ∀ b ∈ s.current, ¬ hit b) (b : α) :
    {c | c ∈ (s.follow parents b).current ∧ hit c} = HitParents parents hit b := by
  ext c
  constructor
  · rintro ⟨hc, hhit⟩
    rcases Finset.mem_union.1 hc with hc | hc
    · exact absurd hhit (hquiet c (Finset.mem_of_mem_erase hc))
    · exact ⟨(Finset.mem_sdiff.1 hc).1, hhit⟩
  · rintro ⟨hc, hhit⟩
    have hnew : c ∉ s.seen := fun hseen => h.quiet hquiet c hseen hhit
    exact ⟨Finset.mem_union_right _ (Finset.mem_sdiff.2 ⟨hc, hnew⟩), hhit⟩

/-- A node with a parent that hits has not been followed yet. -/
theorem Sound.reaches_of_children (h : Sound parents hit a s) (hquiet : ∀ b ∈ s.current, ¬ hit b)
    (hb : b ∈ Children parents hit a) : ∃ c ∈ s.current, Reaches parents c b := by
  obtain ⟨hreaches, c, hc, hhit⟩ := hb
  rcases h.followed_or_reaches hreaches with ⟨hseen, hcurrent⟩ | hcurrent
  · exact absurd hhit (h.quiet hquiet c (h.followed b hseen hcurrent hc))
  · exact hcurrent

/-- What is found is a newest of the parents that hit, of a newest node with such a parent. -/
theorem Finds.newest (hold : ∀ a, ∀ b ∈ parents a, time b < time a) (hfinds : Finds parents time hit s r)
    (h : Sound parents hit a s) (hquiet : ∀ b ∈ s.current, ¬ hit b) :
    ∀ c, r = some c → ∃ b, IsNewest time (Children parents hit a) b ∧ IsNewest time (HitParents parents hit b) c := by
  induction hfinds with
  | exhausted hempty => exact nofun
  | found hnewest => exact absurd hnewest.1.2 (hquiet _ hnewest.1.1)
  | @follow s b r hnone hnewest hrest ih =>
    have hsound := h.follow hnewest.1 (hnone b hnewest.1)
    by_cases hhit : ∃ c ∈ (s.follow parents b).current, hit c
    · rintro c rfl
      cases hrest with
      | follow hnone' _ _ =>
        obtain ⟨c', hc', hhit'⟩ := hhit
        exact absurd hhit' (hnone' c' hc')
      | found hfound =>
        rw [h.hits_follow hquiet b] at hfound
        refine ⟨b, ⟨⟨h.reaches b (h.current hnewest.1), c, hfound.1.1, hfound.1.2⟩, fun d hd => ?_⟩, hfound⟩
        obtain ⟨e, he, hreaches⟩ := h.reaches_of_children hquiet hd
        exact (le_of_reaches hold hreaches).trans (hnewest.2 e he)
    · exact ih hsound fun c hc hc' => hhit ⟨c, hc, hc'⟩

/-- And each of these can be found. -/
theorem finds_of_newest {u : Finset α} (hclosed : ∀ b ∈ u, parents b ⊆ u) (ha : a ∈ u)
    (hold : ∀ a, ∀ b ∈ parents a, time b < time a) (h : Sound parents hit a s) (hquiet : ∀ b ∈ s.current, ¬ hit b)
    {c : α} (hb : IsNewest time (Children parents hit a) b) (hc : IsNewest time (HitParents parents hit b) c) :
    Finds parents time hit s (some c) := by
  induction hn : (u \ s.seen).card + s.current.card generalizing s with
  | zero =>
    obtain ⟨d, hd, -⟩ := h.reaches_of_children hquiet hb.1
    have hempty : s.current = ∅ := Finset.card_eq_zero.1 (by omega)
    rw [hempty] at hd
    cases hd
  | succ n ih =>
    by_cases hnewest : IsNewest time {d | d ∈ s.current} b
    · refine .follow hquiet hnewest (.found ?_)
      rwa [h.hits_follow hquiet b]
    · -- Another node is newer, and so it has no parent that hits.
      obtain ⟨d, hd, hreaches⟩ := h.reaches_of_children hquiet hb.1
      obtain ⟨e, ⟨he, -⟩, hmax⟩ := exists_isNewest (show ∃ a ∈ s.current, True from ⟨d, hd, trivial⟩) time
      have hlt : time b < time e := by
        rcases eq_or_ne b d with rfl | hne
        · by_contra hge
          refine hnewest ⟨hd, fun d' hd' => ?_⟩
          exact (hmax d' ⟨hd', trivial⟩).trans (not_lt.1 hge)
        · exact (lt_of_reaches hold hreaches hne).trans_le (hmax d ⟨hd, trivial⟩)
      have hnone : ∀ c' ∈ parents e, ¬ hit c' := by
        intro c' hc' hhit
        have hle := hb.2 e ⟨h.reaches e (h.current he), c', hc', hhit⟩
        exact absurd hle (not_le.2 hlt)
      have heu := mem_of_reaches hclosed ha (h.reaches e (h.current he))
      have hmeasure := measure_follow h.current he (hclosed e heu)
      refine .follow hquiet ⟨he, fun d' hd' => hmax d' ⟨hd', trivial⟩⟩ ?_
      refine ih (h.follow he (hquiet e he)) (fun c' hc' hhit => ?_) (by omega)
      have hmem : c' ∈ HitParents parents hit e := by
        rw [← h.hits_follow hquiet e]
        exact ⟨hc', hhit⟩
      exact hnone c' hmem.1 hhit

/-- **What a search finds where parents are older**: the start, if it hits, and else a newest of the parents that hit, of a
newest node that has such a parent. -/
theorem finds_start_iff {u : Finset α} (hclosed : ∀ b ∈ u, parents b ⊆ u) (ha : a ∈ u)
    (hold : ∀ a, ∀ b ∈ parents a, time b < time a) {c : α} :
    Finds parents time hit (.start a) (some c) ↔ (hit a ∧ c = a) ∨ (¬ hit a ∧
      ∃ b, IsNewest time (Children parents hit a) b ∧ IsNewest time (HitParents parents hit b) c) := by
  have hsingle : ∀ b ∈ (State.start a).current, b = a := fun b hb => Finset.mem_singleton.1 hb
  have hquiet : ¬ hit a → ∀ b ∈ (State.start a).current, ¬ hit b := by
    intro hmisses b hb
    rwa [hsingle b hb]
  constructor
  · intro hfinds
    by_cases hhit : hit a
    · cases hfinds with
      | found hnewest => exact .inl ⟨hhit, hsingle c hnewest.1.1⟩
      | follow hnone _ _ => exact absurd hhit (hnone a (Finset.mem_singleton_self a))
    · exact .inr ⟨hhit, hfinds.newest hold .of_start (hquiet hhit) c rfl⟩
  · rintro (⟨hhit, rfl⟩ | ⟨hmisses, b, hb, hc⟩)
    · refine .found ⟨⟨Finset.mem_singleton_self c, hhit⟩, ?_⟩
      rintro b ⟨hb, -⟩
      rw [hsingle b hb]
    · exact finds_of_newest hclosed ha hold .of_start (hquiet hmisses) hb hc

/-! ### Ties -/

variable (parents time hit) in
/-- A round that goes on. -/
def Follows (s t : State α) : Prop :=
  (∀ b ∈ s.current, ¬ hit b) ∧ ∃ a, IsNewest time {b | b ∈ s.current} a ∧ t = s.follow parents a

variable (time hit) in
/-- The round has no choice: one newest current node that hits, or if none hits, one newest current node. -/
structure Untied (s : State α) : Prop where
  /-- Of those that hit. -/
  found : ∀ a b, IsNewest time {c | c ∈ s.current ∧ hit c} a → IsNewest time {c | c ∈ s.current ∧ hit c} b → a = b
  /-- Of all. -/
  followed : (∀ c ∈ s.current, ¬ hit c) → ∀ a b, IsNewest time {c | c ∈ s.current} a →
    IsNewest time {c | c ∈ s.current} b → a = b

omit [DecidableEq α] in
/-- Where no two current nodes are of the same time, there is no choice. -/
theorem Untied.of_injOn (h : Set.InjOn time s.current) : Untied time hit s where
  found _ _ ha hb := h ha.1.1 hb.1.1 (le_antisymm (hb.2 _ ha.1) (ha.2 _ hb.1))
  followed _ _ _ ha hb := h ha.1 hb.1 (le_antisymm (hb.2 _ ha.1) (ha.2 _ hb.1))

/-- What is seen in the rounds of a search can be reached. -/
theorem Sound.of_follows {t : State α} (h : Sound parents hit a s) (hrun : Relation.ReflTransGen (Follows parents time hit) s t) :
    Sound parents hit a t := by
  induction hrun with
  | refl => exact h
  | tail _ hround ih =>
    obtain ⟨hnone, b, hnewest, rfl⟩ := hround
    exact ih.follow hnewest.1 (hnone b hnewest.1)

/-- **Where no round has a choice, one thing can be found.** -/
theorem Finds.unique {r' : Option α} (hfinds : Finds parents time hit s r) (hfinds' : Finds parents time hit s r')
    (h : ∀ t, Relation.ReflTransGen (Follows parents time hit) s t → Untied time hit t) : r = r' := by
  induction hfinds with
  | exhausted hempty =>
    cases hfinds' with
    | exhausted _ => rfl
    | found hnewest =>
      have hmem := hnewest.1.1
      rw [hempty] at hmem
      cases hmem
    | follow _ hnewest _ =>
      have hmem := hnewest.1
      rw [Set.mem_ofPred_eq, hempty] at hmem
      cases hmem
  | found hnewest =>
    cases hfinds' with
    | exhausted hempty =>
      have hmem := hnewest.1.1
      rw [hempty] at hmem
      cases hmem
    | found hnewest' => rw [(h _ .refl).found _ _ hnewest hnewest']
    | follow hnone _ _ => exact absurd hnewest.1.2 (hnone _ hnewest.1.1)
  | @follow s a r hnone hnewest hrest ih =>
    cases hfinds' with
    | exhausted hempty =>
      have hmem := hnewest.1
      rw [Set.mem_ofPred_eq, hempty] at hmem
      cases hmem
    | found hnewest' => exact absurd hnewest'.1.2 (hnone _ hnewest'.1.1)
    | @follow _ b _ _ hnewest' hrest' =>
      obtain rfl := (h s .refl).followed hnone _ _ hnewest hnewest'
      exact ih hrest' fun t ht => h t (ht.head ⟨hnone, a, hnewest, rfl⟩)

end Library.NewestFirst

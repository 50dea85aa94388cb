import Evobench.StatsTables.Repetition
import Evobench.Library.SortedMap

/-!
# The weighted index

`IndexedNumbers` with its sorted map, as in the source: from the index at which a value starts to the value.
`Stats.fromValues` uses the entries of it as a list (`StatsTables.IndexedNumbers`).

## What is proved

* `pushAll_eq`: the map gets one entry after the other at the end, and the index gets no further than a `u64`.
* `fromUnsortedWeightedValueVec_refines`: that is the list which the statistics are calculated from.
* `IsExpansion`: the list of the values in ascending order, each as often as all its weights say.
* `Indexes`: the structure answers for a list.

The main result is `indexes_expansion`.
-/

namespace Library.SortedMap

variable {K V : Type} [LinearOrder K]

/-- An entry after all others goes to the end. -/
theorem entries_insert_last {m : SortedMap K V} {k : K} (h : ∀ e ∈ m.entries, e.1 < k) (v : V) :
    (m.insert k v).entries = m.entries ++ [(k, v)] := by
  have hsorted : (m.entries ++ [(k, v)]).Pairwise fun a b => a.1 < b.1 :=
    List.pairwise_append.2 ⟨m.sorted, List.pairwise_singleton _ _, by simpa using fun a b hab => h (a, b) hab⟩
  have heq : m.insert k v = ⟨m.entries ++ [(k, v)], hsorted⟩ := by
    apply ext_of_mem
    intro e
    rw [mem_insert, List.mem_append, List.mem_singleton, or_comm]
    exact or_congr_left (and_iff_left_of_imp fun he => ne_of_lt (h e he))
  rw [heq]

end Library.SortedMap

namespace Evobench.StatsTables.Weighted

open Library

/-- `TooMuchIndexedNumbersWeightError`: "got too many or too heavily weighted values" -/
inductive TooMuchIndexedNumbersWeightError where
  /-- The only one. -/
  | mk
deriving DecidableEq

/-- `IndexedNumbers` -/
structure IndexedNumbers where
  /-- Index to value. -/
  indexToValue : SortedMap ℕ UInt64
  /-- Index to position after the "end" of the last value. -/
  virtualLen : ℕ

namespace IndexedNumbers

/-- No values. -/
def empty : IndexedNumbers := ⟨.empty, 0⟩

/-- The first value. -/
def first (numbers : IndexedNumbers) : Option UInt64 := numbers.indexToValue.entries.head?.map Prod.snd

/-- The last value. -/
def last (numbers : IndexedNumbers) : Option UInt64 := numbers.indexToValue.entries.getLast?.map Prod.snd

/-- The loop over the sorted values. -/
def pushAll : IndexedNumbers → List WeightedValue → Except TooMuchIndexedNumbersWeightError IndexedNumbers
  | numbers, [] => .ok numbers
  | numbers, v :: vs =>
    if numbers.virtualLen + v.weight.toNat < 2 ^ 64 then
      pushAll ⟨numbers.indexToValue.insert numbers.virtualLen v.value, numbers.virtualLen + v.weight.toNat⟩ vs
    else .error .mk

/-- `from_unsorted_weighted_value_vec`. Sorts the vec! -/
def fromUnsortedWeightedValueVec (weightedValues : List WeightedValue) :
    Except TooMuchIndexedNumbersWeightError IndexedNumbers := pushAll empty (sorted weightedValues)

/-- `lookup`: the entry at key, or the next-lower one. -/
def lookup {ε : Type} (map : SortedMap ℕ UInt64) (key : ℕ) : Outcome ε (ℕ × UInt64) :=
  match (map.entries.filter fun entry => entry.1 ≤ key).getLast? with
  | some entry => .ok entry
  | none => .panic "we fill in index 0 thus will always find a value"

/-- `get` -/
def get {ε : Type} (numbers : IndexedNumbers) (index : ℕ) : Outcome ε (Option UInt64) :=
  if index < numbers.virtualLen then do
    let entry ← lookup numbers.indexToValue index
    pure (some entry.2)
  else pure none

/-! ### Making it -/

/-- **The loop** adds the entries of the values at the end, as long as the indices fit. -/
theorem pushAll_eq {numbers : IndexedNumbers} (h : ∀ e ∈ numbers.indexToValue.entries, e.1 < numbers.virtualLen)
    (vals : List WeightedValue) (hfits : numbers.virtualLen + totalWeight vals < 2 ^ 64) :
    ∃ numbers', numbers.pushAll vals = .ok numbers' ∧
      numbers'.indexToValue.entries = numbers.indexToValue.entries ++ entries numbers.virtualLen vals ∧
      numbers'.virtualLen = numbers.virtualLen + totalWeight vals := by
  induction vals generalizing numbers with
  | nil => exact ⟨numbers, rfl, by simp [entries], by simp⟩
  | cons v vals ih =>
    rw [totalWeight_cons] at hfits
    have hlast := SortedMap.entries_insert_last h v.value
    have hpos := v.pos
    have hnext : ∀ e ∈ (numbers.indexToValue.insert numbers.virtualLen v.value).entries,
        e.1 < numbers.virtualLen + v.weight.toNat := by
      intro e he
      rw [hlast, List.mem_append, List.mem_singleton] at he
      rcases he with he | rfl
      · exact (h e he).trans_le (Nat.le_add_right _ _)
      · exact Nat.lt_add_of_pos_right hpos
    have hrest : numbers.virtualLen + v.weight.toNat + totalWeight vals < 2 ^ 64 := by omega
    obtain ⟨numbers', hok, hentries, hlen⟩ :=
      @ih ⟨numbers.indexToValue.insert numbers.virtualLen v.value, numbers.virtualLen + v.weight.toNat⟩ hnext hrest
    refine ⟨numbers', ?_, ?_, ?_⟩
    · rw [pushAll, if_pos (by omega)]
      exact hok
    · rw [hentries, hlast, List.append_assoc]
      rfl
    · rw [hlen, totalWeight_cons, Nat.add_assoc]

/-- Weights that do not fit are an error. -/
theorem pushAll_eq_error {numbers : IndexedNumbers} (vals : List WeightedValue)
    (hbound : numbers.virtualLen < 2 ^ 64) (hfits : ¬ numbers.virtualLen + totalWeight vals < 2 ^ 64) :
    numbers.pushAll vals = .error .mk := by
  induction vals generalizing numbers with
  | nil => exact absurd hbound (by simpa using hfits)
  | cons v vals ih =>
    rw [pushAll]
    split_ifs with hlt
    · exact ih hlt (by simpa [Nat.add_assoc] using hfits)
    · rfl

/-- They are a panic for the statistics. -/
theorem fill_eq_panic {i : ℕ} (vals : List WeightedValue) (hi : i < 2 ^ 64) (hfits : ¬ i + totalWeight vals < 2 ^ 64) :
    StatsTables.IndexedNumbers.fill i vals = .panic "virtual_count is limited to u64 range above" := by
  induction vals generalizing i with
  | nil => exact absurd hi (by simpa using hfits)
  | cons v vals ih =>
    rw [StatsTables.IndexedNumbers.fill]
    split_ifs with hlt
    · rw [ih hlt (by simpa [Nat.add_assoc] using hfits)]
      rfl
    · rfl

/-- What is made of values that fit. -/
theorem fromUnsortedWeightedValueVec_eq {vals : List WeightedValue} (hfits : totalWeight vals < 2 ^ 64) :
    ∃ numbers, fromUnsortedWeightedValueVec vals = .ok numbers ∧
      numbers.indexToValue.entries = entries 0 (sorted vals) ∧ numbers.virtualLen = totalWeight vals := by
  have hempty : ∀ e ∈ empty.indexToValue.entries, e.1 < empty.virtualLen := by simp [empty, SortedMap.empty]
  have hpush := pushAll_eq hempty (sorted vals) (by simpa [empty, totalWeight_sorted] using hfits)
  rw [totalWeight_sorted] at hpush
  obtain ⟨numbers, hok, hentries, hlen⟩ := hpush
  exact ⟨numbers, hok, hentries, hlen.trans (Nat.zero_add _)⟩

/-- **The list of the statistics** is the list of the entries; there, the error is a panic. -/
theorem fromUnsortedWeightedValueVec_refines (vals : List WeightedValue) :
    StatsTables.IndexedNumbers.fromUnsortedWeightedValueVec vals =
      match fromUnsortedWeightedValueVec vals with
      | .ok numbers => .ok ⟨numbers.indexToValue.entries, numbers.virtualLen⟩
      | .error _ => .panic "virtual_count is limited to u64 range above" := by
  by_cases hfits : totalWeight vals < 2 ^ 64
  · obtain ⟨numbers, hok, hentries, hlen⟩ := fromUnsortedWeightedValueVec_eq hfits
    rw [StatsTables.fromUnsortedWeightedValueVec_eq hfits, hok]
    simp only [hentries, hlen]
    rfl
  · have herror : fromUnsortedWeightedValueVec vals = .error .mk :=
      pushAll_eq_error _ (by simp [empty]) (by simpa [empty, totalWeight_sorted] using hfits)
    rw [herror]
    exact fill_eq_panic (sorted vals) (by simp) (by simpa [totalWeight_sorted] using hfits)

/-! ### Asking it -/

/-- What is found at an index. -/
theorem get_eq {ε : Type} {numbers : IndexedNumbers} {vals : List WeightedValue}
    (hentries : numbers.indexToValue.entries = entries 0 vals) (hlen : numbers.virtualLen = totalWeight vals) (index : ℕ) :
    (numbers.get index : Outcome ε _) = .ok (expanded vals)[index]? := by
  rw [get, hlen]
  split_ifs with hlt
  · have hlookup := lookup_entries 0 (totalWeight vals) vals (Nat.zero_le index) (by simpa using hlt)
    rw [StatsTables.IndexedNumbers.lookup, Nat.sub_zero, List.getElem?_eq_getElem (by rwa [length_expanded]),
      Option.map_eq_some_iff] at hlookup
    obtain ⟨entry, hentry, hvalue⟩ := hlookup
    rw [lookup, hentries, hentry, List.getElem?_eq_getElem (by rwa [length_expanded]), ← hvalue]
    rfl
  · rw [List.getElem?_eq_none (by rw [length_expanded]; omega)]
    rfl

end IndexedNumbers

/-! ### The expanded list -/

/-- How often a value counts: the sum of all its weights. -/
def weightOf (vals : List WeightedValue) (value : UInt64) : ℕ :=
  totalWeight (vals.filter fun v => v.value = value)

/-- **The expanded list**: it is ascending, and each value occurs in it as often as its total weight. -/
structure IsExpansion (vals : List WeightedValue) (s : List UInt64) : Prop where
  /-- It is ascending. -/
  ascending : s.Pairwise fun a b => a.toNat ≤ b.toNat
  /-- How often a value occurs. -/
  count : ∀ value, s.count value = weightOf vals value

theorem count_expanded (vals : List WeightedValue) (value : UInt64) :
    (expanded vals).count value = weightOf vals value := by
  induction vals with
  | nil => rfl
  | cons v vals ih =>
    rw [expanded, List.flatMap_cons, List.count_append, List.count_replicate, ← expanded, ih, weightOf, weightOf]
    by_cases hv : v.value = value
    · simp [hv]
    · simp [hv]

/-- The expanded list. -/
theorem isExpansion_expanded (vals : List WeightedValue) : IsExpansion vals (expanded (sorted vals)) where
  ascending := pairwise_expanded_sorted vals
  count value := by rw [(expanded_sorted_perm vals).count_eq, count_expanded]

/-- There is only one. -/
theorem IsExpansion.unique {vals : List WeightedValue} {s s' : List UInt64} (h : IsExpansion vals s)
    (h' : IsExpansion vals s') : s = s' := by
  have hperm : s.Perm s' := List.perm_iff_count.2 fun value => by rw [h.count, h'.count]
  exact hperm.eq_of_pairwise (fun _ _ _ _ hab hba => UInt64.toNat_inj.1 (Nat.le_antisymm hab hba)) h.ascending h'.ascending

/-- The first element is the minimum. -/
theorem head?_eq_some_iff {s : List UInt64} (h : s.Pairwise fun a b => a.toNat ≤ b.toNat) (value : UInt64) :
    s.head? = some value ↔ value ∈ s ∧ ∀ other ∈ s, value.toNat ≤ other.toNat := by
  cases h with
  | nil => simp
  | @cons a s hle hs =>
    simp only [List.head?_cons, Option.some.injEq, List.mem_cons, forall_eq_or_imp]
    constructor
    · rintro rfl
      exact ⟨.inl rfl, Nat.le_refl _, hle⟩
    · rintro ⟨rfl | hmem, hmin, -⟩
      · rfl
      · exact UInt64.toNat_inj.1 (Nat.le_antisymm (hle value hmem) hmin)

/-- The last element is the maximum. -/
theorem getLast?_eq_some_iff {s : List UInt64} (h : s.Pairwise fun a b => a.toNat ≤ b.toNat) (value : UInt64) :
    s.getLast? = some value ↔ value ∈ s ∧ ∀ other ∈ s, other.toNat ≤ value.toNat := by
  rcases List.eq_nil_or_concat s with rfl | ⟨s, a, rfl⟩
  · simp
  · rw [List.concat_eq_append, List.pairwise_append] at h
    have hle : ∀ other ∈ s, other.toNat ≤ a.toNat := fun other hmem => h.2.2 other hmem a (by simp)
    simp only [List.concat_eq_append, List.getLast?_concat, Option.some.injEq, List.mem_append, List.mem_singleton]
    constructor
    · rintro rfl
      exact ⟨.inr rfl, fun other => Or.rec (hle other) fun he => he ▸ Nat.le_refl _⟩
    · rintro ⟨hmem | rfl, hmax⟩
      · exact UInt64.toNat_inj.1 (Nat.le_antisymm (hmax a (.inr rfl)) (hle value hmem))
      · rfl

/-- **The index answers for a list.** -/
structure Indexes (numbers : IndexedNumbers) (s : List UInt64) : Prop where
  /-- An index gives the element there. -/
  get : ∀ index, (numbers.get index : Outcome Empty _) = .ok s[index]?
  /-- There is none exactly from the end on. -/
  get_eq_none_iff : ∀ index, (numbers.get index : Outcome Empty _) = .ok none ↔ numbers.virtualLen ≤ index
  /-- The first value is the minimum. -/
  first : ∀ value, numbers.first = some value ↔ value ∈ s ∧ ∀ other ∈ s, value.toNat ≤ other.toNat
  /-- The last value is the maximum. -/
  last : ∀ value, numbers.last = some value ↔ value ∈ s ∧ ∀ other ∈ s, other.toNat ≤ value.toNat

/-- **The weighted index is the expanded list**, for values whose weights sum to at most `u64::MAX`. -/
theorem indexes_expansion {vals : List WeightedValue} (hfits : totalWeight vals ≤ UInt64.size - 1) :
    ∃ numbers s, IndexedNumbers.fromUnsortedWeightedValueVec vals = .ok numbers ∧ IsExpansion vals s ∧ Indexes numbers s := by
  have hlt : totalWeight vals < 2 ^ 64 := by
    rw [show UInt64.size = 2 ^ 64 from rfl] at hfits
    omega
  obtain ⟨numbers, hok, hentries, hlen⟩ := IndexedNumbers.fromUnsortedWeightedValueVec_eq hlt
  rw [← totalWeight_sorted] at hlen
  have hget : ∀ index, (numbers.get index : Outcome Empty _) = _ := IndexedNumbers.get_eq hentries hlen
  have hexpansion := isExpansion_expanded vals
  refine ⟨numbers, _, hok, hexpansion, ⟨hget, fun index => ?_, fun value => ?_, fun value => ?_⟩⟩
  · rw [hget, hlen, ← length_expanded]
    simp
  · rw [IndexedNumbers.first, hentries, head?_entries]
    exact head?_eq_some_iff hexpansion.ascending value
  · rw [IndexedNumbers.last, hentries, getLast?_entries]
    exact getLast?_eq_some_iff hexpansion.ascending value

theorem two_pos_u32 : (0 : UInt32) < 2 := by decide

/-- Values with the same one twice, with different weights. -/
def testValues : List WeightedValue :=
  [⟨10, 1, by decide⟩, ⟨100, 5, by decide⟩, ⟨4, 2, two_pos_u32⟩, ⟨10, 3, by decide⟩]

theorem indexes_testValues :
    ∃ numbers s, IndexedNumbers.fromUnsortedWeightedValueVec testValues = .ok numbers ∧ IsExpansion testValues s ∧
      Indexes numbers s := indexes_expansion (by decide)

end Evobench.StatsTables.Weighted

import Evobench.StatsTables.Stats

/-!
# When statistics can be calculated

`StatsFit` says for which values `Stats.fromValues` does not panic (`fromValues_panics_iff`): the count fits 64 bits, the sum
128 bits, and, if the sum is small enough for an average at all, the squared errors fit the fixed-point numbers and the tiles
are the places that they are meant to be. None of that depends on the order of the values (`StatsFit.perm`).
-/

namespace Evobench.StatsTables

open Library

/-! ### Count and sum -/

/-- How many values there are, each as often as it counts. -/
def totalWeight (vals : List WeightedValue) : ℕ := (vals.map fun v => v.weight.toNat).sum

/-- Their sum. -/
def totalSum (vals : List WeightedValue) : ℕ := (vals.map WeightedValue.product).sum

@[simp] theorem totalWeight_nil : totalWeight [] = 0 := rfl

@[simp] theorem totalWeight_cons (v : WeightedValue) (vals : List WeightedValue) :
    totalWeight (v :: vals) = v.weight.toNat + totalWeight vals := by simp [totalWeight]

@[simp] theorem totalSum_nil : totalSum [] = 0 := rfl

@[simp] theorem totalSum_cons (v : WeightedValue) (vals : List WeightedValue) :
    totalSum (v :: vals) = v.product + totalSum vals := by simp [totalSum]

theorem totalWeight_pos {vals : List WeightedValue} (h : vals ≠ []) : 0 < totalWeight vals := by
  cases vals with
  | nil => exact absurd rfl h
  | cons v vals =>
    have := v.pos
    rw [totalWeight_cons]
    omega

theorem countAndSum_eq {count sum : ℕ} (hcount : count < 2 ^ 64) (hsum : sum < 2 ^ 128) (vals : List WeightedValue) :
    countAndSum (count, sum) vals =
      if count + totalWeight vals < 2 ^ 64 ∧ sum + totalSum vals < 2 ^ 128 then
        .ok (count + totalWeight vals, sum + totalSum vals)
      else .panic "attempt to add with overflow" := by
  induction vals generalizing count sum with
  | nil =>
    rw [totalWeight_nil, totalSum_nil, if_pos ⟨hcount, hsum⟩]
    rfl
  | cons v vals ih =>
    rw [countAndSum, totalWeight_cons, totalSum_cons]
    by_cases hfits : count + v.weight.toNat < 2 ^ 64 ∧ sum + v.product < 2 ^ 128
    · rw [if_pos hfits, ih hfits.1 hfits.2, Nat.add_assoc, Nat.add_assoc]
    · rw [if_neg hfits, if_neg]
      rintro ⟨h₁, h₂⟩
      exact hfits ⟨by omega, by omega⟩

/-! ### Squared errors -/

/-- The squared error of a value, as it is calculated. -/
def squaredErrorBits (debugAssertions : Bool) (average : ℕ) (v : WeightedValue) : ℕ :=
  let difference := absdiff (v.value.toNat * 2 ^ 32) average
  let square := difference * difference / 2 ^ 32
  if debugAssertions then square * v.weight.toNat else square % 2 ^ 128 * v.weight.toNat % 2 ^ 128

theorem mul_shift_div (a b : ℕ) : a * (b * 2 ^ 32) / 2 ^ 32 = a * b := by
  rw [← Nat.mul_assoc, Nat.mul_div_cancel _ (by decide)]

theorem squaredError_spec (fixed : FixedArithmetic) (average : ℕ) (v : WeightedValue) :
    (squaredErrorBits fixed.debugAssertions average v < 2 ^ 128 →
        squaredError fixed average v = .ok (squaredErrorBits fixed.debugAssertions average v)) ∧
      (2 ^ 128 ≤ squaredErrorBits fixed.debugAssertions average v →
        ∃ msg, squaredError fixed average v = .panic msg) := by
  unfold squaredErrorBits squaredError
  simp only
  generalize absdiff (v.value.toNat * 2 ^ 32) average = d
  have hpos := v.pos
  cases hdebug : fixed.debugAssertions with
  | true =>
    simp only [if_true]
    have hle : d * d / 2 ^ 32 ≤ d * d / 2 ^ 32 * v.weight.toNat := Nat.le_mul_of_pos_right _ hpos
    constructor
    · intro hlt
      rw [fixed.mul_fits d d (by omega), Outcome.ok_bind, fixed.mul_fits _ _ (by rwa [mul_shift_div]), mul_shift_div]
    · intro hge
      by_cases hsquare : d * d / 2 ^ 32 < 2 ^ 128
      · obtain ⟨msg, hmsg⟩ := fixed.mul_panics (d * d / 2 ^ 32) (v.weight.toNat * 2 ^ 32) hdebug (by rwa [mul_shift_div])
        exact ⟨msg, by rw [fixed.mul_fits d d hsquare, Outcome.ok_bind, hmsg]⟩
      · obtain ⟨msg, hmsg⟩ := fixed.mul_panics d d hdebug (Nat.not_lt.1 hsquare)
        exact ⟨msg, by rw [hmsg, Outcome.panic_bind]⟩
  | false =>
    simp only [Bool.false_eq_true, if_false]
    constructor
    · intro _
      rw [fixed.mul_wraps d d hdebug, Outcome.ok_bind, fixed.mul_wraps _ _ hdebug, mul_shift_div]
    · intro hge
      have := Nat.mod_lt (d * d / 2 ^ 32 % 2 ^ 128 * v.weight.toNat) (y := 2 ^ 128) (by decide)
      omega

/-- The sum of the squared errors. -/
def totalSquaredError (debugAssertions : Bool) (average : ℕ) (vals : List WeightedValue) : ℕ :=
  (vals.map (squaredErrorBits debugAssertions average)).sum

theorem sumSquaredError_spec (fixed : FixedArithmetic) (average : ℕ) {sum : ℕ} (hsum : sum < 2 ^ 128)
    (vals : List WeightedValue) :
    (sum + totalSquaredError fixed.debugAssertions average vals < 2 ^ 128 →
        sumSquaredError fixed average sum vals = .ok (sum + totalSquaredError fixed.debugAssertions average vals)) ∧
      (2 ^ 128 ≤ sum + totalSquaredError fixed.debugAssertions average vals →
        ∃ msg, sumSquaredError fixed average sum vals = .panic msg) := by
  induction vals generalizing sum with
  | nil =>
    rw [show totalSquaredError fixed.debugAssertions average [] = 0 from rfl]
    exact ⟨fun _ => rfl, fun hge => by omega⟩
  | cons v vals ih =>
    rw [show totalSquaredError fixed.debugAssertions average (v :: vals) =
      squaredErrorBits fixed.debugAssertions average v + totalSquaredError fixed.debugAssertions average vals by
        simp [totalSquaredError], sumSquaredError]
    obtain ⟨hfits, hpanics⟩ := squaredError_spec fixed average v
    by_cases herror : squaredErrorBits fixed.debugAssertions average v < 2 ^ 128
    · rw [hfits herror, Outcome.ok_bind]
      by_cases hadd : sum + squaredErrorBits fixed.debugAssertions average v < 2 ^ 128
      · rw [fixed.add_fits _ _ hadd, Outcome.ok_bind, ← Nat.add_assoc]
        exact ih hadd
      · obtain ⟨msg, hmsg⟩ := fixed.add_panics _ _ (Nat.not_lt.1 hadd)
        rw [hmsg, Outcome.panic_bind]
        exact ⟨fun hlt => by omega, fun _ => ⟨msg, rfl⟩⟩
    · obtain ⟨msg, hmsg⟩ := hpanics (Nat.not_lt.1 herror)
      rw [hmsg, Outcome.panic_bind]
      exact ⟨fun hlt => by omega, fun _ => ⟨msg, rfl⟩⟩

/-! ### Lookup -/

/-- The values one after the other, each as often as it counts. -/
def expanded (vals : List WeightedValue) : List UInt64 := vals.flatMap fun v => List.replicate v.weight.toNat v.value

theorem length_expanded (vals : List WeightedValue) : (expanded vals).length = totalWeight vals := by
  simp [expanded, totalWeight, List.length_flatMap]

/-- The entries for sorted values. -/
def entries : ℕ → List WeightedValue → List (ℕ × UInt64)
  | _, [] => []
  | i, v :: vals => (i, v.value) :: entries (i + v.weight.toNat) vals

theorem fill_eq (i : ℕ) (vals : List WeightedValue) (h : i + totalWeight vals < 2 ^ 64) :
    IndexedNumbers.fill i vals = .ok ⟨entries i vals, i + totalWeight vals⟩ := by
  induction vals generalizing i with
  | nil => rfl
  | cons v vals ih =>
    rw [totalWeight_cons] at h ⊢
    rw [IndexedNumbers.fill, if_pos (by omega), ih _ (by omega), Outcome.ok_bind, Nat.add_assoc]
    rfl

theorem le_of_mem_entries {i : ℕ} {vals : List WeightedValue} {entry : ℕ × UInt64} (h : entry ∈ entries i vals) :
    i ≤ entry.1 := by
  induction vals generalizing i with
  | nil => cases h
  | cons v vals ih =>
    rcases List.mem_cons.1 h with rfl | h
    · exact Nat.le_refl i
    · exact (Nat.le_add_right i _).trans (ih h)

/-- What is found at an index. -/
theorem lookup_entries (i len : ℕ) (vals : List WeightedValue) {j : ℕ} (hle : i ≤ j) (hlt : j < i + totalWeight vals) :
    (⟨entries i vals, len⟩ : IndexedNumbers).lookup j = (expanded vals)[j - i]? := by
  induction vals generalizing i with
  | nil =>
    rw [totalWeight_nil] at hlt
    omega
  | cons v vals ih =>
    rw [totalWeight_cons] at hlt
    have hexpanded : expanded (v :: vals) = List.replicate v.weight.toNat v.value ++ expanded vals := rfl
    rw [IndexedNumbers.lookup, entries, List.filter_cons, if_pos (by simpa using hle), hexpanded]
    by_cases hj : j < i + v.weight.toNat
    · have hnone : (entries (i + v.weight.toNat) vals).filter (fun entry => decide (entry.1 ≤ j)) = [] := by
        rw [List.filter_eq_nil_iff]
        intro entry hentry
        have := le_of_mem_entries hentry
        simp only [decide_eq_true_eq]
        omega
      rw [hnone, List.getElem?_append_left (by rw [List.length_replicate]; omega), List.getElem?_replicate, if_pos (by omega)]
      rfl
    · have hrest := ih (i + v.weight.toNat) (by omega) (by omega)
      rw [IndexedNumbers.lookup] at hrest
      have hindex : j - (i + v.weight.toNat) < (expanded vals).length := by
        rw [length_expanded]
        omega
      rw [List.getElem?_eq_getElem hindex, Option.map_eq_some_iff] at hrest
      obtain ⟨entry, hentry, hvalue⟩ := hrest
      rw [List.getLast?_cons, hentry, List.getElem?_append_right (by rw [List.length_replicate]; omega),
        List.length_replicate, Nat.sub_sub, List.getElem?_eq_getElem hindex, ← hvalue]
      rfl

theorem head?_entries (i : ℕ) (vals : List WeightedValue) :
    (entries i vals).head?.map Prod.snd = (expanded vals).head? := by
  cases vals with
  | nil => rfl
  | cons v vals =>
    obtain ⟨n, hn⟩ := Nat.exists_eq_add_of_lt v.pos
    rw [Nat.zero_add] at hn
    show some v.value = (List.replicate v.weight.toNat v.value ++ expanded vals).head?
    rw [hn, List.replicate_succ]
    rfl

theorem getLast?_entries (i : ℕ) (vals : List WeightedValue) :
    (entries i vals).getLast?.map Prod.snd = (expanded vals).getLast? := by
  induction vals using List.reverseRecOn generalizing i with
  | nil => rfl
  | append_singleton vals v ih =>
    have hentries : ∃ j, entries i (vals ++ [v]) = entries i vals ++ [(j, v.value)] := by
      clear ih
      induction vals generalizing i with
      | nil => exact ⟨i, rfl⟩
      | cons v' vals ih =>
        obtain ⟨j, hj⟩ := ih (i + v'.weight.toNat)
        exact ⟨j, by rw [List.cons_append, entries, hj, entries, List.cons_append]⟩
    obtain ⟨j, hj⟩ := hentries
    obtain ⟨n, hn⟩ := Nat.exists_eq_add_of_lt v.pos
    rw [Nat.zero_add] at hn
    have hexpanded : expanded (vals ++ [v]) = expanded vals ++ List.replicate n v.value ++ [v.value] := by
      rw [expanded, List.flatMap_append, List.flatMap_singleton, hn, List.replicate_succ', List.append_assoc]
      rfl
    rw [hj, hexpanded, List.getLast?_concat, List.getLast?_concat]
    rfl

/-! ### The values that fit -/

/-- The values in order. -/
def sorted (vals : List WeightedValue) : List WeightedValue := vals.insertionSort WeightedValue.le

theorem totalWeight_perm {vals vals' : List WeightedValue} (h : vals.Perm vals') : totalWeight vals = totalWeight vals' :=
  (h.map _).sum_eq

theorem totalSum_perm {vals vals' : List WeightedValue} (h : vals.Perm vals') : totalSum vals = totalSum vals' :=
  (h.map _).sum_eq

theorem totalWeight_sorted (vals : List WeightedValue) : totalWeight (sorted vals) = totalWeight vals :=
  totalWeight_perm (List.perm_insertionSort _ vals)

theorem sorted_perm {vals vals' : List WeightedValue} (h : vals.Perm vals') : sorted vals = sorted vals' :=
  ((List.perm_insertionSort _ vals).trans (h.trans (List.perm_insertionSort _ vals').symm)).eq_of_pairwise'
    (List.pairwise_insertionSort _ vals) (List.pairwise_insertionSort _ vals')

/-- The tiles are at places that exist, the first and the last one at the least and the greatest value. -/
structure TilesFit (tileCount : ℕ) (vals : List WeightedValue) : Prop where
  /-- The places exist. -/
  lt : ∀ i < tileCount, tileIndex tileCount (totalWeight vals) i < totalWeight vals
  /-- There is a tile. -/
  pos : 0 < tileCount
  /-- The first one is the least value. -/
  first : (expanded (sorted vals))[tileIndex tileCount (totalWeight vals) 0]? = (expanded (sorted vals)).head?
  /-- The last one is the greatest value. -/
  last : (expanded (sorted vals))[tileIndex tileCount (totalWeight vals) (tileCount - 1)]? =
    (expanded (sorted vals)).getLast?

/-- **The numbers fit** for statistics of the values. -/
structure StatsFit (debugAssertions : Bool) (tileCount : ℕ) (vals : List WeightedValue) : Prop where
  /-- The count fits. -/
  count : totalWeight vals < 2 ^ 64
  /-- The sum fits. -/
  sum : totalSum vals < 2 ^ 128
  /-- The squared errors fit, if there is an average. -/
  errors : totalSum vals < 2 ^ 96 →
    totalSquaredError debugAssertions (totalSum vals * 2 ^ 32 / totalWeight vals) vals < 2 ^ 128
  /-- The tiles fit, if there is an average. -/
  tiles : totalSum vals < 2 ^ 96 → TilesFit tileCount vals

theorem TilesFit.perm {tileCount : ℕ} {vals vals' : List WeightedValue} (h : vals.Perm vals') (hfit : TilesFit tileCount vals) :
    TilesFit tileCount vals' := by
  obtain ⟨hlt, hpos, hfirst, hlast⟩ := hfit
  rw [totalWeight_perm h] at hlt hfirst hlast
  rw [sorted_perm h] at hfirst hlast
  exact ⟨hlt, hpos, hfirst, hlast⟩

/-- The order does not matter. -/
theorem StatsFit.perm {debugAssertions : Bool} {tileCount : ℕ} {vals vals' : List WeightedValue} (h : vals.Perm vals')
    (hfit : StatsFit debugAssertions tileCount vals) : StatsFit debugAssertions tileCount vals' := by
  obtain ⟨hcount, hsum, herrors, htiles⟩ := hfit
  rw [totalWeight_perm h] at hcount
  rw [totalSum_perm h] at hsum herrors htiles
  rw [totalWeight_perm h] at herrors
  refine ⟨hcount, hsum, fun hlt => ?_, fun hlt => (htiles hlt).perm h⟩
  have := herrors hlt
  rwa [totalSquaredError, (h.map _).sum_eq] at this

/-! ### Values in order -/

/-- The value at a place. -/
def valueAt (s : List UInt64) (j : ℕ) : Outcome StatsError UInt64 :=
  match s[j]? with
  | some value => .ok value
  | none => .panic "index must be smaller than the virtual_len, and IndexedNumbers must not be empty"

/-- The median. -/
def medianOf (s : List UInt64) : Outcome StatsError UInt64 :=
  let mid := s.length / 2
  if s.length % 2 = 0 then do
    let a ← valueAt s (mid - 1)
    let b ← valueAt s mid
    pure (averageOfTwo a b)
  else valueAt s mid

/-- The tiles at the given places. -/
def tilesOf (s : List UInt64) (place : ℕ → ℕ) : List ℕ → Outcome StatsError (List UInt64)
  | [] => .ok []
  | i :: is => do
    let val ← valueAt s (place i)
    let vals ← tilesOf s place is
    pure (val :: vals)

/-- The median, the tiles, and the checks of these. -/
def medianAndTilesOf (s : List UInt64) (place : ℕ → ℕ) (tileCount : ℕ) : Outcome StatsError (UInt64 × List UInt64) := do
  let median ← medianOf s
  let tiles ← tilesOf s place (List.range tileCount)
  if s.head? = tiles.head? ∧ s.getLast? = tiles.getLast? then pure (median, tiles)
  else .panic "assertion `left == right` failed"

section Plain

variable {s : List UInt64} {place : ℕ → ℕ} {tileCount j : ℕ}

theorem valueAt_of_lt (h : j < s.length) : ∃ value, s[j]? = some value ∧ valueAt s j = .ok value := by
  refine ⟨s[j], List.getElem?_eq_getElem h, ?_⟩
  rw [valueAt, List.getElem?_eq_getElem h]

theorem valueAt_of_le (h : s.length ≤ j) : ∃ msg, valueAt s j = .panic msg := by
  rw [valueAt, List.getElem?_eq_none h]
  exact ⟨_, rfl⟩

/-- There is a median. -/
theorem medianOf_ok (hne : s ≠ []) : ∃ value, medianOf s = .ok value := by
  have hpos := List.length_pos_iff.2 hne
  rw [medianOf]
  split
  · obtain ⟨a, -, ha⟩ := valueAt_of_lt (show s.length / 2 - 1 < s.length by omega)
    obtain ⟨b, -, hb⟩ := valueAt_of_lt (show s.length / 2 < s.length by omega)
    rw [ha, hb]
    exact ⟨_, rfl⟩
  · obtain ⟨a, -, ha⟩ := valueAt_of_lt (show s.length / 2 < s.length by omega)
    exact ⟨a, ha⟩

/-- The tiles are the values at their places. -/
theorem tilesOf_spec (s : List UInt64) (place : ℕ → ℕ) (is : List ℕ) :
    ((∀ i ∈ is, place i < s.length) ∧
        ∃ values, tilesOf s place is = .ok values ∧ values.map some = is.map fun i => s[place i]?) ∨
      ((¬ ∀ i ∈ is, place i < s.length) ∧ ∃ msg, tilesOf s place is = .panic msg) := by
  induction is with
  | nil => exact .inl ⟨by simp, [], rfl, rfl⟩
  | cons i is ih =>
    rw [tilesOf, List.forall_mem_cons]
    by_cases hlt : place i < s.length
    · obtain ⟨value, hvalue, hindex⟩ := valueAt_of_lt hlt
      rw [hindex, Outcome.ok_bind]
      rcases ih with ⟨hall, values, hvalues, hmap⟩ | ⟨hnot, msg, hmsg⟩
      · left
        refine ⟨⟨hlt, hall⟩, value :: values, by rw [hvalues]; rfl, ?_⟩
        rw [List.map_cons, List.map_cons, hmap, hvalue]
      · right
        exact ⟨fun h => hnot h.2, msg, by rw [hmsg]; rfl⟩
    · obtain ⟨msg, hmsg⟩ := valueAt_of_le (Nat.not_lt.1 hlt)
      right
      exact ⟨fun h => hlt h.1, msg, by rw [hmsg]; rfl⟩

/-- The value with some number. -/
theorem getElem?_of_map_some {values : List UInt64} {f : ℕ → Option UInt64} {n : ℕ}
    (h : values.map some = (List.range n).map f) {i : ℕ} (hi : i < n) : values[i]? = f i := by
  have hi' := congrArg (fun l : List (Option UInt64) => l[i]?.join) h
  simp only [List.getElem?_map, List.getElem?_range hi, Option.map_some, Option.join_some] at hi'
  rw [← hi']
  cases values[i]? with
  | none => rfl
  | some value => rfl

theorem head?_of_map_some {values : List UInt64} {f : ℕ → Option UInt64} {n : ℕ} (h : values.map some = (List.range n).map f)
    (hn : 0 < n) : values.head? = f 0 ∧ values.getLast? = f (n - 1) := by
  have hlength : values.length = n := by simpa using congrArg List.length h
  rw [List.head?_eq_getElem?, List.getLast?_eq_getElem?, hlength]
  exact ⟨getElem?_of_map_some h hn, getElem?_of_map_some h (by omega)⟩

/-- The places exist, the first and the last one are those of the least and of the greatest value. -/
structure PlacesFit (s : List UInt64) (place : ℕ → ℕ) (tileCount : ℕ) : Prop where
  /-- The places exist. -/
  lt : ∀ i < tileCount, place i < s.length
  /-- There is a tile. -/
  pos : 0 < tileCount
  /-- The first one is the least value. -/
  first : s[place 0]? = s.head?
  /-- The last one is the greatest value. -/
  last : s[place (tileCount - 1)]? = s.getLast?

/-- The median and the tiles, or a panic. -/
theorem medianAndTilesOf_spec (place : ℕ → ℕ) (tileCount : ℕ) (hne : s ≠ []) :
    (PlacesFit s place tileCount ∧ ∃ median tiles, medianAndTilesOf s place tileCount = .ok (median, tiles) ∧
        medianOf s = .ok median ∧ tiles.map some = (List.range tileCount).map fun i => s[place i]?) ∨
      (¬ PlacesFit s place tileCount ∧ ∃ msg, medianAndTilesOf s place tileCount = .panic msg) := by
  obtain ⟨median, hmedian⟩ := medianOf_ok hne
  rw [medianAndTilesOf, hmedian, Outcome.ok_bind]
  rcases tilesOf_spec s place (List.range tileCount) with ⟨hall, values, hvalues, hmap⟩ | ⟨hnot, msg, hmsg⟩
  · have hall' : ∀ i < tileCount, place i < s.length := fun i hi => hall i (List.mem_range.2 hi)
    rw [hvalues, Outcome.ok_bind]
    have hiff : (s.head? = values.head? ∧ s.getLast? = values.getLast?) ↔ PlacesFit s place tileCount := by
      by_cases hpos : 0 < tileCount
      · obtain ⟨hhead, hlast⟩ := head?_of_map_some hmap hpos
        rw [hhead, hlast]
        exact ⟨fun h => ⟨hall', hpos, h.1.symm, h.2.symm⟩, fun h => ⟨h.first.symm, h.last.symm⟩⟩
      · obtain rfl : tileCount = 0 := by omega
        obtain rfl : values = [] := List.map_eq_nil_iff.1 hmap
        exact iff_of_false (fun h => hne (List.head?_eq_none_iff.1 h.1)) fun h => hpos h.pos
    by_cases hfits : PlacesFit s place tileCount
    · rw [if_pos (hiff.2 hfits)]
      exact .inl ⟨hfits, median, values, rfl, rfl, hmap⟩
    · rw [if_neg fun h => hfits (hiff.1 h)]
      exact .inr ⟨hfits, _, rfl⟩
  · rw [hmsg, Outcome.panic_bind]
    refine .inr ⟨fun hfit => hnot ?_, msg, rfl⟩
    intro i hi
    exact hfit.lt i (List.mem_range.1 hi)

end Plain

/-! ### The indexed values are the values in order -/

/-- The indexed numbers of some values. -/
def indexedNumbers (vals : List WeightedValue) : IndexedNumbers := ⟨entries 0 (sorted vals), totalWeight vals⟩

theorem length_expanded_sorted (vals : List WeightedValue) : (expanded (sorted vals)).length = totalWeight vals := by
  rw [length_expanded, totalWeight_sorted]

theorem expanded_sorted_ne_nil {vals : List WeightedValue} (hne : vals ≠ []) : expanded (sorted vals) ≠ [] := by
  rw [← List.length_pos_iff, length_expanded_sorted]
  exact totalWeight_pos hne

theorem fromUnsortedWeightedValueVec_eq {vals : List WeightedValue} (h : totalWeight vals < 2 ^ 64) :
    IndexedNumbers.fromUnsortedWeightedValueVec vals = .ok (indexedNumbers vals) := by
  have hfill := fill_eq 0 (sorted vals) (by rwa [totalWeight_sorted, Nat.zero_add])
  rw [totalWeight_sorted, Nat.zero_add] at hfill
  exact hfill

/-- The value at an index. -/
theorem index_eq (vals : List WeightedValue) (j : ℕ) :
    (indexedNumbers vals).index j = valueAt (expanded (sorted vals)) j := by
  rw [IndexedNumbers.index, valueAt, show (indexedNumbers vals).virtualLen = totalWeight vals from rfl]
  by_cases hlt : j < totalWeight vals
  · have hlookup := lookup_entries 0 (totalWeight vals) (sorted vals) (Nat.zero_le j)
      (by rwa [totalWeight_sorted, Nat.zero_add])
    have hlength : j < (expanded (sorted vals)).length := by rwa [length_expanded_sorted]
    rw [Nat.sub_zero, List.getElem?_eq_getElem hlength] at hlookup
    rw [if_pos hlt, show (indexedNumbers vals).lookup j = _ from hlookup, List.getElem?_eq_getElem hlength]
  · rw [if_neg hlt, List.getElem?_eq_none (by rwa [length_expanded_sorted, ← Nat.not_lt])]

theorem median_eq (vals : List WeightedValue) : (indexedNumbers vals).median = medianOf (expanded (sorted vals)) := by
  rw [IndexedNumbers.median, medianOf, length_expanded_sorted]
  simp only [index_eq]
  rfl

theorem tilesAt_eq (vals : List WeightedValue) (place : ℕ → ℕ) (is : List ℕ) :
    (indexedNumbers vals).tilesAt place is = tilesOf (expanded (sorted vals)) place is := by
  induction is with
  | nil => rfl
  | cons i is ih => rw [IndexedNumbers.tilesAt, tilesOf, ih, index_eq]

theorem medianAndTiles_eq (vals : List WeightedValue) (place : ℕ → ℕ) (tileCount : ℕ) :
    (indexedNumbers vals).medianAndTiles place tileCount =
      medianAndTilesOf (expanded (sorted vals)) place tileCount := by
  rw [IndexedNumbers.medianAndTiles, medianAndTilesOf, median_eq, tilesAt_eq,
    show (indexedNumbers vals).indexToValue = entries 0 (sorted vals) from rfl, head?_entries, getLast?_entries]

/-! ### The result -/

/-- A quotient by the count. -/
theorem div_count (fixed : FixedArithmetic) {a count : ℕ} (ha : a < 2 ^ 128) (hcount : 0 < count) :
    fixed.div a (count * 2 ^ 32) = .ok (a / count) := by
  have hdiv : a * 2 ^ 32 / (count * 2 ^ 32) = a / count := Nat.mul_div_mul_right _ _ (by decide)
  have hle := Nat.div_le_self a count
  rw [fixed.div_fits _ _ (by omega) (by rw [hdiv]; omega), hdiv]

/-- The statistics, once count and sum are known to fit. -/
theorem fromValuesAt_eq (place : ℕ → ℕ → ℕ → ℕ) (fixed : FixedArithmetic) (tileCount : ℕ) {vals : List WeightedValue}
    (hne : vals ≠ []) (hcount : totalWeight vals < 2 ^ 64) (hsum : totalSum vals < 2 ^ 96) :
    Stats.fromValuesAt place fixed tileCount vals = (do
      let errors ← sumSquaredError fixed (totalSum vals * 2 ^ 32 / totalWeight vals) 0 vals
      let variance ← fixed.div errors (totalWeight vals * 2 ^ 32)
      let (median, tiles) ← medianAndTilesOf (expanded (sorted vals)) (place tileCount (totalWeight vals)) tileCount
      pure ⟨totalWeight vals, totalSum vals, totalSum vals * 2 ^ 32 / totalWeight vals, median, variance, tiles⟩) := by
  rw [Stats.fromValuesAt, if_neg hne, countAndSum_eq (by decide) (by decide), Nat.zero_add, Nat.zero_add,
    if_pos ⟨hcount, by omega⟩, Outcome.ok_bind]
  simp only
  rw [if_pos hsum, div_count fixed (by omega) (totalWeight_pos hne), Outcome.ok_bind]
  simp only [fromUnsortedWeightedValueVec_eq hcount, Outcome.ok_bind, medianAndTiles_eq,
    show (indexedNumbers vals).virtualLen = totalWeight vals from rfl, if_true]

/-- **What `fromValues` does** with some values, and what it returns. -/
theorem fromValues_cases (fixed : FixedArithmetic) (tileCount : ℕ) {vals : List WeightedValue} (hne : vals ≠ []) :
    (StatsFit fixed.debugAssertions tileCount vals ∧ 2 ^ 96 ≤ totalSum vals ∧
        Stats.fromValues fixed tileCount vals = .err .virtualSumDoesNotFitU96) ∨
      (StatsFit fixed.debugAssertions tileCount vals ∧ totalSum vals < 2 ^ 96 ∧
        ∃ median tiles, Stats.fromValues fixed tileCount vals = .ok ⟨totalWeight vals, totalSum vals,
          totalSum vals * 2 ^ 32 / totalWeight vals, median, totalSquaredError fixed.debugAssertions
            (totalSum vals * 2 ^ 32 / totalWeight vals) vals / totalWeight vals, tiles⟩) ∨
      (¬ StatsFit fixed.debugAssertions tileCount vals ∧ ∃ msg, Stats.fromValues fixed tileCount vals = .panic msg) := by
  rw [Stats.fromValues_eq_fromValuesAt]
  by_cases hfits : totalWeight vals < 2 ^ 64 ∧ totalSum vals < 2 ^ 128
  · by_cases hsum : totalSum vals < 2 ^ 96
    · rw [fromValuesAt_eq _ _ _ hne hfits.1 hsum]
      right
      obtain ⟨herrorsFit, herrorsPanic⟩ := sumSquaredError_spec fixed (totalSum vals * 2 ^ 32 / totalWeight vals)
        (show 0 < 2 ^ 128 by decide) vals
      rw [Nat.zero_add] at herrorsFit herrorsPanic
      by_cases herrors : totalSquaredError fixed.debugAssertions (totalSum vals * 2 ^ 32 / totalWeight vals) vals < 2 ^ 128
      · rw [herrorsFit herrors, Outcome.ok_bind, div_count fixed herrors (totalWeight_pos hne), Outcome.ok_bind]
        rcases medianAndTilesOf_spec (tileIndex tileCount (totalWeight vals)) tileCount (expanded_sorted_ne_nil hne) with
          ⟨hplaces, median, tiles, heq, -, -⟩ | ⟨hplaces, msg, hmsg⟩
        · rw [heq]
          refine .inl ⟨⟨hfits.1, hfits.2, fun _ => herrors, fun _ => ⟨?_, hplaces.pos, hplaces.first, hplaces.last⟩⟩, hsum,
            median, tiles, rfl⟩
          intro i hi
          exact (hplaces.lt i hi).trans_eq (length_expanded_sorted vals)
        · rw [hmsg]
          refine .inr ⟨fun hfit => hplaces ?_, msg, rfl⟩
          obtain ⟨hlt, hpos, hfirst, hlast⟩ := hfit.tiles hsum
          exact ⟨fun i hi => (hlt i hi).trans_eq (length_expanded_sorted vals).symm, hpos, hfirst, hlast⟩
      · obtain ⟨msg, hmsg⟩ := herrorsPanic (Nat.not_lt.1 herrors)
        rw [hmsg]
        exact .inr ⟨fun hfit => herrors (hfit.errors hsum), msg, rfl⟩
    · left
      refine ⟨⟨hfits.1, hfits.2, fun h => absurd h hsum, fun h => absurd h hsum⟩, Nat.not_lt.1 hsum, ?_⟩
      rw [Stats.fromValuesAt, if_neg hne, countAndSum_eq (by decide) (by decide), Nat.zero_add, Nat.zero_add,
        if_pos hfits, Outcome.ok_bind]
      exact if_neg hsum
  · right
    right
    refine ⟨fun hfit => hfits ⟨hfit.count, hfit.sum⟩, "attempt to add with overflow", ?_⟩
    rw [Stats.fromValuesAt, if_neg hne, countAndSum_eq (by decide) (by decide), Nat.zero_add, Nat.zero_add, if_neg hfits]
    rfl

/-- **What `fromValues` does** with some values. -/
theorem fromValues_spec (fixed : FixedArithmetic) (tileCount : ℕ) {vals : List WeightedValue} (hne : vals ≠ []) :
    (StatsFit fixed.debugAssertions tileCount vals ∧ 2 ^ 96 ≤ totalSum vals ∧
        Stats.fromValues fixed tileCount vals = .err .virtualSumDoesNotFitU96) ∨
      (StatsFit fixed.debugAssertions tileCount vals ∧ totalSum vals < 2 ^ 96 ∧
        ∃ stats, Stats.fromValues fixed tileCount vals = .ok stats) ∨
      (¬ StatsFit fixed.debugAssertions tileCount vals ∧ ∃ msg, Stats.fromValues fixed tileCount vals = .panic msg) := by
  rcases fromValues_cases fixed tileCount hne with h | ⟨hfit, hsum, median, tiles, he⟩ | h
  · exact .inl h
  · exact .inr (.inl ⟨hfit, hsum, _, he⟩)
  · exact .inr (.inr h)

theorem fromValues_nil (fixed : FixedArithmetic) (tileCount : ℕ) :
    Stats.fromValues fixed tileCount [] = .err .noInputs := rfl

/-- **When `fromValues` panics.** -/
theorem fromValues_panics_iff (fixed : FixedArithmetic) (tileCount : ℕ) (vals : List WeightedValue) :
    (∃ msg, Stats.fromValues fixed tileCount vals = .panic msg) ↔
      vals ≠ [] ∧ ¬ StatsFit fixed.debugAssertions tileCount vals := by
  by_cases hne : vals = []
  · subst hne
    simp [fromValues_nil]
  · rcases fromValues_spec fixed tileCount hne with ⟨hfit, -, he⟩ | ⟨hfit, -, stats, he⟩ | ⟨hfit, msg, he⟩
    · simp [he, hfit]
    · simp [he, hfit]
    · simp [he, hfit, hne]

end Evobench.StatsTables

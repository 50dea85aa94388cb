import Mathlib.Data.List.Sort
import Mathlib.Data.List.Nodup

/-!
# Sorted maps

Finite maps as their entries in the order of the keys, which is the order in which a sorted map is gone through. A map is
determined by which entries it has (`ext_of_mem`). `insertAll` enters the entries of a list one after the other; if their keys
are different, the order does not matter (`mem_insertAll`), and so a map is made from its own entries in any order
(`insertAll_perm`).
-/

namespace Library

/-- A finite map. -/
structure SortedMap (K V : Type) [LinearOrder K] where
  /-- The entries. -/
  entries : List (K × V)
  /-- They are in the order of their keys. -/
  sorted : entries.Pairwise fun a b => a.1 < b.1
deriving DecidableEq

namespace SortedMap

variable {K V W : Type} [LinearOrder K]

theorem ext_of_entries {m m' : SortedMap K V} (h : m.entries = m'.entries) : m = m' := by
  cases m
  cases m'
  cases h
  rfl

/-- A map is determined by which entries it has. -/
theorem ext_of_mem {m m' : SortedMap K V} (h : ∀ e, e ∈ m.entries ↔ e ∈ m'.entries) : m = m' := by
  have hasymm : Std.Asymm (fun a b : K × V => a.1 < b.1) := ⟨fun _ _ hab hba => lt_asymm hab hba⟩
  have hirrefl : Std.Irrefl (fun a b : K × V => a.1 < b.1) := ⟨fun a => lt_irrefl a.1⟩
  exact ext_of_entries (m.sorted.eq_of_mem_iff m'.sorted h)

/-- Different entries have different keys. -/
theorem nodup_keys (m : SortedMap K V) : (m.entries.map Prod.fst).Nodup := by
  rw [List.Nodup, List.pairwise_map]
  exact m.sorted.imp fun h => ne_of_lt h

/-- No entries. -/
def empty : SortedMap K V := ⟨[], .nil⟩

/-- There is an entry for the key. -/
def contains (m : SortedMap K V) (k : K) : Bool := m.entries.any fun e => e.1 = k

/-- The value of a key. -/
def get? (m : SortedMap K V) (k : K) : Option V := (m.entries.find? fun e => e.1 = k).map Prod.snd

/-- The entries with a value for the key. -/
def insertEntry (entries : List (K × V)) (k : K) (v : V) : List (K × V) :=
  (entries.filter fun e => e.1 ≠ k).orderedInsert (fun a b => a.1 ≤ b.1) (k, v)

theorem mem_insertEntry {entries : List (K × V)} {k : K} {v : V} {e : K × V} :
    e ∈ insertEntry entries k v ↔ e = (k, v) ∨ e ∈ entries ∧ e.1 ≠ k := by
  rw [insertEntry, List.mem_orderedInsert, List.mem_filter, decide_eq_true_iff]

theorem sorted_insertEntry {entries : List (K × V)} (h : entries.Pairwise fun a b => a.1 < b.1) (k : K) (v : V) :
    (insertEntry entries k v).Pairwise fun a b => a.1 < b.1 := by
  have htotal : Std.Total (fun a b : K × V => a.1 ≤ b.1) := ⟨fun a b => le_total a.1 b.1⟩
  have htrans : IsTrans (K × V) (fun a b => a.1 ≤ b.1) := ⟨fun _ _ _ => le_trans⟩
  have hfilter : (entries.filter fun e => e.1 ≠ k).Pairwise fun a b => a.1 < b.1 := h.filter _
  have hle : (insertEntry entries k v).Pairwise fun a b => a.1 ≤ b.1 :=
    (hfilter.imp le_of_lt).orderedInsert (k, v) _
  have hne : (insertEntry entries k v).Pairwise fun a b => a.1 ≠ b.1 := by
    refine (List.perm_orderedInsert _ (k, v) _).symm.pairwise ?_ fun hab => hab.symm
    refine List.pairwise_cons.2 ⟨fun e he => ?_, hfilter.imp ne_of_lt⟩
    exact (of_decide_eq_true (List.mem_filter.1 he).2).symm
  exact hle.imp₂ (fun _ _ hle hne => lt_of_le_of_ne hle hne) hne

/-- Enter a value for the key. -/
def insert (m : SortedMap K V) (k : K) (v : V) : SortedMap K V := ⟨insertEntry m.entries k v, sorted_insertEntry m.sorted k v⟩

theorem mem_insert {m : SortedMap K V} {k : K} {v : V} {e : K × V} :
    e ∈ (m.insert k v).entries ↔ e = (k, v) ∨ e ∈ m.entries ∧ e.1 ≠ k := mem_insertEntry

/-- A new key is entered without replacing anything. -/
theorem perm_insert {m : SortedMap K V} {k : K} {v : V} (h : ∀ e ∈ m.entries, e.1 ≠ k) :
    (m.insert k v).entries.Perm ((k, v) :: m.entries) := by
  have hfilter : (m.entries.filter fun e => e.1 ≠ k) = m.entries :=
    List.filter_eq_self.2 fun e he => decide_eq_true (h e he)
  show (insertEntry m.entries k v).Perm ((k, v) :: m.entries)
  rw [insertEntry, hfilter]
  exact List.perm_orderedInsert _ _ _

/-- Where a key has a value, it is found. -/
theorem get?_eq_some_iff {m : SortedMap K V} {k : K} {v : V} : m.get? k = some v ↔ (k, v) ∈ m.entries := by
  rw [get?, Option.map_eq_some_iff]
  constructor
  · rintro ⟨e, he, rfl⟩
    obtain rfl : e.1 = k := by simpa using List.find?_some he
    exact List.mem_of_find?_eq_some he
  · intro hmem
    obtain ⟨e, he⟩ : ∃ e, m.entries.find? (fun e => e.1 = k) = some e :=
      Option.isSome_iff_exists.1 (List.find?_isSome.2 ⟨(k, v), hmem, by simp⟩)
    have hkey : e.1 = k := by simpa using List.find?_some he
    have hsame : e = (k, v) := List.inj_on_of_nodup_map m.nodup_keys (List.mem_of_find?_eq_some he) hmem hkey
    exact ⟨e, he, by rw [hsame]⟩

theorem get?_insert {m : SortedMap K V} {k k' : K} {v : V} :
    (m.insert k v).get? k' = if k' = k then some v else m.get? k' := by
  apply Option.ext
  intro w
  rw [get?_eq_some_iff, mem_insert, Prod.mk.injEq]
  split_ifs with hk
  · rw [Option.some.injEq]
    constructor
    · rintro (⟨-, rfl⟩ | ⟨-, hne⟩)
      · rfl
      · exact absurd hk hne
    · rintro rfl
      exact .inl ⟨hk, rfl⟩
  · rw [get?_eq_some_iff]
    constructor
    · rintro (⟨rfl, -⟩ | ⟨hmem, -⟩)
      · exact absurd rfl hk
      · exact hmem
    · exact fun hmem => .inr ⟨hmem, hk⟩

/-- Take a key out. -/
def erase (m : SortedMap K V) (k : K) : SortedMap K V := ⟨m.entries.filter fun e => e.1 ≠ k, m.sorted.filter _⟩

theorem mem_erase {m : SortedMap K V} {k : K} {e : K × V} : e ∈ (m.erase k).entries ↔ e ∈ m.entries ∧ e.1 ≠ k := by
  rw [erase, List.mem_filter, decide_eq_true_iff]

/-- Enter all entries of a list, one after the other. -/
def insertAll (m : SortedMap K V) (l : List (K × V)) : SortedMap K V := l.foldl (fun m e => m.insert e.1 e.2) m

theorem mem_insertAll {m : SortedMap K V} {l : List (K × V)} (hl : (l.map Prod.fst).Nodup)
    (hm : ∀ e ∈ m.entries, e.1 ∉ l.map Prod.fst) {e : K × V} : e ∈ (m.insertAll l).entries ↔ e ∈ m.entries ∨ e ∈ l := by
  induction l generalizing m with
  | nil => simp [insertAll]
  | cons a l ih =>
    obtain ⟨ha, hl⟩ := List.nodup_cons.1 hl
    have hm' : ∀ e ∈ (m.insert a.1 a.2).entries, e.1 ∉ l.map Prod.fst := by
      intro e he
      rcases mem_insert.1 he with rfl | ⟨he, -⟩
      · exact ha
      · exact fun hmem => hm e he (List.mem_cons_of_mem _ hmem)
    show e ∈ ((m.insert a.1 a.2).insertAll l).entries ↔ _
    rw [ih hl hm', mem_insert, List.mem_cons]
    constructor
    · rintro ((rfl | ⟨he, -⟩) | he)
      · exact .inr (.inl rfl)
      · exact .inl he
      · exact .inr (.inr he)
    · rintro (he | rfl | he)
      · exact .inl (.inr ⟨he, fun hkey => hm e he (hkey ▸ List.mem_cons_self)⟩)
      · exact .inl (.inl rfl)
      · exact .inr he

/-- A map is made from its entries, in any order. -/
theorem insertAll_perm {m : SortedMap K V} {l : List (K × V)} (h : l.Perm m.entries) : empty.insertAll l = m := by
  have hl : (l.map Prod.fst).Nodup := (h.map Prod.fst).nodup_iff.2 m.nodup_keys
  apply ext_of_mem
  intro e
  rw [mem_insertAll hl (fun _ he => absurd he List.not_mem_nil), h.mem_iff]
  simp [empty]

/-- Other values for the keys. -/
def withSameKeys (m : SortedMap K V) (entries : List (K × W)) (h : entries.map Prod.fst = m.entries.map Prod.fst) :
    SortedMap K W where
  entries := entries
  sorted := by
    have hsorted : (m.entries.map Prod.fst).Pairwise fun a b => a < b := List.pairwise_map.2 m.sorted
    rw [← h] at hsorted
    exact List.pairwise_map.1 hsorted

/-- Change the values. -/
def map (f : V → W) (m : SortedMap K V) : SortedMap K W where
  entries := m.entries.map fun e => (e.1, f e.2)
  sorted := List.pairwise_map.2 m.sorted

end SortedMap

end Library

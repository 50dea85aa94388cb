import Evobench.KeyValFs.KeyVal
import Mathlib.Data.Prod.Lex
import Mathlib.Data.List.TakeDrop
import Mathlib.Data.List.TakeWhile

/-!
# Time keys

The keys of queue entries: the time of insertion, made unique by the process id and a counter, and
ordered by them in this order. As a file name a key is the three decimal numbers joined by hyphens.

`TimeKey` is ordered lexicographically (by `TimeKey.fields`), and its file names obey the rules for keys and
are read back (the instance of `AsKey`, from `verified_asFilename` and `tryFrom_asFilename`).
-/

namespace Evobench.KeyValFs

open Library IoUtils

/-- The key of a queue entry. -/
structure TimeKey where
  /-- Nanoseconds since UNIX_EPOCH -/
  nanos : Fin (2 ^ 128)
  /-- The process that made the key. -/
  pid : UInt32
  /-- Its count of keys so far. -/
  id : UInt64
deriving DecidableEq

namespace TimeKey

instance : NeZero (2 ^ 128) := ⟨by decide⟩

/-! ### The order -/

/-- The fields in the order in which they are compared. -/
def fields (key : TimeKey) : ℕ ×ₗ ℕ ×ₗ ℕ := toLex (key.nanos.val, toLex (key.pid.toNat, key.id.toNat))

theorem fields_injective : Function.Injective fields := by
  rintro ⟨n, p, i⟩ ⟨n', p', i'⟩ h
  simp only [fields, EmbeddingLike.apply_eq_iff_eq, Prod.mk.injEq] at h
  obtain ⟨hn, hp, hi⟩ := h
  rw [Fin.ext hn, UInt32.toNat.inj hp, UInt64.toNat.inj hi]

instance : LinearOrder TimeKey := LinearOrder.lift' fields fields_injective

/-- A key made earlier is smaller. -/
theorem lt_of_nanos_lt {a b : TimeKey} (h : a.nanos < b.nanos) : a < b := by
  change fields a < fields b
  rw [fields, fields, Prod.Lex.toLex_lt_toLex]
  exact .inl (Fin.lt_def.1 h)

end TimeKey

/-! ### Decimal numbers -/

/-- `split_once` -/
def splitOnce (c : Char) (cs : List Char) : Option (List Char × List Char) :=
  match cs.span (· ≠ c) with
  | (_, []) => none
  | (before, _ :: after) => some (before, after)

/-- `parse` for an unsigned integer type with `bound` values. -/
def parseUInt (bound : ℕ) (cs : List Char) : Option (Fin bound) :=
  let digits := match cs with
    | '+' :: rest => rest
    | cs => cs
  if digits.isEmpty || !digits.all Char.isDigit then none
  else
    let n := Nat.ofDigitChars 10 digits 0
    if h : n < bound then some ⟨n, h⟩ else none

/-- What is parsed are digits, perhaps after a sign. -/
theorem digits_of_parseUInt {bound : ℕ} {cs : List Char} {n : Fin bound} (h : parseUInt bound cs = some n) :
    ∃ digits, (cs = digits ∨ cs = '+' :: digits) ∧ ∀ c ∈ digits, c.isDigit = true := by
  have hall : ∀ digits : List Char, (digits.isEmpty || !digits.all Char.isDigit) = false →
      ∀ c ∈ digits, c.isDigit = true := by
    intro digits hdigits
    simp only [Bool.or_eq_false_iff, Bool.not_eq_false'] at hdigits
    exact List.all_eq_true.1 hdigits.2
  unfold parseUInt at h
  split at h
  · next rest =>
    dsimp only at h
    split_ifs at h with hdigits
    exact ⟨rest, .inr rfl, hall rest (Bool.eq_false_iff.2 hdigits)⟩
  · dsimp only at h
    split_ifs at h with hdigits
    exact ⟨cs, .inl rfl, hall cs (Bool.eq_false_iff.2 hdigits)⟩

theorem splitOnce_append {c : Char} {cs rest : List Char} (h : c ∉ cs) :
    splitOnce c (cs ++ c :: rest) = some (cs, rest) := by
  have hall : ∀ a ∈ cs, decide (a ≠ c) = true := by
    intro a ha
    exact decide_eq_true fun he => h (he ▸ ha)
  rw [splitOnce, List.span_eq_takeWhile_dropWhile, List.takeWhile_append_of_pos hall,
    List.dropWhile_append_of_pos hall]
  simp

theorem splitOnce_eq_none {c : Char} {cs : List Char} (h : c ∉ cs) : splitOnce c cs = none := by
  have hall : ∀ a ∈ cs, decide (a ≠ c) = true := by
    intro a ha
    exact decide_eq_true fun he => h (he ▸ ha)
  have hdrop : cs.dropWhile (· ≠ c) = [] := List.dropWhile_eq_nil_iff.2 hall
  rw [splitOnce, List.span_eq_takeWhile_dropWhile, hdrop]

theorem exists_splitOnce_of_mem {c : Char} {cs : List Char} (h : c ∈ cs) :
    ∃ rest, splitOnce c cs = some (cs.takeWhile (· ≠ c), rest) := by
  rw [splitOnce, List.span_eq_takeWhile_dropWhile]
  cases hdrop : cs.dropWhile (· ≠ c) with
  | nil =>
    have hne := List.dropWhile_eq_nil_iff.1 hdrop c h
    simp at hne
  | cons a rest => exact ⟨rest, rfl⟩

theorem splitOnce_eq_none_iff {c : Char} {cs : List Char} : splitOnce c cs = none ↔ c ∉ cs := by
  refine ⟨fun h hmem => ?_, splitOnce_eq_none⟩
  obtain ⟨rest, hsome⟩ := exists_splitOnce_of_mem hmem
  rw [h] at hsome
  cases hsome

/-- The two parts, the first one of which goes up to the first place. -/
theorem eq_of_splitOnce {c : Char} {cs a b : List Char} (h : splitOnce c cs = some (a, b)) : cs = a ++ c :: b ∧ c ∉ a := by
  have hmem : c ∈ cs := by
    by_contra hnot
    rw [splitOnce_eq_none hnot] at h
    cases h
  obtain ⟨a', b', hcs, ha⟩ := List.eq_append_cons_of_mem hmem
  rw [hcs, splitOnce_append ha] at h
  cases h
  exact ⟨hcs, ha⟩

/-- Whatever is no digit does not occur in a decimal number. -/
theorem not_mem_toDigits {c : Char} (h : c.isDigit = false) (n : ℕ) : c ∉ Nat.toDigits 10 n := by
  intro hmem
  rw [Nat.isDigit_of_mem_toDigits (by decide) (by decide) hmem] at h
  cases h

theorem parseUInt_toDigits {bound : ℕ} (n : Fin bound) : parseUInt bound (Nat.toDigits 10 n.val) = some n := by
  have hdigits : ∀ c ∈ Nat.toDigits 10 n.val, c.isDigit = true := fun c hc =>
    Nat.isDigit_of_mem_toDigits (by decide) (by decide) hc
  have hplus : (match Nat.toDigits 10 n.val with | '+' :: rest => rest | cs => cs) = Nat.toDigits 10 n.val := by
    split
    · next rest heq => exact absurd (heq ▸ List.mem_cons_self) (not_mem_toDigits (by decide) n.val)
    · rfl
  simp only [parseUInt, hplus]
  rw [if_neg, dif_pos]
  · simp
  · simp
  · simpa using hdigits

/-! ### File names -/

namespace TimeKey

/-- `as_filename_str`: "{nanos}-{pid}-{id}" -/
def asFilename (key : TimeKey) : String :=
  String.ofList (Nat.toDigits 10 key.nanos.val ++ '-' :: (Nat.toDigits 10 key.pid.toNat ++
    '-' :: Nat.toDigits 10 key.id.toNat))

/-- `try_from_filename_str` -/
def tryFromFilename (fileName : String) : Option TimeKey := do
  let (nanos, pidId) ← splitOnce '-' fileName.toList
  let (pid, id) ← splitOnce '-' pidId
  let nanos ← parseUInt (2 ^ 128) nanos
  let pid ← parseUInt UInt32.size pid
  let id ← parseUInt UInt64.size id
  some ⟨nanos, UInt32.ofFin pid, UInt64.ofFin id⟩

/-- File names are read back. -/
theorem tryFrom_asFilename (key : TimeKey) : tryFromFilename key.asFilename = some key := by
  obtain ⟨nanos, pid, id⟩ := key
  have hpid : parseUInt UInt32.size (Nat.toDigits 10 pid.toNat) = some pid.toFin := parseUInt_toDigits pid.toFin
  have hid : parseUInt UInt64.size (Nat.toDigits 10 id.toNat) = some id.toFin := parseUInt_toDigits id.toFin
  simp only [tryFromFilename, asFilename, String.toList_ofList,
    splitOnce_append (not_mem_toDigits (show ('-').isDigit = false by decide) _), Option.bind_eq_bind,
    Option.bind_some, parseUInt_toDigits nanos, hpid, hid, UInt32.ofFin_toFin, UInt64.ofFin_toFin]

/-- The characters of a file name. -/
theorem mem_asFilename {key : TimeKey} {c : Char} (h : c ∈ key.asFilename.toList) :
    c.isDigit = true ∨ c = '-' := by
  have hdigit : ∀ n, c ∈ Nat.toDigits 10 n → c.isDigit = true := fun n hc =>
    Nat.isDigit_of_mem_toDigits (by decide) (by decide) hc
  simp only [asFilename, String.toList_ofList, List.mem_append, List.mem_cons] at h
  rcases h with h | h | h | h | h
  · exact .inl (hdigit _ h)
  · exact .inr h
  · exact .inl (hdigit _ h)
  · exact .inr h
  · exact .inl (hdigit _ h)

theorem length_asFilename (key : TimeKey) : key.asFilename.toList.length ≤ 71 := by
  have hn : (Nat.toDigits 10 key.nanos.val).length ≤ 39 :=
    (Nat.length_toDigits_le_iff (by decide) (by decide)).2 (key.nanos.isLt.trans (by decide))
  have hp : (Nat.toDigits 10 key.pid.toNat).length ≤ 10 :=
    (Nat.length_toDigits_le_iff (by decide) (by decide)).2 (key.pid.toNat_lt.trans (by decide))
  have hi : (Nat.toDigits 10 key.id.toNat).length ≤ 20 :=
    (Nat.length_toDigits_le_iff (by decide) (by decide)).2 (key.id.toNat_lt.trans (by decide))
  simp only [asFilename, String.toList_ofList, List.length_append, List.length_cons]
  omega

/-- Digits and hyphens are one byte long. -/
theorem utf8Size_of_ascii {c : Char} (h : c.isDigit = true ∨ c = '-') : c.utf8Size = 1 := by
  rcases h with h | rfl
  · rw [Char.isDigit_iff_toNat] at h
    rw [Char.utf8Size_eq_one_iff, UInt32.le_iff_toNat_le]
    exact h.2.trans (by decide)
  · decide

/-- File names obey the rules for keys. -/
theorem verified_asFilename (key : TimeKey) : verified key.asFilename = true := by
  have hlen : byteLen key.asFilename = key.asFilename.toList.length := by
    rw [byteLen, List.map_congr_left fun c hc => utf8Size_of_ascii (mem_asFilename hc)]
    simp
  have hne : key.asFilename.toList ≠ [] := by simp [asFilename]
  have hnot : ∀ c : Char, c.isDigit = false → c ≠ '-' → key.asFilename.toList.contains c = false := by
    intro c hc hc'
    rw [Bool.eq_false_iff]
    intro hcontains
    have hmem : c ∈ key.asFilename.toList := by simpa using hcontains
    rcases mem_asFilename hmem with h | h
    · rw [h] at hc
      cases hc
    · exact hc' h
  have htmp : isTmp key.asFilename = false := by
    rw [isTmp, Bool.eq_false_iff]
    intro hdot
    -- the first character would be a dot
    have hmem : '.' ∈ key.asFilename.toList := List.mem_of_head? (by simpa using hdot)
    rcases mem_asFilename hmem with h | h
    · exact absurd h (by decide)
    · exact absurd h (by decide)
  have h71 := length_asFilename key
  have h1 := List.length_pos_iff.2 hne
  simp only [verified, hlen, htmp, hnot '/' (by decide) (by decide), hnot '\x00' (by decide) (by decide)]
  simp
  omega

instance : AsKey TimeKey where
  asFilenameStr := asFilename
  tryFromFilenameStr := tryFromFilename
  debug key := s!"TimeKey \x7b nanos: {key.nanos.val}, pid: {key.pid.toNat}, id: {key.id.toNat} \x7d"
  verified_asFilenameStr := verified_asFilename
  tryFrom_asFilenameStr := tryFrom_asFilename

/-! ### The time of insertion -/

/-- `TimeKey::now` -/
def now {C X : Type} {R : X → Type} {ε : Type} : Tool C X R ε TimeKey := do
  let time ← Sys.systemTime
  if h : 0 ≤ time.nanos then do
    let pid ← Sys.processId
    let id ← Sys.nextId
    pure ⟨⟨time.nanos.toNat, by have := time.range; omega⟩, pid, id⟩
  else .panic "now is never out of range"

end TimeKey

end Evobench.KeyValFs

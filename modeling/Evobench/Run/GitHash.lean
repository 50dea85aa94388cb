import Evobench.Run.BenchmarkingJob
import Mathlib.Algebra.BigOperators.Group.List.Basic

/-!
# Commit ids as texts

A commit id is shown as 40 hexadecimal digits (`GitHash.display`), which are read back (`GitHash.fromStr_display`). Capital
digits are read, too.
-/

namespace Evobench.Run

open KeyValFs

/-! ### Hexadecimal digits -/

/-- `decode_hex_digit` -/
def decodeHexDigit (b : Char) : Option ℕ :=
  if '0' ≤ b ∧ b ≤ '9' then some (b.toNat - '0'.toNat)
  else if 'a' ≤ b ∧ b ≤ 'f' then some (b.toNat - 'a'.toNat + 10)
  else if 'A' ≤ b ∧ b ≤ 'F' then some (b.toNat - 'A'.toNat + 10)
  else none

/-- The last hexadecimal digits of a number, the first one first. -/
def hexDigits : ℕ → ℕ → List ℕ
  | 0, _ => []
  | k + 1, n => hexDigits k (n / 16) ++ [n % 16]

/-- The number with these digits. -/
def ofHexDigits (digits : List ℕ) : ℕ := digits.foldl (fun n d => n * 16 + d) 0

theorem length_hexDigits (k n : ℕ) : (hexDigits k n).length = k := by
  induction k generalizing n with
  | zero => rfl
  | succ k ih => rw [hexDigits, List.length_append, ih, List.length_singleton]

theorem lt_of_mem_hexDigits {k n d : ℕ} (h : d ∈ hexDigits k n) : d < 16 := by
  induction k generalizing n with
  | zero => cases h
  | succ k ih =>
    rw [hexDigits, List.mem_append, List.mem_singleton] at h
    rcases h with h | rfl
    · exact ih h
    · exact Nat.mod_lt _ (by decide)

theorem ofHexDigits_hexDigits (k n : ℕ) : ofHexDigits (hexDigits k n) = n % 16 ^ k := by
  induction k generalizing n with
  | zero => rw [Nat.pow_zero, Nat.mod_one]; rfl
  | succ k ih =>
    rw [hexDigits, ofHexDigits, List.foldl_append]
    show ofHexDigits (hexDigits k (n / 16)) * 16 + n % 16 = n % 16 ^ (k + 1)
    rw [ih, Nat.pow_succ', Nat.mod_mul]
    omega

/-- All digits are decoded. -/
theorem decodeHexDigit_digitChar : ∀ d < 16, decodeHexDigit (Nat.digitChar d) = some d := by decide

theorem mapM_decodeHexDigit {digits : List ℕ} (h : ∀ d ∈ digits, d < 16) :
    (digits.map Nat.digitChar).mapM decodeHexDigit = some digits := by
  induction digits with
  | nil => rfl
  | cons d digits ih =>
    rw [List.map_cons, List.mapM_cons, decodeHexDigit_digitChar d (h d List.mem_cons_self),
      ih fun d' hd' => h d' (List.mem_cons_of_mem _ hd')]
    rfl

theorem decoded_of_mapM {cs : List Char} {digits : List ℕ} (h : cs.mapM decodeHexDigit = some digits) :
    ∀ c ∈ cs, decodeHexDigit c ≠ none := by
  induction cs generalizing digits with
  | nil => exact fun c hc => by cases hc
  | cons c cs ih =>
    rw [List.mapM_cons] at h
    obtain ⟨d, hd, h⟩ := Option.bind_eq_some_iff.1 h
    obtain ⟨ds, hds, -⟩ := Option.bind_eq_some_iff.1 h
    refine List.forall_mem_cons.2 ⟨?_, ih hds⟩
    rw [hd]
    simp

namespace GitHash

/-! ### Commit ids -/

/-- Why a text is no commit id. -/
inductive ParseError where
  /-- not an ASCII string -/
  | notAscii (s : String)
  /-- not a git hash of 40 hex bytes -/
  | notFortyBytes (s : String)
  /-- byte is not a hex digit -/
  | notHexDigit (s : String)
deriving DecidableEq

/-- `from_str` -/
def fromStr (s : String) : Except ParseError GitHash :=
  if s.toList.length ≠ byteLen s then .error (.notAscii s)
  else if byteLen s ≠ 40 then .error (.notFortyBytes s)
  else
    match s.toList.mapM decodeHexDigit with
    | some digits => .ok ⟨BitVec.ofNat 160 (ofHexDigits digits)⟩
    | none => .error (.notHexDigit s)

/-- The 40 digits. -/
def display (hash : GitHash) : String := String.ofList ((hexDigits 40 hash.bytes.toNat).map Nat.digitChar)

theorem utf8Size_digitChar : ∀ d < 16, (Nat.digitChar d).utf8Size = 1 := by decide

/-- **A commit id is read back.** -/
theorem fromStr_display (hash : GitHash) : fromStr hash.display = .ok hash := by
  have hlist : hash.display.toList = (hexDigits 40 hash.bytes.toNat).map Nat.digitChar := String.toList_ofList
  have hlength : hash.display.toList.length = 40 := by rw [hlist, List.length_map, length_hexDigits]
  have hbytes : byteLen hash.display = 40 := by
    have hone : ∀ n ∈ hash.display.toList.map Char.utf8Size, n = 1 := by
      rw [hlist, List.map_map]
      intro n hn
      obtain ⟨d, hd, rfl⟩ := List.mem_map.1 hn
      exact utf8Size_digitChar d (lt_of_mem_hexDigits hd)
    rw [byteLen, List.eq_replicate_of_mem hone, List.sum_replicate, List.length_map, hlength]
    rfl
  rw [fromStr, if_neg (by rw [hlength, hbytes]; simp), if_neg (by rw [hbytes]; simp), hlist,
    mapM_decodeHexDigit fun d hd => lt_of_mem_hexDigits hd]
  show Except.ok (GitHash.mk (BitVec.ofNat 160 (ofHexDigits (hexDigits 40 hash.bytes.toNat)))) = .ok hash
  have hlt : hash.bytes.toNat < 16 ^ 40 := hash.bytes.isLt
  rw [ofHexDigits_hexDigits, Nat.mod_eq_of_lt hlt, BitVec.ofNat_toNat, BitVec.setWidth_eq]

/-- What is no digit does not occur in a commit id. -/
theorem not_mem_of_fromStr {s : String} {hash : GitHash} (h : fromStr s = .ok hash) {c : Char} (hc : decodeHexDigit c = none) :
    c ∉ s.toList := by
  intro hmem
  unfold fromStr at h
  split_ifs at h
  split at h
  · next digits hdigits => exact decoded_of_mapM hdigits c hmem hc
  · cases h

end GitHash

end Evobench.Run

import Evobench.KeyValFs.TimeKey
import Evobench.Library.Decimal
import Evobench.Library.Split

/-!
# File names of time keys

A listing makes keys from the file names that it finds, everything else makes the file name from a key. The numbers in a
file name are read as `parse` reads them, which allows a sign and zeros before a number. Such a file name is not the one that
the key has.

## What is proved

* `toDigits_iff_of_parseUInt`: what is parsed is written the same way iff it is a numeral.
* `KeyVal.run_keys_eq_ok`, `KeyVal.run_entryOpt`, `KeyVal.run_delete_of_file`: the operations on a table when nothing fails.
* `TimeKey.fileNames`: an accepted file name is that of its key iff its numbers are numerals, and these are the file names of
  which what is listed is found and deleted.
-/

namespace Evobench.KeyValFs

open Library IoUtils

/-! ### Numbers -/

/-- What is parsed has a value in digits, perhaps after a sign. -/
theorem digitsValue_of_parseUInt {bound : ℕ} {cs : List Char} {n : Fin bound} (h : parseUInt bound cs = some n) :
    ∃ digits, (cs = digits ∨ cs = '+' :: digits) ∧ IsDigits digits ∧ digitsValue digits = n.val := by
  have hvalue : ∀ digits : List Char, (if digits.isEmpty || !digits.all Char.isDigit then none else
      if h : Nat.ofDigitChars 10 digits 0 < bound then some (⟨_, h⟩ : Fin bound) else none) = some n →
      IsDigits digits ∧ digitsValue digits = n.val := by
    intro digits hdigits
    split_ifs at hdigits with hbad hbound
    simp only [Bool.or_eq_true, not_or, Bool.not_eq_true, Bool.not_eq_false', List.isEmpty_eq_false_iff] at hbad
    cases hdigits
    exact ⟨⟨hbad.1, List.all_eq_true.1 hbad.2⟩, rfl⟩
  unfold parseUInt at h
  split at h
  · next rest => exact ⟨rest, .inr rfl, hvalue rest h⟩
  · exact ⟨cs, .inl rfl, hvalue cs h⟩

/-- Only numerals are written as they have been read. -/
theorem toDigits_iff_of_parseUInt {bound : ℕ} {cs : List Char} {n : Fin bound} (h : parseUInt bound cs = some n) :
    Nat.toDigits 10 n.val = cs ↔ IsNumeral cs := by
  obtain ⟨digits, rfl | rfl, hdigits, hvalue⟩ := digitsValue_of_parseUInt h
  · rw [← hvalue, toDigits_digitsValue_iff hdigits]
  · -- a sign is no digit
    refine iff_of_false (fun hsign => ?_) fun hnumeral => hnumeral.1.not_mem (c := '+') rfl List.mem_cons_self
    exact (isDigits_toDigits n.val).not_mem (c := '+') rfl (hsign ▸ List.mem_cons_self)

/-! ### Operations without faults -/

namespace KeyVal

variable {C X : Type} {R : X → Type} {K V : Type} [AsKey K] {kv : KeyVal K V} {pid : Pid} {w w' : World C X R}

/-- Listing returns the keys of what is there, unless it fails. -/
theorem run_keys_eq_ok {keys : List K} :
    kv.keys.run (machine pid) w = some (.ok keys, w') ↔
      w.event.fault = none ∧ keysOf kv.baseDir (w.disk kv.baseDir).keys = .ok keys ∧ w' = w.next w.disk := by
  cases hfault : w.event.fault with
  | some errno =>
    refine iff_of_false (fun hrun => ?_) fun h => by cases h.1
    simp only [KeyVal.keys, Sys.readDir, Prog.op_bind, Prog.mapErr, Prog.run, machine, act, failing, hfault] at hrun
    cases hrun
  | none =>
    have hrun : kv.keys.run (machine pid) w =
        (Prog.ofExcept (keysOf kv.baseDir (w.disk kv.baseDir).keys)).run (machine pid) (w.next w.disk) := by
      simp only [KeyVal.keys, Sys.readDir, Prog.mapErr, Prog.op_bind, Prog.run, machine, act, failing, hfault]
      rfl
    rw [hrun]
    cases keysOf (K := K) kv.baseDir (w.disk kv.baseDir).keys with
    | ok keys' => simp [Prog.ofExcept, Prog.run, eq_comm]
    | error e => simp [Prog.ofExcept, Prog.run]

theorem run_entryOpt (h : w.event.fault = none) (key : K) :
    (kv.entryOpt key).run (machine pid) w =
      some (.ok ((w.disk.file kv.baseDir (asFilenameStr key)).map fun content =>
        (⟨kv.baseDir, asFilenameStr key, content⟩ : Entry C V)), w.next w.disk) := by
  rw [entryOpt, if_pos (verified_asFilenameStr key)]
  cases hfile : w.disk.file kv.baseDir (asFilenameStr key) with
  | none =>
    simp only [Sys.openFile, Prog.op_bind, Prog.attempt, Prog.run, machine, act, failing, h, hfile]
    rfl
  | some content =>
    simp only [Sys.openFile, Prog.op_bind, Prog.attempt, Prog.run, machine, act, failing, h, hfile]
    rfl

theorem run_delete_of_file (h : w.event.fault = none) {key : K} {content : Option C}
    (hfile : w.disk.file kv.baseDir (asFilenameStr key) = some content) :
    (kv.delete key).run (machine pid) w = some (.ok true, w.next (w.disk.erase kv.baseDir (asFilenameStr key))) := by
  rw [delete, if_pos (verified_asFilenameStr key)]
  simp only [Sys.removeFile, Prog.op_bind, Prog.attempt, Prog.run, machine, act, failing, h, hfile]
  rfl

end KeyVal

/-! ### File names -/

namespace TimeKey

/-- Three numerals with hyphens between them. -/
def Canonical (name : String) : Prop :=
  ∃ nanos pid id, name.toList = nanos ++ '-' :: (pid ++ '-' :: id) ∧ IsNumeral nanos ∧ IsNumeral pid ∧ IsNumeral id

/-- Of the key that a listing makes from a file name, the entry is in that file, and is deleted with it. -/
def FoundAgain (name : String) (key : TimeKey) : Prop :=
  ∀ (C X : Type) (R : X → Type) (V : Type) (kv : KeyVal TimeKey V) (pid : Pid) (w w' : World C X R) (keys : List TimeKey)
    (content : Option C), kv.keys.run (machine pid) w = some (.ok keys, w') →
    w.disk.file kv.baseDir name = some content → w'.event.fault = none →
    key ∈ keys ∧
      (kv.entryOpt key).run (machine pid) w' = some (.ok (some ⟨kv.baseDir, name, content⟩), w'.next w'.disk) ∧
      (kv.delete key).run (machine pid) w' = some (.ok true, w'.next (w'.disk.erase kv.baseDir name))

/-- The parts of an accepted file name. -/
theorem parts_of_tryFromFilename {name : String} {key : TimeKey} (h : tryFromFilename name = some key) :
    ∃ nanos pid id, name.toList = nanos ++ '-' :: (pid ++ '-' :: id) ∧ '-' ∉ nanos ∧ '-' ∉ pid ∧
      parseUInt (2 ^ 128) nanos = some key.nanos ∧ parseUInt UInt32.size pid = some key.pid.toFin ∧
      parseUInt UInt64.size id = some key.id.toFin := by
  simp only [tryFromFilename, Option.bind_eq_bind, Option.bind_eq_some_iff, Option.some.injEq, Prod.exists] at h
  obtain ⟨nanos, pidId, hname, pid, id, hpidId, n, hn, p, hp, i, hi, rfl⟩ := h
  obtain ⟨hname, hnanos⟩ := eq_of_splitOnce hname
  obtain ⟨hpidId, hpid⟩ := eq_of_splitOnce hpidId
  exact ⟨nanos, pid, id, by rw [hname, hpidId], hnanos, hpid, hn, hp, hi⟩

/-- An accepted file name is that of its key iff its numbers are numerals. -/
theorem asFilename_eq_iff {name : String} {key : TimeKey} (h : tryFromFilename name = some key) :
    key.asFilename = name ↔ Canonical name := by
  obtain ⟨nanos, pid, id, hname, hnanos, hpid, hn, hp, hi⟩ := parts_of_tryFromFilename h
  have hhyphen : ('-').isDigit = false := rfl
  constructor
  · rintro rfl
    exact ⟨_, _, _, by rw [asFilename, String.toList_ofList], isNumeral_toDigits _, isNumeral_toDigits _,
      isNumeral_toDigits _⟩
  · rintro ⟨nanos', pid', id', hname', hnanos', hpid', hid'⟩
    obtain ⟨rfl, hrest⟩ := first_place_inj hnanos (hnanos'.1.not_mem hhyphen) (hname.symm.trans hname')
    obtain ⟨rfl, rfl⟩ := first_place_inj hpid (hpid'.1.not_mem hhyphen) hrest
    have hnanos : Nat.toDigits 10 key.nanos.val = nanos := (toDigits_iff_of_parseUInt hn).2 hnanos'
    have hpid : Nat.toDigits 10 key.pid.toNat = pid := (toDigits_iff_of_parseUInt hp).2 hpid'
    have hid : Nat.toDigits 10 key.id.toNat = id := (toDigits_iff_of_parseUInt hi).2 hid'
    rw [asFilename, hnanos, hpid, hid, ← hname, String.ofList_toList]

/-- Accepted file names are not those of temporary files. -/
theorem isTmp_of_tryFromFilename {name : String} {key : TimeKey} (h : tryFromFilename name = some key) :
    isTmp name = false := by
  obtain ⟨nanos, pid, id, hname, -, -, hn, -, -⟩ := parts_of_tryFromFilename h
  rw [isTmp, hname, Bool.eq_false_iff]
  intro hdot
  have hmem : '.' ∈ nanos := by
    obtain ⟨digits, rfl | rfl, hdigits, -⟩ := digitsValue_of_parseUInt hn
    · rw [List.head?_append_of_ne_nil _ hdigits.1] at hdot
      exact List.mem_of_head? (by simpa using hdot)
    · simp at hdot
  obtain ⟨digits, rfl | rfl, hdigits, -⟩ := digitsValue_of_parseUInt hn
  · exact hdigits.not_mem (c := '.') rfl hmem
  · exact hdigits.not_mem (c := '.') rfl (by simpa using hmem)

/-- What is listed is found under its key iff it has the file name of the key. -/
theorem foundAgain_iff {name : String} {key : TimeKey} (h : tryFromFilename name = some key) :
    FoundAgain name key ↔ key.asFilename = name := by
  constructor
  · intro hfound
    -- a directory with this file alone
    let w : World Unit Empty fun _ => Unit := ⟨Disk.put (fun _ => ∅) "queue" name (some ()), fun _ => none,
      fun _ => ⟨.epoch, none, fun _ => ()⟩, 0, fun _ => 0, []⟩
    let kv : KeyVal TimeKey Unit := ⟨"queue", .no⟩
    have hfile : w.disk.file "queue" name = some (some ()) := by simp [w]
    have hnames : (w.disk "queue").keys = [name] := by simp [w, Disk.put]
    have hname : keyFromFileName name kv.baseDir = .ok (some key) := by
      simp [keyFromFileName, isTmp_of_tryFromFilename h, show AsKey.tryFromFilenameStr name = some key from h]
    have hkeys : KeyVal.keysOf kv.baseDir (w.disk "queue").keys = .ok [key] := by
      rw [hnames, KeyVal.keysOf, hname, KeyVal.keysOf]
    obtain ⟨-, hentry, -⟩ := hfound Unit Empty _ Unit kv 0 w _ [key] (some ())
      (KeyVal.run_keys_eq_ok.2 ⟨rfl, hkeys, rfl⟩) hfile rfl
    rw [KeyVal.run_entryOpt rfl, Option.some.injEq, Prod.mk.injEq, Outcome.ok.injEq, Option.map_eq_some_iff] at hentry
    obtain ⟨⟨content, -, hentry⟩, -⟩ := hentry
    exact congrArg Entry.fileName hentry
  · intro hname C X R V kv pid w w' keys content hrun hfile hfault
    obtain ⟨-, hkeys, rfl⟩ := KeyVal.run_keys_eq_ok.1 hrun
    have hslot : (w.next w.disk).disk.file kv.baseDir (asFilenameStr key) = some content := by
      rw [show asFilenameStr key = name from hname]
      exact hfile
    have hmem : name ∈ (w.disk kv.baseDir).keys := by
      rw [← AList.mem_keys, ← AList.lookup_isSome]
      exact Option.isSome_iff_exists.2 ⟨content, hfile⟩
    refine ⟨(mem_keysOf hkeys key).2 ⟨name, hmem, isTmp_of_tryFromFilename h, h⟩, ?_, ?_⟩
    · rw [KeyVal.run_entryOpt hfault, hslot, Option.map_some, show asFilenameStr key = name from hname]
    · rw [KeyVal.run_delete_of_file hfault hslot, show asFilenameStr key = name from hname]

/-- **File names and keys.** The file name of a key is read as that key. A file name that is accepted is the one of its key,
and the entry in it is found again and deleted under the key, iff it is written in numerals. -/
theorem fileNames (name : String) :
    (∀ key : TimeKey, tryFromFilename key.asFilename = some key) ∧
      ∀ key : TimeKey, tryFromFilename name = some key →
        (key.asFilename = name ↔ Canonical name) ∧ (FoundAgain name key ↔ Canonical name) := by
  refine ⟨tryFrom_asFilename, fun key h => ?_⟩
  have hname := asFilename_eq_iff h
  exact ⟨hname, (foundAgain_iff h).trans hname⟩

/-- A file name in numerals. -/
theorem fileNames_sample : tryFromFilename "1-2-3" = some ⟨1, 2, 3⟩ ∧
    ((⟨1, 2, 3⟩ : TimeKey).asFilename = "1-2-3" ↔ Canonical "1-2-3") ∧
      (FoundAgain "1-2-3" ⟨1, 2, 3⟩ ↔ Canonical "1-2-3") := by
  have haccepted : tryFromFilename "1-2-3" = some ⟨1, 2, 3⟩ := by decide +kernel
  exact ⟨haccepted, (fileNames "1-2-3").2 _ haccepted⟩

/-- A zero before a number is accepted, and the entry is not found again. -/
theorem leading_zero_is_lost : tryFromFilename "01-2-3" = some ⟨1, 2, 3⟩ ∧
    ¬ ∀ (name : String) (key : TimeKey), tryFromFilename name = some key →
      key.asFilename = name ∧ FoundAgain name key := by
  have haccepted : tryFromFilename "01-2-3" = some ⟨1, 2, 3⟩ := by decide +kernel
  refine ⟨haccepted, fun h => ?_⟩
  have hname : (⟨1, 2, 3⟩ : TimeKey).asFilename ≠ "01-2-3" := by decide +kernel
  exact hname (h "01-2-3" _ haccepted).1

end TimeKey

end Evobench.KeyValFs

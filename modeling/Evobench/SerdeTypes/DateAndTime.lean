import Mathlib.Data.String.Basic

/-!
# Points in time as texts

`DateTimeWithOffset` is a point in time as it is written in RFC 3339 format. What is parsed is written anew, so that the text
is always the one that `to_rfc3339` gives. The library for that is a parameter (`Chrono`).
-/

namespace Evobench.SerdeTypes

/-- What is documented about the library for dates and times: RFC 3339 texts are read and written. -/
structure Chrono where
  /-- `DateTime<FixedOffset>` -/
  DateTime : Type
  /-- `parse_from_rfc3339` -/
  parseFromRfc3339 : String → Option DateTime
  /-- `to_rfc3339` -/
  toRfc3339 : DateTime → String
  /-- What has been read can be written and read back. -/
  parse_toRfc3339 : ∀ s t, parseFromRfc3339 s = some t → parseFromRfc3339 (toRfc3339 t) = some t
  /-- There are colons in the time and the offset. -/
  colon_of_parse : ∀ s t, parseFromRfc3339 s = some t → ':' ∈ s.toList
  /-- There are no slashes. -/
  noSlash_of_parse : ∀ s t, parseFromRfc3339 s = some t → '/' ∉ s.toList
  /-- There are no equals signs. -/
  noEquals_of_parse : ∀ s t, parseFromRfc3339 s = some t → '=' ∉ s.toList

/-- A point in time, with an offset from UTC. -/
structure DateTimeWithOffset (chrono : Chrono) where
  /-- In RFC 3339 format. -/
  text : String
  /-- The field is the result of `to_rfc3339`, hence always parseable. -/
  parses : ∃ t, chrono.parseFromRfc3339 text = some t ∧ chrono.toRfc3339 t = text

namespace DateTimeWithOffset

variable {chrono : Chrono}

theorem ext {a b : DateTimeWithOffset chrono} (h : a.text = b.text) : a = b := by
  cases a
  cases b
  cases h
  rfl

/-- `from_str` -/
def fromStr (s : String) : Option (DateTimeWithOffset chrono) :=
  match h : chrono.parseFromRfc3339 s with
  | none => none
  | some t => some ⟨chrono.toRfc3339 t, t, chrono.parse_toRfc3339 s t h, rfl⟩

theorem exists_of_fromStr {s : String} {time : DateTimeWithOffset chrono} (h : fromStr s = some time) :
    ∃ t, chrono.parseFromRfc3339 s = some t := by
  unfold fromStr at h
  split at h
  · cases h
  · next t ht => exact ⟨t, ht⟩

theorem fromStr_eq_none {s : String} (h : chrono.parseFromRfc3339 s = none) :
    (fromStr s : Option (DateTimeWithOffset chrono)) = none := by
  unfold fromStr
  split
  · rfl
  · next t ht =>
    rw [h] at ht
    cases ht

theorem exists_fromStr {s : String} {t : chrono.DateTime} (h : chrono.parseFromRfc3339 s = some t) :
    ∃ time : DateTimeWithOffset chrono, fromStr s = some time := by
  unfold fromStr
  split
  · next hnone =>
    rw [h] at hnone
    cases hnone
  · exact ⟨_, rfl⟩

/-- A point in time is read back. -/
theorem fromStr_text (time : DateTimeWithOffset chrono) : fromStr time.text = some time := by
  obtain ⟨t, hparse, htext⟩ := time.parses
  unfold fromStr
  split
  · next hnone =>
    rw [hparse] at hnone
    cases hnone
  · next t' ht' =>
    rw [hparse] at ht'
    obtain rfl := Option.some.inj ht'
    exact congrArg some (ext htext)

end DateTimeWithOffset

end Evobench.SerdeTypes

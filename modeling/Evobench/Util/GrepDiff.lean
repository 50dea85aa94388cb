import Evobench.Run.CommandLogFile

/-!
# Time spans in command logs

A span goes from a line that matches a start pattern to the next line that matches an end pattern, both with timestamps. The
patterns are regular expressions in the source, any predicate on the text after the timestamp here.

## What is proved

* `Segments`: the spans that there are in a file from some line on, and a last start without an end if there is one.
* `findMatchingSpansFor_segments`: these are the spans that are found, with the numbers of their lines in the file.
* `RightSpans`: spans are at the right lines, one after the other, each with the first end after its start, and every start is
  in one of them.

The main result is `log_extraction`.
-/

namespace Evobench.Util

open Library KeyValFs Run

/-- `Timing` -/
structure Timing (τ : Type) where
  /-- The timestamp. -/
  timestamp : τ
  /-- The number of the line. -/
  lineno : ℕ
  /-- The text after the timestamp. -/
  rest : List Char

/-- `Span` -/
structure Span (τ : Type) where
  /-- The start. -/
  start : Timing τ
  /-- The end. -/
  end_ : Timing τ

/-- `GrepDiffRegion`, by what matches. -/
structure GrepDiffRegion where
  /-- `regex_start.is_match` -/
  isStart : List Char → Bool
  /-- `regex_end.is_match` -/
  isEnd : List Char → Bool

variable {τ : Type} (chrono : Rfc3339Parser τ)

/-- The timing of a line that matches. -/
def matching (isMatch : List Char → Bool) (lineno : ℕ) (line : List Char) : Option (Timing τ) := do
  let (t, rest) ← splitOnce '\t' line
  if isMatch rest then do
    let timestamp ← chrono.parseFromRfc3339 t
    pure ⟨timestamp, lineno, rest⟩
  else none

namespace GrepDiffRegion

variable (region : GrepDiffRegion)

/-- The two loops of `find_matching_spans_for`: over the lines outside of a span, and after a start. -/
def scanLines : Option (Timing τ) → ℕ → List (List Char) → Except (Timing τ) (List (Span τ))
  | none, _, [] => .ok []
  | some start, _, [] => .error start
  | none, lineno, line :: lines =>
    match matching chrono region.isStart lineno line with
    | some start => scanLines (some start) (lineno + 1) lines
    | none => scanLines none (lineno + 1) lines
  | some start, lineno, line :: lines =>
    match matching chrono region.isEnd lineno line with
    | some end_ => (scanLines none (lineno + 1) lines).map fun spans => ⟨start, end_⟩ :: spans
    | none => scanLines (some start) (lineno + 1) lines

/-- `find_matching_spans_for`: returns the start-`Timing` as an error if no match for `regex_end` was found after it. -/
def findMatchingSpansFor (log : List Char × ℕ) : Except (Timing τ) (List (Span τ)) :=
  region.scanLines chrono none log.2 (linesOf log.1)

end GrepDiffRegion

/-! ### The spans of a file -/

section Spec

variable (file : List Char)

/-- A line of the file with its timestamp; lines are counted from 1. -/
def TimedAt (x : Timing τ) : Prop :=
  1 ≤ x.lineno ∧ ∃ line, (linesOf file)[x.lineno - 1]? = some line ∧ timestampOf chrono line = some (x.timestamp, x.rest)

/-- The first line with a timestamp that matches, from a line on. -/
structure First (isMatch : List Char → Bool) (lineno : ℕ) (x : Timing τ) : Prop where
  /-- It is a line with a timestamp. -/
  timed : TimedAt chrono file x
  /-- It matches. -/
  matched : isMatch x.rest = true
  /-- It does not come before. -/
  le : lineno ≤ x.lineno
  /-- There is none in between. -/
  first : ∀ y, TimedAt chrono file y → isMatch y.rest = true → lineno ≤ y.lineno → x.lineno ≤ y.lineno

/-- There is no line with a timestamp that matches, from a line on. -/
def Without (isMatch : List Char → Bool) (lineno : ℕ) : Prop :=
  ∀ y, TimedAt chrono file y → isMatch y.rest = true → y.lineno < lineno

/-- **The spans of a file** from a line on, and a last start without an end if there is one. -/
inductive Segments (region : GrepDiffRegion) : ℕ → List (Span τ) → Option (Timing τ) → Prop
  /-- There are no more starts. -/
  | nil {lineno : ℕ} (hnone : Without chrono file region.isStart lineno) : Segments region lineno [] none
  /-- After the next start there is no end. -/
  | unended {lineno : ℕ} {start : Timing τ} (hstart : First chrono file region.isStart lineno start)
      (hnone : Without chrono file region.isEnd (start.lineno + 1)) : Segments region lineno [] (some start)
  /-- From the next start to the first end after it, and the spans after that. -/
  | span {lineno : ℕ} {span : Span τ} {spans : List (Span τ)} {last : Option (Timing τ)}
      (hstart : First chrono file region.isStart lineno span.start)
      (hend : First chrono file region.isEnd (span.start.lineno + 1) span.end_)
      (hspans : Segments region (span.end_.lineno + 1) spans last) : Segments region lineno (span :: spans) last

/-- **The right spans of a file.** -/
structure RightSpans (region : GrepDiffRegion) (spans : List (Span τ)) : Prop where
  /-- Starts are at their lines. -/
  start : ∀ span ∈ spans, TimedAt chrono file span.start ∧ region.isStart span.start.rest = true
  /-- An end is the first line after its start that matches. -/
  end_ : ∀ span ∈ spans, First chrono file region.isEnd (span.start.lineno + 1) span.end_
  /-- They are disjoint, and in the order of the file. -/
  ordered : spans.Pairwise fun a b => a.end_.lineno < b.start.lineno
  /-- Every start is in one of them. -/
  covered : ∀ x, TimedAt chrono file x → region.isStart x.rest = true →
    ∃ span ∈ spans, span.start.lineno ≤ x.lineno ∧ x.lineno ≤ span.end_.lineno

end Spec

variable {chrono} {file : List Char} {region : GrepDiffRegion}

/-! ### Lines -/

theorem matching_eq_some {isMatch : List Char → Bool} {lineno : ℕ} {line : List Char} {x : Timing τ} :
    matching chrono isMatch lineno line = some x ↔
      timestampOf chrono line = some (x.timestamp, x.rest) ∧ isMatch x.rest = true ∧ x.lineno = lineno := by
  obtain ⟨timestamp, n, rest⟩ := x
  rw [matching, timestampOf]
  cases hsplit : splitOnce '\t' line with
  | none => simp
  | some parts =>
    obtain ⟨t, r⟩ := parts
    cases hparse : chrono.parseFromRfc3339 t with
    | none => simp [hparse]
    | some time =>
      by_cases hmatch : isMatch r = true
      · simp only [Option.bind_eq_bind, Option.bind_some, hmatch, if_true, hparse, Option.pure_def, Option.some.injEq,
          Timing.mk.injEq, Prod.mk.injEq]
        constructor
        · rintro ⟨rfl, rfl, rfl⟩
          exact ⟨⟨rfl, rfl⟩, hmatch, rfl⟩
        · rintro ⟨⟨rfl, rfl⟩, -, rfl⟩
          exact ⟨rfl, rfl, rfl⟩
      · simp only [Option.bind_eq_bind, Option.bind_some, hmatch, hparse, Option.pure_def, Option.some.injEq, Prod.mk.injEq]
        refine iff_of_false (by simp) ?_
        rintro ⟨⟨-, rfl⟩, h, -⟩
        exact hmatch h

/-- What is found at a line. -/
theorem timedAt_iff {lineno : ℕ} {line : List Char} {lines : List (List Char)} (hpos : 1 ≤ lineno)
    (hlines : (linesOf file).drop (lineno - 1) = line :: lines) {x : Timing τ} (hx : x.lineno = lineno) :
    TimedAt chrono file x ↔ timestampOf chrono line = some (x.timestamp, x.rest) := by
  have hget : (linesOf file)[lineno - 1]? = some line := by
    have h := congrArg List.head? hlines
    rwa [List.head?_drop] at h
  rw [TimedAt, hx, hget]
  simp [hpos]

theorem drop_succ {lineno : ℕ} {line : List Char} {lines : List (List Char)} (hpos : 1 ≤ lineno)
    (hlines : (linesOf file).drop (lineno - 1) = line :: lines) : (linesOf file).drop (lineno + 1 - 1) = lines := by
  have h := congrArg List.tail hlines
  rw [List.tail_drop, List.tail_cons] at h
  rwa [show lineno + 1 - 1 = lineno - 1 + 1 by omega]

namespace First

variable {isMatch : List Char → Bool} {lineno : ℕ} {x y : Timing τ}

/-- There is only one. -/
theorem unique (hx : First chrono file isMatch lineno x) (hy : First chrono file isMatch lineno y) : x = y := by
  have hlineno : x.lineno = y.lineno :=
    Nat.le_antisymm (hx.first y hy.timed hy.matched hy.le) (hy.first x hx.timed hx.matched hx.le)
  obtain ⟨timestamp, n, rest⟩ := x
  obtain ⟨timestamp', n', rest'⟩ := y
  obtain rfl : n = n' := hlineno
  obtain ⟨-, line, hline, htime⟩ := hx.timed
  obtain ⟨-, line', hline', htime'⟩ := hy.timed
  obtain rfl := Option.some.inj (hline.symm.trans hline')
  obtain ⟨rfl, rfl⟩ := Prod.mk.inj (Option.some.inj (htime.symm.trans htime'))
  rfl

/-- Then there are such lines. -/
theorem not_without (hx : First chrono file isMatch lineno x) : ¬ Without chrono file isMatch lineno := fun h =>
  absurd (h x hx.timed hx.matched) (Nat.not_lt.2 hx.le)

end First

section Step

variable {isMatch : List Char → Bool} {lineno : ℕ} {line : List Char} {lines : List (List Char)} {x : Timing τ}

/-- A line that matches is the first one from there on. -/
theorem First.of_matching (hpos : 1 ≤ lineno) (hlines : (linesOf file).drop (lineno - 1) = line :: lines)
    (h : matching chrono isMatch lineno line = some x) : First chrono file isMatch lineno x := by
  obtain ⟨htime, hmatch, hlineno⟩ := matching_eq_some.1 h
  exact ⟨(timedAt_iff hpos hlines hlineno).2 htime, hmatch, hlineno.ge, fun y _ _ hy => hlineno.le.trans hy⟩

/-- Where a line does not match, the search goes on with the next one. -/
theorem lt_of_matching_none (hpos : 1 ≤ lineno) (hlines : (linesOf file).drop (lineno - 1) = line :: lines)
    (h : matching chrono isMatch lineno line = none) (hx : TimedAt chrono file x) (hmatch : isMatch x.rest = true)
    (hle : lineno ≤ x.lineno) : lineno + 1 ≤ x.lineno := by
  refine Nat.lt_of_le_of_ne hle fun he => ?_
  have htime := (timedAt_iff hpos hlines he.symm).1 hx
  have hsome := matching_eq_some.2 ⟨htime, hmatch, he.symm⟩
  rw [h] at hsome
  cases hsome

/-- After the last line there is nothing. -/
theorem without_of_drop (hpos : 1 ≤ lineno) (hlines : (linesOf file).drop (lineno - 1) = []) :
    Without chrono file isMatch lineno := by
  rintro y ⟨hy, line, hline, -⟩ -
  rw [List.drop_eq_nil_iff] at hlines
  have := (List.getElem?_eq_some_iff.1 hline).1
  omega

/-- Lines that do not match can come before. -/
theorem First.of_le {a b : ℕ} (hab : a ≤ b)
    (hbetween : ∀ y, TimedAt chrono file y → isMatch y.rest = true → a ≤ y.lineno → b ≤ y.lineno)
    (h : First chrono file isMatch b x) : First chrono file isMatch a x :=
  ⟨h.timed, h.matched, hab.trans h.le, fun y hy hmatch hle => h.first y hy hmatch (hbetween y hy hmatch hle)⟩

theorem Without.of_le {a b : ℕ}
    (hbetween : ∀ y, TimedAt chrono file y → isMatch y.rest = true → a ≤ y.lineno → b ≤ y.lineno)
    (h : Without chrono file isMatch b) : Without chrono file isMatch a := by
  intro y hy hmatch
  by_contra hle
  exact absurd (h y hy hmatch) (Nat.not_lt.2 (hbetween y hy hmatch (Nat.not_lt.1 hle)))

end Step

/-! ### The scan -/

namespace Segments

variable {lineno : ℕ} {spans spans' : List (Span τ)} {last last' : Option (Timing τ)}

/-- Lines that are no starts can come before. -/
theorem of_le {a b : ℕ} (hab : a ≤ b)
    (hbetween : ∀ y, TimedAt chrono file y → region.isStart y.rest = true → a ≤ y.lineno → b ≤ y.lineno)
    (h : Segments chrono file region b spans last) : Segments chrono file region a spans last := by
  cases h with
  | nil hnone => exact .nil (hnone.of_le hbetween)
  | unended hstart hnone => exact .unended (hstart.of_le hab hbetween) hnone
  | span hstart hend hspans => exact .span (hstart.of_le hab hbetween) hend hspans

/-- **The spans of a file are determined.** -/
theorem unique (h : Segments chrono file region lineno spans last) (h' : Segments chrono file region lineno spans' last') :
    spans = spans' ∧ last = last' := by
  induction h generalizing spans' with
  | nil hnone =>
    cases h' with
    | nil => exact ⟨rfl, rfl⟩
    | unended hstart => exact absurd hnone hstart.not_without
    | span hstart => exact absurd hnone hstart.not_without
  | unended hstart hnone =>
    cases h' with
    | nil hnone' => exact absurd hnone' hstart.not_without
    | unended hstart' => exact ⟨rfl, by rw [hstart.unique hstart']⟩
    | span hstart' hend =>
      rw [hstart.unique hstart'] at hnone
      exact absurd hnone hend.not_without
  | @span _ s _ _ hstart hend hspans ih =>
    cases h' with
    | nil hnone => exact absurd hnone hstart.not_without
    | unended hstart' hnone =>
      rw [← hstart.unique hstart'] at hnone
      exact absurd hnone hend.not_without
    | @span _ s' _ _ hstart' hend' hspans' =>
      obtain ⟨start, e⟩ := s
      obtain ⟨start', e'⟩ := s'
      obtain rfl : start = start' := hstart.unique hstart'
      obtain rfl : e = e' := hend.unique hend'
      obtain ⟨rfl, rfl⟩ := ih hspans'
      exact ⟨rfl, rfl⟩

/-- They start at or after the line. -/
theorem le_start (h : Segments chrono file region lineno spans last) : ∀ span ∈ spans, lineno ≤ span.start.lineno := by
  induction h with
  | nil => simp
  | unended => simp
  | span hstart hend hspans ih =>
    have hle := hend.le
    have hle' := hstart.le
    rw [List.forall_mem_cons]
    exact ⟨hle', fun span hspan => by have := ih span hspan; omega⟩

/-- **Spans that all have an end are right.** -/
theorem right (h : Segments chrono file region lineno spans none) :
    (∀ span ∈ spans, TimedAt chrono file span.start ∧ region.isStart span.start.rest = true) ∧
      (∀ span ∈ spans, First chrono file region.isEnd (span.start.lineno + 1) span.end_) ∧
      spans.Pairwise (fun a b => a.end_.lineno < b.start.lineno) ∧
      ∀ x, TimedAt chrono file x → region.isStart x.rest = true → lineno ≤ x.lineno →
        ∃ span ∈ spans, span.start.lineno ≤ x.lineno ∧ x.lineno ≤ span.end_.lineno := by
  generalize hlast : (none : Option (Timing τ)) = last at h
  induction h with
  | nil hnone =>
    refine ⟨by simp, by simp, .nil, fun x hx hmatch hle => ?_⟩
    exact absurd (hnone x hx hmatch) (Nat.not_lt.2 hle)
  | unended => cases hlast
  | @span _ s spans _ hstart hend hspans ih =>
    obtain ⟨hstarts, hends, hordered, hcovered⟩ := ih hlast
    refine ⟨List.forall_mem_cons.2 ⟨⟨hstart.timed, hstart.matched⟩, hstarts⟩, List.forall_mem_cons.2 ⟨hend, hends⟩,
      List.pairwise_cons.2 ⟨fun b hb => hspans.le_start b hb, hordered⟩, fun x hx hmatch hle => ?_⟩
    by_cases hx' : x.lineno ≤ s.end_.lineno
    · exact ⟨s, List.mem_cons_self, hstart.first x hx hmatch hle, hx'⟩
    · obtain ⟨span, hspan, hin⟩ := hcovered x hx hmatch (Nat.not_le.1 hx')
      exact ⟨span, List.mem_cons_of_mem _ hspan, hin⟩

end Segments

/-- What is returned for spans and a last start without an end. -/
def result (spans : List (Span τ)) : Option (Timing τ) → Except (Timing τ) (List (Span τ))
  | none => .ok spans
  | some start => .error start

/-- **The two loops** find the spans from a line on. -/
theorem scanLines_spec (region : GrepDiffRegion) {lineno : ℕ} {lines : List (List Char)} (hpos : 1 ≤ lineno)
    (hlines : (linesOf file).drop (lineno - 1) = lines) :
    (∃ spans last, region.scanLines chrono none lineno lines = result spans last ∧
        Segments chrono file region lineno spans last) ∧
      ∀ start, Without chrono file region.isEnd lineno ∧ region.scanLines chrono (some start) lineno lines = .error start ∨
        ∃ e spans last, region.scanLines chrono (some start) lineno lines = result (⟨start, e⟩ :: spans) last ∧
          First chrono file region.isEnd lineno e ∧ Segments chrono file region (e.lineno + 1) spans last := by
  induction lines generalizing lineno with
  | nil => exact ⟨⟨[], none, rfl, .nil (without_of_drop hpos hlines)⟩, fun start => .inl ⟨without_of_drop hpos hlines, rfl⟩⟩
  | cons line lines ih =>
    obtain ⟨⟨spans, last, hscan, hsegments⟩, hafter⟩ := ih (Nat.le_succ_of_le hpos) (drop_succ hpos hlines)
    constructor
    · -- outside of a span
      rw [GrepDiffRegion.scanLines]
      cases hmatch : matching chrono region.isStart lineno line with
      | none =>
        exact ⟨spans, last, hscan, hsegments.of_le (Nat.le_succ _) fun y hy hym hle =>
          lt_of_matching_none hpos hlines hmatch hy hym hle⟩
      | some start =>
        have hstart := First.of_matching hpos hlines hmatch
        have hlineno : start.lineno = lineno := (matching_eq_some.1 hmatch).2.2
        rcases hafter start with ⟨hnone, herror⟩ | ⟨e, spans', last', hscan', hend, hspans⟩
        · exact ⟨[], some start, herror, .unended hstart (by rwa [hlineno])⟩
        · exact ⟨⟨start, e⟩ :: spans', last', hscan', .span hstart (by rwa [hlineno]) hspans⟩
    · -- after a start
      intro start
      rw [GrepDiffRegion.scanLines]
      cases hmatch : matching chrono region.isEnd lineno line with
      | none =>
        have hbetween : ∀ y, TimedAt chrono file y → region.isEnd y.rest = true → lineno ≤ y.lineno → lineno + 1 ≤ y.lineno :=
          fun y hy hym hle => lt_of_matching_none hpos hlines hmatch hy hym hle
        rcases hafter start with ⟨hnone, herror⟩ | ⟨e, spans', last', hscan', hend, hspans⟩
        · exact .inl ⟨hnone.of_le hbetween, herror⟩
        · exact .inr ⟨e, spans', last', hscan', hend.of_le (Nat.le_succ _) hbetween, hspans⟩
      | some e =>
        have hend := First.of_matching hpos hlines hmatch
        have hlineno : e.lineno = lineno := (matching_eq_some.1 hmatch).2.2
        refine .inr ⟨e, spans, last, ?_, hend, by rwa [hlineno]⟩
        simp only [hscan]
        cases last with
        | none => rfl
        | some x => rfl

/-! ### Whole log files -/

/-- There is a first element with a property, or none has it. -/
theorem forall_or_exists_first {α : Type} (p : α → Prop) (xs : List α) :
    (∀ x ∈ xs, ¬ p x) ∨ ∃ pre x post, xs = pre ++ x :: post ∧ (∀ y ∈ pre, ¬ p y) ∧ p x := by
  induction xs with
  | nil => exact .inl (by simp)
  | cons a xs ih =>
    by_cases ha : p a
    · exact .inr ⟨[], a, xs, rfl, by simp, ha⟩
    · rcases ih with hnone | ⟨pre, x, post, rfl, hpre, hx⟩
      · exact .inl (List.forall_mem_cons.2 ⟨ha, hnone⟩)
      · exact .inr ⟨a :: pre, x, post, rfl, List.forall_mem_cons.2 ⟨ha, hpre⟩, hx⟩

/-- The first line with a timestamp comes after the lines without one. -/
theorem lineno_of_first {x : Timing τ} (h : First chrono file (fun _ => true) 1 x) {pre post : List (List Char)}
    {l : List Char} (hlines : linesOf file = pre ++ l :: post) (hpre : ∀ l' ∈ pre, timestampOf chrono l' = none)
    (hl : timestampOf chrono l ≠ none) : x.lineno = pre.length + 1 := by
  obtain ⟨⟨timestamp, rest⟩, htime⟩ := Option.ne_none_iff_exists'.1 hl
  have htimed : TimedAt chrono file ⟨timestamp, pre.length + 1, rest⟩ := ⟨Nat.succ_pos _, l, by simp [hlines], htime⟩
  have hle : x.lineno ≤ pre.length + 1 := h.first _ htimed rfl (Nat.succ_pos _)
  obtain ⟨hpos, line, hline, hx⟩ := h.timed
  by_contra hne
  have hlt : x.lineno - 1 < pre.length := by omega
  rw [hlines, List.getElem?_append_left hlt] at hline
  rw [hpre line (List.mem_of_getElem? hline)] at hx
  cases hx

/-- **The part of a log file that is scanned**: it is the lines from a number on, before which there is no timestamp. -/
theorem logContentsRest_spec (chrono : Rfc3339Parser τ) (file : List Char) :
    1 ≤ (logContentsRest chrono file).2 ∧
      (linesOf file).drop ((logContentsRest chrono file).2 - 1) = linesOf (logContentsRest chrono file).1 ∧
      ∀ y, TimedAt chrono file y → (logContentsRest chrono file).2 ≤ y.lineno := by
  rw [logContentsRest]
  rcases forall_or_exists_first (fun l => timestampOf chrono l ≠ none) (linesOf file) with
    hnone | ⟨pre, l, post, hlines, hpre, hl⟩
  · simp only [not_not] at hnone
    rw [splitOffLogFileParams_eq_none hnone]
    exact ⟨Nat.le_refl 1, rfl, fun y hy => hy.1⟩
  · simp only [not_not] at hpre
    obtain ⟨hhead, hrest⟩ := splitOffLogFileParams_eq hlines hpre hl
    by_cases hnil : pre = []
    · rw [hhead hnil]
      exact ⟨Nat.le_refl 1, rfl, fun y hy => hy.1⟩
    · obtain ⟨head, rest, hsome, -, hlinesOf⟩ := hrest hnil
      rw [hsome]
      refine ⟨Nat.succ_pos _, by simp [hlines, hlinesOf], ?_⟩
      rintro y ⟨hpos, line, hline, hy⟩
      by_contra hlt
      have hplace : y.lineno - 1 < pre.length := by
        simp only [not_le] at hlt
        omega
      rw [hlines, List.getElem?_append_left hplace] at hline
      rw [hpre line (List.mem_of_getElem? hline)] at hy
      cases hy

/-- **The spans that are found** are the spans of the file, with the numbers of its lines. -/
theorem findMatchingSpansFor_segments (chrono : Rfc3339Parser τ) (file : List Char) (region : GrepDiffRegion) :
    ∃ spans last, region.findMatchingSpansFor chrono (logContentsRest chrono file) = result spans last ∧
      Segments chrono file region 1 spans last := by
  obtain ⟨hpos, hlines, hbefore⟩ := logContentsRest_spec chrono file
  obtain ⟨⟨spans, last, hscan, hsegments⟩, -⟩ := scanLines_spec region hpos hlines
  exact ⟨spans, last, hscan, hsegments.of_le hpos fun y hy _ _ => hbefore y hy⟩

/-- **Log extraction keeps line numbers.** Where the head of a file is split off, head and rest are its two parts, and the
number is the one of the first line with a timestamp. The spans that are found in the rest are the ones of the file: each is
at its lines, they are disjoint and in order, each ends at the first line after its start that matches, and every start is in
one of them; there is an error exactly when the last one has no end. -/
theorem log_extraction (chrono : Rfc3339Parser τ) (file : List Char) :
    (∀ x, First chrono file (fun _ => true) 1 x →
      (x.lineno = 1 → splitOffLogFileParams chrono file = none ∧ logContentsRest chrono file = (file, 1)) ∧
        (x.lineno ≠ 1 → ∃ head rest, splitOffLogFileParams chrono file = some (head, rest, x.lineno) ∧
          file = head ++ '\n' :: rest ∧ linesOf rest = (linesOf file).drop (x.lineno - 1))) ∧
      ∀ region : GrepDiffRegion,
        (∀ spans, region.findMatchingSpansFor chrono (logContentsRest chrono file) = .ok spans →
          RightSpans chrono file region spans) ∧
        (∀ spans, region.findMatchingSpansFor chrono (logContentsRest chrono file) = .ok spans ↔
          Segments chrono file region 1 spans none) ∧
        ∀ start, region.findMatchingSpansFor chrono (logContentsRest chrono file) = .error start ↔
          ∃ spans, Segments chrono file region 1 spans (some start) := by
  refine ⟨fun x hx => ?_, fun region => ?_⟩
  · rcases forall_or_exists_first (fun l => timestampOf chrono l ≠ none) (linesOf file) with
      hnone | ⟨pre, l, post, hlines, hpre, hl⟩
    · obtain ⟨-, line, hline, htime⟩ := hx.timed
      exact absurd (by rw [htime]; simp) (hnone line (List.mem_of_getElem? hline))
    · simp only [not_not] at hpre
      obtain ⟨hhead, hrest⟩ := splitOffLogFileParams_eq hlines hpre hl
      have hlineno := lineno_of_first hx hlines hpre hl
      constructor
      · intro hone
        have hnone := hhead (List.length_eq_zero_iff.1 (by omega))
        exact ⟨hnone, by rw [logContentsRest, hnone]⟩
      · intro hne
        obtain ⟨head, rest, hsome, hfile, hlinesOf⟩ := hrest (List.ne_nil_of_length_pos (by omega))
        exact ⟨head, rest, by rw [hsome, hlineno], hfile, by simp [hlinesOf, hlines, hlineno]⟩
  · obtain ⟨spans', last, hresult, hsegments⟩ := findMatchingSpansFor_segments chrono file region
    rw [hresult]
    have hok : ∀ spans, result spans' last = .ok spans ↔ Segments chrono file region 1 spans none := by
      intro spans
      constructor
      · intro h
        cases last with
        | none =>
          cases h
          exact hsegments
        | some start => cases h
      · intro h
        obtain ⟨rfl, rfl⟩ := h.unique hsegments
        rfl
    refine ⟨fun spans h => ?_, hok, fun start => ⟨fun h => ?_, ?_⟩⟩
    · obtain ⟨hstarts, hends, hordered, hcovered⟩ := ((hok spans).1 h).right
      exact ⟨hstarts, hends, hordered, fun x hx hmatch => hcovered x hx hmatch hx.1⟩
    · cases last with
      | none => cases h
      | some x =>
        cases h
        exact ⟨spans', hsegments⟩
    · rintro ⟨spans, h⟩
      obtain ⟨rfl, rfl⟩ := h.unique hsegments
      rfl

/-- The timestamps of the sample file. -/
def sampleTimestamp (t : List Char) : Option ℕ :=
  if t = "2026-02-02T11:26:48Z".toList then some 41208
  else if t = "2026-02-02T11:26:50Z".toList then some 41210
  else none

/-- They are on one line. -/
def sampleParser : Rfc3339Parser ℕ where
  parseFromRfc3339 := sampleTimestamp
  noNewline_of_parse t timestamp h := by
    unfold sampleTimestamp at h
    split_ifs at h with h₁ h₂
    · rw [h₁]
      decide +kernel
    · rw [h₂]
      decide +kernel

/-- A log file with a head of two lines. -/
def sampleFile : List Char := "target_name: a\n\n2026-02-02T11:26:48Z\tstart\n2026-02-02T11:26:50Z\tend\n".toList

/-- From "start" to "end". -/
def sampleRegion : GrepDiffRegion := ⟨fun rest => rest == "start".toList, fun rest => rest == "end".toList⟩

theorem log_extraction_sample :
    ∃ head rest, splitOffLogFileParams sampleParser sampleFile = some (head, rest, 3) ∧
      sampleFile = head ++ '\n' :: rest ∧
      RightSpans sampleParser sampleFile sampleRegion [⟨⟨41208, 3, "start".toList⟩, ⟨41210, 4, "end".toList⟩⟩] := by
  have hextraction := log_extraction sampleParser sampleFile
  have hfirst : First sampleParser sampleFile (fun _ => true) 1 ⟨41208, 3, "start".toList⟩ := by
    refine ⟨⟨by decide, _, rfl, rfl⟩, rfl, by decide, fun y hy _ _ => ?_⟩
    exact (show (logContentsRest sampleParser sampleFile).2 = 3 by rfl) ▸
      (logContentsRest_spec sampleParser sampleFile).2.2 y hy
  obtain ⟨head, rest, hsplit, hfile, -⟩ := (hextraction.1 _ hfirst).2 (by decide)
  exact ⟨head, rest, hsplit, hfile, (hextraction.2 sampleRegion).1 _ (by rfl)⟩

end Evobench.Util

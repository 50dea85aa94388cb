import Evobench.Evaluator.FromLogdata

/-!
# Which logs are accepted

* `Fits`, `Refused`: which messages the loop of `from_logdata` goes on after, and at which it returns an
  error; at any other message it panics.
* `step_spec`, `read_spec`: one message, and all messages.

The main results are `call_forest`, for well-bracketed logs, and `acceptance_iff`, for all logs.
-/

namespace Evobench.Evaluator

open Library

/-! ### One message -/

/-- The loop goes on after the message `m`, where `l` are the messages of its thread before. -/
def Fits (l : List Item) (m : DataMessage) : Prop :=
  match m.token with
  | .mark => ∃ x ∈ l, tok x ≠ .skip
  | .closing key => ∃ st, Pending tok st l ∧ (openKeys tok st).head? = some key
  | _ => True

/-- The loop returns an error at the message `m`, where `l` are the messages of its thread before: a key-value entry before
anything has started, or the end of a scope of another kind than the innermost open one. -/
def Refused (l : List Item) (m : DataMessage) : Prop :=
  match m.token with
  | .mark => ∀ x ∈ l, tok x = .skip
  | .closing key => ∃ st, Pending tok st l ∧ ∀ open_ ∈ (openKeys tok st).head?, open_.1 ≠ key.1
  | _ => False

theorem not_refused_of_fits {l : List Item} {m : DataMessage} (h : Fits l m) : ¬ Refused l m := by
  unfold Fits at h
  unfold Refused
  cases htoken : m.token with
  | opening key => exact id
  | skip => exact id
  | mark =>
    simp only [htoken] at h ⊢
    obtain ⟨x, hx, hne⟩ := h
    exact fun hskip => hne (hskip x hx)
  | closing key =>
    simp only [htoken] at h ⊢
    obtain ⟨st, hst, hhead⟩ := h
    rintro ⟨st', hst', hne⟩
    obtain rfl := hst.unique hst'
    exact hne key hhead rfl

theorem Fits.of_token {l : List Item} {m : DataMessage} (h : m.token = .skip ∨ ∃ key, m.token = .opening key) : Fits l m := by
  unfold Fits
  rcases h with h | ⟨key, h⟩
  · rw [h]
    trivial
  · rw [h]
    trivial

/-- How the loop treats one message. -/
inductive StepOutcome (pre : List DataMessage) (m : DataMessage) : Outcome String Reader → Prop where
  /-- It goes on. -/
  | ok {s' : Reader} {lifetime : ThreadNumber → ThreadId × ℕ} (hfits : Fits (threadItems m.tid pre) m)
      (hreads : Reads (pre ++ [m]) lifetime s') : StepOutcome pre m (.ok s')
  /-- It returns an error. -/
  | err {e : String} (hrefused : Refused (threadItems m.tid pre) m) : StepOutcome pre m (.err e)
  /-- It panics. -/
  | panic {msg : String} (hfits : ¬ (Fits (threadItems m.tid pre) m ∧ openers (pre ++ [m]) < 2 ^ 32))
      (hrefused : ¬ Refused (threadItems m.tid pre) m) : StepOutcome pre m (.panic msg)

section Step

variable {pre : List DataMessage} {lifetime : ThreadNumber → ThreadId × ℕ} {s : Reader}

theorem addKeyValue_spec (h : Reads pre lifetime s) (kv : KeyValue) :
    StepOutcome pre (.keyValue kv) (s.addKeyValue kv) := by
  by_cases hseen : s.startByThread kv.tid = none
  · have hrefused : Refused (threadItems kv.tid pre) (.keyValue kv) := (h.unseen kv.tid).1 hseen
    rw [Reader.addKeyValue, hseen]
    exact .err hrefused
  · have hfits : Fits (threadItems kv.tid pre) (.keyValue kv) := by
      have hne : ¬ ∀ x ∈ threadItems kv.tid pre, tok x = .skip := fun hskip => hseen ((h.unseen kv.tid).2 hskip)
      push Not at hne
      exact hne
    by_cases hroom : openers (pre ++ [.keyValue kv]) < 2 ^ 32
    · obtain ⟨s', hs', hreads⟩ := h.addKeyValue_ok hseen hroom
      rw [hs']
      exact .ok hfits hreads
    · obtain ⟨msg, hmsg⟩ := h.addKeyValue_panic hseen hroom
      rw [hmsg]
      exact .panic (fun hf => hroom hf.2) (not_refused_of_fits hfits)

theorem openScope_spec (h : Reads pre lifetime s) {point : PointKind} {kind : ScopeKind} {timing : Timing}
    (hkind : PointDispatch.fromPointKind point = .scope kind false) :
    StepOutcome pre (.timing point timing) (s.openScope kind timing) := by
  have htoken : (DataMessage.timing point timing).token = .opening (kind, timing.pn) := by
    simp only [DataMessage.token, hkind]
  have hfits : Fits (threadItems timing.tid pre) (.timing point timing) := .of_token (.inr ⟨_, htoken⟩)
  by_cases hroom : openers (pre ++ [.timing point timing]) < 2 ^ 32
  · obtain ⟨s', lifetime', hs', hreads⟩ := h.openScope_ok hkind hroom
    rw [hs']
    exact .ok hfits hreads
  · obtain ⟨msg, hmsg⟩ := h.openScope_panic hkind hroom
    rw [hmsg]
    exact .panic (fun hf => hroom hf.2) (not_refused_of_fits hfits)

theorem endMessage_spec (h : Reads pre lifetime s) {point : PointKind} {kind : ScopeKind} {timing : Timing}
    (hkind : PointDispatch.fromPointKind point = .scope kind true) {stack : List SpanId}
    (hstack : s.startByThread timing.tid = some stack) :
    StepOutcome pre (.timing point timing) (s.closeScope kind timing stack) := by
  have htoken : (DataMessage.timing point timing).token = .closing (kind, timing.pn) := by
    simp only [DataMessage.token, hkind]
  have hof : s.stackOf timing.tid = stack := by rw [Reader.stackOf, hstack, Option.getD_some]
  obtain ⟨st, hst, hindex⟩ := h.pendings timing.tid
  rw [hof] at hindex
  have hfits : Fits (threadItems timing.tid pre) (.timing point timing) ↔
      (openKeys tok st).head? = some (kind, timing.pn) := by
    unfold Fits
    simp only [htoken]
    constructor
    · rintro ⟨st', hst', hhead⟩
      rwa [hst.unique hst']
    · intro hhead
      exact ⟨st, hst, hhead⟩
  have hrefused : Refused (threadItems timing.tid pre) (.timing point timing) ↔
      ∀ open_ ∈ (openKeys tok st).head?, open_.1 ≠ kind := by
    unfold Refused
    simp only [htoken]
    constructor
    · rintro ⟨st', hst', hne⟩
      rwa [hst.unique hst']
    · intro hne
      exact ⟨st, hst, hne⟩
  rcases h.closeScope_eq kind timing hindex fun x hx => ⟨hst.mem hx, hst.isOpener hx⟩ with
    ⟨hkeys, e, he⟩ | ⟨marks, x, st', ids, id, stack', ⟨openKind, pn⟩, rfl, hmarks, hx, hid, rfl, hids, hstack', hkeys, he⟩
  · rw [he]
    refine .err (hrefused.2 ?_)
    simp [hkeys]
  · rw [he]
    split
    · next hne =>
      refine .err (hrefused.2 ?_)
      simpa [hkeys] using hne
    · next hkind' =>
      obtain rfl : openKind = kind := not_not.1 hkind'
      split
      · next hpn =>
        refine .panic (fun hf => ?_) fun hr => ?_
        · have hhead := hfits.1 hf.1
          rw [hkeys] at hhead
          exact hpn (Prod.mk.inj (Option.some.inj hhead)).2
        · exact hrefused.1 hr (openKind, pn) (by rw [hkeys]; rfl) rfl
      · next hpn =>
        obtain rfl : pn = timing.pn := not_not.1 hpn
        exact .ok (hfits.2 (by rw [hkeys]; rfl)) (h.ended ⟨hkind, hst, hmarks, hx, hid, hof, hids, hstack'⟩)

/-- **One message.** -/
theorem step_spec (h : Reads pre lifetime s) (m : DataMessage) : StepOutcome pre m (s.step m) := by
  cases m with
  | keyValue kv => exact addKeyValue_spec h kv
  | timing point timing =>
    rw [Reader.step]
    cases hkind : PointDispatch.fromPointKind point with
    | scope kind isEnding =>
      cases isEnding with
      | false => exact openScope_spec h hkind
      | true =>
        cases hstack : s.startByThread timing.tid with
        | some stack => exact endMessage_spec h hkind hstack
        | none =>
          have hskip := (h.unseen timing.tid).1 hstack
          have htoken : (DataMessage.timing point timing).token = .closing (kind, timing.pn) := by
            simp only [DataMessage.token, hkind]
          refine .err ?_
          unfold Refused
          simp only [htoken]
          exact ⟨[], .nil (.of_skip hskip), by simp [openKeys]⟩
    | t =>
      have htoken : (DataMessage.timing point timing).token = .skip := by simp only [DataMessage.token, hkind]
      refine .ok (.of_token (.inl htoken)) (h.skipped htoken ?_)
      cases point with
      | tThreadEnd => cases hkind
      | _ => rfl
    | tio =>
      have htoken : (DataMessage.timing point timing).token = .skip := by simp only [DataMessage.token, hkind]
      refine .ok (.of_token (.inl htoken)) (h.skipped htoken ?_)
      cases point with
      | tThreadEnd => cases hkind
      | _ => rfl

end Step

/-! ### All messages -/

/-- Every message fits after those before it, and there is room for its span. -/
def AllFit (ms : List DataMessage) : Prop :=
  ∀ p m q, ms = p ++ m :: q → Fits (threadItems m.tid p) m ∧ openers (p ++ [m]) < 2 ^ 32

theorem AllFit.nil : AllFit [] := by
  intro p m q h
  simp at h

theorem AllFit.snoc {ms : List DataMessage} {m : DataMessage} (h : AllFit ms)
    (hm : Fits (threadItems m.tid ms) m ∧ openers (ms ++ [m]) < 2 ^ 32) : AllFit (ms ++ [m]) := by
  intro p m' q he
  rcases List.eq_nil_or_concat q with rfl | ⟨q, z, rfl⟩
  · obtain ⟨rfl, hm'⟩ := List.append_inj' he rfl
    obtain rfl := List.singleton_inj.1 hm'
    exact hm
  · rw [List.concat_eq_append, ← List.cons_append, ← List.append_assoc] at he
    exact h p m' q (List.append_inj' he rfl).1

/-- The first message that does not fit. -/
theorem AllFit.misfit_unique {p p' q q' : List DataMessage} {m m' : DataMessage} (h : p ++ m :: q = p' ++ m' :: q')
    (hp : AllFit p) (hp' : AllFit p') (hm : ¬ (Fits (threadItems m.tid p) m ∧ openers (p ++ [m]) < 2 ^ 32))
    (hm' : ¬ (Fits (threadItems m'.tid p') m' ∧ openers (p' ++ [m']) < 2 ^ 32)) : p = p' ∧ m = m' := by
  rcases List.append_eq_append_iff.1 h with ⟨c, hc, hc'⟩ | ⟨c, hc, hc'⟩
  · rcases c with _ | ⟨z, c⟩
    · exact ⟨by simpa using hc.symm, (List.cons.inj hc').1⟩
    · obtain ⟨rfl, -⟩ := List.cons.inj hc'
      exact absurd (hp' p m c hc) hm
  · rcases c with _ | ⟨z, c⟩
    · exact ⟨by simpa using hc, (List.cons.inj hc').1.symm⟩
    · obtain ⟨rfl, -⟩ := List.cons.inj hc'
      exact absurd (hp p' m' c hc) hm'

/-- How the loop treats all messages. -/
inductive ReadOutcome (ms : List DataMessage) : Outcome String Reader → Prop where
  /-- All of them fit. -/
  | ok {s' : Reader} {lifetime : ThreadNumber → ThreadId × ℕ} (hfits : AllFit ms) (hreads : Reads ms lifetime s') :
      ReadOutcome ms (.ok s')
  /-- The first one that does not fit is refused. -/
  | err {p q : List DataMessage} {m : DataMessage} {e : String} (hms : ms = p ++ m :: q) (hfits : AllFit p)
      (hrefused : Refused (threadItems m.tid p) m) : ReadOutcome ms (.err e)
  /-- The first one that does not fit is not refused either. -/
  | panic {p q : List DataMessage} {m : DataMessage} {msg : String} (hms : ms = p ++ m :: q) (hfits : AllFit p)
      (hmisfit : ¬ (Fits (threadItems m.tid p) m ∧ openers (p ++ [m]) < 2 ^ 32))
      (hrefused : ¬ Refused (threadItems m.tid p) m) : ReadOutcome ms (.panic msg)

/-- **All messages.** -/
theorem read_spec {pre : List DataMessage} {lifetime : ThreadNumber → ThreadId × ℕ} {s : Reader} (h : Reads pre lifetime s)
    (hpre : AllFit pre) (ms : List DataMessage) : ReadOutcome (pre ++ ms) (s.read ms) := by
  induction ms generalizing pre lifetime s with
  | nil =>
    rw [List.append_nil]
    exact .ok hpre h
  | cons m ms ih =>
    rw [Reader.read]
    have hstep := step_spec h m
    generalize s.step m = o at hstep
    cases hstep with
    | @ok s' lifetime' hfits hreads =>
      rw [show pre ++ m :: ms = (pre ++ [m]) ++ ms by simp]
      exact ih hreads (hpre.snoc ⟨hfits, hreads.fits⟩)
    | err hrefused => exact .err rfl hpre hrefused
    | panic hfits hrefused => exact .panic rfl hpre hfits hrefused

theorem read_new_spec (ms : List DataMessage) : ReadOutcome ms (Reader.new.read ms) :=
  read_spec (Reads.new fun _ => (0, 0)) .nil ms

/-! ### Well-bracketed logs -/

/-- In a well-bracketed log every message fits. -/
theorem WellBracketed.fits {ms p q : List DataMessage} {m : DataMessage} (h : WellBracketed ms) (hms : ms = p ++ m :: q) :
    Fits (threadItems m.tid p) m := by
  have hbalanced := h m.tid
  obtain ⟨rest, hrest⟩ : ∃ rest, threadItems m.tid ms = threadItems m.tid p ++ (m, openers p) :: rest := by
    rw [hms, threadItems_append, numbered, List.filter_cons, if_pos (by simp)]
    exact ⟨_, rfl⟩
  rw [hrest] at hbalanced
  have hcheck := hbalanced.check_nil
  obtain ⟨marks, -, -, hscan⟩ := hbalanced.scan
  have hwhole := hscan []
  rw [scan_append, Option.bind_eq_some_iff] at hwhole
  obtain ⟨st, hst, -⟩ := hwhole
  have hpending := scan_eq_some_iff.1 hst
  obtain ⟨hkeys, hmarks⟩ := hpending.check hcheck
  unfold Fits
  cases htoken : m.token with
  | opening key => trivial
  | skip => trivial
  | mark =>
    obtain ⟨hne, -⟩ := (check_mark (show tok (m, openers p) = .mark from htoken) _ _).1 hkeys
    cases st with
    | nil => exact absurd rfl hne
    | cons x st =>
      have hopener := hpending.isOpener (x := x) List.mem_cons_self
      refine ⟨x, hpending.mem List.mem_cons_self, fun hskip => ?_⟩
      rw [hskip] at hopener
      cases hopener
  | closing key =>
    obtain ⟨keys, hkeys'⟩ := eq_of_check_closing (show tok (m, openers p) = .closing key from htoken) hkeys
    exact ⟨st, hpending, by rw [hkeys']; rfl⟩

theorem WellBracketed.read {ms : List DataMessage} (h : WellBracketed ms) (hroom : openers ms < 2 ^ 32) :
    ∃ s', Reader.new.read ms = .ok s' := by
  have hspec := read_new_spec ms
  generalize Reader.new.read ms = o at hspec
  cases hspec with
  | ok hfits hreads => exact ⟨_, rfl⟩
  | err hms hfits hrefused => exact absurd hrefused (not_refused_of_fits (h.fits hms))
  | @panic p q m msg hms hfits hmisfit hrefused =>
    refine absurd ⟨h.fits hms, ?_⟩ hmisfit
    rw [hms, show p ++ m :: q = (p ++ [m]) ++ q by simp, openers_append] at hroom
    omega

/-- **When a log is accepted as documented**, i.e. if and only if it is well bracketed: if it is well bracketed and there
are ids for its spans, or if the first message at which the loop does not go on is one that it returns an error for.
Otherwise the loop panics, or it accepts a log with a key-value entry outside of a scope or with a scope without an end. -/
theorem acceptance_iff (ms : List DataMessage) :
    ((WellBracketed ms → ∃ tree, LogDataTree.fromLogdata ms = .ok tree) ∧
        (¬ WellBracketed ms → ∃ e, LogDataTree.fromLogdata ms = .err e)) ↔
      (WellBracketed ms ∧ openers ms < 2 ^ 32) ∨
        ∃ p m q, ms = p ++ m :: q ∧ AllFit p ∧ Refused (threadItems m.tid p) m := by
  have hspec := read_new_spec ms
  constructor
  · rintro ⟨hok, herr⟩
    cases hread : Reader.new.read ms with
    | ok s' =>
      rw [hread] at hspec
      cases hspec with
      | ok hfits hreads =>
        left
        refine ⟨?_, hreads.fits⟩
        by_contra hnot
        obtain ⟨e, he⟩ := herr hnot
        rw [LogDataTree.fromLogdata, hread] at he
        cases he
    | err e =>
      rw [hread] at hspec
      cases hspec with
      | err hms hfits hrefused => exact .inr ⟨_, _, _, hms, hfits, hrefused⟩
    | panic msg =>
      have hpanic : LogDataTree.fromLogdata ms = .panic msg := by
        rw [LogDataTree.fromLogdata, hread]
        rfl
      by_cases hwell : WellBracketed ms
      · obtain ⟨tree, htree⟩ := hok hwell
        cases htree.symm.trans hpanic
      · obtain ⟨e, he⟩ := herr hwell
        cases he.symm.trans hpanic
  · rintro (⟨hwell, hroom⟩ | ⟨p, m, q, hms, hfits, hrefused⟩)
    · refine ⟨fun _ => ?_, fun hnot => absurd hwell hnot⟩
      obtain ⟨s', hs'⟩ := hwell.read hroom
      exact ⟨s'.tree, by rw [LogDataTree.fromLogdata, hs']; rfl⟩
    · refine ⟨fun hwell => absurd hrefused (not_refused_of_fits (hwell.fits hms)), fun _ => ?_⟩
      have hmisfit : ¬ (Fits (threadItems m.tid p) m ∧ openers (p ++ [m]) < 2 ^ 32) :=
        fun hfit => not_refused_of_fits hfit.1 hrefused
      cases hread : Reader.new.read ms with
      | ok s' =>
        rw [hread] at hspec
        cases hspec with
        | ok hfits' hreads => exact absurd (hfits' p m q hms) hmisfit
      | err e => exact ⟨e, by rw [LogDataTree.fromLogdata, hread]; rfl⟩
      | panic msg =>
        rw [hread] at hspec
        cases hspec with
        | panic hms' hfits' hmisfit' hrefused' =>
          obtain ⟨rfl, rfl⟩ := AllFit.misfit_unique (hms.symm.trans hms') hfits hfits' hmisfit hmisfit'
          exact absurd hrefused hrefused'

/-- A timing with the given probe name and thread. -/
def sampleTiming (pn : String) (tid : ThreadId) : Timing where
  pn := pn
  pid := 1
  tid := tid
  n := none
  r := ⟨0, 0⟩
  u := ⟨0, 0⟩
  s := ⟨0, 0⟩
  maxrss := none
  minflt := none
  majflt := none
  inblock := none
  oublock := none
  nvcsw := none
  nivcsw := none

/-- A log is accepted that ends as it should, while a second thread has not ended. -/
theorem truncated_log_accepted :
    let ms : List DataMessage := [.timing .tStart (sampleTiming "main" 1), .timing .tThreadStart (sampleTiming "w" 2),
      .timing .tEnd (sampleTiming "main" 1)]
    ¬ ((WellBracketed ms → ∃ tree, LogDataTree.fromLogdata ms = .ok tree) ∧
        (¬ WellBracketed ms → ∃ e, LogDataTree.fromLogdata ms = .err e)) := by
  intro ms
  have hnot : ¬ WellBracketed ms := by decide +kernel
  rintro ⟨-, herr⟩
  obtain ⟨e, he⟩ := herr hnot
  cases he

end Evobench.Evaluator

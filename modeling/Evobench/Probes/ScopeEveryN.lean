import Evobench.Evaluator.AllFieldsTable

/-!
# Scopes that are logged every so many times

A site `EVOBENCH_SCOPE_EVERY(n, ..)` has a counter in each thread. An execution of the site makes an object, whose
constructor looks at the counter, and whose destructor runs at the end of the scope. The object remembers whether its
constructor has logged a start. What is executed in the scope may get to the site again, with an object of its own and the
same counter.

## The model

* `ScopeEveryN.construct`, `ScopeEveryN.destruct`, `Scope.construct`, `Scope.destruct`: what constructors and destructors do.
* `Exec`: what a thread executes, scopes inside of scopes. `Thread.run`: the counters and the log after it.
* `Exec.logged`: the specification, by the numbers of the executions: those whose number is a multiple of `n`, counted from
  zero, log a start with weight `n` and an end.

## What is proved

* `Thread.ran_run`: a thread logs what is specified, and it is well bracketed.
* `weight_logged`: the weights of the starts, by how many executions there have been.

The main result is `samples_fairly`.

## Honest scope

Logging stays as it is, enabled or not. Key-value entries and points are left out. Who has logged an entry is noted with it,
but is not part of the log.
-/

namespace Evobench.Probes

open Library Evaluator StatsTables

/-! ### Probes -/

/-- What `_log_any` is called with. -/
structure Record where
  /-- The name of the probe. -/
  probeName : String
  /-- The kind of the point. -/
  kind : PointKind
  /-- How many calls the entry represents. -/
  numCalls : UInt32
deriving DecidableEq

/-- A probe with its `every_n`. -/
structure Site where
  /-- The name of the probe. -/
  probeName : String
  /-- One in so many executions is logged. -/
  everyN : UInt32
  /-- At least one. -/
  pos : 0 < everyN

/-- An entry of the log, with the site that it is of. -/
structure Entry (ι : Type) where
  /-- The site, if it is of one. -/
  site : Option ι
  /-- The entry itself. -/
  record : Record
deriving DecidableEq

/-- What a thread keeps. -/
structure Thread (ι : Type) where
  /-- `__evobench_scope_every_n_skip`, for each site -/
  skip : ι → UInt32
  /-- The log. -/
  log : List (Entry ι)

/-- The object of a site. -/
structure ScopeEveryN where
  /-- Whether its constructor has logged a start. -/
  logThisTime : Bool

/-- What a thread executes: scopes, with what is executed inside of them, and what comes after. -/
inductive Exec (ι : Type) where
  /-- Nothing more. -/
  | done
  /-- `EVOBENCH_SCOPE_EVERY` -/
  | every (site : ι) (body rest : Exec ι)
  /-- `EVOBENCH_SCOPE` -/
  | scope (probeName : String) (body rest : Exec ι)

section Probes

variable {ι : Type} [DecidableEq ι] (sites : ι → Site) (isEnabled : Bool) (flushes : List (Entry ι) → Bool)

/-- `_log_any`, and what it adds when the buffer has been flushed. -/
def logAny (site : Option ι) (record : Record) (log : List (Entry ι)) : List (Entry ι) :=
  let log := log ++ [⟨site, record⟩]
  if flushes log then log ++ [⟨none, ⟨record.probeName, .tio, 1⟩⟩] else log

/-- `ScopeEveryN::ScopeEveryN` -/
def ScopeEveryN.construct (i : ι) (t : Thread ι) : ScopeEveryN × Thread ι :=
  if isEnabled then
    if 0 < t.skip i then (⟨false⟩, ⟨Function.update t.skip i (t.skip i - 1), t.log⟩)
    else (⟨true⟩, ⟨Function.update t.skip i ((sites i).everyN - 1),
      logAny flushes (some i) ⟨(sites i).probeName, .ts, (sites i).everyN⟩ t.log⟩)
  else (⟨false⟩, t)

/-- `ScopeEveryN::~ScopeEveryN` -/
def ScopeEveryN.destruct (i : ι) (object : ScopeEveryN) (t : Thread ι) : Thread ι :=
  if isEnabled && object.logThisTime then
    ⟨t.skip, logAny flushes (some i) ⟨(sites i).probeName, .te, 0⟩ t.log⟩
  else t

omit [DecidableEq ι] in
/-- `Scope::Scope` -/
def Scope.construct (probeName : String) (t : Thread ι) : Thread ι :=
  if isEnabled then ⟨t.skip, logAny flushes none ⟨probeName, .ts, 1⟩ t.log⟩ else t

omit [DecidableEq ι] in
/-- `Scope::~Scope` -/
def Scope.destruct (probeName : String) (t : Thread ι) : Thread ι :=
  if isEnabled then ⟨t.skip, logAny flushes none ⟨probeName, .te, 0⟩ t.log⟩ else t

/-- A thread at its beginning. -/
def Thread.start : Thread ι := ⟨fun _ => 0, []⟩

/-- What a thread does. -/
def Thread.run : Exec ι → Thread ι → Thread ι
  | .done, t => t
  | .every i body rest, t =>
    let (object, t) := ScopeEveryN.construct sites isEnabled flushes i t
    let t := run body t
    let t := object.destruct sites isEnabled flushes i t
    run rest t
  | .scope probeName body rest, t =>
    let t := Scope.construct isEnabled flushes probeName t
    let t := run body t
    let t := Scope.destruct isEnabled flushes probeName t
    run rest t

/-! ### What is to be logged -/

/-- The number of executions of a site. -/
def Exec.count (i : ι) : Exec ι → ℕ
  | .done => 0
  | .every j body rest => (if j = i then 1 else 0) + body.count i + rest.count i
  | .scope _ body rest => body.count i + rest.count i

/-- The numbers of executions so far, after one more. -/
def after (k : ι → ℕ) (e : Exec ι) : ι → ℕ := fun i => k i + e.count i

/-- What is to be logged, after as many executions of each site as `k` says. -/
def Exec.logged : Exec ι → (ι → ℕ) → List (Entry ι)
  | .done, _ => []
  | .every i body rest, k =>
    let inside := body.logged (Function.update k i (k i + 1))
    (if (sites i).everyN.toNat ∣ k i then
      ⟨some i, ⟨(sites i).probeName, .ts, (sites i).everyN⟩⟩ ::
        (inside ++ [⟨some i, ⟨(sites i).probeName, .te, 0⟩⟩])
    else inside) ++ rest.logged (after (Function.update k i (k i + 1)) body)
  | .scope probeName body rest, k =>
    ⟨none, ⟨probeName, .ts, 1⟩⟩ :: (body.logged k ++ ⟨none, ⟨probeName, .te, 0⟩⟩ :: rest.logged (after k body))

end Probes

/-! ### The counters -/

section Counters

variable {ι : Type} [DecidableEq ι] {sites : ι → Site} {t : Thread ι} {k : ι → ℕ}

/-- After as many executions as `k` says, the next one to be logged comes when the counter is at zero. -/
def Skips (sites : ι → Site) (t : Thread ι) (k : ι → ℕ) : Prop :=
  ∀ i, (t.skip i).toNat < (sites i).everyN.toNat ∧ (sites i).everyN.toNat ∣ k i + (t.skip i).toNat

omit [DecidableEq ι] in
theorem everyN_pos (site : Site) : 0 < site.everyN.toNat := UInt32.lt_iff_toNat_lt.1 site.pos

omit [DecidableEq ι] in
theorem skips_start : Skips sites .start fun _ => 0 :=
  fun i => ⟨everyN_pos (sites i), by simp [Thread.start]⟩

omit [DecidableEq ι] in
/-- Executions are logged when the counter is at zero. -/
theorem Skips.dvd_iff (h : Skips sites t k) (i : ι) : (sites i).everyN.toNat ∣ k i ↔ ¬ 0 < t.skip i := by
  obtain ⟨hlt, hdvd⟩ := h i
  rw [UInt32.lt_iff_toNat_lt]
  constructor
  · intro hk hpos
    have hskip := (Nat.dvd_add_right hk).1 hdvd
    exact absurd (Nat.le_of_dvd hpos hskip) (Nat.not_le.2 hlt)
  · intro hzero
    rwa [show (t.skip i).toNat = 0 from Nat.eq_zero_of_not_pos hzero, Nat.add_zero] at hdvd

/-- An execution more, with a new value of the counter of its site. -/
theorem Skips.update (h : Skips sites t k) {i : ι} {skip : UInt32} (hlt : skip.toNat < (sites i).everyN.toNat)
    (hdvd : (sites i).everyN.toNat ∣ k i + 1 + skip.toNat) (log : List (Entry ι)) :
    Skips sites ⟨Function.update t.skip i skip, log⟩ (Function.update k i (k i + 1)) := by
  intro j
  by_cases hj : j = i
  · subst hj
    simpa using ⟨hlt, hdvd⟩
  · simpa [hj] using h j

theorem Skips.skipped (h : Skips sites t k) {i : ι} (hpos : 0 < t.skip i) (log : List (Entry ι)) :
    Skips sites ⟨Function.update t.skip i (t.skip i - 1), log⟩ (Function.update k i (k i + 1)) := by
  obtain ⟨hlt, hdvd⟩ := h i
  have hpos' : 1 ≤ t.skip i := by
    rw [UInt32.le_iff_toNat_le]
    exact UInt32.lt_iff_toNat_lt.1 hpos
  have hsub : (t.skip i - 1).toNat = (t.skip i).toNat - 1 := UInt32.toNat_sub_of_le _ _ hpos'
  have hone : 1 ≤ (t.skip i).toNat := UInt32.le_iff_toNat_le.1 hpos'
  refine h.update (by omega) ?_ log
  rwa [hsub, show k i + 1 + ((t.skip i).toNat - 1) = k i + (t.skip i).toNat by omega]

theorem Skips.logged (h : Skips sites t k) {i : ι} (hzero : ¬ 0 < t.skip i) (log : List (Entry ι)) :
    Skips sites ⟨Function.update t.skip i ((sites i).everyN - 1), log⟩ (Function.update k i (k i + 1)) := by
  have hpos := everyN_pos (sites i)
  have hsub : ((sites i).everyN - 1).toNat = (sites i).everyN.toNat - 1 :=
    UInt32.toNat_sub_of_le _ _ (UInt32.le_iff_toNat_le.2 hpos)
  refine h.update (by omega) ?_ log
  rw [hsub, show k i + 1 + ((sites i).everyN.toNat - 1) = k i + (sites i).everyN.toNat by omega]
  exact Nat.dvd_add ((h.dvd_iff i).2 hzero) (Nat.dvd_refl _)

end Counters

/-! ### The log -/

section Log

variable {ι : Type}

/-- The timing that is written for an entry, with what is measured besides. -/
def Entry.timing (x : Entry ι) (usage : Timing) : Timing :=
  { usage with pn := x.record.probeName, n := some x.record.numCalls }

/-- An entry as an element of a bracketed sequence. -/
def Entry.token (x : Entry ι) : Token (ScopeKind × String) :=
  match PointDispatch.fromPointKind x.record.kind with
  | .scope kind false => .opening (kind, x.record.probeName)
  | .scope kind true => .closing (kind, x.record.probeName)
  | .t => .skip
  | .tio => .skip

/-- It is the one that the message is for the evaluator. -/
theorem token_timing (x : Entry ι) (usage : Timing) :
    (DataMessage.timing x.record.kind (x.timing usage)).token = x.token := rfl

/-- Entries that are not about flushing. -/
def isProbe (x : Entry ι) : Bool := x.record.kind ≠ .tio

/-- `new` is well bracketed, and is as expected but for what is about flushing. -/
structure LoggedAs (expected new : List (Entry ι)) : Prop where
  /-- The entries. -/
  entries : new.filter isProbe = expected
  /-- The brackets. -/
  balanced : Balanced Entry.token false new

theorem LoggedAs.nil : LoggedAs ([] : List (Entry ι)) [] := ⟨rfl, .nil⟩

theorem LoggedAs.append {expected expected' new new' : List (Entry ι)} (h : LoggedAs expected new)
    (h' : LoggedAs expected' new') : LoggedAs (expected ++ expected') (new ++ new') :=
  ⟨by rw [List.filter_append, h.entries, h'.entries], h.balanced.append h'.balanced⟩

/-- Entries about flushing. -/
theorem LoggedAs.of_tio {tail : List (Entry ι)} (h : ∀ x ∈ tail, x.record.kind = .tio) : LoggedAs [] tail := by
  refine ⟨List.filter_eq_nil_iff.2 fun x hx => by simp [isProbe, h x hx], .of_skip fun x hx => ?_⟩
  simp [Entry.token, PointDispatch.fromPointKind, h x hx]

/-- A start and an end around what has been logged. -/
theorem LoggedAs.scope {expected expected' new new' : List (Entry ι)} (h : LoggedAs expected new)
    (h' : LoggedAs expected' new') (site : Option ι) (probeName : String) (n : UInt32) :
    LoggedAs (⟨site, ⟨probeName, .ts, n⟩⟩ :: (expected ++ ⟨site, ⟨probeName, .te, 0⟩⟩ :: expected'))
      (⟨site, ⟨probeName, .ts, n⟩⟩ :: (new ++ ⟨site, ⟨probeName, .te, 0⟩⟩ :: new')) := by
  refine ⟨?_, .scope rfl h.balanced.inside rfl h'.balanced⟩
  rw [List.filter_cons_of_pos rfl, List.filter_append, List.filter_cons_of_pos rfl, h.entries, h'.entries]

/-- `_log_any` logs its entry, and perhaps something about flushing. -/
theorem exists_logAny (flushes : List (Entry ι) → Bool) (site : Option ι) (record : Record) (log : List (Entry ι)) :
    ∃ tail, logAny flushes site record log = log ++ ⟨site, record⟩ :: tail ∧ LoggedAs [] tail := by
  unfold logAny
  dsimp only
  split_ifs
  · refine ⟨[⟨none, ⟨record.probeName, .tio, 1⟩⟩], by simp, .of_tio fun x hx => ?_⟩
    rw [List.mem_singleton.1 hx]
  · exact ⟨[], rfl, .nil⟩

end Log

/-! ### Runs -/

section Runs

variable {ι : Type} [DecidableEq ι] {sites : ι → Site} {flushes : List (Entry ι) → Bool} {t : Thread ι} {k : ι → ℕ}

/-- What has happened between two states of a thread. -/
structure Ran (sites : ι → Site) (expected : List (Entry ι)) (k' : ι → ℕ) (t t' : Thread ι) : Prop where
  /-- The counters. -/
  skips : Skips sites t' k'
  /-- The log. -/
  logs : ∃ new, t'.log = t.log ++ new ∧ LoggedAs expected new

omit [DecidableEq ι] in
/-- A start, what is inside, an end, and what comes after. -/
theorem Ran.scope {expected expected' : List (Entry ι)} {k k' : ι → ℕ} {t t₁ t₂ t₃ t₄ : Thread ι} {site : Option ι}
    {probeName : String} {n : UInt32} (hstart : t₁.log = logAny flushes site ⟨probeName, .ts, n⟩ t.log)
    (hbody : Ran sites expected k t₁ t₂) (hend : t₃.log = logAny flushes site ⟨probeName, .te, 0⟩ t₂.log)
    (hrest : Ran sites expected' k' t₃ t₄) :
    Ran sites (⟨site, ⟨probeName, .ts, n⟩⟩ :: (expected ++ ⟨site, ⟨probeName, .te, 0⟩⟩ :: expected')) k' t t₄ := by
  obtain ⟨-, new, hnew, hlogged⟩ := hbody
  obtain ⟨hskips, new', hnew', hlogged'⟩ := hrest
  obtain ⟨tail, htail, hflush⟩ := exists_logAny flushes site ⟨probeName, .ts, n⟩ t.log
  obtain ⟨tail', htail', hflush'⟩ := exists_logAny flushes site ⟨probeName, .te, 0⟩ t₂.log
  refine ⟨hskips, _, ?_, (hflush.append hlogged).scope (hflush'.append hlogged') site probeName n⟩
  rw [hnew', hend, htail', hnew, hstart, htail]
  simp

/-- **A thread logs what is specified.** -/
theorem Thread.ran_run (e : Exec ι) (h : Skips sites t k) :
    Ran sites (e.logged sites k) (after k e) t (Thread.run sites true flushes e t) := by
  induction e generalizing t k with
  | done => exact ⟨h, [], (List.append_nil _).symm, .nil⟩
  | every i body rest ihbody ihrest =>
    have hafter : after (after (Function.update k i (k i + 1)) body) rest = after k (.every i body rest) := by
      funext j
      by_cases hj : j = i
      · subst hj
        simp [after, Exec.count]
        omega
      · simp [after, Exec.count, hj, Ne.symm hj]
        omega
    rw [← hafter]
    by_cases hpos : 0 < t.skip i
    · -- neither a start nor an end
      obtain ⟨hskips, new, hnew, hlogged⟩ := ihbody (h.skipped hpos t.log)
      obtain ⟨hskips', new', hnew', hlogged'⟩ := ihrest hskips
      have hrun : Thread.run sites true flushes (.every i body rest) t =
          Thread.run sites true flushes rest (Thread.run sites true flushes body
            ⟨Function.update t.skip i (t.skip i - 1), t.log⟩) := by
        simp [Thread.run, ScopeEveryN.construct, ScopeEveryN.destruct, hpos]
      rw [hrun]
      refine ⟨hskips', new ++ new', by rw [hnew', hnew, List.append_assoc], ?_⟩
      rw [Exec.logged, if_neg fun hdvd => (h.dvd_iff i).1 hdvd hpos]
      exact hlogged.append hlogged'
    · have hbody := ihbody (h.logged hpos (logAny flushes (some i) ⟨(sites i).probeName, .ts, (sites i).everyN⟩ t.log))
      rw [Exec.logged, if_pos ((h.dvd_iff i).2 hpos)]
      simp only [Thread.run, ScopeEveryN.construct, ScopeEveryN.destruct, hpos, if_true, if_false, Bool.and_self,
        List.cons_append, List.append_assoc]
      exact .scope rfl hbody rfl (ihrest fun j => hbody.skips j)
  | scope probeName body rest ihbody ihrest =>
    have hafter : after (after k body) rest = after k (.scope probeName body rest) := by
      funext j
      simp [after, Exec.count, Nat.add_assoc]
    have hbody := ihbody (t := ⟨t.skip, logAny flushes none ⟨probeName, .ts, 1⟩ t.log⟩) fun j => h j
    rw [← hafter]
    simp only [Thread.run, Scope.construct, Scope.destruct, if_true, Exec.logged]
    exact .scope rfl hbody rfl (ihrest fun j => hbody.skips j)

end Runs

/-! ### The weights -/

section Weights

variable {ι : Type} [DecidableEq ι]

/-- The weights of the starts that a site has logged. -/
def weight (i : ι) (log : List (Entry ι)) : ℕ :=
  ((log.filter fun x => x.site = some i ∧ x.record.kind = .ts).map fun x => x.record.numCalls.toNat).sum

theorem weight_append (i : ι) (log log' : List (Entry ι)) : weight i (log ++ log') = weight i log + weight i log' := by
  simp [weight]

/-- A start and an end. -/
theorem weight_scope (i : ι) (site : Option ι) (probeName : String) (n : UInt32) (log log' : List (Entry ι)) :
    weight i (⟨site, ⟨probeName, .ts, n⟩⟩ :: (log ++ ⟨site, ⟨probeName, .te, 0⟩⟩ :: log')) =
      (if site = some i then n.toNat else 0) + weight i log + weight i log' := by
  by_cases hsite : site = some i
  · simp [weight, hsite, Nat.add_assoc]
  · simp [weight, hsite]

/-- The multiples of `n` up to `k`, not including it, each by `n`. -/
def multiples (n k : ℕ) : ℕ := n * ((k + (n - 1)) / n)

theorem multiples_succ {n : ℕ} (hn : 0 < n) (k : ℕ) :
    multiples n (k + 1) = multiples n k + if n ∣ k then n else 0 := by
  have hnext : (k + 1 + (n - 1)) / n = k / n + 1 := by
    rw [show k + 1 + (n - 1) = k + n by omega, Nat.add_div_right k hn]
  rw [multiples, multiples, hnext]
  split_ifs with hdvd
  · obtain ⟨m, rfl⟩ := hdvd
    have hlast : (n * m + (n - 1)) / n = m := by
      rw [Nat.mul_add_div hn, Nat.div_eq_of_lt (Nat.sub_lt hn Nat.one_pos), Nat.add_zero]
    rw [Nat.mul_div_cancel_left m hn, hlast, Nat.mul_succ]
  · -- the next multiple has been counted already
    have hdiv := Nat.div_add_mod k n
    have hmod := Nat.mod_lt k hn
    have hpos : 0 < k % n := Nat.pos_of_ne_zero fun h => hdvd (Nat.dvd_of_mod_eq_zero h)
    have hsplit : k + (n - 1) = n * (k / n + 1) + (k % n - 1) := by
      rw [Nat.mul_succ]
      omega
    have hlast : (k + (n - 1)) / n = k / n + 1 := by
      rw [hsplit, Nat.mul_add_div hn, Nat.div_eq_of_lt (show k % n - 1 < n by omega), Nat.add_zero]
    simp [hlast]

theorem multiples_bounds {n : ℕ} (hn : 0 < n) (k : ℕ) : k ≤ multiples n k ∧ multiples n k < k + n := by
  have hdiv := Nat.div_add_mod (k + (n - 1)) n
  have hmod := Nat.mod_lt (k + (n - 1)) hn
  rw [multiples]
  omega

/-- **Weights**, from one number of executions to another. -/
theorem weight_logged (sites : ι → Site) (i : ι) (e : Exec ι) (k : ι → ℕ) :
    weight i (e.logged sites k) + multiples (sites i).everyN.toNat (k i) =
      multiples (sites i).everyN.toNat (k i + e.count i) := by
  induction e generalizing k with
  | done => simp [Exec.logged, weight, Exec.count]
  | every j body rest ihbody ihrest =>
    have hbody := ihbody (Function.update k j (k j + 1))
    have hrest := ihrest (after (Function.update k j (k j + 1)) body)
    simp only [after] at hrest
    -- what the execution itself has logged
    have hown : weight i ((Exec.every j body rest).logged sites k) =
        (if j = i ∧ (sites j).everyN.toNat ∣ k j then (sites j).everyN.toNat else 0) +
          weight i (body.logged sites (Function.update k j (k j + 1))) +
          weight i (rest.logged sites (after (Function.update k j (k j + 1)) body)) := by
      rw [Exec.logged, weight_append]
      by_cases hdvd : (sites j).everyN.toNat ∣ k j
      · rw [if_pos hdvd, weight_scope]
        simp [hdvd, weight]
      · simp [hdvd]
    rw [hown, Exec.count]
    by_cases hj : j = i
    · subst hj
      have hsucc := multiples_succ (everyN_pos (sites j)) (k j)
      simp only [Function.update_self] at hbody hrest
      simp only [true_and, if_true]
      rw [← Nat.add_assoc, ← Nat.add_assoc, ← hrest, ← hbody, hsucc]
      omega
    · simp only [Function.update_of_ne (Ne.symm hj)] at hbody hrest
      simp only [hj, false_and, if_false, Nat.zero_add]
      rw [← Nat.add_assoc, ← hrest, ← hbody]
      omega
  | scope probeName body rest ihbody ihrest =>
    have hbody := ihbody k
    have hrest := ihrest (after k body)
    simp only [after] at hrest
    rw [Exec.logged, weight_scope, Exec.count, ← Nat.add_assoc, ← hrest, ← hbody]
    simp only [reduceCtorEq, if_false]
    omega

end Weights

/-- What is about flushing has no weight. -/
theorem weight_filter_isProbe {ι : Type} [DecidableEq ι] (i : ι) (log : List (Entry ι)) :
    weight i (log.filter isProbe) = weight i log := by
  rw [weight, weight, List.filter_filter]
  congr 2
  refine List.filter_congr fun x _ => ?_
  by_cases hts : x.record.kind = .ts
  · simp [isProbe, hts]
  · simp [hts]

/-- A start has the weight of its site. -/
theorem numCalls_of_mem_logged {ι : Type} [DecidableEq ι] {sites : ι → Site} {e : Exec ι} {k : ι → ℕ} {x : Entry ι} {i : ι}
    (hx : x ∈ e.logged sites k) (hsite : x.site = some i) (hkind : x.record.kind = .ts) :
    x.record.numCalls = (sites i).everyN := by
  induction e generalizing k with
  | done => cases hx
  | every j body rest ihbody ihrest =>
    rw [Exec.logged] at hx
    rcases List.mem_append.1 hx with hx | hx
    · split_ifs at hx
      · rcases List.mem_cons.1 hx with rfl | hx
        · rw [Option.some.inj hsite]
        · rcases List.mem_append.1 hx with hx | hx
          · exact ihbody hx
          · rw [List.mem_singleton.1 hx] at hkind
            cases hkind
      · exact ihbody hx
    · exact ihrest hx
  | scope probeName body rest ihbody ihrest =>
    rw [Exec.logged] at hx
    rcases List.mem_cons.1 hx with rfl | hx
    · cases hsite
    · rcases List.mem_append.1 hx with hx | hx
      · exact ihbody hx
      · rcases List.mem_cons.1 hx with rfl | hx
        · cases hsite
        · exact ihrest hx

/-- What the evaluator weighs a scope with. -/
theorem weight_of_weightedValue {field : Field} {span : Span} {kind : ScopeKind} {number : ThreadNumber}
    {start end_ : Timing} {v : WeightedValue} (hdata : span.data = .scope kind number start (some end_))
    (h : weightedValue field span = .ok (some v)) : v.weight = start.count := by
  simp only [weightedValue, Span.startAndEnd, hdata, Outcome.ok_bind, Outcome.bind_eq_ok] at h
  obtain ⟨endValue, -, h⟩ := h
  cases endValue with
  | none => cases h
  | some endValue =>
    obtain ⟨startValue, -, h⟩ := Outcome.bind_eq_ok.1 h
    cases startValue with
    | none => cases h
    | some startValue =>
      dsimp only at h
      split_ifs at h with hle hpos
      cases h
      rfl

/-- **Sampling is fair**, whatever scopes there are inside of others, and whenever the buffer is flushed. A thread logs for
each site the executions number 1, n + 1, 2 n + 1 and so on, each with weight n, and nothing for the others. The log is well
bracketed. The weights that a site has logged are at least as many as its executions, and fewer than n more; and these are
the weights in the statistics. -/
theorem samples_fairly {ι : Type} [DecidableEq ι] (sites : ι → Site) (flushes : List (Entry ι) → Bool) (e : Exec ι) :
    let log := (Thread.run sites true flushes e .start).log
    log.filter isProbe = e.logged sites (fun _ => 0) ∧ Balanced Entry.token false log ∧
      ∀ i, e.count i ≤ weight i log ∧ weight i log < e.count i + (sites i).everyN.toNat ∧
        ∀ x ∈ log, x.site = some i → x.record.kind = .ts → ∀ (usage : Timing) (field : Field) (span : Span)
          (kind : ScopeKind) (number : ThreadNumber) (end_ : Timing) (v : WeightedValue),
          span.data = .scope kind number (x.timing usage) (some end_) → weightedValue field span = .ok (some v) →
          v.weight = (sites i).everyN := by
  intro log
  have hstart : Skips sites (.start : Thread ι) fun _ => 0 := skips_start
  obtain ⟨-, new, hnew, hentries, hbalanced⟩ : Ran sites _ _ _ (Thread.run sites true flushes e .start) :=
    Thread.ran_run e hstart
  have hlog : log = new := hnew
  have hlogged : log.filter isProbe = e.logged sites fun _ => 0 := by rw [hlog, hentries]
  refine ⟨hlogged, hlog ▸ hbalanced, fun i => ?_⟩
  have hweight := weight_logged sites i e fun _ => 0
  rw [← hlogged, weight_filter_isProbe, Nat.zero_add] at hweight
  have hzero : multiples (sites i).everyN.toNat 0 = 0 := by
    rw [multiples, Nat.zero_add, Nat.div_eq_of_lt (Nat.sub_lt (everyN_pos (sites i)) Nat.one_pos), Nat.mul_zero]
  rw [hzero, Nat.add_zero] at hweight
  obtain ⟨hle, hlt⟩ := multiples_bounds (everyN_pos (sites i)) (e.count i)
  rw [← hweight] at hle hlt
  refine ⟨hle, hlt, ?_⟩
  intro x hx hsite hkind usage field span kind number end_ v hdata hv
  have hmem : x ∈ e.logged sites fun _ => 0 := by
    rw [← hlogged]
    exact List.mem_filter.2 ⟨hx, by simp [isProbe, hkind]⟩
  have hcalls := numCalls_of_mem_logged hmem hsite hkind
  rw [weight_of_weightedValue hdata hv, Timing.count, Entry.timing, Option.getD_some, hcalls]

/-- A recursive function with a probe that logs every other call. -/
def sampleSite : Site := ⟨"fib|fib", 2, by decide⟩

/-- It is called, and calls itself twice. -/
def sampleCalls : Exec Unit := .every () (.every () .done (.every () .done .done)) .done

/-- What is measured. -/
def sampleUsage : Timing := ⟨"", 1, 1, none, ⟨0, 0⟩, ⟨0, 0⟩, ⟨0, 0⟩, none, none, none, none, none, none, none⟩

/-- The first and the third call are logged, each for two. -/
theorem samples_fairly_sample :
    ((Thread.run (fun _ => sampleSite) true (fun _ => false) sampleCalls .start).log.map Entry.record =
        [⟨"fib|fib", .ts, 2⟩, ⟨"fib|fib", .ts, 2⟩, ⟨"fib|fib", .te, 0⟩, ⟨"fib|fib", .te, 0⟩]) ∧
      (3 ≤ weight () (Thread.run (fun _ => sampleSite) true (fun _ => false) sampleCalls .start).log ∧
        weight () (Thread.run (fun _ => sampleSite) true (fun _ => false) sampleCalls .start).log < 3 + 2) ∧
      ∀ v, weightedValue .realTime ⟨none, [], .scope .scope 0
        ((⟨some (), ⟨"fib|fib", .ts, 2⟩⟩ : Entry Unit).timing sampleUsage) (some sampleUsage)⟩ = .ok (some v) →
        v.weight = 2 := by
  obtain ⟨-, -, hsite⟩ := samples_fairly (fun _ : Unit => sampleSite) (fun _ => false) sampleCalls
  obtain ⟨hle, hlt, hweight⟩ := hsite ()
  refine ⟨by decide +kernel, ⟨hle, hlt⟩, fun v hv => ?_⟩
  exact hweight ⟨some (), ⟨"fib|fib", .ts, 2⟩⟩ (by decide +kernel) rfl rfl sampleUsage .realTime _ .scope 0 sampleUsage v
    rfl hv

end Evobench.Probes

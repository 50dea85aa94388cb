import Evobench.Run.DaemonLoop

/-!
# Pairing of stop and start commands

`StopStartStatus::be` (src/run/stop_start_status.rs) keeps the command that was sent "stop" and still
has to be sent "start". Switching from one command to another is two invocations, and each may fail.

## What is proved

`stop_start_paired_iff`: over any sequence of calls, the recorded command is always the one whose last
successful invocation was "stop" exactly if no call sends "start" with success to the old command and
then fails to send "stop" to the new one. After such a call the old command stays recorded, though it
has been started (`started_twice`).
-/

namespace Evobench.Run

open Library IoUtils

/-- The outside calls made, with their answers, the latest one first. -/
abbrev CallLog := List (Σ x : Call, Answer x)

/-- The invocation of a `stop_start` command that succeeded. -/
def succeeded : (Σ x : Call, Answer x) → Option (List String)
  | ⟨.stopStart sent, answer⟩ => match (answer : Except CallError Unit) with
    | .ok _ => some sent
    | .error _ => none
  | _ => none

/-- The last successful invocation of the command was "stop". -/
def IsStopped (cmd : List String) (log : CallLog) : Prop :=
  ((log.filterMap succeeded).find? fun sent => sent = cmd ++ ["stop"] ∨ sent = cmd ++ ["start"]) =
    some (cmd ++ ["stop"])

instance (cmd : List String) (log : CallLog) : Decidable (IsStopped cmd log) :=
  inferInstanceAs (Decidable (_ = _))

theorem isStopped_nil (cmd : List String) : ¬ IsStopped cmd [] := by
  intro h
  cases h

theorem append_stop_ne_start (cmd cmd' : List String) : cmd ++ ["stop"] ≠ cmd' ++ ["start"] := by
  intro h
  have hlast := congrArg List.getLast? h
  simp at hlast

theorem isStopped_stop {cmd cmd' : List String} {log : CallLog} :
    IsStopped cmd (⟨.stopStart (cmd' ++ ["stop"]), .ok ()⟩ :: log) ↔ cmd = cmd' ∨ IsStopped cmd log := by
  have hcons : (⟨.stopStart (cmd' ++ ["stop"]), .ok ()⟩ :: log : CallLog).filterMap succeeded =
      (cmd' ++ ["stop"]) :: log.filterMap succeeded := rfl
  unfold IsStopped
  rw [hcons, List.find?_cons]
  by_cases h : cmd = cmd'
  · simp [h]
  · have hne : ¬ (cmd' ++ ["stop"] = cmd ++ ["stop"] ∨ cmd' ++ ["stop"] = cmd ++ ["start"]) := by
      rintro (hstop | hstart)
      · exact h (List.append_cancel_right hstop).symm
      · exact append_stop_ne_start _ _ hstart
    simp only [decide_eq_false hne, h, false_or]

theorem isStopped_start {cmd cmd' : List String} {log : CallLog} :
    IsStopped cmd (⟨.stopStart (cmd' ++ ["start"]), .ok ()⟩ :: log) ↔ cmd ≠ cmd' ∧ IsStopped cmd log := by
  have hcons : (⟨.stopStart (cmd' ++ ["start"]), .ok ()⟩ :: log : CallLog).filterMap succeeded =
      (cmd' ++ ["start"]) :: log.filterMap succeeded := rfl
  unfold IsStopped
  rw [hcons, List.find?_cons]
  by_cases h : cmd = cmd'
  · subst h
    have hne := append_stop_ne_start cmd cmd
    simp [Ne.symm hne]
  · have hne : ¬ (cmd' ++ ["start"] = cmd ++ ["stop"] ∨ cmd' ++ ["start"] = cmd ++ ["start"]) := by
      rintro (hstop | hstart)
      · exact append_stop_ne_start _ _ hstop.symm
      · exact h (List.append_cancel_right hstart).symm
    simp only [decide_eq_false hne, ne_eq, h, not_false_eq_true, true_and]

/-! ### One invocation -/

/-- A command, if there is one, is invoked in a world: the outcome, and the outside calls made. -/
inductive Invoked (w : EvoWorld) (startStop : String) : Option (List String) → Outcome Error Unit → CallLog → Prop where
  /-- There is no command. -/
  | none : Invoked w startStop none (.ok ()) []
  /-- The assertion. -/
  | empty {msg : String} : Invoked w startStop (some []) (.panic msg) []
  /-- The command succeeds. -/
  | ok {cmd : List String} (hne : cmd ≠ []) (hanswer : w.event.answer (.stopStart (cmd ++ [startStop])) = .ok ()) :
    Invoked w startStop (some cmd) (.ok ()) [⟨.stopStart (cmd ++ [startStop]), .ok ()⟩]
  /-- The command fails. -/
  | err {cmd : List String} {e : CallError} (hne : cmd ≠ [])
    (hanswer : w.event.answer (.stopStart (cmd ++ [startStop])) = .error e) :
    Invoked w startStop (some cmd) (.err (.call e)) [⟨.stopStart (cmd ++ [startStop]), .error e⟩]

theorem run_runCommand {cmd : List String} (h : cmd ≠ []) (startStop : String) (pid : Pid) (w : EvoWorld) :
    (RunContext.runCommand cmd startStop).run (machine pid) w =
      (Prog.ofExcept (Except.mapError Error.call
        (w.event.answer (.stopStart (cmd ++ [startStop])) : Except CallError Unit)) : Evo Unit).run (machine pid)
        { w.next w.disk with
          calls := ⟨.stopStart (cmd ++ [startStop]), w.event.answer (.stopStart (cmd ++ [startStop]))⟩ :: w.calls } := by
  rw [RunContext.runCommand, if_neg h]
  rfl

theorem invoked_of_run {cmd : Option (List String)} {startStop : String} {pid : Pid} {w w' : EvoWorld}
    {r : Outcome Error Unit} (h : (RunContext.runCommandOf cmd startStop).run (machine pid) w = some (r, w')) :
    ∃ made, Invoked w startStop cmd r made ∧ w'.calls = made ++ w.calls ∧ w'.env = w.env ∧
      w'.tick = w.tick + made.length := by
  cases cmd with
  | none =>
    cases h
    exact ⟨[], .none, rfl, rfl, rfl⟩
  | some cmd =>
    by_cases hne : cmd = []
    · subst hne
      cases h
      exact ⟨[], .empty, rfl, rfl, rfl⟩
    · rw [RunContext.runCommandOf, run_runCommand hne] at h
      cases hanswer : (w.event.answer (.stopStart (cmd ++ [startStop])) : Except CallError Unit) with
      | ok u =>
        rw [hanswer] at h
        cases h
        exact ⟨_, .ok hne hanswer, rfl, rfl, rfl⟩
      | error e =>
        rw [hanswer] at h
        cases h
        exact ⟨_, .err hne hanswer, rfl, rfl, rfl⟩

/-! ### One call -/

/-- A call of `be`: the process, the requested command, and the world at that time. -/
structure BeCall where
  /-- The process. -/
  pid : Pid
  /-- The argument. -/
  stopStart : Option (List String)
  /-- What the outside is going to do. -/
  world : EvoWorld

namespace BeCall

/-- The call ends with an outcome, having made outside calls. -/
def Returns (call : BeCall) (context : RunContext) (r : Outcome Error RunContext) (made : CallLog) : Prop :=
  ∃ w', (context.stopStartBe call.stopStart).run (machine call.pid) call.world = some (r, w') ∧
    w'.calls = made ++ call.world.calls

/-- The world after the first invocation. -/
def Second (call : BeCall) (made : CallLog) (w : EvoWorld) : Prop :=
  w.env = call.world.env ∧ w.tick = call.world.tick + made.length

/-- **What a call does.** -/
theorem returns_cases {call : BeCall} {context : RunContext} {r : Outcome Error RunContext} {made : CallLog}
    (h : call.Returns context r made) :
    (call.stopStart = context.currentStopStart ∧ r = .ok context ∧ made = []) ∨
      (call.stopStart ≠ context.currentStopStart ∧ ∃ r₁ made₁,
        Invoked call.world "start" context.currentStopStart r₁ made₁ ∧
        ((r₁ ≠ .ok () ∧ r.isOk = false ∧ made = made₁) ∨
          (r₁ = .ok () ∧ ∃ w r₂ made₂, call.Second made₁ w ∧ Invoked w "stop" call.stopStart r₂ made₂ ∧
            made = made₂ ++ made₁ ∧
            ((r₂ ≠ .ok () ∧ r.isOk = false) ∨
              (r₂ = .ok () ∧ r = .ok { context with currentStopStart := call.stopStart }))))) := by
  obtain ⟨w', hrun, hmade⟩ := h
  unfold RunContext.stopStartBe at hrun
  by_cases hsame : call.stopStart = context.currentStopStart
  · rw [if_pos hsame] at hrun
    cases hrun
    exact .inl ⟨hsame, rfl, (List.append_cancel_right (show [] ++ _ = made ++ _ from hmade)).symm⟩
  · rw [if_neg hsame, Prog.run_bind, Option.bind_eq_some_iff] at hrun
    obtain ⟨⟨r₁, w₁⟩, hstart, hrest⟩ := hrun
    obtain ⟨made₁, hinvoked, hcalls, henv, htick⟩ := invoked_of_run hstart
    refine .inr ⟨hsame, r₁, made₁, hinvoked, ?_⟩
    cases r₁ with
    | err e =>
      cases hrest
      exact .inl ⟨nofun, rfl, List.append_cancel_right (hmade.symm.trans hcalls)⟩
    | panic msg =>
      cases hrest
      exact .inl ⟨nofun, rfl, List.append_cancel_right (hmade.symm.trans hcalls)⟩
    | ok u =>
      dsimp only at hrest
      rw [Prog.run_bind, Option.bind_eq_some_iff] at hrest
      obtain ⟨⟨r₂, w₂⟩, hstop, hend⟩ := hrest
      obtain ⟨made₂, hinvoked₂, hcalls₂, -, -⟩ := invoked_of_run hstop
      have hboth : w₂.calls = (made₂ ++ made₁) ++ call.world.calls := by
        rw [hcalls₂, hcalls, List.append_assoc]
      refine .inr ⟨rfl, w₁, r₂, made₂, ⟨henv, htick⟩, hinvoked₂, ?_, ?_⟩
      · cases r₂ with
        | err e =>
          cases hend
          exact List.append_cancel_right (hmade.symm.trans hboth)
        | panic msg =>
          cases hend
          exact List.append_cancel_right (hmade.symm.trans hboth)
        | ok u =>
          cases hend
          exact List.append_cancel_right (hmade.symm.trans hboth)
      · cases r₂ with
        | err e =>
          cases hend
          exact .inl ⟨nofun, rfl⟩
        | panic msg =>
          cases hend
          exact .inl ⟨nofun, rfl⟩
        | ok u =>
          cases hend
          exact .inr ⟨rfl, rfl⟩

/-- Every call returns. -/
theorem exists_returns (call : BeCall) (context : RunContext) : ∃ r made, call.Returns context r made := by
  have hinvoke : ∀ (cmd : Option (List String)) (startStop : String) (w : EvoWorld), ∃ r w' made,
      (RunContext.runCommandOf cmd startStop).run (machine call.pid) w = some (r, w') ∧ w'.calls = made ++ w.calls := by
    intro cmd startStop w
    have hrun : ∃ x, (RunContext.runCommandOf cmd startStop).run (machine call.pid) w = some x := by
      rcases cmd with _ | cmd
      · exact ⟨_, rfl⟩
      · by_cases hne : cmd = []
        · subst hne
          exact ⟨_, rfl⟩
        · rw [RunContext.runCommandOf, run_runCommand hne]
          cases (w.event.answer (.stopStart (cmd ++ [startStop])) : Except CallError Unit) with
          | ok u => exact ⟨_, rfl⟩
          | error e => exact ⟨_, rfl⟩
    obtain ⟨⟨r, w'⟩, hrun⟩ := hrun
    obtain ⟨made, -, hcalls, -⟩ := invoked_of_run hrun
    exact ⟨r, w', made, hrun, hcalls⟩
  unfold Returns RunContext.stopStartBe
  by_cases hsame : call.stopStart = context.currentStopStart
  · rw [if_pos hsame]
    exact ⟨_, [], _, rfl, rfl⟩
  · rw [if_neg hsame]
    obtain ⟨r₁, w₁, made₁, hrun₁, hcalls₁⟩ := hinvoke context.currentStopStart "start" call.world
    obtain ⟨r₂, w₂, made₂, hrun₂, hcalls₂⟩ := hinvoke call.stopStart "stop" w₁
    cases r₁ with
    | err e => exact ⟨.err e, made₁, w₁, by rw [Prog.run_bind, hrun₁]; rfl, hcalls₁⟩
    | panic msg => exact ⟨.panic msg, made₁, w₁, by rw [Prog.run_bind, hrun₁]; rfl, hcalls₁⟩
    | ok u =>
      have hcalls : w₂.calls = (made₂ ++ made₁) ++ call.world.calls := by
        rw [hcalls₂, hcalls₁, List.append_assoc]
      have hrest : ∀ f : Unit → Evo RunContext, (RunContext.runCommandOf context.currentStopStart "start" >>= fun _ =>
          RunContext.runCommandOf call.stopStart "stop" >>= f).run (machine call.pid) call.world =
          (RunContext.runCommandOf call.stopStart "stop" >>= f).run (machine call.pid) w₁ := by
        intro f
        rw [Prog.run_bind, hrun₁]
        rfl
      simp only [hrest]
      cases r₂ with
      | err e => exact ⟨.err e, _, w₂, by rw [Prog.run_bind, hrun₂]; rfl, hcalls⟩
      | panic msg => exact ⟨.panic msg, _, w₂, by rw [Prog.run_bind, hrun₂]; rfl, hcalls⟩
      | ok u => exact ⟨.ok { context with currentStopStart := call.stopStart }, _, w₂,
          by rw [Prog.run_bind, hrun₂]; rfl, hcalls⟩

/-- **The defect**: the call sends "start" to the recorded command with success, and cannot send "stop" to the new one. -/
def HalfSwitches (call : BeCall) (context : RunContext) : Prop :=
  ∃ old new, context.currentStopStart = some old ∧ call.stopStart = some new ∧ new ≠ old ∧
    call.world.event.answer (.stopStart (old ++ ["start"])) = .ok () ∧
      (new = [] ∨ ∃ e, (call.world.env (call.world.tick + 1)).answer (.stopStart (new ++ ["stop"])) = .error e)

end BeCall

/-! ### Runs -/

/-- What is recorded after a call. -/
def RunContext.afterCall (context : RunContext) : Outcome Error RunContext → RunContext
  | .ok context' => context'
  | .err _ => context
  | .panic _ => context

theorem RunContext.afterCall_of_not_ok {context : RunContext} {r : Outcome Error RunContext} (h : r.isOk = false) :
    context.afterCall r = context := by
  cases r with
  | ok context' => cases h
  | err e => rfl
  | panic msg => rfl

/-- The runs of calls, the latest one first, with the outside calls made and with what is recorded at the end. -/
inductive BeRun : List BeCall → CallLog → RunContext → Prop where
  /-- The start. -/
  | start : BeRun [] [] .default
  /-- One call more. -/
  | be {calls : List BeCall} {log made : CallLog} {context : RunContext} {call : BeCall} {r : Outcome Error RunContext}
    (hrun : BeRun calls log context) (hreturns : call.Returns context r made) :
    BeRun (call :: calls) (made ++ log) (context.afterCall r)

/-- Any sequence of calls is run. -/
theorem exists_beRun (calls : List BeCall) : ∃ log context, BeRun calls log context := by
  induction calls with
  | nil => exact ⟨[], .default, .start⟩
  | cons call calls ih =>
    obtain ⟨log, context, hrun⟩ := ih
    obtain ⟨r, made, hreturns⟩ := call.exists_returns context
    exact ⟨made ++ log, context.afterCall r, hrun.be hreturns⟩

/-- "start" was sent to stopped commands only, and "stop" to commands that were not. -/
def Alternates : CallLog → Prop
  | [] => True
  | sent :: log => (∀ cmd, sent.1 = .stopStart (cmd ++ ["start"]) → IsStopped cmd log) ∧
    (∀ cmd, sent.1 = .stopStart (cmd ++ ["stop"]) → ¬ IsStopped cmd log) ∧ Alternates log

theorem Alternates.start {cmd : List String} {log : CallLog} (h : Alternates log) (hstopped : IsStopped cmd log)
    (answer : Except CallError Unit) : Alternates (⟨.stopStart (cmd ++ ["start"]), answer⟩ :: log) := by
  refine ⟨fun cmd' heq => ?_, fun cmd' heq => ?_, h⟩
  · rwa [← List.append_cancel_right (Call.stopStart.inj heq)]
  · exact absurd (Call.stopStart.inj heq).symm (append_stop_ne_start _ _)

theorem Alternates.stop {cmd : List String} {log : CallLog} (h : Alternates log) (hstopped : ¬ IsStopped cmd log)
    (answer : Except CallError Unit) : Alternates (⟨.stopStart (cmd ++ ["stop"]), answer⟩ :: log) := by
  refine ⟨fun cmd' heq => ?_, fun cmd' heq => ?_, h⟩
  · exact absurd (Call.stopStart.inj heq) (append_stop_ne_start _ _)
  · rwa [← List.append_cancel_right (Call.stopStart.inj heq)]

/-- The commands are paired: the recorded one is the stopped one, and the invocations alternate. -/
structure Paired (log : CallLog) (context : RunContext) : Prop where
  /-- The recorded command is the one whose last successful invocation was "stop". -/
  recorded : ∀ cmd, IsStopped cmd log ↔ context.currentStopStart = some cmd
  /-- At most one command is stopped. -/
  unique : ∀ cmd cmd', IsStopped cmd log → IsStopped cmd' log → cmd = cmd'
  /-- "start" only after "stop", and "stop" never twice. -/
  alternates : Alternates log

theorem Paired.of_recorded {log : CallLog} {context : RunContext}
    (h : ∀ cmd, IsStopped cmd log ↔ context.currentStopStart = some cmd) (halternates : Alternates log) :
    Paired log context := by
  refine ⟨h, fun cmd cmd' hcmd hcmd' => ?_, halternates⟩
  have hrecorded := (h cmd).1 hcmd
  rw [(h cmd').1 hcmd'] at hrecorded
  exact (Option.some.inj hrecorded).symm

/-- An empty command is never recorded. -/
theorem ne_empty_of_beRun {calls : List BeCall} {log : CallLog} {context : RunContext} (h : BeRun calls log context) :
    context.currentStopStart ≠ some [] := by
  induction h with
  | start => exact nofun
  | @be calls log made context call r hrun hreturns ih =>
    rcases BeCall.returns_cases hreturns with ⟨-, rfl, -⟩ | ⟨-, r₁, made₁, -, hrest⟩
    · exact ih
    · rcases hrest with ⟨-, hr, -⟩ | ⟨-, w, r₂, made₂, -, hstop, -, hend⟩
      · rwa [RunContext.afterCall_of_not_ok hr]
      · rcases hend with ⟨-, hr⟩ | ⟨hr₂, rfl⟩
        · rwa [RunContext.afterCall_of_not_ok hr]
        · intro hempty
          rw [show call.stopStart = some [] from hempty, hr₂] at hstop
          cases hstop with
          | ok hne => exact hne rfl

/-! ### The invariant -/

section Invariant

variable {call : BeCall} {context : RunContext} {log made : CallLog} {r : Outcome Error RunContext}

/-- "start" fails: nothing changes. -/
theorem Paired.notStarted (h : Paired log context) {w : EvoWorld} {r₁ : Outcome Error Unit}
    (hstart : Invoked w "start" context.currentStopStart r₁ made) (hr : r₁ ≠ .ok ()) : Paired (made ++ log) context := by
  generalize hcurrent : context.currentStopStart = current at hstart
  cases hstart with
  | none => exact absurd rfl hr
  | empty => exact h
  | ok hne hanswer => exact absurd rfl hr
  | err hne hanswer =>
    have hstopped := (h.recorded _).2 hcurrent
    exact .of_recorded (fun cmd => h.recorded cmd) (h.alternates.start hstopped _)

/-- "start" succeeds: then no command is stopped. -/
theorem Paired.started (h : Paired log context) {w : EvoWorld}
    (hstart : Invoked w "start" context.currentStopStart (.ok ()) made) :
    (∀ cmd, ¬ IsStopped cmd (made ++ log)) ∧ Alternates (made ++ log) := by
  generalize hcurrent : context.currentStopStart = current at hstart
  cases hstart with
  | none =>
    refine ⟨fun cmd hstopped => ?_, h.alternates⟩
    have hrecorded := (h.recorded cmd).1 hstopped
    rw [hcurrent] at hrecorded
    cases hrecorded
  | ok hne hanswer =>
    refine ⟨fun cmd hstopped => ?_, h.alternates.start ((h.recorded _).2 hcurrent) _⟩
    obtain ⟨hcmd, hbefore⟩ := isStopped_start.1 hstopped
    have hrecorded := (h.recorded cmd).1 hbefore
    rw [hcurrent] at hrecorded
    exact hcmd (Option.some.inj hrecorded).symm

/-- Then "stop" succeeds: the new command is the stopped one. -/
theorem Paired.stopped {w : EvoWorld} {new : Option (List String)} (hnone : ∀ cmd, ¬ IsStopped cmd log)
    (halternates : Alternates log) (hstop : Invoked w "stop" new (.ok ()) made) :
    Paired (made ++ log) { context with currentStopStart := new } := by
  cases hstop with
  | none => exact .of_recorded (fun cmd => ⟨fun hstopped => absurd hstopped (hnone cmd), nofun⟩) halternates
  | ok hne hanswer =>
    refine .of_recorded (fun cmd => ?_) (halternates.stop (hnone _) _)
    rw [List.singleton_append, isStopped_stop]
    constructor
    · rintro (rfl | hstopped)
      · rfl
      · exact absurd hstopped (hnone cmd)
    · intro hrecorded
      exact .inl (Option.some.inj hrecorded).symm

/-- Or it fails, and no command was recorded. -/
theorem Paired.notStopped {w : EvoWorld} {new : Option (List String)} {r₂ : Outcome Error Unit}
    (hnone : ∀ cmd, ¬ IsStopped cmd log) (halternates : Alternates log) (hstop : Invoked w "stop" new r₂ made)
    (hr : r₂ ≠ .ok ()) (hcurrent : context.currentStopStart = none) : Paired (made ++ log) context := by
  have hrecorded : ∀ cmd, IsStopped cmd log ↔ context.currentStopStart = some cmd := by
    intro cmd
    rw [hcurrent]
    exact ⟨fun hstopped => absurd hstopped (hnone cmd), nofun⟩
  cases hstop with
  | none => exact absurd rfl hr
  | empty => exact .of_recorded hrecorded halternates
  | ok hne hanswer => exact absurd rfl hr
  | err hne hanswer => exact .of_recorded hrecorded (halternates.stop (hnone _) _)

/-- "start" has succeeded and "stop" has not, while a command was recorded. -/
theorem BeCall.halfSwitches_of_invoked {old : List String} (hold : context.currentStopStart = some old)
    (hne : call.stopStart ≠ context.currentStopStart) {made₁ made₂ : CallLog} {w : EvoWorld} {r₂ : Outcome Error Unit}
    (hstart : Invoked call.world "start" context.currentStopStart (.ok ()) made₁) (hw : call.Second made₁ w)
    (hstop : Invoked w "stop" call.stopStart r₂ made₂) (hr : r₂ ≠ .ok ()) : call.HalfSwitches context := by
  rw [hold] at hstart hne
  cases hstart with
  | ok _ hanswer =>
    obtain ⟨henv, htick⟩ := hw
    generalize hnew : call.stopStart = new at hstop hne
    cases hstop with
    | none => exact absurd rfl hr
    | empty => exact ⟨old, [], hold, hnew, fun h => hne (congrArg some h), hanswer, .inl rfl⟩
    | ok _ _ => exact absurd rfl hr
    | @err new e _ hanswer₂ =>
      rw [World.event, henv, htick] at hanswer₂
      exact ⟨old, new, hold, hnew, fun h => hne (congrArg some h), hanswer, .inr ⟨e, hanswer₂⟩⟩

/-- **The step lemma**: a call that does not switch half keeps the commands paired. -/
theorem Paired.be (h : Paired log context) (hhalf : ¬ call.HalfSwitches context)
    (hreturns : call.Returns context r made) : Paired (made ++ log) (context.afterCall r) := by
  rcases BeCall.returns_cases hreturns with ⟨-, rfl, rfl⟩ | ⟨hne, r₁, made₁, hstart, hrest⟩
  · exact h
  · rcases hrest with ⟨hr₁, hr, rfl⟩ | ⟨rfl, w, r₂, made₂, hw, hstop, rfl, hend⟩
    · rw [RunContext.afterCall_of_not_ok hr]
      exact h.notStarted hstart hr₁
    · obtain ⟨hnone, halternates⟩ := h.started hstart
      rw [List.append_assoc]
      rcases hend with ⟨hr₂, hr⟩ | ⟨rfl, rfl⟩
      · rw [RunContext.afterCall_of_not_ok hr]
        cases hcurrent : context.currentStopStart with
        | none => exact .notStopped hnone halternates hstop hr₂ hcurrent
        | some old => exact absurd (BeCall.halfSwitches_of_invoked hcurrent hne hstart hw hstop hr₂) hhalf
      · exact .stopped hnone halternates hstop

/-- A call that switches half breaks the pairing: the recorded command has been started. -/
theorem not_paired_of_halfSwitches (hempty : context.currentStopStart ≠ some []) (hhalf : call.HalfSwitches context)
    (hreturns : call.Returns context r made) : ¬ Paired (made ++ log) (context.afterCall r) := by
  intro h
  obtain ⟨old, new, hold, hnew, hne, hanswer, hfails⟩ := hhalf
  have holdne : old ≠ [] := by
    rintro rfl
    exact hempty hold
  rcases BeCall.returns_cases hreturns with ⟨hsame, -, -⟩ | ⟨-, r₁, made₁, hstart, hrest⟩
  · rw [hold, hnew] at hsame
    exact hne (Option.some.inj hsame)
  · rw [hold] at hstart
    cases hstart with
    | empty => exact holdne rfl
    | err _ hanswer' =>
      rw [hanswer] at hanswer'
      cases hanswer'
    | ok _ _ =>
      rcases hrest with ⟨hr₁, -, -⟩ | ⟨-, w, r₂, made₂, ⟨henv, htick⟩, hstop, rfl, hend⟩
      · exact hr₁ rfl
      · rw [hnew] at hstop
        -- "stop" was not sent, or it failed, so the old command is recorded, and its last invocation was "start".
        have hlast : r₂ ≠ .ok () ∧ (IsStopped old (made₂ ++ ⟨.stopStart (old ++ ["start"]), .ok ()⟩ :: log) ↔
            IsStopped old (⟨.stopStart (old ++ ["start"]), .ok ()⟩ :: log)) := by
          cases hstop with
          | empty => exact ⟨by rintro ⟨⟩, Iff.rfl⟩
          | err _ _ => exact ⟨by rintro ⟨⟩, Iff.rfl⟩
          | ok hnewne hanswer₂ =>
            rcases hfails with rfl | ⟨e, hfails⟩
            · exact absurd rfl hnewne
            · rw [World.event, henv, htick] at hanswer₂
              cases hanswer₂.symm.trans hfails
        rcases hend with ⟨-, hr⟩ | ⟨hr₂, -⟩
        · rw [RunContext.afterCall_of_not_ok hr] at h
          have hstopped := (h.recorded old).2 hold
          rw [List.append_assoc] at hstopped
          exact (isStopped_start.1 (hlast.2.1 hstopped)).1 rfl
        · exact hlast.1 hr₂

end Invariant

/-! ### The claim over runs -/

/-- **The documented behaviour** of a sequence of calls: the commands are paired at every moment, and after a call that
returns the requested command is the recorded one. -/
structure StaysPaired (calls : List BeCall) : Prop where
  /-- At every moment. -/
  paired : ∀ before log context, before <:+ calls → BeRun before log context → Paired log context
  /-- After a call that returns. -/
  returned : ∀ call before log context context' made, call :: before <:+ calls → BeRun before log context →
    call.Returns context (.ok context') made → context'.currentStopStart = call.stopStart

/-- **The commands stay paired exactly if no call switches half.** -/
theorem stop_start_paired_iff (calls : List BeCall) :
    StaysPaired calls ↔ ∀ call before log context, call :: before <:+ calls → BeRun before log context →
      ¬ call.HalfSwitches context := by
  constructor
  · intro h call before log context hsuffix hrun hhalf
    obtain ⟨r, made, hreturns⟩ := call.exists_returns context
    have hpaired := h.paired _ _ _ hsuffix (hrun.be hreturns)
    exact not_paired_of_halfSwitches (ne_empty_of_beRun hrun) hhalf hreturns hpaired
  · intro h
    refine ⟨fun before log context hsuffix hrun => ?_, ?_⟩
    · induction hrun with
      | start => exact .of_recorded (fun cmd => ⟨fun hstopped => absurd hstopped (isStopped_nil cmd), nofun⟩) trivial
      | be hrun hreturns ih =>
        have hbefore := (List.suffix_cons _ _).trans hsuffix
        exact (ih hbefore).be (h _ _ _ _ hsuffix hrun) hreturns
    · intro call before log context context' made hsuffix hrun hreturns
      rcases BeCall.returns_cases hreturns with ⟨hsame, hr, -⟩ | ⟨-, r₁, made₁, -, hrest⟩
      · cases hr
        exact hsame.symm
      · rcases hrest with ⟨-, hr, -⟩ | ⟨-, w, r₂, made₂, -, -, -, hend⟩
        · cases hr
        · rcases hend with ⟨-, hr⟩ | ⟨-, hr⟩
          · cases hr
          · cases hr
            rfl

/-! ### A command that is started twice -/

/-- A world in which `stop_start` commands are answered as given. -/
def commandWorld (answer : List String → Except CallError Unit) : EvoWorld :=
  { sampleEmpty with
    env := fun n => { sampleEmpty.env n with
      answer := fun
        | .stopStart sent => answer sent
        | x => sampleAnswer x } }

/-- The command `a` is stopped. -/
def stopA : BeCall := ⟨1, some ["a"], commandWorld fun _ => .ok ()⟩

/-- It is replaced by the command `b`, which cannot be stopped. -/
def switchToB : BeCall :=
  ⟨1, some ["b"], commandWorld fun sent => if sent = ["b", "stop"] then .error "exit status 1" else .ok ()⟩

/-- No command is requested any more. -/
def requestNone : BeCall := ⟨1, none, commandWorld fun _ => .ok ()⟩

/-- `a` is started, then `b` cannot be stopped, and in the end `a` is started again. -/
theorem started_twice : ¬ ∀ calls, StaysPaired calls := by
  intro hall
  have hstop : stopA.Returns .default (.ok ⟨some ["a"], ∅⟩) [⟨.stopStart ["a", "stop"], .ok ()⟩] := ⟨_, rfl, rfl⟩
  have hswitch : switchToB.Returns ⟨some ["a"], ∅⟩ (.err (.call "exit status 1"))
      [⟨.stopStart ["b", "stop"], .error "exit status 1"⟩, ⟨.stopStart ["a", "start"], .ok ()⟩] := ⟨_, rfl, rfl⟩
  have hnone : requestNone.Returns ⟨some ["a"], ∅⟩ (.ok ⟨none, ∅⟩) [⟨.stopStart ["a", "start"], .ok ()⟩] := ⟨_, rfl, rfl⟩
  have hrun : BeRun [requestNone, switchToB, stopA] _ _ := ((BeRun.start.be hstop).be hswitch).be hnone
  have hstopped := ((hall _).paired _ _ _ (List.suffix_refl _) hrun).alternates.1 ["a"] rfl
  have hstarted : ¬ IsStopped ["a"] [⟨.stopStart ["b", "stop"], .error "exit status 1"⟩,
      ⟨.stopStart ["a", "start"], .ok ()⟩, ⟨.stopStart ["a", "stop"], .ok ()⟩] := by decide
  exact hstarted hstopped

end Evobench.Run

import Evobench.Utillib.CleanupDaemon

/-!
# What the cleanup daemon cleans

The daemon should clean what the parent leaves behind: the items that still have a handle, and no item whose handles have all
been dropped after their own cleanup (`CleansWhatIsLeft`). It does so exactly where `DiesWell` holds:

* The parent did not die within the text of a message, or had no handle left. The daemon takes a part of a message for an error,
  and then cleans nothing at all.
* If the parent has a handle, then an equal item has not been cancelled since the last one was added. The daemon has only one
  item for equal ones, and forgets it with the first handle that is dropped.
* Not all but the line break was written of a message that adds an item again whose handles have all been dropped.
-/

namespace Evobench.Utillib

open Library Run

/-- The handle is one for the item, and the program has got it. -/
def Handle.IsFor (handle : Handle) (item : CleanupItem OsString) : Prop :=
  handle.item.key = item.key ∧ handle.phase ≠ .registering

/-- **The daemon cleans what is left.** -/
structure CleansWhatIsLeft (serde : JsonText (CleanupMessage OsString)) (p : Parent) : Prop where
  /-- Items with a live handle are cleaned. -/
  live : ∀ h item, p.handles h = some ⟨item, .live⟩ → Cleans serde p.pipe item
  /-- Items whose handles were all dropped, after their own cleanup, are not. -/
  dropped : ∀ item, (∃ h handle, p.handles h = some handle ∧ handle.IsFor item) →
    (∀ h handle, p.handles h = some handle → handle.IsFor item → handle.phase = .cancelled) → ¬ Cleans serde p.pipe item

/-- A message is written in part: some of it, and not all of its text. -/
def Sending.IsCut (s : Sending) : Prop := s.written ≠ [] ∧ s.rest ≠ [newline]

/-- A message is written but for its line break. -/
def Sending.IsWritten (s : Sending) : Prop := s.written ≠ [] ∧ s.rest = [newline]

instance : DecidablePred Sending.IsWritten := fun s => by
  unfold Sending.IsWritten
  infer_instance

/-- The messages that the daemon gets to see. -/
def Parent.announced (p : Parent) : List (CleanupMessage OsString) :=
  match p.sending with
  | some s => if s.IsWritten then p.sent ++ [s.message] else p.sent
  | none => p.sent

/-- **When the daemon cleans what is left.** -/
structure Parent.DiesWell (p : Parent) : Prop where
  /-- No message is cut, if there is a live handle. -/
  whole : ∀ h item, p.handles h = some ⟨item, .live⟩ → ∀ s, p.sending = some s → ¬ s.IsCut
  /-- An item with a live handle was not cancelled after the last time that an equal one was added. -/
  not_cancelled : ∀ h item, p.handles h = some ⟨item, .live⟩ →
    ∀ before item' after, p.announced = before ++ .cancel item' :: after → item'.key = item.key →
      ∃ item'', .add item'' ∈ after ∧ item''.key = item.key
  /-- An item that is added but for a line break does not only have handles that were dropped. -/
  not_again : ∀ s item, p.sending = some s → s.message = .add item → s.IsWritten →
    (∃ h handle, p.handles h = some handle ∧ handle.IsFor item) →
      ∃ h handle, p.handles h = some handle ∧ handle.IsFor item ∧ handle.phase ≠ .cancelled

/-! ### Invariants of the parent -/

/-- A message that is being sent. -/
structure SendingInv (serde : MessageText) (p : Parent) (s : Sending) : Prop where
  /-- Some of its line is written, and some is not. -/
  line : ∃ text, serde.toString s.message = some text ∧ s.written ++ s.rest = messageLine text ∧ s.rest ≠ []
  /-- It adds or cancels the item of its handle. -/
  handle : ∃ handle, p.handles s.handle = some handle ∧
    (handle.phase = .registering ∧ s.message = .add handle.item ∨ handle.phase = .cleaned ∧ s.message = .cancel handle.item)

/-- What is always the case. -/
structure ParentInv (serde : MessageText) (p : Parent) : Prop where
  /-- The pipe holds the lines of the messages, and what is written of another one. -/
  pipe : ∃ texts, List.Forall₂ (fun message text => serde.toString message = some text) p.sent texts ∧
    p.pipe = texts.flatMap messageLine ++ (p.sending.map Sending.written).getD []
  /-- About the message that is being sent. -/
  sending : ∀ s, p.sending = some s → SendingInv serde p s
  /-- There is a text for the item of a handle. -/
  text : ∀ h handle, p.handles h = some handle → (serde.toString (.add handle.item)).isSome = true
  /-- The item of a handle has been added. -/
  added : ∀ h handle, p.handles h = some handle → handle.phase ≠ .registering → .add handle.item ∈ p.sent
  /-- An item that has been added last has a handle that has not been dropped after its own cleanup. -/
  left : ∀ item : CleanupItem OsString, LastAdds p.sent item.key →
    ∃ h handle, p.handles h = some handle ∧ handle.IsFor item ∧ handle.phase ≠ .cancelled

section Steps

variable {serde : MessageText} {p p' : Parent}

theorem parentInv_init : ParentInv serde Parent.init where
  pipe := ⟨[], List.Forall₂.nil, rfl⟩
  sending := by
    intro s h
    cases h
  text := by
    intro h handle hhandle
    cases hhandle
  added := by
    intro h handle hhandle
    cases hhandle
  left := by
    intro item hlast
    exact absurd hlast not_lastAdds_nil

/-- The handles after a change. -/
theorem handles_set (p : Parent) (h h' : ℕ) (handle : Handle) :
    (p.set h handle).handles h' = if h' = h then some handle else p.handles h' := Function.update_apply _ _ _ _

/-- A handle changes its phase, while nothing is sent for it. -/
theorem ParentInv.set_phase (hinv : ParentInv serde p) {h : ℕ} {item : CleanupItem OsString} {phase phase' : Phase}
    (hhandle : p.handles h = some ⟨item, phase⟩) (hregistered : phase ≠ .registering)
    (hidle : ∀ s, p.sending = some s → s.handle ≠ h) (hregistered' : phase' ≠ .registering)
    (hleft : phase ≠ .cancelled → phase' ≠ .cancelled) : ParentInv serde (p.set h ⟨item, phase'⟩) where
  pipe := hinv.pipe
  sending := by
    intro s hs
    obtain ⟨hline, handle, hs', hphase⟩ := hinv.sending s hs
    refine ⟨hline, handle, ?_, hphase⟩
    rwa [handles_set, if_neg (hidle s hs)]
  text := by
    intro h' handle hh'
    rw [handles_set] at hh'
    split at hh'
    · cases hh'
      exact hinv.text h ⟨item, phase⟩ hhandle
    · exact hinv.text h' handle hh'
  added := by
    intro h' handle hh' hphase
    rw [handles_set] at hh'
    split at hh'
    · cases hh'
      exact hinv.added h ⟨item, phase⟩ hhandle hregistered
    · exact hinv.added h' handle hh' hphase
  left := by
    intro item' hlast
    obtain ⟨h', handle, hh', hfor, hphase⟩ := hinv.left item' hlast
    by_cases heq : h' = h
    · subst heq
      obtain rfl := Option.some.inj (hhandle.symm.trans hh')
      exact ⟨h', _, (handles_set p h' h' _).trans (if_pos rfl), ⟨hfor.1, hregistered'⟩, hleft hphase⟩
    · exact ⟨h', handle, (handles_set p h h' _).trans ((if_neg heq).trans hh'), hfor, hphase⟩

/-- No message is being sent for a handle in another phase. -/
theorem ParentInv.idle (hinv : ParentInv serde p) {h : ℕ} {item : CleanupItem OsString} {phase : Phase}
    (hhandle : p.handles h = some ⟨item, phase⟩) (hregistering : phase ≠ .registering) (hcleaned : phase ≠ .cleaned)
    (s : Sending) (hs : p.sending = some s) : s.handle ≠ h := by
  rintro rfl
  obtain ⟨handle', hhandle', hphase⟩ := (hinv.sending s hs).handle
  obtain rfl := Option.some.inj (hhandle.symm.trans hhandle')
  rcases hphase with ⟨hphase, -⟩ | ⟨hphase, -⟩
  · exact hregistering hphase
  · exact hcleaned hphase

/-- A message begins. -/
theorem ParentInv.begin (hinv : ParentInv serde p) {h : ℕ} {message : CleanupMessage OsString} {text : List Char}
    (hunlocked : p.sending = none) (htext : serde.toString message = some text)
    (hhandle : ∃ handle, p.handles h = some handle ∧
      (handle.phase = .registering ∧ message = .add handle.item ∨ handle.phase = .cleaned ∧ message = .cancel handle.item)) :
    ParentInv serde { p with sending := some ⟨h, message, [], messageLine text⟩ } where
  pipe := by
    obtain ⟨texts, htexts, hpipe⟩ := hinv.pipe
    refine ⟨texts, htexts, ?_⟩
    rw [hunlocked] at hpipe
    exact hpipe
  sending := by
    intro s hs
    obtain rfl := Option.some.inj hs
    exact ⟨⟨text, htext, rfl, by simp [messageLine]⟩, hhandle⟩
  text := hinv.text
  added := hinv.added
  left := hinv.left

/-- A handle that is being registered. -/
theorem ParentInv.set_registering (hinv : ParentInv serde p) {h : ℕ} {item : CleanupItem OsString} {text : List Char}
    (hfree : p.handles h = none) (hunlocked : p.sending = none) (htext : serde.toString (.add item) = some text) :
    ParentInv serde (p.set h ⟨item, .registering⟩) where
  pipe := hinv.pipe
  sending := by
    intro s hs
    rw [show (p.set h ⟨item, .registering⟩).sending = p.sending from rfl, hunlocked] at hs
    cases hs
  text := by
    intro h' handle hh'
    rw [handles_set] at hh'
    split at hh'
    · cases hh'
      rw [htext]
      rfl
    · exact hinv.text h' handle hh'
  added := by
    intro h' handle hh' hphase
    rw [handles_set] at hh'
    split at hh'
    · cases hh'
      exact absurd rfl hphase
    · exact hinv.added h' handle hh' hphase
  left := by
    intro item' hlast
    obtain ⟨h', handle, hh', hleft⟩ := hinv.left item' hlast
    refine ⟨h', handle, ?_, hleft⟩
    rw [handles_set, if_neg, hh']
    rintro rfl
    rw [hfree] at hh'
    cases hh'

/-- A message is sent. -/
theorem ParentInv.send (hinv : ParentInv serde p) {h : ℕ} {message : CleanupMessage OsString} {written rest : List UInt8}
    {handle : Handle} (hsending : p.sending = some ⟨h, message, written, rest⟩) (hhandle : p.handles h = some handle) :
    ParentInv serde { p.set h ⟨handle.item, handle.phase.sent⟩ with
      sending := none, pipe := p.pipe ++ rest, sent := p.sent ++ [message] } := by
  obtain ⟨⟨text, htext, hline, -⟩, handle', hhandle', hphase⟩ := hinv.sending _ hsending
  obtain rfl := Option.some.inj (hhandle.symm.trans hhandle')
  have hset : ∀ h', (if h' = h then some (⟨handle.item, handle.phase.sent⟩ : Handle) else p.handles h') =
      (p.set h ⟨handle.item, handle.phase.sent⟩).handles h' := fun h' => (handles_set _ _ _ _).symm
  have hsent : handle.phase.sent ≠ .registering := by
    rcases hphase with ⟨hphase, -⟩ | ⟨hphase, -⟩
    · rw [hphase]
      decide
    · rw [hphase]
      decide
  refine ⟨?_, ?_, ?_, ?_, ?_⟩
  · obtain ⟨texts, htexts, hpipe⟩ := hinv.pipe
    refine ⟨texts ++ [text], List.rel_append htexts (List.Forall₂.cons htext List.Forall₂.nil), ?_⟩
    show p.pipe ++ rest = (texts ++ [text]).flatMap messageLine ++ []
    rw [hpipe, hsending, List.flatMap_append, List.flatMap_singleton, ← hline, List.append_nil, List.append_assoc]
    rfl
  · intro s hs
    cases hs
  · intro h' handle' hh'
    rw [show (Parent.handles _) h' = _ from (hset h').symm] at hh'
    split at hh'
    · cases hh'
      exact hinv.text h handle hhandle
    · exact hinv.text h' handle' hh'
  · intro h' handle' hh' hphase'
    rw [show (Parent.handles _) h' = _ from (hset h').symm] at hh'
    show _ ∈ p.sent ++ [message]
    rw [List.mem_append]
    split at hh'
    · cases hh'
      rcases hphase with ⟨-, hmessage⟩ | ⟨hphase, -⟩
      · exact .inr (List.mem_singleton.2 hmessage.symm)
      · exact .inl (hinv.added h handle hhandle (by rw [hphase]; decide))
    · exact .inl (hinv.added h' handle' hh' hphase')
  · intro item hlast
    have hlast' : LastAdds (p.sent ++ [message]) item.key := hlast
    -- Either this message adds the item, or it had been added last before.
    have hcases : (handle.item.key = item.key ∧ handle.phase.sent ≠ .cancelled) ∨
        LastAdds p.sent item.key ∧ (handle.phase = .cleaned → handle.item.key ≠ item.key) := by
      rcases hphase with ⟨hphase, rfl⟩ | ⟨hphase, rfl⟩
      · rcases lastAdds_add_iff.1 hlast' with hkey | hlast'
        · exact .inl ⟨hkey, by rw [hphase]; decide⟩
        · exact .inr ⟨hlast', fun hcleaned => by rw [hphase] at hcleaned; cases hcleaned⟩
      · obtain ⟨hne, hlast'⟩ := lastAdds_cancel_iff.1 hlast'
        exact .inr ⟨hlast', fun _ => hne⟩
    rcases hcases with ⟨hkey, hleft⟩ | ⟨hlast', hne⟩
    · exact ⟨h, _, (hset h).symm.trans (if_pos rfl), ⟨hkey, hsent⟩, hleft⟩
    · obtain ⟨h', handle', hh', hfor, hleft⟩ := hinv.left item hlast'
      by_cases heq : h' = h
      · subst heq
        obtain rfl := Option.some.inj (hhandle.symm.trans hh')
        rcases hphase with ⟨hphase, -⟩ | ⟨hphase, -⟩
        · exact absurd hphase hfor.2
        · exact absurd hfor.1 (hne hphase)
      · exact ⟨h', handle', (hset h').symm.trans ((if_neg heq).trans hh'), hfor, hleft⟩

/-- **A step keeps the invariant.** -/
theorem ParentInv.step (hinv : ParentInv serde p) (hstep : Parent.Step serde.toJsonText p p') : ParentInv serde p' := by
  cases hstep with
  | @register h item text hfree hunlocked htext =>
    refine (hinv.set_registering hfree hunlocked htext).begin hunlocked htext ⟨_, (handles_set p h h _).trans (if_pos rfl), ?_⟩
    exact .inl ⟨rfl, rfl⟩
  | @write h message written chunk rest hsending hnow hlater hlong =>
    refine ⟨?_, ?_, hinv.text, hinv.added, hinv.left⟩
    · obtain ⟨texts, htexts, hpipe⟩ := hinv.pipe
      refine ⟨texts, htexts, ?_⟩
      show p.pipe ++ chunk = texts.flatMap messageLine ++ (written ++ chunk)
      rw [hpipe, hsending, List.append_assoc]
      rfl
    · intro s hs
      obtain rfl := Option.some.inj hs
      obtain ⟨⟨text, htext, hline, -⟩, hhandle⟩ := hinv.sending _ hsending
      exact ⟨⟨text, htext, by rw [List.append_assoc]; exact hline, hlater⟩, hhandle⟩
  | send hsending hhandle => exact hinv.send hsending hhandle
  | cleanup hlive =>
    exact hinv.set_phase hlive (by decide) (hinv.idle hlive (by decide) (by decide)) (by decide) fun _ => by decide
  | fail hlive =>
    exact hinv.set_phase hlive (by decide) (hinv.idle hlive (by decide) (by decide)) (by decide) fun _ => by decide
  | cancel hcleaned hunlocked htext => exact hinv.begin hunlocked htext ⟨_, hcleaned, .inr ⟨rfl, rfl⟩⟩
  | cancelFails hcleaned hno =>
    -- An item that could be added can be cancelled.
    have hsome := serde.cancel_text _ (hinv.text _ _ hcleaned)
    rw [hno] at hsome
    cases hsome

/-- **The invariant holds wherever the parent may die.** -/
theorem parentInv_of_reachable (h : Reachable serde.toJsonText p) : ParentInv serde p := by
  induction h with
  | refl => exact parentInv_init
  | tail _ hstep ih => exact ih.step hstep

end Steps

/-! ### What the daemon does -/

section Daemon

variable {serde : MessageText} {p : Parent}

/-- Whole lines are handled, one after the other. -/
theorem handleLines_lines {messages : List (CleanupMessage OsString)} {texts : List (List Char)}
    (h : List.Forall₂ (fun message text => serde.toString message = some text) messages texts)
    (items : List (CleanupItem OsString)) (rest : List UInt8) :
    handleLines serde.toJsonText items (readLines (texts.flatMap messageLine ++ rest)) =
      handleLines serde.toJsonText (messages.foldl handleMessage items) (readLines rest) := by
  induction h generalizing items with
  | nil => rfl
  | @cons message text messages texts htext htexts ih =>
    have hlines : (text :: texts).flatMap messageLine ++ rest =
        utf8 text ++ newline :: (texts.flatMap messageLine ++ rest) := by
      rw [List.flatMap_cons, messageLine, List.append_assoc, List.append_assoc]
      rfl
    have hread := readMessage_line htext
    rw [hlines, readLines_line (newline_notMem_utf8 htext), handleLines,
      show utf8 text ++ [newline] = messageLine text from rfl, hread, Option.bind_eq_bind, Option.bind_some, ih,
      List.foldl_cons]

/-- What the daemon does depends on the last, unfinished line. -/
theorem ParentInv.cleaned_eq (hinv : ParentInv serde p) : cleaned serde.toJsonText p.pipe =
    handleLines serde.toJsonText (handleMessages p.sent) (readLines ((p.sending.map Sending.written).getD [])) := by
  obtain ⟨texts, htexts, hpipe⟩ := hinv.pipe
  rw [cleaned, hpipe, handleLines_lines htexts]
  rfl

/-- What is written of a message. -/
theorem SendingInv.written {s : Sending} (hinv : SendingInv serde p s) : ∃ text, serde.toString s.message = some text ∧
    s.written <+: utf8 text ∧ (s.rest = [newline] ↔ s.written = utf8 text) := by
  obtain ⟨⟨text, htext, hline, hrest⟩, -⟩ := hinv
  obtain ⟨rest, b, hconcat⟩ := List.eq_nil_or_concat s.rest |>.resolve_left hrest
  rw [hconcat, List.concat_eq_append, ← List.append_assoc] at hline
  obtain ⟨hwritten, hb⟩ := List.append_inj' hline rfl
  obtain rfl := List.singleton_inj.1 hb
  refine ⟨text, htext, ⟨rest, hwritten⟩, ?_⟩
  rw [hconcat, List.concat_eq_append, ← hwritten]
  simp

/-- **A message that is cut is an error**, and nothing is cleaned. -/
theorem ParentInv.cleaned_of_isCut (hinv : ParentInv serde p) {s : Sending} (hs : p.sending = some s) (hcut : s.IsCut) :
    cleaned serde.toJsonText p.pipe = none := by
  obtain ⟨text, htext, hpre, hwhole⟩ := (hinv.sending s hs).written
  have hnewline : newline ∉ s.written := fun hmem =>
    newline_notMem_utf8 htext (hpre.subset hmem)
  rw [hinv.cleaned_eq, hs, Option.map_some, Option.getD_some, readLines_rest hnewline hcut.1, handleLines,
    readMessage_cut htext hpre fun heq => hcut.2 (hwhole.2 heq)]
  rfl

/-- Otherwise all messages that have been written are handled. -/
theorem ParentInv.cleaned_of_not_isCut (hinv : ParentInv serde p) (hcut : ∀ s, p.sending = some s → ¬ s.IsCut) :
    cleaned serde.toJsonText p.pipe = some (handleMessages p.announced) := by
  rw [hinv.cleaned_eq, Parent.announced]
  cases hs : p.sending with
  | none => rfl
  | some s =>
    show handleLines _ _ (readLines s.written) = some (handleMessages (if s.IsWritten then p.sent ++ [s.message] else p.sent))
    by_cases hne : s.written = []
    · rw [if_neg fun hwritten => hwritten.1 hne, hne]
      rfl
    · have hrest : s.rest = [newline] := by
        by_contra hrest
        exact hcut s hs ⟨hne, hrest⟩
      obtain ⟨text, htext, hpre, hwhole⟩ := (hinv.sending s hs).written
      have hnewline : newline ∉ s.written := fun hmem =>
        newline_notMem_utf8 htext (hpre.subset hmem)
      have hread := readMessage_text htext
      rw [if_pos ⟨hne, hrest⟩, readLines_rest hnewline hne, hwhole.1 hrest, handleLines, hread, handleMessages, handleMessages,
        List.foldl_append]
      rfl

/-- The items that are cleaned. -/
theorem ParentInv.cleans_iff (hinv : ParentInv serde p) (item : CleanupItem OsString) :
    Cleans serde.toJsonText p.pipe item ↔
      (∀ s, p.sending = some s → ¬ s.IsCut) ∧ LastAdds p.announced item.key := by
  by_cases hcut : ∀ s, p.sending = some s → ¬ s.IsCut
  · rw [Cleans, hinv.cleaned_of_not_isCut hcut, ← mem_handleMessages_iff]
    constructor
    · rintro ⟨items, hitems, hmem⟩
      rw [Option.some.inj hitems]
      exact ⟨hcut, hmem⟩
    · rintro ⟨-, hmem⟩
      exact ⟨_, rfl, hmem⟩
  · simp only [not_forall, not_not] at hcut
    obtain ⟨s, hs, hcut⟩ := hcut
    rw [Cleans, hinv.cleaned_of_isCut hs hcut]
    constructor
    · rintro ⟨items, hitems, -⟩
      cases hitems
    · rintro ⟨hnot, -⟩
      exact absurd hcut (hnot s hs)

/-- A message that has been sent is announced. -/
theorem mem_announced {message : CleanupMessage OsString} (h : message ∈ p.sent) : message ∈ p.announced := by
  rw [Parent.announced]
  split
  · split
    · exact List.mem_append_left _ h
    · exact h
  · exact h

/-- What is announced last was sent, or is written but for its line break. -/
theorem lastAdds_announced {key : CleanupItem FilePath} (h : LastAdds p.announced key) : LastAdds p.sent key ∨
    ∃ s item, p.sending = some s ∧ s.message = .add item ∧ s.IsWritten ∧ item.key = key := by
  rw [Parent.announced] at h
  cases hs : p.sending with
  | none =>
    rw [hs] at h
    exact .inl h
  | some s =>
    rw [hs] at h
    simp only at h
    split at h
    · next hwritten =>
      cases hmessage : s.message with
      | add item =>
        rw [hmessage] at h
        rcases lastAdds_add_iff.1 h with hkey | h
        · exact .inr ⟨s, item, rfl, hmessage, hwritten, hkey⟩
        · exact .inl h
      | cancel item =>
        rw [hmessage] at h
        exact .inl (lastAdds_cancel_iff.1 h).2
    · exact .inl h

/-- **The daemon cleans what is left exactly where the parent dies well.** -/
theorem cleansWhatIsLeft_iff (serde : MessageText) {p : Parent} (h : Reachable serde.toJsonText p) :
    CleansWhatIsLeft serde.toJsonText p ↔ p.DiesWell := by
  have hinv := parentInv_of_reachable h
  constructor
  · rintro ⟨hlive, hdropped⟩
    refine ⟨fun h item hhandle => ((hinv.cleans_iff item).1 (hlive h item hhandle)).1, fun h item hhandle => ?_, ?_⟩
    · have hadded := mem_announced (hinv.added h _ hhandle (show Phase.live ≠ .registering by decide))
      exact (lastAdds_iff_of_mem hadded).1 ((hinv.cleans_iff item).1 (hlive h item hhandle)).2
    · intro s item hs hmessage hwritten hex
      by_contra hnone
      have hcleans : Cleans serde.toJsonText p.pipe item := by
        refine (hinv.cleans_iff item).2 ⟨fun s' hs' hcut => ?_, ?_⟩
        · obtain rfl := Option.some.inj (hs.symm.trans hs')
          exact hcut.2 hwritten.2
        · rw [Parent.announced, hs]
          show LastAdds (if s.IsWritten then p.sent ++ [s.message] else p.sent) item.key
          rw [if_pos hwritten, hmessage]
          exact lastAdds_add_iff.2 (.inl rfl)
      refine hdropped item hex (fun h handle hhandle hfor => ?_) hcleans
      by_contra hphase
      exact hnone ⟨h, handle, hhandle, hfor, hphase⟩
  · rintro ⟨hwhole, hcancelled, hagain⟩
    refine ⟨fun h item hhandle => ?_, fun item hex hall hcleans => ?_⟩
    · have hadded := mem_announced (hinv.added h _ hhandle (show Phase.live ≠ .registering by decide))
      exact (hinv.cleans_iff item).2 ⟨hwhole h item hhandle, (lastAdds_iff_of_mem hadded).2 (hcancelled h item hhandle)⟩
    · have hleft : ∃ h handle, p.handles h = some handle ∧ handle.IsFor item ∧ handle.phase ≠ .cancelled := by
        rcases lastAdds_announced ((hinv.cleans_iff item).1 hcleans).2 with hlast | ⟨s, item', hs, hmessage, hwritten, hkey⟩
        · exact hinv.left item hlast
        · have hfor : ∀ handle : Handle, handle.IsFor item' ↔ handle.IsFor item := by
            intro handle
            rw [Handle.IsFor, Handle.IsFor, hkey]
          obtain ⟨h, handle, hhandle, hitem⟩ := hex
          obtain ⟨h', handle', hhandle', hitem', hphase⟩ :=
            hagain s item' hs hmessage hwritten ⟨h, handle, hhandle, (hfor handle).2 hitem⟩
          exact ⟨h', handle', hhandle', (hfor handle').1 hitem', hphase⟩
      obtain ⟨h, handle, hhandle, hfor, hphase⟩ := hleft
      exact hphase (hall h handle hhandle hfor)

end Daemon

/-! ### Examples -/

/-- The parent once a handle is registered. -/
def Parent.registered (p : Parent) (h : ℕ) (item : CleanupItem OsString) (text : List Char) : Parent :=
  { p.set h ⟨item, .live⟩ with
    sending := none, pipe := p.pipe ++ messageLine text, sent := p.sent ++ [.add item] }

theorem Reachable.registered {serde : JsonText (CleanupMessage OsString)} {p : Parent} (hp : Reachable serde p) {h : ℕ}
    {item : CleanupItem OsString} {text : List Char} (hfree : p.handles h = none) (hunlocked : p.sending = none)
    (htext : serde.toString (.add item) = some text) : Reachable serde (p.registered h item text) := by
  have hregister := hp.tail (Parent.Step.register hfree hunlocked htext)
  have hsend := hregister.tail (Parent.Step.send rfl ((handles_set p h h _).trans (if_pos rfl)))
  refine Eq.subst (motive := Reachable serde) ?_ hsend
  simp only [Parent.registered, Parent.set, Function.update_idem]
  rfl

/-- A file. -/
def fileItem : CleanupItem OsString := .deletion (.file (.ofChars ['/', 't', 'm', 'p', '/', 'a']))

/-- The text of the message that adds it. -/
def fileText : List Char := (CleanupMessage.add (.deletion (.file ['/', 't', 'm', 'p', '/', 'a']))).json

/-- A command with an argument. -/
def commandItem (arg : List Char) : CleanupItem OsString := .cleanupCommand ⟨.ofChars ['r', 'm'], [arg], none⟩

/-- The text of the message that adds it. -/
def commandText (arg : List Char) : List Char := (CleanupMessage.add (.cleanupCommand ⟨['r', 'm'], [arg], none⟩)).json

/-- A long argument makes a long message. -/
theorem length_lt_messageLine (arg : List Char) : arg.length < (messageLine (commandText arg)).length := by
  have hquote := CompactJson.length_le_length_quote arg
  have hutf8 := length_le_length_utf8 (commandText arg)
  have htext : (CompactJson.quote arg).length ≤ (commandText arg).length := by
    simp only [commandText, CleanupMessage.json, CleanupItem.json, CleanupCommand.json, CompactJson.object,
      CompactJson.array, List.length_cons, List.length_append]
    omega
  rw [messageLine, List.length_append, List.length_singleton]
  omega

/-- The parent with a handle for the file. -/
def fileParent : Parent := Parent.init.registered 0 fileItem fileText

theorem fileParent_reachable : Reachable messageText.toJsonText fileParent :=
  Reachable.registered .refl rfl rfl rfl

/-- The parent once a handle is dropped, after its own cleanup. -/
def Parent.dropped (p : Parent) (h : ℕ) (item : CleanupItem OsString) (text : List Char) : Parent :=
  { p.set h ⟨item, .cancelled⟩ with
    sending := none, pipe := p.pipe ++ messageLine text, sent := p.sent ++ [.cancel item] }

theorem Reachable.dropped {serde : JsonText (CleanupMessage OsString)} {p : Parent} (hp : Reachable serde p) {h : ℕ}
    {item : CleanupItem OsString} {text : List Char} (hlive : p.handles h = some ⟨item, .live⟩) (hunlocked : p.sending = none)
    (htext : serde.toString (.cancel item) = some text) : Reachable serde (p.dropped h item text) := by
  have hcleanup := hp.tail (Parent.Step.cleanup hlive)
  have hcleaned : (p.set h ⟨item, .cleaned⟩).handles h = some ⟨item, .cleaned⟩ := (handles_set p h h _).trans (if_pos rfl)
  have hcancel := hcleanup.tail (Parent.Step.cancel hcleaned hunlocked htext)
  have hsend := hcancel.tail (Parent.Step.send rfl hcleaned)
  refine Eq.subst (motive := Reachable serde) ?_ hsend
  simp only [Parent.dropped, Parent.set, Function.update_idem]
  rfl

/-- The text of the message that cancels the command. -/
def cancelText (arg : List Char) : List Char := (CleanupMessage.cancel (.cleanupCommand ⟨['r', 'm'], [arg], none⟩)).json

/-- A second handle is registered, for a command, and dropped. -/
def droppedParent : Parent :=
  (fileParent.registered 1 (commandItem []) (commandText [])).dropped 1 (commandItem []) (cancelText [])

theorem droppedParent_reachable : Reachable messageText.toJsonText droppedParent :=
  (fileParent_reachable.registered rfl rfl rfl).dropped rfl rfl rfl

theorem handles_droppedParent {h : ℕ} {handle : Handle} (hhandle : droppedParent.handles h = some handle) :
    handle = ⟨fileItem, .live⟩ ∨ handle = ⟨commandItem [], .cancelled⟩ := by
  have hcases : droppedParent.handles h = if h = 1 then some ⟨commandItem [], .cancelled⟩ else
      if h = 1 then some ⟨commandItem [], .live⟩ else if h = 0 then some ⟨fileItem, .live⟩ else none := by
    simp only [droppedParent, Parent.dropped, Parent.registered, fileParent, handles_set]
    rfl
  rw [hcases] at hhandle
  split_ifs at hhandle
  · exact .inr (Option.some.inj hhandle).symm
  · exact .inl (Option.some.inj hhandle).symm

/-- Of two items, the one is cleaned whose handle has not been dropped. -/
theorem cleansWhatIsLeft_iff_sample : CleansWhatIsLeft messageText.toJsonText droppedParent ∧
    Cleans messageText.toJsonText droppedParent.pipe fileItem ∧
    ¬ Cleans messageText.toJsonText droppedParent.pipe (commandItem []) := by
  have hne : (commandItem []).key ≠ fileItem.key := by
    intro h
    cases h
  have hcleans : CleansWhatIsLeft messageText.toJsonText droppedParent := by
    refine (cleansWhatIsLeft_iff messageText droppedParent_reachable).2 ⟨?_, ?_, ?_⟩
    · intro h item hhandle s hs
      cases hs
    · intro h item hhandle before item' after heq hkey
      obtain rfl : item = fileItem := by
        rcases handles_droppedParent hhandle with he | he
        · exact congrArg Handle.item he
        · cases congrArg Handle.phase he
      -- only the command has been cancelled
      have hmem : .cancel item' ∈ [CleanupMessage.add fileItem, .add (commandItem []), .cancel (commandItem [])] := by
        rw [show [_, _, _] = droppedParent.announced from rfl, heq]
        simp
      simp only [List.mem_cons, List.not_mem_nil, or_false, reduceCtorEq, false_or, CleanupMessage.cancel.injEq] at hmem
      exact absurd (hmem ▸ hkey) hne
    · intro s item hs
      cases hs
  have hdropped : Handle.IsFor ⟨commandItem [], .cancelled⟩ (commandItem []) := by
    refine ⟨rfl, ?_⟩
    intro h
    cases h
  refine ⟨hcleans, hcleans.live 0 fileItem rfl, hcleans.dropped _ ⟨1, _, rfl, hdropped⟩ fun h handle hhandle hfor => ?_⟩
  rcases handles_droppedParent hhandle with rfl | rfl
  · exact absurd hfor.1.symm hne
  · rfl

/-- It then begins to register a command, and dies after the first byte of the message. -/
def cutParent (arg : List Char) : Parent :=
  { fileParent.set 1 ⟨commandItem arg, .registering⟩ with
    sending := some ⟨1, .add (commandItem arg), (messageLine (commandText arg)).take 1, (messageLine (commandText arg)).drop 1⟩
    pipe := fileParent.pipe ++ (messageLine (commandText arg)).take 1 }

section Cut

variable {arg : List Char} (hlong : pipeBuf < arg.length)
include hlong

theorem cutParent_isCut (s : Sending) (hs : (cutParent arg).sending = some s) : s.IsCut := by
  have hline := length_lt_messageLine arg
  rw [pipeBuf] at hlong
  obtain rfl := Option.some.inj hs
  constructor
  · intro heq
    have hlength := congrArg List.length heq
    rw [List.length_take, List.length_nil] at hlength
    omega
  · intro heq
    have hlength := congrArg List.length heq
    rw [List.length_drop, List.length_singleton] at hlength
    omega

theorem cutParent_reachable : Reachable messageText.toJsonText (cutParent arg) := by
  have hline := length_lt_messageLine arg
  have hnow : (messageLine (commandText arg)).take 1 ≠ [] := (cutParent_isCut hlong _ rfl).1
  have hlater : (messageLine (commandText arg)).drop 1 ≠ [] := by
    intro heq
    have hlength := congrArg List.length heq
    rw [pipeBuf] at hlong
    rw [List.length_drop, List.length_nil] at hlength
    omega
  have hsplit : (messageLine (commandText arg)).take 1 ++ (messageLine (commandText arg)).drop 1 =
      messageLine (commandText arg) := List.take_append_drop 1 _
  have hregister : Reachable messageText.toJsonText
      { fileParent.set 1 ⟨commandItem arg, .registering⟩ with
        sending := some ⟨1, .add (commandItem arg), [], messageLine (commandText arg)⟩ } :=
    fileParent_reachable.tail (Parent.Step.register rfl rfl rfl)
  have hwrite := hregister.tail (Parent.Step.write (congrArg (fun line => some (Sending.mk 1 _ [] line)) hsplit.symm)
    hnow hlater (by rw [List.nil_append, hsplit]; omega))
  exact hwrite

end Cut

/-- **The daemon misses an item**: a part of the next message makes it end with an error. -/
theorem cleanup_misses : ¬ ∀ p, Reachable messageText.toJsonText p → CleansWhatIsLeft messageText.toJsonText p := by
  intro h
  have hlong : pipeBuf < (List.replicate 5000 'x').length := by
    rw [List.length_replicate]
    decide
  have hreachable := cutParent_reachable hlong
  obtain ⟨items, hitems, -⟩ := (h _ hreachable).live 0 fileItem rfl
  rw [(parentInv_of_reachable hreachable).cleaned_of_isCut rfl (cutParent_isCut hlong _ rfl)] at hitems
  cases hitems

end Evobench.Utillib

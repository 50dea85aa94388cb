import Evobench.Utillib.CleanupMessage
import Mathlib.Logic.Function.Basic
import Mathlib.Logic.Relation

/-!
# The cleanup daemon

The program (the parent) has handles of temporary files and of commands to be run. When it makes one, it sends a message to the
cleanup daemon that adds the item; when a handle is dropped, the parent cleans the item up by itself, and then sends a message
that cancels it. When the parent dies, the pipe ends, and the daemon runs the cleanup of the items that have been added and not
cancelled.

## The model

* `cleaned`: what the daemon does with the bytes that it has received. It is a set of items, in which equal items are one item;
  a line that is no message ends the daemon with an error.
* `Parent`, `Parent.Step`: the parent. Threads share it; the daemon is locked while a message is sent. A message that is longer
  than `pipeBuf` is written in pieces, of any size. The parent may die in any state that it can reach (`Reachable`).

Handles whose own cleanup fails are dropped without a message.

## What is proved

After some messages, the items are those that the last message about an equal item adds (`mem_handleMessages_iff`).
-/

namespace Evobench.Utillib

open Library Run

/-! ### The daemon -/

/-- `items.insert` -/
def insertItem (items : List (CleanupItem OsString)) (item : CleanupItem OsString) : List (CleanupItem OsString) :=
  if ∃ i ∈ items, i.key = item.key then items else items ++ [item]

/-- `items.remove` -/
def removeItem (items : List (CleanupItem OsString)) (item : CleanupItem OsString) : List (CleanupItem OsString) :=
  items.filter fun i => i.key ≠ item.key

/-- What the daemon does with a message. -/
def handleMessage (items : List (CleanupItem OsString)) : CleanupMessage OsString → List (CleanupItem OsString)
  | .add item => insertItem items item
  | .cancel item => removeItem items item

/-- The messages one after the other; the daemon ends at an error. -/
def handleLines (serde : JsonText (CleanupMessage OsString)) :
    List (CleanupItem OsString) → List (List UInt8) → Option (List (CleanupItem OsString))
  | items, [] => some items
  | items, line :: lines => do
    let message ← readMessage serde line
    handleLines serde (handleMessage items message) lines

/-- The items whose cleanup the daemon runs, after the pipe has ended; none of them after an error. -/
def cleaned (serde : JsonText (CleanupMessage OsString)) (pipe : List UInt8) : Option (List (CleanupItem OsString)) :=
  handleLines serde [] (readLines pipe)

/-- The daemon runs the cleanup of the item. -/
def Cleans (serde : JsonText (CleanupMessage OsString)) (pipe : List UInt8) (item : CleanupItem OsString) : Prop :=
  ∃ items, cleaned serde pipe = some items ∧ ∃ i ∈ items, i.key = item.key

/-! ### The parent -/

/-- What has become of a handle. -/
inductive Phase where
  /-- The message that adds the item is being sent; the program does not have the handle yet. -/
  | registering
  /-- The program has the handle. -/
  | live
  /-- It is being dropped, and its own cleanup has succeeded. -/
  | cleaned
  /-- It is dropped, after its own cleanup. -/
  | cancelled
  /-- It is dropped, and its own cleanup has failed. -/
  | failed
deriving DecidableEq

/-- What a handle is once its message is sent. -/
def Phase.sent : Phase → Phase
  | .registering => .live
  | .cleaned => .cancelled
  | phase => phase

/-- `TemporaryFile` or `TemporaryCommand` -/
structure Handle where
  /-- What is to be cleaned up. -/
  item : CleanupItem OsString
  /-- What has become of it. -/
  phase : Phase

/-- A message that is being sent, while the daemon is locked. -/
structure Sending where
  /-- For which handle. -/
  handle : ℕ
  /-- The message. -/
  message : CleanupMessage OsString
  /-- What is written already. -/
  written : List UInt8
  /-- What is not. -/
  rest : List UInt8

/-- The parent, and the pipe. -/
structure Parent where
  /-- The handles. -/
  handles : ℕ → Option Handle
  /-- The message that is being sent. -/
  sending : Option Sending
  /-- What is written. -/
  pipe : List UInt8
  /-- The messages that have been sent. -/
  sent : List (CleanupMessage OsString)

/-- At the start. -/
def Parent.init : Parent := ⟨fun _ => none, none, [], []⟩

/-- `PIPE_BUF`: up to this size, a message is written at once. -/
def pipeBuf : ℕ := 4096

/-- A handle changes. -/
def Parent.set (p : Parent) (h : ℕ) (handle : Handle) : Parent := { p with handles := Function.update p.handles h (some handle) }

/-- A step of the parent. -/
inductive Parent.Step (serde : JsonText (CleanupMessage OsString)) : Parent → Parent → Prop
  /-- `register_cleanup`: the daemon is locked. -/
  | register {p : Parent} {h : ℕ} {item : CleanupItem OsString} {text : List Char} (free : p.handles h = none)
    (unlocked : p.sending = none) (text_eq : serde.toString (.add item) = some text) :
    Step serde p { p.set h ⟨item, .registering⟩ with sending := some ⟨h, .add item, [], messageLine text⟩ }
  /-- A piece of a long message is written. -/
  | write {p : Parent} {h : ℕ} {message : CleanupMessage OsString} {written chunk rest : List UInt8}
    (sending : p.sending = some ⟨h, message, written, chunk ++ rest⟩) (some_now : chunk ≠ []) (some_later : rest ≠ [])
    (long : pipeBuf < (written ++ chunk ++ rest).length) :
    Step serde p { p with sending := some ⟨h, message, written ++ chunk, rest⟩, pipe := p.pipe ++ chunk }
  /-- The message is sent. -/
  | send {p : Parent} {h : ℕ} {message : CleanupMessage OsString} {written rest : List UInt8} {handle : Handle}
    (sending : p.sending = some ⟨h, message, written, rest⟩) (handle_eq : p.handles h = some handle) :
    Step serde p { p.set h ⟨handle.item, handle.phase.sent⟩ with
      sending := none, pipe := p.pipe ++ rest, sent := p.sent ++ [message] }
  /-- `drop`: the own cleanup succeeds. -/
  | cleanup {p : Parent} {h : ℕ} {item : CleanupItem OsString} (live : p.handles h = some ⟨item, .live⟩) :
    Step serde p (p.set h ⟨item, .cleaned⟩)
  /-- `drop`: the own cleanup fails. -/
  | fail {p : Parent} {h : ℕ} {item : CleanupItem OsString} (live : p.handles h = some ⟨item, .live⟩) :
    Step serde p (p.set h ⟨item, .failed⟩)
  /-- `cancel_cleanup`: the daemon is locked. -/
  | cancel {p : Parent} {h : ℕ} {item : CleanupItem OsString} {text : List Char}
    (cleaned : p.handles h = some ⟨item, .cleaned⟩) (unlocked : p.sending = none)
    (text_eq : serde.toString (.cancel item) = some text) :
    Step serde p { p with sending := some ⟨h, .cancel item, [], messageLine text⟩ }
  /-- `cancel_cleanup`: there is no text for the message. -/
  | cancelFails {p : Parent} {h : ℕ} {item : CleanupItem OsString} (cleaned : p.handles h = some ⟨item, .cleaned⟩)
    (no_text : serde.toString (.cancel item) = none) : Step serde p (p.set h ⟨item, .cancelled⟩)

/-- The parent may die here. -/
def Reachable (serde : JsonText (CleanupMessage OsString)) : Parent → Prop :=
  Relation.ReflTransGen (Parent.Step serde) Parent.init

/-! ### The messages that arrive -/

/-- The items after some messages. -/
def handleMessages (messages : List (CleanupMessage OsString)) : List (CleanupItem OsString) :=
  messages.foldl handleMessage []

/-- The last message about the item adds it. -/
def LastAdds (messages : List (CleanupMessage OsString)) (key : CleanupItem FilePath) : Prop :=
  ∃ before item after, messages = before ++ .add item :: after ∧ item.key = key ∧
    ∀ item', .cancel item' ∈ after → item'.key ≠ key

section Messages

variable {messages : List (CleanupMessage OsString)} {item : CleanupItem OsString} {key : CleanupItem FilePath}

@[simp] theorem not_lastAdds_nil : ¬ LastAdds [] key := by
  rintro ⟨before, item, after, heq, -⟩
  exact absurd (congrArg List.length heq) (by simp)

theorem lastAdds_add_iff : LastAdds (messages ++ [.add item]) key ↔ item.key = key ∨ LastAdds messages key := by
  constructor
  · rintro ⟨before, item', after, heq, hkey, hafter⟩
    rcases List.eq_nil_or_concat after with rfl | ⟨after, message, rfl⟩
    · obtain ⟨-, hlast⟩ := List.append_inj' heq rfl
      cases hlast
      exact .inl hkey
    · rw [List.concat_eq_append, ← List.cons_append, ← List.append_assoc] at heq
      obtain ⟨rfl, -⟩ := List.append_inj' heq rfl
      exact .inr ⟨before, item', after, rfl, hkey, fun i hi => hafter i (by simp [hi])⟩
  · rintro (hkey | ⟨before, item', after, rfl, hkey, hafter⟩)
    · exact ⟨messages, item, [], rfl, hkey, by simp⟩
    · refine ⟨before, item', after ++ [.add item], by simp, hkey, fun i hi => hafter i ?_⟩
      simpa using hi

theorem lastAdds_cancel_iff : LastAdds (messages ++ [.cancel item]) key ↔ item.key ≠ key ∧ LastAdds messages key := by
  constructor
  · rintro ⟨before, item', after, heq, hkey, hafter⟩
    rcases List.eq_nil_or_concat after with rfl | ⟨after, message, rfl⟩
    · obtain ⟨-, hlast⟩ := List.append_inj' heq rfl
      cases hlast
    · rw [List.concat_eq_append, ← List.cons_append, ← List.append_assoc] at heq
      obtain ⟨rfl, hlast⟩ := List.append_inj' heq rfl
      cases hlast
      exact ⟨hafter item (by simp), before, item', after, rfl, hkey, fun i hi => hafter i (by simp [hi])⟩
  · rintro ⟨hne, before, item', after, rfl, hkey, hafter⟩
    refine ⟨before, item', after ++ [.cancel item], by simp, hkey, fun i hi => ?_⟩
    rcases List.mem_append.1 hi with hi | hi
    · exact hafter i hi
    · cases List.mem_singleton.1 hi
      exact hne

theorem mem_insertItem_iff {items : List (CleanupItem OsString)} :
    (∃ i ∈ insertItem items item, i.key = key) ↔ item.key = key ∨ ∃ i ∈ items, i.key = key := by
  rw [insertItem]
  split
  · next hmem =>
    refine ⟨.inr, ?_⟩
    rintro (rfl | h)
    · exact hmem
    · exact h
  · simp only [List.mem_append, List.mem_singleton, or_and_right, exists_or, exists_eq_left]
    exact or_comm

theorem mem_removeItem_iff {items : List (CleanupItem OsString)} :
    (∃ i ∈ removeItem items item, i.key = key) ↔ item.key ≠ key ∧ ∃ i ∈ items, i.key = key := by
  simp only [removeItem, List.mem_filter, decide_eq_true_eq]
  constructor
  · rintro ⟨i, ⟨hi, hne⟩, rfl⟩
    exact ⟨Ne.symm hne, i, hi, rfl⟩
  · rintro ⟨hne, i, hi, rfl⟩
    exact ⟨i, ⟨hi, Ne.symm hne⟩, rfl⟩

/-- The items after some messages are those that have been added last. -/
theorem mem_handleMessages_iff : (∃ i ∈ handleMessages messages, i.key = key) ↔ LastAdds messages key := by
  induction messages using List.reverseRecOn with
  | nil => simp [handleMessages]
  | append_singleton messages message ih =>
    rw [handleMessages, List.foldl_append, ← handleMessages, List.foldl_cons, List.foldl_nil]
    cases message with
    | add item => rw [handleMessage, mem_insertItem_iff, ih, lastAdds_add_iff]
    | cancel item => rw [handleMessage, mem_removeItem_iff, ih, lastAdds_cancel_iff]

/-- An item that has been added is added last if no message cancels it afterwards. -/
theorem lastAdds_iff_of_mem (hmem : .add item ∈ messages) : LastAdds messages item.key ↔
    ∀ before item' after, messages = before ++ .cancel item' :: after → item'.key = item.key →
      ∃ item'', .add item'' ∈ after ∧ item''.key = item.key := by
  constructor
  · rintro ⟨before, item₁, after, rfl, hkey, hafter⟩ before' item₂ after' heq hkey'
    rcases List.append_eq_append_iff.1 heq with ⟨gap, hbefore', hgap⟩ | ⟨gap, hbefore, hgap⟩
    · -- The message that cancels comes after the one that adds.
      cases gap with
      | nil => cases hgap
      | cons message gap =>
        obtain ⟨-, rfl⟩ := List.cons.inj hgap
        exact absurd hkey' (hafter item₂ (by simp))
    · cases gap with
      | nil => cases hgap
      | cons message gap =>
        obtain ⟨-, rfl⟩ := List.cons.inj hgap
        exact ⟨item₁, by simp, hkey⟩
  · intro hcancelled
    induction messages using List.reverseRecOn with
    | nil => cases hmem
    | append_singleton messages message ih =>
      cases message with
      | add item₁ =>
        rw [lastAdds_add_iff]
        by_cases hkey : item₁.key = item.key
        · exact .inl hkey
        · refine .inr (ih ?_ fun before item' after heq hkey' => ?_)
          · rcases List.mem_append.1 hmem with hmem | hmem
            · exact hmem
            · cases List.mem_singleton.1 hmem
              exact absurd rfl hkey
          · obtain ⟨item'', hmem'', hkey''⟩ := hcancelled before item' (after ++ [.add item₁]) (by simp [heq]) hkey'
            refine ⟨item'', ?_, hkey''⟩
            rcases List.mem_append.1 hmem'' with hmem'' | hmem''
            · exact hmem''
            · cases List.mem_singleton.1 hmem''
              exact absurd hkey'' hkey
      | cancel item₁ =>
        have hne : item₁.key ≠ item.key := by
          intro hkey
          obtain ⟨item'', hmem'', -⟩ := hcancelled messages item₁ [] rfl hkey
          cases hmem''
        refine lastAdds_cancel_iff.2 ⟨hne, ih ?_ fun before item' after heq hkey' => ?_⟩
        · rcases List.mem_append.1 hmem with hmem | hmem
          · exact hmem
          · cases List.mem_singleton.1 hmem
        · obtain ⟨item'', hmem'', hkey''⟩ := hcancelled before item' (after ++ [.cancel item₁]) (by simp [heq]) hkey'
          refine ⟨item'', ?_, hkey''⟩
          rcases List.mem_append.1 hmem'' with hmem'' | hmem''
          · exact hmem''
          · cases List.mem_singleton.1 hmem''

end Messages

end Evobench.Utillib

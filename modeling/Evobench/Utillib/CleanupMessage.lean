import Evobench.Library.CompactJson
import Evobench.Run.OutputDirectory
import Evobench.Utillib.NdjsonPipe

/-!
# Messages to the cleanup daemon

What is to be cleaned up when the program dies: files and directories to be deleted, and commands to be run. The program says so
to the cleanup daemon, with one message to add an item, and one to cancel it.

The daemon compares items, and paths are the same if they have the same components: `CleanupItem.key` is an item up to that.

## What is proved

`serdeJson` is the text of a message in the representation of `serde`. A text is never the start of the text of another message
(`prefixFree_serdeJson`), so it can be read back.
-/

namespace Evobench.Utillib

open Library Run

/-- `Deletion` -/
inductive Deletion (P : Type) where
  /-- A single file, deleted via `remove_file`, does not work for dirs -/
  | file (path : P)
  /-- A directory, deleted via `remove_dir_all`. -/
  | dir (path : P)
deriving DecidableEq

/-- A command to run. -/
structure CleanupCommand (P : Type) where
  /-- The executable. -/
  path : P
  /-- Its arguments. -/
  args : List (List Char)
  /-- The working directory. -/
  cwd : Option P
deriving DecidableEq

/-- `CleanupItem` -/
inductive CleanupItem (P : Type) where
  /-- Something to delete. -/
  | deletion (d : Deletion P)
  /-- Something to run. -/
  | cleanupCommand (c : CleanupCommand P)
deriving DecidableEq

/-- `CleanupMessage` -/
inductive CleanupMessage (P : Type) where
  /-- Add an item for clean up on exit -/
  | add (item : CleanupItem P)
  /-- Remove an item from being cleaned up -/
  | cancel (item : CleanupItem P)

section Paths

variable {P Q : Type}

/-- With other paths. -/
def CleanupItem.map (f : P → Q) : CleanupItem P → CleanupItem Q
  | .deletion (.file path) => .deletion (.file (f path))
  | .deletion (.dir path) => .deletion (.dir (f path))
  | .cleanupCommand c => .cleanupCommand ⟨f c.path, c.args, c.cwd.map f⟩

/-- With other paths. -/
def CleanupMessage.map (f : P → Q) : CleanupMessage P → CleanupMessage Q
  | .add item => .add (item.map f)
  | .cancel item => .cancel (item.map f)

/-- With other paths, if there is one for each. -/
def CleanupItem.mapM (f : P → Option Q) : CleanupItem P → Option (CleanupItem Q)
  | .deletion (.file path) => (f path).map fun path => .deletion (.file path)
  | .deletion (.dir path) => (f path).map fun path => .deletion (.dir path)
  | .cleanupCommand ⟨path, args, none⟩ => (f path).map fun path => .cleanupCommand ⟨path, args, none⟩
  | .cleanupCommand ⟨path, args, some cwd⟩ => do
    let path ← f path
    let cwd ← f cwd
    pure (.cleanupCommand ⟨path, args, some cwd⟩)

/-- With other paths, if there is one for each. -/
def CleanupMessage.mapM (f : P → Option Q) : CleanupMessage P → Option (CleanupMessage Q)
  | .add item => (item.mapM f).map .add
  | .cancel item => (item.mapM f).map .cancel

/-- Paths that can be changed back. -/
theorem CleanupItem.eq_map_of_mapM {f : P → Option Q} {g : Q → P} (h : ∀ p q, f p = some q → p = g q) {item : CleanupItem P}
    {item' : CleanupItem Q} (hmap : item.mapM f = some item') : item = item'.map g := by
  obtain (path | path) | ⟨path, args, cwd⟩ := item
  · obtain ⟨q, hq, rfl⟩ := Option.map_eq_some_iff.1 hmap
    rw [h path q hq]
    rfl
  · obtain ⟨q, hq, rfl⟩ := Option.map_eq_some_iff.1 hmap
    rw [h path q hq]
    rfl
  · cases cwd with
    | none =>
      obtain ⟨q, hq, rfl⟩ := Option.map_eq_some_iff.1 hmap
      rw [h path q hq]
      rfl
    | some cwd =>
      obtain ⟨q, hq, hmap⟩ := Option.bind_eq_some_iff.1 hmap
      obtain ⟨q', hq', hmap⟩ := Option.bind_eq_some_iff.1 hmap
      obtain rfl := Option.some.inj hmap
      rw [h path q hq, h cwd q' hq']
      rfl

theorem CleanupMessage.eq_map_of_mapM {f : P → Option Q} {g : Q → P} (h : ∀ p q, f p = some q → p = g q)
    {message : CleanupMessage P} {message' : CleanupMessage Q} (hmap : message.mapM f = some message') :
    message = message'.map g := by
  cases message with
  | add item =>
    obtain ⟨item', hitem, rfl⟩ := Option.map_eq_some_iff.1 hmap
    rw [CleanupItem.eq_map_of_mapM h hitem]
    rfl
  | cancel item =>
    obtain ⟨item', hitem, rfl⟩ := Option.map_eq_some_iff.1 hmap
    rw [CleanupItem.eq_map_of_mapM h hitem]
    rfl

end Paths

/-- An item as the daemon compares it. -/
def CleanupItem.key (item : CleanupItem OsString) : CleanupItem FilePath := item.map Path.ofText

/-- What is documented about `serde_json` for these messages: whether there is a text depends on the item alone. -/
structure MessageText extends JsonText (CleanupMessage OsString) where
  /-- An item that was added can be cancelled. -/
  cancel_text : ∀ item, (toString (.add item)).isSome = true → (toString (.cancel item)).isSome = true

/-! ### The representation of serde -/

/-- The text of a deletion. -/
def Deletion.json : Deletion (List Char) → List Char
  | .file path => CompactJson.object "File".toList (CompactJson.quote path)
  | .dir path => CompactJson.object "Dir".toList (CompactJson.quote path)

/-- The text of a command. -/
def CleanupCommand.json (c : CleanupCommand (List Char)) : List Char :=
  ('{' :: (CompactJson.quote "path".toList ++ [':'])) ++ (CompactJson.quote c.path ++
    ((',' :: (CompactJson.quote "args".toList ++ [':'])) ++ (CompactJson.array c.args ++
      ((',' :: (CompactJson.quote "cwd".toList ++ [':'])) ++ (CompactJson.optional c.cwd ++ ['}'])))))

/-- The text of an item. -/
def CleanupItem.json : CleanupItem (List Char) → List Char
  | .deletion d => CompactJson.object "Deletion".toList d.json
  | .cleanupCommand c => CompactJson.object "CleanupCommand".toList c.json

/-- The text of a message. -/
def CleanupMessage.json : CleanupMessage (List Char) → List Char
  | .add item => CompactJson.object "Add".toList item.json
  | .cancel item => CompactJson.object "Cancel".toList item.json

theorem prefixCode_deletion : PrefixCode Deletion.json := by
  rintro (path | path) (path' | path') x y heq
  · obtain ⟨-, hvalue⟩ := CompactJson.object_append_inj heq
    obtain ⟨rfl, hrest⟩ := CompactJson.prefixCode_quote hvalue
    exact ⟨rfl, (List.cons.inj hrest).2⟩
  · exact absurd (CompactJson.object_append_inj heq).1 (by decide)
  · exact absurd (CompactJson.object_append_inj heq).1 (by decide)
  · obtain ⟨-, hvalue⟩ := CompactJson.object_append_inj heq
    obtain ⟨rfl, hrest⟩ := CompactJson.prefixCode_quote hvalue
    exact ⟨rfl, (List.cons.inj hrest).2⟩

theorem prefixCode_command : PrefixCode CleanupCommand.json := by
  rintro ⟨path, args, cwd⟩ ⟨path', args', cwd'⟩ x y heq
  simp only [CleanupCommand.json, List.append_assoc] at heq
  obtain ⟨rfl, hargs⟩ := CompactJson.prefixCode_quote (List.append_cancel_left heq)
  obtain ⟨rfl, hcwd⟩ := CompactJson.prefixCode_array (List.append_cancel_left hargs)
  obtain ⟨rfl, hend⟩ := CompactJson.prefixCode_optional (List.append_cancel_left hcwd)
  exact ⟨rfl, List.append_cancel_left hend⟩

theorem prefixCode_item : PrefixCode CleanupItem.json := by
  rintro (d | c) (d' | c') x y heq
  · obtain ⟨-, hvalue⟩ := CompactJson.object_append_inj heq
    obtain ⟨rfl, hrest⟩ := prefixCode_deletion hvalue
    exact ⟨rfl, (List.cons.inj hrest).2⟩
  · exact absurd (CompactJson.object_append_inj heq).1 (by decide)
  · exact absurd (CompactJson.object_append_inj heq).1 (by decide)
  · obtain ⟨-, hvalue⟩ := CompactJson.object_append_inj heq
    obtain ⟨rfl, hrest⟩ := prefixCode_command hvalue
    exact ⟨rfl, (List.cons.inj hrest).2⟩

theorem prefixCode_message : PrefixCode CleanupMessage.json := by
  rintro (item | item) (item' | item') x y heq
  · obtain ⟨-, hvalue⟩ := CompactJson.object_append_inj heq
    obtain ⟨rfl, hrest⟩ := prefixCode_item hvalue
    exact ⟨rfl, (List.cons.inj hrest).2⟩
  · exact absurd (CompactJson.object_append_inj heq).1 (by decide)
  · exact absurd (CompactJson.object_append_inj heq).1 (by decide)
  · obtain ⟨-, hvalue⟩ := CompactJson.object_append_inj heq
    obtain ⟨rfl, hrest⟩ := prefixCode_item hvalue
    exact ⟨rfl, (List.cons.inj hrest).2⟩

theorem newline_notMem_item (item : CleanupItem (List Char)) : '\n' ∉ item.json := by
  obtain (path | path) | c := item
  · exact CompactJson.newline_notMem_object (CompactJson.newline_notMem_object (CompactJson.newline_notMem_quote path))
  · exact CompactJson.newline_notMem_object (CompactJson.newline_notMem_object (CompactJson.newline_notMem_quote path))
  · refine CompactJson.newline_notMem_object ?_
    simp only [CleanupCommand.json, List.mem_append, not_or]
    exact ⟨by decide, CompactJson.newline_notMem_quote _, by decide, CompactJson.newline_notMem_array _, by decide,
      CompactJson.newline_notMem_optional _, by decide⟩

theorem newline_notMem_message (message : CleanupMessage (List Char)) : '\n' ∉ message.json := by
  cases message with
  | add item => exact CompactJson.newline_notMem_object (newline_notMem_item item)
  | cancel item => exact CompactJson.newline_notMem_object (newline_notMem_item item)

/-- The text of a message: an error if a path is no text. -/
def serdeJson (message : CleanupMessage OsString) : Option (List Char) :=
  (message.mapM OsString.toStr).map CleanupMessage.json

theorem prefixFree_serdeJson : PrintsPrefixFree serdeJson where
  one_line := by
    intro message text htext
    obtain ⟨texts, -, rfl⟩ := Option.map_eq_some_iff.1 htext
    exact newline_notMem_message texts
  prefix_free := by
    intro message message' text text' htext htext' hpre
    obtain ⟨texts, htexts, rfl⟩ := Option.map_eq_some_iff.1 htext
    obtain ⟨texts', htexts', rfl⟩ := Option.map_eq_some_iff.1 htext'
    obtain rfl := prefixCode_message.eq_of_isPrefix hpre
    rw [CleanupMessage.eq_map_of_mapM (fun _ _ => OsString.eq_ofChars_of_toStr) htexts,
      CleanupMessage.eq_map_of_mapM (fun _ _ => OsString.eq_ofChars_of_toStr) htexts']

/-- `serde_json` for these messages. -/
noncomputable def messageText : MessageText where
  toJsonText := .ofPrinter prefixFree_serdeJson
  cancel_text := by
    intro item hadd
    obtain ⟨text, htext⟩ := Option.isSome_iff_exists.1 hadd
    obtain ⟨texts, htexts, -⟩ := Option.map_eq_some_iff.1 htext
    obtain ⟨item', hitem, -⟩ := Option.map_eq_some_iff.1 htexts
    show ((CleanupMessage.cancel item).mapM OsString.toStr |>.map CleanupMessage.json).isSome = true
    rw [show (CleanupMessage.cancel item).mapM OsString.toStr = (item.mapM OsString.toStr).map .cancel from rfl, hitem]
    rfl

end Evobench.Utillib

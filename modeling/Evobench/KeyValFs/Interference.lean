import Evobench.Library.Interleaving
import Evobench.KeyValFs.Queue

/-!
# Tables and queues under interference

What the operations of tables and queues do while other processes work on the same files: `Touches T` says
that only files in `T` have been changed. Every operation of an insertion touches the file of its key and the
temporary file only (`KeyVal.respects_insert`), and a push touches files that are named after keys of the own
process only (`Queue.respects_pushFront`).

A process can therefore rely on its own temporary files between two of its operations, and
`Queue.upholds_pushFront` is the rule for a push among other processes that do not touch them.
-/

namespace Evobench.KeyValFs

open Library IoUtils

variable {C X : Type} {R : X → Type} {K V ε α : Type} {pid : Pid}

/-! ### What an operation touches -/

/-- Only files in `T` have been changed. -/
def Touches (T : String → String → Prop) (w w' : World C X R) : Prop :=
  ∀ dir name, ¬ T dir name → w'.disk.file dir name = w.disk.file dir name

/-- No file has been changed. -/
abbrev Untouched : World C X R → World C X R → Prop := Touches fun _ _ => False

theorem Touches.mono {T T' : String → String → Prop} {w w' : World C X R} (h : Touches T w w')
    (hT : ∀ dir name, T dir name → T' dir name) : Touches T' w w' :=
  fun dir name hn => h dir name fun ht => hn (hT dir name ht)

/-- The files that an operation changes. -/
def touched : Op C X → String → String → Prop
  | .createFile dir name => fun dir' name' => dir' = dir ∧ name' = name
  | .writeAll dir name _ => fun dir' name' => dir' = dir ∧ name' = name
  | .rename dir source target => fun dir' name' => dir' = dir ∧ (name' = source ∨ name' = target)
  | .removeFile dir name => fun dir' name' => dir' = dir ∧ name' = name
  | _ => fun _ _ => False

theorem disk_of_failing {w w' : World C X R} {k : Except IoError α × Disk C} {x : Except IoError α}
    (h : failing w k = some (x, w')) : w'.disk = w.disk ∨ w'.disk = k.2 := by
  unfold failing at h
  split at h
  · cases h
    exact .inl rfl
  · cases h
    exact .inr rfl

theorem touches_of_disk {T : String → String → Prop} {w w' : World C X R} {d : Disk C}
    (h : w'.disk = w.disk ∨ w'.disk = d) (hd : ∀ dir name, ¬ T dir name → d.file dir name = w.disk.file dir name) :
    Touches T w w' := by
  intro dir name hn
  rcases h with h | h
  · rw [h]
  · rw [h, hd dir name hn]

theorem file_put_of_not {d : Disk C} {dir name : String} {c : Option C} {dir' name' : String}
    (h : ¬ (dir' = dir ∧ name' = name)) : (d.put dir name c).file dir' name' = d.file dir' name' := by
  rw [Disk.file_put, if_neg h]

theorem file_erase_of_not {d : Disk C} {dir name : String} {dir' name' : String}
    (h : ¬ (dir' = dir ∧ name' = name)) : (d.erase dir name).file dir' name' = d.file dir' name' := by
  rw [Disk.file_erase, if_neg h]

/-- **An operation touches its own files only.** -/
theorem touches_act {o : Op C X} {w w' : World C X R} {x : Ans C X R o}
    (h : (machine pid).act o w = some (x, w')) : Touches (touched o) w w' := by
  cases o with
  | readDir dir => exact touches_of_disk (disk_of_failing h) fun _ _ _ => rfl
  | pathExists dir name =>
    cases h
    exact fun _ _ _ => rfl
  | openFile dir name =>
    refine touches_of_disk (disk_of_failing h) fun _ _ _ => ?_
    split
    · rfl
    · rfl
  | createFile dir name => exact touches_of_disk (disk_of_failing h) fun _ _ hn => file_put_of_not hn
  | writeAll dir name content =>
    simp only [machine, act] at h
    split at h
    · cases h
      exact fun _ _ hn => file_put_of_not hn
    · cases h
      exact fun _ _ hn => file_put_of_not hn
  | syncFile dir name => exact touches_of_disk (disk_of_failing h) fun _ _ _ => rfl
  | rename dir source target =>
    refine touches_of_disk (disk_of_failing h) fun dir' name' hn => ?_
    split
    · rfl
    · rw [file_put_of_not fun he => hn ⟨he.1, .inr he.2⟩, file_erase_of_not fun he => hn ⟨he.1, .inl he.2⟩]
  | syncDir dir => exact touches_of_disk (disk_of_failing h) fun _ _ _ => rfl
  | removeFile dir name =>
    refine touches_of_disk (disk_of_failing h) fun _ _ hn => ?_
    split
    · rfl
    · exact file_erase_of_not hn
  | flockExclusive path =>
    simp only [machine, act] at h
    split at h
    · cases h
      exact fun _ _ _ => rfl
    · split at h
      · cases h
        exact fun _ _ _ => rfl
      · cases h
  | tryFlockExclusive path =>
    simp only [machine, act] at h
    split at h
    · cases h
      exact fun _ _ _ => rfl
    · split at h
      · cases h
        exact fun _ _ _ => rfl
      · cases h
        exact fun _ _ _ => rfl
  | funlock path =>
    cases h
    exact fun _ _ _ => rfl
  | systemTime =>
    cases h
    exact fun _ _ _ => rfl
  | processId =>
    cases h
    exact fun _ _ _ => rfl
  | nextId =>
    cases h
    exact fun _ _ _ => rfl
  | call x =>
    cases h
    exact fun _ _ _ => rfl

/-! ### What programs touch -/

section Respects

/-- All operations of the program touch files in `T` only, and what it returns is in `Q`. -/
abbrev TouchesOnly (pid : Pid) (T : String → String → Prop) (Q : α → Prop) (p : Tool C X R ε α) : Prop :=
  Prog.Respects (machine pid) (Touches T) Q p

variable {T : String → String → Prop}

/-- A system call. -/
theorem touchesOnly_op {Q : α → Prop} {o : Op C X} {k : Ans C X R o → Tool C X R ε α}
    (hT : ∀ dir name, touched o dir name → T dir name)
    (hk : ∀ w x w', (machine pid).act o w = some (x, w') → TouchesOnly pid T Q (k x)) : TouchesOnly pid T Q (.op o k) :=
  fun w x w' h => ⟨(touches_act h).mono hT, hk w x w' h⟩

/-- A system call that can fail. -/
theorem touchesOnly_failing {o : Op C X} {k : Ans C X R o → Except IoError α}
    (hT : ∀ dir name, touched o dir name → T dir name) :
    TouchesOnly pid T (fun _ => True) (.op o fun x => Prog.ofExcept (k x) : Tool C X R IoError α) :=
  touchesOnly_op hT fun _ _ _ _ => .ofExcept fun _ _ => trivial

theorem touchesOnly_withLock {Q : α → Prop} {path : String} {p : Tool C X R ε α} (h : TouchesOnly pid T Q p) :
    TouchesOnly pid T Q (Sys.withLock path p) :=
  h.finally_ fun _ _ _ hact => (touches_act hact).mono fun _ _ h => h.elim

namespace KeyVal

variable {kv : KeyVal K V}

theorem respects_lockExclusive : TouchesOnly pid T (fun _ => True) (kv.lockExclusive : Tool C X R KeyValError Unit) :=
  .mapErr (touchesOnly_failing fun _ _ h => h.elim)

theorem respects_perhapsSyncDir :
    TouchesOnly pid T (fun _ => True) (kv.perhapsSyncDir : Tool C X R KeyValError Unit) := by
  unfold perhapsSyncDir
  split_ifs
  · exact .mapErr (touchesOnly_failing fun _ _ h => h.elim)
  · exact trivial

theorem respects_flushAndPerhapsSyncFile {name ctx : String} :
    TouchesOnly pid T (fun _ => True) (kv.flushAndPerhapsSyncFile name ctx : Tool C X R KeyValError Unit) := by
  unfold flushAndPerhapsSyncFile
  split_ifs
  · exact .mapErr (touchesOnly_failing fun _ _ h => h.elim)
  · exact trivial

variable [AsKey K]

/-- The file of a key, and the temporary file for it. -/
def Files (kv : KeyVal K V) (key : K) (dir name : String) : Prop :=
  dir = kv.baseDir ∧ (name = asFilenameStr key ∨ name = "." ++ asFilenameStr key)

/-- Looking an entry up touches nothing, and the entry is that of the key. -/
theorem respects_entryOpt {key : K} :
    TouchesOnly pid T (fun a => ∀ entry, a = some entry → entry.baseDir = kv.baseDir ∧
      entry.fileName = asFilenameStr key) (kv.entryOpt key : Tool C X R KeyValError (Option (Entry C V))) := by
  rw [entryOpt, if_pos (verified_asFilenameStr key)]
  refine .bind (Prog.Respects.attempt (touchesOnly_failing fun _ _ h => h.elim)) fun a _ => ?_
  split
  · rintro _ ⟨⟩
    exact ⟨rfl, rfl⟩
  · rintro _ ⟨⟩
  · exact trivial

/-- **Insertion** touches the file of the key and the temporary file for it. -/
theorem respects_insert [Serde C V] {key : K} {val : V} {exclusive : Bool} :
    TouchesOnly pid (kv.Files key) (fun _ => True) (kv.insert key val exclusive : Tool C X R KeyValError Unit) := by
  have htmp : ∀ dir name, dir = kv.baseDir ∧ name = "." ++ asFilenameStr key → kv.Files key dir name :=
    fun _ _ h => ⟨h.1, .inr h.2⟩
  rw [insert, if_pos (verified_asFilenameStr key)]
  refine .bind respects_lockExclusive fun _ _ => touchesOnly_withLock ?_
  refine .bind (Q := fun _ => True) (touchesOnly_op (fun _ _ h => h.elim) fun _ _ _ _ => trivial) fun targetExists _ => ?_
  split
  · exact trivial
  · refine .bind (.mapErr (touchesOnly_failing htmp)) fun _ _ => ?_
    refine .bind (.mapErr (touchesOnly_failing htmp)) fun _ _ => ?_
    refine .bind respects_flushAndPerhapsSyncFile fun _ _ => ?_
    refine .bind (.mapErr (touchesOnly_failing fun _ _ h => ⟨h.1, h.2.symm⟩)) fun _ _ => ?_
    exact respects_perhapsSyncDir

end KeyVal

/-- Deleting an entry touches its file. -/
theorem Entry.respects_delete {entry : Entry C V} :
    TouchesOnly pid (fun dir name => dir = entry.baseDir ∧ name = entry.fileName) (fun _ => True)
      (entry.delete : Tool C X R KeyValError Bool) := by
  refine .bind (Prog.Respects.attempt (touchesOnly_failing fun _ _ h => h)) fun a _ => ?_
  split
  · exact trivial
  · exact trivial
  · exact trivial

/-- A key is made by the process that runs. -/
theorem respects_timeKeyNow : TouchesOnly pid T (fun key => key.pid = pid) (TimeKey.now : Tool C X R ε TimeKey) := by
  refine .bind (Q := fun _ => True) (touchesOnly_op (fun _ _ h => h.elim) fun _ _ _ _ => trivial) fun time _ => ?_
  by_cases h : 0 ≤ time.nanos
  · rw [dif_pos h]
    refine .bind (Q := fun x => x = pid) (touchesOnly_op (fun _ _ h => h.elim) fun w x w' hact => ?_) fun x hx => ?_
    · exact (Prod.mk.inj (Option.some.inj hact)).1.symm
    · exact touchesOnly_op (fun _ _ h => h.elim) fun _ _ _ _ => hx
  · rw [dif_neg h]
    exact trivial

namespace Queue

variable {queue : Queue V}

/-- The files of the keys that a process has made, and the temporary files for them. -/
def FilesOf (queue : Queue V) (pid : Pid) (dir name : String) : Prop :=
  ∃ key : TimeKey, key.pid = pid ∧ queue.keyVal.Files key dir name

/-- The files of two processes are different. -/
theorem not_filesOf {pid' : Pid} (h : pid' ≠ pid) {dir name : String} (hown : queue.FilesOf pid' dir name) :
    ¬ queue.FilesOf pid dir name := by
  rintro ⟨key, hkey, -, hname⟩
  obtain ⟨key', hkey', -, hname'⟩ := hown
  have htmp := isTmp_asFilenameStr key
  have htmp' := isTmp_asFilenameStr key'
  have hsame : asFilenameStr key' = asFilenameStr key → False := by
    intro he
    rw [← hkey', ← hkey, asFilenameStr_injective he] at h
    exact h rfl
  rcases hname with rfl | rfl
  · rcases hname' with he | he
    · exact hsame he.symm
    · rw [he, isTmp_dot] at htmp
      cases htmp
  · rcases hname' with he | he
    · rw [← he, isTmp_dot] at htmp'
      cases htmp'
    · exact hsame (by simpa using he.symm)

/-- **A push** touches files of the own process only. -/
theorem respects_pushFront [Serde C V] {val : V} :
    TouchesOnly pid (queue.FilesOf pid) (fun _ => True) (queue.pushFront val : Tool C X R KeyValError Unit) := by
  refine .bind respects_timeKeyNow fun key hkey => ?_
  exact KeyVal.respects_insert.imp fun _ _ h => h.mono fun _ _ hf => ⟨key, hkey, hf⟩

end Queue

end Respects

/-! ### Programs among other processes -/

section Upholds

variable {Rely : World C X R → World C X R → Prop} {I : World C X R → Prop} {w : World C X R}

/-- A program whose changes keep `I`. -/
theorem upholds_of_touchesOnly {T : String → String → Prop} {Q : α → Prop} {p : Tool C X R ε α}
    (hI : ∀ t u, Rely t u → I t → I u) (h : TouchesOnly pid T Q p) (hT : ∀ t u, Touches T t u → I t → I u)
    (hw : I w) : Prog.Upholds (machine pid) Rely I (fun r _ => ∀ a, r = .ok a → Q a) p w :=
  Prog.Upholds.of_respects hI (h.imp hT) hw

/-- Looking up an entry that no one takes away. -/
theorem KeyVal.upholds_entryOpt [AsKey K] {kv : KeyVal K V} {key : K} (hI : ∀ t u, Rely t u → I t → I u)
    (hsame : ∀ t u, Untouched t u → I t → I u)
    (hthere : ∀ t, I t → t.disk.file kv.baseDir (asFilenameStr key) ≠ none) (hw : I w) :
    Prog.Upholds (machine pid) Rely I (fun r _ => r ≠ .ok none)
      (kv.entryOpt key : Tool C X R KeyValError (Option (Entry C V))) w := by
  rw [entryOpt, if_pos (verified_asFilenameStr key)]
  refine .bind (.attempt ⟨hw, fun t ht x t' hact => ?_⟩)
  have hIt := hI _ _ ht hw
  have hIt' : I t' := hsame _ _ ((touches_act hact).mono fun _ _ h => h) hIt
  have hx : x ≠ .error .notFound := by
    rintro rfl
    obtain ⟨content, hcontent⟩ := Option.ne_none_iff_exists'.1 (hthere t hIt)
    simp only [machine, act, hcontent, failing] at hact
    split at hact
    · cases hact
    · cases hact
  cases x with
  | ok content => exact ⟨hIt', hIt', by simp⟩
  | error e =>
    cases e with
    | notFound => exact absurd rfl hx
    | other errno => exact ⟨hIt', hIt', by simp⟩

/-- The temporary file for a key. -/
def KeyVal.TmpFile [AsKey K] (kv : KeyVal K V) (key : K) (dir name : String) : Prop :=
  dir = kv.baseDir ∧ name = "." ++ asFilenameStr key

/-- The renaming, when the temporary file has the content that has been written. -/
theorem disk_of_rename {kv : KeyVal K V} [AsKey K] {key : K} {content : Option C} {t t' : World C X R}
    {x : Except IoError Unit} (hfile : t.disk.file kv.baseDir ("." ++ asFilenameStr key) = some content)
    (hact : (machine pid).act (.rename kv.baseDir ("." ++ asFilenameStr key) (asFilenameStr key)) t = some (x, t')) :
    t'.disk = t.disk ∨ t'.disk =
      (t.disk.erase kv.baseDir ("." ++ asFilenameStr key)).put kv.baseDir (asFilenameStr key) content := by
  simp only [machine, act, hfile] at hact
  exact disk_of_failing hact

theorem upholds_untouched {β : Type} {T : String → String → Prop} {p : Tool C X R KeyValError β}
    (hI : ∀ t u, Rely t u → I t → I u) (hT : ∀ t u, Touches T t u → I t → I u)
    (hp : TouchesOnly pid T (fun _ => True) p) (hw : I w) :
    Prog.Upholds (machine pid) Rely I (fun _ _ => True) p w :=
  (upholds_of_touchesOnly hI hp hT hw).mono (fun _ => id) fun _ _ _ _ => trivial

section Insert

variable [AsKey K] [Serde C V] {kv : KeyVal K V} {key : K} {val : V} {exclusive : Bool}

omit [Serde C V] in
/-- The end of an insertion, when the temporary file has been written. -/
theorem KeyVal.upholds_rename {content : Option C}
    (hRely : ∀ t u, Rely t u → u.disk.file kv.baseDir ("." ++ asFilenameStr key) =
      t.disk.file kv.baseDir ("." ++ asFilenameStr key))
    (hI : ∀ t u, Rely t u → I t → I u) (hsame : ∀ t u, Untouched t u → I t → I u)
    (hput : ∀ t u, u.disk = (t.disk.erase kv.baseDir ("." ++ asFilenameStr key)).put kv.baseDir (asFilenameStr key)
      content → I t → I u) {syncCtx : String} {wrap : IoError → KeyValError} (hw : I w)
    (hfile : w.disk.file kv.baseDir ("." ++ asFilenameStr key) = some content) :
    Prog.Upholds (machine pid) Rely I (fun _ _ => True) (do
      kv.flushAndPerhapsSyncFile ("." ++ asFilenameStr key) syncCtx
      (Sys.rename kv.baseDir ("." ++ asFilenameStr key) (asFilenameStr key)).mapErr wrap
      kv.perhapsSyncDir : Tool C X R KeyValError Unit) w := by
  have hboth : ∀ {t u : World C X R}, (I t → I u) → u.disk.file kv.baseDir ("." ++ asFilenameStr key) =
      t.disk.file kv.baseDir ("." ++ asFilenameStr key) →
      I t ∧ t.disk.file kv.baseDir ("." ++ asFilenameStr key) = some content →
      I u ∧ u.disk.file kv.baseDir ("." ++ asFilenameStr key) = some content :=
    fun h he hb => ⟨h hb.1, he.trans hb.2⟩
  have hflush : Prog.Upholds (machine pid) Rely (fun t => I t ∧ t.disk.file kv.baseDir ("." ++ asFilenameStr key) =
      some content) (fun _ _ => True) (kv.flushAndPerhapsSyncFile ("." ++ asFilenameStr key) syncCtx :
      Tool C X R KeyValError Unit) w :=
    upholds_untouched (T := fun _ _ => False) (fun _ _ h => hboth (hI _ _ h) (hRely _ _ h))
      (fun _ _ h => hboth (hsame _ _ h) (h _ _ not_false)) respects_flushAndPerhapsSyncFile ⟨hw, hfile⟩
  refine .bind (hflush.mono (fun _ h => h.1) fun r t ht _ => ?_)
  cases r with
  | err e => trivial
  | panic msg => trivial
  | ok _ =>
    refine .bind (.mapErr ⟨ht.1, fun u hu x u' hact => ?_⟩)
    have hu' : I u' := by
      rcases disk_of_rename ((hRely _ _ hu).trans ht.2) hact with hd | hd
      · exact hsame _ _ (fun _ _ _ => by rw [hd]) (hI _ _ hu ht.1)
      · exact hput _ _ hd (hI _ _ hu ht.1)
    cases x with
    | error e => exact ⟨hu', trivial⟩
    | ok _ => exact ⟨hu', upholds_untouched hI hsame respects_perhapsSyncDir hu'⟩

/-- **Insertion among other processes** that leave the temporary file alone. -/
theorem KeyVal.upholds_insert
    (hRely : ∀ t u, Rely t u → u.disk.file kv.baseDir ("." ++ asFilenameStr key) =
      t.disk.file kv.baseDir ("." ++ asFilenameStr key))
    (hI : ∀ t u, Rely t u → I t → I u) (htmp : ∀ t u, Touches (kv.TmpFile key) t u → I t → I u)
    (hput : ∀ t u, u.disk = (t.disk.erase kv.baseDir ("." ++ asFilenameStr key)).put kv.baseDir (asFilenameStr key)
      (some (Serde.toString val)) → I t → I u) (hw : I w) :
    Prog.Upholds (machine pid) Rely I (fun _ _ => True)
      (kv.insert key val exclusive : Tool C X R KeyValError Unit) w := by
  have hsame : ∀ t u : World C X R, Untouched t u → I t → I u :=
    fun _ _ h => htmp _ _ (h.mono fun _ _ hf => hf.elim)
  rw [insert, if_pos (verified_asFilenameStr key)]
  refine .bind ((upholds_untouched hI hsame respects_lockExclusive hw).mono (fun _ => id) fun r v hv _ => ?_)
  cases r with
  | err e => trivial
  | panic msg => trivial
  | ok _ =>
    refine .finally_ (Prog.Upholds.mono (I := I) (Q := fun _ _ => True) ?_ (fun _ => id) fun r t ht _ u hu x u' hact =>
      ⟨hsame _ _ ((touches_act hact).mono fun _ _ h => h) (hI _ _ hu ht), trivial⟩)
    have hexists : TouchesOnly pid (fun _ _ => False) (fun _ => True)
        (Sys.pathExists kv.baseDir (asFilenameStr key) : Tool C X R KeyValError Bool) :=
      touchesOnly_op (fun _ _ h => h) fun _ _ _ _ => trivial
    refine .bind ((upholds_untouched hI hsame hexists hv).mono (fun _ => id) fun r t ht _ => ?_)
    cases r with
    | err e => trivial
    | panic msg => trivial
    | ok targetExists =>
      show Prog.Upholds _ _ _ _ (if _ then _ else _) t
      split
      · exact ⟨ht, trivial⟩
      refine .bind ((upholds_untouched hI htmp ?_ ht).mono (fun _ => id) fun r t ht _ => ?_)
      · exact .mapErr (touchesOnly_failing fun _ _ h => h)
      cases r with
      | err e => trivial
      | panic msg => trivial
      | ok _ =>
        refine .bind (.mapErr ⟨ht, fun u hu x u' hact => ?_⟩)
        have hu' : I u' := htmp _ _ ((touches_act hact).mono fun _ _ h => h) (hI _ _ hu ht)
        cases x with
        | error e => exact ⟨hu', trivial⟩
        | ok _ =>
          have hfile : u'.disk.file kv.baseDir ("." ++ asFilenameStr key) = some (some (Serde.toString val)) := by
            simp only [machine, act] at hact
            split at hact
            · cases hact
            · cases hact
              exact Disk.file_put_self _ _ _ _
          exact ⟨hu', upholds_rename hRely hI hsame hput hu' hfile⟩

end Insert

/-- **A push among other processes** that leave the files of the own keys alone. -/
theorem Queue.upholds_pushFront [Serde C V] {queue : Queue V} {val : V}
    (hRely : ∀ t u, Rely t u → ∀ dir name, queue.FilesOf pid dir name →
      u.disk.file dir name = t.disk.file dir name)
    (hI : ∀ t u, Rely t u → I t → I u)
    (htmp : ∀ t u, Touches (fun dir name => dir = queue.keyVal.baseDir ∧ isTmp name = true) t u → I t → I u)
    (hput : ∀ t u (key : TimeKey), key.pid = pid → u.disk = (t.disk.erase queue.keyVal.baseDir
      ("." ++ asFilenameStr key)).put queue.keyVal.baseDir (asFilenameStr key) (some (Serde.toString val)) → I t → I u)
    (hw : I w) :
    Prog.Upholds (machine pid) Rely I (fun _ _ => True) (queue.pushFront val : Tool C X R KeyValError Unit) w := by
  have hsame : ∀ t u : World C X R, Untouched t u → I t → I u :=
    fun _ _ h => htmp _ _ (h.mono fun _ _ hf => hf.elim)
  refine .bind ((upholds_of_touchesOnly hI respects_timeKeyNow hsame hw).mono (fun _ => id) fun r t ht hr => ?_)
  cases r with
  | err e => trivial
  | panic msg => trivial
  | ok key =>
    have hkey : key.pid = pid := hr key rfl
    refine KeyVal.upholds_insert (fun t u h => ?_) hI (fun t u h => htmp t u (h.mono ?_)) (fun t u h => hput t u key hkey h) ht
    · exact hRely t u h _ _ ⟨key, hkey, rfl, .inr rfl⟩
    · rintro dir name ⟨rfl, rfl⟩
      exact ⟨rfl, isTmp_dot _⟩

end Upholds

end Evobench.KeyValFs
